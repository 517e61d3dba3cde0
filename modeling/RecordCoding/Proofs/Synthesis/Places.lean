/-
Where the declarations of a file stand, and in which order they are gone through.

A place in a file is a position among its items, followed by a position in that
module, and so on down to the declaration.  Places compare from the front, which
is the order of the text.

* `StandsAt` — a declaration at a place, with the modules around it;
* `exists_ordered_places` — the declarations that are collected are those at all
  places, in the order of their places.

Design notes: the modules around a declaration are collected on the way down.
`ofItems_inside` puts them in front afterwards, so that every other lemma is
about a file on its own.
-/
import RecordCoding.Synthesis.Expansion

namespace RecordCoding

/-! ### Declarations inside modules -/

namespace Candidate

/-- A declaration with more modules around it. -/
def inside (modules : List String) (c : Candidate) : Candidate := ⟨c.item, modules ++ c.modules⟩

theorem inside_inside (outer inner : List String) (c : Candidate) :
    (c.inside inner).inside outer = c.inside (outer ++ inner) := by
  rw [inside, inside, inside, List.append_assoc]

mutual

theorem ofItem_inside (modules : List String) (i : Item) :
    ofItem modules i = (ofItem [] i).map (inside modules) := by
  cases i with
  | type t =>
    rw [ofItem, ofItem, List.map_singleton, inside, List.append_nil]
  | module name content =>
    rw [ofItem, ofItem, ofContent_inside (modules ++ [name.spelled]) content,
      ofContent_inside ([] ++ [name.spelled]) content, List.map_map]
    exact List.map_congr_left fun c _ => (inside_inside modules [name.spelled] c).symm
  | other => rfl

theorem ofContent_inside (modules : List String) (content : Option (List Item)) :
    ofContent modules content = (ofContent [] content).map (inside modules) := by
  cases content with
  | none => rfl
  | some items =>
    rw [ofContent, ofContent, ofItems_inside modules items]

theorem ofItems_inside (modules : List String) (items : List Item) :
    ofItems modules items = (ofItems [] items).map (inside modules) := by
  cases items with
  | nil => rfl
  | cons i rest =>
    rw [ofItems, ofItems, List.map_append, ofItem_inside modules i, ofItems_inside modules rest]

end

theorem ofItems_append (modules : List String) (before after : List Item) :
    ofItems modules (before ++ after) = ofItems modules before ++ ofItems modules after := by
  induction before with
  | nil => rfl
  | cons i rest ih => rw [List.cons_append, ofItems, ofItems, ih, List.append_assoc]

end Candidate

/-! ### Places -/

/-- A declaration at a place in an item: the item itself, or at a place in an item
of its content. -/
inductive Item.Contains : Item → List Nat → Candidate → Prop
  | type (t : TypeItem) : Contains (.type t) [] ⟨t, []⟩
  | module {name : Ident} {content : List Item} {n : Nat} {i : Item} {place : List Nat}
      {c : Candidate} (hitem : content[n]? = some i) (hc : Contains i place c) :
      Contains (.module name (some content)) (n :: place) (c.inside [name.spelled])

/-- A declaration at a place of a file. -/
def StandsAt (items : List Item) (place : List Nat) (c : Candidate) : Prop :=
  ∃ n i p, place = n :: p ∧ items[n]? = some i ∧ i.Contains p c

/-- Declarations with their places: all that have one, in the order of the
places. -/
structure PlacesInOrder (Stands : List Nat → Candidate → Prop)
    (placed : List (List Nat × Candidate)) : Prop where
  sorted : placed.Pairwise fun a b => a.1 < b.1
  mem_iff : ∀ place c, (place, c) ∈ placed ↔ Stands place c

/-- A place one item later. -/
def laterPlace (place : List Nat) : List Nat := place.modifyHead (· + 1)

variable {i : Item} {items rest : List Item} {place : List Nat} {c : Candidate}

namespace StandsAt

/-- A declaration stands in the first item or in a later one. -/
theorem cons_iff :
    StandsAt (i :: rest) place c ↔
      (∃ p, i.Contains p c ∧ 0 :: p = place) ∨ ∃ p, StandsAt rest p c ∧ laterPlace p = place := by
  constructor
  · rintro ⟨n, j, p, rfl, hitem, hc⟩
    cases n with
    | zero =>
      obtain rfl : i = j := Option.some.inj hitem
      exact .inl ⟨p, hc, rfl⟩
    | succ n => exact .inr ⟨n :: p, ⟨n, j, p, rfl, hitem, hc⟩, rfl⟩
  · rintro (⟨p, hc, rfl⟩ | ⟨p, ⟨n, j, q, rfl, hitem, hc⟩, rfl⟩)
    · exact ⟨0, i, p, rfl, rfl, hc⟩
    · exact ⟨n + 1, j, q, rfl, hitem, hc⟩

/-- What stands in a module stands in its content, with one more name around it. -/
theorem module_iff {name : Ident} {content : List Item} :
    (Item.module name (some content)).Contains place c ↔
      ∃ d, StandsAt content place d ∧ d.inside [name.spelled] = c := by
  constructor
  · intro h
    cases h with
    | module hitem hc => exact ⟨_, ⟨_, _, _, rfl, hitem, hc⟩, rfl⟩
  · rintro ⟨d, ⟨n, j, p, rfl, hitem, hc⟩, rfl⟩
    exact .module hitem hc

theorem zero_lt_later {p q : List Nat} (hq : StandsAt rest q c) : 0 :: p < laterPlace q := by
  obtain ⟨n, -, r, rfl, -, -⟩ := hq
  exact List.cons_lt_cons_iff.mpr (.inl n.succ_pos)

theorem later_lt_later {d : Candidate} {p q : List Nat} (hp : StandsAt rest p c)
    (hq : StandsAt rest q d) (hlt : p < q) : laterPlace p < laterPlace q := by
  obtain ⟨n, -, p, rfl, -, -⟩ := hp
  obtain ⟨m, -, q, rfl, -, -⟩ := hq
  rcases List.cons_lt_cons_iff.mp hlt with hhead | ⟨rfl, htail⟩
  · exact List.cons_lt_cons_iff.mpr (.inl (Nat.succ_lt_succ hhead))
  · exact List.cons_lt_cons_iff.mpr (.inr ⟨rfl, htail⟩)

end StandsAt

/-! ### The order of collection -/

namespace PlacesInOrder

/-- What the first item contains comes before what stands in later ones. -/
theorem cons {first later : List (List Nat × Candidate)} (hfirst : PlacesInOrder i.Contains first)
    (hlater : PlacesInOrder (StandsAt rest) later) :
    PlacesInOrder (StandsAt (i :: rest))
      (first.map (fun pc => (0 :: pc.1, pc.2)) ++ later.map fun pc => (laterPlace pc.1, pc.2)) := by
  refine ⟨List.pairwise_append.mpr ⟨?_, ?_, ?_⟩, ?_⟩
  · rw [List.pairwise_map]
    exact hfirst.sorted.imp fun hlt => List.cons_lt_cons_iff.mpr (.inr ⟨rfl, hlt⟩)
  · rw [List.pairwise_map]
    exact hlater.sorted.imp_of_mem fun ha hb =>
      ((hlater.mem_iff _ _).mp ha).later_lt_later ((hlater.mem_iff _ _).mp hb)
  -- Places of the first item begin with a zero, those of later items do not.
  · intro a ha b hb
    obtain ⟨⟨p, c⟩, -, rfl⟩ := List.mem_map.mp ha
    obtain ⟨⟨q, d⟩, hd, rfl⟩ := List.mem_map.mp hb
    exact ((hlater.mem_iff q d).mp hd).zero_lt_later
  · intro place c
    simp only [List.mem_append, List.mem_map, Prod.mk.injEq, Prod.exists, StandsAt.cons_iff,
      hfirst.mem_iff, hlater.mem_iff]
    constructor
    · rintro (⟨p, d, hd, rfl, rfl⟩ | ⟨p, d, hd, rfl, rfl⟩)
      · exact .inl ⟨p, hd, rfl⟩
      · exact .inr ⟨p, hd, rfl⟩
    · rintro (⟨p, hc, rfl⟩ | ⟨p, hc, rfl⟩)
      · exact .inl ⟨p, c, hc, rfl, rfl⟩
      · exact .inr ⟨p, c, hc, rfl, rfl⟩

/-- The places in a module are those in its content. -/
theorem module {name : Ident} {content : List Item} {placed : List (List Nat × Candidate)}
    (h : PlacesInOrder (StandsAt content) placed) :
    PlacesInOrder (Item.module name (some content)).Contains
      (placed.map fun pc => (pc.1, pc.2.inside [name.spelled])) := by
  refine ⟨?_, fun place c => ?_⟩
  · rw [List.pairwise_map]
    exact h.sorted
  · simp only [List.mem_map, Prod.mk.injEq, Prod.exists, StandsAt.module_iff, h.mem_iff]
    constructor
    · rintro ⟨p, d, hd, rfl, rfl⟩
      exact ⟨d, hd, rfl⟩
    · rintro ⟨d, hd, rfl⟩
      exact ⟨place, d, hd, rfl, rfl⟩

/-- Nothing to place. -/
theorem nil {Stands : List Nat → Candidate → Prop} (h : ∀ place c, ¬ Stands place c) :
    PlacesInOrder Stands [] :=
  ⟨.nil, fun place c => ⟨fun hmem => absurd hmem (by simp), fun hc => absurd hc (h place c)⟩⟩

end PlacesInOrder

mutual

theorem exists_ordered_item (i : Item) :
    ∃ placed, PlacesInOrder i.Contains placed ∧ placed.map Prod.snd = Candidate.ofItem [] i := by
  match i with
  | .type t =>
    refine ⟨[([], ⟨t, []⟩)], ⟨List.pairwise_singleton _ _, fun place c => ?_⟩, rfl⟩
    rw [List.mem_singleton, Prod.mk.injEq]
    constructor
    · rintro ⟨rfl, rfl⟩
      exact .type t
    · intro h
      cases h
      exact ⟨rfl, rfl⟩
  | .module name none => exact ⟨[], .nil (fun place c h => nomatch h), rfl⟩
  | .module name (some content) =>
    obtain ⟨placed, hplaced, hsnd⟩ := exists_ordered_places content
    refine ⟨_, hplaced.module, ?_⟩
    rw [Candidate.ofItem, Candidate.ofContent, Candidate.ofItems_inside, ← hsnd, List.map_map,
      List.map_map]
    rfl
  | .other => exact ⟨[], .nil (fun place c h => nomatch h), rfl⟩

/-- **Every declaration is collected once, in the order of the text.** -/
theorem exists_ordered_places (items : List Item) :
    ∃ placed, PlacesInOrder (StandsAt items) placed ∧
      placed.map Prod.snd = Candidate.ofItems [] items := by
  match items with
  | [] =>
    refine ⟨[], .nil ?_, rfl⟩
    rintro place c ⟨n, i, p, -, hitem, -⟩
    exact absurd hitem (by simp)
  | i :: rest =>
    obtain ⟨first, hfirst, hfirstSnd⟩ := exists_ordered_item i
    obtain ⟨later, hlater, hlaterSnd⟩ := exists_ordered_places rest
    refine ⟨_, hfirst.cons hlater, ?_⟩
    rw [Candidate.ofItems, ← hfirstSnd, ← hlaterSnd, List.map_append, List.map_map, List.map_map]
    rfl

end

/-- A declaration is collected if it stands somewhere in the file. -/
theorem Candidate.mem_ofItems : c ∈ Candidate.ofItems [] items ↔ ∃ place, StandsAt items place c := by
  obtain ⟨placed, hplaced, hsnd⟩ := exists_ordered_places items
  rw [← hsnd, List.mem_map]
  constructor
  · rintro ⟨⟨place, d⟩, hd, rfl⟩
    exact ⟨place, (hplaced.mem_iff place d).mp hd⟩
  · rintro ⟨place, hc⟩
    exact ⟨(place, c), (hplaced.mem_iff place c).mpr hc, rfl⟩

end RecordCoding
