/-
No encoded tree repeats a key.

A value writes itself by a program over the operations of its encoder.  `Program`
is every such program: it may open containers again and again, write under keys
of any set, let other programs write into the same encoder or into encoders of
their own, look at the encoder, and go on as it likes after a failure.

* `Program.keepsUnique` — what one step keeps, every program keeps: the keys of
  an encoder are distinct and the trees in it have unique keys;
* `Writing.program_run`, `Datum.program_writing` — described values are written
  by programs;
* `Members.unique_encode` — generated members keep the keys distinct as well;
* `uniqueKeys_of_encoding` — hence no object in an encoded tree repeats a key,
  unless a tree that the value hands in does.

Design notes: a program that fails may leave anything behind that it wrote, so the
invariant is about the encoder and not about success.
-/
import RecordCoding.Proofs.Data.Parts
import RecordCoding.Proofs.Synthesis.Listings
import RecordCoding.Proofs.Tree.UniqueKeys
import RecordCoding.Proofs.Writing.History

namespace RecordCoding

/-! ### Programs over an encoder -/

/-- What a value may do with the encoder it is given, all trees that it hands in
having unique keys. -/
inductive Program : (Encoder → Written) → Prop
  /-- End, with success or with any failure. -/
  | finish (r : Except EncodeError Unit) : Program fun e => (r, e)
  /-- Hand in a tree as the single value. -/
  | value {t : Tree} (h : t.UniqueKeys) : Program fun e => (.ok (), e.write t)
  /-- Open a container, or open it again. -/
  | container : Program fun e => (.ok (), e.opened)
  /-- Let a program write a value under a key. -/
  | put (key : String) {content : Encoder → Written} (h : Program content) :
      Program fun e => e.opened.putWith key fun p => writtenTree (content (.fresh p))
  /-- Write elements of any type. -/
  | elements {α : Type} (c : Codec α) {xs : List α} (h : ∀ x ∈ xs, Program (c.encode x)) :
      Program (c.list.encode xs)
  /-- Look at the encoder and decide how to go on. -/
  | look {f : Encoder → Encoder → Written} (h : ∀ seen, Program (f seen)) : Program fun e => f e e
  /-- Go on with the same encoder, whatever became of the first part. -/
  | andThen {f : Encoder → Written} {g : Except EncodeError Unit → Encoder → Written}
      (hf : Program f) (hg : ∀ r, Program (g r)) : Program fun e => g (f e).1 (f e).2

theorem Program.of_eq {f g : Encoder → Written} (h : Program f) (heq : ∀ e, f e = g e) :
    Program g :=
  funext heq ▸ h

/-! ### What every step keeps -/

/-- All that an encoder holds has unique keys. -/
structure Encoder.Unique (e : Encoder) : Prop where
  single : ∀ t, e.single = some t → t.UniqueKeys
  entries : (Tree.object e.written).UniqueKeys

namespace Encoder.Unique

variable {e : Encoder} {t : Tree}

theorem fresh (p : CodingPath) : (Encoder.fresh p).Unique where
  single := nofun
  entries := Tree.uniqueKeys_object.mpr ⟨List.nodup_nil, by simp [Encoder.written, Encoder.fresh]⟩

theorem tree (h : e.Unique) : e.tree.UniqueKeys := by
  obtain ⟨path, single, entries⟩ := e
  cases entries with
  | some entries => exact h.entries
  | none =>
    cases single with
    | some t => exact h.single t rfl
    | none => exact Tree.uniqueKeys_of_isLeaf rfl

theorem write (e : Encoder) (ht : t.UniqueKeys) : (e.write t).Unique where
  single u hu := by
    obtain rfl := Option.some.inj hu
    exact ht
  entries := (fresh e.path).entries

theorem opened (h : e.Unique) : e.opened.Unique where
  single := nofun
  entries := h.entries

/-- The one place where entries are added: the key has to be new. -/
theorem putWith (h : e.Unique) {key : String} {encode : TreeMaker}
    (hencode : ∀ p t, encode p = .ok t → t.UniqueKeys) : (e.putWith key encode).2.Unique := by
  rw [Encoder.putWith]
  by_cases hkey : e.holdsKey key
  · rw [if_pos hkey]
    exact h
  · rw [if_neg hkey]
    rcases hmade : encode (e.path.key key) with err | t
    · exact h
    · obtain ⟨hnodup, htrees⟩ := Tree.uniqueKeys_object.mp h.entries
      have hnew : key ∉ e.written.map (·.1) := by simpa [holdsKey] using hkey
      refine ⟨h.single, Tree.uniqueKeys_object.mpr ⟨?_, ?_⟩⟩
      · show ((e.written ++ [(key, t)]).map (·.1)).Nodup
        rw [List.map_append, List.map_singleton, ← List.concat_eq_append]
        exact List.Nodup.concat hnew hnodup
      · show ∀ entry ∈ e.written ++ [(key, t)], entry.2.UniqueKeys
        rw [List.forall_mem_append, List.forall_mem_singleton]
        exact ⟨htrees, hencode _ t hmade⟩

end Encoder.Unique

/-- The trees of elements, each made on an encoder of its own. -/
theorem Codec.uniqueKeys_of_treesOf {α : Type} {c : Codec α} {xs : List α}
    (h : ∀ x ∈ xs, ∀ p t, c.treeAt x p = .ok t → t.UniqueKeys) {p : CodingPath} {index : Nat}
    {ts : List Tree} (hts : c.treesOf xs p index = .ok ts) : ∀ t ∈ ts, t.UniqueKeys := by
  induction xs generalizing index ts with
  | nil =>
    obtain rfl := Except.ok.inj hts
    simp
  | cons x rest ih =>
    rw [treesOf_cons] at hts
    obtain ⟨t, htree, hts⟩ := exists_of_bind_eq_ok hts
    obtain ⟨others, hrest, rfl⟩ := exists_of_map_eq_ok hts
    rw [List.forall_mem_cons]
    exact ⟨h x (List.mem_cons_self ..) _ t htree,
      ih (fun y hy => h y (List.mem_cons_of_mem _ hy)) hrest⟩

theorem Encoder.Unique.of_writtenTree {w : Written} {t : Tree} (h : w.2.Unique)
    (ht : writtenTree w = .ok t) : t.UniqueKeys := by
  obtain ⟨_ | ⟨⟩, e⟩ := w
  · exact absurd ht (by simp [writtenTree])
  · obtain rfl := Except.ok.inj ht
    exact h.tree

/-- Every program keeps the keys unique, be it that it fails or not. -/
theorem Program.keepsUnique {f : Encoder → Written} (h : Program f) :
    ∀ e : Encoder, e.Unique → (f e).2.Unique := by
  induction h with
  | finish r => exact fun e he => he
  | value ht => exact fun e _ => .write e ht
  | container => exact fun e he => he.opened
  | put key _ ih =>
    exact fun e he => he.opened.putWith fun p t ht => (ih _ (.fresh p)).of_writtenTree ht
  | elements c _ ih =>
    intro e he
    rename_i xs _
    rw [Codec.list]
    rcases htrees : c.treesOf xs e.path 0 with err | ts
    · simpa only [htrees] using he
    · simp only [htrees]
      refine .write e (Tree.uniqueKeys_array.mpr (Codec.uniqueKeys_of_treesOf ?_ htrees))
      exact fun x hx p t ht => (ih x hx _ (.fresh p)).of_writtenTree ht
  | look _ ih => exact fun e he => ih e e he
  | andThen _ _ ihf ihg => exact fun e he => ihg _ _ (ihf e he)

/-- The tree of a program has unique keys. -/
theorem Program.uniqueKeys {f : Encoder → Written} (h : Program f) {p : CodingPath} {t : Tree}
    (ht : writtenTree (f (.fresh p)) = .ok t) : t.UniqueKeys :=
  (h.keepsUnique _ (.fresh p)).of_writtenTree ht

/-! ### Programs of described values -/

namespace Writing

mutual

/-- The trees that a writing hands in as they are. -/
def handed : Writing → List Tree
  | .tree t => [t]
  | .integer _ => []
  | .elements items => handedOfAll items
  | .keyed writes => handedOfKeyed writes
  | .failing _ => []
  | .sequence steps => handedOfAll steps
  | .attempt w => w.handed

/-- The trees that any of some writings hands in. -/
def handedOfAll : List Writing → List Tree
  | [] => []
  | w :: rest => w.handed ++ handedOfAll rest

/-- The trees that are handed in under any key. -/
def handedOfKeyed : List (KeyedWriting Writing) → List Tree
  | [] => []
  | ⟨_, _, w⟩ :: rest => w.handed ++ handedOfKeyed rest

end

/-- The writing of an element as a codec. -/
def elementCodec : Codec Writing where
  encode := run
  decode d := .error (d.mismatch "writing")

theorem treesOf_elementCodec (ws : List Writing) (p : CodingPath) (index : Nat) :
    elementCodec.treesOf ws p index = trees ws p index := by
  induction ws generalizing index with
  | nil => rfl
  | cons w rest ih =>
    rw [Codec.treesOf, trees, ih]
    rfl

/-- Elements that are programs. -/
theorem program_elements {items : List Writing} (h : ∀ w ∈ items, Program w.run) :
    Program (Writing.elements items).run := by
  refine (Program.elements elementCodec h).of_eq fun e => ?_
  rw [run, Codec.list]
  simp only [treesOf_elementCodec]
  rcases trees items e.path 0 with err | ts <;> rfl

/-- Writes into a container, if what they write are programs. -/
theorem program_keyed {writes : List (KeyedWriting Writing)}
    (h : ∀ w ∈ writes, Program w.content.run) : Program (Writing.keyed writes).run := by
  induction writes with
  | nil => exact Program.container.of_eq fun e => by rw [run, runKeyed]
  | cons w rest ih =>
    have hrest := ih fun v hv => h v (List.mem_cons_of_mem _ hv)
    -- What comes after the first write: a failure is the end, unless it is tolerated.
    have hnext : ∀ r : Except EncodeError Unit, Program fun e =>
        match r with
        | .ok () => (Writing.keyed rest).run e
        | .error err => if w.tolerated then (Writing.keyed rest).run e else (.error err, e) := by
      rintro (err | ⟨⟩)
      · cases htolerated : w.tolerated with
        | true => exact hrest.of_eq fun _ => rfl
        | false => exact (Program.finish (.error err)).of_eq fun _ => rfl
      · exact hrest
    refine ((Program.put w.key (h w (List.mem_cons_self ..))).andThen hnext).of_eq fun e => ?_
    -- The container is open after the write, so opening it again does nothing.
    have hopened : (e.opened.putWith w.key w.content.treeAt).2.opened
        = (e.opened.putWith w.key w.content.treeAt).2 := e.opened_put w.key w.content
    show (match (e.opened.putWith w.key w.content.treeAt).1 with
        | .ok () => (Writing.keyed rest).run (e.opened.putWith w.key w.content.treeAt).2
        | .error err =>
          if w.tolerated then (Writing.keyed rest).run (e.opened.putWith w.key w.content.treeAt).2
          else (.error err, (e.opened.putWith w.key w.content.treeAt).2)) = _
    rw [run, run, hopened, runKeyed_cons]
    rcases e.opened.putWith w.key w.content.treeAt with ⟨_ | ⟨⟩, e'⟩ <;> rfl

/-- Writings one after the other, up to the first failure. -/
theorem program_sequence {steps : List Writing} (h : ∀ w ∈ steps, Program w.run) :
    Program (Writing.sequence steps).run := by
  induction steps with
  | nil => exact (Program.finish (.ok ())).of_eq fun e => by rw [run, runSequence]
  | cons w rest ih =>
    have hrest := ih fun v hv => h v (List.mem_cons_of_mem _ hv)
    have hnext : ∀ r : Except EncodeError Unit, Program fun e =>
        match r with
        | .ok () => (Writing.sequence rest).run e
        | .error err => (.error err, e) := by
      rintro (err | ⟨⟩)
      · exact .finish (.error err)
      · exact hrest
    refine ((h w (List.mem_cons_self ..)).andThen hnext).of_eq fun e => ?_
    rw [run, run, runSequence]
    rcases w.run e with ⟨_ | ⟨⟩, e'⟩ <;> rfl

mutual

/-- A writing is a program, if the trees it hands in have unique keys. -/
theorem program_run : ∀ w : Writing, (∀ t ∈ w.handed, t.UniqueKeys) → Program w.run
  | .tree t, h => (Program.value (h t (List.mem_singleton_self t))).of_eq fun e => by rw [run]
  | .integer n, _ => by
    by_cases hfits : fitsInt64 n
    · refine (Program.value (t := .integer (Int64.ofInt n)) (Tree.uniqueKeys_of_isLeaf rfl)).of_eq
        fun e => ?_
      rw [run, if_pos hfits]
    · refine (Program.look fun seen => .finish (.error (.outOfRange n seen.path))).of_eq fun e => ?_
      rw [run, if_neg hfits]
  | .elements items, h => program_elements (programs_of_handed items h)
  | .keyed writes, h => program_keyed (programs_of_handedKeyed writes h)
  | .failing message, _ =>
    (Program.look fun seen => .finish (.error (seen.failure message))).of_eq fun e => by rw [run]
  | .sequence steps, h => program_sequence (programs_of_handed steps h)
  | .attempt w, h =>
    ((program_run w h).andThen fun _ => .finish (.ok ())).of_eq fun e => by rw [run]

theorem programs_of_handed : ∀ ws : List Writing, (∀ t ∈ handedOfAll ws, t.UniqueKeys) →
    ∀ w ∈ ws, Program w.run
  | [], _ => by simp
  | w :: rest, h => by
    rw [handedOfAll, List.forall_mem_append] at h
    rw [List.forall_mem_cons]
    exact ⟨program_run w h.1, programs_of_handed rest h.2⟩

theorem programs_of_handedKeyed : ∀ ws : List (KeyedWriting Writing),
    (∀ t ∈ handedOfKeyed ws, t.UniqueKeys) → ∀ w ∈ ws, Program w.content.run
  | [], _ => by simp
  | ⟨_, _, w⟩ :: rest, h => by
    rw [handedOfKeyed, List.forall_mem_append] at h
    rw [List.forall_mem_cons]
    exact ⟨program_run w h.1, programs_of_handedKeyed rest h.2⟩

end

theorem program_leaf {t : Tree} (h : t.isLeaf) : Program (Writing.tree t).run :=
  program_run (.tree t) fun u hu => by
    obtain rfl := List.mem_singleton.mp hu
    exact Tree.uniqueKeys_of_isLeaf h

end Writing

namespace Datum

variable {s : Schema} {t : DataType} {d : Datum} {arguments : List DataType} {raw : Tree}

/-- A value of a type hands in a tree: it is a part of it, or a part with a writing
of its own hands it in. -/
def HandsIn (s : Schema) (t : DataType) (d : Datum) (raw : Tree) : Prop :=
  ∃ steps u e, Leads s t d steps u e ∧
    (u = .tree ∧ e = .tree raw ∨ ∃ w, u = .scripted w ∧ raw ∈ w.handed)

namespace HandsIn

theorem present (h : d.HandsIn s t raw) : (Datum.present d).HandsIn s (.option t) raw := by
  obtain ⟨steps, u, e, hleads, hraw⟩ := h
  exact ⟨steps, u, e, .present hleads, hraw⟩

theorem pointer (h : d.HandsIn s t raw) : (Datum.pointer d).HandsIn s (.pointer t) raw := by
  obtain ⟨steps, u, e, hleads, hraw⟩ := h
  exact ⟨steps, u, e, .pointer hleads, hraw⟩

theorem item {items : List Datum} (hd : d ∈ items) (h : d.HandsIn s t raw) :
    (Datum.list items).HandsIn s (.list t) raw := by
  obtain ⟨steps, u, e, hleads, hraw⟩ := h
  obtain ⟨i, hi⟩ := List.mem_iff_getElem?.mp hd
  exact ⟨.index i :: steps, u, e, .item hi hleads, hraw⟩

theorem field {name n : String} {fields : List (String × Datum)} {f : Field} {v : String × Datum}
    (hfield : (f, v) ∈ (s.fieldsOf name).zip fields)
    (htype : (f.coding.instantiate arguments).type? = some t) (h : v.2.HandsIn s t raw) :
    (Datum.record n fields).HandsIn s (.record name arguments) raw := by
  obtain ⟨steps, u, e, hleads, hraw⟩ := h
  exact ⟨.key f.key :: steps, u, e, .field hfield htype hleads, hraw⟩

end HandsIn

/-- Values of described types are written by programs, if the trees that they hand
in have unique keys. -/
theorem program_writing (s : Schema) (t : DataType) (d : Datum) :
    (∀ raw, d.HandsIn s t raw → raw.UniqueKeys) → Program (d.writing s t).run := by
  -- The recursion of `writing`, with the same said of the elements of a list and
  -- of the keyed fields of a record.
  apply writing.induct s
    (fun t d => (∀ raw, d.HandsIn s t raw → raw.UniqueKeys) → Program (d.writing s t).run)
    (fun arguments fs ds =>
      (∀ f v t, (f, v) ∈ fs.zip ds → (f.coding.instantiate arguments).type? = some t →
        ∀ raw, v.2.HandsIn s t raw → raw.UniqueKeys) →
      ∀ w ∈ writingOfFields s arguments fs ds, Program w.content.run)
    (fun t items =>
      (∀ d ∈ items, ∀ raw, d.HandsIn s t raw → raw.UniqueKeys) →
      ∀ w ∈ writingOfItems s t items, Program w.run)
  -- Leaves, `absent` among them.
  case case1 | case2 | case3 | case4 | case5 | case9 =>
    intros
    rw [writing]
    exact Writing.program_leaf rfl
  -- A tree as it is.
  case case6 =>
    intro raw h
    rw [writing]
    refine Writing.program_run (.tree raw) fun u hu => ?_
    obtain rfl := List.mem_singleton.mp hu
    exact h u ⟨[], _, _, .here _ _, .inl ⟨rfl, rfl⟩⟩
  case case7 =>
    intro kind n _
    rw [writing]
    exact Writing.program_run (.integer n) (by simp [Writing.handed])
  case case8 =>
    intro t items ih h
    rw [writing]
    exact Writing.program_elements (ih fun d hd raw hraw => h raw (hraw.item hd))
  case case10 =>
    intro t d ih h
    rw [writing]
    exact ih fun raw hraw => h raw hraw.present
  case case11 =>
    intro t d ih h
    rw [writing]
    exact ih fun raw hraw => h raw hraw.pointer
  case case12 =>
    intro name arguments n fields ih h
    rw [writing]
    exact Writing.program_keyed (ih fun f v t hfield htype raw hraw => h raw (hraw.field hfield htype))
  case case13 =>
    intro d message _
    rw [writing]
    exact Writing.program_run (.failing message) (by simp [Writing.handed])
  case case14 =>
    intro d w h
    rw [writing]
    exact Writing.program_run w fun u hu => h u ⟨[], _, _, .here _ _, .inr ⟨w, rfl, hu⟩⟩
  -- A value that is not of the type writes nothing.
  case case15 =>
    intros
    rw [writing]
    · exact Writing.program_sequence (by simp)
    all_goals assumption
  case case16 =>
    intro t _
    simp [writingOfItems]
  case case17 =>
    intro t d rest ihd ihrest h
    rw [List.forall_mem_cons] at h
    rw [writingOfItems, List.forall_mem_cons]
    exact ⟨ihd h.1, ihrest h.2⟩
  -- A keyed field, and an excluded one.
  case case18 =>
    intro arguments f fs name d ds t htype ihd ihrest h
    rw [writingOfFields]
    simp only [htype]
    rw [List.forall_mem_cons]
    exact ⟨ihd (h f (name, d) t (List.mem_cons_self ..) htype),
      ihrest fun g v u hmem => h g v u (List.mem_cons_of_mem _ hmem)⟩
  case case19 =>
    intro arguments f fs name d ds htype ihrest h
    rw [writingOfFields]
    simp only [htype]
    exact ihrest fun g v u hmem => h g v u (List.mem_cons_of_mem _ hmem)
  case case20 =>
    intro ds arguments fs hnone _
    rw [writingOfFields]
    · simp
    · exact hnone

end Datum

/-! ### Programs of generated members -/

section

variable {V : Path → Type} {O : Type} {codecs : ∀ p, Codec (V p)}

/-- The values of the types with a path that a field holds. -/
def FieldValue.parts : FieldValue V O → List (Σ p, V p)
  | .scalar p x => [⟨p, x⟩]
  | .optionalScalar p x => x.toList.map (⟨p, ·⟩)
  | .sequence p xs => xs.map (⟨p, ·⟩)
  | .optionalSequence p xs => (xs.getD []).map (⟨p, ·⟩)
  | .other _ => []

theorem Codec.program_option {α : Type} {c : Codec α} {x : Option α}
    (h : ∀ y ∈ x, Program (c.encode y)) : Program (c.option.encode x) := by
  cases x with
  | none => exact .value (Tree.uniqueKeys_of_isLeaf rfl)
  | some y => exact h y rfl

/-- A field is written by a program if its parts are. -/
theorem FieldValue.exists_program {v : FieldValue V O}
    (h : ∀ part ∈ v.parts, Program ((codecs part.1).encode part.2)) {make : TreeMaker}
    (hmake : v.maker codecs = some make) :
    ∃ f, Program f ∧ make = fun p => writtenTree (f (.fresh p)) := by
  cases v with
  | scalar p x =>
    obtain rfl := Option.some.inj hmake
    exact ⟨_, h ⟨p, x⟩ (List.mem_singleton_self _), rfl⟩
  | optionalScalar p x =>
    obtain rfl := Option.some.inj hmake
    refine ⟨_, Codec.program_option fun y hy => ?_, rfl⟩
    exact h ⟨p, y⟩ (List.mem_map.mpr ⟨y, Option.mem_toList.mpr hy, rfl⟩)
  | sequence p xs =>
    obtain rfl := Option.some.inj hmake
    exact ⟨_, .elements _ fun x hx => h ⟨p, x⟩ (List.mem_map.mpr ⟨x, hx, rfl⟩), rfl⟩
  | optionalSequence p xs =>
    obtain rfl := Option.some.inj hmake
    refine ⟨_, Codec.program_option fun ys hys => .elements _ fun y hy => ?_, rfl⟩
    obtain rfl : xs = some ys := hys
    exact h ⟨p, y⟩ (List.mem_map.mpr ⟨y, hy, rfl⟩)
  | other x => exact absurd hmake (by simp [FieldValue.maker])

/-- Writes into an open container keep the keys unique, up to a failure too. -/
theorem Encoder.Unique.putAll {writes : List (String × TreeMaker)}
    (hwrites : ∀ w ∈ writes, ∀ p t, w.2 p = .ok t → t.UniqueKeys) {e : Encoder} (h : e.Unique) :
    (e.putAll writes).2.Unique := by
  induction writes generalizing e with
  | nil => exact h
  | cons w rest ih =>
    obtain ⟨hfirst, hrest⟩ := List.forall_mem_cons.mp hwrites
    have hnext : (e.putWith w.1 w.2).2.Unique := h.putWith hfirst
    rw [Encoder.putAll]
    rcases hput : e.putWith w.1 w.2 with ⟨_ | ⟨⟩, e'⟩ <;> rw [hput] at hnext
    · exact hnext
    · exact ih hrest hnext

theorem exists_of_mem_mapM {α β : Type} {f : α → Option β} {l : List α} {ys : List β}
    (h : l.mapM f = some ys) {y : β} (hy : y ∈ ys) : ∃ x ∈ l, f x = some y := by
  induction l generalizing ys with
  | nil =>
    obtain rfl := Option.some.inj h
    exact absurd hy (by simp)
  | cons x rest ih =>
    rw [List.mapM_cons] at h
    obtain ⟨first, hfirst, h⟩ := Option.bind_eq_some_iff.mp h
    obtain ⟨others, hothers, h⟩ := Option.bind_eq_some_iff.mp h
    obtain rfl := Option.some.inj h
    rcases List.mem_cons.mp hy with rfl | hy
    · exact ⟨x, List.mem_cons_self .., hfirst⟩
    · obtain ⟨z, hz, hzy⟩ := ih hothers hy
      exact ⟨z, List.mem_cons_of_mem _ hz, hzy⟩

/-- Generated members keep the keys of their encoder unique. -/
theorem Members.unique_encode {m : Members} {self : RecordValue V O}
    (h : ∀ name, ∀ part ∈ (self name).parts, Program ((codecs part.1).encode part.2))
    {e : Encoder} (he : e.Unique) {w : Written} (hw : m.encode codecs self e = some w) :
    w.2.Unique := by
  obtain ⟨writes, hwrites, rfl⟩ := Option.map_eq_some_iff.mp hw
  refine he.opened.putAll fun write hwrite p t ht => ?_
  obtain ⟨s, -, hs⟩ := exists_of_mem_mapM hwrites hwrite
  obtain ⟨text, -, hs⟩ := Option.bind_eq_some_iff.mp hs
  obtain ⟨make, hmake, hs⟩ := Option.bind_eq_some_iff.mp hs
  obtain rfl := Option.some.inj hs
  obtain ⟨f, hf, rfl⟩ := FieldValue.exists_program (h s.field.name) hmake
  exact hf.uniqueKeys ht

end

/-! ### Encoded trees -/

/-- **No encoded tree repeats a key.**  This is so of all programs over an encoder,
of the values of described types and of the records of generated members, as long
as no tree that is handed in repeats one. -/
theorem uniqueKeys_of_encoding :
    (∀ (α : Type) (c : Codec α) (x : α) (p : CodingPath) (t : Tree),
      Program (c.encode x) → c.treeAt x p = .ok t → t.UniqueKeys) ∧
      (∀ (s : Schema) (type : DataType) (d : Datum) (t : Tree),
        (∀ raw, d.HandsIn s type raw → raw.UniqueKeys) → d.toTree s type = .ok t → t.UniqueKeys) ∧
      ∀ (V : Path → Type) (O : Type) (codecs : ∀ p, Codec (V p)) (m : Members)
        (self : RecordValue V O),
        (∀ name, ∀ part ∈ (self name).parts, Program ((codecs part.1).encode part.2)) →
          ∀ p w t, m.encode codecs self (.fresh p) = some w → writtenTree w = .ok t →
            t.UniqueKeys := by
  refine ⟨fun α c x p t h ht => h.uniqueKeys ht, fun s type d t h ht => ?_,
    fun V O codecs m self h p w t hw ht => ?_⟩
  · exact (Datum.program_writing s type d h).uniqueKeys ht
  · exact (Members.unique_encode h (.fresh p) hw).of_writtenTree ht

/-! ### Values that repeat keys -/

namespace Unruly

/-- Writes its only key twice and goes on after the failure. -/
def codec : Codec Int64 where
  encode n e :=
    let put (e : Encoder) := e.opened.putWith "n" fun _ => .ok (.integer n)
    (.ok (), (put (put e).2).2)
  decode d := .error (d.mismatch "integer")

theorem program_codec (n : Int64) : Program (codec.encode n) := by
  have hput : Program fun e => e.opened.putWith "n" fun _ => .ok (.integer n) :=
    Program.put "n" (.value (Tree.uniqueKeys_of_isLeaf (t := .integer n) rfl))
  exact (hput.andThen fun _ => hput.andThen fun _ => .finish (.ok ())).of_eq fun _ => rfl

/-- Opens its container again after a failure, repeats keys, and hands in a tree. -/
def writing : Writing :=
  .sequence [.attempt (.keyed [⟨"id", false, .integer 1⟩, ⟨"id", false, .integer 2⟩]),
    .keyed [⟨"id", true, .integer 3⟩, ⟨"raw", false, .tree (.object [("id", .null)])⟩]]

def type : DataType := .list (.scripted writing)

def value : Datum := .list [.absent]

theorem uniqueKeys_of_handsIn {raw : Tree} (h : value.HandsIn [] type raw) : raw.UniqueKeys := by
  obtain ⟨steps, u, e, hleads, hraw⟩ := h
  cases hleads with
  | here => simp [type] at hraw
  | item hitem hleads =>
    cases hleads
    obtain ⟨htype, -⟩ | ⟨w, hw, hraw⟩ := hraw
    · exact absurd htype (by simp)
    · obtain rfl := DataType.scripted.inj hw
      obtain rfl : raw = .object [("id", .null)] := by
        simpa [writing, Writing.handed, Writing.handedOfAll, Writing.handedOfKeyed] using hraw
      exact Tree.uniqueKeys_object.mpr ⟨by decide, by simpa using Tree.uniqueKeys_of_isLeaf rfl⟩

def counter : Path := .plain false [.plain "Counter"]

/-- A record of counters. -/
def declaration : Declaration where
  name := .plain "Counters"
  kind := .record
  visibility := .everyone
  generics := .none
  settings := .initial
  fields := [⟨.plain "one", .named counter, true⟩, ⟨.plain "more", .sequence (.named counter), true⟩]
  location := .start

def counters : RecordValue (fun _ => Int64) Unit
  | "one" => .scalar counter 1
  | _ => .sequence counter [2, 3]

def countersTree : Tree :=
  .object [("one", .object [("n", .integer 1)]),
    ("more", .array [.object [("n", .integer 2)], .object [("n", .integer 3)]])]

/-- Keys are repeated in all three ways, and each tree has them once. -/
theorem encoded_once :
    (codec.treeAt 1 .root = .ok (.object [("n", .integer 1)]) ∧
      (Tree.object [("n", .integer 1)]).UniqueKeys) ∧
      (value.toTree [] type = .ok (.array [.object [("id", .integer 1),
        ("raw", .object [("id", .null)])]]) ∧
      (Tree.array [.object [("id", .integer 1), ("raw", .object [("id", .null)])]]).UniqueKeys) ∧
      declaration.members = .ok declaration.built ∧
      (declaration.built.encode (fun _ => codec) counters (.fresh .root)).map writtenTree
        = some (.ok countersTree) ∧
      countersTree.UniqueKeys := by
  obtain ⟨hprogram, hdata, hcode⟩ := uniqueKeys_of_encoding
  have hcodec : codec.treeAt 1 .root = .ok (.object [("n", .integer 1)]) := by rfl
  have hvalue : value.toTree [] type = .ok (.array [.object [("id", .integer 1),
      ("raw", .object [("id", .null)])]]) := by rfl
  have hcounters : (declaration.built.encode (fun _ => codec) counters (.fresh .root)).map writtenTree
      = some (.ok countersTree) := by rfl
  refine ⟨⟨hcodec, hprogram _ codec 1 _ _ (program_codec 1) hcodec⟩,
    ⟨hvalue, hdata _ _ _ _ (fun raw => uniqueKeys_of_handsIn) hvalue⟩, by rfl, hcounters, ?_⟩
  obtain ⟨w, hw, ht⟩ := Option.map_eq_some_iff.mp hcounters
  exact hcode _ Unit (fun _ => codec) declaration.built counters
    (fun _ part _ => program_codec part.2) .root w _ hw ht

end Unruly

end RecordCoding
