/-
A printed path identifies its location.

A path is printed step by step without separators, so that where a step ends is told
by how the next one opens: by a point or by a bracket.  Keys with neither of them keep
the steps apart.

* `CodingPath.Plain` — no key of the path has a point or an opening bracket in it;
* `Declaration.plain_of_keys` — the keys that are generated for a record only make
  plain paths;
* `CodingPath.printed_identifies` — plain paths that are printed alike are the same.

Design notes: a key may be empty and may have a closing bracket in it.  Without the
condition the statement fails, for points and for brackets.
-/
import RecordCoding.Code.Scan
import RecordCoding.Proofs.Synthesis.Listings
import RecordCoding.Proofs.Text.Delimited

namespace RecordCoding

open Text (Leaves leaves_nil leaves_cons)

/-! ### Steps -/

/-- Whether a character opens a step of a printed path. -/
def PathStep.opens (c : Char) : Bool := c == '.' || c == '['

namespace PathStep

/-- A step with no key in which another step could open. -/
def Plain : PathStep → Prop
  | key name => '.' ∉ name.toList ∧ '[' ∉ name.toList
  | index _ => True

instance : DecidablePred Plain
  | key name => inferInstanceAs (Decidable ('.' ∉ name.toList ∧ '[' ∉ name.toList))
  | index _ => isTrue trivial

theorem opens_eq_false_of_plain {name : String} (h : (key name).Plain) :
    ∀ c ∈ name.toList, opens c = false := by
  intro c hc
  obtain ⟨hpoint, hbracket⟩ := h
  have hc1 : c ≠ '.' := fun heq => hpoint (heq ▸ hc)
  have hc2 : c ≠ '[' := fun heq => hbracket (heq ▸ hc)
  rw [opens, beq_false_of_ne hc1, beq_false_of_ne hc2, Bool.or_false]

variable {a b : PathStep} {r s : List Char}

/-- A step ends before the next one opens. -/
theorem chars_append_inj (ha : a.Plain) (hb : b.Plain) (hr : Leaves (!opens ·) r)
    (hs : Leaves (!opens ·) s) (h : a.chars ++ r = b.chars ++ s) : a = b ∧ r = s := by
  cases a with
  | key name =>
    cases b with
    | key other =>
      have hinside (v : String) (hv : (key v).Plain) : ∀ c ∈ v.toList, (!opens c) = true := by
        intro c hc
        rw [opens_eq_false_of_plain hv c hc]
        rfl
      obtain ⟨hname, hrest⟩ := Text.run_append_inj (hinside name ha) (hinside other hb) hr hs
        (List.cons.inj h).2
      exact ⟨congrArg key (String.toList_inj.mp hname), hrest⟩
    | index j => exact absurd (List.cons.inj h).1 (by decide)
  | index i =>
    cases b with
    | key other => exact absurd (List.cons.inj h).1 (by decide)
    | index j =>
      have hdigits : Decimal.digitsOf i ++ ']' :: r = Decimal.digitsOf j ++ ']' :: s := by
        simpa [chars] using h
      obtain ⟨rfl, hrest⟩ := Text.digitsOf_append_inj (leaves_cons (by decide) r)
        (leaves_cons (by decide) s) hdigits
      exact ⟨rfl, (List.cons.inj hrest).2⟩

theorem exists_chars_cons (a : PathStep) : ∃ c cs, a.chars = c :: cs ∧ opens c = true := by
  cases a with
  | key name => exact ⟨'.', name.toList, rfl, rfl⟩
  | index i => exact ⟨'[', Decimal.digitsOf i ++ [']'], rfl, rfl⟩

theorem leaves_flatMap_chars (steps : List PathStep) : Leaves (!opens ·) (steps.flatMap chars) := by
  cases steps with
  | nil => exact leaves_nil _
  | cons a rest =>
    obtain ⟨c, cs, ha, hc⟩ := a.exists_chars_cons
    rw [List.flatMap_cons, ha]
    exact leaves_cons (by rw [hc]; rfl) _

theorem flatMap_chars_inj {steps others : List PathStep} (hsteps : ∀ a ∈ steps, a.Plain)
    (hothers : ∀ b ∈ others, b.Plain) (h : steps.flatMap chars = others.flatMap chars) :
    steps = others := by
  induction steps generalizing others with
  | nil =>
    cases others with
    | nil => rfl
    | cons b others =>
      obtain ⟨c, cs, hb, -⟩ := b.exists_chars_cons
      rw [List.flatMap_cons, hb] at h
      exact absurd h (by simp)
  | cons a steps ih =>
    cases others with
    | nil =>
      obtain ⟨c, cs, ha, -⟩ := a.exists_chars_cons
      rw [List.flatMap_cons, ha] at h
      exact absurd h (by simp)
    | cons b others =>
      obtain ⟨ha, hsteps⟩ := List.forall_mem_cons.mp hsteps
      obtain ⟨hb, hmore⟩ := List.forall_mem_cons.mp hothers
      obtain ⟨hstep, hrest⟩ :=
        chars_append_inj ha hb (leaves_flatMap_chars steps) (leaves_flatMap_chars others) h
      rw [hstep, ih hsteps hmore hrest]

end PathStep

/-! ### Paths -/

namespace CodingPath

/-- No key of the path has a point or an opening bracket in it. -/
def Plain (p : CodingPath) : Prop := ∀ a ∈ p.steps, a.Plain

theorem printed_eq_iff {p q : CodingPath} (hp : p.Plain) (hq : q.Plain) :
    p.printed = q.printed ↔ p.steps = q.steps := by
  constructor
  · intro h
    have hchars : p.chars = q.chars := String.ofList_injective h
    exact PathStep.flatMap_chars_inj hp hq (List.cons.inj hchars).2
  · intro h
    rw [printed, printed, chars, chars, h]

end CodingPath

/-! ### Keys that are generated -/

/-- An identifier as it is read from the beginning of a text. -/
def Ident.Scanned (i : Ident) : Prop :=
  ∃ text rest, TokenTree.identifier? text = some (i.raw, i.name, rest)

/-- The name in front of what is left behind it. -/
theorem take_name (p : Char → Bool) (c : Char) (more : List Char) :
    (c :: more).take ((c :: more).length - (more.dropWhile p).length) = c :: more.takeWhile p := by
  have hlength : more.length = (more.takeWhile p).length + (more.dropWhile p).length := by
    rw [← List.length_append, List.takeWhile_append_dropWhile]
  have hcount : (c :: more).length - (more.dropWhile p).length = (more.takeWhile p).length + 1 := by
    rw [List.length_cons]
    omega
  rw [hcount, List.take_succ_cons]
  exact congrArg (c :: ·) (List.prefix_iff_eq_take.mp (List.takeWhile_prefix p)).symm

/-- The name that is read opens like a name and goes on like one. -/
theorem Ident.Scanned.exists_cons {i : Ident} (h : i.Scanned) :
    ∃ c more, i.name.toList = c :: more ∧ CharClass.opensName c = true ∧
      ∀ d ∈ more, CharClass.continuesName d = true := by
  obtain ⟨text, rest, h⟩ := h
  rw [TokenTree.identifier?] at h
  rcases hbody : (if TokenTree.opens "r#" text then text.drop 2 else text) with _ | ⟨c, more⟩
  · simp only [hbody, Literal.name?, reduceCtorEq] at h
  · by_cases hc : CharClass.opensName c = true
    · simp only [hbody, Literal.name?, if_pos hc, take_name] at h
      split at h
      · exact absurd h (by simp)
      · simp only [Option.some.injEq, Prod.mk.injEq] at h
        refine ⟨c, more.takeWhile CharClass.continuesName, ?_, hc, fun d hd => ?_⟩
        · rw [← h.2.1, String.toList_ofList]
        · exact List.all_eq_true.mp List.all_takeWhile d hd
    · simp only [hbody, Literal.name?, if_neg hc, reduceCtorEq] at h

/-- The name that is read has characters of names only. -/
theorem Ident.Scanned.continues {i : Ident} (h : i.Scanned) :
    ∀ c ∈ i.name.toList, CharClass.opensName c = true ∨ CharClass.continuesName c = true := by
  obtain ⟨c, more, hname, hc, hmore⟩ := h.exists_cons
  intro d hd
  rw [hname] at hd
  rcases List.mem_cons.mp hd with rfl | hd
  · exact .inl hc
  · exact .inr (hmore d hd)

theorem PathStep.plain_of_scanned {i : Ident} (h : i.Scanned) : (PathStep.key i.name).Plain := by
  constructor
  · intro hpoint
    exact absurd (h.continues '.' hpoint) (by decide)
  · intro hbracket
    exact absurd (h.continues '[' hbracket) (by decide)

/-- A path whose keys are generated for a record is plain. -/
theorem Declaration.plain_of_keys {d : Declaration} {m : Members} (h : d.members = .ok m)
    (hnames : ∀ f ∈ d.fields, f.name.Scanned) {p : CodingPath}
    (hp : ∀ name, .key name ∈ p.steps → name ∈ m.registry.names) : p.Plain := by
  intro a ha
  cases a with
  | index i => trivial
  | key name =>
    obtain rfl := members_eq_built h
    have hkey := hp name ha
    rw [KeyRegistry.names, keys_built, List.map_map] at hkey
    obtain ⟨fi, hfi, rfl⟩ := List.mem_map.mp hkey
    have hf : fi.1 ∈ d.fields := List.fst_mem_of_mem_zipIdx (mem_keyedFields.mp hfi).1
    exact PathStep.plain_of_scanned (hnames fi.1 hf)

/-! ### Locations -/

namespace CodingPath

/-- **Plain paths that are printed alike are the same.**  Paths of generated keys are
plain, whatever indices they pass. -/
theorem printed_identifies :
    (∀ p q : CodingPath, p.Plain → q.Plain → (p.printed = q.printed ↔ p.steps = q.steps)) ∧
      ∀ (d : Declaration) (m : Members), d.members = .ok m → (∀ f ∈ d.fields, f.name.Scanned) →
        ∀ p : CodingPath, (∀ name, .key name ∈ p.steps → name ∈ m.registry.names) → p.Plain :=
  ⟨fun _ _ hp hq => printed_eq_iff hp hq, fun _ _ h hnames _ hp => Declaration.plain_of_keys h hnames hp⟩

/-- Without the condition, a point in a key is taken for a further step. -/
example : (root.key "a.b").printed = ((root.key "a").key "b").printed := by decide

/-- So is a bracket. -/
example : (root.key "a[0]").printed = ((root.key "a").index 0).printed := by decide

end CodingPath

namespace Interleaved

theorem scanned_declaration : ∀ f ∈ declaration.fields, f.name.Scanned := by
  have hscanned : ∀ f ∈ declaration.fields,
      TokenTree.identifier? f.name.spelled.toList = some (f.name.raw, f.name.name, []) := by decide
  intro f hf
  exact ⟨_, _, hscanned f hf⟩

/-- A path of generated keys, and one with an empty key and a closing bracket in a
key. -/
theorem located_apart :
    (CodingPath.mk [.key "type", .index 1, .key "__field1"]).Plain ∧
      (CodingPath.mk [.key "", .key "type", .index 12, .key "]"]).Plain ∧
      ((CodingPath.mk [.key "type", .index 1, .key "__field1"]).printed
          = (CodingPath.mk [.key "", .key "type", .index 12, .key "]"]).printed ↔
        [PathStep.key "type", .index 1, .key "__field1"]
          = [.key "", .key "type", .index 12, .key "]"]) := by
  have hmembers : declaration.members = .ok declaration.built := by rfl
  have hp : (CodingPath.mk [.key "type", .index 1, .key "__field1"]).Plain := by
    refine CodingPath.printed_identifies.2 _ _ hmembers scanned_declaration _ fun name hname => ?_
    have hnames : declaration.built.registry.names = ["__container", "type", "__field1"] := by rfl
    rw [hnames]
    simp only [List.mem_cons, PathStep.key.injEq, reduceCtorEq, false_or, List.not_mem_nil,
      or_false] at hname ⊢
    rcases hname with rfl | rfl
    · exact .inr (.inl rfl)
    · exact .inr (.inr rfl)
  have hq : (CodingPath.mk [.key "", .key "type", .index 12, .key "]"]).Plain := by
    rw [CodingPath.Plain]
    decide
  exact ⟨hp, hq, CodingPath.printed_identifies.1 _ _ hp hq⟩

end Interleaved

end RecordCoding
