/-
When the expansion of a file stops.

The members of a record are parsed before the next record is looked at.  A run over
records whose members are all code ends with an expansion or with a type that is
missing; the first record whose members are none ends any other run.

* `Expansion.ofSource_outcome` — what becomes of a source text, for all options;
* `Unnamed.not_only_missing` — a record whose members are no code.

Design notes: what stands behind the record that ends a run plays no part.  A
statement about such a run therefore names the first one.
-/
import RecordCoding.Proofs.Synthesis.Contributions

namespace RecordCoding

variable {options : ExpansionOptions} {runtime : Option Path} {items : List Item}

/-! ### One declaration of a file -/

namespace Candidate

variable {c : Candidate}

/-- Members that are no code end a run. -/
theorem ofCandidate_of_error {m : Members} {e : SyntaxError} (htop : c.modules = [])
    (hm : c.members options runtime = .ok m) (he : Item.parseTokens m.tokens = .error e) :
    Expansion.ofCandidate options runtime c = .error (.unparsable c.name e.message) := by
  rw [Expansion.ofCandidate, contribution, moduleLabel_of_eq_nil htop, hm]
  simp only [he]

theorem exists_error_of_not_membersParse (h : ¬ c.MembersParse options runtime) :
    ∃ m e, c.modules = [] ∧ c.members options runtime = .ok m ∧ Item.parseTokens m.tokens = .error e := by
  rw [MembersParse] at h
  push Not at h
  obtain ⟨m, htop, hm, hnone⟩ := h
  rcases hparsed : Item.parseTokens m.tokens with e | parsed
  · exact ⟨m, e, htop, hm, hparsed⟩
  · exact absurd hparsed (hnone parsed)

end Candidate

/-! ### A whole run -/

namespace Expansion

theorem ofCandidates_of_membersParse {cs : List Candidate}
    (h : ∀ c ∈ cs, c.MembersParse options runtime) : ∃ e, ofCandidates options runtime cs = .ok e := by
  choose share hshare using Candidate.exists_accounted options runtime
  exact ⟨_, ofCandidates_of_accounted (forall₂_map_accounted hshare cs) h⟩

/-- What stands behind a declaration that ends a run plays no part. -/
theorem ofCandidates_of_first {before : List Candidate} {c : Candidate} {err : ExpansionError}
    (hbefore : ∀ b ∈ before, b.MembersParse options runtime)
    (h : ofCandidate options runtime c = .error err) (after : List Candidate) :
    ofCandidates options runtime (before ++ c :: after) = .error err := by
  obtain ⟨e, he⟩ := ofCandidates_of_membersParse hbefore
  rw [ofCandidates_append, he, ofCandidates_cons, h]
  rfl

theorem ofItems_of_error {err : ExpansionError}
    (h : ofCandidates options runtime (selectedIn options items) = .error err) :
    ofItems options runtime items = .error err := by
  rw [selectedIn] at h
  rw [ofItems]
  simp only [h]

/-- Either the members of all declarations are code, or there is a first one whose members
are not. -/
theorem membersParse_or_first (options : ExpansionOptions) (runtime : Option Path)
    (cs : List Candidate) :
    (∀ c ∈ cs, c.MembersParse options runtime) ∨
      ∃ before c after, cs = before ++ c :: after ∧ (∀ b ∈ before, b.MembersParse options runtime) ∧
        ¬ c.MembersParse options runtime := by
  induction cs with
  | nil => exact .inl fun c hc => absurd hc (by simp)
  | cons c rest ih =>
    by_cases hc : c.MembersParse options runtime
    · rcases ih with hall | ⟨before, b, after, rfl, hbefore, hb⟩
      · exact .inl (List.forall_mem_cons.mpr ⟨hc, hall⟩)
      · exact .inr ⟨c :: before, b, after, rfl, List.forall_mem_cons.mpr ⟨hc, hbefore⟩, hb⟩
    · exact .inr ⟨[], c, rest, rfl, fun b hb => absurd hb (by simp), hc⟩

/-- What a run over the items of a file comes to. -/
structure Outcome (options : ExpansionOptions) (runtime : Option Path) (items : List Item)
    (result : Except ExpansionError Expansion) : Prop where
  /-- As long as all members are code, a run ends with an expansion, or with the first type
  that is missing. -/
  expanded : (∀ c ∈ selectedIn options items, c.MembersParse options runtime) →
    (missing? options items = none ∧ ∃ e, result = .ok e) ∨
      ∃ name, missing? options items = some name ∧ result = .error (.typeNotFound name)
  /-- The first declaration whose members are no code is all that is told of a file, whatever
  stands behind it and whichever types are missing. -/
  stopped : ∀ before c after, selectedIn options items = before ++ c :: after →
    (∀ b ∈ before, b.MembersParse options runtime) → c.modules = [] →
    ∀ m e, c.members options runtime = .ok m → Item.parseTokens m.tokens = .error e →
      result = .error (.unparsable c.name e.message)
  /-- Some declaration is one whose members are no code exactly if this is told of a file. -/
  unparsable : (∃ record detail, result = .error (.unparsable record detail)) ↔
    ∃ c ∈ selectedIn options items, ¬ c.MembersParse options runtime

theorem ofItems_outcome (options : ExpansionOptions) (runtime : Option Path) (items : List Item) :
    Outcome options runtime items (ofItems options runtime items) := by
  -- The two ways of a run, with and without members that are no code; the rest follows.
  have hexpanded : (∀ c ∈ selectedIn options items, c.MembersParse options runtime) →
      (missing? options items = none ∧ ∃ e, ofItems options runtime items = .ok e) ∨
        ∃ name, missing? options items = some name ∧
          ofItems options runtime items = .error (.typeNotFound name) := by
    intro h
    obtain ⟨e, he⟩ := ofCandidates_of_membersParse h
    rw [ofItems_of_ofCandidates he]
    rcases missing? options items with _ | name
    · exact .inl ⟨rfl, e, rfl⟩
    · exact .inr ⟨name, rfl, rfl⟩
  have hstopped : ∀ before c after, selectedIn options items = before ++ c :: after →
      (∀ b ∈ before, b.MembersParse options runtime) → c.modules = [] →
      ∀ m e, c.members options runtime = .ok m → Item.parseTokens m.tokens = .error e →
        ofItems options runtime items = .error (.unparsable c.name e.message) := by
    intro before c after hsplit hbefore htop m e hm he
    refine ofItems_of_error ?_
    rw [hsplit]
    exact ofCandidates_of_first hbefore (Candidate.ofCandidate_of_error htop hm he) after
  refine ⟨hexpanded, hstopped, ?_, ?_⟩
  -- If all members were code, the outcome would be another one.
  · rintro ⟨record, detail, hresult⟩
    by_contra hnone
    push Not at hnone
    rcases hexpanded hnone with ⟨-, e, he⟩ | ⟨name, -, hname⟩
    · exact absurd (hresult.symm.trans he) (by simp)
    · exact absurd (hresult.symm.trans hname) (by simp)
  · rintro ⟨c, hc, hparse⟩
    rcases membersParse_or_first options runtime (selectedIn options items) with
      hall | ⟨before, c, after, hsplit, hbefore, hc⟩
    · exact absurd (hall c hc) hparse
    · obtain ⟨m, e, htop, hm, he⟩ := Candidate.exists_error_of_not_membersParse hc
      exact ⟨c.name, e.message, hstopped before c after hsplit hbefore htop m e hm he⟩

/-- **A source text that can be read is expanded unless a type is missing, up to the first
record whose members are no code.** -/
theorem ofSource_outcome {source : String} (hsource : Item.parseFile source = .ok items)
    (hruntime : runtimeOf options = .ok runtime) :
    Outcome options runtime items (ofSource options source) := by
  rw [ofSource, hsource]
  simp only [hruntime]
  exact ofItems_outcome options runtime items

end Expansion

/-! ### A field without a name -/

namespace Unnamed

/-- A record with a field that is named by an underscore. -/
def source : String := "#[derive(Codable)] struct A \x7b _: u8 \x7d"

/-- The declaration of that record. -/
def declaration : Declaration where
  name := .plain "A"
  kind := .record
  visibility := .inherited
  generics := .none
  settings := .initial
  fields := [⟨.plain "_", .named (.plain false [.plain "u8"]), true⟩]
  location := .start

/-- The record is asked for, and a type that stands nowhere. -/
def asked : ExpansionOptions := ⟨["A", "Nope"], false, none⟩

theorem exists_items : ∃ items, Item.parseFile source = .ok items :=
  exists_of_isOk (by decide +kernel)

theorem ofSource_source :
    Expansion.ofSource asked source
      = .error (.unparsable "A" "expected identifier, found keyword `_`") := by
  have hrun : (tryCatch ((Expansion.ofSource asked source).map fun _ => false) fun e =>
      .ok (decide (e = .unparsable "A" "expected identifier, found keyword `_`"))).toOption
        = some true := by decide +kernel
  rcases hresult : Expansion.ofSource asked source with e | expansion
  · rw [hresult] at hrun
    exact congrArg Except.error (of_decide_eq_true (Option.some.inj hrun))
  · rw [hresult] at hrun
    exact absurd (Option.some.inj hrun) Bool.false_ne_true

/-- The members of the record are no code, so that the missing type is not told of. -/
theorem outcome_source :
    ∃ items, Item.parseFile source = .ok items ∧ Expansion.runtimeOf asked = .ok none ∧
      Expansion.Outcome asked none items (Expansion.ofSource asked source) ∧
      ∃ c ∈ selectedIn asked items, ¬ c.MembersParse asked none := by
  obtain ⟨items, hitems⟩ := exists_items
  have hruntime : Expansion.runtimeOf asked = .ok none := rfl
  have houtcome := Expansion.ofSource_outcome hitems hruntime
  exact ⟨items, hitems, hruntime, houtcome, houtcome.unparsable.mp ⟨_, _, ofSource_source⟩⟩

/-- What is read and has a valid path may still end with neither an expansion nor a
missing type: the code that is copied from a field without a name is no code. -/
theorem not_only_missing :
    ¬ (∀ options source items runtime, Item.parseFile source = .ok items →
        Expansion.runtimeOf options = .ok runtime →
        ∀ err, Expansion.ofSource options source = .error err →
          ∃ name ∈ options.types, err = .typeNotFound name) ∧
      ∀ parsed, Item.parseTokens declaration.built.tokens ≠ .ok parsed := by
  constructor
  · intro h
    obtain ⟨items, hitems⟩ := exists_items
    obtain ⟨name, -, hname⟩ := h asked source items none hitems rfl _ ofSource_source
    exact absurd hname (by simp)
  · intro parsed hparsed
    have hunread : (Item.parseTokens declaration.built.tokens).isOk = false := by decide +kernel
    rw [hparsed] at hunread
    exact absurd hunread (by simp [Except.isOk, Except.toBool])

end Unnamed

end RecordCoding
