/-
What each declaration of a file contributes to its expansion.

An expansion is the contributions of the selected declarations, one after the
other.  `Candidate.Accounted` says what a declaration contributes without a look
at any other one.

* `Expansion.ofCandidates_append` — declarations expand apart from each other;
* `Candidate.Accounted.ofCandidate_eq` — one step of the expansion;
* `Expansion.ofItems_accounts` — the expansion of a file, for all options.

Design notes: a contribution is itself an expansion, of one declaration.  The
lists of an expansion then need no lemmas of their own: each is drawn from the
concatenation of the contributions.
-/
import RecordCoding.Proofs.Synthesis.Places
import RecordCoding.Proofs.Synthesis.Listings

namespace RecordCoding

variable {options : ExpansionOptions} {runtime : Option Path}

/-! ### Expansions one after the other -/

namespace Expansion

theorem append_empty (a : Expansion) : a ++ empty = a := by
  show Expansion.mk (a.generated ++ []) (a.diagnostics ++ []) (a.members ++ []) = a
  rw [List.append_nil, List.append_nil, List.append_nil]

theorem append_assoc (a b c : Expansion) : a ++ b ++ c = a ++ (b ++ c) := by
  show Expansion.mk (a.generated ++ b.generated ++ c.generated)
    (a.diagnostics ++ b.diagnostics ++ c.diagnostics) (a.members ++ b.members ++ c.members) = _
  rw [List.append_assoc, List.append_assoc, List.append_assoc]
  rfl

theorem hasErrors_append (a b : Expansion) : (a ++ b).hasErrors = (a.hasErrors || b.hasErrors) :=
  List.any_append

/-- Expansions one after the other. -/
def concat (es : List Expansion) : Expansion := es.foldr (· ++ ·) empty

theorem hasErrors_concat (es : List Expansion) : (concat es).hasErrors = es.any hasErrors := by
  induction es with
  | nil => rfl
  | cons e rest ih =>
    rw [List.any_cons, ← ih]
    exact hasErrors_append e (concat rest)

/-- The step of a run: a declaration, and what the rest makes. -/
theorem ofCandidates_cons (c : Candidate) (rest : List Candidate) :
    ofCandidates options runtime (c :: rest)
      = (ofCandidate options runtime c).bind fun a =>
          (ofCandidates options runtime rest).map (a ++ ·) := by
  rw [ofCandidates]
  rcases ofCandidate options runtime c with e | a
  · rfl
  · rcases ofCandidates options runtime rest with e | b <;> rfl

/-- Declarations expand apart from each other. -/
theorem ofCandidates_append (before after : List Candidate) :
    ofCandidates options runtime (before ++ after)
      = (ofCandidates options runtime before).bind fun a =>
          (ofCandidates options runtime after).map (a ++ ·) := by
  induction before with
  | nil =>
    rw [List.nil_append]
    rcases ofCandidates options runtime after with e | b <;> rfl
  | cons c rest ih =>
    rw [List.cons_append, ofCandidates_cons, ofCandidates_cons, ih]
    rcases ofCandidate options runtime c with e | a
    · rfl
    · rcases ofCandidates options runtime rest with e | b
      · rfl
      · rcases ofCandidates options runtime after with e | d
        · rfl
        · exact congrArg Except.ok (append_assoc a b d).symm

/-- A run over declarations that all expand is the concatenation. -/
theorem ofCandidates_of_forall₂ {cs : List Candidate} {es : List Expansion}
    (h : List.Forall₂ (fun c e => ofCandidate options runtime c = .ok e) cs es) :
    ofCandidates options runtime cs = .ok (concat es) := by
  induction h with
  | nil => rfl
  | cons hc _ ih =>
    rw [ofCandidates_cons, hc, ih]
    rfl

end Expansion

/-! ### What one declaration contributes -/

/-- The stored fields without a supported shape. -/
def Declaration.leftOutFields (d : Declaration) : List FieldDeclaration :=
  d.fields.filter fun f => f.stored && !(FieldShape.of f.type).recognized

theorem Declaration.warnings_built (d : Declaration) :
    d.built.warnings
      = d.leftOutFields.map fun f => ⟨.skippedField f.name.name, f.name.location⟩ := by
  show ((d.fields.map ClassifiedField.ofField).filter (·.leftOut)).map _ = _
  rw [List.filter_map, List.map_map]
  rfl

theorem ClassifiedField.isError_of_ofFields {strict : Bool} {fields : List FieldDeclaration}
    {e : Diagnostic} (h : ofFields strict fields = .error e) : e.isError := by
  rw [ofFields] at h
  rcases hfind : (fields.map ofField).find? leftOut with _ | f
  · simp only [hfind] at h
    exact absurd h (by simp)
  · simp only [hfind] at h
    cases strict with
    | false => exact absurd h (by simp)
    | true =>
      rw [← Except.error.inj h]
      rfl

theorem Declaration.members_of_record {d : Declaration} (h : d.kind = .record) :
    d.members = (ClassifiedField.ofFields d.settings.strict d.fields).map (Members.build d) := by
  rw [members, validFields, if_pos h]
  rcases hfields : ClassifiedField.ofFields d.settings.strict d.fields with e | classified
  · simp only [hfields, Except.map]
  · simp only [hfields, Except.map]

theorem Declaration.members_of_ne_record {d : Declaration} (h : d.kind ≠ .record) :
    d.members = .error ⟨.unsupportedDeclaration, d.location⟩ := by
  rw [members, validFields, if_neg h]

/-- Whatever keeps a declaration from its members is an error. -/
theorem Declaration.isError_of_members {d : Declaration} {e : Diagnostic}
    (h : d.members = .error e) : e.isError := by
  by_cases hrecord : d.kind = .record
  · rw [members_of_record hrecord] at h
    rcases hfields : ClassifiedField.ofFields d.settings.strict d.fields with err | classified
    · rw [hfields] at h
      rw [← Except.error.inj h]
      exact ClassifiedField.isError_of_ofFields hfields
    · rw [hfields] at h
      exact absurd h (by simp [Except.map])
  · rw [members_of_ne_record hrecord] at h
    rw [← Except.error.inj h]
    rfl

theorem Declaration.isError_of_ofItem {t : TypeItem} {e : Diagnostic}
    (h : Declaration.ofItem t = .error e) : e.isError := by
  rw [ofItem] at h
  rcases hcontent : contentOf t with err | ⟨settings, fields⟩
  · simp only [hcontent] at h
    rw [← Except.error.inj h]
    rfl
  · simp only [hcontent] at h
    exact absurd h (by simp)

namespace Candidate

theorem isError_of_members {c : Candidate} {e : Diagnostic}
    (h : c.members options runtime = .error e) : e.isError := by
  rw [members, declaration] at h
  rcases hitem : Declaration.ofItem c.item with err | d
  · rw [hitem] at h
    rw [← Except.error.inj h]
    exact Declaration.isError_of_ofItem hitem
  · rw [hitem] at h
    exact Declaration.isError_of_members h

/-- What a declaration contributes: a warning inside a module, an error without
members, and otherwise its members with a warning for each stored field that they
leave out. -/
inductive Accounted (options : ExpansionOptions) (runtime : Option Path) (c : Candidate) :
    Expansion → Prop
  | nested (hmodules : c.modules ≠ []) :
      Accounted options runtime c
        ⟨[], [⟨.nested c.item.name.name ("::".intercalate c.modules), c.item.name.location⟩], []⟩
  | failed {e : Diagnostic} (htop : c.modules = []) (hmembers : c.members options runtime = .error e)
      (herror : e.isError) : Accounted options runtime c ⟨[], [e], []⟩
  | generated {d : Declaration} {m : Members} (htop : c.modules = [])
      (hdeclaration : c.declaration options runtime = .ok d) (hmembers : d.members = .ok m) :
      Accounted options runtime c
        ⟨[c.name], d.leftOutFields.map fun f => ⟨.skippedField f.name.name, f.name.location⟩, [m]⟩

/-- The members of a declaration are code: they can be parsed. -/
def MembersParse (options : ExpansionOptions) (runtime : Option Path) (c : Candidate) : Prop :=
  ∀ m, c.modules = [] → c.members options runtime = .ok m →
    ∃ parsed, Item.parseTokens m.tokens = .ok parsed

theorem moduleLabel_of_ne_nil {c : Candidate} (h : c.modules ≠ []) :
    c.moduleLabel = some ("::".intercalate c.modules) := by
  rw [moduleLabel, if_neg (by simpa using h)]

theorem moduleLabel_of_eq_nil {c : Candidate} (h : c.modules = []) : c.moduleLabel = none := by
  rw [moduleLabel, if_pos (by simpa using h)]

theorem members_of_declaration {c : Candidate} {d : Declaration}
    (h : c.declaration options runtime = .ok d) : c.members options runtime = d.members := by
  rw [members, h]

/-- Every declaration has its place in the account. -/
theorem exists_accounted (options : ExpansionOptions) (runtime : Option Path) (c : Candidate) :
    ∃ e, c.Accounted options runtime e := by
  by_cases htop : c.modules = []
  · rcases hdeclaration : c.declaration options runtime with e | d
    · have hmembers : c.members options runtime = .error e := by
        rw [members, hdeclaration]
      exact ⟨_, .failed htop hmembers (isError_of_members hmembers)⟩
    · have hmembers := members_of_declaration hdeclaration
      rcases hd : d.members with e | m
      · rw [hd] at hmembers
        exact ⟨_, .failed htop hmembers (isError_of_members hmembers)⟩
      · exact ⟨_, .generated htop hdeclaration hd⟩
  · exact ⟨_, .nested htop⟩

namespace Accounted

variable {c : Candidate} {e : Expansion}

/-- One step of an expansion makes what the account says. -/
theorem ofCandidate_eq (h : c.Accounted options runtime e) (hparse : c.MembersParse options runtime) :
    Expansion.ofCandidate options runtime c = .ok e := by
  cases h with
  | nested hmodules =>
    rw [Expansion.ofCandidate, contribution, moduleLabel_of_ne_nil hmodules]
  | failed htop hmembers herror =>
    rw [Expansion.ofCandidate, contribution, moduleLabel_of_eq_nil htop, hmembers]
  | @generated d m htop hdeclaration hd =>
    have hmembers : c.members options runtime = .ok m := by
      rw [members_of_declaration hdeclaration, hd]
    obtain ⟨parsed, hparsed⟩ := hparse m htop hmembers
    rw [Expansion.ofCandidate, contribution, moduleLabel_of_eq_nil htop, hmembers]
    simp only [hparsed]
    rw [Declaration.members_eq_built hd, Declaration.warnings_built]

/-- A contribution has errors if it is that of a declaration of the file itself
without members. -/
theorem hasErrors_iff (h : c.Accounted options runtime e) :
    e.hasErrors ↔ c.modules = [] ∧ ∀ m, c.members options runtime ≠ .ok m := by
  cases h with
  | nested hmodules =>
    refine iff_of_false ?_ fun h => hmodules h.1
    simp [Expansion.hasErrors, Diagnostic.isError, Diagnostic.severity]
  | failed htop hmembers herror =>
    refine iff_of_true (by simpa [Expansion.hasErrors] using herror) ⟨htop, fun m hm => ?_⟩
    exact absurd (hmembers.symm.trans hm) (by simp)
  | @generated d m htop hdeclaration hd =>
    refine iff_of_false ?_ fun h => h.2 m ((members_of_declaration hdeclaration).trans hd)
    simp [Expansion.hasErrors, Diagnostic.isError, Diagnostic.severity]

end Accounted

end Candidate

/-! ### A whole file -/

variable {items : List Item}

/-- The declarations that the options ask for, in the order of the text. -/
def selectedIn (options : ExpansionOptions) (items : List Item) : List Candidate :=
  (Candidate.ofItems [] items).filter (·.selected options)

/-- Whether a type of that name stands anywhere in a file. -/
def Declares (items : List Item) (name : String) : Prop :=
  ∃ place c, StandsAt items place c ∧ c.name = name

theorem contains_names_iff {name : String} :
    ((Candidate.ofItems [] items).map (·.name)).contains name ↔ Declares items name := by
  rw [List.contains_iff_mem, List.mem_map]
  constructor
  · rintro ⟨c, hc, rfl⟩
    obtain ⟨place, hplace⟩ := Candidate.mem_ofItems.mp hc
    exact ⟨place, c, hplace, rfl⟩
  · rintro ⟨place, c, hplace, rfl⟩
    exact ⟨c, Candidate.mem_ofItems.mpr ⟨place, hplace⟩, rfl⟩

/-- The first type that is asked for and stands nowhere. -/
def missing? (options : ExpansionOptions) (items : List Item) : Option String :=
  options.types.find? fun name => !((Candidate.ofItems [] items).map (·.name)).contains name

theorem missing?_eq_none (h : ∀ name ∈ options.types, Declares items name) :
    missing? options items = none := by
  refine List.find?_eq_none.mpr fun name hname => ?_
  rw [contains_names_iff.mpr (h name hname)]
  simp

theorem missing?_eq_some_iff {name : String} :
    missing? options items = some name ↔
      ∃ before after, options.types = before ++ name :: after ∧ ¬ Declares items name ∧
        ∀ other ∈ before, Declares items other := by
  simp only [missing?, List.find?_eq_some_iff_append, Bool.not_not, Bool.not_eq_true',
    ← contains_names_iff, Bool.not_eq_true]
  constructor
  · rintro ⟨hname, before, after, htypes, hbefore⟩
    exact ⟨before, after, htypes, hname, hbefore⟩
  · rintro ⟨before, after, htypes, hname, hbefore⟩
    exact ⟨hname, before, after, htypes, hbefore⟩

theorem selectedIn_append (options : ExpansionOptions) (before after : List Item) :
    selectedIn options (before ++ after) = selectedIn options before ++ selectedIn options after := by
  rw [selectedIn, Candidate.ofItems_append, List.filter_append]
  rfl

namespace Expansion

/-- Once the declarations are expanded, only a type that is missing can fail. -/
theorem ofItems_of_ofCandidates {e : Expansion}
    (h : ofCandidates options runtime (selectedIn options items) = .ok e) :
    ofItems options runtime items
      = (missing? options items).elim (.ok e) fun name => .error (.typeNotFound name) := by
  rw [selectedIn] at h
  rw [ofItems, missing?]
  simp only [h]
  rcases options.types.find? _ with _ | name <;> rfl

theorem ofItems_of_types_eq_nil (htypes : options.types = []) :
    ofItems options runtime items = ofCandidates options runtime (selectedIn options items) := by
  rcases h : ofCandidates options runtime (selectedIn options items) with err | e
  · rw [selectedIn] at h
    rw [ofItems]
    simp only [h]
  · rw [ofItems_of_ofCandidates h, missing?, htypes]
    rfl

/-- Without a list of types, items expand apart from each other. -/
theorem ofItems_append (htypes : options.types = []) (before after : List Item) :
    ofItems options runtime (before ++ after)
      = (ofItems options runtime before).bind fun a =>
          (ofItems options runtime after).map (a ++ ·) := by
  rw [ofItems_of_types_eq_nil htypes, ofItems_of_types_eq_nil htypes,
    ofItems_of_types_eq_nil htypes, selectedIn_append, ofCandidates_append]

theorem forall₂_map_accounted {share : Candidate → Expansion}
    (h : ∀ c : Candidate, c.Accounted options runtime (share c)) (cs : List Candidate) :
    List.Forall₂ (Candidate.Accounted options runtime) cs (cs.map share) :=
  List.forall₂_map_right_iff.mpr (List.forall₂_same.mpr fun c _ => h c)

/-- Declarations whose members parse expand to their contributions. -/
theorem ofCandidates_of_accounted {cs : List Candidate} {shares : List Expansion}
    (hshares : List.Forall₂ (Candidate.Accounted options runtime) cs shares)
    (hparse : ∀ c ∈ cs, c.MembersParse options runtime) :
    ofCandidates options runtime cs = .ok (concat shares) := by
  have hboth : List.Forall₂ (fun c e => c.MembersParse options runtime ∧
      c.Accounted options runtime e) cs shares :=
    (List.forall₂_and_left _ _).mpr ⟨hparse, hshares⟩
  exact ofCandidates_of_forall₂ (hboth.imp fun _ _ h => h.2.ofCandidate_eq h.1)

/-- Without a list of types, a file whose members parse is expanded. -/
theorem exists_ofItems (htypes : options.types = [])
    (hparse : ∀ c ∈ selectedIn options items, c.MembersParse options runtime) :
    ∃ e, ofItems options runtime items = .ok e := by
  choose share hshare using Candidate.exists_accounted options runtime
  rw [ofItems_of_types_eq_nil htypes]
  exact ⟨_, ofCandidates_of_accounted (forall₂_map_accounted hshare _) hparse⟩

/-- The account of a file: what its expansion says of each declaration. -/
structure Accounts (options : ExpansionOptions) (runtime : Option Path) (items : List Item) :
    Prop where
  /-- Every declaration is gone through once, in the order of the text. -/
  ordered : ∃ placed, PlacesInOrder (StandsAt items) placed ∧
    placed.map Prod.snd = Candidate.ofItems [] items
  /-- A declaration contributes exactly one thing, whatever the others are. -/
  unique : ∀ c ∈ selectedIn options items, ∃! e, c.Accounted options runtime e
  /-- With every type in its place, the expansion is the contributions one after
  the other, and it has errors if one in the file itself got no members. -/
  expanded : (∀ name ∈ options.types, Declares items name) →
    ∃ shares, List.Forall₂ (Candidate.Accounted options runtime) (selectedIn options items) shares ∧
      ofItems options runtime items = .ok (concat shares) ∧
      ((concat shares).hasErrors ↔
        ∃ c ∈ selectedIn options items,
          c.modules = [] ∧ ∀ m, c.members options runtime ≠ .ok m)
  /-- The first type that stands nowhere is the one that is not found. -/
  missing : ∀ name, ofItems options runtime items = .error (.typeNotFound name) ↔
    ∃ before after, options.types = before ++ name :: after ∧ ¬ Declares items name ∧
      ∀ other ∈ before, Declares items other
  /-- Without a list of types, items expand apart from each other. -/
  parts : options.types = [] → ∀ before after, items = before ++ after →
    ∃ a b, ofItems options runtime before = .ok a ∧ ofItems options runtime after = .ok b ∧
      ofItems options runtime items = .ok (a ++ b)

/-- **Every selected declaration is accounted for once, and apart from the
others.** -/
theorem ofItems_accounts (options : ExpansionOptions) (runtime : Option Path) (items : List Item)
    (hparse : ∀ c ∈ selectedIn options items, c.MembersParse options runtime) :
    Accounts options runtime items := by
  -- A share for each candidate, and the run collects them.
  choose share hshare using Candidate.exists_accounted options runtime
  have hshares := forall₂_map_accounted hshare
  have hall := ofCandidates_of_accounted (hshares (selectedIn options items)) hparse
  refine ⟨exists_ordered_places items, ?_, ?_, ?_, ?_⟩
  · intro c hc
    refine ⟨share c, hshare c, fun e he => ?_⟩
    exact Except.ok.inj ((he.ofCandidate_eq (hparse c hc)).symm.trans
      ((hshare c).ofCandidate_eq (hparse c hc)))
  · intro hnamed
    refine ⟨_, hshares _, ?_, ?_⟩
    · rw [ofItems_of_ofCandidates hall, missing?_eq_none hnamed, Option.elim_none]
    · simp only [hasErrors_concat, List.any_map, List.any_eq_true, Function.comp,
        (hshare _).hasErrors_iff]
  · intro name
    rw [ofItems_of_ofCandidates hall, ← missing?_eq_some_iff]
    rcases missing? options items with _ | found <;> simp
  · rintro htypes before after rfl
    rw [selectedIn_append] at hparse
    obtain ⟨a, ha⟩ := exists_ofItems htypes fun c hc => hparse c (List.mem_append_left _ hc)
    obtain ⟨b, hb⟩ := exists_ofItems htypes fun c hc => hparse c (List.mem_append_right _ hc)
    refine ⟨a, b, ha, hb, ?_⟩
    rw [ofItems_append htypes, ha, hb]
    rfl

end Expansion

/-! ### A file of every kind -/

/-- What is found to be a success has a value. -/
theorem exists_of_isOk {ε α : Type} {r : Except ε α} (h : r.isOk = true) : ∃ a, r = .ok a := by
  rcases r with e | a
  · exact absurd h Bool.false_ne_true
  · exact ⟨a, rfl⟩

namespace MixedFile

/-- `#[name(...)]` -/
def listed (name : String) (body : List TokenTree) : Attribute :=
  ⟨.start, false, .plain false [.plain name], .list .parenthesis body .start⟩

/-- A type that derives its members, with more attributes. -/
def derived (name : String) (attributes : List Attribute) (body : TypeBody) : TypeItem :=
  ⟨listed "derive" [.ident (.plain "Codable")] :: attributes, .inherited, .plain name, .none, body⟩

/-- A field with a shape and one without. -/
def fields : List NamedField :=
  [⟨[], .plain "name", .path (.plain false [.plain "String"])⟩,
    ⟨[], .plain "lookup", .tuple [] false⟩]

def person : TypeItem := derived "Person" [] (.record fields)
def state : TypeItem := derived "State" [] .enumeration
def hidden : TypeItem := derived "Hidden" [] (.record fields)
def index : TypeItem := derived "Index" [listed "codable" [.ident (.plain "strict")]] (.record fields)

/-- A record, an enumeration, a record two modules deep, a strict record, and a
type that derives nothing. -/
def file : List Item :=
  [.other, .type person, .type state,
    .module (.plain "outer") (some [.module (.plain "inner") (some [.type hidden])]),
    .type index, .type ⟨[], .inherited, .plain "Shape", .none, .trait⟩]

theorem selectedIn_file :
    selectedIn .initial file
      = [⟨person, []⟩, ⟨state, []⟩, ⟨hidden, ["outer", "inner"]⟩, ⟨index, []⟩] := by rfl

theorem settings_index :
    RecordSettings.ofAttributes index.attributes = .ok ⟨true, RecordSettings.defaultRuntime⟩ := by
  have hpath : Entry.path ⟨[.ident (.plain "strict")], .start, none⟩
      = .ok ((.plain false [.plain "strict"], .start), ⟨[], .start, none⟩) := by rfl
  have hname : Path.isName "crate" (.plain false [.plain "strict"]) = false := by decide
  have hentries : Entry.ofAttributes index.attributes = [.asked .strict .start] := by
    show Entry.listFrom (Inner.of [.ident (.plain "strict")]) 2
      ⟨[.ident (.plain "strict")], .start, none⟩ ++ [] = _
    rw [List.append_nil, Entry.listFrom, hpath]
    simp only [hname, Entry.listFrom.more]
    rfl
  rw [RecordSettings.ofAttributes, hentries]
  rfl

theorem members_state :
    Candidate.members .initial none ⟨state, []⟩ = .error ⟨.unsupportedDeclaration, .start⟩ := by
  rfl

theorem members_index :
    Candidate.members .initial none ⟨index, []⟩ = .error ⟨.unrecognizedShape "lookup", .start⟩ := by
  have hitem : Declaration.ofItem index
      = .ok ⟨.plain "Index", .record, .inherited, .none, ⟨true, RecordSettings.defaultRuntime⟩,
          [⟨.plain "name", .named (.plain false [.plain "String"]), true⟩,
            ⟨.plain "lookup", .other (.tuple [] false), true⟩], .start⟩ := by
    have hbody : index.body = .record fields := rfl
    simp only [Declaration.ofItem, Declaration.contentOf, hbody, settings_index]
    rfl
  rw [Candidate.members, Candidate.declaration, hitem]
  rfl

theorem membersParse_person : Candidate.MembersParse .initial none ⟨person, []⟩ := by
  intro m _ hm
  obtain rfl := Except.ok.inj hm
  exact exists_of_isOk (by decide +kernel)

theorem membersParse_file : ∀ c ∈ selectedIn .initial file, c.MembersParse .initial none := by
  simp only [selectedIn_file, List.forall_mem_cons]
  refine ⟨membersParse_person, ?_, ?_, ?_, by simp⟩
  · intro m _ hm
    exact absurd (members_state.symm.trans hm) (by simp)
  · intro m htop
    exact absurd htop (by simp)
  · intro m _ hm
    exact absurd (members_index.symm.trans hm) (by simp)

/-- One of each contribution, and one error twice over. -/
theorem accounts_file :
    (∀ c ∈ selectedIn .initial file, c.MembersParse .initial none) ∧
      Expansion.Accounts .initial none file ∧
      (Expansion.ofItems .initial none file).map
          (fun e => (e.generated, e.diagnostics.map (·.cause)))
        = .ok (["Person"],
          [.skippedField "lookup", .unsupportedDeclaration, .nested "Hidden" "outer::inner",
            .unrecognizedShape "lookup"]) := by
  have hperson := (Candidate.Accounted.generated (c := ⟨person, []⟩) rfl rfl rfl).ofCandidate_eq
    membersParse_person
  have hindex : Expansion.ofCandidate .initial none ⟨index, []⟩
      = .ok ⟨[], [⟨.unrecognizedShape "lookup", .start⟩], []⟩ :=
    (Candidate.Accounted.failed rfl members_index rfl).ofCandidate_eq fun m _ hm =>
      absurd (members_index.symm.trans hm) (by simp)
  refine ⟨membersParse_file, Expansion.ofItems_accounts .initial none file membersParse_file, ?_⟩
  rw [Expansion.ofItems_of_types_eq_nil rfl, selectedIn_file, Expansion.ofCandidates_cons,
    Expansion.ofCandidates_cons, Expansion.ofCandidates_cons, Expansion.ofCandidates_cons, hperson, hindex]
  rfl

end MixedFile

end RecordCoding
