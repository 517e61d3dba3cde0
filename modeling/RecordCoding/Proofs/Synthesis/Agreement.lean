/-
A declaration expands to the same code on its own and in a file.

On its own, a declaration is expanded to its members or to code that reports why
there are none; in a file it contributes its members or a diagnostic.  The two
agree, and what the options of a file set is what the declaration could ask for
itself:

* `TypeItem.PutOn` — a declaration that asks for what the options set;
* `Members.tokens_withRuntime` — members depend on the path of the runtime
  library only as far as it is written;
* `TypeItem.PutOn.sameOutcome` — one declaration under both ways of expansion;
* `Expansion.ofItems_agrees` — the declaration among the others of a file.

Design notes: the path in an option and the path in an attribute are read from
different texts, so they have different places.  `SameRuntime` compares them as
code.
-/
import RecordCoding.Proofs.Synthesis.Contributions

namespace RecordCoding

/-! ### Paths that are written alike -/

/-- Two paths of the runtime library that are the same code wherever members show
them. -/
structure SameRuntime (p q : Path) : Prop where
  tokens : p.tokens = q.tokens
  bound : ∀ name, (Members.runtimeBound p name).tokens = (Members.runtimeBound q name).tokens

namespace SameRuntime

theorem refl (p : Path) : SameRuntime p p := ⟨rfl, fun _ => rfl⟩

theorem stepsTokens_concat (steps : List Segment) (s : Segment) :
    Segment.stepsTokens (steps ++ [s]) = Segment.stepsTokens steps ++ .word "::" :: s.tokens := by
  induction steps with
  | nil => simp only [List.nil_append, Segment.stepsTokens, List.append_nil]
  | cons first rest ih =>
    rw [List.cons_append, Segment.stepsTokens, ih, Segment.stepsTokens, List.append_assoc]

/-- A member of the runtime library is written as the path and one more step. -/
theorem tokens_runtimeBound {p : Path} (h : p.tokens ≠ []) (name : String) :
    (Members.runtimeBound p name).tokens = runtimeTokens p name := by
  obtain ⟨leading, segments⟩ := p
  cases segments with
  | nil => exact absurd rfl h
  | cons first rest =>
    rw [Members.runtimeBound, Bound.tokens, runtimeTokens]
    simp only [Path.segments, Path.leading, List.cons_append, Path.tokens, stepsTokens_concat]
    simp [Binder.tokensOfOption, Segment.tokens, Arguments.tokens, Token.ident, Ident.plain,
      Ident.spelled]

/-- Paths that are written alike are the same, if anything is written. -/
theorem of_tokens {p q : Path} (h : q.tokens = p.tokens) (hne : p.tokens ≠ []) :
    SameRuntime p q := by
  refine ⟨h.symm, fun name => ?_⟩
  rw [tokens_runtimeBound hne, tokens_runtimeBound (h.symm ▸ hne), runtimeTokens, runtimeTokens, h]

end SameRuntime

/-! ### Code under another path -/

theorem Bound.tokensOfList_concat (bounds : List Bound) (b : Bound) :
    Bound.tokensOfList (bounds ++ [b]) = Bound.tokensOfList bounds ++ [b.tokens] := by
  induction bounds with
  | nil => rfl
  | cons first rest ih => rw [List.cons_append, Bound.tokensOfList, ih, Bound.tokensOfList]; rfl

namespace GenericParam

variable {b c : Bound}

theorem isLifetime_bounded (b : Bound) (p : GenericParam) :
    (p.bounded b).isLifetime = p.isLifetime := by
  cases p <;> rfl

theorem argumentTokens_bounded (b : Bound) (p : GenericParam) :
    (p.bounded b).argumentTokens = p.argumentTokens := by
  cases p <;> rfl

/-- Bounds that are written alike bound a parameter alike. -/
theorem tokens_bounded_congr (h : b.tokens = c.tokens) (p : GenericParam) :
    (p.bounded b).withoutDefault.tokens = (p.bounded c).withoutDefault.tokens := by
  cases p with
  | type attributes name bounds trailing fallback =>
    have hempty (d : Bound) : (bounds ++ [d]).isEmpty = false := by simp
    simp only [bounded, withoutDefault, tokens, Bound.tokensOfList_concat, h, hempty]
  | _ => rfl

end GenericParam

namespace Generics

variable {b c : Bound}

theorem listTokens_bounded (generics : Generics) (b : Bound) (f : GenericParam → List Token) :
    (generics.bounded b).listTokens f = generics.listTokens fun p => f (p.bounded b) := by
  simp only [listTokens, bounded, List.isEmpty_map, List.map_map, Function.comp_def,
    GenericParam.isLifetime_bounded]

theorem implTokens_bounded_congr (h : b.tokens = c.tokens) (generics : Generics) :
    (generics.bounded b).implTokens = (generics.bounded c).implTokens := by
  rw [implTokens, implTokens, listTokens_bounded, listTokens_bounded]
  simp only [GenericParam.tokens_bounded_congr h]

theorem argumentTokens_bounded (generics : Generics) (b : Bound) :
    (generics.bounded b).argumentTokens = generics.argumentTokens := by
  simp only [argumentTokens, listTokens_bounded, GenericParam.argumentTokens_bounded]

end Generics

namespace Members

variable {q : Path}

/-- The members with another path of the runtime library. -/
def withRuntime (m : Members) (q : Path) : Members := { m with runtime := q }

variable {m : Members} (h : SameRuntime q m.runtime)

include h

theorem runtimeTokens_congr (name : String) :
    runtimeTokens q name = runtimeTokens m.runtime name := by
  rw [runtimeTokens, runtimeTokens, h.tokens]

theorem headTokens_withRuntime (name : String) :
    (m.withRuntime q).headTokens name = m.headTokens name := by
  have himpl : ((m.withRuntime q).boundedGenerics name).implTokens
      = (m.boundedGenerics name).implTokens :=
    Generics.implTokens_bounded_congr (h.bound name) m.generics
  have hargument : ((m.withRuntime q).boundedGenerics name).argumentTokens
      = (m.boundedGenerics name).argumentTokens :=
    (Generics.argumentTokens_bounded m.generics _).trans
      (Generics.argumentTokens_bounded m.generics _).symm
  have hruntime : runtimeTokens (m.withRuntime q).runtime name = runtimeTokens m.runtime name :=
    runtimeTokens_congr h name
  -- The conditions stay as they are: bounds are put on the parameters only.
  rw [headTokens, headTokens, himpl, hargument, hruntime]
  rfl

/-- Members show the path of the runtime library only as it is written. -/
theorem tokens_withRuntime : (m.withRuntime q).tokens = m.tokens := by
  have hkeys : (m.withRuntime q).keysTokens = m.keysTokens := by
    simp only [keysTokens, withRuntime, KeyRegistry.tokens, runtimeTokens_congr h]
  have hdecode : (m.withRuntime q).decodeTokens = m.decodeTokens := by
    simp only [decodeTokens, headTokens_withRuntime h, resultTokens]
    simp only [withRuntime, runtimeTokens_congr h]
  have hencode : (m.withRuntime q).encodeTokens = m.encodeTokens := by
    simp only [encodeTokens, headTokens_withRuntime h, resultTokens]
    simp only [withRuntime, runtimeTokens_congr h]
    rfl
  rw [tokens, hkeys, hdecode, hencode, tokens]

end Members

/-! ### Settings put over others -/

/-- Whether an entry is about the path of the runtime library. -/
def Entry.namesRuntime : Entry → Bool
  | asked (.runtime _) _ => true
  | _ => false

namespace RecordSettings

/-- The settings with those of the options over them. -/
def put (strict : Bool) (runtime : Option Path) (settings : RecordSettings) : RecordSettings :=
  ⟨settings.strict || strict, runtime.getD settings.runtime⟩

theorem put_put (strict : Bool) (runtime : Option Path) (settings : RecordSettings) :
    (settings.put strict none).put false runtime = settings.put strict runtime := by
  simp only [put, Bool.or_false, Option.getD_none]

/-- No entry sees whether the record is strict already. -/
theorem add_put_strict (settings : RecordSettings) (e : Entry) :
    (settings.put true none).add e = (settings.add e).map (put true none) := by
  rcases e with ⟨request, l⟩ | err
  · cases request with
    | runtime path => cases path <;> rfl
    | _ => rfl
  · rfl

/-- Only an entry about the path of the runtime library replaces it. -/
theorem add_put_runtime (q : Path) (settings : RecordSettings) {e : Entry}
    (h : e.namesRuntime = false) :
    (settings.put false (some q)).add e = (settings.add e).map (put false (some q)) := by
  rcases e with ⟨request, l⟩ | err
  · cases request with
    | runtime path => exact absurd h (by simp [Entry.namesRuntime])
    | _ => rfl
  · rfl

/-- What is put over settings stays there, if no entry asks for anything else. -/
theorem foldlM_add_map {f : RecordSettings → RecordSettings} {entries : List Entry}
    (h : ∀ e ∈ entries, ∀ settings, (f settings).add e = (settings.add e).map f)
    (settings : RecordSettings) :
    entries.foldlM add (f settings) = (entries.foldlM add settings).map f := by
  induction entries generalizing settings with
  | nil => rfl
  | cons e rest ih =>
    rw [List.foldlM_cons, List.foldlM_cons, h e List.mem_cons_self]
    rcases settings.add e with err | next
    · rfl
    · exact ih (fun e he => h e (List.mem_cons_of_mem _ he)) next

/-- One more entry among others, none of which asks for anything else. -/
theorem ofEntries_insert {f : RecordSettings → RecordSettings} {e : Entry} {after : List Entry}
    (he : ∀ settings : RecordSettings, settings.add e = .ok (f settings))
    (hafter : ∀ e ∈ after, ∀ settings, (f settings).add e = (settings.add e).map f)
    (before : List Entry) :
    ofEntries (before ++ e :: after) = (ofEntries (before ++ after)).map f := by
  rw [ofEntries, ofEntries, List.foldlM_append, List.foldlM_append]
  rcases before.foldlM add initial with err | settings
  · rfl
  · show (e :: after).foldlM add settings = (after.foldlM add settings).map f
    rw [List.foldlM_cons, he, ← foldlM_add_map hafter]
    rfl

end RecordSettings

namespace Entry

/-- Entries before and after a record is made strict by one more, anywhere. -/
inductive AsksStrict : Bool → List Entry → List Entry → Prop
  | unset (entries : List Entry) : AsksStrict false entries entries
  | added (before after : List Entry) (l : Location) :
      AsksStrict true (before ++ after) (before ++ asked .strict l :: after)

/-- Entries before and after a path of the runtime library is put in, as the last
one or in place of it. -/
inductive AsksRuntime : Option Path → List Entry → List Entry → Prop
  | unset (entries : List Entry) : AsksRuntime none entries entries
  | added {p q : Path} (before : List Entry) {after : List Entry} (l : Location)
      (hcode : q.tokens = p.tokens) (hne : p.tokens ≠ [])
      (hlast : ∀ e ∈ after, e.namesRuntime = false) :
      AsksRuntime (some p) (before ++ after) (before ++ asked (.runtime (.ok q)) l :: after)
  | replaced {p q r : Path} (before : List Entry) {after : List Entry} (l m : Location)
      (hcode : q.tokens = p.tokens) (hne : p.tokens ≠ [])
      (hlast : ∀ e ∈ after, e.namesRuntime = false) :
      AsksRuntime (some p) (before ++ asked (.runtime (.ok r)) l :: after)
        (before ++ asked (.runtime (.ok q)) m :: after)

end Entry

namespace RecordSettings

variable {entries others : List Entry}

theorem ofEntries_of_asksStrict {strict : Bool} (h : Entry.AsksStrict strict entries others) :
    ofEntries others = (ofEntries entries).map (put strict none) := by
  cases h with
  | unset =>
    rcases ofEntries entries with err | settings
    · rfl
    · rw [Except.map, put, Bool.or_false]
      rfl
  | added before after l =>
    refine ofEntries_insert (fun settings => ?_) (fun e _ settings => add_put_strict settings e) before
    rw [put, Bool.or_true]
    rfl

theorem ofEntries_insert_runtime (q : Path) (before : List Entry) {after : List Entry} (l : Location)
    (hlast : ∀ e ∈ after, e.namesRuntime = false) :
    ofEntries (before ++ .asked (.runtime (.ok q)) l :: after)
      = (ofEntries (before ++ after)).map (put false (some q)) := by
  refine ofEntries_insert (fun settings => ?_)
    (fun e he settings => add_put_runtime q settings (hlast e he)) before
  rw [put, Bool.or_false]
  rfl

/-- The path that is asked for is written like that of the options. -/
theorem ofEntries_of_asksRuntime {runtime : Option Path}
    (h : Entry.AsksRuntime runtime entries others) :
    ∃ asked, Option.Rel SameRuntime runtime asked ∧
      ofEntries others = (ofEntries entries).map (put false asked) := by
  cases h with
  | unset => exact ⟨none, .none, ofEntries_of_asksStrict (.unset entries)⟩
  | @added p q before after l hcode hne hlast =>
    exact ⟨some q, .some (.of_tokens hcode hne), ofEntries_insert_runtime q before l hlast⟩
  | @replaced p q r before after l m hcode hne hlast =>
    refine ⟨some q, .some (.of_tokens hcode hne), ?_⟩
    rw [ofEntries_insert_runtime q before m hlast, ofEntries_insert_runtime r before l hlast]
    rcases ofEntries (before ++ after) with err | settings
    · rfl
    · simp only [Except.map, put, Bool.or_false, Option.getD_some]

end RecordSettings

/-! ### A declaration under both ways of expansion -/

/-- A declaration that asks itself for what the options set, and is otherwise the
same. -/
structure TypeItem.PutOn (strict : Bool) (runtime : Option Path) (t u : TypeItem) : Prop where
  same : u = { t with attributes := u.attributes }
  asked : ∃ entries, Entry.AsksStrict strict (Entry.ofAttributes t.attributes) entries ∧
    Entry.AsksRuntime runtime entries (Entry.ofAttributes u.attributes)

namespace TypeItem.PutOn

variable {strict : Bool} {runtime : Option Path} {t u : TypeItem}

theorem settings_eq (h : PutOn strict runtime t u) :
    ∃ asked, Option.Rel SameRuntime runtime asked ∧
      RecordSettings.ofAttributes u.attributes
        = (RecordSettings.ofAttributes t.attributes).map (.put strict asked) := by
  obtain ⟨entries, hstrict, hruntime⟩ := h.asked
  obtain ⟨asked, hasked, hu⟩ := RecordSettings.ofEntries_of_asksRuntime hruntime
  refine ⟨asked, hasked, ?_⟩
  rw [RecordSettings.ofAttributes, RecordSettings.ofAttributes, hu,
    RecordSettings.ofEntries_of_asksStrict hstrict]
  rcases RecordSettings.ofEntries (Entry.ofAttributes t.attributes) with err | settings
  · rfl
  · exact congrArg Except.ok (RecordSettings.put_put strict asked settings)

end TypeItem.PutOn

/-- Two outcomes of one declaration: the same code, or errors that differ in their
places only. -/
inductive SameOutcome : Except Diagnostic Members → Except Diagnostic Members → Prop
  | members {m n : Members} (h : n.tokens = m.tokens) : SameOutcome (.ok m) (.ok n)
  | failure {d e : Diagnostic} (h : e.cause = d.cause) : SameOutcome (.error d) (.error e)

namespace Declaration

/-- A declaration with another path of the runtime library, and with diagnostics
that point elsewhere. -/
def moved (d : Declaration) (runtime : Path) (location : Location) : Declaration :=
  { d with settings := ⟨d.settings.strict, runtime⟩, location := location }

/-- A declaration makes the same of itself wherever it stands. -/
theorem sameOutcome_moved (d : Declaration) {q : Path} (h : SameRuntime q d.settings.runtime)
    (l : Location) : SameOutcome d.members (d.moved q l).members := by
  have hkind : (d.moved q l).kind = d.kind := rfl
  by_cases hrecord : d.kind = .record
  · have hclassified : ClassifiedField.ofFields (d.moved q l).settings.strict (d.moved q l).fields
        = ClassifiedField.ofFields d.settings.strict d.fields := rfl
    rw [members_of_record hrecord, members_of_record (hkind.trans hrecord), hclassified]
    rcases ClassifiedField.ofFields d.settings.strict d.fields with e | classified
    · exact .failure rfl
    · exact .members (Members.tokens_withRuntime (m := .build d classified) h)
  · rw [members_of_ne_record hrecord, members_of_ne_record (hkind ▸ hrecord)]
    exact .failure rfl

end Declaration

/-- Settings that are put over those of a record name the same path, whichever
path of two that are written alike it is. -/
theorem sameRuntime_put {strict : Bool} {runtime asked : Option Path}
    (h : Option.Rel SameRuntime runtime asked) (settings : RecordSettings) :
    SameRuntime (settings.put strict runtime).runtime (settings.put strict asked).runtime := by
  cases h with
  | some h => exact h
  | none => exact .refl settings.runtime

/-- **A declaration makes the same of itself on its own and in a file.** -/
theorem TypeItem.PutOn.sameOutcome {options : ExpansionOptions} {runtime : Option Path}
    {t u : TypeItem} (h : PutOn options.strict runtime t u) (modules : List String) :
    SameOutcome u.members (Candidate.members options runtime ⟨t, modules⟩) := by
  obtain ⟨asked, hasked, hsettings⟩ := h.settings_eq
  have hsame := h.same
  obtain ⟨as, _, _, _, _⟩ := t
  obtain ⟨bs, v, name, generics, body⟩ := u
  simp only [TypeItem.mk.injEq] at hsame hsettings
  obtain ⟨-, rfl, rfl, rfl, rfl⟩ := hsame
  rw [members, Candidate.members, Candidate.declaration]
  simp only [Declaration.ofItem]
  cases body with
  | record fields =>
    simp only [Declaration.contentOf, hsettings]
    rcases RecordSettings.ofAttributes as with e | settings
    · exact .failure rfl
    · rcases FieldDeclaration.ofFields fields with e | declared
      · exact .failure rfl
      · exact Declaration.sameOutcome_moved
          ⟨name, .record, v, generics, settings.put options.strict asked, declared, name.location⟩
          (sameRuntime_put hasked settings) _
  | _ => exact .failure rfl

/-! ### A declaration among others -/

theorem Diagnostic.message_eq_of_cause_eq {d e : Diagnostic} (h : e.cause = d.cause) :
    e.message = d.message := by
  rw [message, message, h]

/-- What a declaration contributes to a file next to what it is expanded to on its
own: the same code, and warnings at most, or no code and one error with the same
text. -/
inductive Agrees (u : TypeItem) : Expansion → Prop
  | members {m n : Members} {warnings : List Diagnostic} (hown : u.members = .ok m)
      (htokens : n.tokens = u.expandedTokens) (hwarnings : ∀ d ∈ warnings, d.isError = false) :
      Agrees u ⟨[u.name.spelled], warnings, [n]⟩
  | failure {d e : Diagnostic} (hown : u.members = .error d)
      (htokens : u.expandedTokens = d.compileError) (herror : e.isError)
      (hcause : e.cause = d.cause) (hmessage : e.message = d.message) : Agrees u ⟨[], [e], []⟩

/-- A contribution agrees with a declaration that has the same outcome. -/
theorem SameOutcome.agrees {options : ExpansionOptions} {runtime : Option Path} {t u : TypeItem}
    {e : Expansion} (h : SameOutcome u.members (Candidate.members options runtime ⟨t, []⟩))
    (hname : u.name = t.name) (he : Candidate.Accounted options runtime ⟨t, []⟩ e) :
    Agrees u e := by
  -- Each outcome of the candidate leaves one outcome of the declaration by itself.
  cases he with
  | nested hmodules => exact absurd rfl hmodules
  | @failed d _ hmembers herror =>
    rw [hmembers] at h
    rcases hown : u.members with o | m
    · rw [hown] at h
      cases h with
      | failure hcause =>
        refine .failure hown ?_ herror hcause (Diagnostic.message_eq_of_cause_eq hcause)
        rw [TypeItem.expandedTokens, hown]
    · rw [hown] at h
      cases h
  | @generated d n _ hdeclaration hmembers =>
    rw [Candidate.members_of_declaration hdeclaration, hmembers] at h
    rcases hown : u.members with o | m
    · rw [hown] at h
      cases h
    · rw [hown] at h
      cases h with
      | members htokens =>
        rw [Candidate.name, ← hname]
        refine .members hown ?_ ?_
        · rw [htokens, TypeItem.expandedTokens, hown]
        · simp [Diagnostic.isError, Diagnostic.severity]

namespace Expansion

variable {options : ExpansionOptions} {runtime : Option Path}

theorem selectedIn_type (htypes : options.types = []) {t : TypeItem}
    (hderives : (Candidate.mk t []).derive?.isSome) : selectedIn options [.type t] = [⟨t, []⟩] := by
  refine List.filter_eq_self.mpr fun c hc => ?_
  obtain rfl := List.mem_singleton.mp hc
  rw [Candidate.selected, htypes]
  exact hderives

/-- A declaration alone expands to its contribution. -/
theorem ofItems_type (htypes : options.types = []) {t : TypeItem}
    (hderives : (Candidate.mk t []).derive?.isSome)
    (hparse : Candidate.MembersParse options runtime ⟨t, []⟩) {e : Expansion}
    (he : Candidate.Accounted options runtime ⟨t, []⟩ e) :
    ofItems options runtime [.type t] = .ok e := by
  rw [ofItems_of_types_eq_nil htypes, selectedIn_type htypes hderives, ofCandidates_cons,
    he.ofCandidate_eq hparse]
  exact congrArg Except.ok (append_empty e)

/-- **Both ways of expansion agree.**  Whatever stands around a declaration in a
file, it contributes what it is expanded to on its own, with what the options set
put on it. -/
theorem ofItems_agrees (htypes : options.types = []) {before after : List Item} {t u : TypeItem}
    (hderives : (Candidate.mk t []).derive?.isSome)
    (hparse : ∀ c ∈ selectedIn options (before ++ .type t :: after),
      c.MembersParse options runtime)
    (hput : TypeItem.PutOn options.strict runtime t u) :
    ∃ a e b, ofItems options runtime before = .ok a ∧ ofItems options runtime after = .ok b ∧
      ofItems options runtime (before ++ .type t :: after) = .ok (a ++ e ++ b) ∧ Agrees u e := by
  have hsplit : before ++ .type t :: after = before ++ ([.type t] ++ after) := rfl
  rw [hsplit, selectedIn_append, selectedIn_append, selectedIn_type htypes hderives] at hparse
  obtain ⟨a, ha⟩ := exists_ofItems htypes fun c hc => hparse c (List.mem_append_left _ hc)
  obtain ⟨b, hb⟩ := exists_ofItems htypes fun c hc =>
    hparse c (List.mem_append_right _ (List.mem_append_right _ hc))
  obtain ⟨e, he⟩ := Candidate.exists_accounted options runtime ⟨t, []⟩
  have ht : ofItems options runtime [.type t] = .ok e :=
    ofItems_type htypes hderives (hparse _ (by simp)) he
  refine ⟨a, e, b, ha, hb, ?_, (hput.sameOutcome []).agrees ?_ he⟩
  · rw [hsplit, ofItems_append htypes, ofItems_append htypes, ha, ht, hb, append_assoc]
    rfl
  · rw [hput.same]

end Expansion

/-! ### A record that asks for what options set -/

theorem Path.tokens_of_isName {p : Path} {name : String} (h : p.isName name) :
    p.tokens = [.word name] := by
  rcases p with ⟨_ | _, _ | ⟨⟨i, arguments⟩, _ | _⟩⟩ <;> simp [isName] at h
  cases arguments <;> simp at h
  rw [tokens, Segment.tokens, Token.ident, h]
  rfl

namespace StrictNote

def runtime : Path := .plain false [.plain "rt"]

/-- Strict records with another path of the runtime library. -/
def options : ExpansionOptions := ⟨[], true, some "rt"⟩

/-- A record with one field, which has a shape. -/
def note : TypeItem :=
  MixedFile.derived "Note" []
    (.record [⟨[], .plain "text", .path (.plain false [.plain "String"])⟩])

/-- `strict, crate = "rt"` -/
def requests : List TokenTree :=
  [.ident (.plain "strict"), .punct ',' false .start, .ident (.plain "crate"),
    .punct '=' false .start, .literal "\"rt\"" .start]

/-- The record that asks itself for what the options set. -/
def asking : TypeItem :=
  { note with attributes := note.attributes ++ [MixedFile.listed "codable" requests] }

theorem exists_runtimePath :
    ∃ q s, Entry.runtimePath (Inner.of requests) ⟨requests.drop 3, .start, none⟩ = .ok (q, s) ∧
      q.tokens = runtime.tokens ∧ s.rest = [] ∧ s.stray = none := by
  have hvalue : (match Entry.runtimePath (Inner.of requests) ⟨requests.drop 3, .start, none⟩ with
      | .ok (q, s) => q.isName "rt" && s.rest.isEmpty && s.stray.isNone
      | .error _ => false) = true := by decide +kernel
  rcases hq : Entry.runtimePath (Inner.of requests) ⟨requests.drop 3, .start, none⟩ with e | ⟨q, s⟩
  · rw [hq] at hvalue
    exact absurd hvalue (by simp)
  · rw [hq] at hvalue
    obtain ⟨hvalue, hstray⟩ := Bool.and_eq_true_iff.mp hvalue
    obtain ⟨hname, hrest⟩ := Bool.and_eq_true_iff.mp hvalue
    exact ⟨q, s, rfl, Path.tokens_of_isName hname, List.isEmpty_iff.mp hrest,
      Option.isNone_iff_eq_none.mp hstray⟩

theorem exists_entries :
    ∃ q, q.tokens = runtime.tokens ∧
      Entry.ofAttributes asking.attributes
        = [.asked .strict .start, .asked (.runtime (.ok q)) .start] := by
  obtain ⟨q, s, hq, htokens, hrest, hstray⟩ := exists_runtimePath
  have hstrict : Entry.path ⟨requests, .start, none⟩
      = .ok ((.plain false [.plain "strict"], .start), ⟨requests.drop 1, .start, none⟩) := by rfl
  have hcomma : Parser.punct "," ⟨requests.drop 1, .start, none⟩
      = .ok ((), ⟨requests.drop 2, .start, none⟩) := by rfl
  have hcrate : Entry.path ⟨requests.drop 2, .start, none⟩
      = .ok ((.plain false [.plain "crate"], .start), ⟨requests.drop 3, .start, none⟩) := by rfl
  have hnotCrate : Path.isName "crate" (.plain false [.plain "strict"]) = false := by decide
  have hisCrate : Path.isName "crate" (.plain false [.plain "crate"]) = true := by decide
  refine ⟨q, htokens, ?_⟩
  show Entry.listFrom (Inner.of requests) 6 ⟨requests, .start, none⟩ ++ [] = _
  rw [List.append_nil, Entry.listFrom, hstrict]
  simp only [hnotCrate, Entry.listFrom.more, hcomma]
  rw [Entry.listFrom, hcrate]
  simp only [hisCrate, hq, Entry.listFrom.more, hrest, Entry.leftover, hstray]
  rfl

theorem putOn_asking : TypeItem.PutOn options.strict (some runtime) note asking := by
  obtain ⟨q, hcode, hentries⟩ := exists_entries
  refine ⟨rfl, [.asked .strict .start], .added [] [] .start, ?_⟩
  rw [hentries]
  have hne : runtime.tokens ≠ [] := by simp [runtime, Path.plain, Path.tokens, Segment.tokens]
  exact .added [.asked .strict .start] .start hcode hne (by simp)

theorem membersParse_file :
    ∀ c ∈ selectedIn options ([.type MixedFile.state] ++ .type note :: [.type MixedFile.person]),
      c.MembersParse options (some runtime) := by
  have hselected :
      selectedIn options ([.type MixedFile.state] ++ .type note :: [.type MixedFile.person])
        = [⟨MixedFile.state, []⟩, ⟨note, []⟩, ⟨MixedFile.person, []⟩] := by rfl
  have hstate : Candidate.members options (some runtime) ⟨MixedFile.state, []⟩
      = .error ⟨.unsupportedDeclaration, .start⟩ := by rfl
  have hperson : Candidate.members options (some runtime) ⟨MixedFile.person, []⟩
      = .error ⟨.unrecognizedShape "lookup", .start⟩ := by rfl
  simp only [hselected, List.forall_mem_cons]
  refine ⟨?_, ?_, ?_, by simp⟩
  · intro m _ hm
    exact absurd (hstate.symm.trans hm) (by simp)
  · intro m _ hm
    obtain rfl := Except.ok.inj hm
    exact exists_of_isOk (by decide +kernel)
  · intro m _ hm
    exact absurd (hperson.symm.trans hm) (by simp)

/-- Between two declarations that fail. -/
theorem agrees_asking :
    options.types = [] ∧ (Candidate.mk note []).derive?.isSome ∧
      (∀ c ∈ selectedIn options ([.type MixedFile.state] ++ .type note :: [.type MixedFile.person]),
        c.MembersParse options (some runtime)) ∧
      TypeItem.PutOn options.strict (some runtime) note asking ∧
      ∃ a e b, Expansion.ofItems options (some runtime) [.type MixedFile.state] = .ok a ∧
        Expansion.ofItems options (some runtime) [.type MixedFile.person] = .ok b ∧
        Expansion.ofItems options (some runtime)
            ([.type MixedFile.state] ++ .type note :: [.type MixedFile.person])
          = .ok (a ++ e ++ b) ∧
        Agrees asking e :=
  ⟨rfl, by decide, membersParse_file, putOn_asking,
    Expansion.ofItems_agrees rfl (by decide) membersParse_file putOn_asking⟩

end StrictNote

end RecordCoding
