/-
Records of a source text that is accepted.

What the members of such a record copy has been read from the text: names, a visibility,
the paths of types, and the path of the runtime library.  As long as its parameters and
conditions are plain, all of it can be read again.

* `Candidate.spelled_declaration` — what a record of a text declares has been read;
* `Declaration.Spelled.legible` — it can be read again;
* `Candidate.fourItems_of_source` — so its members are four items;
* `Expansion.ofSource_complete` — a text of such records is expanded, or a type is
  missing.

Design notes: the path of the runtime library comes from a text of its own, that of an
option or of an attribute.
-/
import RecordCoding.Proofs.Code.Conditions
import RecordCoding.Proofs.Code.MakingItems
import RecordCoding.Proofs.Synthesis.Legible
import RecordCoding.Proofs.Synthesis.Precedence
import RecordCoding.Proofs.Synthesis.Stopping

namespace RecordCoding

/-! ### The path of the runtime library -/

namespace Entry

/-- An entry that names a path names one that was read. -/
def Spelled (e : Entry) : Prop := ∀ p, e.runtime? = some p → p.Spelled

theorem spelled_of_runtime?_eq_none {e : Entry} (h : e.runtime? = none) : e.Spelled :=
  fun p hp => absurd (h.symm.trans hp) (by simp)

theorem spelled_requestOf (p : Path) (l : Location) : (asked (requestOf p) l).Spelled := by
  refine spelled_of_runtime?_eq_none ?_
  rw [requestOf]
  split
  · rfl
  · split <;> rfl

/-- The path in the text of a literal. -/
theorem spelled_of_pathInText {literal : String} {l : Location} {p : Path}
    (h : pathInText literal l = .ok p) : p.Spelled := by
  rw [pathInText] at h
  split at h
  · cases h
  · split at h
    · cases h
    · rename_i trees hscan
      have hmoved : TokenTree.SpelledList
          (TokenTree.movedListTo l (l.ofLast literal.toList) trees) :=
        (TokenTree.spelled_scan hscan).movedListTo
      simp only at h
      split at h
      · cases h
      · rename_i q hq
        split at h
        · cases h
          exact (Parser.makes_path (Parser.spells_of _) false).all hmoved hq
        · cases h

theorem spelled_of_runtimePath {inner : Inner} {s s' : ParseState} {p : Path}
    (h : runtimePath inner s = .ok (p, s')) : p.Spelled := by
  rw [runtimePath] at h
  obtain ⟨-, t, -, h⟩ := Parser.exists_of_bind_run h
  obtain ⟨l, u, -, h⟩ := Parser.exists_of_bind_run h
  obtain ⟨value, v, -, h⟩ := Parser.exists_of_bind_run h
  rcases hliteral : value.literal? with _ | literal
  · rw [hliteral] at h
    cases h
  · rw [hliteral] at h
    change (liftM (pathInText literal l) : Parser Path) v = _ at h
    rcases hpath : pathInText literal l with e | q
    · rw [hpath] at h
      cases h
    · rw [hpath] at h
      cases h
      exact spelled_of_pathInText hpath

theorem spelled_leftover (s : ParseState) : ∀ e ∈ leftover s, e.Spelled := by
  intro e he
  obtain ⟨cause, -, rfl⟩ := Option.map_eq_some_iff.mp (Option.mem_toList.mp he)
  exact spelled_of_runtime?_eq_none rfl

/-- The entries of a list, each followed by those behind it. -/
theorem spelled_listFrom (inner : Inner) (fuel : Nat) (s : ParseState) :
    ∀ e ∈ listFrom inner fuel s, e.Spelled := by
  induction fuel generalizing s with
  | zero => exact fun e he => absurd he (by simp [listFrom])
  | succ fuel ih =>
    have hmalformed (e : SyntaxError) : ∀ f ∈ [malformed e], f.Spelled := by
      rintro f hf
      obtain rfl := List.mem_singleton.mp hf
      exact spelled_of_runtime?_eq_none rfl
    have hmore (t : ParseState) : ∀ e ∈ listFrom.more inner t fuel, e.Spelled := by
      rw [listFrom.more]
      split
      · exact spelled_leftover t
      · split
        · exact hmalformed _
        · split
          · exact spelled_leftover _
          · exact ih _
    rw [listFrom]
    split
    · exact hmalformed _
    · split
      · split
        · exact List.forall_mem_singleton.mpr (spelled_of_runtime?_eq_none rfl)
        · rename_i hruntime
          refine List.forall_mem_cons.mpr ⟨fun p hp => ?_, hmore _⟩
          cases hp
          exact spelled_of_runtimePath hruntime
      · exact List.forall_mem_cons.mpr ⟨spelled_requestOf _ _, hmore _⟩

theorem spelled_ofAttributes (as : List Attribute) : ∀ e ∈ ofAttributes as, e.Spelled := by
  intro e he
  obtain ⟨a, -, he⟩ := List.mem_flatMap.mp he
  rw [ofAttribute] at he
  split at he
  · split at he
    · obtain rfl := List.mem_singleton.mp he
      exact spelled_of_runtime?_eq_none rfl
    · obtain rfl := List.mem_singleton.mp he
      exact spelled_of_runtime?_eq_none rfl
    · split at he
      · cases he
      · exact spelled_listFrom _ _ _ e he
  · cases he

end Entry

namespace RecordSettings

theorem spelled_defaultRuntime : defaultRuntime.Spelled := by
  refine ⟨by decide, fun s hs => ?_⟩
  obtain rfl := List.mem_singleton.mp hs
  exact ⟨by decide, by decide, fun e he => by cases he⟩

/-- The last path that is asked for counts, so it is one that was read. -/
theorem spelled_askedBy (as : List Attribute) :
    (initial.askedBy (Entry.ofAttributes as)).runtime.Spelled := by
  rw [askedBy]
  rcases hlast : ((Entry.ofAttributes as).filterMap Entry.runtime?).getLast? with _ | p
  · rw [List.getLastD_eq_getLast?, hlast]
    exact spelled_defaultRuntime
  · rw [List.getLastD_eq_getLast?, hlast]
    obtain ⟨e, he, hp⟩ := List.mem_filterMap.mp (List.mem_of_getLast? hlast)
    exact Entry.spelled_ofAttributes as e he p hp

end RecordSettings

/-- The path that the options put in place of those of the records. -/
theorem Expansion.spelled_of_runtimeOf {options : ExpansionOptions} {p : Path}
    (h : runtimeOf options = .ok (some p)) : p.Spelled := by
  rw [runtimeOf] at h
  split at h
  · cases h
  · split at h
    · rename_i hparse
      cases h
      exact Path.spelled_of_parse hparse
    · cases h

/-! ### What a record declares -/

/-- The path of the innermost type can be read at the place of a type. -/
theorem TypeExpression.Spelled.element {e : TypeExpression} (h : e.Spelled) {p : Path}
    (hp : (FieldShape.of e).element? = some p) : p.Plain ∧ p.opensNoType = false := by
  rcases e with q | (q | _ | (q | _ | _ | _) | _) | (q | _ | _ | _) | _ <;>
    simp only [FieldShape.of, FieldShape.element?, Option.some.injEq, reduceCtorEq] at hp <;>
    exact hp ▸ h

namespace Declaration

variable {d : Declaration} {k : Nat}

/-- A declaration as it was read. -/
structure Spelled (d : Declaration) : Prop where
  name : d.name.Legible
  visibility : d.visibility.Legible
  params : ∀ p ∈ d.generics.params, p.Spelled
  predicates : ∀ p ∈ d.generics.predicates, p.Spelled
  names : ∀ f ∈ d.fields, f.name.Given
  types : ∀ f ∈ d.fields, f.type.Spelled
  runtime : d.settings.runtime.Spelled

/-- Parameters and conditions are plain, and so is the path of the runtime library. -/
structure Elementary (d : Declaration) : Prop where
  params : ∀ p ∈ d.generics.params, p.isPlain = true
  predicates : ∀ p ∈ d.generics.predicates, p.isPlain = true
  runtime : d.settings.runtime.bare = true

instance : Decidable d.Elementary :=
  decidable_of_iff ((∀ p ∈ d.generics.params, p.isPlain = true)
      ∧ (∀ p ∈ d.generics.predicates, p.isPlain = true) ∧ d.settings.runtime.bare = true)
    ⟨fun ⟨hparams, hpredicates, hruntime⟩ => ⟨hparams, hpredicates, hruntime⟩,
      fun h => ⟨h.params, h.predicates, h.runtime⟩⟩

instance : Decidable d.Fits :=
  decidable_of_iff ((∀ f ∈ d.fields, f.name.isBlank = false)
      ∧ (∀ p ∈ d.generics.params, p.isBlank = false) ∧ d.settings.runtime.opensNoType = false)
    ⟨fun ⟨hfields, hparams, hruntime⟩ => ⟨hfields, hparams, hruntime⟩,
      fun h => ⟨h.fields, h.params, h.runtime⟩⟩

/-- What was read can be read again. -/
theorem Spelled.legible (h : d.Spelled) (hd : d.Elementary) : d.Legible 1 where
  name := h.name
  texts f hf := (h.names f hf).text
  names f hf := (h.names f hf).name
  types f hf p hp := (h.types f hf).element hp
  visibility := h.visibility
  params p hp hblank k hk := by
    obtain ⟨k, rfl⟩ := Nat.exists_eq_add_of_le' hk
    exact (h.params p hp).readsParameter (hd.params p hp) hblank
  conditions k hk body ts := by
    obtain ⟨k, rfl⟩ := Nat.exists_eq_add_of_le' hk
    exact Generics.takes_whereClause? h.predicates hd.predicates body ts
  runtime := (h.runtime.plain hd.runtime).readable 1

end Declaration

/-! ### Declarations outside of modules -/

theorem TypeItem.spelled_declared {t : TypeItem} (h : t.Spelled) {fields : List NamedField}
    (hbody : t.body = .record fields) : t.declared.Spelled where
  name := h.name
  visibility := h.visibility
  params := h.params
  predicates := h.predicates
  names f hf := by
    rw [declared, namedFields, hbody] at hf
    obtain ⟨g, hg, rfl⟩ := List.mem_map.mp hf
    exact (h.fields fields hbody g hg).name
  types f hf := by
    rw [declared, namedFields, hbody] at hf
    obtain ⟨g, hg, rfl⟩ := List.mem_map.mp hf
    exact (h.fields fields hbody g hg).type.shape
  runtime := RecordSettings.spelled_askedBy t.attributes

namespace Candidate

variable {options : ExpansionOptions} {runtime : Option Path} {items : List Item} {c : Candidate}
  {d : Declaration} {m : Members}

/-- A declaration without modules around it is an item of the file. -/
theorem mem_of_mem_ofItems (hc : c ∈ ofItems [] items) (htop : c.modules = []) :
    .type c.item ∈ items := by
  induction items with
  | nil => cases hc
  | cons i rest ih =>
    rw [ofItems, List.mem_append] at hc
    rcases hc with hc | hc
    · cases i with
      | type t =>
        obtain rfl := List.mem_singleton.mp hc
        exact List.mem_cons_self
      | module name content =>
        rw [ofItem, ofContent_inside] at hc
        obtain ⟨b, -, rfl⟩ := List.mem_map.mp hc
        exact absurd htop (by simp [inside])
      | other => cases hc
    · exact List.mem_cons_of_mem _ (ih hc)

/-- Only a record has members, and it declares what its parts say. -/
theorem exists_declared (hd : c.declaration options runtime = .ok d) (hm : d.members = .ok m) :
    ∃ fields, c.item.body = .record fields ∧
      d = { c.item.declared with
        location := (c.derive?.map (·.location)).getD c.item.declared.location
        settings := ⟨c.item.declared.settings.strict || options.strict,
          runtime.getD c.item.declared.settings.runtime⟩ } := by
  rw [declaration, Declaration.ofItem] at hd
  rcases hcontent : Declaration.contentOf c.item with e | ⟨settings, fields⟩
  · rw [hcontent] at hd
    cases hd
  · rw [hcontent] at hd
    obtain rfl := Except.ok.inj hd
    by_cases hrecord : DeclarationKind.ofBody c.item.body = .record
    · obtain ⟨named, hbody⟩ : ∃ named, c.item.body = .record named := by
        cases hbody : c.item.body with
        | record named => exact ⟨named, rfl⟩
        | _ =>
          rw [hbody] at hrecord
          cases hrecord
      rw [TypeItem.contentOf_eq hbody, unlessFaults_eq_ok_iff, Prod.mk.injEq] at hcontent
      obtain ⟨-, rfl, rfl⟩ := hcontent
      exact ⟨named, hbody, rfl⟩
    · rw [Declaration.members_of_ne_record hrecord] at hm
      cases hm

/-- What a record of a text declares has been read. -/
theorem spelled_declaration {source : String} (hsource : Item.parseFile source = .ok items)
    (hruntime : Expansion.runtimeOf options = .ok runtime) (hc : c ∈ ofItems [] items)
    (htop : c.modules = []) (hd : c.declaration options runtime = .ok d) (hm : d.members = .ok m) :
    d.Spelled := by
  have hitem : (Item.type c.item).Spelled :=
    Item.spelled_of_parseFile hsource _ (mem_of_mem_ofItems hc htop)
  obtain ⟨fields, hbody, rfl⟩ := exists_declared hd hm
  have hdeclared := TypeItem.spelled_declared (hitem fields hbody) hbody
  -- The options may put a path of their own over that of the record.
  refine ⟨hdeclared.name, hdeclared.visibility, hdeclared.params, hdeclared.predicates,
    hdeclared.names, hdeclared.types, ?_⟩
  rcases runtime with _ | p
  · exact hdeclared.runtime
  · exact Expansion.spelled_of_runtimeOf hruntime

/-- Only a declaration outside of modules contributes members, its own. -/
theorem Accounted.of_mem_members {e : Expansion} (h : c.Accounted options runtime e)
    (hm : m ∈ e.members) : c.modules = [] ∧ c.members options runtime = .ok m := by
  cases h with
  | nested hmodules => cases hm
  | failed htop hmembers herror => cases hm
  | generated htop hdeclaration hmembers =>
    obtain rfl := List.mem_singleton.mp hm
    exact ⟨htop, (members_of_declaration hdeclaration).trans hmembers⟩

/-- What members of a declaration copy is plain, and fits where it is copied to. -/
def IsElementary (options : ExpansionOptions) (runtime : Option Path) (c : Candidate) : Prop :=
  ∀ d m, c.modules = [] → c.declaration options runtime = .ok d → d.members = .ok m →
    d.Elementary ∧ d.Fits

instance : Decidable (c.IsElementary options runtime) :=
  match hd : c.declaration options runtime, hm : c.members options runtime with
  | .ok d, .ok m => decidable_of_iff (c.modules = [] → d.Elementary ∧ d.Fits) <| by
      rw [members_of_declaration hd] at hm
      constructor
      · intro h b n htop hb _
        obtain rfl := Except.ok.inj (hd.symm.trans hb)
        exact h htop
      · exact fun h htop => h d m htop hd hm
  | .ok d, .error e => .isTrue fun b m _ hb hbm => by
      obtain rfl := Except.ok.inj (hd.symm.trans hb)
      rw [members_of_declaration hd, hbm] at hm
      cases hm
  | .error e, _ => .isTrue fun d m _ hb => by
      rw [hd] at hb
      cases hb

/-- **The members of an elementary record of a text are four items.** -/
theorem fourItems_of_source {source : String} (hsource : Item.parseFile source = .ok items)
    (hruntime : Expansion.runtimeOf options = .ok runtime) (hc : c ∈ ofItems [] items)
    (h : c.IsElementary options runtime) (htop : c.modules = [])
    (hm : c.members options runtime = .ok m) :
    ∃ parsed, Item.parseTokens m.tokens = .ok parsed ∧ m.FourItems parsed := by
  rcases hd : c.declaration options runtime with e | d
  · rw [members, hd] at hm
    cases hm
  · rw [members_of_declaration hd] at hm
    obtain ⟨helementary, hfits⟩ := h d m htop hd hm
    have hspelled := spelled_declaration hsource hruntime hc htop hd hm
    rw [Declaration.members_eq_built hm]
    exact ((hspelled.legible helementary).built hfits).parses (by decide)

end Candidate

namespace Expansion

variable {options : ExpansionOptions} {runtime : Option Path} {items : List Item}

theorem mem_members_concat {es : List Expansion} {m : Members} :
    m ∈ (concat es).members ↔ ∃ e ∈ es, m ∈ e.members := by
  induction es with
  | nil => simp [concat, empty]
  | cons e rest ih =>
    rw [List.exists_mem_cons_iff, ← ih]
    exact List.mem_append

/-- **A text of elementary records is expanded, unless a type is missing.**  All code in
its expansion has been parsed into an enumeration of keys and three implementations. -/
theorem ofSource_complete {source : String} (hsource : Item.parseFile source = .ok items)
    (hruntime : runtimeOf options = .ok runtime)
    (h : ∀ c ∈ selectedIn options items, c.IsElementary options runtime) :
    (missing? options items = none ∧ ∃ e, ofSource options source = .ok e ∧
        ∀ m ∈ e.members, ∃ parsed, Item.parseTokens m.tokens = .ok parsed ∧ m.FourItems parsed) ∨
      ∃ name, missing? options items = some name ∧
        ofSource options source = .error (.typeNotFound name) := by
  have hitems : ∀ c ∈ selectedIn options items, c.modules = [] → ∀ m,
      c.members options runtime = .ok m →
        ∃ parsed, Item.parseTokens m.tokens = .ok parsed ∧ m.FourItems parsed := fun c hc htop m hm =>
    Candidate.fourItems_of_source hsource hruntime (List.mem_of_mem_filter hc) (h c hc) htop hm
  choose share hshare using Candidate.exists_accounted options runtime
  have hrun := ofCandidates_of_accounted (forall₂_map_accounted hshare (selectedIn options items))
    fun c hc m htop hm => (hitems c hc htop m hm).imp fun _ hparsed => hparsed.1
  have hresult : ofSource options source
      = (missing? options items).elim (.ok (concat ((selectedIn options items).map share)))
          fun name => .error (.typeNotFound name) := by
    rw [ofSource, hsource]
    simp only [hruntime]
    exact ofItems_of_ofCandidates hrun
  rcases hmissing : missing? options items with _ | name
  all_goals rw [hmissing] at hresult
  · refine .inl ⟨rfl, _, hresult, fun m hm => ?_⟩
    obtain ⟨e, he, hm⟩ := mem_members_concat.mp hm
    obtain ⟨c, hc, rfl⟩ := List.mem_map.mp he
    obtain ⟨htop, hmembers⟩ := (hshare c).of_mem_members hm
    exact hitems c hc htop m hmembers
  · exact .inr ⟨name, rfl, hresult⟩

end Expansion

/-! ### A record with a parameter -/

namespace Paired

/-- A bounded parameter, a condition on it, a raw name, and an underscore in front of
another name. -/
def source : String :=
  "#[derive(Codable)] pub(crate) struct Pair<T: Clone> where T: Send \x7b "
    ++ "left: T, r#type: Option<Vec<u8>>, _cache: () \x7d"

/-- Its members are the four items of the general case. -/
theorem complete_source :
    ∃ e, Expansion.ofSource .initial source = .ok e ∧ e.generated = ["Pair"] ∧
      ∀ m ∈ e.members, ∃ parsed, Item.parseTokens m.tokens = .ok parsed ∧ m.FourItems parsed := by
  have hgenerated : ((Expansion.ofSource .initial source).map (·.generated)).toOption
      = some ["Pair"] := by decide +kernel
  have helementary : ∀ c ∈ selectedIn .initial ((Item.parseFile source).toOption.getD []),
      c.IsElementary .initial none := by decide +kernel
  rcases hitems : Item.parseFile source with err | items
  · rw [Expansion.ofSource, hitems] at hgenerated
    cases hgenerated
  · rw [hitems] at helementary
    rcases Expansion.ofSource_complete hitems rfl helementary with ⟨-, e, he, hmembers⟩ | ⟨_, hnone, -⟩
    · rw [he] at hgenerated
      exact ⟨e, he, Option.some.inj hgenerated, hmembers⟩
    · cases hnone

end Paired

end RecordCoding
