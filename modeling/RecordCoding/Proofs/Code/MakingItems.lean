/-
What is read of records.

The parameters, conditions and fields of a record that was read have names with the
texts of names, and their types have shapes whose paths can be read again.

* `makes_genericParams`, `makes_whereClause?`, `makes_fieldsInBraces` — the parts of a
  record;
* `Item.spelled_of_parseFile` — the records of a source file, outside of its modules;
* `Path.spelled_of_parse` — the text of a path.

Design notes: a record is the only item that is followed.  All other items come from
parsers of which it is only known that they take tokens from the front.
-/
import RecordCoding.Proofs.Code.MakingTerms

namespace RecordCoding

namespace Parser

variable {inner : Inner} {ts : List TokenTree}

/-! ### Parameters and conditions -/

theorem makes_lifetimeParam (as : List Code) : Makes (lifetimeParam as) GenericParam.Spelled := by
  intro ts
  rw [lifetimeParam]
  refine (makes_lifetime ts).bind fun name hname us => .behind fun _ us =>
    .ite (fun _ => ?_) fun _ => makesFrom_pure ⟨hname, by simp⟩
  refine .behind fun fuel us => (makes_chained _ _ makes_lifetime fuel us).bind
    fun l hl us => makesFrom_pure ⟨hname, hl⟩

theorem makes_typeParam (h : inner.Spells) (as : List Code) :
    Makes (typeParam inner as) GenericParam.Spelled := by
  have hadvance := h.advance
  -- A default is not copied.
  have hbehind {name : Ident} (hname : name.Legible) (l : List Bound × Bool)
      (hl : ∀ b ∈ l.1, b.Spelled) :
      Makes (do
        let fallback ← if ← punct? "=" then some <$> inner.ty true else pure none
        pure (GenericParam.type as name l.1 l.2 fallback)) GenericParam.Spelled :=
    fun us => .behind fun _ us =>
      .ite (fun _ => .behind fun _ us => makesFrom_pure ⟨⟨hname.text, .inl hname.name⟩, hl⟩)
        fun _ => .behind fun _ us => makesFrom_pure ⟨⟨hname.text, .inl hname.name⟩, hl⟩
  have hnone : ∀ b ∈ (([], false) : List Bound × Bool).1, b.Spelled := by simp
  intro ts
  rw [typeParam]
  refine (makes_identifier ts).bind fun name hname us => .behind fun _ us =>
    .ite (fun _ => ?_) fun _ => ?_
  · exact (makes_boundList h _ us).bind fun l hl => hbehind hname l hl
  · exact (makesFrom_pure hnone).bind fun l hl => hbehind hname l hl

theorem makes_constantParam (h : inner.Spells) (as : List Code) :
    Makes (constantParam inner as) GenericParam.Spelled := by
  intro ts
  rw [constantParam]
  refine .behind fun _ us => (makes_identifier us).bind fun name hname us =>
    .behind fun _ us => (h.ty true us).bind fun t ht us => ?_
  repeat' with_reducible first
    | refine MakesFrom.ite (fun _ => ?_) fun _ => ?_
    | refine MakesFrom.behind fun _ _ => ?_
  all_goals exact makesFrom_pure ⟨hname, ht⟩

/-- The word that was seen is the one that is taken. -/
theorem makesFrom_word_of_blank (hblank : isKeyword "_" ts = true) : MakesFrom ts word Ident.Given := by
  refine makesFrom_word.imp fun i ⟨htext, rest, hts⟩ => ⟨htext, .inr ?_⟩
  rw [hts, isKeyword, Bool.and_eq_true, Bool.not_eq_true', decide_eq_true_eq] at hblank
  rw [Ident.isBlank, Ident.spelled, hblank.1, hblank.2]
  rfl

theorem makes_genericParam (h : inner.Spells) : Makes (genericParam inner) GenericParam.Spelled := by
  intro ts
  rw [genericParam]
  refine .behind fun as us => makesFrom_ahead_bind (.ite (fun _ => ?_) fun _ =>
    .ite (fun _ => ?_) fun _ => .ite (fun _ => ?_) fun _ => .ite (fun hblank => ?_) fun _ => ?_)
  · exact makes_lifetimeParam as us
  · exact makes_typeParam h as us
  · exact makes_constantParam h as us
  · exact (makesFrom_word_of_blank hblank).bind fun name hname us => makesFrom_pure ⟨hname, by simp⟩
  · exact makes_failExpected _ us

theorem makes_genericParams (h : inner.Spells) :
    Makes (genericParams inner) fun l => ∀ p ∈ l.1, p.Spelled := by
  intro ts
  rw [genericParams]
  refine .behind fun _ us => .ite (fun _ => ?_) fun _ => makesFrom_pure (by simp)
  refine .behind fun fuel us => (makes_separatedUntil _ _ (makes_genericParam h) fuel us).bind
    fun l hl us => .behind fun _ us => makesFrom_pure hl

theorem makes_predicate (h : inner.Spells) : Makes (predicate inner) Predicate.Spelled := by
  have hadvance := h.advance
  intro ts
  rw [predicate]
  refine makesFrom_ahead_bind (.ite (fun _ => ?_) fun _ => ?_)
  · refine (makes_lifetime ts).bind fun name hname us => .behind fun _ us =>
      .behind fun fuel us => (makes_chained _ _ makes_lifetime fuel us).bind
      fun l hl us => makesFrom_pure ⟨hname, hl⟩
  · refine .behind fun binder us => (h.ty true us).bind fun t ht us =>
      .behind fun _ us => (makes_boundList h _ us).bind fun l hl us =>
      makesFrom_pure ⟨ht, hl⟩

theorem makes_whereClause? (h : inner.Spells) : Makes (whereClause? inner) fun o =>
    ∀ p ∈ (o.getD ([], false)).1, p.Spelled := by
  intro ts
  rw [whereClause?]
  refine .behind fun _ us => .ite (fun _ => ?_) fun _ => makesFrom_pure (by simp)
  refine .behind fun fuel us => (makes_chained _ _ (makes_predicate h) fuel us).bind
    fun l hl us => makesFrom_pure hl

/-! ### Fields -/

/-- A field, which may be of an anonymous type if an underscore is its name. -/
theorem makes_namedFields (h : inner.Spells) (fuel : Nat) :
    Makes (namedFields inner fuel) fun p => ∀ f ∈ p.1, f.Spelled := by
  cases fuel with
  | zero => exact makes_failExpected _
  | succ fuel =>
    intro ts
    rw [namedFields]
    refine (makes_inside (makes_terminated (P := fun p => p.1.Spelled) fun us => ?_) ts).bind
      fun l hl us => makesFrom_pure (List.forall_mem_map.mpr hl)
    refine .behind fun as us => .behind fun v us =>
      makesFrom_ahead_bind (.ite (fun hblank => ?_) fun _ => ?_)
    · refine (makesFrom_word_of_blank hblank).bind fun name hname us => ?_
      refine .behind fun _ us => .behind fun more us =>
        .ite (fun _ => ?_) fun _ => (h.ty true us).bind fun t ht us => makesFrom_pure ⟨hname, ht⟩
      refine .behind fun _ us => .behind fun _ us => ?_
      -- An anonymous type is kept as its tokens.
      exact (makesFrom_pure (P := Ty.Spelled) (Ty.spelled_of_other rfl (by simp))).bind fun t ht us =>
        makesFrom_pure ⟨hname, ht⟩
    · refine (makes_identifier us).bind fun name hname us => ?_
      refine .behind fun _ us => .behind fun more us =>
        .ite (fun hanonymous => ?_) fun _ =>
          (h.ty true us).bind fun t ht us => makesFrom_pure ⟨hname.given, ht⟩
      exact absurd (Bool.and_eq_true_iff.mp hanonymous).1 ‹_›

theorem makes_fieldsInBraces (h : inner.Spells) :
    Makes (fieldsInBraces inner) fun p => ∀ f ∈ p.1, f.Spelled := by
  intro ts
  rw [fieldsInBraces]
  exact makesFrom_ahead_bind (makes_namedFields h _ ts)

/-- What follows the parameters of a struct. -/
theorem makes_structBody (h : inner.Spells) : Makes (structBody inner) fun p =>
    (∀ c ∈ (p.1.getD ([], false)).1, c.Spelled) ∧
      ∀ fields, p.2.1 = .record fields → ∀ f ∈ fields, f.Spelled := by
  have hadvance := h.advance
  intro ts
  rw [structBody]
  refine (makes_whereClause? h ts).bind fun conditions hconditions us => makesFrom_ahead_bind
    (.ite (fun _ => ?_) fun _ => .ite (fun _ => ?_) fun _ => ?_)
  · refine .behind fun _ us => (makes_whereClause? h us).bind
      fun conditions hconditions us => .behind fun _ us =>
      .ite (fun _ => makesFrom_pure ⟨hconditions, by simp⟩) fun _ => makes_failExpected _ us
  · refine (makes_fieldsInBraces h us).bind fun p hp us =>
      makesFrom_pure ⟨hconditions, fun fields hfields => ?_⟩
    cases hfields
    exact hp
  · exact .behind fun _ us =>
      .ite (fun _ => makesFrom_pure ⟨hconditions, by simp⟩) fun _ => makes_failExpected _ us

/-! ### Items -/

/-- A struct, an enumeration or a union. -/
theorem makes_typeItem (h : inner.Spells) (as : List Attribute) {v : Visibility} (hv : v.Legible) :
    Makes (typeItem inner as v) fun p => Item.Spelled (.type p.1) := by
  have hadvance := h.advance
  intro ts
  rw [typeItem]
  refine .behind fun kind us => (makes_identifier us).bind fun name hname us =>
    (makes_genericParams h us).bind fun params hparams us => ?_
  split
  · refine (makes_structBody h us).bind fun p hp us => makesFrom_pure fun fields hfields => ?_
    exact ⟨hname, hv, hparams, hp.1, hp.2⟩
  · repeat' with_reducible first
      | refine MakesFrom.behind fun _ _ => ?_
    exact makesFrom_pure (by simp [Item.Spelled])
  · repeat' with_reducible first
      | refine MakesFrom.behind fun _ _ => ?_
    exact makesFrom_pure (by simp [Item.Spelled])

theorem makes_traitItem (h : inner.Advance) (as : List Attribute) (v : Visibility)
    (words : List String) :
    Makes (traitItem inner as v words) fun p => p.1.Spelled := by
  intro ts
  rw [traitItem]
  repeat' with_reducible first
    | refine MakesFrom.ite (fun _ => ?_) fun _ => ?_
    | refine MakesFrom.behind fun _ _ => ?_
    | exact makes_failExpected _ _
  all_goals exact makesFrom_pure (by simp [Item.Spelled])

theorem makes_moduleItem (h : inner.Advance) (as : List Attribute) (v : Visibility) :
    Makes (moduleItem inner as v) fun p => p.1.Spelled := by
  intro ts
  rw [moduleItem]
  repeat' with_reducible first
    | refine MakesFrom.ite (fun _ => ?_) fun _ => ?_
    | refine MakesFrom.behind fun _ _ => ?_
    | refine makes_inside (fun _ => ?_) _
    | exact makes_failExpected _ _
  all_goals exact makesFrom_pure trivial

theorem makes_failItem {α : Type} {P : α → Prop} (words : List String) (callable : Bool) :
    Makes (failItem words callable : Parser α) P := by
  intro ts
  rw [failItem]
  exact makesFrom_ahead_bind (makes_failExpected _ ts)

theorem makes_itemBehind (h : inner.Spells) (before : List TokenTree) (as : List Attribute) :
    Makes (itemBehind inner before as) fun p => p.1.Spelled := by
  have hadvance := h.advance
  intro ts
  rw [itemBehind]
  refine .behind fun start us => (makes_visibility us).bind fun v hv us => makesFrom_ahead_bind ?_
  have hother (r : Parser Code) [Advances r] :
      Makes (do let c ← r; pure (Item.other, c)) fun p => p.1.Spelled :=
    fun us => .behind fun c us => makesFrom_pure trivial
  repeat' with_reducible first
    | exact (makes_typeItem h as hv _).bind fun p hp us => makesFrom_pure hp
    | exact makes_traitItem hadvance as v _ _
    | exact makes_moduleItem hadvance as v _
    | exact makes_failItem _ _ _
    | exact makes_failAt _ _ _
    | exact makes_failExpected _ _
    | refine MakesFrom.ite (fun _ => ?_) fun _ => ?_
    | exact hother _ _
    | refine MakesFrom.behind fun _ _ => ?_

theorem makes_item (h : inner.Spells) : Makes (item inner) fun p => p.1.Spelled := by
  intro ts
  rw [item]
  exact .behind fun before us => .behind fun as us => makes_itemBehind h before as us

/-- The items of a file. -/
theorem makes_file (h : inner.Spells) : Makes (file inner) fun items => ∀ i ∈ items, i.Spelled := by
  intro ts
  rw [file]
  refine .behind fun as us => .behind fun fuel us => ?_
  exact (makes_toEnd (makes_item h) fuel us).bind fun l hl us =>
    makesFrom_pure (List.forall_mem_map.mpr hl)

theorem spells_of (ts : List TokenTree) : (Inner.of ts).Spells := Inner.spells_ofDepth _

end Parser

/-! ### Texts -/

/-- The records of a source file that can be read, outside of its modules. -/
theorem Item.spelled_of_parseFile {source : String} {items : List Item}
    (h : Item.parseFile source = .ok items) : ∀ i ∈ items, i.Spelled := by
  rw [parseFile] at h
  rcases hscan : TokenTree.scanFile source with l | ts
  · rw [hscan] at h
    cases h
  · rw [hscan] at h
    exact (Parser.makes_file (Parser.spells_of ts)).all (TokenTree.spelled_scanFile hscan) h

/-- A path from its text. -/
theorem Path.spelled_of_parse {text : String} {p : Path} (h : Path.parse text = .ok p) : p.Spelled := by
  rw [parse] at h
  rcases hscan : TokenTree.scan text with l | ts
  · rw [hscan] at h
    cases h
  · rw [hscan] at h
    exact (Parser.makes_path (Parser.spells_of ts) false).all (TokenTree.spelled_scan hscan) h

end RecordCoding
