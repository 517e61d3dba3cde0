/-
Terms that have been read.

The names in a term that was read are words of the text, so they can be read again.

* `Path.Spelled`, `Ty.Spelled`, `Bound.Spelled` — terms that were read;
* `GenericParam.Spelled`, `Predicate.Spelled`, `TypeItem.Spelled` — what they are parts of;
* `makes_visibility`, `makes_path`, `makes_ty` — the parsers that make them;
* `Inner.spells_ofDepth` — any number of levels further in.

Design notes: only what members copy is followed.  Of every other parser it is enough
that it takes trees from the front.
-/
import RecordCoding.Proofs.Code.AdvancingItems
import RecordCoding.Proofs.Code.Making
import RecordCoding.Proofs.Code.Paths

namespace RecordCoding

/-! ### What is made -/

/-- A shape whose paths can be read at the place of a type. -/
def TypeExpression.Spelled : TypeExpression → Prop
  | named p => p.Plain ∧ p.opensNoType = false
  | optional content => content.Spelled
  | sequence element => element.Spelled
  | other _ => True

/-- A step that was read. -/
structure Segment.Spelled (s : Segment) : Prop where
  text : Token.IsNameText s.name.name
  word : Parser.isStep s.name = true
  argument : ∀ e, TypeExpression.argumentOfStep s = some e → e.Spelled

/-- Arguments that were read; the shape of a field looks at a single one only. -/
def Arguments.Spelled (a : Arguments) : Prop := ∀ e, TypeExpression.soleArgument a = some e → e.Spelled

/-- An argument that was read. -/
def Argument.Spelled (a : Argument) : Prop := ∀ e, TypeExpression.typeArgument a = some e → e.Spelled

/-- A path that was read. -/
structure Path.Spelled (p : Path) : Prop where
  ne : p.segments ≠ []
  steps : ∀ s ∈ p.segments, s.Spelled

/-- A type that was read. -/
structure Ty.Spelled (t : Ty) : Prop where
  shape : (TypeExpression.ofType t).Spelled
  path : ∀ p, t = .path p → p.Spelled ∧ p.opensNoType = false

/-- A bound that was read. -/
def Bound.Spelled : Bound → Prop
  | .lifetime name => Token.IsLifetimeText name
  | .trait _ _ _ p => p.Spelled
  | _ => True

/-- A name, or the underscore that stands for none. -/
structure Ident.Given (i : Ident) : Prop where
  text : Token.IsNameText i.name
  name : Parser.isName i = true ∨ i.isBlank = true

theorem Ident.Legible.given {i : Ident} (h : i.Legible) : i.Given := ⟨h.text, .inl h.name⟩

/-- A generic parameter that was read. -/
def GenericParam.Spelled : GenericParam → Prop
  | .lifetime _ name outlives _ =>
    Token.IsLifetimeText name ∧ ∀ l ∈ outlives, Token.IsLifetimeText l
  | .type _ name bounds _ _ => name.Given ∧ ∀ b ∈ bounds, b.Spelled
  | .constant _ name t _ => name.Legible ∧ t.Spelled

/-- A condition that was read. -/
def Predicate.Spelled : Predicate → Prop
  | .lifetime name outlives _ => Token.IsLifetimeText name ∧ ∀ l ∈ outlives, Token.IsLifetimeText l
  | .type _ subject bounds _ => subject.Spelled ∧ ∀ b ∈ bounds, b.Spelled

/-- A field that was read. -/
structure NamedField.Spelled (f : NamedField) : Prop where
  name : f.name.Given
  type : f.type.Spelled

/-- A record that was read. -/
structure TypeItem.Spelled (t : TypeItem) : Prop where
  name : t.name.Legible
  visibility : t.visibility.Legible
  params : ∀ p ∈ t.generics.params, p.Spelled
  predicates : ∀ p ∈ t.generics.predicates, p.Spelled
  fields : ∀ fields, t.body = .record fields → ∀ f ∈ fields, f.Spelled

/-- An item that is a record is one that was read. -/
def Item.Spelled : Item → Prop
  | .type t => ∀ fields, t.body = .record fields → t.Spelled
  | _ => True

theorem Path.Spelled.plain {p : Path} (h : p.Spelled) (hbare : p.bare = true) : p.Plain :=
  ⟨h.ne, hbare, fun s hs => (h.steps s hs).text, fun s hs => (h.steps s hs).word⟩

theorem Segment.spelled_argumentOfLast {segments : List Segment} (h : ∀ s ∈ segments, s.Spelled)
    {e : TypeExpression} (he : TypeExpression.argumentOfLast segments = some e) : e.Spelled := by
  induction segments with
  | nil => cases he
  | cons s rest ih =>
    obtain ⟨hs, hrest⟩ := List.forall_mem_cons.mp h
    cases rest with
    | nil => exact hs.argument e he
    | cons t rest => exact ih hrest he

/-- A path is a type whose shape is that of its last argument, or the path itself. -/
theorem Path.Spelled.ty {p : Path} (h : p.Spelled) (hopens : p.opensNoType = false) :
    (Ty.path p).Spelled := by
  refine ⟨?_, fun q hq => ?_⟩
  · obtain ⟨leading, segments⟩ := p
    have hplain : (if (Path.mk leading segments).bare then .named (.mk leading segments)
        else .other (.path (.mk leading segments)) : TypeExpression).Spelled := by
      split
      · exact ⟨h.plain ‹_›, hopens⟩
      · trivial
    rw [TypeExpression.ofType]
    split
    · rename_i e he
      have he := Segment.spelled_argumentOfLast h.steps he
      split
      · exact he
      · split
        · exact he
        · exact hplain
    · exact hplain
  · cases hq
    exact ⟨h, hopens⟩

/-- A type that is neither a path nor in parentheses has no shape. -/
theorem Ty.spelled_of_other {t u : Ty} (h : TypeExpression.ofType t = .other u)
    (hpath : ∀ p, t ≠ .path p) : t.Spelled := by
  refine ⟨?_, fun p hp => absurd hp (hpath p)⟩
  rw [h]
  trivial

/-- The parsers for what lies one level further in make what is spelled. -/
structure Inner.Spells (inner : Inner) : Prop where
  advance : inner.Advance
  ty : ∀ plus, Parser.Makes (inner.ty plus) Ty.Spelled
  bound : ∀ hidden const, Parser.Makes (inner.bound hidden const) Bound.Spelled

namespace Parser

variable {inner : Inner} {i : Ident} {ts : List TokenTree}

/-! ### Plain paths -/

theorem isStep_of_isPathStart (h : isPathStart [.ident i] = true) : isStep i = true := by
  simp only [isPathStart, isIdentifier, isPathWord, isKeyword, Bool.or_eq_true, Bool.and_eq_true,
    Bool.not_eq_true', decide_eq_true_eq] at h
  rw [isStep, Bool.or_eq_true, Bool.and_eq_true, Bool.not_eq_true', List.contains_iff_mem]
  rcases h with h | h
  · exact .inl h
  · right
    rcases h with ((⟨hraw, hname⟩ | ⟨hraw, hname⟩) | ⟨hraw, hname⟩) | ⟨hraw, hname⟩
    all_goals
      rw [hname]
      exact ⟨hraw, by decide⟩

theorem makes_plainPath_steps (fuel : Nat) : Makes (plainPath.steps fuel) fun l =>
    ∀ i ∈ l.1, Token.IsNameText i.name ∧ isPathStart [.ident i] = true := by
  induction fuel with
  | zero => exact fun ts => makesFrom_pure (by simp)
  | succ fuel ih =>
    intro ts
    rw [plainPath.steps]
    refine makesFrom_ahead_bind (.ite (fun hstart => ?_) fun _ => makesFrom_pure (by simp))
    refine makesFrom_word.bind fun i ⟨htext, rest, hts⟩ ts => ?_
    subst hts
    have hi : Token.IsNameText i.name ∧ isPathStart [.ident i] = true := ⟨htext, hstart⟩
    refine .behind fun _ ts => .ite (fun _ => ?_) fun _ => ?_
    · refine (ih ts).bind fun l hl ts => ?_
      exact makesFrom_pure (List.forall_mem_cons.mpr ⟨hi, hl⟩)
    · exact makesFrom_pure (by simpa using hi)

/-- Without a step, none comes next. -/
theorem isPathStart_of_steps {fuel : Nat} {s s' : ParseState} {open' : Bool}
    (h : plainPath.steps (fuel + 1) s = .ok (([], open'), s')) : isPathStart s'.rest = false := by
  rw [plainPath.steps] at h
  change (if isPathStart s.rest then _ else _ : Parser (List Ident × Bool)) s = _ at h
  split at h
  · obtain ⟨i, t, -, h⟩ := exists_of_bind_run h
    obtain ⟨b, u, -, h⟩ := exists_of_bind_run h
    split at h
    · obtain ⟨l, v, -, h⟩ := exists_of_bind_run h
      cases h
    · cases h
  · cases h
    exact Bool.eq_false_iff.mpr ‹_›

theorem isIdentifier_of_identifier {s s' : ParseState} (h : identifier s = .ok (i, s')) :
    isIdentifier s.rest = true := by
  obtain ⟨_ | ⟨t, rest⟩, scope, stray⟩ := s
  · cases h
  · cases t with
    | ident j =>
      change (if isName j then _ else _ : Parser Ident) _ = _ at h
      split at h
      · assumption
      · cases h
    | _ => cases h

/-- A path without arguments. -/
theorem makes_plainPath : Makes plainPath fun p =>
    p.Plain ∧ ∀ s ∈ p.segments, isPathStart [.ident s.name] = true := by
  intro ts
  rw [plainPath]
  refine .behind fun leading ts => makesFrom_rounds_bind ?_
  intro scope stray p s' hts h
  obtain ⟨⟨names, open'⟩, t, hsteps, h⟩ := exists_of_bind_run h
  obtain ⟨hrest, hnames⟩ := makes_plainPath_steps _ ts scope stray _ t hts hsteps
  change (if names.isEmpty = true then _ else if open' = true then _ else _ : Parser Path) t = _ at h
  split at h
  · -- Without a step a name is asked for, and none is there.
    obtain ⟨i, u, hi, -⟩ := exists_of_bind_run h
    rename_i hnone
    obtain rfl := List.isEmpty_iff.mp hnone
    have hname := isIdentifier_of_identifier hi
    have hstart := isPathStart_of_steps hsteps
    rw [isPathStart, hname, Bool.true_or] at hstart
    exact absurd hstart (by decide)
  · split at h
    · exact absurd h fail_ne_ok
    · cases h
      have hne : names ≠ [] := by simpa using ‹¬ names.isEmpty = true›
      have hsteps : ∀ s ∈ (Path.plain leading names).segments,
          Token.IsNameText s.name.name ∧ isPathStart [.ident s.name] = true := by
        intro s hs
        obtain ⟨i, hi, rfl⟩ := List.mem_map.mp hs
        exact hnames i hi
      refine ⟨hrest, ⟨by simpa [Path.plain, Path.segments] using hne, ?_, fun s hs => (hsteps s hs).1,
        fun s hs => isStep_of_isPathStart (hsteps s hs).2⟩, fun s hs => (hsteps s hs).2⟩
      exact List.all_eq_true.mpr fun s hs => by
        obtain ⟨i, hi, rfl⟩ := List.mem_map.mp hs
        rfl

/-- Who may see an item. -/
theorem makes_visibility : Makes visibility Visibility.Legible := by
  have hwithin : Makes (inside .parenthesis do skip 1; Visibility.within <$> plainPath)
      Visibility.Legible :=
    makes_inside fun ts => .behind fun _ ts =>
      .map ((makes_plainPath ts).imp fun p hp => .within hp.1 hp.2)
  intro ts
  rw [visibility]
  refine .behind fun _ ts => .ite (fun _ => ?_) fun _ => makesFrom_pure .inherited
  refine makesFrom_ahead_bind ?_
  split
  · refine .ite (fun hword => ?_) fun _ => .ite (fun _ => hwithin _) fun _ => makesFrom_pure .everyone
    refine .behind fun _ ts => makesFrom_pure (.near ?_)
    simp only [isKeyword, Bool.or_eq_true, Bool.and_eq_true, decide_eq_true_eq] at hword
    rcases hword with (⟨-, hname⟩ | ⟨-, hname⟩) | ⟨-, hname⟩
    all_goals
      rw [hname]
      decide
  · exact .ite (fun _ => hwithin _) fun _ => makesFrom_pure .everyone
  · exact makesFrom_pure .everyone

/-! ### Paths -/

theorem makes_argument (h : inner.Spells) : Makes (argument inner) Argument.Spelled := by
  have hnone {a : Argument} (ha : TypeExpression.typeArgument a = none) : a.Spelled :=
    fun e he => absurd (ha.symm.trans he) (by simp)
  have hadvance := h.advance
  intro ts
  rw [argument]
  refine makesFrom_ahead_bind (.ite (fun _ => ?_) fun _ => .ite (fun _ => ?_) fun _ => ?_)
  · exact .map ((Advances.makes ts).imp fun name _ => hnone rfl)
  · exact .map ((Advances.makes ts).imp fun value _ => hnone rfl)
  · refine (h.ty true ts).bind fun t ht ts => ?_
    have htype : (Argument.type t).Spelled := fun e he => Option.some.inj he ▸ ht.shape
    -- A name may go on as that of an associated item, which is no type alone.
    split
    · repeat' with_reducible first
        | refine MakesFrom.ite (fun _ => ?_) fun _ => ?_
        | refine MakesFrom.behind fun _ _ => ?_
        | exact makesFrom_pure htype
        | exact makesFrom_pure (hnone rfl)
        | refine MakesFrom.map ?_
      all_goals exact (Advances.makes _).imp fun _ _ => hnone rfl
    · exact makesFrom_pure htype

theorem makes_angleArguments (h : inner.Spells) : Makes (angleArguments inner) Arguments.Spelled := by
  intro ts
  rw [angleArguments]
  refine .behind fun marked ts => .behind fun _ ts => makesFrom_rounds_bind ?_
  refine (makes_separatedUntil _ _ (makes_argument h) _ ts).bind fun l hl ts =>
    .behind fun _ ts => makesFrom_pure fun e he => ?_
  obtain ⟨arguments, trailing⟩ := l
  cases arguments with
  | nil => cases he
  | cons a rest =>
    cases rest with
    | nil => exact hl a List.mem_cons_self e he
    | cons b rest => cases he

theorem isStep_of_isKeyword {w : String} (hw : w ∈ ["super", "self", "crate", "try", "Self"])
    {rest : List TokenTree} (h : isKeyword w (.ident i :: rest) = true) : isStep i = true := by
  rw [isKeyword, Bool.and_eq_true, decide_eq_true_eq] at h
  rw [isStep, h.1, h.2, List.contains_iff_mem.mpr hw, Bool.true_and, Bool.or_true]

/-- A step has the name ahead. -/
theorem makesFrom_segment (h : inner.Spells) (marked : Bool) :
    MakesFrom ts (segment inner marked) fun s => s.Spelled ∧ ∃ rest, ts = .ident s.name :: rest := by
  rw [segment]
  refine makesFrom_ahead_bind (.ite (fun hword => ?_) fun _ => ?_)
  · refine makesFrom_word.bind fun i ⟨htext, rest, hts⟩ us => makesFrom_pure ?_
    subst hts
    simp only [Bool.or_eq_true] at hword
    refine ⟨⟨htext, ?_, fun e he => by cases he⟩, rest, rfl⟩
    rcases hword with ((hword | hword) | hword) | hword
    all_goals exact isStep_of_isKeyword (by decide) hword
  · have hbehind {i : Ident} (htext : Token.IsNameText i.name) (hstep : isStep i = true)
        (hts : ∃ rest, ts = .ident i :: rest) (us : List TokenTree) (c : Bool) : MakesFrom us
          (if c then Segment.mk i <$> angleArguments inner else pure (.mk i .none))
          fun s => s.Spelled ∧ ∃ rest, ts = .ident s.name :: rest := by
      refine .ite (fun _ => ?_) fun _ => makesFrom_pure ⟨⟨htext, hstep, fun e he => by cases he⟩, hts⟩
      exact .map ((makes_angleArguments h us).imp fun a ha => ⟨⟨htext, hstep, ha⟩, hts⟩)
    refine .ite (fun hself => ?_) fun _ => ?_
    · refine makesFrom_word.bind fun i ⟨htext, rest, hts⟩ us => ?_
      have hstep := isStep_of_isKeyword (by decide) (hts ▸ hself)
      exact makesFrom_ahead_bind (hbehind htext hstep ⟨rest, hts⟩ us _)
    · refine makesFrom_identifier.bind fun i ⟨hi, hts⟩ us => ?_
      have hstep : isStep i = true := by rw [isStep, hi.name, Bool.true_or]
      exact makesFrom_ahead_bind (hbehind hi.text hstep hts us _)

theorem makes_segment (h : inner.Spells) (marked : Bool) :
    Makes (segment inner marked) Segment.Spelled :=
  fun _ => (makesFrom_segment h marked).imp fun _ hs => hs.1

theorem makes_furtherSteps (h : inner.Spells) (marked : Bool) (fuel : Nat) :
    Makes (furtherSteps inner marked fuel) fun l => ∀ s ∈ l, s.Spelled := by
  induction fuel with
  | zero => exact fun ts => makesFrom_pure (by simp)
  | succ fuel ih =>
    intro ts
    rw [furtherSteps]
    refine makesFrom_ahead_bind (.ite (fun _ => ?_) fun _ => makesFrom_pure (by simp))
    refine .behind fun _ ts => (makes_segment h marked ts).bind fun s hs ts =>
      (ih ts).bind fun l hl ts => makesFrom_pure (List.forall_mem_cons.mpr ⟨hs, hl⟩)

theorem makes_path (h : inner.Spells) (marked : Bool) : Makes (path inner marked) Path.Spelled := by
  intro ts
  rw [path]
  refine .behind fun leading ts => (makes_segment h marked ts).bind
    fun first hfirst ts => makesFrom_rounds_bind ((makes_furtherSteps h marked _ ts).bind
      fun rest hrest ts => makesFrom_pure ?_)
  exact ⟨by simp [Path.segments], List.forall_mem_cons.mpr ⟨hfirst, hrest⟩⟩

theorem spelled_ne_try (h : isPathStart (.ident i :: ts) = true) : i.spelled ≠ "try" := by
  have hraw : ∀ name, "r#" ++ name ≠ "try" := by
    intro name heq
    have hlist := congrArg String.toList heq
    rw [String.toList_append] at hlist
    exact absurd (List.cons.inj hlist).1 (by decide)
  rw [Ident.spelled]
  split
  · exact hraw i.name
  · rename_i hplain
    simp only [isPathStart, isIdentifier, isName, isPathWord, isKeyword, Bool.eq_false_iff.mpr hplain,
      Bool.false_or, Bool.not_false, Bool.true_and, Bool.or_eq_true, Bool.not_eq_true',
      decide_eq_true_eq] at h
    rintro heq
    rw [heq] at h
    exact absurd h (by decide)

/-- A path at the place of a type. -/
theorem makesFrom_path (h : inner.Spells) (hts : isPathStart ts = true ∨ isPunct "::" ts = true) :
    MakesFrom ts (path inner false) fun p => p.Spelled ∧ p.opensNoType = false := by
  have hpath (leading : Bool) {first : Segment} {rest : List Segment} (hfirst : first.Spelled)
      (hrest : ∀ s ∈ rest, s.Spelled) : (Path.mk leading (first :: rest)).Spelled :=
    ⟨by simp [Path.segments], List.forall_mem_cons.mpr ⟨hfirst, hrest⟩⟩
  rw [path]
  refine makesFrom_punct?_bind (fun _ us => ?_) fun hcolons => ?_
  · refine (makes_segment h false us).bind fun first hfirst us => makesFrom_rounds_bind ?_
    refine (makes_furtherSteps h false _ us).bind fun rest hrest us => makesFrom_pure ?_
    exact ⟨hpath true hfirst hrest, rfl⟩
  · refine (makesFrom_segment h false).bind fun first ⟨hfirst, more, hmore⟩ us =>
      makesFrom_rounds_bind ?_
    refine (makes_furtherSteps h false _ us).bind fun rest hrest us => makesFrom_pure ?_
    have hstart := hts.resolve_right (by rw [hcolons]; exact Bool.false_ne_true)
    rw [hmore] at hstart
    exact ⟨hpath false hfirst hrest, beq_false_of_ne (spelled_ne_try hstart)⟩

/-! ### Bounds -/

theorem makes_functionArguments (h : inner.Advance) :
    Makes (functionArguments inner) Arguments.Spelled := by
  intro ts
  rw [functionArguments]
  refine .behind fun parameters us => .behind fun result us => ?_
  exact makesFrom_pure fun e he => by cases he

theorem makes_traitPath (h : inner.Spells) : Makes (traitPath inner) Path.Spelled := by
  intro ts
  rw [traitPath]
  refine (makes_path h false ts).bind fun p hp us => ?_
  split
  · rename_i name arguments before hsegments
    refine .behind fun _ us => .ite (fun _ => ?_) fun _ => makesFrom_pure hp
    refine .behind fun _ us => (makes_functionArguments h.advance us).bind
      fun function hfunction us => makesFrom_pure ?_
    -- Only the last step is another one, with the arguments of a function.
    have hsteps : ∀ s ∈ Segment.mk name arguments :: before, s.Spelled := fun s hs =>
      hp.steps s (List.mem_reverse.mp (hsegments ▸ hs))
    obtain ⟨hlast, hbefore⟩ := List.forall_mem_cons.mp hsteps
    refine ⟨by simp [Path.segments], fun s hs => ?_⟩
    rcases List.mem_append.mp hs with hs | hs
    · exact hbefore s (List.mem_reverse.mp hs)
    · obtain rfl := List.mem_singleton.mp hs
      exact ⟨hlast.text, hlast.word, hfunction⟩
  · exact makesFrom_pure hp

/-- A bound that a compiler may check is none. -/
theorem makes_traitBound? (h : inner.Spells) (parenthesized const : Bool) :
    Makes (traitBound? inner parenthesized const) fun o => ∀ b, o = some b → b.Spelled := by
  have hadvance := h.advance
  intro ts
  rw [traitBound?]
  refine .behind fun before us => .behind fun checked us => .behind fun l us => .behind fun relaxed us => ?_
  have hpath (binder : Option Binder) : Makes (do
      let p ← traitPath inner
      if binder.isSome && relaxed then
        failAt (.rule "`for<...>` binder not allowed with `?` trait polarity modifier") l
      else if checked then pure none
      else pure (some (Bound.trait parenthesized binder relaxed p)))
      fun o => ∀ b, o = some b → b.Spelled := by
    refine fun us => (makes_traitPath h us).bind fun p hp us =>
      .ite (fun _ => makes_failAt _ _ us) fun _ =>
      .ite (fun _ => makesFrom_pure (by simp)) fun _ => makesFrom_pure ?_
    intro b hb
    cases hb
    exact hp
  exact .ite (fun _ => .behind hpath) fun _ => .behind hpath

theorem makes_captures : Makes captures Bound.Spelled := by
  intro ts
  rw [captures]
  exact .behind fun _ us => .behind fun _ us => .behind fun fuel us => .behind fun l us =>
    .behind fun _ us => makesFrom_pure trivial

theorem makes_bound (h : inner.Spells) (hidden const : Bool) :
    Makes (bound inner hidden const) Bound.Spelled := by
  have hadvance := h.advance
  intro ts
  rw [bound]
  refine makesFrom_ahead_bind (.behind fun l us => .ite (fun _ => ?_) fun _ =>
    .ite (fun _ => ?_) fun _ => ?_)
  · exact .map (makes_lifetime us)
  · refine (makes_captures us).bind fun b hb us => ?_
    exact .ite (fun _ => makesFrom_pure hb) fun _ => makes_failAt _ _ us
  · have hverbatim (before : List TokenTree) :
        Makes (.verbatim <$> takenSince before) Bound.Spelled := fun us =>
      .map ((Advances.makes us).imp fun _ _ => trivial)
    refine .ite (fun _ => ?_) fun _ => ?_
    · refine (makes_inside (makes_traitBound? h true const) us).bind fun o ho us => ?_
      cases o with
      | some b => exact makesFrom_pure (ho b rfl)
      | none => exact hverbatim _ us
    · refine (makes_traitBound? h false const us).bind fun o ho us => ?_
      cases o with
      | some b => exact makesFrom_pure (ho b rfl)
      | none => exact hverbatim _ us

theorem makes_boundList (h : inner.Spells) (stop : List TokenTree → Bool) :
    Makes (boundList inner stop) fun l => ∀ b ∈ l.1, b.Spelled := by
  intro ts
  rw [boundList]
  exact .behind fun fuel us => makes_chained _ _ (h.bound _ _) fuel us

/-! ### Types -/

theorem makes_parenthesizedContent (h : inner.Spells) :
    Makes (parenthesizedContent inner) fun p => p.1.Spelled := by
  have hadvance := h.advance
  have hother {t u : Ty} {more : Bool} (ht : TypeExpression.ofType t = .other u)
      (hpath : ∀ p, t ≠ .path p) (us : List TokenTree) :
      MakesFrom us (pure (t, more) : Parser (Ty × Bool)) fun p => p.1.Spelled :=
    makesFrom_pure (Ty.spelled_of_other ht hpath)
  intro ts
  rw [parenthesizedContent]
  refine makesFrom_ahead_bind (.ite (fun _ => ?_) fun _ => .ite (fun _ => ?_) fun _ =>
    .ite (fun _ => ?_) fun _ => ?_)
  · exact hother rfl (by simp) _
  · exact .behind fun l us => .behind fun bounds us => hother rfl (by simp) us
  · refine .behind fun o us => ?_
    split
    · exact hother rfl (by simp) us
    · exact makes_failExpected _ us
  · refine (h.ty true _).bind fun first hfirst us => .behind fun _ us =>
      .ite (fun _ => ?_) fun _ => ?_
    · exact .behind fun rest us => hother rfl (by simp) us
    · exact makesFrom_pure ⟨hfirst.shape, by simp⟩

theorem makes_parenthesizedType (h : inner.Spells) (plus : Bool) :
    Makes (parenthesizedType inner plus) Ty.Spelled := by
  have hadvance := h.advance
  have hextended (b : Bound) : Makes (do
      let rest ← addedBounds inner (← rounds)
      pure (Ty.object false (b :: rest) false)) Ty.Spelled :=
    fun us => .behind fun fuel us => .behind fun rest us =>
      makesFrom_pure (Ty.spelled_of_other rfl (by simp))
  intro ts
  rw [parenthesizedType]
  refine (makes_inside (makes_parenthesizedContent h) ts).bind fun p hp us => ?_
  obtain ⟨t, extensible⟩ := p
  simp only
  split
  · exact hextended _ us
  · rename_i first
    refine .behind fun _ us => .ite (fun _ => ?_) fun _ => makesFrom_pure hp
    split
    · exact hextended _ us
    · exact makesFrom_pure hp
  · exact makesFrom_pure hp

theorem makesFrom_qualifiedPath (h : inner.Spells)
    (hts : (isPathStart ts || isPunct "::" ts || isPunct "<" ts) = true) :
    MakesFrom ts (qualifiedPath inner false) Ty.Spelled := by
  have hadvance := h.advance
  rw [qualifiedPath]
  refine makesFrom_punct?_bind (fun _ us => .ite (fun _ => ?_) fun hfalse => ?_) fun hangle => ?_
  · repeat' with_reducible first
      | refine MakesFrom.ite (fun _ => ?_) fun _ => ?_
      | refine MakesFrom.behind fun _ _ => ?_
      | exact makesFrom_pure (Ty.spelled_of_other rfl (by simp))
  · exact absurd rfl hfalse
  · rw [hangle, Bool.or_false, Bool.or_eq_true] at hts
    exact .map ((makesFrom_path h hts).imp fun p hp => hp.1.ty hp.2)

/-- A type that opens with a path. -/
theorem makesFrom_pathType (h : inner.Spells) (plus : Bool) (binder : Option Binder)
    (hts : (isPathStart ts || isPunct "::" ts || isPunct "<" ts) = true) :
    MakesFrom ts (pathType inner plus binder) Ty.Spelled := by
  have hadvance := h.advance
  rw [pathType]
  refine (makesFrom_qualifiedPath h hts).bind fun t ht us => ?_
  split
  · repeat' with_reducible first
      | refine MakesFrom.ite (fun _ => ?_) fun _ => ?_
      | refine MakesFrom.behind fun _ _ => ?_
      | exact makesFrom_pure (Ty.spelled_of_other rfl (by simp))
      | exact makesFrom_pure ht
  · exact makesFrom_pure ht

theorem makes_functionPointer (h : inner.Advance) (binder : Option Binder) :
    Makes (functionPointer inner binder) Ty.Spelled := by
  intro ts
  rw [functionPointer]
  repeat' with_reducible first
    | refine MakesFrom.behind fun _ _ => ?_
    | exact makesFrom_pure (Ty.spelled_of_other rfl (by simp))

theorem makes_objectType (h : inner.Advance) (plus : Bool) :
    Makes (objectType inner plus) Ty.Spelled := by
  intro ts
  rw [objectType]
  repeat' with_reducible first
    | refine MakesFrom.ite (fun _ => ?_) fun _ => ?_
    | refine MakesFrom.behind fun _ _ => ?_
    | exact makesFrom_pure (Ty.spelled_of_other rfl (by simp))
  exact .map ((Advances.makes _).imp fun _ _ => Ty.spelled_of_other rfl (by simp))

theorem makes_pointerType (h : inner.Advance) : Makes (pointerType inner) Ty.Spelled := by
  have htarget (mutable : Bool) : Makes (Ty.pointer mutable <$> inner.ty false) Ty.Spelled :=
    fun us => .map (((h.ty false).makes us).imp fun _ _ => Ty.spelled_of_other rfl (by simp))
  intro ts
  rw [pointerType]
  refine .behind fun _ us => .behind fun _ us =>
    .ite (fun _ => htarget false us) fun _ => .behind fun _ us =>
    .ite (fun _ => htarget true us) fun _ => makes_failExpected _ us

theorem makes_referenceType (h : inner.Advance) : Makes (referenceType inner) Ty.Spelled := by
  have htarget (l : Option String) (mutable : Bool) :
      Makes (Ty.reference l mutable <$> inner.ty false) Ty.Spelled :=
    fun us => .map (((h.ty false).makes us).imp fun _ _ => Ty.spelled_of_other rfl (by simp))
  intro ts
  rw [referenceType]
  repeat' with_reducible first
    | exact htarget _ _ _
    | refine MakesFrom.ite (fun _ => ?_) fun _ => ?_
    | refine MakesFrom.behind fun _ _ => ?_

/-- A type: a path, a type in parentheses, or one without a shape. -/
theorem makes_ty (h : inner.Spells) (plus : Bool) : Makes (ty inner plus) Ty.Spelled := by
  have hadvance := h.advance
  intro ts
  rw [ty]
  refine .behind fun before us => .behind fun binder us => makesFrom_ahead_bind ?_
  refine .ite (fun _ => makes_failExpected _ us) fun _ =>
    .ite (fun _ => makes_parenthesizedType h plus us) fun _ =>
    .ite (fun _ => makes_functionPointer hadvance binder us) fun _ => .ite (fun _ => ?_) fun _ =>
    .ite (fun hpath => makesFrom_pathType h plus binder hpath) fun _ =>
    .ite (fun _ => makes_objectType hadvance plus us) fun _ => .ite (fun _ => ?_) fun _ =>
    .ite (fun _ => makes_pointerType hadvance us) fun _ =>
    .ite (fun _ => makes_referenceType hadvance us) fun _ => ?_
  · refine .behind fun _ us => ?_
    exact .map ((Advances.makes us).imp fun _ _ => Ty.spelled_of_other rfl (by simp))
  · refine makes_inside (fun us => ?_) us
    refine .behind fun element us => .behind fun _ us =>
      .ite (fun _ => ?_) fun _ => makesFrom_pure (Ty.spelled_of_other rfl (by simp))
    exact .map ((Advances.makes us).imp fun _ _ => Ty.spelled_of_other rfl (by simp))
  · -- Nothing that is left has a shape.
    repeat' with_reducible first
      | refine MakesFrom.ite (fun _ => ?_) fun _ => ?_
      | refine MakesFrom.behind fun _ _ => ?_
      | exact makesFrom_pure (Ty.spelled_of_other rfl (by simp))
      | exact makes_failExpected _ _

end Parser

/-- The parsers for any number of levels make what is spelled. -/
theorem Inner.spells_ofDepth (depth : Nat) : (Inner.ofDepth depth).Spells := by
  induction depth with
  | zero =>
    refine ⟨advance_ofDepth 0, fun plus => ?_, fun hidden const => ?_⟩
    all_goals exact Parser.makes_failExpected _
  | succ depth ih => exact ⟨advance_ofDepth (depth + 1), Parser.makes_ty ih, Parser.makes_bound ih⟩

end RecordCoding
