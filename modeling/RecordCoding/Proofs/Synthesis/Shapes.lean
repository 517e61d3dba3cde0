/-
Which shape the type of a field has, and which type is read for it.

A type is looked at as far as `Option` and `Vec` go, in any spelling, with the
parentheses around it and around their arguments taken away.  `Ty.core` is the
type without these, and `Ty.respelled` has each of the two written in one way.

* `Ty.spelled?_eq_some_iff` — what counts as a spelling of `Option` or of `Vec`;
* `Ty.spelled_induction` — the cases in which a type is looked at;
* `TypeExpression.ofType_eq_named_iff`, `ofType_eq_around_iff` — what is seen of a
  type, in terms of its core;
* `FieldShape.shape_exact` — the shape of every type, and the type that is read.

Design notes: a `Spelling` keeps the names as they are written, so that a type is
put together again from its spelling and its argument.  What makes it a spelling
is stated about the names alone, apart from the functions that look for one.
-/
import RecordCoding.Proofs.Synthesis.Statements

namespace RecordCoding

/-! ### Spellings of `Option` and `Vec` -/

/-- The two generic types that shapes are made with. -/
inductive Wrapper
  | option
  | vec
  deriving DecidableEq, Repr

namespace Wrapper

def name : Wrapper → String
  | option => "Option"
  | vec => "Vec"

/-- The modules that export it. -/
def modules : Wrapper → List (List String)
  | option => [["std", "option"], ["core", "option"]]
  | vec => [["std", "vec"], ["alloc", "vec"]]

end Wrapper

/-- What may stand in front of the name: nothing at all, or the steps of a module,
with or without `::` before them. -/
def Wrapper.Placed (w : Wrapper) (leading : Bool) (before : List Segment) : Prop :=
  (before = [] ∧ leading = false) ∨
    (before.map (·.name.spelled) ∈ w.modules ∧ ∀ s ∈ before, s.arguments.isNone)

instance (w : Wrapper) (leading : Bool) (before : List Segment) :
    Decidable (w.Placed leading before) :=
  inferInstanceAs (Decidable (_ ∨ _))

/-- One way to write one of the two types around an argument. -/
structure Spelling (w : Wrapper) where
  /-- Whether the path begins with `::`. -/
  leading : Bool
  before : List Segment
  name : Ident
  /-- Whether `::` stands in front of the argument. -/
  marked : Bool
  /-- Whether a comma stands behind the argument. -/
  trailing : Bool
  named : name.spelled = w.name
  placed : w.Placed leading before

namespace Spelling

variable {w : Wrapper}

def around (s : Spelling w) (argument : Ty) : Ty :=
  .path (.mk s.leading
    (s.before ++ [.mk s.name (.angle s.marked [.type argument] s.trailing)]))

/-- The spelling through the module of the standard library, with `::` before it. -/
def canonical : (w : Wrapper) → Spelling w
  | .option =>
    ⟨true, [.mk (.plain "std") .none, .mk (.plain "option") .none], .plain "Option", false, false,
      by decide, by decide⟩
  | .vec =>
    ⟨true, [.mk (.plain "std") .none, .mk (.plain "vec") .none], .plain "Vec", false, false,
      by decide, by decide⟩

/-- The spelling that a step with the given ones before it makes, and its argument. -/
def ofStep? (w : Wrapper) (leading : Bool) (before : List Segment) :
    Segment → Option (Spelling w × Ty)
  | .mk name (.angle marked [.type argument] trailing) =>
    if h : name.spelled = w.name ∧ w.Placed leading before then
      some (⟨leading, before, name, marked, trailing, h.1, h.2⟩, argument)
    else none
  | _ => none

theorem eq_of_ofStep? {leading : Bool} {before : List Segment} {last : Segment} {s : Spelling w}
    {argument : Ty} (h : ofStep? w leading before last = some (s, argument)) :
    s.leading = leading ∧ s.before = before ∧
      last = .mk s.name (.angle s.marked [.type argument] s.trailing) := by
  unfold ofStep? at h
  split at h
  · split at h
    · obtain ⟨rfl, rfl⟩ := Prod.mk.inj (Option.some.inj h)
      exact ⟨rfl, rfl, rfl⟩
    · exact absurd h (by simp)
  · exact absurd h (by simp)

end Spelling

namespace Ty

/-- How a type spells one of the two, and around what. -/
def spelled? (w : Wrapper) : Ty → Option (Spelling w × Ty)
  | .path (.mk leading segments) =>
    segments.getLast?.bind (Spelling.ofStep? w leading segments.dropLast)
  | _ => none

variable {w : Wrapper} {t : Ty}

theorem spelled?_around (s : Spelling w) (argument : Ty) :
    (s.around argument).spelled? w = some (s, argument) := by
  obtain ⟨leading, before, name, marked, trailing, hnamed, hplaced⟩ := s
  simp only [Spelling.around, spelled?, List.getLast?_concat, List.dropLast_concat,
    Option.bind_some, Spelling.ofStep?]
  rw [dif_pos ⟨hnamed, hplaced⟩]

theorem eq_around_of_spelled? {s : Spelling w} {argument : Ty}
    (h : t.spelled? w = some (s, argument)) : t = s.around argument := by
  unfold spelled? at h
  split at h
  · obtain ⟨last, hlast, hstep⟩ := Option.bind_eq_some_iff.mp h
    obtain ⟨before, rfl⟩ := List.getLast?_eq_some_iff.mp hlast
    rw [List.dropLast_concat] at hstep
    obtain ⟨rfl, rfl, rfl⟩ := Spelling.eq_of_ofStep? hstep
    rfl
  · exact absurd h (by simp)

/-- A type spells one of the two around an argument if it is put together that way. -/
theorem spelled?_eq_some_iff {s : Spelling w} {argument : Ty} :
    t.spelled? w = some (s, argument) ↔ t = s.around argument := by
  constructor
  · exact eq_around_of_spelled?
  · rintro rfl
    exact spelled?_around s argument

/-- Nothing is a spelling of both. -/
theorem spelled?_vec_of_option {s : Spelling .option} {argument : Ty} :
    (s.around argument).spelled? .vec = none := by
  rcases hspelled : (s.around argument).spelled? .vec with _ | ⟨v, other⟩
  · rfl
  · have hsame := eq_around_of_spelled? hspelled
    simp only [Spelling.around, path.injEq, Path.mk.injEq] at hsame
    have hlast := congrArg List.getLast? hsame.2
    simp only [List.getLast?_concat, Option.some.injEq, Segment.mk.injEq] at hlast
    have hnames := s.named
    rw [hlast.1, v.named] at hnames
    exact absurd hnames (by decide)

theorem sizeOf_lt_around (s : Spelling w) (argument : Ty) :
    sizeOf argument < sizeOf (s.around argument) := by
  have hmem : ∀ (before : List Segment) (last : Segment),
      sizeOf last < sizeOf (before ++ [last]) := by
    intro before last
    exact List.sizeOf_lt_of_mem (List.mem_append_right before (List.mem_singleton_self last))
  have hlast := hmem s.before (.mk s.name (.angle s.marked [.type argument] s.trailing))
  simp only [Spelling.around, path.sizeOf_spec, Path.mk.sizeOf_spec, Segment.mk.sizeOf_spec,
    Arguments.angle.sizeOf_spec, List.cons.sizeOf_spec, Argument.type.sizeOf_spec] at hlast ⊢
  omega

/-- How a type spells either of the two. -/
def wrapped? (t : Ty) : Option ((w : Wrapper) × Spelling w × Ty) :=
  ((t.spelled? .option).map (Sigma.mk Wrapper.option)).or
    ((t.spelled? .vec).map (Sigma.mk Wrapper.vec))

theorem wrapped?_eq_some_iff {s : Spelling w} {argument : Ty} :
    t.wrapped? = some ⟨w, s, argument⟩ ↔ t = s.around argument := by
  rw [← spelled?_eq_some_iff, wrapped?]
  rcases hoption : t.spelled? .option with _ | ⟨v, other⟩
  · rcases hvec : t.spelled? .vec with _ | ⟨v, other⟩ <;> cases w <;> simp [hoption, hvec]
  -- What is a spelling of `Option` is none of `Vec`.
  · obtain rfl := eq_around_of_spelled? hoption
    cases w <;> simp [hoption, spelled?_vec_of_option]

theorem wrapped?_around (s : Spelling w) (argument : Ty) :
    (s.around argument).wrapped? = some ⟨w, s, argument⟩ := wrapped?_eq_some_iff.mpr rfl

/-! ### What a type is without parentheses, and in one spelling -/

theorem sizeOf_lt_of_wrapped? {v : (w : Wrapper) × Spelling w × Ty} (h : t.wrapped? = some v) :
    sizeOf v.2.2 < sizeOf t := by
  rw [wrapped?_eq_some_iff.mp h]
  exact sizeOf_lt_around v.2.1 v.2.2

/-- A type without the parentheses and groups around it, and around the argument
of an `Option` or a `Vec` that is found there. -/
def core : Ty → Ty
  | .paren inner => inner.core
  | .group inner => inner.core
  | t =>
    match h : t.wrapped? with
    | some ⟨_, s, argument⟩ =>
      have := sizeOf_lt_of_wrapped? h
      s.around argument.core
    | none => t
termination_by t => sizeOf t

/-- A type with `Option` and `Vec` spelled in one way, down to the first other type. -/
def respelled (t : Ty) : Ty :=
  match h : t.wrapped? with
  | some ⟨w, _, argument⟩ =>
    have := sizeOf_lt_of_wrapped? h
    (Spelling.canonical w).around argument.respelled
  | none => t
termination_by sizeOf t

/-- A type that is not looked into. -/
structure Plain (t : Ty) : Prop where
  paren : ∀ inner, t ≠ .paren inner
  group : ∀ inner, t ≠ .group inner
  wrapped : t.wrapped? = none

theorem core_paren (inner : Ty) : (paren inner).core = inner.core := by rw [core]

theorem core_group (inner : Ty) : (group inner).core = inner.core := by rw [core]

theorem core_around (s : Spelling w) (argument : Ty) :
    (s.around argument).core = s.around argument.core := by
  rw [core]
  · split
    · next h =>
      cases (wrapped?_around s argument).symm.trans h
      rfl
    · next h => exact absurd ((wrapped?_around s argument).symm.trans h) (by simp)
  · exact fun _ h => Ty.noConfusion h
  · exact fun _ h => Ty.noConfusion h

theorem core_of_plain (h : t.Plain) : t.core = t := by
  rw [core]
  · split
    · next hwrapped => exact absurd (h.wrapped.symm.trans hwrapped) (by simp)
    · rfl
  · exact h.paren
  · exact h.group

theorem around_inj {v : Wrapper} {s : Spelling w} {s' : Spelling v} {argument argument' : Ty}
    (h : s.around argument = s'.around argument') : w = v ∧ argument = argument' := by
  have hsame := (wrapped?_around s argument).symm.trans (wrapped?_eq_some_iff.mpr h)
  cases hsame
  exact ⟨rfl, rfl⟩

theorem respelled_around (s : Spelling w) (argument : Ty) :
    (s.around argument).respelled = (Spelling.canonical w).around argument.respelled := by
  rw [respelled]
  split
  · next h =>
    cases (wrapped?_around s argument).symm.trans h
    rfl
  · next h => exact absurd ((wrapped?_around s argument).symm.trans h) (by simp)

theorem respelled_of_plain (h : t.Plain) : t.respelled = t := by
  rw [respelled]
  split
  · next hwrapped => exact absurd (h.wrapped.symm.trans hwrapped) (by simp)
  · rfl

/-- The cases in which a type is looked at. -/
theorem wrapped_induction {motive : Ty → Prop} (paren : ∀ inner, motive inner → motive (.paren inner))
    (group : ∀ inner, motive inner → motive (.group inner))
    (around : ∀ (w : Wrapper) (s : Spelling w) argument, motive argument → motive (s.around argument))
    (plain : ∀ t : Ty, t.Plain → motive t) (t : Ty) : motive t := by
  induction hsize : sizeOf t using Nat.strongRecOn generalizing t with
  | ind n ih =>
    subst hsize
    by_cases hparen : ∃ inner, t = .paren inner
    · obtain ⟨inner, rfl⟩ := hparen
      exact paren inner (ih _ (by simp) inner rfl)
    by_cases hgroup : ∃ inner, t = .group inner
    · obtain ⟨inner, rfl⟩ := hgroup
      exact group inner (ih _ (by simp) inner rfl)
    rcases hwrapped : t.wrapped? with _ | ⟨w, s, argument⟩
    · exact plain t ⟨not_exists.mp hparen, not_exists.mp hgroup, hwrapped⟩
    · obtain rfl := wrapped?_eq_some_iff.mp hwrapped
      exact around w s argument (ih _ (sizeOf_lt_around s argument) argument rfl)

theorem core_core (t : Ty) : t.core.core = t.core := by
  induction t using wrapped_induction with
  | paren inner ih => rwa [core_paren]
  | group inner ih => rwa [core_group]
  | around w s argument ih => rw [core_around, core_around, ih]
  | plain t h => rw [core_of_plain h, core_of_plain h]

/-- The argument that a core spells something around is a core itself. -/
theorem core_of_core_eq_around {s : Spelling w} {argument : Ty} (h : t.core = s.around argument) :
    argument.core = argument := by
  have hcore := core_core t
  rw [h, core_around] at hcore
  exact (around_inj hcore).2

end Ty

/-! ### What is seen of a type -/

/-- What is seen of a type that spells one of the two. -/
def Wrapper.seen : Wrapper → TypeExpression → TypeExpression
  | option => .optional
  | vec => .sequence

theorem Wrapper.seen_inj {w v : Wrapper} {e e' : TypeExpression} (h : w.seen e = v.seen e') :
    w = v ∧ e = e' := by
  cases w <;> cases v <;> simp_all [seen]

theorem Wrapper.seen_ne_named {w : Wrapper} {e : TypeExpression} {p : Path} :
    w.seen e ≠ .named p := by
  cases w <;> simp [seen]

theorem Wrapper.seen_ne_other {w : Wrapper} {e : TypeExpression} {t : Ty} :
    w.seen e ≠ .other t := by
  cases w <;> simp [seen]

namespace TypeExpression

variable {w : Wrapper} {leading : Bool} {before : List Segment} {last : Segment}

/-- The name and the modules that are looked for are those of a spelling. -/
theorem names_concat_iff :
    names w.name w.modules (.mk leading (before ++ [last]))
      ↔ last.name.spelled = w.name ∧ w.Placed leading before := by
  have hmodules : w.modules.any (isModule before)
      ↔ before.map (·.name.spelled) ∈ w.modules ∧ ∀ s ∈ before, s.arguments.isNone := by
    rw [List.any_eq_true]
    constructor
    · rintro ⟨module, hmem, hmodule⟩
      obtain ⟨hnames, hnone⟩ := Bool.and_eq_true_iff.mp hmodule
      rw [beq_iff_eq.mp hnames]
      exact ⟨hmem, List.all_eq_true.mp hnone⟩
    · rintro ⟨hmem, hnone⟩
      exact ⟨_, hmem, Bool.and_eq_true_iff.mpr ⟨beq_self_eq_true _, List.all_eq_true.mpr hnone⟩⟩
  have hbare : (before.isEmpty && !leading) ↔ before = [] ∧ leading = false := by
    rw [Bool.and_eq_true, List.isEmpty_iff, Bool.not_eq_true']
  have hreverse : (Path.mk leading (before ++ [last])).segments.reverse
      = last :: before.reverse := List.reverse_concat
  have hplaced : (before.reverse.isEmpty && !leading || w.modules.any (isModule before))
      ↔ w.Placed leading before := by
    rw [List.isEmpty_reverse, Bool.or_eq_true, hbare, hmodules, Wrapper.Placed]
  simp only [names, hreverse, Path.leading, List.reverse_reverse]
  rw [Bool.and_eq_true, beq_iff_eq, hplaced]

theorem argumentOfLast_concat (before : List Segment) (last : Segment) :
    argumentOfLast (before ++ [last]) = argumentOfStep last := by
  induction before with
  | nil => rfl
  | cons s rest ih =>
    rcases rest with _ | ⟨s', rest⟩
    · rfl
    · exact ih

theorem ofType_around (s : Spelling w) (argument : Ty) :
    ofType (s.around argument) = w.seen (ofType argument) := by
  have hargument : argumentOfLast
      (s.before ++ [.mk s.name (.angle s.marked [.type argument] s.trailing)])
        = some (ofType argument) := argumentOfLast_concat s.before _
  have hnames : ∀ v : Wrapper, names v.name v.modules
      (.mk s.leading (s.before ++ [.mk s.name (.angle s.marked [.type argument] s.trailing)]))
        ↔ s.name.spelled = v.name ∧ v.Placed s.leading s.before := fun _ => names_concat_iff
  rw [Spelling.around, ofType]
  simp only [hargument]
  cases w with
  | option => exact if_pos ((hnames .option).mpr ⟨s.named, s.placed⟩)
  | vec =>
    have hother : ¬ names "Option" optionModules _ := fun h => by
      have hname := ((hnames .option).mp h).1
      rw [s.named] at hname
      exact absurd hname (by decide)
    rw [if_neg hother]
    exact if_pos ((hnames .vec).mpr ⟨s.named, s.placed⟩)

/-- Only a last step with one type in angle brackets has an argument. -/
theorem exists_of_argumentOfStep {s : Segment} {e : TypeExpression}
    (h : argumentOfStep s = some e) :
    ∃ name marked argument trailing,
      s = .mk name (.angle marked [.type argument] trailing) ∧ e = ofType argument := by
  obtain ⟨name, arguments⟩ := s
  rw [argumentOfStep] at h
  unfold soleArgument at h
  split at h
  · next marked arguments trailing =>
    unfold soleOf at h
    split at h
    · next a =>
      unfold typeArgument at h
      split at h
      · next argument => exact ⟨name, marked, argument, trailing, rfl, (Option.some.inj h).symm⟩
      · exact absurd h (by simp)
    · exact absurd h (by simp)
  · exact absurd h (by simp)

/-- A path that is not looked into has the name of neither, if it has an argument. -/
theorem not_names_of_plain {segments : List Segment} {e : TypeExpression}
    (h : (Ty.path (.mk leading segments)).Plain) (he : argumentOfLast segments = some e)
    (w : Wrapper) : ¬ names w.name w.modules (.mk leading segments) := by
  intro hnames
  rcases List.eq_nil_or_concat segments with rfl | ⟨before, last, rfl⟩
  · exact absurd he (by simp [argumentOfLast])
  · rw [List.concat_eq_append] at h he hnames
    rw [argumentOfLast_concat] at he
    obtain ⟨name, marked, argument, trailing, rfl, -⟩ := exists_of_argumentOfStep he
    obtain ⟨hnamed, hplaced⟩ := names_concat_iff.mp hnames
    have hwrapped :=
      Ty.wrapped?_around ⟨leading, before, name, marked, trailing, hnamed, hplaced⟩ argument
    exact absurd (h.wrapped.symm.trans hwrapped) (by simp)

/-- A type that is not looked into is a path without arguments, or is anything else. -/
theorem ofType_of_plain {t : Ty} (h : t.Plain) :
    (∃ p, p.bare ∧ t = .path p ∧ ofType t = .named p) ∨
      ((∀ p, p.bare → t ≠ .path p) ∧ ofType t = .other t) := by
  cases t with
  | path p =>
    obtain ⟨leading, segments⟩ := p
    have hplain : ofType (.path (.mk leading segments))
        = if (Path.mk leading segments).bare then .named (.mk leading segments)
          else .other (.path (.mk leading segments)) := by
      rw [ofType]
      rcases he : argumentOfLast segments with _ | e
      · rfl
      · simp only
        rw [if_neg, if_neg]
        · exact not_names_of_plain h he .vec
        · exact not_names_of_plain h he .option
    by_cases hbare : (Path.mk leading segments).bare
    · exact .inl ⟨_, hbare, rfl, hplain.trans (if_pos hbare)⟩
    · refine .inr ⟨?_, hplain.trans (if_neg hbare)⟩
      rintro p hp heq
      cases heq
      exact hbare hp
  | paren inner => exact absurd rfl (h.paren inner)
  | group inner => exact absurd rfl (h.group inner)
  | _ => exact .inr ⟨fun _ _ heq => Ty.noConfusion heq, rfl⟩

variable {t : Ty} {p : Path} {e : TypeExpression}

/-- A path without arguments is seen as itself, and is its own core. -/
theorem plain_of_bare (h : p.bare) : (Ty.path p).Plain := by
  refine ⟨fun _ heq => Ty.noConfusion heq, fun _ heq => Ty.noConfusion heq, ?_⟩
  rcases hwrapped : (Ty.path p).wrapped? with _ | ⟨w, s, argument⟩
  · rfl
  · have heq := Ty.wrapped?_eq_some_iff.mp hwrapped
    cases heq
    exact absurd h (by simp [Path.bare, Path.segments, Segment.arguments, Arguments.isNone])

theorem ofType_eq_named_iff : ofType t = .named p ↔ p.bare ∧ t.core = .path p := by
  induction t using Ty.wrapped_induction with
  | paren inner ih => rwa [Ty.core_paren, ofType]
  | group inner ih => rwa [Ty.core_group, ofType]
  | around w s argument _ =>
    rw [ofType_around, Ty.core_around]
    -- A type around another is seen as an optional or a sequence, and is no path itself.
    constructor
    · exact fun h => absurd h Wrapper.seen_ne_named
    · rintro ⟨hbare, hpath⟩
      have hplain := (plain_of_bare hbare).wrapped
      rw [← hpath, Ty.wrapped?_around] at hplain
      exact absurd hplain (by simp)
  | plain t h =>
    rw [Ty.core_of_plain h]
    rcases ofType_of_plain h with ⟨q, hbare, rfl, htype⟩ | ⟨hnone, htype⟩ <;> rw [htype]
    · constructor
      · intro hsame
        cases hsame
        exact ⟨hbare, rfl⟩
      · rintro ⟨-, hsame⟩
        cases hsame
        rfl
    · constructor
      · exact fun hsame => absurd hsame (by simp)
      · rintro ⟨hbare, hpath⟩
        exact absurd hpath (hnone p hbare)

/-- Nothing else is seen of a type than of its core. -/
theorem ofType_core : ofType t.core = ofType t := by
  induction t using Ty.wrapped_induction with
  | paren inner ih => rwa [Ty.core_paren, ofType]
  | group inner ih => rwa [Ty.core_group, ofType]
  | around w s argument ih => rw [Ty.core_around, ofType_around, ofType_around, ih]
  | plain t h => rw [Ty.core_of_plain h]

/-- A type is seen as an optional or a sequence if its core spells it. -/
theorem ofType_eq_seen_iff {w : Wrapper} :
    ofType t = w.seen e ↔
      ∃ (s : Spelling w) (argument : Ty), t.core = s.around argument ∧ ofType argument = e := by
  induction t using Ty.wrapped_induction with
  | paren inner ih => rwa [Ty.core_paren, ofType]
  | group inner ih => rwa [Ty.core_group, ofType]
  | around v s argument _ =>
    rw [ofType_around, Ty.core_around]
    constructor
    · intro hsame
      obtain ⟨rfl, rfl⟩ := Wrapper.seen_inj hsame
      exact ⟨s, argument.core, rfl, ofType_core⟩
    · rintro ⟨s', argument', hcore, rfl⟩
      obtain ⟨rfl, hargument⟩ := Ty.around_inj hcore
      rw [← hargument, ofType_core]
  | plain t h =>
    constructor
    · intro hseen
      rcases ofType_of_plain h with ⟨q, -, -, htype⟩ | ⟨-, htype⟩ <;> rw [htype] at hseen
      · exact absurd hseen.symm Wrapper.seen_ne_named
      · exact absurd hseen.symm Wrapper.seen_ne_other
    · rintro ⟨s, argument, hcore, -⟩
      rw [Ty.core_of_plain h] at hcore
      exact absurd (h.wrapped.symm.trans (Ty.wrapped?_eq_some_iff.mpr hcore)) (by simp)

/-- A type around a path without arguments. -/
theorem ofType_eq_seen_named_iff {w : Wrapper} :
    ofType t = w.seen (.named p) ↔ p.bare ∧ ∃ s : Spelling w, t.core = s.around (.path p) := by
  rw [ofType_eq_seen_iff]
  constructor
  · rintro ⟨s, argument, hcore, hargument⟩
    obtain ⟨hbare, hpath⟩ := ofType_eq_named_iff.mp hargument
    rw [Ty.core_of_core_eq_around hcore] at hpath
    exact ⟨hbare, s, hpath ▸ hcore⟩
  · rintro ⟨hbare, s, hcore⟩
    exact ⟨s, .path p, hcore, ofType_eq_named_iff.mpr ⟨hbare, Ty.core_of_plain (plain_of_bare hbare)⟩⟩

/-- Two types around a path without arguments. -/
theorem ofType_eq_seen_seen_iff {w v : Wrapper} :
    ofType t = w.seen (v.seen (.named p)) ↔
      p.bare ∧ ∃ (s : Spelling w) (s' : Spelling v), t.core = s.around (s'.around (.path p)) := by
  rw [ofType_eq_seen_iff]
  constructor
  · rintro ⟨s, argument, hcore, hargument⟩
    obtain ⟨hbare, s', hinner⟩ := ofType_eq_seen_named_iff.mp hargument
    rw [Ty.core_of_core_eq_around hcore] at hinner
    exact ⟨hbare, s, s', hinner ▸ hcore⟩
  · rintro ⟨hbare, s, s', hcore⟩
    refine ⟨s, s'.around (.path p), hcore, ofType_eq_seen_named_iff.mpr ⟨hbare, s', ?_⟩⟩
    rw [Ty.core_around, Ty.core_of_plain (plain_of_bare hbare)]

end TypeExpression

/-! ### The shape, and the type that is read -/

namespace DecodedType

/-- The type itself, a sequence through the module of the standard library. -/
def ty : DecodedType → Ty
  | plain p => .path p
  | sequence p => (Spelling.canonical .vec).around (.path p)

theorem tokens_ty (d : DecodedType) : d.ty.tokens = d.tokens := by
  cases d with
  | plain p => rw [ty, Ty.tokens, tokens]
  | sequence p =>
    simp [ty, tokens, Spelling.around, Spelling.canonical, Ty.tokens, Path.tokens, Segment.stepsTokens,
      Segment.tokens, Arguments.tokens, Argument.tokensOfList, Argument.tokens, angleTokens,
      angleTokens.spaced, Argument.isLifetime, Token.words, Token.ident, Ident.spelled, Ident.plain]

end DecodedType

/-- The type of a field that is read at a type: what may be missing is optional. -/
def DecodeRule.wrap : DecodeRule → Ty → Ty
  | required, t => t
  | ifPresent, t => (Spelling.canonical .option).around t

namespace FieldShape

section

variable {e : TypeExpression} {p : Path}

theorem of_eq_scalar_iff : of e = .scalar p ↔ e = .named p := by
  unfold of
  split <;> simp_all

theorem of_eq_optionalScalar_iff :
    of e = .optionalScalar p ↔ e = Wrapper.option.seen (.named p) := by
  unfold of
  split <;> simp_all [Wrapper.seen]

theorem of_eq_sequence_iff : of e = .sequence p ↔ e = Wrapper.vec.seen (.named p) := by
  unfold of
  split <;> simp_all [Wrapper.seen]

theorem of_eq_optionalSequence_iff :
    of e = .optionalSequence p ↔ e = Wrapper.option.seen (Wrapper.vec.seen (.named p)) := by
  unfold of
  split <;> simp_all [Wrapper.seen]

theorem eq_unrecognized_iff {shape : FieldShape} :
    shape = .unrecognized ↔ ∀ p, shape ≠ .scalar p ∧ shape ≠ .optionalScalar p ∧
      shape ≠ .sequence p ∧ shape ≠ .optionalSequence p := by
  cases shape <;> simp

end

open TypeExpression

variable (t : Ty) (p : Path)

theorem scalar_iff : of (.ofType t) = .scalar p ↔ p.bare ∧ t.core = .path p :=
  of_eq_scalar_iff.trans ofType_eq_named_iff

theorem optionalScalar_iff :
    of (.ofType t) = .optionalScalar p ↔
      p.bare ∧ ∃ o : Spelling .option, t.core = o.around (.path p) :=
  of_eq_optionalScalar_iff.trans ofType_eq_seen_named_iff

theorem sequence_iff :
    of (.ofType t) = .sequence p ↔
      p.bare ∧ ∃ v : Spelling .vec, t.core = v.around (.path p) :=
  of_eq_sequence_iff.trans ofType_eq_seen_named_iff

theorem optionalSequence_iff :
    of (.ofType t) = .optionalSequence p ↔
      p.bare ∧ ∃ (o : Spelling .option) (v : Spelling .vec),
        t.core = o.around (v.around (.path p)) :=
  of_eq_optionalSequence_iff.trans ofType_eq_seen_seen_iff

theorem unrecognized_iff :
    of (.ofType t) = .unrecognized ↔
      ∀ p, p.bare → t.core ≠ .path p ∧ (∀ o : Spelling .option, t.core ≠ o.around (.path p)) ∧
        (∀ v : Spelling .vec, t.core ≠ v.around (.path p)) ∧
        ∀ (o : Spelling .option) (v : Spelling .vec), t.core ≠ o.around (v.around (.path p)) := by
  rw [eq_unrecognized_iff]
  simp only [ne_eq, scalar_iff, optionalScalar_iff, sequence_iff, optionalSequence_iff, not_and,
    not_exists]
  exact forall_congr' fun p =>
    ⟨fun h hbare => ⟨h.1 hbare, h.2.1 hbare, h.2.2.1 hbare, h.2.2.2 hbare⟩,
      fun h => ⟨fun hbare => (h hbare).1, fun hbare => (h hbare).2.1,
        fun hbare => (h hbare).2.2.1, fun hbare => (h hbare).2.2.2⟩⟩

variable {t p}

/-- What is read for a type is the type again, respelled. -/
theorem wrap_eq_respelled {rule : DecodeRule} {d : DecodedType}
    (h : (of (.ofType t)).rule = some (rule, d)) : rule.wrap d.ty = t.core.respelled := by
  have hpath : ∀ q : Path, q.bare → (Ty.path q).respelled = .path q :=
    fun q hbare => Ty.respelled_of_plain (plain_of_bare hbare)
  rcases hshape : of (.ofType t) with q | q | q | q | _ <;> rw [hshape] at h <;> cases h
  case scalar =>
    obtain ⟨hbare, hcore⟩ := (scalar_iff t q).mp hshape
    rw [hcore, hpath q hbare]
    rfl
  case optionalScalar =>
    obtain ⟨hbare, o, hcore⟩ := (optionalScalar_iff t q).mp hshape
    rw [hcore, Ty.respelled_around, hpath q hbare]
    rfl
  case sequence =>
    obtain ⟨hbare, v, hcore⟩ := (sequence_iff t q).mp hshape
    rw [hcore, Ty.respelled_around, hpath q hbare]
    rfl
  case optionalSequence =>
    obtain ⟨hbare, o, v, hcore⟩ := (optionalSequence_iff t q).mp hshape
    rw [hcore, Ty.respelled_around, Ty.respelled_around, hpath q hbare]
    rfl

/-- **The shape of a type is exact, and what is read is of the declared type.**  A
path is without arguments if no step has an argument list, be it an empty one. -/
theorem shape_exact (t : Ty) :
    (∀ p, of (.ofType t) = .scalar p ↔ p.bare ∧ t.core = .path p) ∧
    (∀ p, of (.ofType t) = .optionalScalar p ↔
      p.bare ∧ ∃ o : Spelling .option, t.core = o.around (.path p)) ∧
    (∀ p, of (.ofType t) = .sequence p ↔
      p.bare ∧ ∃ v : Spelling .vec, t.core = v.around (.path p)) ∧
    (∀ p, of (.ofType t) = .optionalSequence p ↔
      p.bare ∧ ∃ (o : Spelling .option) (v : Spelling .vec),
        t.core = o.around (v.around (.path p))) ∧
    (of (.ofType t) = .unrecognized ↔
      ∀ p, p.bare → t.core ≠ .path p ∧ (∀ o : Spelling .option, t.core ≠ o.around (.path p)) ∧
        (∀ v : Spelling .vec, t.core ≠ v.around (.path p)) ∧
        ∀ (o : Spelling .option) (v : Spelling .vec), t.core ≠ o.around (v.around (.path p))) ∧
    (∀ rule d, (of (.ofType t)).rule = some (rule, d) →
      rule.wrap d.ty = t.core.respelled ∧ d.ty.tokens = d.tokens) ∧
    ∀ position name stored s,
      DecodeStatement.ofField position ⟨name, of (.ofType t), stored⟩ = some s →
        s.rule.wrap s.type.ty = t.core.respelled := by
  refine ⟨scalar_iff t, optionalScalar_iff t, sequence_iff t, optionalSequence_iff t,
    unrecognized_iff t, ?rule, ?statement⟩
  case rule =>
    intro rule d h
    exact ⟨wrap_eq_respelled h, d.tokens_ty⟩
  case statement =>
    intro position name stored s hs
    obtain ⟨-, -, -, hrule⟩ := DecodeStatement.ofField_eq_some_iff.mp hs
    exact wrap_eq_respelled hrule

end FieldShape

end RecordCoding
