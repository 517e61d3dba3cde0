/-
Parsers only take trees from the front.

Whatever a parser comes to, what it leaves is the end of what it was given.
`Advances` says so of one parser.  There is an instance for each way in which parsers
are put together, and one for each parser.

* `Advances.behind`, `Advances.ite` — one parser behind another one, and a choice;
* `Inner.Advance` — the parsers for what lies one level further in.

Design notes: which branch a parser takes plays no part here, so an instance is found by
the form of a definition.  A parser that looks at its state itself is proved by hand, one
that recurses by induction, and one that is too long for the search, or goes by cases on
what it was given, is taken apart first.
-/
import RecordCoding.Proofs.Code.Running

namespace RecordCoding

namespace Parser

variable {α β : Type} {r : Parser α} {f : α → Parser β}

/-- What a parser leaves is the end of what it was given. -/
class Advances (r : Parser α) : Prop where
  suffix : ∀ s a s', r s = .ok (a, s') → s'.rest <:+ s.rest

/-! ### Steps -/

/-- A run of two steps comes to something if both do. -/
theorem exists_of_bind_run {s s' : ParseState} {b : β} (h : (r >>= f) s = .ok (b, s')) :
    ∃ a t, r s = .ok (a, t) ∧ f a t = .ok (b, s') := by
  change Except.bind (r s) _ = _ at h
  rcases hr : r s with e | ⟨a, t⟩
  · rw [hr] at h
    exact absurd h (by simp [Except.bind])
  · rw [hr] at h
    exact ⟨a, t, rfl, h⟩

theorem Advances.behind [Advances r] (hf : ∀ a, Advances (f a)) : Advances (r >>= f) := by
  refine ⟨fun s b s' h => ?_⟩
  obtain ⟨a, t, ha, hb⟩ := exists_of_bind_run h
  exact ((hf a).suffix t b s' hb).trans (suffix s a t ha)

instance [Advances r] [hf : ∀ a, Advances (f a)] : Advances (r >>= f) := .behind hf

instance (a : α) : Advances (pure a : Parser α) := by
  refine ⟨fun s b s' h => ?_⟩
  obtain ⟨rfl, rfl⟩ := Prod.mk.inj (Except.ok.inj h)
  exact List.suffix_rfl

instance {g : α → β} [Advances r] : Advances (g <$> r) := by
  rw [map_eq_pure_bind]
  infer_instance

theorem Advances.ite {c : Prop} [Decidable c] {r' : Parser α} (h : Advances r) (h' : Advances r') :
    Advances (if c then r else r') := by
  split
  · exact h
  · exact h'

instance {c : Prop} [Decidable c] {r' : Parser α} [h : Advances r] [h' : Advances r'] :
    Advances (if c then r else r') :=
  .ite h h'

instance : Advances (get : Parser ParseState) := by
  refine ⟨fun s a s' h => ?_⟩
  obtain ⟨rfl, rfl⟩ := Prod.mk.inj (Except.ok.inj h)
  exact List.suffix_rfl

instance (e : SyntaxError) : Advances (throw e : Parser α) :=
  ⟨fun s a s' h => by cases h⟩

instance (n : Nat) : Advances (skip n) := by
  refine ⟨fun s a s' h => ?_⟩
  obtain ⟨-, rfl⟩ := Prod.mk.inj (Except.ok.inj h)
  exact List.drop_suffix n s.rest

instance : Advances here := by
  rw [here]
  refine .behind fun s => ?_
  split <;> infer_instance

instance : Advances ahead := by
  rw [ahead]
  infer_instance

instance : Advances finished := by
  rw [finished]
  infer_instance

instance : Advances rounds := by
  rw [rounds]
  infer_instance

instance (c : SyntaxCause) : Advances (fail c : Parser α) := by
  rw [fail]
  refine .behind fun s => ?_
  split <;> infer_instance

instance (c : SyntaxCause) (l : Location) : Advances (failAt c l : Parser α) := by
  rw [failAt]
  infer_instance

instance (options : List String) : Advances (failExpected options : Parser α) := by
  rw [failExpected]
  infer_instance

/-! ### Single tokens -/

instance (p : String) : Advances (punct p) := by
  rw [punct]
  infer_instance

instance (p : String) : Advances (punct? p) := by
  rw [punct?]
  infer_instance

instance (w : String) : Advances (keyword w) := by
  rw [keyword]
  infer_instance

instance (w : String) : Advances (keyword? w) := by
  rw [keyword?]
  infer_instance

instance : Advances identifier := by
  rw [identifier]
  refine .behind fun s => ?_
  split <;> infer_instance

instance : Advances word := by
  rw [word]
  refine .behind fun s => ?_
  split <;> infer_instance

instance : Advances lifetime := by
  rw [lifetime]
  refine .behind fun s => ?_
  split <;> infer_instance

instance : Advances literal := by
  rw [literal]
  refine .behind fun s => ?_
  split <;> infer_instance

instance (before : List TokenTree) : Advances (takenSince before) := by
  rw [takenSince]
  infer_instance

instance (before : List TokenTree) : Advances (verbatimSince before) := by
  rw [verbatimSince]
  infer_instance

/-! ### Groups and trials -/

instance (d : Delimiter) : Advances (body d) := by
  refine ⟨?_⟩
  rintro ⟨_ | ⟨t, rest⟩, scope, stray⟩ a s' h
  · cases h
  · cases t with
    | group e inner opening closing =>
      change (if d = e then _ else _ : Parser (List TokenTree)) _ = _ at h
      split at h
      · cases h
        exact List.suffix_cons _ _
      · cases h
    | _ => cases h

instance : Advances anyBody := by
  refine ⟨?_⟩
  rintro ⟨_ | ⟨t, rest⟩, scope, stray⟩ a s' h
  · cases h
  · cases t with
    | group e inner opening closing =>
      cases h
      exact List.suffix_cons _ _
    | _ => cases h

instance (d : Delimiter) (r : Parser α) : Advances (inside d r) := by
  refine ⟨?_⟩
  rintro ⟨_ | ⟨t, rest⟩, scope, stray⟩ a s' h
  · cases h
  · cases t with
    | group e inner opening closing =>
      change (if d = e then _ else _ : Parser α) _ = _ at h
      split at h
      · obtain ⟨⟨a, t⟩, u, hu, h⟩ := exists_of_bind_run h
        cases h
        exact List.suffix_cons _ _
      · cases h
    | _ => cases h

/-! ### Lists -/

instance (stop : List TokenTree → Bool) (separator : String) [Advances r]
    (fuel : Nat) : Advances (separatedUntil stop separator r fuel) := by
  induction fuel with
  | zero => exact inferInstanceAs (Advances (pure _))
  | succ fuel ih =>
    rw [separatedUntil]
    infer_instance

instance (stop : List TokenTree → Bool) (separator : String) [Advances r]
    (fuel : Nat) : Advances (chained stop separator r fuel) := by
  induction fuel with
  | zero => exact inferInstanceAs (Advances (pure _))
  | succ fuel ih =>
    rw [chained]
    infer_instance

instance [Advances r] (fuel : Nat) : Advances (toEnd r fuel) := by
  induction fuel with
  | zero => exact inferInstanceAs (Advances (pure _))
  | succ fuel ih =>
    rw [toEnd]
    infer_instance

instance [Advances r] : Advances (terminated r) := by
  rw [terminated]
  infer_instance

/-! ### Paths, attributes and blocks -/

instance (fuel : Nat) : Advances (plainPath.steps fuel) := by
  induction fuel with
  | zero => exact inferInstanceAs (Advances (pure _))
  | succ fuel ih =>
    rw [plainPath.steps]
    infer_instance

instance : Advances plainPath := by
  rw [plainPath]
  infer_instance

end Parser

/-- The parsers for what lies one level further in only take trees from the front.  Of
what stands in brackets nothing is needed, so that statements are left out. -/
class Inner.Advance (inner : Inner) : Prop where
  ty : ∀ plus, Parser.Advances (inner.ty plus)
  bound : ∀ hidden const, Parser.Advances (inner.bound hidden const)
  expression : ∀ record, Parser.Advances (inner.expression record)
  operand : ∀ record p, Parser.Advances (inner.operand record p)
  pattern : Parser.Advances inner.pattern
  item : Parser.Advances inner.item

attribute [instance] Inner.Advance.ty Inner.Advance.bound Inner.Advance.expression
  Inner.Advance.operand Inner.Advance.pattern Inner.Advance.item

namespace Parser

variable {inner : Inner}

instance (enclosing : Bool) : Advances (oneAttribute inner enclosing) := by
  rw [oneAttribute]
  infer_instance

instance (fuel : Nat) : Advances (attributes.loop inner fuel) := by
  induction fuel with
  | zero => exact inferInstanceAs (Advances (pure _))
  | succ fuel ih =>
    rw [attributes.loop]
    infer_instance

instance : Advances (attributes inner) := by
  rw [attributes]
  infer_instance

instance : Advances (attributesCode inner) := by
  rw [attributesCode]
  infer_instance

instance (fuel : Nat) : Advances (innerAttributes.loop inner fuel) := by
  induction fuel with
  | zero => exact inferInstanceAs (Advances (pure _))
  | succ fuel ih =>
    rw [innerAttributes.loop]
    infer_instance

instance : Advances (innerAttributes inner) := by
  rw [innerAttributes]
  infer_instance

instance : Advances (braces inner) := by
  rw [braces]
  infer_instance

instance : Advances (attributedBraces inner) := by
  rw [attributedBraces]
  infer_instance

/-! ### Paths -/

instance : Advances (constantArgument inner) := by
  rw [constantArgument]
  infer_instance

instance [inner.Advance] (stop : List TokenTree → Bool) :
    Advances (boundList inner stop) := by
  rw [boundList]
  infer_instance

instance [inner.Advance] (const : Bool) (stop : List TokenTree → Bool) :
    Advances (boundsUntil inner const stop) := by
  rw [boundsUntil]
  infer_instance

instance [inner.Advance] : Advances (argument inner) := by
  rw [argument]
  repeat' first
    | infer_instance
    | with_reducible refine .ite ?_ ?_
    | with_reducible refine .behind fun _ => ?_
    | split

instance [inner.Advance] : Advances (angleArguments inner) := by
  rw [angleArguments]
  infer_instance

instance [inner.Advance] (marked : Bool) : Advances (segment inner marked) := by
  rw [segment]
  infer_instance

instance [inner.Advance] (marked : Bool) (fuel : Nat) :
    Advances (furtherSteps inner marked fuel) := by
  induction fuel with
  | zero => exact inferInstanceAs (Advances (pure _))
  | succ fuel ih =>
    rw [furtherSteps]
    infer_instance

instance [inner.Advance] (marked : Bool) : Advances (path inner marked) := by
  rw [path]
  infer_instance

instance [inner.Advance] (marked : Bool) (fuel : Nat) :
    Advances (stepsBehind inner marked fuel) := by
  induction fuel with
  | zero => exact inferInstanceAs (Advances (pure _))
  | succ fuel ih =>
    rw [stepsBehind]
    infer_instance

instance [inner.Advance] (marked : Bool) :
    Advances (qualifiedPath inner marked) := by
  rw [qualifiedPath]
  repeat' first
    | infer_instance
    | with_reducible refine .ite ?_ ?_
    | with_reducible refine .behind fun _ => ?_

/-! ### Generic parameters -/

instance (attributes : List Code) : Advances (lifetimeParam attributes) := by
  rw [lifetimeParam]
  infer_instance

instance [inner.Advance] (attributes : List Code) :
    Advances (typeParam inner attributes) := by
  rw [typeParam]
  repeat' first
    | infer_instance
    | with_reducible refine .ite ?_ ?_
    | with_reducible refine .behind fun _ => ?_

instance [inner.Advance] (attributes : List Code) :
    Advances (constantParam inner attributes) := by
  rw [constantParam]
  infer_instance

instance [inner.Advance] : Advances (binderParam inner) := by
  rw [binderParam]
  infer_instance

instance [inner.Advance] : Advances (binder? inner) := by
  rw [binder?]
  infer_instance

instance [inner.Advance] : Advances (genericParam inner) := by
  rw [genericParam]
  infer_instance

instance [inner.Advance] : Advances (genericParams inner) := by
  rw [genericParams]
  infer_instance

/-! ### Bounds -/

instance [inner.Advance] (plus : Bool) : Advances (result? inner plus) := by
  rw [result?]
  infer_instance

instance [inner.Advance] : Advances (functionArguments inner) := by
  rw [functionArguments]
  infer_instance

instance [inner.Advance] : Advances (traitPath inner) := by
  rw [traitPath]
  repeat' first
    | infer_instance
    | with_reducible refine .ite ?_ ?_
    | with_reducible refine .behind fun _ => ?_
    | split

instance (allowed : Bool) : Advances (constMark allowed) := by
  rw [constMark]
  infer_instance

instance [inner.Advance] (parenthesized const : Bool) :
    Advances (traitBound? inner parenthesized const) := by
  rw [traitBound?]
  infer_instance

instance (fuel : Nat) : Advances (captures.names fuel) := by
  induction fuel with
  | zero => exact inferInstanceAs (Advances (pure _))
  | succ fuel ih =>
    rw [captures.names]
    infer_instance

instance : Advances captures := by
  rw [captures]
  infer_instance

instance [inner.Advance] (hidden const : Bool) :
    Advances (bound inner hidden const) := by
  rw [bound]
  repeat' first
    | infer_instance
    | with_reducible refine .ite ?_ ?_
    | with_reducible refine .behind fun _ => ?_
    | split
  all_goals
    rename_i b
    cases b <;> infer_instance

instance [inner.Advance] (hidden const : Bool) (fuel : Nat) :
    Advances (furtherBounds inner hidden const fuel) := by
  induction fuel with
  | zero => exact inferInstanceAs (Advances (pure _))
  | succ fuel ih =>
    rw [furtherBounds]
    infer_instance

instance [inner.Advance] (plus hidden : Bool) (start : Location)
    (failure : String) :
    Advances (traitBounds inner plus hidden start failure) := by
  rw [traitBounds]
  infer_instance

instance [inner.Advance] (plus : Bool) (start : Location) :
    Advances (objectBounds inner plus start) := by
  rw [objectBounds]
  infer_instance

/-! ### Types -/

instance : Advances functionQualifiers := by
  rw [functionQualifiers]
  repeat' first
    | infer_instance
    | with_reducible refine .ite ?_ ?_
    | with_reducible refine .behind fun _ => ?_
    | split

instance [inner.Advance] (binder : Option Binder) :
    Advances (functionPointer inner binder) := by
  rw [functionPointer]
  infer_instance

instance [inner.Advance] (fuel : Nat) :
    Advances (addedBounds inner fuel) := by
  induction fuel with
  | zero => exact inferInstanceAs (Advances (pure _))
  | succ fuel ih =>
    rw [addedBounds]
    infer_instance

instance [inner.Advance] (plus : Bool) :
    Advances (parenthesizedType inner plus) := by
  rw [parenthesizedType]
  repeat' first
    | infer_instance
    | with_reducible refine .ite ?_ ?_
    | with_reducible refine .behind fun _ => ?_
    | split

instance [inner.Advance] (plus : Bool) (binder : Option Binder) :
    Advances (pathType inner plus binder) := by
  rw [pathType]
  repeat' first
    | infer_instance
    | with_reducible refine .ite ?_ ?_
    | with_reducible refine .behind fun _ => ?_
    | split

instance : Advances builtin := by
  rw [builtin]
  infer_instance

instance [inner.Advance] (plus : Bool) : Advances (objectType inner plus) := by
  rw [objectType]
  infer_instance

instance [inner.Advance] : Advances (pointerType inner) := by
  rw [pointerType]
  infer_instance

instance [inner.Advance] : Advances (referenceType inner) := by
  rw [referenceType]
  infer_instance

instance [inner.Advance] (plus : Bool) : Advances (ty inner plus) := by
  rw [ty]
  repeat' first
    | infer_instance
    | with_reducible refine .ite ?_ ?_
    | with_reducible refine .behind fun _ => ?_

/-! ### Declarations -/

instance : Advances visibility := by
  rw [visibility]
  repeat' first
    | infer_instance
    | with_reducible refine .ite ?_ ?_
    | with_reducible refine .behind fun _ => ?_
    | split

instance [inner.Advance] : Advances (predicate inner) := by
  rw [predicate]
  infer_instance

instance [inner.Advance] : Advances (whereClause? inner) := by
  rw [whereClause?]
  infer_instance

instance (fuel : Nat) : Advances (namedFields inner fuel) := by
  cases fuel with
  | zero => exact inferInstanceAs (Advances (failExpected _))
  | succ fuel =>
    rw [namedFields]
    infer_instance

instance : Advances (fieldsInBraces inner) := by
  rw [fieldsInBraces]
  infer_instance

instance : Advances (unnamedFields inner) := by
  rw [unnamedFields]
  infer_instance

instance [inner.Advance] : Advances (structBody inner) := by
  rw [structBody]
  infer_instance

instance [inner.Advance] (as : List Attribute) (v : Visibility) :
    Advances (typeItem inner as v) := by
  rw [typeItem]
  repeat' first
    | infer_instance
    | with_reducible refine .ite ?_ ?_
    | with_reducible refine .behind fun _ => ?_
    | split

end Parser

end RecordCoding
