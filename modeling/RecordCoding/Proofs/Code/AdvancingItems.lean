/-
Patterns, expressions and items only take trees from the front.

The instances follow the modules of the parsers one by one.

* `advances_operators` — the parsers of operators, which call each other;
* `Inner.advance_ofDepth` — the parsers for any number of levels.
-/
import RecordCoding.Proofs.Code.Advancing

namespace RecordCoding

namespace Parser

variable {inner : Inner}

/-! ### Patterns -/

instance {r : Parser Code} [Advances r] (fuel : Nat) :
    Advances (furtherAlternatives r fuel) := by
  induction fuel with
  | zero => exact inferInstanceAs (Advances (pure _))
  | succ fuel ih =>
    rw [furtherAlternatives]
    infer_instance

instance [inner.Advance] : Advances (patterns inner) := by
  rw [patterns]
  infer_instance

instance (obsolete : Bool) : Advances (rangeDots obsolete) := by
  rw [rangeDots]
  infer_instance

instance [inner.Advance] : Advances (rangeBound? inner) := by
  rw [rangeBound?]
  infer_instance

instance [inner.Advance] (start : Code) :
    Advances (rangeBehind inner start) := by
  rw [rangeBehind]
  repeat' first
    | infer_instance
    | with_reducible refine .ite ?_ ?_
    | with_reducible refine .behind fun _ => ?_
    | split

instance [inner.Advance] : Advances (leadingDots inner) := by
  rw [leadingDots]
  repeat' first
    | infer_instance
    | with_reducible refine .ite ?_ ?_
    | with_reducible refine .behind fun _ => ?_
    | split

instance [inner.Advance] : Advances (literalOrRange inner) := by
  rw [literalOrRange]
  repeat' first
    | infer_instance
    | with_reducible refine .ite ?_ ?_
    | with_reducible refine .behind fun _ => ?_
    | split

instance (negative : Bool) (value : Nat) (suffix : String) :
    Advances (position negative value suffix) := by
  rw [position]
  infer_instance

instance : Advances member := by
  rw [member]
  repeat' first
    | infer_instance
    | with_reducible refine .ite ?_ ?_
    | with_reducible refine .behind fun _ => ?_
    | split

instance [inner.Advance] : Advances (namePattern inner) := by
  rw [namePattern]
  repeat' first
    | infer_instance
    | with_reducible refine .ite ?_ ?_
    | with_reducible refine .behind fun _ => ?_

instance [inner.Advance] : Advances (pathPattern inner) := by
  rw [pathPattern]
  infer_instance

instance : Advances (parenthesizedPattern inner) := by
  rw [parenthesizedPattern]
  repeat' first
    | infer_instance
    | with_reducible refine .ite ?_ ?_
    | with_reducible refine .behind fun _ => ?_
    | split

instance : Advances (slicePattern inner) := by
  rw [slicePattern]
  infer_instance

instance [inner.Advance] : Advances (pattern inner) := by
  rw [pattern]
  infer_instance

/-! ### Operators -/

instance [inner.Advance] (operand : Code) :
    Advances (castBehind inner operand) := by
  rw [castBehind]
  repeat' first
    | infer_instance
    | with_reducible refine .ite ?_ ?_
    | with_reducible refine .behind fun _ => ?_
    | split

instance {right : Parser Code} [Advances right] (record closed : Bool) :
    Advances (rangeEnd right record closed) := by
  rw [rangeEnd]
  infer_instance

/-- What operations are put together from only takes trees from the front. -/
class Operations.Advance (o : Operations) : Prop where
  inner : o.inner.Advance
  atom : Advances o.atom

attribute [instance] Operations.Advance.inner Operations.Advance.atom

/-- The three parsers of operators call each other with one round less. -/
theorem advances_operators (o : Operations) [o.Advance] (fuel : Nat) :
    (∀ left base, Advances (operations o fuel left base)) ∧
      (∀ p, Advances (rightOperand o fuel p)) ∧ ∀ right p, Advances (tighter o fuel right p) := by
  induction fuel with
  | zero =>
    refine ⟨fun left base => ?_, fun p => ?_, fun right p => ?_⟩
    · rw [operations]
      infer_instance
    · rw [rightOperand]
      infer_instance
    · rw [tighter]
      infer_instance
  | succ fuel ih =>
    obtain ⟨hoperations, hright, htighter⟩ := ih
    refine ⟨fun left base => ?_, fun p => ?_, fun right p => ?_⟩
    · rw [operations]
      repeat' first
        | infer_instance
        | with_reducible refine .ite ?_ ?_
        | with_reducible refine .behind fun _ => ?_
        | split
    · rw [rightOperand]
      infer_instance
    · rw [tighter]
      infer_instance

/-! ### Behind an operand -/

instance (l : Location) (base : Code) (parts : List String) :
    Advances (fieldsOfNumber l base parts) := by
  induction parts generalizing base with
  | nil => exact inferInstanceAs (Advances (pure _))
  | cons part rest ih =>
    rw [fieldsOfNumber]
    repeat' first
      | infer_instance
      | with_reducible refine .ite ?_ ?_
      | with_reducible refine .behind fun _ => ?_
      | split

instance (base : Code) : Advances (numberFields? base) := by
  rw [numberFields?]
  repeat' first
    | infer_instance
    | with_reducible refine .ite ?_ ?_
    | with_reducible refine .behind fun _ => ?_
    | split

instance [inner.Advance] (base : Code) : Advances (memberOf inner base) := by
  rw [memberOf]
  repeat' first
    | infer_instance
    | with_reducible refine .ite ?_ ?_
    | with_reducible refine .behind fun _ => ?_

instance [inner.Advance] (fuel : Nat) (c : Code) :
    Advances (trailing inner fuel c) := by
  induction fuel generalizing c with
  | zero => exact inferInstanceAs (Advances (pure _))
  | succ fuel ih =>
    rw [trailing]
    repeat' first
      | infer_instance
      | with_reducible refine .ite ?_ ?_
      | with_reducible refine .behind fun _ => ?_
      | split

/-! ### Atoms -/

instance [inner.Advance] (record : Bool) : Advances (pathAtom inner record) := by
  rw [pathAtom]
  infer_instance

instance : Advances (parenthesizedAtom inner) := by
  rw [parenthesizedAtom]
  repeat' first
    | infer_instance
    | with_reducible refine .ite ?_ ?_
    | with_reducible refine .behind fun _ => ?_
    | split

instance : Advances (arrayAtom inner) := by
  rw [arrayAtom]
  infer_instance

instance : Advances label? := by
  rw [label?]
  infer_instance

instance [inner.Advance] (fuel : Nat) :
    Advances (conditional inner fuel) := by
  induction fuel with
  | zero => exact inferInstanceAs (Advances (fail _))
  | succ fuel ih =>
    rw [conditional]
    infer_instance

instance [inner.Advance] (label : Code) : Advances (whileLoop inner label) := by
  rw [whileLoop]
  infer_instance

instance [inner.Advance] (label : Code) : Advances (forLoop inner label) := by
  rw [forLoop]
  infer_instance

instance (label : Code) : Advances (endlessLoop inner label) := by
  rw [endlessLoop]
  infer_instance

instance [inner.Advance] : Advances (labelled inner) := by
  rw [labelled]
  infer_instance

instance (construct : Construct) (mark : String) :
    Advances (markedBlock inner construct mark) := by
  rw [markedBlock]
  infer_instance

instance : Advances (tryBlock inner) := by
  rw [tryBlock]
  infer_instance

instance : Advances (asyncBlock inner) := by
  rw [asyncBlock]
  infer_instance

instance [inner.Advance] : Advances (closureParameter inner) := by
  rw [closureParameter]
  infer_instance

instance [inner.Advance] (record : Bool) : Advances (closure inner record) := by
  rw [closure]
  repeat' first
    | infer_instance
    | with_reducible refine .ite ?_ ?_
    | with_reducible refine .behind fun _ => ?_

instance [inner.Advance] (record : Bool) :
    Advances (breakAtom inner record) := by
  rw [breakAtom]
  repeat' first
    | infer_instance
    | with_reducible refine .ite ?_ ?_
    | with_reducible refine .behind fun _ => ?_

instance [inner.Advance] (construct : Construct) (mark : String) :
    Advances (valued inner construct mark) := by
  rw [valued]
  infer_instance

instance [inner.Advance] (record : Bool) :
    Advances (condition inner record) := by
  rw [condition]
  infer_instance

instance [inner.Advance] : Advances (choice inner) := by
  rw [choice]
  infer_instance

instance [inner.Advance] (record : Bool) : Advances (atom inner record) := by
  rw [atom]
  repeat' first
    | infer_instance
    | with_reducible refine .ite ?_ ?_
    | with_reducible refine .behind fun _ => ?_

/-! ### Operands and expressions -/

instance (before : List TokenTree) (attributes : List Code)
    {r : Parser Code} [Advances r] :
    Advances (attributedOperand before attributes r) := by
  rw [attributedOperand]
  infer_instance

instance [inner.Advance] (record : Bool) (fuel : Nat) :
    Advances (operandWith inner record fuel) := by
  induction fuel with
  | zero => exact inferInstanceAs (Advances (fail _))
  | succ fuel ih =>
    rw [operandWith]
    repeat' first
      | infer_instance
      | with_reducible refine .ite ?_ ?_
      | with_reducible refine .behind fun _ => ?_
      | split

instance [inner.Advance] (record : Bool) : (operationsOf inner record).Advance := by
  rw [operationsOf]
  exact ⟨inferInstance, inferInstance⟩

instance : Advances operatorRounds := by
  rw [operatorRounds]
  infer_instance

instance [inner.Advance] (record : Bool) : Advances (expression inner record) := by
  rw [expression]
  have hoperations := fun fuel => (advances_operators (operationsOf inner record) fuel).1
  infer_instance

instance [inner.Advance] (record : Bool) (p : Precedence) : Advances (operand inner record p) := by
  rw [operand]
  have hright := fun fuel => (advances_operators (operationsOf inner record) fuel).2.1
  infer_instance

/-! ### Items -/

instance {α : Type} (words : List String) (callable : Bool) :
    Advances (failItem words callable : Parser α) := by
  rw [failItem]
  infer_instance

instance : Advances abi? := by
  rw [abi?]
  repeat' first
    | infer_instance
    | with_reducible refine .ite ?_ ?_
    | with_reducible refine .behind fun _ => ?_
    | split

instance [inner.Advance] (foreignItem : Bool) :
    Advances (signature inner foreignItem) := by
  rw [signature]
  repeat' first
    | infer_instance
    | with_reducible refine .ite ?_ ?_
    | with_reducible refine .behind fun _ => ?_

instance [inner.Advance] (before : List TokenTree) (as : List Attribute) (v : Visibility) :
    Advances (functionItem inner before as v) := by
  rw [functionItem]
  infer_instance

instance (root : Bool) (fuel : Nat) : Advances (importTree root fuel) := by
  induction fuel generalizing root with
  | zero => exact inferInstanceAs (Advances (failExpected _))
  | succ fuel ih =>
    rw [importTree]
    repeat' first
      | infer_instance
      | with_reducible refine .ite ?_ ?_
      | with_reducible refine .behind fun _ => ?_

instance (before : List TokenTree) (as : List Attribute) (v : Visibility) :
    Advances (importItem before as v) := by
  rw [importItem]
  repeat' first
    | infer_instance
    | with_reducible refine .ite ?_ ?_
    | with_reducible refine .behind fun _ => ?_
    | split

instance (as : List Attribute) (v : Visibility) : Advances (crateItem as v) := by
  rw [crateItem]
  repeat' first
    | infer_instance
    | with_reducible refine .ite ?_ ?_
    | with_reducible refine .behind fun _ => ?_

instance [inner.Advance] : Advances (value? inner) := by
  rw [value?]
  infer_instance

instance [inner.Advance] (before : List TokenTree) (open' : Bool)
    (head : List Code) :
    Advances (constantBehind inner before open' head) := by
  rw [constantBehind]
  infer_instance

instance [inner.Advance] (before : List TokenTree) (head : List Code) :
    Advances (constantItem inner before head) := by
  rw [constantItem]
  infer_instance

instance [inner.Advance] (before : List TokenTree) (as : List Attribute) (v : Visibility) :
    Advances (staticItem inner before as v) := by
  rw [staticItem]
  repeat' first
    | infer_instance
    | with_reducible refine .ite ?_ ?_
    | with_reducible refine .behind fun _ => ?_

instance [inner.Advance] (place : ConditionPlace) (head : List Code) :
    Advances (aliasParts inner place head) := by
  rw [aliasParts]
  repeat' first
    | infer_instance
    | with_reducible refine .ite ?_ ?_
    | with_reducible refine .behind fun _ => ?_

instance [inner.Advance] (before : List TokenTree) (as : List Attribute) (v : Visibility) :
    Advances (aliasItem inner before as v) := by
  rw [aliasItem]
  infer_instance

instance (as : List Attribute) (named : Bool) : Advances (macroItem as named) := by
  rw [macroItem]
  repeat' first
    | infer_instance
    | with_reducible refine .ite ?_ ?_
    | with_reducible refine .behind fun _ => ?_

instance : Advances macroRest := by
  rw [macroRest]
  infer_instance

instance (r : Parser Code) : Advances (itemsInBraces inner r) := by
  rw [itemsInBraces]
  infer_instance

instance [inner.Advance] (as : List Attribute) (v : Visibility)
    (words : List String) :
    Advances (traitItem inner as v words) := by
  rw [traitItem]
  repeat' first
    | infer_instance
    | with_reducible refine .ite ?_ ?_
    | with_reducible refine .behind fun _ => ?_

instance [inner.Advance] (before : List TokenTree) (as : List Attribute) (v : Visibility) :
    Advances (implementation inner before as v) := by
  rw [implementation]
  repeat' first
    | infer_instance
    | with_reducible refine .ite ?_ ?_
    | with_reducible refine .behind fun _ => ?_

instance (as : List Attribute) : Advances (foreignBlock inner as) := by
  rw [foreignBlock]
  infer_instance

instance (as : List Attribute) (v : Visibility) :
    Advances (moduleItem inner as v) := by
  rw [moduleItem]
  repeat' first
    | infer_instance
    | with_reducible refine .ite ?_ ?_
    | with_reducible refine .behind fun _ => ?_

instance [inner.Advance] (before : List TokenTree) (as : List Attribute) :
    Advances (itemBehind inner before as) := by
  rw [itemBehind]
  repeat' first
    | infer_instance
    | with_reducible refine .ite ?_ ?_
    | with_reducible refine .behind fun _ => ?_

instance [inner.Advance] : Advances (item inner) := by
  rw [item]
  infer_instance

end Parser

/-- Parsers that know no level at all take nothing, and each level is built on the one
below. -/
instance Inner.advance_ofDepth (depth : Nat) : (Inner.ofDepth depth).Advance := by
  induction depth with
  | zero =>
    rw [Inner.ofDepth]
    constructor
    all_goals infer_instance
  | succ depth ih =>
    rw [Inner.ofDepth]
    constructor
    all_goals infer_instance

end RecordCoding
