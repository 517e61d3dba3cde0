/-
Runs that stop at the first fault.

`unlessFaults` tells such a run by two things that do not depend on each other: all
that is wrong, in the order in which it is met, and what comes out if nothing is.
-/
import Mathlib.Data.List.Basic

namespace RecordCoding

/-- A result, unless there are faults: then the first of them. -/
def unlessFaults {ε α : Type} (faults : List ε) (a : α) : Except ε α :=
  match faults with
  | [] => .ok a
  | e :: _ => .error e

section

variable {ε α β : Type} {faults more : List ε}

theorem unlessFaults_map {a : α} (g : α → β) :
    (unlessFaults faults a).map g = unlessFaults faults (g a) := by
  cases faults <;> rfl

/-- The faults of a second step count only if the first one has none. -/
theorem unlessFaults_bind {a : α} (g : α → β) :
    (unlessFaults faults a).bind (fun a => unlessFaults more (g a))
      = unlessFaults (faults ++ more) (g a) := by
  cases faults <;> rfl

theorem unlessFaults_eq_ok_iff {a b : α} : unlessFaults faults a = .ok b ↔ faults = [] ∧ a = b := by
  cases faults <;> simp [unlessFaults]

theorem unlessFaults_eq_error_iff {a : α} {e : ε} :
    unlessFaults faults a = .error e ↔ faults.head? = some e := by
  cases faults <;> simp [unlessFaults]

/-- A run that stops at the first fault, if a step can fail in one way at most. -/
theorem foldlM_eq_unlessFaults {add : α → β → Except ε α} {fault? : β → Option ε}
    {asked : α → List β → α} (hnil : ∀ a, asked a [] = a)
    (hcons : ∀ a b rest, asked a (b :: rest) = asked (asked a [b]) rest)
    (hadd : ∀ a b, add a b = unlessFaults (fault? b).toList (asked a [b])) (l : List β) (a : α) :
    l.foldlM add a = unlessFaults (l.filterMap fault?) (asked a l) := by
  induction l generalizing a with
  | nil => exact congrArg Except.ok (hnil a).symm
  | cons b rest ih =>
    have hfaults : (b :: rest).filterMap fault? = (fault? b).toList ++ rest.filterMap fault? := by
      rw [List.filterMap_eq_flatMap_toList, List.flatMap_cons, ← List.filterMap_eq_flatMap_toList]
    rw [List.foldlM_cons, hadd, funext ih, hfaults, hcons a b rest]
    exact unlessFaults_bind (asked · rest)

end

end RecordCoding
