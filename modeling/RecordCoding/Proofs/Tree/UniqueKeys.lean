/-
Trees without a repeated key.

`Subtree` says that a node stands somewhere in a tree, and a tree has unique keys
if every object in it has distinct ones.

* `uniqueKeys_array`, `uniqueKeys_object` — unique keys node by node;
* `repeatedKeys` — the keys that repeat an earlier one of their object, in the
  order in which a reader meets them;
* `repeatedKeys_eq_nil_iff` — there are none exactly if the keys are unique.
-/
import Mathlib.Data.List.Nodup
import RecordCoding.Tree.Basic

namespace RecordCoding

namespace Tree

/-! ### Nodes of a tree -/

/-- `Subtree n t`: the node `n` stands in `t` at some depth, or is `t` itself. -/
inductive Subtree : Tree → Tree → Prop
  | refl (t : Tree) : Subtree t t
  | item {n t : Tree} {items : List Tree} (hitem : t ∈ items) (h : Subtree n t) :
      Subtree n (.array items)
  | entry {n t : Tree} {key : String} {entries : List (String × Tree)}
      (hentry : (key, t) ∈ entries) (h : Subtree n t) : Subtree n (.object entries)

theorem subtree_array_iff {n : Tree} {items : List Tree} :
    Subtree n (.array items) ↔ n = .array items ∨ ∃ t ∈ items, Subtree n t := by
  constructor
  · intro h
    cases h with
    | refl => exact .inl rfl
    | item hitem h => exact .inr ⟨_, hitem, h⟩
  · rintro (rfl | ⟨t, hitem, h⟩)
    · exact .refl _
    · exact .item hitem h

theorem subtree_object_iff {n : Tree} {entries : List (String × Tree)} :
    Subtree n (.object entries) ↔ n = .object entries ∨ ∃ entry ∈ entries, Subtree n entry.2 := by
  constructor
  · intro h
    cases h with
    | refl => exact .inl rfl
    | entry hentry h => exact .inr ⟨_, hentry, h⟩
  · rintro (rfl | ⟨entry, hentry, h⟩)
    · exact .refl _
    · exact .entry hentry h

/-- Every object in the tree, at any depth, has distinct keys. -/
def UniqueKeys (t : Tree) : Prop :=
  ∀ entries, Subtree (.object entries) t → (entries.map (·.1)).Nodup

theorem uniqueKeys_array {items : List Tree} :
    (array items).UniqueKeys ↔ ∀ t ∈ items, t.UniqueKeys := by
  constructor
  · exact fun h t ht entries hsub => h entries (.item ht hsub)
  · intro h entries hsub
    rcases subtree_array_iff.mp hsub with heq | ⟨t, ht, hsub⟩
    · exact absurd heq (by simp)
    · exact h t ht entries hsub

theorem uniqueKeys_object {entries : List (String × Tree)} :
    (object entries).UniqueKeys
      ↔ (entries.map (·.1)).Nodup ∧ ∀ entry ∈ entries, entry.2.UniqueKeys := by
  constructor
  · exact fun h => ⟨h entries (.refl _), fun entry hentry es hsub => h es (.entry hentry hsub)⟩
  · rintro ⟨hnodup, h⟩ es hsub
    rcases subtree_object_iff.mp hsub with heq | ⟨entry, hentry, hsub⟩
    · rw [Tree.object.inj heq]
      exact hnodup
    · exact h entry hentry es hsub

/-- Whether a tree is neither an array nor an object. -/
def isLeaf : Tree → Bool
  | .array _ => false
  | .object _ => false
  | _ => true

theorem subtree_of_isLeaf {n t : Tree} (h : t.isLeaf) : Subtree n t ↔ n = t := by
  constructor
  · intro hsub
    cases hsub with
    | refl => rfl
    | item => exact absurd h (by simp [isLeaf])
    | entry => exact absurd h (by simp [isLeaf])
  · rintro rfl
    exact .refl n

theorem uniqueKeys_of_isLeaf {t : Tree} (h : t.isLeaf) : t.UniqueKeys := by
  intro entries hsub
  obtain rfl := (subtree_of_isLeaf h).mp hsub
  exact absurd h (by simp [isLeaf])

/-! ### Keys in the order of reading -/

mutual

/-- The keys that repeat an earlier key of the same object, each as often as it
does.  What is in an entry comes before its own key. -/
def repeatedKeys : Tree → List String
  | .array items => repeatedInItems items
  | .object entries => repeatedInEntries [] entries
  | _ => []

/-- The repeated keys in the elements of an array. -/
def repeatedInItems : List Tree → List String
  | [] => []
  | t :: rest => t.repeatedKeys ++ repeatedInItems rest

/-- The repeated keys in entries that stand behind others with the given keys. -/
def repeatedInEntries (earlier : List String) : List (String × Tree) → List String
  | [] => []
  | (key, t) :: rest =>
    t.repeatedKeys ++ (if key ∈ earlier then [key] else [])
      ++ repeatedInEntries (earlier ++ [key]) rest

end

mutual

theorem repeatedKeys_eq_nil_iff : ∀ t : Tree, t.repeatedKeys = [] ↔ t.UniqueKeys
  | .array items => by
    rw [repeatedKeys, uniqueKeys_array]
    exact repeatedInItems_eq_nil_iff items
  | .object entries => by
    rw [repeatedKeys, uniqueKeys_object, repeatedInEntries_eq_nil_iff [] entries]
    simp
  | .null | .bool _ | .integer _ | .double _ | .text _ => by
    rw [repeatedKeys]
    · exact iff_of_true rfl (uniqueKeys_of_isLeaf rfl)
    all_goals simp

theorem repeatedInItems_eq_nil_iff : ∀ items : List Tree,
    repeatedInItems items = [] ↔ ∀ t ∈ items, t.UniqueKeys
  | [] => by simp [repeatedInItems]
  | t :: rest => by
    rw [repeatedInItems, List.append_eq_nil_iff, repeatedKeys_eq_nil_iff t,
      repeatedInItems_eq_nil_iff rest, List.forall_mem_cons]

/-- Entries behind others repeat no key if their own keys are distinct and new. -/
theorem repeatedInEntries_eq_nil_iff (earlier : List String) : ∀ entries : List (String × Tree),
    repeatedInEntries earlier entries = [] ↔
      ((entries.map (·.1)).Nodup ∧ ∀ key ∈ entries.map (·.1), key ∉ earlier) ∧
        ∀ entry ∈ entries, entry.2.UniqueKeys
  | [] => by simp [repeatedInEntries]
  | (key, t) :: rest => by
    have hkey : (if key ∈ earlier then [key] else []) = [] ↔ key ∉ earlier := by
      by_cases h : key ∈ earlier <;> simp [h]
    rw [repeatedInEntries, List.append_eq_nil_iff, List.append_eq_nil_iff, hkey,
      repeatedKeys_eq_nil_iff t, repeatedInEntries_eq_nil_iff (earlier ++ [key]) rest,
      List.map_cons, List.nodup_cons, List.forall_mem_cons, List.forall_mem_cons]
    simp only [List.mem_append, List.mem_singleton, not_or]
    constructor
    · rintro ⟨⟨ht, hnew⟩, ⟨hnodup, hrest⟩, htrees⟩
      exact ⟨⟨⟨fun hmem => (hrest key hmem).2 rfl, hnodup⟩, hnew, fun k hk => (hrest k hk).1⟩,
        ht, htrees⟩
    · rintro ⟨⟨⟨hkey, hnodup⟩, hnew, hrest⟩, ht, htrees⟩
      refine ⟨⟨ht, hnew⟩, ⟨hnodup, fun k hk => ⟨hrest k hk, ?_⟩⟩, htrees⟩
      rintro rfl
      exact hkey hk

end

end Tree

end RecordCoding
