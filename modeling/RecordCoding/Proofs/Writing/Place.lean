/-
The place of an encoder is pure context.

`run_under`: a writing that is carried out further down a tree does exactly what
it does at the root, only that the paths of its failures begin further down.
In particular the tree a value makes does not depend on where it is made
(`treeAt_eq_ok_iff`).
-/
import RecordCoding.Encoder

namespace RecordCoding

namespace CodingPath

theorem key_under (p outer : CodingPath) (name : String) :
    (p.under outer).key name = (p.key name).under outer := by
  simp [key, appending, under]

theorem index_under (p outer : CodingPath) (i : Nat) :
    (p.under outer).index i = (p.index i).under outer := by
  simp [index, appending, under]

theorem root_under (p : CodingPath) : root.under p = p := by
  simp [root, under]

end CodingPath

/-- The same failure, seen from another root. -/
def EncodeError.under (err : EncodeError) (outer : CodingPath) : EncodeError :=
  err.mapPath (·.under outer)

/-- The same encoder, seen from another root. -/
def Encoder.under (e : Encoder) (outer : CodingPath) : Encoder :=
  { e with path := e.path.under outer }

/-- What became of an operation, seen from another root. -/
def Written.under (w : Written) (outer : CodingPath) : Written :=
  (w.1.mapError (·.under outer), w.2.under outer)

namespace Encoder

variable (e : Encoder) (outer : CodingPath)

theorem fresh_under (p : CodingPath) : fresh (p.under outer) = (fresh p).under outer := rfl

theorem opened_under : (e.under outer).opened = e.opened.under outer := rfl

/-- What a result tells of the tree is the same from every root. -/
theorem writtenTree_under (w : Written) :
    writtenTree (w.under outer) = (writtenTree w).mapError (·.under outer) := by
  obtain ⟨_ | _, e⟩ := w <;> rfl

theorem putWith_under (key : String) {encode encode' : CodingPath → Except EncodeError Tree}
    (h : ∀ p : CodingPath, encode' (p.under outer) = (encode p).mapError (·.under outer)) :
    (e.under outer).putWith key encode' = Written.under (e.putWith key encode) outer := by
  rw [putWith, putWith]
  rw [show (e.under outer).holdsKey key = e.holdsKey key from rfl]
  by_cases hkey : e.holdsKey key
  · rw [if_pos hkey, if_pos hkey]
    rfl
  · rw [if_neg hkey, if_neg hkey]
    rw [show (e.under outer).path = e.path.under outer from rfl, CodingPath.key_under, h]
    rcases encode (e.path.key key) with _ | _ <;> rfl

end Encoder

namespace Writing

mutual

/-- A writing does the same under every root. -/
theorem run_under (outer : CodingPath) :
    ∀ (w : Writing) (e : Encoder), w.run (e.under outer) = Written.under (w.run e) outer
  | .tree t, e => rfl
  | .integer n, e => by
    rw [run, run]
    split <;> rfl
  | .elements items, e => by
    rw [run, run]
    rw [show (e.under outer).path = e.path.under outer from rfl, trees_under outer items e.path 0]
    rcases trees items e.path 0 with _ | _ <;> rfl
  | .keyed writes, e => by
    rw [run, run]
    rw [Encoder.opened_under]
    exact runKeyed_under outer writes e.opened
  | .failing message, e => rfl
  | .sequence steps, e => by
    rw [run, run]
    exact runSequence_under outer steps e
  -- The failure is dropped, so only the encoder has to agree.
  | .attempt w, e => by
    rw [run, run]
    rw [run_under outer w e]
    rfl

theorem trees_under (outer : CodingPath) :
    ∀ (items : List Writing) (p : CodingPath) (index : Nat),
      trees items (p.under outer) index = (trees items p index).mapError (·.under outer)
  | [], p, index => rfl
  | w :: rest, p, index => by
    rw [trees, trees]
    -- An element has an encoder of its own, one step further down from either root.
    rw [CodingPath.index_under, Encoder.fresh_under, run_under outer w, Encoder.writtenTree_under,
      trees_under outer rest p (index + 1)]
    rcases writtenTree (w.run (.fresh (p.index index))) with _ | _
    · rfl
    · rcases trees rest p (index + 1) with _ | _ <;> rfl

theorem runKeyed_under (outer : CodingPath) :
    ∀ (writes : List (KeyedWriting Writing)) (e : Encoder),
      runKeyed writes (e.under outer) = Written.under (runKeyed writes e) outer
  | [], e => rfl
  | ⟨key, tolerated, w⟩ :: rest, e => by
    rw [runKeyed, runKeyed]
    -- Whether a key is taken does not depend on the root, so both sides go the same way.
    have hput : (e.under outer).putWith key (fun path => writtenTree (w.run (.fresh path)))
        = Written.under (e.putWith key fun path => writtenTree (w.run (.fresh path))) outer := by
      refine Encoder.putWith_under e outer key fun p => ?_
      rw [Encoder.fresh_under, run_under outer w, Encoder.writtenTree_under]
    rw [hput]
    rcases e.putWith key (fun path => writtenTree (w.run (.fresh path))) with ⟨_ | _, e'⟩
    · cases tolerated with
      | false => rfl
      | true => exact runKeyed_under outer rest e'
    · exact runKeyed_under outer rest e'

theorem runSequence_under (outer : CodingPath) :
    ∀ (steps : List Writing) (e : Encoder),
      runSequence steps (e.under outer) = Written.under (runSequence steps e) outer
  | [], e => rfl
  | w :: rest, e => by
    rw [runSequence, runSequence]
    rw [run_under outer w e]
    rcases w.run e with ⟨_ | _, e'⟩
    · rfl
    · exact runSequence_under outer rest e'

end

/-- The tree that a writing makes, or its failure, seen from another root. -/
theorem treeAt_under (w : Writing) (p outer : CodingPath) :
    w.treeAt (p.under outer) = (w.treeAt p).mapError (·.under outer) := by
  rw [treeAt, treeAt, Encoder.fresh_under, run_under, Encoder.writtenTree_under]

/-- A writing makes the same tree everywhere. -/
theorem treeAt_eq_ok_iff (w : Writing) (p : CodingPath) (t : Tree) :
    w.treeAt p = .ok t ↔ w.toTree = .ok t := by
  rw [toTree, ← CodingPath.root_under p, treeAt_under]
  rcases w.treeAt .root with err | made
  · exact ⟨nofun, nofun⟩
  · exact Iff.rfl

/-! ### The trees of single values -/

theorem treeAt_tree (t : Tree) (p : CodingPath) : (Writing.tree t).treeAt p = .ok t := rfl

theorem treeAt_integer (n : Int) (p : CodingPath) :
    (Writing.integer n).treeAt p
      = if fitsInt64 n then .ok (.integer (Int64.ofInt n)) else .error (.outOfRange n p) := by
  rw [treeAt, run]
  split <;> rfl

theorem treeAt_elements (items : List Writing) (p : CodingPath) :
    (Writing.elements items).treeAt p = (trees items p 0).map .array := by
  rw [treeAt, run]
  rw [show (Encoder.fresh p).path = p from rfl]
  rcases trees items p 0 with _ | _ <;> rfl

end Writing

end RecordCoding
