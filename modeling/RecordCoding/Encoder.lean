/-
Encoders: what a value writes itself into.

An encoder holds a single value, or the entries of a keyed container, or
nothing yet. Opening a container drops a single value and keeps entries written
before; writing a single value drops the entries.

A value is described by what it asks of its encoder, a `Writing`; `Writing.run`
carries it out. A writing may fail half way, and what it had written into its
own encoder by then stays; entries and elements are written by encoders of
their own, so a failure inside one leaves nothing behind.

Design notes:

* The single value and the entries are two fields, and `tree` lets the entries
  win; that they are never both present is a property of the operations.
* `attempt` runs a writing and goes on after its failure, so a `Writing` can
  express every sequence of operations with failures ignored or not.
-/
import RecordCoding.Failure
import RecordCoding.Key

namespace RecordCoding

/-- The state of an encoder. -/
structure Encoder where
  path : CodingPath
  single : Option Tree
  entries : Option (List (String × Tree))
  deriving Repr, Inhabited

namespace Encoder

/-- An encoder at a path, with nothing written. -/
def fresh (path : CodingPath) : Encoder := ⟨path, none, none⟩

/-- The encoded tree; `null` if nothing was written. -/
def tree (e : Encoder) : Tree :=
  match e.entries, e.single with
  | some entries, _ => .object entries
  | none, some t => t
  | none, none => .null

/-- Open a keyed container, or open it again with its entries. -/
def opened (e : Encoder) : Encoder :=
  { e with single := none, entries := some (e.entries.getD []) }

/-- Write a single value. -/
def write (e : Encoder) (t : Tree) : Encoder := { e with single := some t, entries := none }

/-- The entries written so far. -/
def written (e : Encoder) : List (String × Tree) := e.entries.getD []

/-- Whether an entry under this key was written. -/
def holdsKey (e : Encoder) (key : String) : Bool := e.written.any (·.1 == key)

/-- Add an entry at the end. -/
def push (e : Encoder) (key : String) (t : Tree) : Encoder :=
  { e with entries := some (e.written ++ [(key, t)]) }

/-- A failure raised by the value that is being encoded. -/
def failure (e : Encoder) (message : String) : EncodeError := .custom message e.path

end Encoder

/-- One write under a key. A failure of a tolerated one does not end the
container's writes. -/
structure KeyedWriting (α : Type) where
  key : String
  tolerated : Bool
  content : α

/-- What a value asks of the encoder it is given. -/
inductive Writing
  /-- Write a tree as the single value. -/
  | tree (t : Tree)
  /-- Write an integer, which has to fit in 64 bits with a sign. -/
  | integer (n : Int)
  /-- Write an array, each element by an encoder of its own. -/
  | elements (items : List Writing)
  /-- Open the keyed container and write under keys, in order. -/
  | keyed (writes : List (KeyedWriting Writing))
  /-- Raise a failure. -/
  | failing (message : String)
  /-- One after the other, up to the first failure. -/
  | sequence (steps : List Writing)
  /-- Go on after a failure. -/
  | attempt (w : Writing)
  deriving Inhabited

/-- What became of an operation: a failure or none, and the encoder after it. -/
abbrev Written := Except EncodeError Unit × Encoder

/-- The tree that a finished operation leaves behind. -/
def writtenTree : Written → Except EncodeError Tree
  | (.error err, _) => .error err
  | (.ok (), e) => .ok e.tree

/-- Write under a key what `encode` makes of the key's path. A key that was
written is refused before its value is looked at; a failure leaves the entries
as they were. -/
def Encoder.putWith (e : Encoder) (key : String)
    (encode : CodingPath → Except EncodeError Tree) : Written :=
  if e.holdsKey key then (.error (.duplicateKey key e.path), e)
  else
    match encode (e.path.key key) with
    | .error err => (.error err, e)
    | .ok t => (.ok (), e.push key t)

/-- Whether an integer fits in 64 bits with a sign. -/
def fitsInt64 (n : Int) : Bool :=
  Int64.minValue.toInt ≤ n && n ≤ Int64.maxValue.toInt

namespace Writing

mutual

/-- Carry out a writing on an encoder. -/
def run : Writing → Encoder → Written
  | .tree t, e => (.ok (), e.write t)
  | .integer n, e =>
    if fitsInt64 n then (.ok (), e.write (.integer (Int64.ofInt n)))
    else (.error (.outOfRange n e.path), e)
  | .elements items, e =>
    match trees items e.path 0 with
    | .ok ts => (.ok (), e.write (.array ts))
    | .error err => (.error err, e)
  | .keyed writes, e => runKeyed writes e.opened
  | .failing message, e => (.error (e.failure message), e)
  | .sequence steps, e => runSequence steps e
  | .attempt w, e => (.ok (), (w.run e).2)

/-- The trees of the elements of an array at `path`, from `index` on, up to the
first failure. -/
def trees : List Writing → CodingPath → Nat → Except EncodeError (List Tree)
  | [], _, _ => .ok []
  | w :: rest, path, index =>
    match writtenTree (w.run (.fresh (path.index index))) with
    | .error err => .error err
    | .ok t =>
      match trees rest path (index + 1) with
      | .error err => .error err
      | .ok ts => .ok (t :: ts)

/-- Write entries into an open container, in order, up to the first failure
that is not tolerated. -/
def runKeyed : List (KeyedWriting Writing) → Encoder → Written
  | [], e => (.ok (), e)
  | ⟨key, tolerated, w⟩ :: rest, e =>
    match e.putWith key fun path => writtenTree (w.run (.fresh path)) with
    | (.ok (), e') => runKeyed rest e'
    | (.error err, e') => if tolerated then runKeyed rest e' else (.error err, e')

/-- Carry out writings one after the other, up to the first failure. -/
def runSequence : List Writing → Encoder → Written
  | [], e => (.ok (), e)
  | w :: rest, e =>
    match w.run e with
    | (.error err, e') => (.error err, e')
    | (.ok (), e') => runSequence rest e'

end

/-- The tree of a writing on a fresh encoder at a path. -/
def treeAt (w : Writing) (path : CodingPath) : Except EncodeError Tree :=
  writtenTree (w.run (.fresh path))

theorem trees_cons (w : Writing) (rest : List Writing) (path : CodingPath) (index : Nat) :
    trees (w :: rest) path index
      = (w.treeAt (path.index index)).bind fun t => (trees rest path (index + 1)).map (t :: ·) := by
  rw [trees, show writtenTree (w.run (.fresh (path.index index))) = w.treeAt (path.index index)
    from rfl]
  rcases w.treeAt (path.index index) with _ | t
  · rfl
  · rcases trees rest path (index + 1) with _ | _ <;> rfl

theorem runKeyed_cons (w : KeyedWriting Writing) (rest : List (KeyedWriting Writing))
    (e : Encoder) :
    runKeyed (w :: rest) e
      = match e.putWith w.key w.content.treeAt with
        | (.ok (), e') => runKeyed rest e'
        | (.error err, e') => if w.tolerated then runKeyed rest e' else (.error err, e') := by
  rw [runKeyed]
  rfl

/-- The tree of a writing on a fresh encoder at the root. -/
def toTree (w : Writing) : Except EncodeError Tree := w.treeAt .root

end Writing

namespace Encoder

/-! ### Operations of an open container -/

/-- Write a value under a key. -/
def put (e : Encoder) (key : String) (w : Writing) : Written := e.putWith key w.treeAt

/-- Write a value under a key, or leave the key out if there is no value. -/
def putIfPresent (e : Encoder) (key : String) : Option Writing → Written
  | none => (.ok (), e)
  | some w => e.put key w

end Encoder

end RecordCoding
