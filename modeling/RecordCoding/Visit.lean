/-
Building a value tree from a self-describing source.

A source names what it holds, one value after the other; `Source` is the tree
of those calls. Reading mirrors it one to one, and refuses an unsigned integer
beyond 64 bits with a sign, an object that repeats a key, and what a value tree
cannot hold.

Design notes:

* An entry's value is read, with everything inside it, before its key is
  compared with the earlier ones.
-/
import RecordCoding.Tree.Basic

namespace RecordCoding

/-- What a self-describing source holds. -/
inductive Source
  | bool (b : Bool)
  | signed (n : Int64)
  | unsigned (n : UInt64)
  | double (x : Double)
  | single (x : Single)
  | char (c : Char)
  | text (s : String)
  | unit
  | absent
  | present (content : Source)
  | sequence (items : List Source)
  | map (entries : List (String × Source))
  /-- Raw bytes. -/
  | bytes
  /-- A signed integer of 128 bits. -/
  | wideSigned (n : Int)
  /-- An unsigned integer of 128 bits. -/
  | wideUnsigned (n : Nat)
  /-- A value with a type of its own around it. -/
  | newtype
  /-- One of several variants. -/
  | enumeration
  deriving Inhabited

/-- Why a source could not be read. -/
inductive SourceError
  | integerTooLarge (n : Nat)
  | duplicateKey (key : String)
  | unsupported (description : String)
  deriving DecidableEq, Repr, Inhabited

def SourceError.message : SourceError → String
  | .integerTooLarge n => s!"integer {n} does not fit in i64"
  | .duplicateKey key => s!"duplicate key '{key}'"
  | .unsupported description => s!"invalid type: {description}, expected any value"

namespace Source

mutual

/-- Read a source into a tree. -/
def toTree : Source → Except SourceError Tree
  | .bool b => .ok (.bool b)
  | .signed n => .ok (.integer n)
  | .unsigned n =>
    if n.toNat < Nat.pow 2 63 then .ok (.integer (Int64.ofNat n.toNat))
    else .error (.integerTooLarge n.toNat)
  | .double x => .ok (.double x)
  | .single x => .ok (.double x.toDouble)
  | .char c => .ok (.text (String.singleton c))
  | .text s => .ok (.text s)
  | .unit => .ok .null
  | .absent => .ok .null
  | .present content => content.toTree
  | .sequence items => (treesOfItems items).map .array
  | .map entries => (treesOfEntries [] entries).map .object
  | .bytes => .error (.unsupported "byte array")
  | .wideSigned n => .error (.unsupported s!"integer `{n}` as i128")
  | .wideUnsigned n => .error (.unsupported s!"integer `{n}` as u128")
  | .newtype => .error (.unsupported "newtype struct")
  | .enumeration => .error (.unsupported "enum")

/-- Read the elements of a sequence. -/
def treesOfItems : List Source → Except SourceError (List Tree)
  | [] => .ok []
  | s :: rest =>
    match s.toTree with
    | .error err => .error err
    | .ok t =>
      match treesOfItems rest with
      | .error err => .error err
      | .ok ts => .ok (t :: ts)

/-- Read the entries of a map behind those already read. -/
def treesOfEntries (done : List (String × Tree)) :
    List (String × Source) → Except SourceError (List (String × Tree))
  | [] => .ok done
  | (key, s) :: rest =>
    match s.toTree with
    | .error err => .error err
    | .ok t =>
      if done.any (·.1 == key) then .error (.duplicateKey key)
      else treesOfEntries (done ++ [(key, t)]) rest

end

end Source

end RecordCoding
