/-
The value tree that encoders write and decoders read.

An object keeps its entries in the order of writing, so an encoded record lists
its keys in the order of its fields. Entries may repeat a key; a look-up takes
the first.

Design notes:

* `Tree.same` is equality node by node: the same constructor, the same integer,
  the same bits of a double, the same entries in the same order. It is written
  out rather than derived, because objects nest lists of pairs.
-/
import RecordCoding.Number.Binary

namespace RecordCoding

/-- A dynamic value. -/
inductive Tree
  /-- Explicit absence. -/
  | null
  | bool (b : Bool)
  | integer (n : Int64)
  | double (x : Double)
  | text (s : String)
  | array (items : List Tree)
  /-- Keyed entries in the order of writing. -/
  | object (entries : List (String × Tree))
  deriving Repr, Inhabited

namespace Tree

/-! ### Views -/

/-- The first entry with the given key, if the tree is an object. -/
def get? (t : Tree) (key : String) : Option Tree :=
  match t with
  | .object entries => entries.lookup key
  | _ => none

/-- The keys of an object, in order; none for anything else. -/
def keys : Tree → List String
  | .object entries => entries.map (·.1)
  | _ => []

def isNull : Tree → Bool
  | .null => true
  | _ => false

def bool? : Tree → Option Bool
  | .bool b => some b
  | _ => none

def integer? : Tree → Option Int64
  | .integer n => some n
  | _ => none

def double? : Tree → Option Double
  | .double x => some x
  | _ => none

def text? : Tree → Option String
  | .text s => some s
  | _ => none

def array? : Tree → Option (List Tree)
  | .array items => some items
  | _ => none

def object? : Tree → Option (List (String × Tree))
  | .object entries => some entries
  | _ => none

/-- The name of the kind of node, as error messages give it. -/
def kindName : Tree → String
  | .null => "null"
  | .bool _ => "boolean"
  | .integer _ => "integer"
  | .double _ => "double"
  | .text _ => "string"
  | .array _ => "array"
  | .object _ => "object"

/-! ### Equality -/

mutual

/-- Equality node by node. -/
def same : Tree → Tree → Bool
  | .null, .null => true
  | .bool a, .bool b => a == b
  | .integer a, .integer b => a == b
  | .double a, .double b => a.bits == b.bits
  | .text a, .text b => a == b
  | .array a, .array b => sameItems a b
  | .object a, .object b => sameEntries a b
  | _, _ => false

/-- Equality of the elements of two arrays. -/
def sameItems : List Tree → List Tree → Bool
  | [], [] => true
  | x :: xs, y :: ys => same x y && sameItems xs ys
  | _, _ => false

/-- Equality of the entries of two objects, keys and order included. -/
def sameEntries : List (String × Tree) → List (String × Tree) → Bool
  | [], [] => true
  | (k, x) :: xs, (l, y) :: ys => k == l && same x y && sameEntries xs ys
  | _, _ => false

end

instance : BEq Tree := ⟨same⟩

/-! ### Building trees -/

/-- The empty object. -/
def empty : Tree := .object []

/-- An object with the given entries. -/
def ofFields (fields : List (String × Tree)) : Tree := .object fields

/-- What stands for an optional value: `null` if it is absent. -/
def ofOption {α : Type} (f : α → Tree) : Option α → Tree
  | none => .null
  | some a => f a

/-- What a fresh variable of the type holds. -/
def initial : Tree := .null

instance : Coe Bool Tree := ⟨.bool⟩
instance : Coe Int64 Tree := ⟨.integer⟩
instance : Coe Double Tree := ⟨.double⟩
instance : Coe String Tree := ⟨.text⟩
instance : Coe (List Tree) Tree := ⟨.array⟩

/-- A 32-bit integer as a tree. -/
def ofInt32 (n : Int32) : Tree := .integer n.toInt64

end Tree

end RecordCoding
