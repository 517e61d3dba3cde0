/-
Coding paths: where in a value tree something stands.

A path lists the steps from the root. It is printed as `$` for the root and as
`$.tags[1]` further down.
-/
import RecordCoding.Number.Shortest

namespace RecordCoding

/-- One step down from a node of a tree. -/
inductive PathStep
  /-- To the entry with this key. -/
  | key (name : String)
  /-- To the element at this index. -/
  | index (i : Nat)
  deriving DecidableEq, Repr, Inhabited

/-- The location of a node, as the steps from the root to it. -/
structure CodingPath where
  steps : List PathStep
  deriving DecidableEq, Repr, Inhabited

namespace PathStep

/-- A step as it is printed: a point and the key as it is, or the index in
brackets. -/
def chars : PathStep → List Char
  | .key name => '.' :: name.toList
  | .index i => '[' :: Decimal.digitsOf i ++ [']']

end PathStep

namespace CodingPath

/-- The path of the root. -/
def root : CodingPath := ⟨[]⟩

def isRoot (p : CodingPath) : Bool := p.steps.isEmpty

/-- The path one step further down. -/
def appending (p : CodingPath) (s : PathStep) : CodingPath := ⟨p.steps ++ [s]⟩

/-- The path of the entry with the given key. -/
def key (p : CodingPath) (name : String) : CodingPath := p.appending (.key name)

/-- The path of the element with the given index. -/
def index (p : CodingPath) (i : Nat) : CodingPath := p.appending (.index i)

/-- The printed form as a list of characters. -/
def chars (p : CodingPath) : List Char := '$' :: p.steps.flatMap PathStep.chars

/-- The printed form. -/
def printed (p : CodingPath) : String := String.ofList p.chars

/-- A path seen from another root: `outer` leads to what `p` calls the root. -/
def under (p outer : CodingPath) : CodingPath := ⟨outer.steps ++ p.steps⟩

end CodingPath

end RecordCoding
