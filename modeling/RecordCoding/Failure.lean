/-
The failures of encoding and of decoding.

Each failure names its cause and the path of the node that caused it; the
wording is in `message` alone. A missing key and a key written twice carry the
path of the object, everything else the path of the node itself.
-/
import RecordCoding.Path
import RecordCoding.Tree.Printed

namespace RecordCoding

/-- Why a value could not be encoded. -/
inductive EncodeError
  /-- The object at `path` has an entry under this key already. -/
  | duplicateKey (key : String) (path : CodingPath)
  /-- An integer beyond 64 bits with a sign. -/
  | outOfRange (value : Int) (path : CodingPath)
  /-- Raised by a value itself. -/
  | custom (message : String) (path : CodingPath)
  deriving DecidableEq, Repr, Inhabited

/-- Why a tree could not be decoded. -/
inductive DecodeError
  /-- The object at `path` has no entry under this key. -/
  | keyNotFound (key : String) (path : CodingPath)
  /-- The node is `null`. -/
  | valueNotFound (expected : String) (path : CodingPath)
  /-- The node is of another kind. -/
  | typeMismatch (expected actual : String) (path : CodingPath)
  /-- The integer at the node, printed, is beyond the target type. -/
  | outOfRange (value target : String) (path : CodingPath)
  /-- Raised by a type itself. -/
  | custom (message : String) (path : CodingPath)
  deriving DecidableEq, Repr, Inhabited

/-- How an integer beyond the range of a type is reported. -/
def outOfRangeMessage (value target : String) (path : CodingPath) : String :=
  s!"value {value} at {path.printed} does not fit in {target}"

namespace EncodeError

/-- The type that encoded integers have to fit. -/
def integerTarget : String := "i64"

def path : EncodeError → CodingPath
  | .duplicateKey _ p => p
  | .outOfRange _ p => p
  | .custom _ p => p

/-- The same failure at another path. -/
def mapPath (f : CodingPath → CodingPath) : EncodeError → EncodeError
  | .duplicateKey k p => .duplicateKey k (f p)
  | .outOfRange n p => .outOfRange n (f p)
  | .custom m p => .custom m (f p)

def message : EncodeError → String
  | .duplicateKey k p => s!"key '{k}' written twice at {p.printed}"
  | .outOfRange n p => outOfRangeMessage (String.ofList (printedInt n)) integerTarget p
  | .custom m p => s!"{m} at {p.printed}"

end EncodeError

namespace DecodeError

def path : DecodeError → CodingPath
  | .keyNotFound _ p => p
  | .valueNotFound _ p => p
  | .typeMismatch _ _ p => p
  | .outOfRange _ _ p => p
  | .custom _ p => p

/-- The same failure at another path. -/
def mapPath (f : CodingPath → CodingPath) : DecodeError → DecodeError
  | .keyNotFound k p => .keyNotFound k (f p)
  | .valueNotFound e p => .valueNotFound e (f p)
  | .typeMismatch e a p => .typeMismatch e a (f p)
  | .outOfRange v t p => .outOfRange v t (f p)
  | .custom m p => .custom m (f p)

def message : DecodeError → String
  | .keyNotFound k p => s!"missing key '{k}' at {p.printed}"
  | .valueNotFound e p => s!"expected {e} at {p.printed}, found null"
  | .typeMismatch e a p => s!"type mismatch at {p.printed}: expected {e}, got {a}"
  | .outOfRange v t p => outOfRangeMessage v t p
  | .custom m p => s!"{m} at {p.printed}"

end DecodeError

end RecordCoding
