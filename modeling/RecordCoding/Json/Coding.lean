/-
Typed values as JSON text, by way of value trees.

Reading goes through a tree before anything is decoded, and what a decoder
refuses is reported before a look at what follows the value. Writing encodes
before anything is written. Failures of coding have no place in the text.
-/
import RecordCoding.Data.Decode
import RecordCoding.Data.Encode
import RecordCoding.Json.Reader
import RecordCoding.Json.Writer

namespace RecordCoding

namespace Json

/-- Why a typed value could not be read. -/
inductive ReadError
  | text (f : Fault)
  | decode (e : DecodeError)
  deriving Repr

/-- Read a value of a type. -/
def readAs (s : Schema) (t : DataType) (text : List Char) : Except ReadError Datum :=
  match readFirst text with
  | .error f => .error (.text f)
  | .ok (tree, rest) =>
    match t.ofTree s tree with
    | .error e => .error (.decode e)
    | .ok d =>
      match readEnd rest with
      | .error f => .error (.text f)
      | .ok () => .ok d

/-- Write a value of a type. -/
def writeAs (s : Schema) (t : DataType) (style : Style) (d : Datum) : Except EncodeError String :=
  (d.toTree s t).map (write style)

end Json

end RecordCoding
