/-
Encoding: what a value of a type asks of its encoder.

Leaves and lists write themselves, `absent` is an explicit `null`, pointers and
`present` leave no trace, and a record writes its keyed fields in the order of
declaration, each under its key.

Design notes:

* The recursion follows the value, so recursive records need no bound.
* A value that is not of the type writes nothing.
-/
import RecordCoding.Data.Basic

namespace RecordCoding

namespace Datum

mutual

/-- What a value of a type asks of its encoder. -/
def writing (s : Schema) : DataType → Datum → Writing
  | .bool, .bool b => .tree (.bool b)
  | .string, .string v => .tree (.text v)
  | .char, .char c => .tree (.text (String.singleton c))
  | .single, .single x => .tree (.double x.toDouble)
  | .double, .double x => .tree (.double x)
  | .tree, .tree t => .tree t
  | .integer _, .integer n => .integer n
  | .list t, .list items => .elements (writingOfItems s t items)
  | .option _, .absent => .tree .null
  | .option t, .present d => writing s t d
  | .pointer t, .pointer d => writing s t d
  | .record name arguments, .record _ fields =>
    .keyed (writingOfFields s arguments (s.fieldsOf name) fields)
  | .failing message, _ => .failing message
  | .scripted w, _ => w
  | _, _ => .sequence []

/-- The elements of a list. -/
def writingOfItems (s : Schema) (t : DataType) : List Datum → List Writing
  | [] => []
  | d :: rest => writing s t d :: writingOfItems s t rest

/-- The keyed fields of a record, in the order of declaration. -/
def writingOfFields (s : Schema) (arguments : List DataType) :
    List Field → List (String × Datum) → List (KeyedWriting Writing)
  | f :: fs, (_, d) :: ds =>
    match (f.coding.instantiate arguments).type? with
    | some t => ⟨f.key, false, writing s t d⟩ :: writingOfFields s arguments fs ds
    | none => writingOfFields s arguments fs ds
  | _, _ => []

end

/-- Encode a value into a tree. -/
def toTree (s : Schema) (t : DataType) (d : Datum) : Except EncodeError Tree :=
  (d.writing s t).toTree

end Datum

end RecordCoding
