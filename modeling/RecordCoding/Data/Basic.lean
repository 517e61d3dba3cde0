/-
Types of data, the values they have, and the records they are built from.

A `DataType` names what a value is decoded as: a leaf, a list, an optional
value, something behind a pointer, or a record of a `Schema`. Records may be
recursive, since a type refers to them by name, and generic, since the types of
their fields may mention parameters.

Design notes:

* A field takes part in coding in one of three ways, `FieldCoding`: its key is
  required; a missing key or `null` stands for no value; or the field is left
  out altogether and starts from a fixed value.
* `scripted` and `inspecting` describe types with code of their own: the first
  writes what it is told and the second looks around in a decoder and never
  fails. What it saw is a list of `Observation`s.
-/
import RecordCoding.Encoder

namespace RecordCoding

/-! ### Integers -/

/-- The integer types; the pointer-sized ones have 64 bits. -/
inductive IntegerKind
  | i8 | i16 | i32 | i64 | isize | u8 | u16 | u32 | u64 | usize
  deriving DecidableEq, Repr, Inhabited

namespace IntegerKind

def name : IntegerKind → String
  | .i8 => "i8"
  | .i16 => "i16"
  | .i32 => "i32"
  | .i64 => "i64"
  | .isize => "isize"
  | .u8 => "u8"
  | .u16 => "u16"
  | .u32 => "u32"
  | .u64 => "u64"
  | .usize => "usize"

/-- All kinds, for a look-up by name. -/
def all : List IntegerKind := [.i8, .i16, .i32, .i64, .isize, .u8, .u16, .u32, .u64, .usize]

def ofName? (name : String) : Option IntegerKind := all.find? (·.name == name)

def bits : IntegerKind → Nat
  | .i8 | .u8 => 8
  | .i16 | .u16 => 16
  | .i32 | .u32 => 32
  | .i64 | .isize | .u64 | .usize => 64

def signed : IntegerKind → Bool
  | .i8 | .i16 | .i32 | .i64 | .isize => true
  | .u8 | .u16 | .u32 | .u64 | .usize => false

/-- The least value. -/
def least (k : IntegerKind) : Int := if k.signed then -(Nat.pow 2 (k.bits - 1)) else 0

/-- The greatest value. -/
def greatest (k : IntegerKind) : Int := Nat.pow 2 (k.bits - if k.signed then 1 else 0) - 1

/-- Whether an integer is a value of the type. -/
def holds (k : IntegerKind) (n : Int) : Bool := k.least ≤ n && n ≤ k.greatest

end IntegerKind

/-! ### Types -/

mutual

/-- What a value is encoded from and decoded as. -/
inductive DataType
  | bool
  | string
  | char
  | single
  | double
  /-- A value tree as it is. -/
  | tree
  | integer (kind : IntegerKind)
  | list (element : DataType)
  | option (content : DataType)
  /-- A value behind a pointer, which leaves no trace in the tree. -/
  | pointer (content : DataType)
  /-- A record of the schema, with the types for its parameters. -/
  | record (name : String) (arguments : List DataType)
  /-- A parameter of the record whose field has this type. -/
  | parameter (index : Nat)
  /-- Fails both ways with the given message. -/
  | failing (message : String)
  /-- Writes what it is told, whatever the value. -/
  | scripted (w : Writing)
  /-- Looks around in its decoder and never fails. -/
  | inspecting (probes : List Probe)

/-- One look at a decoder. -/
inductive Probe
  | decode (type : DataType)
  | elements (type : DataType)
  | container (keys : KeySet) (probes : List KeyedProbe)
  | mismatch (expected : String)
  | outOfRange (target : String)
  | custom (message : String)
  | path
  | tree

/-- One look at a keyed container. -/
inductive KeyedProbe
  | contains (key : String)
  | allKeys
  | path
  | decode (key : String) (type : DataType)
  | decodeIfPresent (key : String) (type : DataType)

end

instance : Inhabited DataType := ⟨.bool⟩
instance : Inhabited Probe := ⟨.tree⟩
instance : Inhabited KeyedProbe := ⟨.allKeys⟩

/-! ### Values -/

mutual

/-- A value of a described type. -/
inductive Datum
  | bool (b : Bool)
  | string (s : String)
  | char (c : Char)
  | single (x : Single)
  | double (x : Double)
  | tree (t : Tree)
  | integer (n : Int)
  | list (items : List Datum)
  | absent
  | present (content : Datum)
  | pointer (content : Datum)
  /-- The fields of a record, the excluded ones included, in the order of
  declaration and under their names. -/
  | record (name : String) (fields : List (String × Datum))
  /-- What inspecting probes saw. -/
  | observed (observations : List Observation)
  /-- Values that no type encodes: only excluded fields hold them. -/
  | tuple (items : List Datum)
  | map (entries : List (String × Datum))

/-- What a probe saw. -/
inductive Observation
  | datum (d : Datum)
  | data (ds : List Datum)
  | optional (d : Option Datum)
  | failure (e : DecodeError)
  | flag (b : Bool)
  | keys (indices : List Nat)
  | path (p : CodingPath)
  | tree (t : Tree)
  | container (observations : List Observation)

end

instance : Inhabited Datum := ⟨.absent⟩

/-! ### Records -/

/-- How a field takes part in coding. -/
inductive FieldCoding
  /-- The key has to be there. -/
  | required (type : DataType)
  /-- A missing key and `null` stand for no value. -/
  | ifPresent (type : DataType)
  /-- Neither written nor read; a decoded record starts it from `initial`. -/
  | excluded (initial : Datum)
  deriving Inhabited

/-- A field of a record. -/
structure Field where
  /-- The name as it is declared. -/
  name : String
  /-- The text of the field's key. -/
  key : String
  coding : FieldCoding
  deriving Inhabited

/-- A record type: its name and its fields in the order of declaration. -/
structure RecordType where
  name : String
  fields : List Field
  deriving Inhabited

/-- The records that types may name. -/
abbrev Schema := List RecordType

namespace Schema

/-- The fields of a record; none for an unknown name. -/
def fieldsOf (s : Schema) (name : String) : List Field :=
  match s.find? (·.name == name) with
  | some r => r.fields
  | none => []

end Schema

namespace Field

/-- Whether the field has a key. -/
def isKeyed (f : Field) : Bool :=
  match f.coding with
  | .excluded _ => false
  | _ => true

end Field

namespace RecordType

/-- The keys of a record: one for each keyed field, in order. -/
def keys (r : RecordType) : KeySet :=
  (r.fields.filter Field.isKeyed).map fun f => ⟨f.key, f.key⟩

end RecordType

namespace DataType

mutual

/-- Put types in the place of parameters. -/
def instantiate (arguments : List DataType) : DataType → DataType
  | .list t => .list (t.instantiate arguments)
  | .option t => .option (t.instantiate arguments)
  | .pointer t => .pointer (t.instantiate arguments)
  | .record name ts => .record name (instantiateAll arguments ts)
  | .parameter i => arguments.getD i (.parameter i)
  | t => t

/-- Put types in the place of parameters, in each of a list of types. -/
def instantiateAll (arguments : List DataType) : List DataType → List DataType
  | [] => []
  | t :: rest => t.instantiate arguments :: instantiateAll arguments rest

end

end DataType

namespace FieldCoding

/-- Put types in the place of parameters. -/
def instantiate (arguments : List DataType) : FieldCoding → FieldCoding
  | .required t => .required (t.instantiate arguments)
  | .ifPresent t => .ifPresent (t.instantiate arguments)
  | .excluded d => .excluded d

/-- The type a keyed field has: an option if its key may be missing. -/
def type? : FieldCoding → Option DataType
  | .required t => some t
  | .ifPresent t => some (.option t)
  | .excluded _ => none

end FieldCoding

end RecordCoding
