/-
A gallery of records: one schema with a record for every way a field can take
part in coding.

It has plain, optional and repeated fields, fields that are left out, records
inside records, recursive records, generic records and records without a key.
-/
import RecordCoding.Data.Basic

namespace RecordCoding

namespace Gallery

/-! ### Building fields -/

private def need (name : String) (t : DataType) : Field := ⟨name, name, .required t⟩

private def may (name : String) (t : DataType) : Field := ⟨name, name, .ifPresent t⟩

private def leave (name : String) (d : Datum) : Field := ⟨name, name, .excluded d⟩

private def many (t : DataType) : DataType := .list t

private def u8 : DataType := .integer .u8

private def named (name : String) : DataType := .record name []

/-! ### Records -/

/-- The four shapes a keyed field can have. -/
def profile : RecordType :=
  ⟨"Profile", [need "name" .string, may "nickname" .string, need "tags" (many .string),
    may "id" (many .string)]⟩

/-- Leaves of different kinds. -/
def data : RecordType :=
  ⟨"Data", [need "numbers" (many (.integer .i64)), need "value" .double, need "active" .bool,
    need "small" u8]⟩

/-- Records inside a record. -/
def team : RecordType :=
  ⟨"Team", [need "lead" (named "Profile"), need "members" (many (named "Profile")),
    may "backup" (named "Profile")]⟩

/-- Fields whose types have no shape: a map and a pair. -/
def index : RecordType :=
  ⟨"Index", [need "name" .string, leave "lookup" (.map []),
    leave "pair" (.tuple [.integer 0, .integer 0])]⟩

/-- A field marked to be left out. -/
def session : RecordType :=
  ⟨"Session", [need "user" .string, leave "cache" (.list [])]⟩

/-- Fields named by raw identifiers; their keys are plain. -/
def keyword : RecordType :=
  ⟨"Keyword", [⟨"r#type", "type", .required .string⟩, ⟨"r#match", "match", .ifPresent .bool⟩]⟩

/-- No field at all. -/
def marker : RecordType := ⟨"Marker", []⟩

/-- Fields named like the locals of generated code. -/
def internal : RecordType :=
  ⟨"Internal", [need "__container" .string, may "__decoder" u8, need "LIMIT" u8,
    need "other" .string]⟩

/-- Every integer type. -/
def ints : RecordType :=
  ⟨"Ints", List.zipWith (fun name kind => need name (.integer kind))
    ["a", "b", "c", "d", "e", "f", "g", "h", "i", "j"] IntegerKind.all⟩

/-- Floating-point numbers and characters. -/
def floats : RecordType :=
  ⟨"Floats", [need "f" .single, need "d" .double, may "of" .single, need "vd" (many .double),
    need "c" .char, may "oc" .char, need "vc" (many .char)]⟩

/-- A list of nodes, each behind a pointer. -/
def node : RecordType :=
  ⟨"Node", [need "value" (.integer .i64), may "next" (.pointer (named "Node"))]⟩

/-- A tree of nodes. -/
def tree : RecordType :=
  ⟨"Tree", [may "label" .string, need "children" (many (named "Tree"))]⟩

/-- Types that hide an option or a list behind a name. -/
def aliased : RecordType :=
  let maybe : DataType := .option (.integer .i64)
  let matrix : DataType := many (many (.integer .i16))
  ⟨"Aliased", [need "maybe" maybe, may "opt" maybe, need "grid" matrix,
    may "grids" (many matrix), need "any" .tree, may "anys" (many .tree)]⟩

/-- No field with a key. -/
def unkeyed : RecordType :=
  ⟨"Unkeyed", [leave "a" (.string ""), leave "b" .absent, leave "c" (.list [])]⟩

/-- Keys in an order of their own. -/
def strict : RecordType :=
  ⟨"Strict", [need "z" u8, leave "lookup" (.map []), need "a" (many u8), may "m" .string]⟩

/-- A generic record. -/
def wrapper : RecordType :=
  ⟨"Wrapper", [need "inner" (.parameter 0), need "rest" (many (.parameter 0))]⟩

/-- A generic record with the four shapes. -/
def quad : RecordType :=
  ⟨"Quad", [need "a" (.parameter 0), may "b" (.parameter 0), need "c" (many (.parameter 0)),
    may "d" (many (.parameter 0))]⟩

/-- All records of the gallery. -/
def schema : Schema :=
  [profile, data, team, index, session, keyword, marker, internal, ints, floats, node, tree,
    aliased, unkeyed, strict, wrapper, quad]

/-! ### Key sets -/

private def keyed (letter : String) (texts : List String) : KeySet :=
  texts.mapIdx fun i text => ⟨letter ++ toString i, text⟩

/-- Key sets that belong to no record. The third has two keys of one text, and
the last has no key. -/
def keySets : List (String × KeySet) :=
  [("A", keyed "A" ["name", "nickname", "tags", "id", "type", "", "a.b", "ключ"]),
    ("B", keyed "B" ["id", "other", "name"]),
    ("C", keyed "C" ["same", "same", "x"]),
    ("D", [])]

/-- The key set of a record or the one with the given name. -/
def keysOf (name : String) : KeySet :=
  match keySets.lookup name, schema.find? (·.name == name) with
  | some keys, _ => keys
  | none, some r => r.keys
  | none, none => []

end Gallery

end RecordCoding
