/-
Decoding: what a tree is read as.

A leaf reads a node of its own kind, a list reads every element, an optional
value reads `null` as none, and a record looks up its keyed fields in the order
of declaration, whatever the order of the object. The first failure ends the
reading.

Design notes:

* The recursion over the tree and the recursion over the type are kept apart.
  `reader` follows the tree and hands every node the readers of its children;
  `readAt` follows the type as long as it stays at one node. Both are
  structural, so recursive records need no bound.
* `Decoder` is what the user of a node sees: the tree and its path.
-/
import RecordCoding.Data.Basic

namespace RecordCoding

/-! ### Decoders -/

/-- A node of a tree and where it stands. -/
structure Decoder where
  tree : Tree
  path : CodingPath
  deriving Repr, Inhabited

namespace Decoder

/-- A node of the wrong kind; `null` counts as no value at all. -/
def mismatch (d : Decoder) (expected : String) : DecodeError :=
  match d.tree with
  | .null => .valueNotFound expected d.path
  | t => .typeMismatch expected t.kindName d.path

/-- An integer beyond the range of a type. -/
def outOfRange (d : Decoder) (target : String) : DecodeError :=
  .outOfRange d.tree.printed target d.path

/-- A failure raised by the type that is being decoded. -/
def failure (d : Decoder) (message : String) : DecodeError := .custom message d.path

/-- The one character of a string node. -/
def char (d : Decoder) : Except DecodeError Char :=
  match d.tree with
  | .text s =>
    match s.toList with
    | [c] => .ok c
    | _ => .error (d.failure
        ("expected a single character, got " ++ String.ofList (Text.quoted s)))
  | _ => .error (d.mismatch "string")

/-- The number of a double or integer node. -/
def double (d : Decoder) : Except DecodeError Double :=
  match d.tree with
  | .double x => .ok x
  | .integer n => .ok (.ofInt n.toInt)
  | _ => .error (d.mismatch "double")

/-- The number of an integer node in the range of the kind. -/
def integer (d : Decoder) (kind : IntegerKind) : Except DecodeError Int :=
  match d.tree with
  | .integer n => if kind.holds n.toInt then .ok n.toInt else .error (d.outOfRange kind.name)
  | _ => .error (d.mismatch "integer")

end Decoder

/-! ### One node -/

/-- How a subtree is read as a type, given its path. -/
abbrev Reader := DataType → CodingPath → Except DecodeError Datum

/-- A child of a node and how to read it. -/
structure Child where
  tree : Tree
  read : Reader

/-- A node with its children: the elements of an array, the entries of an
object, or none. -/
structure Node where
  tree : Tree
  items : Option (List Child)
  entries : Option (List (String × Child))

/-- Read elements in order, from `index` on. -/
def readItems (t : DataType) (path : CodingPath) : List Child → Nat → Except DecodeError (List Datum)
  | [], _ => .ok []
  | c :: rest, index =>
    match c.read t (path.index index) with
    | .error err => .error err
    | .ok d =>
      match readItems t path rest (index + 1) with
      | .error err => .error err
      | .ok ds => .ok (d :: ds)

/-- Read the first entry under a key. -/
def readKey (entries : List (String × Child)) (path : CodingPath) (key : String) (t : DataType) :
    Except DecodeError Datum :=
  match entries.lookup key with
  | none => .error (.keyNotFound key path)
  | some c => c.read t (path.key key)

/-- Read the first entry under a key; a missing key and `null` are no value. -/
def readKeyIfPresent (entries : List (String × Child)) (path : CodingPath) (key : String)
    (t : DataType) : Except DecodeError (Option Datum) :=
  match entries.lookup key with
  | none => .ok none
  | some c =>
    if c.tree.isNull then .ok none
    else
      match c.read t (path.key key) with
      | .error err => .error err
      | .ok d => .ok (some d)

/-- An optional value as a datum. -/
def Datum.ofOption : Option Datum → Datum
  | none => .absent
  | some d => .present d

/-- Read one field of a record. -/
def readField (arguments : List DataType) (entries : List (String × Child)) (path : CodingPath)
    (f : Field) : Except DecodeError Datum :=
  match f.coding.instantiate arguments with
  | .required t => readKey entries path f.key t
  | .ifPresent t => (readKeyIfPresent entries path f.key t).map .ofOption
  | .excluded initial => .ok initial

/-- Read the fields of a record in the order of declaration. -/
def readFields (arguments : List DataType) (entries : List (String × Child)) (path : CodingPath) :
    List Field → Except DecodeError (List (String × Datum))
  | [] => .ok []
  | f :: rest =>
    match readField arguments entries path f with
    | .error err => .error err
    | .ok d =>
      match readFields arguments entries path rest with
      | .error err => .error err
      | .ok ds => .ok ((f.name, d) :: ds)

/-- What a look at an operation's outcome shows. -/
def Observation.ofResult {α : Type} (f : α → Observation) : Except DecodeError α → Observation
  | .ok a => f a
  | .error err => .failure err

namespace Node

/-- The node as a decoder. -/
def decoder (n : Node) (path : CodingPath) : Decoder := ⟨n.tree, path⟩

/-- The elements of an array node. -/
def elements (n : Node) (t : DataType) (path : CodingPath) : Except DecodeError (List Datum) :=
  match n.items with
  | some items => readItems t path items 0
  | none => .error ((n.decoder path).mismatch "array")

/-- The entries of an object node. -/
def container (n : Node) (path : CodingPath) : Except DecodeError (List (String × Child)) :=
  match n.entries with
  | some entries => .ok entries
  | none => .error ((n.decoder path).mismatch "object")

/-- What a look at a keyed container shows. -/
def observeKeyed (entries : List (String × Child)) (path : CodingPath) (keys : KeySet) :
    KeyedProbe → Observation
  | .contains key => .flag (entries.any (·.1 == key))
  | .allKeys => .keys (keys.presentIndices entries)
  | .path => .path path
  | .decode key t => .ofResult .datum (readKey entries path key t)
  | .decodeIfPresent key t => .ofResult .optional (readKeyIfPresent entries path key t)

mutual

/-- Read a node as a type. -/
def readAt (s : Schema) (n : Node) : DataType → CodingPath → Except DecodeError Datum
  | .bool, p =>
    match n.tree with
    | .bool b => .ok (.bool b)
    | _ => .error ((n.decoder p).mismatch "boolean")
  | .string, p =>
    match n.tree with
    | .text v => .ok (.string v)
    | _ => .error ((n.decoder p).mismatch "string")
  | .char, p => (n.decoder p).char.map .char
  | .single, p => (n.decoder p).double.map fun x => .single x.toSingle
  | .double, p => (n.decoder p).double.map .double
  | .tree, _ => .ok (.tree n.tree)
  | .integer kind, p => ((n.decoder p).integer kind).map .integer
  | .list t, p => (n.elements t p).map .list
  | .option t, p => if n.tree.isNull then .ok .absent else (readAt s n t p).map .present
  | .pointer t, p => (readAt s n t p).map .pointer
  | .record name arguments, p =>
    match n.container p with
    | .error err => .error err
    | .ok entries =>
      (readFields arguments entries p (s.fieldsOf name)).map (.record name)
  | .failing message, p => .error ((n.decoder p).failure message)
  | .inspecting probes, p => .ok (.observed (observeAll s n probes p))
  | .parameter _, p => .error ((n.decoder p).failure "type parameter without a type")
  | .scripted _, p => .error ((n.decoder p).failure "type without a decoder")

/-- What one look at a node shows. -/
def observe (s : Schema) (n : Node) : Probe → CodingPath → Observation
  | .decode t, p => .ofResult .datum (readAt s n t p)
  | .elements t, p => .ofResult .data (n.elements t p)
  | .container keys probes, p =>
    .ofResult (fun entries => .container (probes.map (observeKeyed entries p keys))) (n.container p)
  | .mismatch expected, p => .failure ((n.decoder p).mismatch expected)
  | .outOfRange target, p => .failure ((n.decoder p).outOfRange target)
  | .custom message, p => .failure ((n.decoder p).failure message)
  | .path, p => .path p
  | .tree, _ => .tree n.tree

/-- What looks at a node show, in order. -/
def observeAll (s : Schema) (n : Node) : List Probe → CodingPath → List Observation
  | [], _ => []
  | probe :: rest, p => observe s n probe p :: observeAll s n rest p

end

end Node

/-! ### Whole trees -/

mutual

/-- How a tree is read. -/
def reader (s : Schema) : Tree → Reader
  | .array items => Node.readAt s ⟨.array items, some (readersOfItems s items), none⟩
  | .object entries => Node.readAt s ⟨.object entries, none, some (readersOfEntries s entries)⟩
  | t => Node.readAt s ⟨t, none, none⟩

/-- The elements of an array with their readers. -/
def readersOfItems (s : Schema) : List Tree → List Child
  | [] => []
  | t :: rest => ⟨t, reader s t⟩ :: readersOfItems s rest

/-- The entries of an object with their readers. -/
def readersOfEntries (s : Schema) : List (String × Tree) → List (String × Child)
  | [] => []
  | (k, t) :: rest => (k, ⟨t, reader s t⟩) :: readersOfEntries s rest

end

/-- Decode a node as a type. -/
def Decoder.decode (s : Schema) (t : DataType) (d : Decoder) : Except DecodeError Datum :=
  reader s d.tree t d.path

/-- Decode a whole tree as a type. -/
def DataType.ofTree (s : Schema) (t : DataType) (tree : Tree) : Except DecodeError Datum :=
  Decoder.decode s t ⟨tree, .root⟩

end RecordCoding
