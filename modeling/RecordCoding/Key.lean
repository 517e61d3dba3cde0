/-
Coding keys: the closed set of names a record reads and writes.

A `KeySet` lists keys in the order of declaration. Each key has an identifier
of its own and the text that stands in the object; two keys may share a text,
and a look-up by text finds the first.
-/

namespace RecordCoding

/-- A key of a record. -/
structure CodingKey where
  /-- The identifier of the key. -/
  name : String
  /-- What stands for it in an object. -/
  text : String
  deriving DecidableEq, Repr, Inhabited

/-- All keys of a record, in the order of declaration. -/
abbrev KeySet := List CodingKey

namespace KeySet

/-- The first key with the given text. -/
def ofText? (keys : KeySet) (text : String) : Option CodingKey :=
  keys.find? (·.text == text)

/-- The position of the first key with the given text. -/
def indexOfText? (keys : KeySet) (text : String) : Option Nat :=
  keys.findIdx? (·.text == text)

/-- The texts of all keys, in order. -/
def texts (keys : KeySet) : List String := keys.map (·.text)

/-- The keys that occur in an object, one for each entry with a known key, in
the order of the entries. -/
def present {α : Type} (keys : KeySet) (entries : List (String × α)) : List CodingKey :=
  entries.filterMap fun entry => keys.ofText? entry.1

/-- The positions of the keys that occur in an object, in the order of the
entries. -/
def presentIndices {α : Type} (keys : KeySet) (entries : List (String × α)) : List Nat :=
  entries.filterMap fun entry => keys.indexOfText? entry.1

end KeySet

end RecordCoding
