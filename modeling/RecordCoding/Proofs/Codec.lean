/-
Codecs: how the values of a type are written and read.

A `Codec` may do anything with the encoder it is given and with the node it
reads.  The codecs of optional values and of lists are built from one of their
content (`Codec.option`, `Codec.list`), and every described type has one
(`Codec.ofType`).

`Reads c x y` says that whatever `x` is written as is read as `y`:

* `Reads.list` — lists are read element by element;
* `Reads.option_some` — an optional value is read as it is, unless its content is
  written as `null`;
* `RoundTrips` — every value is read as itself.
-/
import Mathlib.Data.List.Forall2
import RecordCoding.Data.Encode
import RecordCoding.Proofs.Reading.Container

namespace RecordCoding

/-! ### Codecs -/

/-- How the values of a type are written and read. -/
structure Codec (α : Type) where
  encode : α → Encoder → Written
  decode : Decoder → Except DecodeError α

namespace Codec

variable {α : Type}

/-- The tree that a value makes of a path. -/
def treeAt (c : Codec α) (x : α) (p : CodingPath) : Except EncodeError Tree :=
  writtenTree (c.encode x (.fresh p))

/-- The trees of elements from `index` on, up to the first failure. -/
def treesOf (c : Codec α) : List α → CodingPath → Nat → Except EncodeError (List Tree)
  | [], _, _ => .ok []
  | x :: rest, p, index =>
    match c.treeAt x (p.index index) with
    | .error err => .error err
    | .ok t =>
      match c.treesOf rest p (index + 1) with
      | .error err => .error err
      | .ok ts => .ok (t :: ts)

theorem treesOf_cons (c : Codec α) (x : α) (rest : List α) (p : CodingPath) (index : Nat) :
    c.treesOf (x :: rest) p index
      = (c.treeAt x (p.index index)).bind fun t => (c.treesOf rest p (index + 1)).map (t :: ·) := by
  rw [treesOf]
  rcases c.treeAt x (p.index index) with _ | t
  · rfl
  · rcases c.treesOf rest p (index + 1) with _ | _ <;> rfl

/-- Optional values: none is `null`, and a value leaves no trace of being one. -/
def option (c : Codec α) : Codec (Option α) where
  encode
    | none, e => (.ok (), e.write .null)
    | some x, e => c.encode x e
  decode d := if d.tree.isNull then .ok none else (c.decode d).map some

/-- Lists: an array, each element written by an encoder of its own. -/
def list (c : Codec α) : Codec (List α) where
  encode xs e :=
    match c.treesOf xs e.path 0 with
    | .error err => (.error err, e)
    | .ok ts => (.ok (), e.write (.array ts))
  decode d := d.elements c.decode

/-- The codec of a described type. -/
def ofType (s : Schema) (t : DataType) : Codec Datum where
  encode d := (d.writing s t).run
  decode := Decoder.decode s t

/-! ### What is read of what was written -/

/-- Whatever `x` is written as is read as `y`. -/
def Reads (c : Codec α) (x y : α) : Prop :=
  ∀ p t, c.treeAt x p = .ok t → c.decode ⟨t, p⟩ = .ok y

/-- Whatever a value is written as is read as that value. -/
def RoundTrips (c : Codec α) : Prop := ∀ x, c.Reads x x

/-- No value is written as `null`. -/
def NeverNull (c : Codec α) : Prop := ∀ x p t, c.treeAt x p = .ok t → t.isNull = false

variable {c : Codec α}

theorem treeAt_list (xs : List α) (p : CodingPath) :
    c.list.treeAt xs p = (c.treesOf xs p 0).map .array := by
  rw [treeAt, list]
  simp only [Encoder.fresh]
  rcases c.treesOf xs p 0 with _ | ts <;> rfl

theorem list_neverNull : c.list.NeverNull := by
  intro xs p t h
  rw [treeAt_list] at h
  obtain ⟨ts, -, rfl⟩ := exists_of_map_eq_ok h
  rfl

/-- Elements that are read as others are read in order. -/
theorem readEach_of_treesOf {xs ys : List α} (h : List.Forall₂ c.Reads xs ys) {p : CodingPath}
    {index : Nat} {ts : List Tree} (hts : c.treesOf xs p index = .ok ts) :
    readEach c.decode p ts index = .ok ys := by
  -- Writing and reading count the elements alike, so their paths agree at every index.
  induction h generalizing index ts with
  | nil =>
    rw [treesOf, Except.ok.injEq] at hts
    rw [← hts, readEach]
  | @cons x y xs ys hread _ ih =>
    rw [treesOf_cons] at hts
    obtain ⟨t, htree, hts⟩ := exists_of_bind_eq_ok hts
    obtain ⟨rest, hrest, rfl⟩ := exists_of_map_eq_ok hts
    rw [readEach, hread _ _ htree, ih hrest]

theorem Reads.list {xs ys : List α} (h : List.Forall₂ c.Reads xs ys) : c.list.Reads xs ys := by
  intro p t ht
  rw [treeAt_list] at ht
  obtain ⟨ts, htrees, rfl⟩ := exists_of_map_eq_ok ht
  exact readEach_of_treesOf h htrees

theorem reads_option_none : c.option.Reads none none := by
  intro p t ht
  rw [treeAt, Codec.option, writtenTree] at ht
  obtain rfl := Except.ok.inj ht
  rfl

theorem Reads.option_some {x y : α} (h : c.Reads x y)
    (hnull : ∀ p t, c.treeAt x p = .ok t → t.isNull = false) :
    c.option.Reads (some x) (some y) := by
  intro p t ht
  have ht : c.treeAt x p = .ok t := ht
  show (if t.isNull then .ok none else (c.decode ⟨t, p⟩).map some) = _
  rw [hnull p t ht, h p t ht]
  rfl

theorem RoundTrips.list (h : c.RoundTrips) : c.list.RoundTrips := by
  intro xs
  exact Reads.list (List.forall₂_same.mpr fun x _ => h x)

theorem RoundTrips.option (h : c.RoundTrips) (hnull : c.NeverNull) : c.option.RoundTrips := by
  intro x
  cases x with
  | none => exact reads_option_none
  | some x => exact (h x).option_some (hnull x)

end Codec

/-! ### Entries that are there -/

namespace KeyedDecoder

variable {α : Type} {k : KeyedDecoder} {key : String} {t : Tree}

theorem decode_of_lookup (h : k.entries.lookup key = some t)
    (read : Decoder → Except DecodeError α) : k.decode key read = read ⟨t, k.path.key key⟩ := by
  rw [decode, h]

/-- An entry that is there is read as an optional value. -/
theorem decodeIfPresent_of_lookup (h : k.entries.lookup key = some t) (c : Codec α) :
    k.decodeIfPresent key c.decode = c.option.decode ⟨t, k.path.key key⟩ := by
  rw [decodeIfPresent, h]
  rfl

end KeyedDecoder

end RecordCoding
