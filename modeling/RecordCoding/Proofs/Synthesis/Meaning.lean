/-
What generated members do when they run.

`Members.tokens` is code; `Members.encode` and `Members.decode` are its meaning
over the runtime, for any codecs of the types its fields are built from:

* a statement of the encoding writes the field it names under the text of its
  key, and the first failure ends the run;
* a statement of the decoding reads the entry under its key with the operation
  and at the type it shows, and binds the result to its local;
* the record is put together from the locals by name, or from defaults.

Design notes:

* Code has a meaning only if it compiles: a statement may name a key that the
  enumeration lacks, a field may be of a type that has no codec, and a local may
  be unbound.  Such members mean `none`.
* Names are compared without the mark of a raw identifier, as the language does.
* A local that is bound again hides the one bound before, so locals are looked
  up from the last one on.
-/
import RecordCoding.Proofs.Codec
import RecordCoding.Proofs.Writing.Entries
import RecordCoding.Synthesis.Members

namespace RecordCoding

/-! ### Values of fields -/

/-- A value of a field with the type it is declared at.  `V p` are the values of
the type with path `p`; values of all types without a shape are in `O`. -/
inductive FieldValue (V : Path → Type) (O : Type)
  | scalar (p : Path) (x : V p)
  | optionalScalar (p : Path) (x : Option (V p))
  | sequence (p : Path) (xs : List (V p))
  | optionalSequence (p : Path) (xs : Option (List (V p)))
  | other (x : O)

/-- A record as the values of its fields by name. -/
abbrev RecordValue (V : Path → Type) (O : Type) := String → FieldValue V O

variable {V : Path → Type} {O : Type}

namespace FieldValue

/-- The shape of the type a value is declared at. -/
def shape : FieldValue V O → FieldShape
  | scalar p _ => .scalar p
  | optionalScalar p _ => .optionalScalar p
  | sequence p _ => .sequence p
  | optionalSequence p _ => .optionalSequence p
  | other _ => .unrecognized

/-- What a value makes of the path it is written at, by the codec of its declared
type; values of other types have no codec. -/
def maker (codecs : ∀ p, Codec (V p)) : FieldValue V O → Option TreeMaker
  | scalar p x => some ((codecs p).treeAt x)
  | optionalScalar p x => some ((codecs p).option.treeAt x)
  | sequence p xs => some ((codecs p).list.treeAt xs)
  | optionalSequence p xs => some ((codecs p).list.option.treeAt xs)
  | other _ => none

/-- Whether a value is written without a failure at a path. -/
def Encodes (codecs : ∀ p, Codec (V p)) (v : FieldValue V O) (path : CodingPath) : Prop :=
  ∃ make, v.maker codecs = some make ∧ ∃ t, make path = .ok t

end FieldValue

/-- What a shape asks of the codec of its innermost type.  A list is never
written as `null`, so only an optional value of the type itself has to differ
from none. -/
def FieldShape.Sound (codecs : ∀ p, Codec (V p)) : FieldShape → Prop
  | .scalar p => (codecs p).RoundTrips
  | .optionalScalar p => (codecs p).RoundTrips ∧ (codecs p).NeverNull
  | .sequence p => (codecs p).RoundTrips
  | .optionalSequence p => (codecs p).RoundTrips
  | .unrecognized => True

/-! ### Keys -/

/-- The text of the variant that a key names: that of its arm. -/
def KeyRegistry.textOf? (r : KeyRegistry) (key : Ident) : Option String :=
  (r.keys.find? (·.name == key.name)).map (·.name)

/-! ### Writing -/

/-- `container.encode(&self.field, Keys::field)?` -/
def EncodeStatement.write (keys : KeyRegistry) (codecs : ∀ p, Codec (V p)) (self : RecordValue V O)
    (s : EncodeStatement) : Option (String × TreeMaker) := do
  let text ← keys.textOf? s.field
  let make ← (self s.field.name).maker codecs
  some (text, make)

/-- The body that writes a record, on an encoder. -/
def Members.encode (m : Members) (codecs : ∀ p, Codec (V p)) (self : RecordValue V O)
    (e : Encoder) : Option Written :=
  (m.encoding.mapM (EncodeStatement.write m.registry codecs self)).map e.opened.putAll

/-! ### Reading -/

/-- A local and how it gets its value. -/
abbrev Binding (V : Path → Type) (O : Type) :=
  String × (KeyedDecoder → Except DecodeError (FieldValue V O))

namespace DecodeStatement

/-- The operation of a statement on the entry under a text; the local has the
type that the operation gives. -/
def readAs (codecs : ∀ p, Codec (V p)) (s : DecodeStatement) (text : String) (k : KeyedDecoder) :
    Except DecodeError (FieldValue V O) :=
  match s.rule, s.type with
  | .required, .plain p => (k.decode text (codecs p).decode).map (.scalar p)
  | .ifPresent, .plain p => (k.decodeIfPresent text (codecs p).decode).map (.optionalScalar p)
  | .required, .sequence p => (k.decode text (codecs p).list.decode).map (.sequence p)
  | .ifPresent, .sequence p =>
    (k.decodeIfPresent text (codecs p).list.decode).map (.optionalSequence p)

/-- `let binding = container.operation::<T>(Keys::field)?` -/
def binding (keys : KeyRegistry) (codecs : ∀ p, Codec (V p)) (s : DecodeStatement) :
    Option (Binding V O) :=
  (keys.textOf? s.key).map fun text => (bindingName s.position, s.readAs codecs text)

end DecodeStatement

/-- Bind locals in order, up to the first failure; the last one comes first. -/
def bindAll (k : KeyedDecoder) :
    List (Binding V O) → List (String × FieldValue V O) →
      Except DecodeError (List (String × FieldValue V O))
  | [], locals => .ok locals
  | (name, read) :: rest, locals =>
    match read k with
    | .error err => .error err
    | .ok v => bindAll k rest ((name, v) :: locals)

/-- `field: binding`, or `field: Default::default()` -/
def Initializer.value (initial : RecordValue V O) (locals : List (String × FieldValue V O))
    (i : Initializer) : Option (Ident × FieldValue V O) :=
  match i.source with
  | some position => (locals.lookup (bindingName position)).map fun v => (i.field, v)
  | none => some (i.field, initial i.field.name)

/-- The body that reads a record, on a decoder; `initial` are the defaults of the
types of its fields.  The record comes as its initialized fields in order. -/
def Members.decode (m : Members) (codecs : ∀ p, Codec (V p)) (initial : RecordValue V O)
    (d : Decoder) : Option (Except DecodeError (List (Ident × FieldValue V O))) := do
  -- Code that does not compile has no meaning on any decoder.
  let bindings ← m.decoding.mapM (DecodeStatement.binding m.registry codecs)
  match d.container with
  | .error err => some (.error err)
  | .ok k =>
    match bindAll k bindings [] with
    | .error err => some (.error err)
    | .ok locals => (m.initializers.mapM (Initializer.value initial locals)).map .ok

end RecordCoding
