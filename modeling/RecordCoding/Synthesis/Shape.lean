/-
Field shapes: which of the four supported forms the type of a field has.

`TypeExpression.ofType` looks at a type as far as this matters: a plain path, an
optional, a sequence, or anything else. `FieldShape.of` decides the shape, and
`FieldShape.rule` says how a field of that shape is decoded.

Design notes:

* `Option` and `Vec` are known by their names alone, or through the modules of
  the standard libraries that export them. Parentheses around a type are looked
  through, and so are the delimiters that a macro leaves around one.
* The walk over a type is structural, so the argument of the last step of a path
  is visited before it is known whether the path is one of the two.
-/
import RecordCoding.Code.Term

namespace RecordCoding

/-- The part of a type that decides the shape of a field. -/
inductive TypeExpression
  /-- A path without generic arguments. -/
  | named (p : Path)
  | optional (content : TypeExpression)
  | sequence (element : TypeExpression)
  /-- Anything else. -/
  | other (t : Ty)
  deriving Inhabited

namespace TypeExpression

/-- The names of the modules that export `Option`. -/
def optionModules : List (List String) := [["std", "option"], ["core", "option"]]

/-- The names of the modules that export `Vec`. -/
def vecModules : List (List String) := [["std", "vec"], ["alloc", "vec"]]

/-- Whether steps are those of a module, without arguments. -/
def isModule (steps : List Segment) (module : List String) : Bool :=
  steps.map (·.name.spelled) == module && steps.all (·.arguments.isNone)

/-- Whether a path is a name, bare or through one of the modules, whatever the
arguments of its last step. -/
def names (name : String) (modules : List (List String)) (p : Path) : Bool :=
  match p.segments.reverse with
  | [] => false
  | last :: before =>
    last.name.spelled == name
      && ((before.isEmpty && !p.leading) || modules.any (isModule before.reverse))

mutual

/-- A type as far as it decides the shape of a field. -/
def ofType : Ty → TypeExpression
  | .paren inner => ofType inner
  | .group inner => ofType inner
  | .path (.mk leading segments) =>
    let p := Path.mk leading segments
    let plain := if p.bare then named p else other (.path p)
    match argumentOfLast segments with
    | some e =>
      if names "Option" optionModules p then optional e
      else if names "Vec" vecModules p then sequence e
      else plain
    | none => plain
  | t => other t

/-- What the last of some steps has as its only argument. -/
def argumentOfLast : List Segment → Option TypeExpression
  | [] => none
  | [s] => argumentOfStep s
  | _ :: s :: rest => argumentOfLast (s :: rest)

/-- What a step has as its only argument. -/
def argumentOfStep : Segment → Option TypeExpression
  | .mk _ arguments => soleArgument arguments

/-- The only argument in angle brackets, if it is a type. -/
def soleArgument : Arguments → Option TypeExpression
  | .angle _ arguments _ => soleOf arguments
  | _ => none

/-- The only one of some arguments, if it is a type. -/
def soleOf : List Argument → Option TypeExpression
  | [a] => typeArgument a
  | _ => none

/-- An argument, if it is a type. -/
def typeArgument : Argument → Option TypeExpression
  | .type t => some (ofType t)
  | _ => none

end

end TypeExpression

/-- How a field is written and read; the path is that of the innermost type. -/
inductive FieldShape
  | scalar (p : Path)
  | optionalScalar (p : Path)
  | sequence (p : Path)
  | optionalSequence (p : Path)
  | unrecognized
  deriving Inhabited

/-- Which operation of a container a field is read with. -/
inductive DecodeRule
  /-- A missing key is an error. -/
  | required
  /-- A missing key is an absent value. -/
  | ifPresent
  deriving DecidableEq, Repr, Inhabited

namespace DecodeRule

/-- The name of the operation. -/
def operation : DecodeRule → String
  | required => "decode"
  | ifPresent => "decode_if_present"

end DecodeRule

/-- The type a field is read at. -/
inductive DecodedType
  | plain (p : Path)
  | sequence (p : Path)
  deriving Inhabited

namespace DecodedType

def tokens : DecodedType → List Token
  | plain p => p.tokens
  | sequence p => Token.words ["::", "std", "::", "vec", "::", "Vec", "<"] ++ p.tokens ++ [.word ">"]

end DecodedType

namespace FieldShape

/-- The shape of a field; every type has exactly one. -/
def of : TypeExpression → FieldShape
  | .named p => scalar p
  | .optional (.named p) => optionalScalar p
  | .sequence (.named p) => sequence p
  | .optional (.sequence (.named p)) => optionalSequence p
  | _ => unrecognized

def recognized : FieldShape → Bool
  | unrecognized => false
  | _ => true

def optional : FieldShape → Bool
  | optionalScalar _ => true
  | optionalSequence _ => true
  | _ => false

/-- The path of the innermost type. -/
def element? : FieldShape → Option Path
  | scalar p => some p
  | optionalScalar p => some p
  | sequence p => some p
  | optionalSequence p => some p
  | unrecognized => none

/-- How a field is read, and at which type. A sequence is required like any
other value: a missing key is not an empty sequence. -/
def rule : FieldShape → Option (DecodeRule × DecodedType)
  | scalar p => some (.required, .plain p)
  | optionalScalar p => some (.ifPresent, .plain p)
  | sequence p => some (.required, .sequence p)
  | optionalSequence p => some (.ifPresent, .sequence p)
  | unrecognized => none

end FieldShape

end RecordCoding
