/-
The constructs of code that are written with other code inside them.

A tree of code (`Code`) is made of words, groups and nodes. Each node is an
instance of a construct, and its parts stand in the order of the text, words
included, so the tokens of a node are those of its parts.

Design notes:

* The parts of most constructs are fixed in number. A part that was left out is
  an empty node of `absent`; a list in brackets keeps its separators.
* A literal, a path, a range or the call of a macro is the same construct as an
  expression and as a pattern.
* Binary operators take part in the structure of code through how tightly they
  bind, which `Precedence` orders.
-/
import RecordCoding.Code.Token

namespace RecordCoding

/-- What a node of code is. -/
inductive Construct
  /-- A part that was left out. -/
  | absent
  /-- Parts without a meaning of their own. -/
  | sequence
  /-- `#`, an optional `!`, and the brackets of an attribute. -/
  | attributeMark
  /-- Attributes and what they are put on. -/
  | attributed
  /-- Tokens that are kept as they are. -/
  | verbatim
  -- Operands
  | literal
  | path
  /-- A path, `!`, and a group. -/
  | macroCall
  /-- The underscore. -/
  | wildcard
  | parenthesized
  | tuple
  | array
  /-- `[element; length]`. -/
  | repetition
  /-- A path and its fields in braces. -/
  | record
  /-- A member, a colon and a value; a member alone. -/
  | initializer
  /-- `..` and what the other fields are taken from. -/
  | remainder
  -- What follows an operand
  | call
  /-- Receiver, dot, name, generic arguments, arguments. -/
  | methodCall
  | field
  | index
  | await
  /-- An operand and `?`. -/
  | propagation
  -- Operators
  | unary
  /-- `&`, an optional `mut`, an operand. -/
  | reference
  /-- `&raw`, `const` or `mut`, an operand. -/
  | rawReference
  | cast
  | binary
  | assignment
  /-- An optional start, the dots, an optional end. -/
  | range
  /-- `let pattern = value` as a condition. -/
  | condition
  /-- Binder, words, `|`, parameters, `|`, arrow and type, body. -/
  | closure
  /-- `break` with an optional label and value. -/
  | break
  | continue
  | return
  | yield
  -- Blocks
  /-- A label and braces. -/
  | block
  | unsafeBlock
  /-- `async`, an optional `move`, braces. -/
  | asyncBlock
  | constBlock
  | tryBlock
  /-- `if`, condition, braces, and optionally `else` with what follows it. -/
  | conditional
  /-- `match`, what is matched, arms in braces. -/
  | choice
  /-- Attributes, pattern, guard, `=>`, body, comma. -/
  | arm
  /-- Label, `while`, condition, braces. -/
  | whileLoop
  /-- Label, `for`, pattern, `in`, what is gone through, braces. -/
  | forLoop
  /-- Label, `loop`, braces. -/
  | loop
  -- Patterns
  /-- `ref`, `mut`, a name, `@`, a pattern. -/
  | namePattern
  | alternatives
  | parenthesizedPattern
  | tuplePattern
  | tupleRecordPattern
  | recordPattern
  /-- Attributes, a member, a colon, a pattern; attributes and a pattern. -/
  | fieldPattern
  | slicePattern
  | referencePattern
  /-- A range pattern without a start or without an end, and where its dots
  stand. -/
  | openRange (location : Location)
  /-- `..` among patterns. -/
  | restPattern
  /-- A pattern, a colon and a type. -/
  | typedPattern
  -- Statements
  /-- `let`, pattern, colon and type, `=` and value, `else` and block, `;`. -/
  | binding
  /-- An expression and an optional `;`. -/
  | expressionStatement
  /-- The call of a macro and an optional `;`. -/
  | macroStatement
  /-- A lone `;`. -/
  | emptyStatement
  -- Items
  /-- `pub` and perhaps a group. -/
  | visibility
  /-- Attributes, visibility, `default`, words, `fn`, name, parameters, arguments,
  arrow and type, conditions, body or `;`. -/
  | function
  /-- `&` and a lifetime, `mut`, `self`, colon and type. -/
  | receiver
  /-- Attributes, visibility, `static`, `mut`, name, `:`, type, `=` and value,
  `;`. -/
  | staticItem
  /-- Attributes, visibility, `default`, `const`, name, `:`, type, `=` and value,
  `;`. -/
  | constantItem
  /-- Attributes, visibility, `use`, `::`, tree, `;`. -/
  | importItem
  /-- A name, `::` and a tree; a name, `as` and a name; a name, a star or a
  group. -/
  | importTree
  /-- Attributes, visibility, `extern`, `crate`, name, `as` and a name, `;`. -/
  | crateItem
  /-- Attributes, `unsafe`, `extern` and a text, braces. -/
  | foreignBlock
  /-- Attributes, visibility, `default`, `type`, name, parameters, colon and
  bounds, conditions, `=` and type, conditions, `;`. -/
  | aliasItem
  /-- Attributes, visibility, `struct` or `union`, name, parameters, conditions,
  fields, conditions, `;`. -/
  | recordItem
  /-- Attributes, visibility, a name and a colon, type. -/
  | fieldItem
  /-- Attributes, visibility, `enum`, name, parameters, conditions, braces. -/
  | enumerationItem
  /-- Attributes, name, fields, `=` and value. -/
  | variantItem
  /-- Attributes, visibility, words, `trait`, name, parameters, colon and bounds,
  conditions, braces. -/
  | traitItem
  /-- Attributes, visibility, `trait`, name, parameters, `=`, bounds, conditions,
  `;`. -/
  | traitAlias
  /-- Attributes, words, `impl`, parameters, `!` and trait and `for`, type,
  conditions, braces. -/
  | implementation
  /-- Attributes, path, `!`, name, group, `;`. -/
  | macroItem
  /-- Attributes, visibility, `unsafe`, `mod`, name, braces or `;`. -/
  | moduleItem
  deriving DecidableEq, Repr, Inhabited

/-- How tightly an operator binds. -/
inductive Precedence
  | least
  | assign
  | range
  | or
  | and
  | binds
  | compare
  | bitOr
  | bitXor
  | bitAnd
  | shift
  | sum
  | product
  | cast
  deriving DecidableEq, Repr, Inhabited

namespace Precedence

/-- The place among the precedences, the loosest first. -/
def rank : Precedence → Nat
  | least => 0
  | assign => 1
  | range => 2
  | or => 3
  | and => 4
  | binds => 5
  | compare => 6
  | bitOr => 7
  | bitXor => 8
  | bitAnd => 9
  | shift => 10
  | sum => 11
  | product => 12
  | cast => 13

/-- The binary operators, those first that others begin with. -/
def operators : List (String × Precedence) :=
  [("+=", assign), ("-=", assign), ("*=", assign), ("/=", assign), ("%=", assign), ("^=", assign),
   ("&=", assign), ("|=", assign), ("<<=", assign), (">>=", assign), ("&&", and), ("||", or),
   ("<<", shift), (">>", shift), ("==", compare), ("<=", compare), ("!=", compare), (">=", compare),
   ("+", sum), ("-", sum), ("*", product), ("/", product), ("%", product), ("^", bitXor),
   ("&", bitAnd), ("|", bitOr), ("<", compare), (">", compare)]

/-- How tightly a binary operator binds. -/
def ofOperator (operator : String) : Precedence :=
  match operators.find? (·.1 = operator) with
  | some (_, p) => p
  | none => least

end Precedence

end RecordCoding
