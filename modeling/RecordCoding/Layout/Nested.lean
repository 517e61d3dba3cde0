/-
What the layout of code is put together from: the layouts of what lies one level
further in, conditions, blocks and lists of arguments.

Design notes:

* A block of a single expression stays on one line if it fits; every other one
  has a line for each statement.
* The brace behind a condition stays on its line, unless the condition may be
  broken itself: then it may go to a line of its own.
* What an expression is does not depend on the attributes in front of it, unless
  it would have to be a single argument.
-/
import RecordCoding.Layout.Terms

namespace RecordCoding

namespace Layout

open Doc

/-- The layouts of what lies one level further in. -/
structure Nested where
  /-- An expression; the flag says that it begins a line. -/
  expression : Bool → Code → List Doc
  /-- An expression in front of a dot, a call or an index. -/
  subject : Bool → Code → List Doc
  /-- What stands behind an `else`. -/
  otherwise : Code → List Doc
  /-- A pattern. -/
  pattern : Code → List Doc
  /-- A statement with the line break behind it. -/
  statement : Code → List Doc
  /-- An item with the line break behind it. -/
  item : Code → List Doc

/-! ### Kinds of expressions -/

/-- Whether an expression brings brackets of its own, so that a call needs no
others around it as its only argument. -/
def isBracketed (c : Code) : Bool :=
  match c.construct? with
  | some .array | some .asyncBlock | some .block | some .closure | some .constBlock
  | some .record | some .tryBlock | some .tuple | some .unsafeBlock => true
  | _ => false

/-- Whether a semicolon goes behind an expression at the end of a block. -/
def addsSemicolon (c : Code) : Bool :=
  match c.bare with
  | .node .assignment _ => true
  | .node .break _ => true
  | .node .continue _ => true
  | .node .return _ => true
  | .node .yield _ => true
  | .node .binary [_, .word operator, _] => Precedence.ofOperator operator = .assign
  | _ => false

/-- Whether no semicolon goes behind a statement even where it was written. -/
def dropsSemicolon : Code → Bool
  | .node .forLoop _ => true
  | .node .whileLoop _ => true
  | .node .attributed [_, c] => dropsSemicolon c
  | .node .conditional [_, _, _, _, next] => next.isAbsent || dropsSemicolon next
  | _ => false

/-- Whether a condition may be broken, and the brace behind it then stands on a
line of its own. -/
def breaksBeforeBrace : Code → Bool
  | .node .assignment _ => true
  | .node .await _ => true
  | .node .binary _ => true
  | .node .cast _ => true
  | .node .field _ => true
  | .node .index _ => true
  | .node .methodCall _ => true
  | .node .attributed [_, c] => breaksBeforeBrace c
  | .node .break [_, _, value] => breaksBeforeBrace value
  | .node .call [f, _] => breaksBeforeBrace f
  | .node .condition [_, _, _, value] => breaksBeforeBrace value
  | .node .parenthesized [.group _ [c]] => breaksBeforeBrace c
  | .node .range [_, _, last] => breaksBeforeBrace last
  | .node .rawReference [_, _, _, c] => breaksBeforeBrace c
  | .node .reference [_, _, c] => breaksBeforeBrace c
  | .node .return [_, value] => breaksBeforeBrace value
  | .node .propagation [c, _] => breaksBeforeBrace c
  | .node .unary [_, c] => breaksBeforeBrace c
  | .node .yield [_, value] => breaksBeforeBrace value
  | _ => false

/-- Whether an expression ends a statement with the braces it ends in. -/
def endsStatement (c : Code) : Bool := c.isBlockLike || c.bracedCall

/-- Whether an expression is still read whole where a statement may begin. -/
def standsAsStatement : Code → Bool
  | .node .attributed [_, c] => standsAsStatement c
  | .node .assignment [c, _, _] => !endsStatement c && standsAsStatement c
  | .node .binary [c, _, _] => !endsStatement c && standsAsStatement c
  | .node .cast [c, _, _] => !endsStatement c && standsAsStatement c
  | .node .call [c, _] => !endsStatement c && standsAsStatement c
  | .node .index [c, _] => !endsStatement c && standsAsStatement c
  | .node .range [c, _, _] => c.isAbsent || (!endsStatement c && standsAsStatement c)
  | .node .await [c, _, _] => standsAsStatement c
  | .node .field [c, _, _] => standsAsStatement c
  | .node .methodCall [c, _, _, _, _] => standsAsStatement c
  | .node .propagation [c, _] => standsAsStatement c
  | _ => true

/-- Whether an expression is a name so short that what follows a dot stays
beside it. -/
def isShortName : Code → Bool
  | .node .path [.type (.path p)] =>
    match p.name? with
    | some i => i.spelled.utf8ByteSize ≤ 4
    | none => false
  | _ => false

/-! ### Pieces -/

namespace Nested

/-- An expression that does not begin a line. -/
def code (n : Nested) (c : Code) : List Doc := n.expression false c

/-- A type. -/
def ty (n : Nested) (t : Ty) : List Doc := tyWith n.code t

/-- Attributes in front of something. -/
def outer (n : Nested) : Code → List Doc
  | .node .sequence list => attributes n.code list
  | _ => []

/-- A word, where it was written, and a space. -/
def marks (cs : List Code) : List Doc :=
  cs.filterMap fun
    | .word w => some (.text (w ++ " "))
    | _ => none

/-- Statements, with the attributes of what they belong to in front. -/
def lines (n : Nested) (parts : List Code) : List Doc :=
  parts.flatMap fun c =>
    if c.construct? = some .attributeMark then oneAttribute n.code c else n.statement c

/-- What braces hold, with a line for each part, and the closing brace. -/
def bracesOpen (content : List Doc) : List Doc :=
  [group step (shiftedLast (-step) (newlineUnlessLast :: content)), .text "\x7d"]

/-- A block that may stay on one line, within a box that indents. -/
def smallBlock (n : Nested) (parts : List Code) : List Doc :=
  match parts with
  | [] => [.text "\x7b\x7d"]
  | parts =>
    let isMark (c : Code) : Bool := c.construct? = some .attributeMark
    let content :=
      match parts.dropWhile isMark with
      | [.node .expressionStatement [c, .node .absent []]] =>
        n.lines (parts.takeWhile isMark) ++ [fill 0 (n.expression true c), space]
      | _ => n.lines parts
    .text "\x7b" :: shiftedLast (-step) (space :: content) ++ [.text "\x7d"]

/-- A block of its own that may stay on one line. -/
def blockBox (n : Nested) : Code → List Doc
  | .group _ parts => [group step (n.smallBlock parts)]
  | _ => []

/-- What a block holds, with a line for each statement, in a box of its own. -/
def longBlock (n : Nested) : Code → List Doc
  | .group _ parts => bracesOpen (n.lines parts)
  | _ => []

/-- The condition of a block, with what stands in front of the brace. -/
def condition (n : Nested) (c : Code) : Doc :=
  group 0 (n.code c ++ [if breaksBeforeBrace c then space else .text " "])

/-- A label with its colon. -/
def label : Code → List Doc
  | .node .sequence [.word l, _] => [.text (l ++ ": ")]
  | _ => []

/-- Expressions in parentheses behind what is called. A single one with brackets
of its own stands there without a break. -/
def callArguments (n : Nested) : Code → List Doc
  | .group _ parts =>
    let list := Code.elements parts
    match list with
    | [c] =>
      if isBracketed c then .text "(" :: n.code c ++ [.text ")"]
      else Doc.list "(" ")" [n.code c]
    | list => Doc.list "(" ")" (list.map n.code)
  | _ => []

/-- The break in front of a dot. -/
def dotBreak (first : Bool) (base : Code) : List Doc :=
  if first && isShortName base then [] else [cut]

end Nested

end Layout

end RecordCoding
