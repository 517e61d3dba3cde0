/-
The layout of expressions.

A chain of fields and methods puts every dot on a line of its own where it does
not fit, and so goes a list in brackets with its elements; an operator goes to
the next line with its right side.

Design notes:

* A receiver with a short name keeps the first dot beside it where it begins a
  line.
* The body of an arm or a closure gets braces where it needs a line of its own,
  or parentheses if it would not be read whole behind a brace.
* A record is broken also where it fits but is wide.
-/
import RecordCoding.Layout.Nested

namespace RecordCoding

namespace Layout

open Doc

namespace Nested

/-! ### Lists -/

/-- An array: elements that are short literals fill their lines. -/
def array (n : Nested) (parts : List Code) : List Doc :=
  let list := Code.elements parts
  let simple (c : Code) : Bool :=
    match c.bare with
    | .node .literal [.word w] =>
      match w.toList with
      | '\'' :: _ => true
      | 'b' :: '\'' :: _ => true
      | _ => w = "true" || w = "false" || (Literal.whole? w).isSome
    | _ => false
  if list.isEmpty then [.text "[]"]
  else if list.all simple then
    [group step
      [.text "[", cut, fill 0 (List.intercalate [.text ",", space] (list.map n.code)),
        (listEnd 0).shifted (-step), .text "]"]]
  else Doc.list "[" "]" (list.map n.code)

/-- A tuple: a single element keeps its comma. -/
def tuple (n : Nested) (parts : List Code) : List Doc :=
  match Code.elements parts with
  | [c] => [.text "(", group step (cut :: n.code c ++ [.text ",", cut.shifted (-step)]), .text ")"]
  | list => Doc.list "(" ")" (list.map n.code)

/-- A field of a record. -/
def initializer (n : Nested) : Code → List Doc
  | .node .initializer [as, .word name, _, value] =>
    n.outer as ++ [.text (name ++ ": "), fill 0 (n.code value)]
  | .node .initializer [as, .word name] => n.outer as ++ [.text name]
  | _ => []

/-- The fields of a record, and what the others are taken from. -/
def initializers (n : Nested) : List Code → List Doc
  | [] => []
  | [.node .remainder [_, base]] =>
    if base.isAbsent then [] else .text ".." :: n.code base ++ [space]
  | [c] => n.initializer c ++ [listEnd 1]
  | [c, .node .remainder [_, base]] =>
    if base.isAbsent then n.initializer c ++ [listEnd 1]
    else n.initializer c ++ .text "," :: space :: .text ".." :: n.code base ++ [space]
  | c :: rest => n.initializer c ++ .text "," :: space :: n.initializers rest

/-- A record. -/
def record (n : Nested) (name : Ty) (parts : List Code) : List Doc :=
  let fields := n.initializers (Code.elements parts)
  [groupWithin 34 step
    (fill (-step) (expressionPathWith n.code name) :: .text " \x7b"
      :: shiftedLast (-step) (spaceUnlessLast :: fields)),
    .text "\x7d"]

/-! ### Behind an operand -/

/-- A method behind its dot. -/
def method (n : Nested) (name : String) (generic arguments : Code) (indent : Int) : List Doc :=
  .text ("." ++ name)
    :: (match generic with
        | .arguments list => stepArgumentsWith n.code .expression list
        | _ => [])
    ++ [group indent (n.callArguments arguments)]

/-- An expression in front of a dot, a call or an index. -/
def ofSubject (n : Nested) (first : Bool) : Code → List Doc
  | .node .await [base, _, _] => n.subject first base ++ dotBreak first base ++ [.text ".await"]
  | .node .call [f, arguments] => n.subject false f ++ n.callArguments arguments
  | .node .field [base, _, .word name] =>
    n.subject first base ++ dotBreak first base ++ [.text ("." ++ name)]
  | .node .index [base, .group _ [i]] =>
    n.subject first base ++ .text "[" :: n.code i ++ [.text "]"]
  | .node .methodCall [base, _, .word name, generic, arguments] =>
    n.subject first base ++ dotBreak first base ++ n.method name generic arguments 0
  | .node .propagation [c, _] => n.subject first c ++ [.text "?"]
  | c => [group (-step) (n.code c)]

/-! ### Operators -/

/-- An operator between its operands. -/
def infixed (n : Nested) (left : Code) (operator : String) (right : List Doc) : List Doc :=
  [fill step (fill (-step) (n.code left) :: space :: .text (operator ++ " ") :: right)]

/-- A word and what may stand behind it. -/
def valued (n : Nested) (word : String) (parts : List Code) : List Doc :=
  .text word
    :: parts.flatMap fun
        | .word l => [.text (" " ++ l)]
        | c => if c.isAbsent then [] else .text " " :: n.code c

/-- Something that may have been left out. -/
def orNothing (n : Nested) (c : Code) : List Doc := if c.isAbsent then [] else n.code c

/-! ### Closures -/

/-- The body of a closure or an arm, in brackets where it needs a line of its
own. -/
def wrapped (n : Nested) (inArm comma : Bool) (body : Code) : Doc :=
  let braces := standsAsStatement body
  let opening := Doc.break { Break.ofBlank 0 with before := if braces then "\x7b" else "(" }
  let closing :=
    Doc.break
      { Break.ofBlank 0 with
        offset := -step
        before := if braces && addsSemicolon body then ";" else ""
        after := if braces then "\x7d" else if inArm then ")," else ")"
        unbroken := if comma then "," else "" }
  group step (opening :: n.expression inArm body ++ [closing])

/-- Whether the body of a closure gets braces where it needs a line of its
own. -/
def wrapsBody (body : Code) : Bool :=
  match body with
  | .node .choice _ => false
  | .node .call _ => false
  | body => !isBracketed body

/-- A closure, given the words in front of it, its parameters, its result and
its body. -/
def closure (n : Nested) (front : List Doc) (parameters : List Code) (result body : Code) :
    List Doc :=
  let list := (Code.elements parameters).map n.pattern
  let inside := if list.isEmpty then [] else cut :: List.intercalate [.text ",", space] list
  match result with
  | .node .sequence [_, .type t] =>
    let ending := if list.isEmpty then [] else [(listEnd 0).shifted (-step)]
    [fill 0
      (front ++ group step (.text "|" :: inside ++ ending ++ [.text "|"])
        :: .text " -> " :: n.ty t ++ .text " " :: Doc.bound :: n.code body)]
  | _ =>
    let content := if wrapsBody body then [n.wrapped false false body] else n.code body
    [fill 0
      (front ++ group step (.text "|" :: inside ++ [.text "|", space.shifted (-step)])
        :: Doc.bound :: content)]

/-- The words in front of a closure. -/
def closureFront (n : Nested) (b marksOf : Code) : List Doc :=
  (match b with
    | .binder b => binderWith n.code b
    | _ => [])
    ++ match marksOf with
       | .node .sequence ws => marks ws
       | _ => []

/-! ### Choices -/

/-- What an arm stands for: blocks of a single expression are left out, and the
empty tuple is an empty block. -/
def armBody : Code → Code
  | .node .block [.node .absent [], .group .brace [.node .expressionStatement [c, .node .absent []]]] =>
    armBody c
  | .node .tuple [.group _ []] => .node .block [.absent, .group .brace []]
  | c => c

/-- An arm. -/
def arm (n : Nested) (p guard body : Code) : Doc :=
  let test :=
    match guard with
    | .node .sequence [_, g] => .text " if " :: n.code g
    | _ => []
  let body := armBody body
  let content :=
    match body.bare with
    | .node .block [l, content] => label l ++ .text "\x7b" :: Doc.bound :: n.longBlock content
    | _ => [Doc.bound, n.wrapped true (!body.isBlockLike) body]
  fill 0 (n.pattern p ++ test ++ .text " => " :: content)

/-- The arms of a choice, and the attributes in front of them. -/
def arms (n : Nested) (parts : List Code) : List Doc :=
  parts.flatMap fun
    | .node .arm [as, p, guard, _, body, _] => n.outer as ++ [n.arm p guard body, newline]
    | c => oneAttribute n.code c

/-! ### Conditions and loops -/

/-- A condition, what happens if it holds, and what stands behind `else`. -/
def conditional (n : Nested) (c then' next : Code) : List Doc :=
  let front := [Doc.text "if ", group (-step) [n.condition c]]
  match then' with
  | .group _ parts =>
    if next.isAbsent then
      let content :=
        if parts.isEmpty then [Doc.text "\x7b\x7d"]
        else
          .text "\x7b" :: shiftedLast (-step) (newline :: n.lines parts) ++ [.text "\x7d"]
      front ++ content
    else front ++ n.smallBlock parts ++ .text " else " :: n.otherwise next
  | _ => front

/-- What stands behind an `else`. -/
def ofOtherwise (n : Nested) : Code → List Doc
  | .node .conditional [_, c, .group _ parts, _, next] =>
    [Doc.text "if ", group (-step) [n.condition c]] ++ n.smallBlock parts
      ++ if next.isAbsent then [] else .text " else " :: n.otherwise next
  | .node .block [_, .group _ parts] => n.smallBlock parts
  | _ => []

/-! ### Expressions -/

/-- An expression; the flag says that it begins a line. -/
def ofExpression (n : Nested) (first : Bool) : Code → List Doc
  | .node .attributed [as, c] => n.outer as ++ n.expression first c
  | .node .literal ws => [.text (String.join (ws.map fun c => Token.textOf c.tokens))]
  | .node .path [.type t] => expressionPathWith n.code t
  | .node .macroCall [.type (.path p), _, .raw [.group d body]] =>
    plainPath p ++ .text "!" :: macroGroup d body
  | .node .wildcard _ => [.text "_"]
  | .node .parenthesized [.group _ [c]] => .text "(" :: n.code c ++ [.text ")"]
  | .node .tuple [.group _ parts] => n.tuple parts
  | .node .array [.group _ parts] => n.array parts
  | .node .repetition [.group _ [c, _, length]] =>
    .text "[" :: n.code c ++ .text "; " :: n.code length ++ [.text "]"]
  | .node .record [.type t, .group _ parts] => n.record t parts
  | .node .call [f, arguments] => n.expression first f ++ n.callArguments arguments
  | .node .index [base, .group _ [i]] =>
    n.expression first base ++ .text "[" :: n.code i ++ [.text "]"]
  | .node .propagation [c, _] => n.expression first c ++ [.text "?"]
  | .node .methodCall [base, _, .word name, generic, arguments] =>
    let indent := if first && isShortName base then -step else 0
    [group step
      (n.subject first base ++ dotBreak first base ++ n.method name generic arguments indent)]
  | c@(.node .field _) => [group step (n.ofSubject first c)]
  | c@(.node .await _) => [group step (n.ofSubject first c)]
  | .node .unary [.word operator, c] => .text operator :: n.code c
  | .node .reference [_, mark, c] => .text "&" :: marks [mark] ++ n.code c
  | .node .rawReference [_, _, mark, c] => .text "&raw " :: marks [mark] ++ n.code c
  | .node .cast [c, _, .type t] => n.infixed c "as" (n.ty t)
  | .node .binary [l, .word operator, r] => n.infixed l operator (n.code r)
  | .node .assignment [l, _, r] => [fill 0 (n.code l ++ .text " = " :: Doc.bound :: n.code r)]
  | .node .range [a, .word dots, b] => n.orNothing a ++ .text dots :: n.orNothing b
  | .node .condition [_, p, _, value] =>
    .text "let " :: n.pattern p ++ .text " = " :: Doc.bound :: n.code value
  | .node .closure [b, ws, _, .node .sequence parameters, _, result, body] =>
    n.closure (n.closureFront b ws) parameters result body
  | .node .break parts => n.valued "break" (parts.drop 1)
  | .node .continue parts => n.valued "continue" (parts.drop 1)
  | .node .return parts => n.valued "return" (parts.drop 1)
  | .node .yield parts => n.valued "yield" (parts.drop 1)
  | .node .block [l, b] => label l ++ n.blockBox b
  | .node .unsafeBlock [_, b] => .text "unsafe " :: n.blockBox b
  | .node .constBlock [_, b] => .text "const " :: n.blockBox b
  | .node .tryBlock [_, b] => .text "try " :: n.blockBox b
  | .node .asyncBlock [_, mark, b] => .text "async " :: marks [mark] ++ n.blockBox b
  | .node .conditional [_, c, then', _, next] => [group step (n.conditional c then' next)]
  | .node .choice [_, subject, .group _ parts] =>
    [fill 0
      (.text "match " :: n.condition subject :: .text "\x7b" :: Doc.bound
        :: bracesOpen (n.arms parts))]
  | .node .whileLoop [l, _, c, b] =>
    label l ++ .text "while " :: n.condition c :: .text "\x7b" :: Doc.bound :: n.longBlock b
  | .node .forLoop [l, _, p, _, source, b] =>
    [fill 0
      (label l ++ .text "for " :: n.pattern p ++ .text " in " :: Doc.bound :: n.condition source
        :: .text "\x7b" :: Doc.bound :: n.longBlock b)]
  | .node .loop [l, _, b] => label l ++ .text "loop \x7b" :: n.longBlock b
  | c => [.text (Token.textOf c.tokens)]

end Nested

end Layout

end RecordCoding
