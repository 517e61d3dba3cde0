/-
The layout of statements.

Each statement ends with a line break. A semicolon that was left out behind
something like a `return` is added, and one behind a loop is left out.
-/
import RecordCoding.Layout.Patterns

namespace RecordCoding

namespace Layout

open Doc

namespace Nested

/-- A binding, given what stands behind its pattern. -/
def binding (n : Nested) (p annotation value otherwise : Code) : List Doc :=
  let typed :=
    match annotation with
    | .node .sequence [_, .type t] => .text ": " :: n.ty t
    | _ => []
  let given :=
    match value with
    | .node .sequence [_, c] => .text " = " :: Doc.bound :: n.code c
    | _ => []
  let front := .text "let " :: n.pattern p ++ typed ++ given
  match otherwise with
  | .node .sequence [_, .node .block [_, .group _ parts]] =>
    [fill 0 (front ++ [space, .text "else "]), Doc.bound, group step (n.smallBlock parts),
      .text ";", newline]
  | _ => [fill 0 front, .text ";", newline]

/-- A statement with the line break behind it. -/
def ofStatement (n : Nested) : Code → List Doc
  | .node .attributed [as, c] => n.outer as ++ n.statement c
  | .node .binding [_, p, annotation, value, otherwise, _] =>
    n.binding p annotation value otherwise
  | .node .expressionStatement [c, mark] =>
    let closed := if mark.isAbsent then addsSemicolon c else !dropsSemicolon c
    [fill 0 (n.expression true c ++ if closed then [.text ";"] else []), newline]
  | .node .macroStatement [c, mark] =>
    n.code c ++ (if mark.isAbsent || c.bracedCall then [] else [.text ";"]) ++ [newline]
  | .node .emptyStatement _ => []
  | c => n.item c

end Nested

end Layout

end RecordCoding
