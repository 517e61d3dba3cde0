/-
The layout of patterns.

Design notes:

* Alternatives go to lines of their own all together, unless they are all
  literals or underscores.
* A record pattern is broken only where it does not fit.
-/
import RecordCoding.Layout.Expressions

namespace RecordCoding

namespace Layout

open Doc

namespace Nested

/-- Alternatives, without the `|` in front of the first. -/
def alternatives (n : Nested) (list : List Code) : List Doc :=
  let cases := list.filter fun
    | .word _ => false
    | c => !c.isAbsent
  let simple (c : Code) : Bool := c.construct? = some .literal || c.construct? = some .wildcard
  let content := List.intercalate [space, .text "| "] (cases.map n.pattern)
  [if cases.all simple then fill 0 content else group 0 content]

/-- A field of a record pattern. -/
def fieldPattern (n : Nested) : Code → List Doc
  | .node .fieldPattern [as, .word name, _, p] =>
    n.outer as ++ .text (name ++ ": ") :: n.pattern p
  | .node .fieldPattern [as, p] => n.outer as ++ n.pattern p
  | _ => []

/-- Whether a part of a record pattern stands for the other fields. -/
def isRest (c : Code) : Bool := c.bare.construct? = some .restPattern

/-- The fields of a record pattern. -/
def fieldPatterns (n : Nested) : List Code → List Doc
  | [] => []
  | [c] => if isRest c then n.pattern c ++ [space] else n.fieldPattern c ++ [listEnd 1]
  | c :: rest => n.fieldPattern c ++ .text "," :: space :: n.fieldPatterns rest

/-- A tuple of patterns: a single one has a comma if it was written. -/
def tuplePattern (n : Nested) (parts : List Code) : List Doc :=
  match Code.elements parts with
  | [c] =>
    let comma := if parts.length > 1 then [Doc.text ","] else []
    [.text "(", group step (cut :: n.pattern c ++ comma ++ [cut.shifted (-step)]), .text ")"]
  | list => Doc.list "(" ")" (list.map n.pattern)

/-- A pattern. -/
def ofPattern (n : Nested) : Code → List Doc
  | .node .attributed [as, c] => n.outer as ++ n.pattern c
  | .node .namePattern [byReference, mutable, .word name, mark, sub] =>
    marks [byReference, mutable] ++ .text name
      :: if mark.isAbsent then [] else .text " @ " :: n.pattern sub
  | .node .alternatives list => n.alternatives list
  | .node .parenthesizedPattern [.group _ [c]] => .text "(" :: n.pattern c ++ [.text ")"]
  | .node .tuplePattern [.group _ parts] => n.tuplePattern parts
  | .node .tupleRecordPattern [.type t, .group _ parts] =>
    expressionPathWith n.code t ++ Doc.list "(" ")" ((Code.elements parts).map n.pattern)
  | .node .recordPattern [.type t, .group _ parts] =>
    [group step
      (expressionPathWith n.code t ++ .text " \x7b"
        :: shiftedLast (-step) (spaceUnlessLast :: n.fieldPatterns (Code.elements parts))),
      .text "\x7d"]
  | .node .slicePattern [.group _ parts] =>
    .text "[" :: commaSeparated 0 ((Code.elements parts).map n.pattern) ++ [.text "]"]
  | .node .referencePattern [_, mark, c] => .text "&" :: marks [mark] ++ n.pattern c
  | .node (.openRange _) [a, .word dots, b] => n.orNothing a ++ .text dots :: n.orNothing b
  | .node .restPattern _ => [.text ".."]
  | .node .typedPattern [p, _, .type t] => n.pattern p ++ .text ": " :: n.ty t
  | c => n.code c

end Nested

end Layout

end RecordCoding
