/-
The layout of attributes.

An attribute with text for documentation is printed as a comment again, on lines
of its own; every other one in brackets, with a break behind it.

Design notes:

* The value of an attribute is an expression, so the layout of code is given.
* A comment is only written where it would be read as the same text; else the
  attribute is left as it is.
-/
import RecordCoding.Code.Attribute
import RecordCoding.Code.Literal
import RecordCoding.Layout.Tokens

namespace RecordCoding

namespace Layout

open Doc

/-! ### Comments -/

/-- Text without the spaces at its end. -/
def withoutSpaces (s : List Char) : List Char := (s.reverse.dropWhile (· = ' ')).reverse

/-- The lines of a text. -/
def lines : List Char → List (List Char)
  | [] => [[]]
  | '\n' :: rest => [] :: lines rest
  | c :: rest =>
    match lines rest with
    | line :: more => (c :: line) :: more
    | [] => [[c]]

/-- Text whose lines, the last one aside, have no spaces at their ends. -/
def withoutInnerSpaces (s : List Char) : List Char :=
  let ls := lines s
  List.intercalate ['\n'] (ls.dropLast.map withoutSpaces ++ ls.getLast?.toList)

/-- Whether comments nest properly in a text, given how many are open. -/
def nests : Nat → List Char → Bool
  | depth, '/' :: '*' :: rest => nests (depth + 1) rest
  | depth, '*' :: '/' :: rest => depth ≠ 0 && nests (depth - 1) rest
  | depth, _ :: rest => nests depth rest
  | depth, [] => depth = 0

/-- Whether a text can stand in a block comment. -/
def fitsBlock (s : List Char) : Bool := nests 0 s && s.getLast? ≠ some '/'

/-- A text as a comment, given what opens a line, what opens a block, and the
characters that the text may not begin with in each. -/
def comment? (line block : String) (notLine notBlock : List Char) (s : List Char) : Option String :=
  let opensWith (cs : List Char) : Bool := (s.head?.map cs.contains).getD false
  if !s.contains '\n' && !opensWith notLine then some (line ++ String.ofList (withoutSpaces s))
  else if fitsBlock s && !opensWith notBlock then
    some (block ++ String.ofList (withoutInnerSpaces s) ++ "*/")
  else none

/-- The text that an attribute gives as its value. -/
def valueText? : List Code → Option (List Char)
  | [.word "=", .node .literal [.word literal]] =>
    (Literal.string? literal).map fun (s, _) => s.toList
  | _ => none

/-- The comment that an attribute stands for. -/
def commentOf? (inner : Bool) (p : Path) (content : List Code) : Option String := do
  let s ← valueText? content
  if p.isName "doc" then
    if inner then comment? "//!" "/*!" [] [] s else comment? "///" "/**" ['/'] ['*', '/'] s
  else if p.isName "comment" then comment? "//" "/*" [] ['*', '!'] s
  else none

/-- A line of documentation. -/
def documentationLine (s : String) : List Doc := [.text ("///" ++ s), newline]

/-! ### Attributes -/

/-- A path without arguments. -/
def plainPath (p : Path) : List Doc := [.text p.spelled]

/-- What follows the path of an attribute. -/
def attributeContent (code : Code → List Doc) : List Code → List Doc
  | [.word "=", value] => .text " = " :: code value
  | [.raw [.group d body]] => attributeGroup d body
  | _ => []

/-- An attribute. -/
def oneAttribute (code : Code → List Doc) : Code → List Doc
  | .node .attributeMark [_, mark, .group _ (.type (.path p) :: content)] =>
    let inner := !mark.isAbsent
    match commentOf? inner p content with
    | some s => [.text s, newline]
    | none =>
      .text (if inner then "#![" else "#[") :: plainPath p ++ attributeContent code content
        ++ [.text "]", space]
  | _ => []

/-- Attributes one after the other. -/
def attributes (code : Code → List Doc) (list : List Code) : List Doc := list.flatMap (oneAttribute code)

end Layout

end RecordCoding
