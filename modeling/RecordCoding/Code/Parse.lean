/-
Whole texts: a type, a path, attributes, a visibility, a declaration, an item or
a source file from its text, and items from code that has no text.

`Inner.ofDepth` ties the knot between the parsers, each of which takes those for
what lies one level further in.

Design notes:

* A text is scanned to its end before anything in it is parsed, so a fault of
  scanning goes before all others.
* A level is spent only behind a token, so one more level than there are tokens
  is never used up.
-/
import RecordCoding.Code.Scan
import RecordCoding.Code.StatementParser

namespace RecordCoding

namespace Inner

/-- The parsers for so many levels. -/
def ofDepth : Nat → Inner
  | 0 =>
    { ty := fun _ => Parser.failExpected []
      bound := fun _ _ => Parser.failExpected []
      expression := fun _ => Parser.failExpected []
      operand := fun _ _ => Parser.failExpected []
      statementExpression := Parser.failExpected []
      pattern := Parser.failExpected []
      statements := Parser.failExpected []
      item := Parser.failExpected [] }
  | depth + 1 =>
    let below := ofDepth depth
    { ty := Parser.ty below
      bound := Parser.bound below
      expression := Parser.expression below
      operand := Parser.operand below
      statementExpression := Parser.statementExpression below
      pattern := Parser.pattern below
      statements := Parser.statements below
      item := Parser.item below }

/-- The parsers for as many levels as tokens can have. -/
def of (ts : List TokenTree) : Inner := ofDepth (TokenTree.sizeList ts + 1)

end Inner

/-- Read all of a scanned text. -/
def Parser.ofScan {α : Type} (r : Inner → Parser α) :
    Except Location (List TokenTree) → Except SyntaxError α
  | .error l => .error ⟨.lexical, false, l⟩
  | .ok ts => (r (Inner.of ts)).all Location.start ts

/-- A type from its text. -/
def Ty.parse (text : String) : Except SyntaxError Ty :=
  Parser.ofScan (fun inner => Parser.ty inner true) (TokenTree.scan text)

/-- A path from its text. -/
def Path.parse (text : String) : Except SyntaxError Path :=
  Parser.ofScan (fun inner => Parser.path inner false) (TokenTree.scan text)

/-- Attributes from their text. -/
def Attribute.parseAll (text : String) : Except SyntaxError (List Attribute) :=
  Parser.ofScan Parser.attributes (TokenTree.scan text)

/-- A visibility from its text. -/
def Visibility.parse (text : String) : Except SyntaxError Visibility :=
  Parser.ofScan (fun _ => Parser.visibility) (TokenTree.scan text)

/-- A declaration of a type from its text. -/
def TypeItem.parse (text : String) : Except SyntaxError TypeItem :=
  Parser.ofScan Parser.declaration (TokenTree.scan text)

/-- One item from its text. -/
def Item.parse (text : String) : Except SyntaxError Item :=
  Parser.ofScan (fun inner => Prod.fst <$> Parser.item inner) (TokenTree.scan text)

/-- The items that code without places is made of. -/
def Item.parseTokens (tokens : List Token) : Except SyntaxError (List Item) :=
  Parser.ofScan Parser.file (.ok (Token.treesOf tokens))

/-- The items of a source file. -/
def Item.parseFile (text : String) : Except SyntaxError (List Item) :=
  Parser.ofScan Parser.file (TokenTree.scanFile text)

end RecordCoding
