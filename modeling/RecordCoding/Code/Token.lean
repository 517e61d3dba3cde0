/-
Tokens of Rust code, with and without their place in a text.

A `TokenTree` is what scanning a text gives: identifiers, lifetimes, single
punctuation characters, literals and bracketed groups, each with its location.
A `Token` is what code shows once places are forgotten: a word or a group of
words. Generated code is a list of `Token`s from the start, and `Token.treesOf` is
what scanning it would give.

Design notes:

* An operator of several characters is one word of a `Token` list, but several
  punctuation trees, because `>>` may close two lists of generic arguments.
  A tree remembers whether the next character joins it.
* An identifier keeps its name apart from the mark `r#` of a raw one: names are
  compared with the mark, and keys are named without it.
* Which kind of token a word is shows in its first character, and in the quotation
  marks of a literal. Operators that were copied as they stood may be glued to a
  lifetime behind them.
-/

namespace RecordCoding

/-- A place in a text; line and column count from one. -/
structure Location where
  line : Nat
  column : Nat
  deriving DecidableEq, Repr, Inhabited

namespace Location

/-- Where a text begins. -/
def start : Location := ⟨1, 1⟩

/-- The place behind a character. -/
def past (l : Location) (c : Char) : Location :=
  if c = '\n' then ⟨l.line + 1, 1⟩ else ⟨l.line, l.column + 1⟩

/-- The place of the last character of a text that begins here. -/
def ofLast (l : Location) (text : List Char) : Location := text.dropLast.foldl past l

end Location

/-- An identifier. -/
structure Ident where
  /-- The name without the mark of a raw identifier. -/
  name : String
  raw : Bool
  location : Location
  deriving DecidableEq, Repr, Inhabited

namespace Ident

/-- An identifier as it is written. -/
def spelled (i : Ident) : String := if i.raw then "r#" ++ i.name else i.name

/-- A plain identifier with a given name, of no particular place. -/
def plain (name : String) : Ident := ⟨name, false, Location.start⟩

/-- The identifier that is written in a given way, of no particular place. -/
def ofSpelling (text : String) : Ident :=
  match text.toList with
  | 'r' :: '#' :: name => ⟨String.ofList name, true, Location.start⟩
  | _ => plain text

end Ident

/-- The brackets of a group. -/
inductive Delimiter
  | parenthesis
  | bracket
  | brace
  deriving DecidableEq, Repr, Inhabited

/-- A token of a scanned text. -/
inductive TokenTree
  | ident (i : Ident)
  /-- A lifetime; the name includes the apostrophe. -/
  | lifetime (name : String) (location : Location)
  /-- A punctuation character, and whether the next token joins it without a
  space. -/
  | punct (c : Char) (joint : Bool) (location : Location)
  | literal (text : String) (location : Location)
  | group (delimiter : Delimiter) (body : List TokenTree) (opening closing : Location)
  deriving Inhabited

namespace TokenTree

/-- Where a token begins. -/
def location : TokenTree → Location
  | ident i => i.location
  | lifetime _ l => l
  | punct _ _ l => l
  | literal _ l => l
  | group _ _ opening _ => opening

mutual

/-- How many tokens there are, at any depth; a group counts for its two
brackets. -/
def size : TokenTree → Nat
  | .group _ body _ _ => sizeList body + 2
  | _ => 1

def sizeList : List TokenTree → Nat
  | [] => 0
  | t :: rest => t.size + sizeList rest

end

mutual

/-- The token, and everything in it, moved onto a stretch of another text:
every token begins where the stretch does, and every group closes at its last
character. -/
def movedTo (first last : Location) : TokenTree → TokenTree
  | .ident i => .ident { i with location := first }
  | .lifetime name _ => .lifetime name first
  | .punct c joint _ => .punct c joint first
  | .literal text _ => .literal text first
  | .group d body _ _ => .group d (movedListTo first last body) first last

def movedListTo (first last : Location) : List TokenTree → List TokenTree
  | [] => []
  | t :: rest => t.movedTo first last :: movedListTo first last rest

end

end TokenTree

/-- A token without a place. -/
inductive Token
  /-- An identifier, a literal, a lifetime or an operator. -/
  | word (text : String)
  | group (delimiter : Delimiter) (body : List Token)
  deriving Inhabited, Repr

namespace Token

mutual

/-- The text of a token. -/
def text : Token → String
  | .word w => w
  | .group .parenthesis body => "(" ++ textOf body ++ ")"
  | .group .bracket body => "[" ++ textOf body ++ "]"
  | .group .brace [] => "\x7b \x7d"
  | .group .brace body => "\x7b " ++ textOf body ++ " \x7d"

/-- The text of a list of tokens: one space between two of them. -/
def textOf : List Token → String
  | [] => ""
  | [t] => t.text
  | t :: rest => t.text ++ " " ++ textOf rest

end

mutual

/-- How many tokens there are in a token, itself included. -/
def size : Token → Nat
  | word _ => 1
  | group _ body => count body + 1

/-- How many tokens there are, at any depth. -/
def count : List Token → Nat
  | [] => 0
  | t :: rest => t.size + count rest

end

/-- Words one after the other. -/
def words (ws : List String) : List Token := ws.map word

/-- The token of an identifier. -/
def ident (i : Ident) : Token := word i.spelled

/-- Lists of tokens with a token between two of them. -/
def joined (separator : Token) : List (List Token) → List Token
  | [] => []
  | [ts] => ts
  | ts :: rest => ts ++ separator :: joined separator rest

/-- Lists of tokens with a token between two of them, and behind the last one if
it was written there. -/
def separated (separator : Token) (trailing : Bool) (parts : List (List Token)) : List Token :=
  joined separator parts ++ if trailing && !parts.isEmpty then [separator] else []

end Token

namespace TokenTree

/-- A punctuation character glued to what follows it. -/
def glue (c : Char) : List Token → List Token
  | .word w :: rest => .word (String.singleton c ++ w) :: rest
  | ts => .word (String.singleton c) :: ts

mutual

/-- A scanned token put in front of tokens, as it stands in its text. -/
def onto (rest : List Token) : TokenTree → List Token
  | .ident i => Token.ident i :: rest
  | .lifetime name _ => .word name :: rest
  | .punct c true _ => glue c rest
  | .punct c false _ => .word (String.singleton c) :: rest
  | .literal text _ => .word text :: rest
  | .group d body _ _ => .group d (tokens body) :: rest

/-- Scanned tokens as they stand in their text. -/
def tokens : List TokenTree → List Token
  | [] => []
  | t :: rest => t.onto (tokens rest)

end

end TokenTree

namespace Token

/-! ### Code as it would be scanned -/

/-- Whether a name may begin with a character. -/
def opensName (c : Char) : Bool := c.isAlpha || c = '_' || 127 < c.toNat

/-- The trees of a word with the given characters. A character of an operator is
joined by whatever stands behind it. -/
def treesFrom (w : String) : List Char → List TokenTree
  | [] => []
  | c :: rest =>
    let quoted := rest.contains '"' || rest.contains '\''
    if c.isDigit || c = '"' || (quoted && (c = '\'' || opensName c)) then [.literal w .start]
    else if c = '\'' then [.lifetime w .start]
    else if opensName c then [.ident (.ofSpelling w)]
    else .punct c (!rest.isEmpty) .start :: treesFrom (String.ofList rest) rest

/-- The trees of a word. -/
def wordTrees (w : String) : List TokenTree := treesFrom w w.toList

mutual

/-- The trees of a token; all of them stand at the start. -/
def trees : Token → List TokenTree
  | word w => wordTrees w
  | group d body => [.group d (treesOf body) .start .start]

/-- The trees of tokens that follow on each other. -/
def treesOf : List Token → List TokenTree
  | [] => []
  | t :: rest => t.trees ++ treesOf rest

end

end Token

end RecordCoding
