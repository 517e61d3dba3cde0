/-
Laying out text in lines.

A `Doc` is text with places where a line may be broken, grouped in boxes. A box
that fits into what is left of its line is printed on it. Otherwise its breaks
are: all of them if it is consistent, and if it is not, those behind which the
text up to the next break does not fit.

Design notes:

* What has to fit is measured up to the next possible break outside the box, so
  every doc is printed with the width of what `following` finds behind it.
* A hard break is one of a width that fits nowhere.
* Spaces are printed only in front of text, so no line ends in one.
* Widths are counted in bytes of UTF-8.
-/

namespace RecordCoding

namespace Layout

/-- A place where a line may be broken. -/
structure Break where
  /-- Its width where the line is not broken. -/
  blank : Nat
  /-- What the next line is indented by, beside its box. -/
  offset : Int
  /-- Printed in front of a line break. -/
  before : String
  /-- Printed at the start of the new line. -/
  after : String
  /-- Printed where the line is not broken. -/
  unbroken : String
  /-- The line is never broken here; the break only ends what is measured. -/
  never : Bool
  /-- Dropped at the end of its box. -/
  optional : Bool
  deriving DecidableEq, Repr, Inhabited

namespace Break

/-- A break of a given width. -/
def ofBlank (blank : Nat) : Break := ⟨blank, 0, "", "", "", false, false⟩

end Break

/-- Text with places where lines may be broken. -/
inductive Doc
  | text (s : String)
  | break (b : Break)
  /-- A box: whether its breaks go together, what it indents by, what it holds,
  and what its width is taken to be enlarged by. -/
  | box (consistent : Bool) (indent : Int) (content : List Doc) (extra : Nat)
  deriving Inhabited

/-- The width that fits nowhere. -/
def unlimited : Nat := 0xffff

/-- The width of a line. -/
def lineWidth : Int := 89

/-- The width that every line is allowed beyond its indentation. -/
def leastWidth : Int := 60

/-- The indentation of one level. -/
def step : Int := 4

namespace Doc

/-! ### Building -/

/-- A break that is nothing where the line goes on. -/
def cut : Doc := .break (.ofBlank 0)

/-- A space or a line break. -/
def space : Doc := .break (.ofBlank 1)

/-- A line break. -/
def newline : Doc := .break (.ofBlank unlimited)

/-- A line break unless nothing follows it in its box. -/
def newlineUnlessLast : Doc := .break { Break.ofBlank unlimited with optional := true }

/-- A space or a line break unless nothing follows it in its box. -/
def spaceUnlessLast : Doc := .break { Break.ofBlank 1 with optional := true }

/-- What ends the measuring of what stands in front of it. -/
def bound : Doc := .break { Break.ofBlank 0 with never := true }

/-- The end of a list: a comma where the line is broken. -/
def listEnd (blank : Nat) : Doc := .break { Break.ofBlank blank with before := "," }

/-- A break with another offset. -/
def shifted (offset : Int) : Doc → Doc
  | .break b => .break { b with offset := b.offset + offset }
  | d => d

/-- The last of some docs with another offset. -/
def shiftedLast (offset : Int) (ds : List Doc) : List Doc :=
  match ds.reverse with
  | d :: before => before.reverse ++ [d.shifted offset]
  | [] => []

/-- What is left of the content of a box: nothing of a single break, and no
optional break at the end. -/
def trimmed (ds : List Doc) : List Doc :=
  match ds with
  | [.break _] => []
  | ds =>
    match ds.getLast? with
    | some (.break b) => if b.optional then ds.dropLast else ds
    | _ => ds

/-- A box whose breaks go together. -/
def group (indent : Int) (ds : List Doc) : Doc := box true indent (trimmed ds) 0

/-- A box whose breaks are broken one by one. -/
def fill (indent : Int) (ds : List Doc) : Doc := box false indent (trimmed ds) 0

/-! ### Measuring -/

mutual

/-- The width on one line. -/
def width : Doc → Nat
  | .text s => s.utf8ByteSize
  | .break b => b.blank
  | .box _ _ content extra => widthOf content + extra

def widthOf : List Doc → Nat
  | [] => 0
  | d :: rest => d.width + widthOf rest

end

/-- The width of docs up to the next break, or up to their end and what follows
it. -/
def following (after : Nat) : List Doc → Nat
  | [] => after
  | .break _ :: _ => 0
  | d :: rest => d.width + following after rest

/-- A box whose breaks go together, and are broken also where it is wider than a
limit. -/
def groupWithin (limit : Nat) (indent : Int) (ds : List Doc) : Doc :=
  let content := trimmed ds
  if widthOf ds > limit then box true indent ds unlimited else box true indent content 0

end Doc

/-! ### Printing -/

/-- What has been printed, and where the next text goes. -/
structure Page where
  printed : String
  /-- What is left of the line. -/
  room : Int
  indent : Int
  /-- Spaces that have not been printed yet. -/
  pending : Nat
  deriving Inhabited

/-- How the breaks of the box around are treated. -/
inductive Mode
  | flat
  | allBroken
  | oneByOne
  deriving DecidableEq, Repr, Inhabited

namespace Page

def empty : Page := ⟨"", lineWidth, 0, 0⟩

/-- Print the spaces that are due. -/
def settle (p : Page) : Page :=
  { p with printed := p.printed ++ String.ofList (List.replicate p.pending ' '), pending := 0 }

/-- Print text. -/
def write (s : String) (p : Page) : Page :=
  let p := p.settle
  { p with printed := p.printed ++ s, room := p.room - s.utf8ByteSize }

/-- Print a break that `size` more bytes stand behind, itself included. -/
def breakAt (mode : Mode) (b : Break) (size : Nat) (p : Page) : Page :=
  let fits :=
    b.never
      || match mode with
         | .flat => true
         | .allBroken => false
         | .oneByOne => (size : Int) ≤ p.room
  if fits then
    let p := { p with pending := p.pending + b.blank, room := p.room - b.blank }
    { p with printed := p.printed ++ b.unbroken, room := p.room - b.unbroken.utf8ByteSize }
  else
    let p := if b.before.isEmpty then p else { p.settle with printed := p.settle.printed ++ b.before }
    let indent := p.indent + b.offset
    let p :=
      { p with
        printed := p.printed ++ "\n"
        pending := indent.toNat
        room := max (lineWidth - indent) leastWidth }
    if b.after.isEmpty then p else p.write b.after

end Page

namespace Doc

mutual

/-- Print a doc that so many bytes follow up to the next break. -/
def print (mode : Mode) (after : Nat) : Doc → Page → Page
  | .text s, p => p.write s
  | .break b, p => p.breakAt mode b (b.blank + after)
  | .box consistent indent content extra, p =>
    if ((widthOf content + extra + after : Nat) : Int) > p.room then
      let inner : Mode := if consistent then .allBroken else .oneByOne
      let q := printAll inner (extra + after) content { p with indent := p.indent + indent }
      { q with indent := p.indent }
    else printAll .flat (extra + after) content p

/-- Print docs one after the other. -/
def printAll (mode : Mode) (after : Nat) : List Doc → Page → Page
  | [], p => p
  | d :: rest, p => printAll mode after rest (d.print mode (following after rest) p)

end

/-- A doc laid out in lines. -/
def pretty (d : Doc) : String := (d.print .flat 0 Page.empty).printed

/-! ### Lists -/

/-- Elements with commas between them and the end of a list behind them. -/
def commaSeparated (blank : Nat) : List (List Doc) → List Doc
  | [] => []
  | [ds] => ds ++ [listEnd blank]
  | ds :: rest => ds ++ .text "," :: space :: commaSeparated blank rest

/-- The inside of brackets: a list on one line, or with an element on each. -/
def listBox (indent : Int) (elements : List (List Doc)) : Doc :=
  group indent (shiftedLast (-step) (cut :: commaSeparated 0 elements))

/-- A list in brackets. -/
def list (opening closing : String) (elements : List (List Doc)) : List Doc :=
  [.text opening, listBox step elements, .text closing]

end Doc

end Layout

end RecordCoding
