/-
The layout of types, paths, bounds and generics.

Every break of a type lies in a box of its own, so a type is a list of docs that
can stand anywhere. Lists in brackets put each element on a line of its own where
they do not fit; bounds go on behind a `+` on the next line.

Design notes:

* Code within a type is laid out by a function that is given, since code holds
  types again; `RecordCoding.Layout.Code` closes the circle.
* Arguments and parameters are printed with the lifetimes first.
* Empty lists of generic arguments are not printed. The `::` in front of others
  belongs to expressions, and a path that names a macro or an attribute has none.
-/
import RecordCoding.Code.Item
import RecordCoding.Layout.Attributes

namespace RecordCoding

namespace Layout

open Doc

/-! ### Lists -/

/-- Docs one after the other, each behind a separator but the first. -/
def joined (separator : String) : List (List Doc) → List Doc
  | [] => []
  | [ds] => ds
  | ds :: rest => ds ++ .text separator :: joined separator rest

/-- Bounds behind each other: each but the first on a line of its own if need
be. -/
def plusSeparated (opening : String) : List (List Doc) → List Doc
  | [] => []
  | ds :: rest => .text opening :: ds ++ rest.flatMap fun ds => space :: .text "+ " :: ds

/-- Elements with those that are lifetimes first. -/
def lifetimesFirst (elements : List (Bool × List Doc)) : List (List Doc) :=
  ((elements.filter (·.1)) ++ elements.filter (!·.1)).map (·.2)

/-- Elements of which the last stands for further ones: no comma goes behind
it. -/
def openList : List (List Doc) → List Doc
  | [] => []
  | [ds] => ds ++ [cut]
  | ds :: rest => ds ++ .text "," :: space :: openList rest

/-! ### Types -/

/-- What a path belongs to. -/
inductive PathPlace
  | type
  | expression
  deriving DecidableEq, Repr

/-- Whether a parameter stands for further arguments. -/
def isVariadic : Parameter → Bool
  | .mk _ _ .variadic => true
  | _ => false

mutual

/-- The layout of a type. -/
def tyWith (code : Code → List Doc) : Ty → List Doc
  | .path p => pathWith code .type p
  | .qualified subject through rest =>
    .text "<" :: tyWith code subject
      ++ (match through with
          | none => []
          | some p => .text " as " :: pathWith code .type p)
      ++ .text ">" :: stepsWith code .type rest
  | .reference lifetime mutable target =>
    .text ("&" ++ (match lifetime with
        | none => ""
        | some l => l ++ " ") ++ if mutable then "mut " else "")
      :: tyWith code target
  | .pointer mutable target =>
    .text (if mutable then "*mut " else "*const ") :: tyWith code target
  | .slice element => .text "[" :: tyWith code element ++ [.text "]"]
  | .array element length =>
    .text "[" :: tyWith code element ++ .text "; " :: code length ++ [.text "]"]
  | .tuple elements _ =>
    match elements with
    | [t] =>
      [.text "(", group step (cut :: tyWith code t ++ [.text ",", cut.shifted (-step)]), .text ")"]
    | elements => Doc.list "(" ")" (typesWith code elements)
  | .paren inner => .text "(" :: tyWith code inner ++ [.text ")"]
  | .group inner => tyWith code inner
  | .function b qualifiers list _ result =>
    let elements := parametersWith code list
    let content :=
      if (list.getLast?.map isVariadic).getD false then openList elements
      else commaSeparated 0 elements
    (match b with
      | none => []
      | some b => binderWith code b)
      ++ .text (" ".intercalate qualifiers ++ "(")
      :: group step (shiftedLast (-step) (cut :: content)) :: .text ")" :: returnedWith code result
  | .variadic => [.text "..."]
  | .never => [.text "!"]
  | .infer => [.text "_"]
  | .object _ list _ => .text "dyn " :: joined " + " (boundsWith code list)
  | .implementor list _ => .text "impl " :: joined " + " (boundsWith code list)
  | .call p delimiter body => plainPath p ++ .text "!" :: macroGroup delimiter body
  | .verbatim tokens => [.text (Token.textOf tokens)]

def typesWith (code : Code → List Doc) : List Ty → List (List Doc)
  | [] => []
  | t :: rest => tyWith code t :: typesWith code rest

/-- What a function returns, with the arrow. -/
def returnedWith (code : Code → List Doc) : Option Ty → List Doc
  | none => []
  | some t => .text " -> " :: tyWith code t

/-- The layout of a path. -/
def pathWith (code : Code → List Doc) (place : PathPlace) : Path → List Doc
  | .mk _ [] => []
  | .mk leading (s :: rest) =>
    (if leading then [.text "::"] else []) ++ segmentWith code place s ++ stepsWith code place rest

/-- Steps, each behind `::`. -/
def stepsWith (code : Code → List Doc) (place : PathPlace) : List Segment → List Doc
  | [] => []
  | s :: rest => .text "::" :: segmentWith code place s ++ stepsWith code place rest

def segmentWith (code : Code → List Doc) (place : PathPlace) : Segment → List Doc
  | .mk name list => .text name.spelled :: stepArgumentsWith code place list

/-- The arguments of a step. -/
def stepArgumentsWith (code : Code → List Doc) (place : PathPlace) : Arguments → List Doc
  | .none => []
  | .angle _ [] _ => []
  | .angle _ list _ =>
    (if place = .expression then [.text "::"] else [])
      ++ Doc.list "<" ">" (lifetimesFirst (argumentsWith code list))
  | .function list _ result =>
    [group step
      (.text "(" :: shiftedLast (-step) (cut :: commaSeparated 0 (typesWith code list))
        ++ .text ")" :: returnedWith code result)]

def argumentWith (code : Code → List Doc) : Argument → List Doc
  | .lifetime name => [.text name]
  | .type t => tyWith code t
  | .constant value => code value
  | .associatedType name t => segmentWith code .type name ++ .text " = " :: tyWith code t
  | .associatedConstant name value => segmentWith code .type name ++ .text " = " :: code value
  | .constraint name list _ =>
    segmentWith code .type name ++ [fill step (plusSeparated ": " (boundsWith code list))]

def argumentsWith (code : Code → List Doc) : List Argument → List (Bool × List Doc)
  | [] => []
  | a :: rest => (a.isLifetime, argumentWith code a) :: argumentsWith code rest

/-- The layout of a bound. -/
def boundWith (code : Code → List Doc) : Bound → List Doc
  | .lifetime name => [.text name]
  | .trait parenthesized b relaxed p =>
    (if parenthesized then [.text "("] else []) ++ (if relaxed then [.text "?"] else [])
      ++ (match b with
          | none => []
          | some b => binderWith code b)
      ++ pathWith code .type p ++ if parenthesized then [.text ")"] else []
  | .captures names _ => [.text ("use<" ++ ", ".intercalate names ++ ">")]
  | .verbatim tokens => [.text (Token.textOf tokens)]

def boundsWith (code : Code → List Doc) : List Bound → List (List Doc)
  | [] => []
  | b :: rest => boundWith code b :: boundsWith code rest

def parameterWith (code : Code → List Doc) : Parameter → List Doc
  | .mk list name t =>
    attributes code list
      ++ (match name with
          | none => []
          | some i => [.text (i.spelled ++ ": ")])
      ++ tyWith code t

def parametersWith (code : Code → List Doc) : List Parameter → List (List Doc)
  | [] => []
  | p :: rest => parameterWith code p :: parametersWith code rest

/-- A binder in front of a type or a trait. -/
def binderWith (code : Code → List Doc) : Binder → List Doc
  | .mk params _ => .text "for<" :: joined ", " (genericParamsWith code params) ++ [.text "> "]

/-- A generic parameter. -/
def genericParamWith (code : Code → List Doc) : GenericParam → List Doc
  | .lifetime list name outlives _ =>
    attributes code list
      ++ [.text (name ++ if outlives.isEmpty then "" else ": " ++ " + ".intercalate outlives)]
  | .type list name bounds _ fallback =>
    attributes code list
      ++ [.text name.spelled,
          fill step
            (plusSeparated ": " (boundsWith code bounds)
              ++ match fallback with
                 | none => []
                 | some t => space :: .text "= " :: tyWith code t)]
  | .constant list name t fallback =>
    attributes code list ++ .text s!"const {name.spelled}: " :: tyWith code t
      ++ match fallback with
         | none => []
         | some e => .text " = " :: code e

def genericParamsWith (code : Code → List Doc) : List GenericParam → List (List Doc)
  | [] => []
  | p :: rest => genericParamWith code p :: genericParamsWith code rest

end

/-- A path that is an expression or a pattern. -/
def expressionPathWith (code : Code → List Doc) : Ty → List Doc
  | .path p => pathWith code .expression p
  | .qualified subject through rest =>
    .text "<" :: tyWith code subject
      ++ (match through with
          | none => []
          | some p => .text " as " :: pathWith code .type p)
      ++ .text ">" :: stepsWith code .expression rest
  | t => tyWith code t

/-! ### Generics -/

/-- Generic parameters in angle brackets; nothing if there are none. -/
def genericsWith (code : Code → List Doc) (params : List GenericParam) : List Doc :=
  if params.isEmpty then []
  else
    [.text "<",
      listBox 0 (lifetimesFirst (params.map fun p => (p.isLifetime, genericParamWith code p))),
      .text ">"]

/-- A condition. -/
def predicateWith (code : Code → List Doc) : Predicate → List Doc
  | .lifetime name outlives _ =>
    [.text (name ++ ":"), fill step (plusSeparated " " (outlives.map fun l => [.text l]))]
  | .type b subject list _ =>
    (match b with
      | none => []
      | some b => binderWith code b)
      ++ tyWith code subject
      ++ [.text ":",
          fill (if list.length = 1 then 0 else step) (plusSeparated " " (boundsWith code list))]

/-- Conditions in front of a body, each on a line of its own. -/
def whereBody (code : Code → List Doc) (predicates : List Predicate) : List Doc :=
  if predicates.isEmpty then [.text " "]
  else
    [newline.shifted (-step), .text "where", newline]
      ++ shiftedLast (-step)
          (predicates.flatMap fun p => predicateWith code p ++ [.text ",", newline])

/-- Conditions at the end of an item. -/
def whereEnd (code : Code → List Doc) (predicates : List Predicate) : List Doc :=
  if predicates.isEmpty then [.text ";"]
  else
    [newline.shifted (-step), .text "where", newline]
      ++ List.intercalate [.text ",", newline] (predicates.map (predicateWith code))
      ++ [.text ";"]

/-- Conditions in front of a definition, on the same line if they fit. -/
def whereDefinition (code : Code → List Doc) (predicates : List Predicate) : List Doc :=
  if predicates.isEmpty then [.text " "]
  else
    [space.shifted (-step), .text "where", space]
      ++ shiftedLast (-step) (commaSeparated 1 (predicates.map (predicateWith code)))

/-- Conditions behind a definition, on the same line if they fit. -/
def whereDefinitionEnd (code : Code → List Doc) (predicates : List Predicate) : List Doc :=
  if predicates.isEmpty then [.text ";"]
  else
    [space.shifted (-step), .text "where", space]
      ++ List.intercalate [.text ",", space] (predicates.map (predicateWith code)) ++ [.text ";"]

/-- A visibility with the space behind it. -/
def visibilityWith (code : Code → List Doc) : Visibility → List Doc
  | .inherited => []
  | .everyone => [.text "pub "]
  | .near word => [.text s!"pub({word}) "]
  | .within p =>
    let near := ["self", "super", "crate"].any p.isName
    .text (if near then "pub(" else "pub(in ") :: pathWith code .type p ++ [.text ") "]

end Layout

end RecordCoding
