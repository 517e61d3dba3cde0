/-
Types, paths, bounds, generic parameters and code.

These are what a text was parsed into, as far as its token text or its layout
shows it. `Ty.tokens` and its companions give the tokens of each: every
operator is a word of its own again, whatever stood next to it in the text.

Design notes:

* A list remembers whether a separator stands behind its last element.
* Generic arguments and parameters are printed with the lifetimes first, in
  whatever order they were written.
* Expressions, patterns, statements and attributes are trees of code: words,
  groups and nodes, whose tokens are those of their parts. What a node is says
  its construct.
* All these hold each other, as in `[u8; { let x: T = m!(); x }]`, so they
  are declared together.
-/
import RecordCoding.Code.Construct

namespace RecordCoding

mutual

/-- A type. -/
inductive Ty
  | path (p : Path)
  /-- `<T as P>::A::B`: the type, the path that qualifies it, the steps on. -/
  | qualified (subject : Ty) (through : Option Path) (rest : List Segment)
  | reference (lifetime : Option String) (mutable : Bool) (target : Ty)
  | pointer (mutable : Bool) (target : Ty)
  | slice (element : Ty)
  | array (element : Ty) (length : Code)
  | tuple (elements : List Ty) (trailing : Bool)
  | paren (inner : Ty)
  /-- A type that a macro has put between delimiters nobody sees; no text has any. -/
  | group (inner : Ty)
  /-- A function pointer: the bound lifetimes, the words in front of the
  parentheses, the parameters, and what is returned. -/
  | function (binder : Option Binder) (qualifiers : List String)
      (parameters : List Parameter) (trailing : Bool) (result : Option Ty)
  /-- `...`, what stands for the further arguments of a function. -/
  | variadic
  | never
  | infer
  /-- A trait object, with or without the word `dyn`. -/
  | object (marked : Bool) (bounds : List Bound) (trailing : Bool)
  | implementor (bounds : List Bound) (trailing : Bool)
  /-- A type that a call such as `m!(...)` stands for. -/
  | call (p : Path) (delimiter : Delimiter) (body : List Token)
  /-- Anything that is kept as its tokens. -/
  | verbatim (tokens : List Token)

/-- A path. -/
inductive Path
  | mk (leading : Bool) (segments : List Segment)

/-- One step of a path with its arguments. -/
inductive Segment
  | mk (name : Ident) (arguments : Arguments)

/-- The arguments of a step. -/
inductive Arguments
  | none
  /-- Arguments in angle brackets, with or without `::` in front. -/
  | angle (marked : Bool) (arguments : List Argument) (trailing : Bool)
  /-- The parameters and the result of a function trait. -/
  | function (parameters : List Ty) (trailing : Bool) (result : Option Ty)

/-- A generic argument. -/
inductive Argument
  | lifetime (name : String)
  | type (t : Ty)
  | constant (value : Code)
  /-- `Item = T`, the name with arguments of its own. -/
  | associatedType (name : Segment) (t : Ty)
  | associatedConstant (name : Segment) (value : Code)
  /-- `Item: B + C`. -/
  | constraint (name : Segment) (bounds : List Bound) (trailing : Bool)

/-- A bound on a type. -/
inductive Bound
  | lifetime (name : String)
  /-- A trait, in parentheses or not, for all parameters of a binder, perhaps
  relaxed by a question mark. -/
  | trait (parenthesized : Bool) (binder : Option Binder) (relaxed : Bool) (p : Path)
  /-- `use<...>`, the parameters that a hidden type depends on. -/
  | captures (names : List String) (trailing : Bool)
  | verbatim (tokens : List Token)

/-- A parameter of a function pointer. -/
inductive Parameter
  | mk (attributes : List Code) (name : Option Ident) (t : Ty)

/-- A binder `for<...>`. -/
inductive Binder
  | mk (params : List GenericParam) (trailing : Bool)

/-- A generic parameter. -/
inductive GenericParam
  /-- A lifetime and the lifetimes it outlives. -/
  | lifetime (attributes : List Code) (name : String) (outlives : List String) (trailing : Bool)
  | type (attributes : List Code) (name : Ident) (bounds : List Bound) (trailing : Bool)
      (fallback : Option Ty)
  | constant (attributes : List Code) (name : Ident) (t : Ty) (fallback : Option Code)

/-- A condition of a `where` clause. -/
inductive Predicate
  | lifetime (name : String) (outlives : List String) (trailing : Bool)
  | type (binder : Option Binder) (subject : Ty) (bounds : List Bound) (trailing : Bool)

/-- Code: a word, something else with tokens, or a construct with its parts. -/
inductive Code
  | word (text : String)
  | raw (tokens : List Token)
  /-- A type, or a path that is an expression or a pattern. -/
  | type (t : Ty)
  /-- Generic arguments of their own, as those of a method. -/
  | arguments (list : Arguments)
  | binder (b : Binder)
  | generics (params : List GenericParam) (trailing : Bool)
  /-- A `where` clause. -/
  | conditions (predicates : List Predicate) (trailing : Bool)
  | bounds (list : List Bound) (trailing : Bool)
  | group (delimiter : Delimiter) (parts : List Code)
  | node (construct : Construct) (parts : List Code)

end

instance : Inhabited Ty := ⟨.infer⟩
instance : Inhabited Path := ⟨.mk false []⟩
instance : Inhabited Segment := ⟨.mk default .none⟩
instance : Inhabited Bound := ⟨.verbatim []⟩
instance : Inhabited Argument := ⟨.type .infer⟩
instance : Inhabited Parameter := ⟨.mk [] none .infer⟩
instance : Inhabited Binder := ⟨.mk [] false⟩
instance : Inhabited GenericParam := ⟨.lifetime [] "" [] false⟩
instance : Inhabited Predicate := ⟨.lifetime "" [] false⟩
instance : Inhabited Code := ⟨.raw []⟩

namespace Argument

def isLifetime : Argument → Bool
  | lifetime _ => true
  | _ => false

end Argument

namespace GenericParam

def isLifetime : GenericParam → Bool
  | lifetime _ _ _ _ => true
  | _ => false

end GenericParam

/-! ### Tokens -/

/-- The tokens of arguments in angle brackets, given those of each and whether it
is a lifetime. Each argument keeps the comma behind it, and lifetimes go
first. -/
def angleTokens (trailing : Bool) (arguments : List (Bool × List Token)) : List Token :=
  let commas := List.replicate (arguments.length - 1) true ++ [trailing]
  let pairs := arguments.zip commas
  let written (list : List ((Bool × List Token) × Bool)) : List Token :=
    list.flatMap fun (a, comma) => a.2 ++ if comma then [.word ","] else []
  let lifetimes := pairs.filter (·.1.1)
  let others := pairs.filter (!·.1.1)
  let rec spaced (open' : Bool) : List ((Bool × List Token) × Bool) → List Token
    | [] => []
    | (a, comma) :: rest =>
      (if open' then [] else [.word ","]) ++ a.2 ++ (if comma then [.word ","] else [])
        ++ spaced comma rest
  .word "<" :: written lifetimes ++ spaced ((lifetimes.getLast?.map (·.2)).getD true) others
    ++ [.word ">"]

/-- The tokens of lifetimes that another one outlives. -/
def outlivesTokens (outlives : List String) (trailing : Bool) : List Token :=
  Token.separated (.word "+") trailing (outlives.map fun l => [.word l])

mutual

/-- The tokens of a type. -/
def Ty.tokens : Ty → List Token
  | .path p => p.tokens
  | .qualified subject through rest =>
    .word "<" :: subject.tokens
      ++ (match through with
          | none => []
          | some p => .word "as" :: p.tokens)
      ++ .word ">" :: Segment.stepsTokens rest
  | .reference lifetime mutable target =>
    .word "&" :: (lifetime.toList.map .word) ++ (if mutable then [.word "mut"] else [])
      ++ target.tokens
  | .pointer mutable target => Token.words ["*", if mutable then "mut" else "const"] ++ target.tokens
  | .slice element => [.group .bracket element.tokens]
  | .array element length => [.group .bracket (element.tokens ++ .word ";" :: length.tokens)]
  | .tuple elements trailing =>
    [.group .parenthesis (Token.separated (.word ",") trailing (Ty.tokensOfList elements))]
  | .paren inner => [.group .parenthesis inner.tokens]
  | .group inner => inner.tokens
  | .function binder qualifiers parameters trailing result =>
    Binder.tokensOfOption binder ++ Token.words qualifiers
      ++ .group .parenthesis
          (Token.separated (.word ",") trailing (Parameter.tokensOfList parameters))
        :: Ty.resultTokens result
  | .variadic => [.word "..."]
  | .never => [.word "!"]
  | .infer => [.word "_"]
  | .object marked bounds trailing =>
    (if marked then [.word "dyn"] else [])
      ++ Token.separated (.word "+") trailing (Bound.tokensOfList bounds)
  | .implementor bounds trailing =>
    .word "impl" :: Token.separated (.word "+") trailing (Bound.tokensOfList bounds)
  | .call p delimiter body => p.tokens ++ [.word "!", .group delimiter body]
  | .verbatim tokens => tokens

def Ty.tokensOfList : List Ty → List (List Token)
  | [] => []
  | t :: rest => t.tokens :: Ty.tokensOfList rest

/-- The tokens of what a function returns, arrow included. -/
def Ty.resultTokens : Option Ty → List Token
  | none => []
  | some t => .word "->" :: t.tokens

/-- The tokens of a type that is a default, with the equals sign. -/
def Ty.fallbackTokens : Option Ty → List Token
  | none => []
  | some t => .word "=" :: t.tokens

/-- The tokens of a path. -/
def Path.tokens : Path → List Token
  | .mk _ [] => []
  | .mk leading (s :: rest) =>
    (if leading then [.word "::"] else []) ++ s.tokens ++ Segment.stepsTokens rest

/-- The tokens of a step. -/
def Segment.tokens : Segment → List Token
  | .mk name arguments => Token.ident name :: arguments.tokens

/-- The tokens of steps, each behind `::`. -/
def Segment.stepsTokens : List Segment → List Token
  | [] => []
  | s :: rest => .word "::" :: s.tokens ++ Segment.stepsTokens rest

/-- The tokens of the arguments of a step. -/
def Arguments.tokens : Arguments → List Token
  | .none => []
  | .angle marked arguments trailing =>
    (if marked then [.word "::"] else []) ++ angleTokens trailing (Argument.tokensOfList arguments)
  | .function parameters trailing result =>
    .group .parenthesis (Token.separated (.word ",") trailing (Ty.tokensOfList parameters))
      :: Ty.resultTokens result

/-- The tokens of a generic argument. -/
def Argument.tokens : Argument → List Token
  | .lifetime name => [.word name]
  | .type t => t.tokens
  | .constant value => value.tokens
  | .associatedType name t => name.tokens ++ .word "=" :: t.tokens
  | .associatedConstant name value => name.tokens ++ .word "=" :: value.tokens
  | .constraint name bounds trailing =>
    name.tokens ++ .word ":" :: Token.separated (.word "+") trailing (Bound.tokensOfList bounds)

def Argument.tokensOfList : List Argument → List (Bool × List Token)
  | [] => []
  | a :: rest => (a.isLifetime, a.tokens) :: Argument.tokensOfList rest

/-- The tokens of a bound. -/
def Bound.tokens : Bound → List Token
  | .lifetime name => [.word name]
  | .trait parenthesized binder relaxed p =>
    let inner := (if relaxed then [.word "?"] else []) ++ Binder.tokensOfOption binder ++ p.tokens
    if parenthesized then [.group .parenthesis inner] else inner
  | .captures names trailing =>
    .word "use"
      :: angleTokens trailing (names.map fun n => (n.startsWith "'", [Token.word n]))
  | .verbatim tokens => tokens

def Bound.tokensOfList : List Bound → List (List Token)
  | [] => []
  | b :: rest => b.tokens :: Bound.tokensOfList rest

/-- The tokens of a parameter. -/
def Parameter.tokens : Parameter → List Token
  | .mk attributes name t =>
    Code.tokensOfList attributes
      ++ (match name with
          | none => []
          | some i => [Token.ident i, .word ":"])
      ++ t.tokens

def Parameter.tokensOfList : List Parameter → List (List Token)
  | [] => []
  | p :: rest => p.tokens :: Parameter.tokensOfList rest

/-- The tokens of a binder. -/
def Binder.tokens : Binder → List Token
  | .mk params trailing =>
    Token.words ["for", "<"]
      ++ Token.separated (.word ",") trailing (GenericParam.tokensOfList params) ++ [.word ">"]

/-- The tokens of a binder that may be absent. -/
def Binder.tokensOfOption : Option Binder → List Token
  | none => []
  | some b => b.tokens

/-- The tokens of a generic parameter; a colon without bounds is dropped. -/
def GenericParam.tokens : GenericParam → List Token
  | .lifetime attributes name outlives trailing =>
    Code.tokensOfList attributes ++ .word name ::
      if outlives.isEmpty then [] else .word ":" :: outlivesTokens outlives trailing
  | .type attributes name bounds trailing fallback =>
    Code.tokensOfList attributes ++ Token.ident name ::
      (if bounds.isEmpty then []
       else .word ":" :: Token.separated (.word "+") trailing (Bound.tokensOfList bounds))
      ++ Ty.fallbackTokens fallback
  | .constant attributes name t fallback =>
    Code.tokensOfList attributes ++ [.word "const", Token.ident name, .word ":"] ++ t.tokens
      ++ Code.fallbackTokens fallback

def GenericParam.tokensOfList : List GenericParam → List (List Token)
  | [] => []
  | p :: rest => p.tokens :: GenericParam.tokensOfList rest

/-- The tokens of a condition. -/
def Predicate.tokens : Predicate → List Token
  | .lifetime name outlives trailing =>
    [.word name, .word ":"] ++ outlivesTokens outlives trailing
  | .type binder subject bounds trailing =>
    Binder.tokensOfOption binder ++ subject.tokens
      ++ .word ":" :: Token.separated (.word "+") trailing (Bound.tokensOfList bounds)

def Predicate.tokensOfList : List Predicate → List (List Token)
  | [] => []
  | p :: rest => p.tokens :: Predicate.tokensOfList rest

/-- The tokens of code. -/
def Code.tokens : Code → List Token
  | .word w => [.word w]
  | .raw tokens => tokens
  | .type t => t.tokens
  | .arguments list => list.tokens
  | .binder b => b.tokens
  | .generics params trailing =>
    if params.isEmpty then []
    else
      angleTokens trailing
        ((params.map GenericParam.isLifetime).zip (GenericParam.tokensOfList params))
  | .conditions predicates trailing =>
    if predicates.isEmpty then []
    else .word "where" :: Token.separated (.word ",") trailing (Predicate.tokensOfList predicates)
  | .bounds list trailing => Token.separated (.word "+") trailing (Bound.tokensOfList list)
  | .group d parts => [.group d (Code.tokensOfList parts)]
  | .node _ parts => Code.tokensOfList parts

/-- The tokens of code that follows on each other. -/
def Code.tokensOfList : List Code → List Token
  | [] => []
  | c :: rest => c.tokens ++ Code.tokensOfList rest

/-- The tokens of a value that is a default, with the equals sign. -/
def Code.fallbackTokens : Option Code → List Token
  | none => []
  | some c => .word "=" :: c.tokens

end

namespace Path

def segments : Path → List Segment
  | mk _ segments => segments

def leading : Path → Bool
  | mk leading _ => leading

/-- A path of plain steps. -/
def plain (leading : Bool) (names : List Ident) : Path :=
  mk leading (names.map fun i => .mk i .none)

end Path

namespace Segment

def name : Segment → Ident
  | mk name _ => name

def arguments : Segment → Arguments
  | mk _ arguments => arguments

end Segment

namespace Arguments

/-- Whether there are no arguments, be there empty brackets or none. -/
def isEmpty : Arguments → Bool
  | none => true
  | angle _ list _ => list.isEmpty
  | function _ _ _ => false

def isNone : Arguments → Bool
  | none => true
  | _ => false

end Arguments

/-- Whether every step is without arguments. -/
def Path.bare (p : Path) : Bool := p.segments.all (·.arguments.isNone)

/-- The name that a path consists of, if it is a single one. -/
def Path.name? : Path → Option Ident
  | .mk false [.mk i .none] => some i
  | _ => none

/-! ### Code -/

namespace Code

/-- A part that was left out. -/
def absent : Code := node .absent []

/-- A part that may have been left out. -/
def ofOption : Option Code → Code
  | none => absent
  | some c => c

/-- A word that may have been left out. -/
def optionalWord (present : Bool) (w : String) : Code := if present then word w else absent

/-- The construct of a node. -/
def construct? : Code → Option Construct
  | node c _ => some c
  | _ => none

/-- Whether a part was left out. -/
def isAbsent (c : Code) : Bool := c.construct? = some .absent

/-- A name as an expression. -/
def ofName (i : Ident) : Code := node .path [type (.path (.plain false [i]))]

/-- Code without the attributes in front of it. -/
def bare : Code → Code
  | node .attributed [_, c] => c
  | c => c

/-- Code with attributes in front of it. They go to its first operand, and what
is kept as its tokens takes none. -/
def withAttributes (attributes : List Code) : Code → Code
  | node .assignment [l, w, r] => node .assignment [withAttributes attributes l, w, r]
  | node .binary [l, w, r] => node .binary [withAttributes attributes l, w, r]
  | node .cast [e, w, t] => node .cast [withAttributes attributes e, w, t]
  | node .verbatim parts => node .verbatim parts
  | node .attributed [node .sequence own, c] => node .attributed [node .sequence (attributes ++ own), c]
  | c => if attributes.isEmpty then c else node .attributed [node .sequence attributes, c]

/-- The elements of a list, without the commas between them. -/
def elements (parts : List Code) : List Code :=
  parts.filter fun
    | word "," => false
    | _ => true

/-- The literal that code consists of, attributes aside. -/
def literal? (c : Code) : Option String :=
  match c.bare with
  | node .literal [word w] => some w
  | _ => none

/-- Whether an expression ends with the block that it is made of, so that it is a
statement without a semicolon. -/
def isBlockLike (c : Code) : Bool :=
  match c.bare.construct? with
  | some .conditional | some .choice | some .block | some .unsafeBlock | some .whileLoop
  | some .loop | some .forLoop | some .tryBlock | some .constBlock => true
  | _ => false

/-- Whether code is a range. -/
def isRange (c : Code) : Bool := c.bare.construct? = some .range

/-- Whether a macro is called with braces. -/
def bracedCall (c : Code) : Bool :=
  match c.bare with
  | node .macroCall [_, _, raw [.group d _]] => d = .brace
  | _ => false

end Code

end RecordCoding
