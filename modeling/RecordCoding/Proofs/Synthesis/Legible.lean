/-
Members that are read back.

Members whose parts can be read where they were copied to are code: an enumeration, and
three implementations behind it.

* `Members.Legible` — what this takes;
* `Members.Legible.reads_tokens` — the members are four items.

Design notes: the trees of the members are computed first, item by item, in the forms
that the lemmas on items and statements expect.  What is left to show of an item is that
each of its parts can be read.
-/
import RecordCoding.Proofs.Synthesis.Phrases
import RecordCoding.Proofs.Synthesis.Agreement

namespace RecordCoding

open Token (treesOf)
open RecordCoding.Parser

/-- Members whose parts can be read in the places they were copied to, from so many
levels on. -/
structure Members.Legible (base : Nat) (m : Members) : Prop where
  name : m.name.Legible
  enumeration : m.registry.enumeration.Legible
  keys : ∀ key ∈ m.registry.keys, key.Legible
  decoding : ∀ s ∈ m.decoding, s.key.Legible
  types : ∀ s ∈ m.decoding, ∀ p, s.type = .plain p ∨ s.type = .sequence p →
    p.Plain ∧ p.opensNoType = false
  initializers : ∀ i ∈ m.initializers, i.field.Legible
  encoding : ∀ s ∈ m.encoding, s.field.Legible
  visibility : m.visibility.Legible
  params : ∀ p ∈ m.generics.params, ∀ k, base ≤ k → ReadsParameter (Inner.ofDepth k) p
  conditions : ∀ k, base ≤ k → ∀ body ts,
    Takes (whereClause? (Inner.ofDepth k)) (treesOf m.generics.whereTokens ++ braced body ts)
      (braced body ts)
  runtime : m.runtime.Readable base
  opens : m.runtime.opensNoType = false

namespace Members

variable {m : Members} {base k : Nat}

/-! ### Keys -/

/-- The trees of the variant of a key. -/
def variantTrees (key : Ident) : List TokenTree :=
  .ident (.plain "Self") :: (doubleColon ++ [.ident key.anywhere])

/-- The trees of the arm of a key. -/
def keyArm (key : Ident) : List TokenTree := armTrees (key.anywhere, Text.literal key.name)

/-- What the implementation of the trait for keys holds. -/
def keyItems (m : Members) : List TokenTree :=
  constantTrees (marked ',' false (m.registry.keys.map variantTrees))
    (functionTrees "string_value" [.ident (.plain "self")] (textTrees ++ braced
      [.ident (.plain "match"), .ident (.plain "self"),
        .group .brace (m.registry.keys.flatMap keyArm) .start .start] []))

theorem Legible.treesOf_keysTokens (h : m.Legible base) :
    treesOf m.keysTokens
      = attributeTrees (Text.literal m.registry.documentation)
        ++ (treesOf m.visibility.tokens
          ++ enumerationTrees m.registry.enumeration.anywhere (m.registry.keys.map Ident.anywhere)
            (implementationTrees [] (treesOf (runtimeTokens m.runtime "CodingKey"))
              [.ident m.registry.enumeration.anywhere] [] m.keyItems [])) := by
  have henum := Ident.trees_ident h.enumeration.text
  have hkey : ∀ key ∈ m.registry.keys, (Token.ident key).trees = [.ident key.anywhere] :=
    fun key hkey => Ident.trees_ident (h.keys key hkey).text
  have hnames : treesOf (Token.joined (.word ",") (m.registry.keys.map fun k => [Token.ident k]))
      = marked ',' false ((m.registry.keys.map Ident.anywhere).map fun v => [.ident v]) := by
    rw [List.map_map]
    exact Token.treesOf_commas fun key hmem => (Token.treesOf_singleton _).trans (hkey key hmem)
  have hvariants := Token.treesOf_commas (g := variantTrees)
    (f := fun key => [.word "Self", .word "::", Token.ident key]) (l := m.registry.keys)
    fun key hmem => by
      simp only [Token.treesOf, hkey key hmem]
      rfl
  have harms := Token.treesOf_flatMap (g := keyArm)
    (f := fun key => [.word "Self", .word "::", Token.ident key]
      ++ [.word "=>", .word (Text.literal key.name), .word ","]) (l := m.registry.keys)
    fun key hmem => by
      simp only [Token.treesOf_append, Token.treesOf, hkey key hmem, Token.trees,
        Token.wordTrees_literal]
      rfl
  -- All names and texts are single tokens, so the trees can be told part by part.
  rw [keysTokens, KeyRegistry.tokens]
  simp only [Token.treesOf_append, List.append_assoc, Token.treesOf, Token.trees,
    Token.wordTrees_literal, henum, hnames, hvariants, harms]
  rfl

theorem Legible.isTypePath_runtime (h : m.Legible base) (hk : base ≤ k) {last : List TokenTree}
    (hlast : IsStep k last) : IsTypePath k (treesOf m.runtime.tokens ++ (doubleColon ++ last)) := by
  have hpath := h.runtime.isTypePath_append h.opens hk [last] fun q hq =>
    List.mem_singleton.mp hq ▸ hlast
  rwa [stepTrees, stepTrees, List.append_nil] at hpath

/-- The members of the runtime library that generated code names. -/
def runtimeNames : List String :=
  ["CodingKey", "Decodable", "Encodable", "Decoder", "Encoder", "DecodeError", "EncodeError"]

/-- A member of the runtime library is a type. -/
theorem Legible.isTypePath_runtimeTokens (h : m.Legible base) (hk : base ≤ k) (name : String)
    (hname : name ∈ runtimeNames) : IsTypePath k (treesOf (runtimeTokens m.runtime name)) := by
  have hstep : ∀ w ∈ runtimeNames, Parser.isStep (.plain w) = true := by decide
  have htrees : treesOf [.word "::", .word name] = doubleColon ++ [.ident (.plain name)] := by
    have hword : ∀ w ∈ runtimeNames, Token.wordTrees w = [.ident (.plain w)] := by
      intro w hw
      simp only [runtimeNames, List.mem_cons, List.not_mem_nil, or_false] at hw
      rcases hw with rfl | rfl | rfl | rfl | rfl | rfl | rfl <;> rfl
    simp only [Token.treesOf, Token.trees, hword name hname]
    rfl
  rw [runtimeTokens, Token.treesOf_append, htrees]
  exact h.isTypePath_runtime hk (isStep_ident (hstep name hname))

/-- The implementation of the trait for keys. -/
theorem Legible.isImplementation_keys (h : m.Legible base) (hk : base ≤ k) :
    IsImplementation (Inner.ofDepth (k + 3)) [] (treesOf (runtimeTokens m.runtime "CodingKey"))
      [.ident m.registry.enumeration.anywhere] [] m.keyItems := by
  have hpath := h.isTypePath_runtimeTokens (k := k + 2) (by omega) "CodingKey" (by decide)
  have hsubject := h.enumeration.isTypePath (k := k + 2)
  have hvariants : ∀ p ∈ m.registry.keys.map variantTrees, p ≠ [] ∧ ∀ ts, Closes ts →
      Takes ((Inner.ofDepth (k + 2)).expression true) (p ++ ts) ts := by
    intro p hp
    obtain ⟨key, hkey, rfl⟩ := List.mem_map.mp hp
    refine ⟨by simp [variantTrees], fun ts hts => ?_⟩
    exact takes_expression_names [key.anywhere] (by decide)
      (fun j hj => List.mem_singleton.mp hj ▸ (h.keys key hkey).name) hts
  have harms : Takes ((Inner.ofDepth (k + 3)).statements)
      [.ident (.plain "match"), .ident (.plain "self"),
        .group .brace (m.registry.keys.flatMap keyArm) .start .start] [] := by
    have hflat : m.registry.keys.flatMap keyArm
        = (m.registry.keys.map fun key => (key.anywhere, Text.literal key.name)).flatMap armTrees := by
      rw [List.flatMap_map]
      rfl
    rw [hflat]
    refine takes_statement_choice fun a ha => ?_
    obtain ⟨key, hkey, rfl⟩ := List.mem_map.mp ha
    exact (h.keys key hkey).name
  have hfunction : Takes (itemOfImplementation (Inner.ofDepth (k + 3)))
      (functionTrees "string_value" [.ident (.plain "self")] (textTrees ++ braced
        [.ident (.plain "match"), .ident (.plain "self"),
          .group .brace (m.registry.keys.flatMap keyArm) .start .start] [])) [] :=
    takes_function (by decide) takes_functionParameters_self (takes_ty_text (n := k + 1) _ []) rfl
      harms
  have hconstant : Takes (itemOfImplementation (Inner.ofDepth (k + 3))) m.keyItems
      (functionTrees "string_value" [.ident (.plain "self")] (textTrees ++ braced
        [.ident (.plain "match"), .ident (.plain "self"),
          .group .brace (m.registry.keys.flatMap keyArm) .start .start] [])) :=
    takes_constant (n := k) (takes_expression_array hvariants (.semicolon _))
  refine ⟨.inl rfl, fun ts => hpath.opens _ rfl, fun ts => hpath.reads_ty (.word (by decide) ts),
    fun ts => (hsubject.reads_ty (.brace _ _)).takes, fun ts => by simp [whereClause?, isKeyword], rfl,
    ?_⟩
  exact (reads_toEnd_cons (List.cons_ne_nil _ _) hconstant
    (reads_toEnd_cons (by simp) hfunction (reads_toEnd_nil _))).takes

/-! ### Heads of implementations -/

theorem Legible.readsParameter (h : m.Legible base) (hk : base ≤ k) {name : String}
    (hname : name ∈ runtimeNames) :
    ∀ p ∈ (m.boundedGenerics name).params, ReadsParameter (Inner.ofDepth (k + 1)) p := by
  intro p hp
  obtain ⟨p, hmem, rfl⟩ := List.mem_map.mp hp
  refine (h.params p hmem (k + 1) (by omega)).bounded ?_
  rw [SameRuntime.tokens_runtimeBound h.runtime.tokens_ne_nil]
  exact (h.isTypePath_runtimeTokens hk name hname).bound

/-- An implementation of a trait of the runtime library, from its items. -/
theorem Legible.isImplementation (h : m.Legible base) (hk : base ≤ k) {name : String}
    (hname : name ∈ runtimeNames) {body : List TokenTree} (hmark : isPunct "#" body = false)
    (hitems : Takes (toEnd (itemOfImplementation (Inner.ofDepth (k + 2))) (body.length + 1)) body []) :
    IsImplementation (Inner.ofDepth (k + 2)) (treesOf (m.boundedGenerics name).implTokens)
      (treesOf (runtimeTokens m.runtime name))
      (treesOf (Token.ident m.name :: (m.boundedGenerics name).argumentTokens))
      (treesOf m.generics.whereTokens) body := by
  have hpath := h.isTypePath_runtimeTokens (k := k + 1) (by omega) name hname
  have hsubject := Generics.isTypePath_argumentTokens (k := k) h.name (h.readsParameter hk hname)
  have hends : ∀ ts, Ends (treesOf m.generics.whereTokens ++ braced body ts) := by
    intro ts
    rw [Generics.whereTokens, Generics.conditions, Code.tokens]
    split
    · exact .brace _ _
    · exact .word (by decide) _
  exact ⟨Generics.opensParameters_implTokens (h.readsParameter (by omega) hname),
    fun ts => hpath.opens _ rfl, fun ts => hpath.reads_ty (.word (by decide) ts),
    fun ts => (hsubject.reads_ty (hends ts)).takes, fun ts => h.conditions _ (by omega) body ts, hmark,
    hitems⟩

/-! ### Reading -/

/-- The trees of the key of a field. -/
def keyTrees (m : Members) (key : Ident) : List TokenTree :=
  .ident m.registry.enumeration.anywhere :: (doubleColon ++ [.ident key.anywhere])

/-- `let container = given.container::<Keys>()`, with a question mark or without one. -/
def openingTrees (m : Members) (binding : List TokenTree) (given : String) (question : Bool) :
    List TokenTree :=
  .ident (.plain "let") :: (binding ++ mark '=' :: .ident (.plain given) ::
    operationTrees "container" [.ident m.registry.enumeration.anywhere] []
      ((if question then [mark '?'] else []) ++ [mark ';']))

/-- A statement that reads a field. -/
def readingTrees (m : Members) (s : DecodeStatement) : List TokenTree :=
  .ident (.plain "let") :: ([.ident (.plain (bindingName s.position))] ++ mark '=' ::
    .ident (.plain "__container") ::
      operationTrees s.rule.operation (treesOf s.type.tokens) (m.keyTrees s.key) [mark '?', mark ';'])

/-- The value that a field is initialized with. -/
def initialTrees (i : Initializer) : List TokenTree :=
  match i.source with
  | some position => [.ident (.plain (bindingName position))]
  | none => coreTrees ["default", "Default", "default"] [.group .parenthesis [] .start .start]

/-- The statements of the function that reads a record. -/
def decodeBodyTrees (m : Members) : List TokenTree :=
  (m.openingTrees [.ident (.plain "__container")] "__decoder" true
      :: m.decoding.map m.readingTrees).flatten
    ++ coreTrees ["result", "Result", "Ok"]
      [.group .parenthesis
        [.ident (.plain "Self"), .group .brace (marked ',' false (m.initializers.map fun i =>
          .ident i.field.anywhere :: mark ':' :: initialTrees i)) .start .start]
        .start .start]

/-- The type of what a record is read from. -/
def decoderTrees (m : Members) : List TokenTree :=
  treesOf m.runtime.tokens ++ (doubleColon ++
    (.ident (.plain "Decoder") :: mark '<' :: (marked ',' false [[.lifetime "'_" .start]]
      ++ [mark '>'])))

/-- The type of a result with an error of the runtime library. -/
def resultTrees (m : Members) (value : List TokenTree) (error : String) : List TokenTree :=
  libraryTrees "core" ["result"] "Result" [value, treesOf (runtimeTokens m.runtime error)]

/-- The function that reads a record. -/
def decodeItems (m : Members) : List TokenTree :=
  functionTrees "decode" (.ident (.plain "__decoder") :: mark ':' :: mark '&' :: m.decoderTrees)
    (m.resultTrees [.ident (.plain "Self")] "DecodeError" ++ braced m.decodeBodyTrees [])

theorem toList_bindingName (position : Nat) :
    (bindingName position).toList = '_' :: '_' :: ("field".toList ++ Decimal.digitsOf position) := by
  have hdigits : (String.ofList (Decimal.digitsOf position)).toList = Decimal.digitsOf position :=
    String.toList_ofList
  rw [bindingName, String.toList_append, hdigits]
  rfl

theorem isNameText_bindingName (position : Nat) : Token.IsNameText (bindingName position) := by
  have hname : ∀ d ∈ ['_', 'f', 'i', 'e', 'l', 'd'], d ∉ ['"', '\'', '#'] := by simp
  refine ⟨'_', _, toList_bindingName position, by decide, fun d hd => ?_⟩
  rw [← List.cons_append] at hd
  rcases List.mem_append.mp hd with hd | hd
  · exact hname d hd
  · -- A digit is none of the marks.
    have hdigit : d.isDigit := Nat.isDigit_of_mem_toDigits (by decide) (by decide) hd
    simp only [List.mem_cons, List.not_mem_nil, or_false]
    rintro (rfl | rfl | rfl) <;> exact absurd hdigit (by decide)

theorem isName_bindingName (position : Nat) : isName (.plain (bindingName position)) = true := by
  have hreserved : ∀ w ∈ reserved, w.toList[1]? ≠ some '_' := by decide
  have hmem : bindingName position ∉ reserved := fun hmem =>
    hreserved _ hmem (by rw [toList_bindingName]; rfl)
  simpa [isName, Ident.plain] using hmem

theorem treesOf_initializer {i : Initializer} (hi : i.field.Legible) :
    treesOf i.tokens = .ident i.field.anywhere :: mark ':' :: initialTrees i := by
  rw [Initializer.tokens, Token.treesOf_append, initialTrees]
  rcases i.source with _ | position
  · simp only [Token.treesOf, Ident.trees_ident hi.text]
    rfl
  · simp only [Token.treesOf, Token.trees, Ident.trees_ident hi.text,
      Token.wordTrees_of_isNameText (isNameText_bindingName position)]
    rfl

theorem treesOf_reading {s : DecodeStatement} (henum : m.registry.enumeration.Legible)
    (hs : s.key.Legible) : treesOf (s.tokens m.registry container) = m.readingTrees s := by
  have hoperation : Token.wordTrees s.rule.operation = [.ident (.plain s.rule.operation)] := by
    cases s.rule <;> rfl
  rw [DecodeStatement.tokens]
  simp only [Token.treesOf_append, Token.treesOf, Token.trees, KeyRegistry.keyTokens,
    Ident.trees_ident henum.text, Ident.trees_ident hs.text, hoperation,
    Token.wordTrees_of_isNameText (isNameText_bindingName s.position), List.append_assoc]
  rfl

theorem treesOf_resultTokens {value : List Token} {error : String} :
    treesOf (m.resultTokens value error) = m.resultTrees (treesOf value) error := by
  rw [resultTokens, Token.treesOf_append, Token.treesOf_append, Token.treesOf_append,
    Token.treesOf_append]
  simp [resultTrees, libraryTrees, marked, stepTrees, Token.treesOf, Token.words, Token.trees]
  rfl

theorem treesOf_decoder :
    treesOf (runtimeTokens m.runtime "Decoder") ++ treesOf (Token.words ["<", "'_", ">"])
      = m.decoderTrees := by
  rw [runtimeTokens, Token.treesOf_append, List.append_assoc]
  rfl

theorem Legible.treesOf_decodeTokens (h : m.Legible base) :
    treesOf m.decodeTokens
      = implementationTrees (treesOf (m.boundedGenerics "Decodable").implTokens)
        (treesOf (runtimeTokens m.runtime "Decodable"))
        (treesOf (Token.ident m.name :: (m.boundedGenerics "Decodable").argumentTokens))
        (treesOf m.generics.whereTokens) m.decodeItems [] := by
  have henum := Ident.trees_ident h.enumeration.text
  have hname := Ident.trees_ident h.name.text
  have hstatements := Token.treesOf_flatMap (f := DecodeStatement.tokens m.registry container)
    (g := m.readingTrees) (l := m.decoding) fun s hs => treesOf_reading h.enumeration (h.decoding s hs)
  have hinitial := Token.treesOf_commas (f := Initializer.tokens) (l := m.initializers)
    fun i hi => treesOf_initializer (h.initializers i hi)
  rw [decodeTokens, headTokens]
  simp only [List.append_assoc, Token.treesOf_append, treesOf_resultTokens, Token.treesOf, Token.trees,
    henum, hname, hstatements, hinitial, okTokens, List.nil_append, treesOf_decoder]
  rfl

/-- The types that fields are read at. -/
theorem Legible.isTypePath_type (h : m.Legible base) {s : DecodeStatement} (hs : s ∈ m.decoding) :
    IsTypePath (k + 1) (treesOf s.type.tokens) := by
  cases htype : s.type with
  | plain p =>
    obtain ⟨hp, hopens⟩ := h.types s hs p (.inl htype)
    exact (hp.readable 0).isTypePath hopens (Nat.zero_le _)
  | sequence p =>
    obtain ⟨hp, hopens⟩ := h.types s hs p (.inr htype)
    have helement := ((hp.readable 0).isTypePath (k := k) hopens (Nat.zero_le _)).argument
    have htrees : treesOf (DecodedType.sequence p).tokens
        = libraryTrees "std" ["vec"] "Vec" [treesOf p.tokens] := by
      rw [DecodedType.tokens, Token.treesOf_append, Token.treesOf_append]
      simp [libraryTrees, marked, stepTrees, Token.treesOf, Token.words, Token.trees]
      rfl
    rw [htrees]
    exact isTypePath_library (by decide) (by decide) (by decide) fun q hq =>
      List.mem_singleton.mp hq ▸ helement

theorem Legible.takes_keyTrees (h : m.Legible base) {key : Ident} (hkey : key.Legible) {inner : Inner}
    {ts : List TokenTree} (hts : Closes ts) :
    Takes (expression inner true) (m.keyTrees key ++ ts) ts :=
  takes_expression_names [key.anywhere] (opensType_of_isName h.enumeration.name)
    (fun _ hj => List.mem_singleton.mp hj ▸ hkey.name) hts

/-- A statement that reads a field. -/
theorem Legible.reads_reading (h : m.Legible base) {s : DecodeStatement} (hs : s ∈ m.decoding)
    (ts : List TokenTree) :
    Reads (statement (Inner.ofDepth (k + 3))) (m.readingTrees s ++ ts) ts
      fun c => c.needsSemicolon = false := by
  have hoperation : s.rule.operation ∈ operationNames := by
    cases s.rule <;> decide
  have harguments : Takes (terminatedCode ((Inner.ofDepth (k + 2)).expression true)) (m.keyTrees s.key)
      [] :=
    takes_terminatedCode_single (by simp [keyTrees]) fun ts hts =>
      h.takes_keyTrees (h.decoding s hs) hts
  have hstatement := reads_statement_operation (k := k + 1) (w := "__container")
    (.name (isName_bindingName s.position)) (by decide) hoperation
    (h.isTypePath_type hs).argument harguments true ts
  simpa [readingTrees, operationTrees] using hstatement

/-- The container is opened. -/
theorem Legible.reads_opening (h : m.Legible base) {binding : List TokenTree} (hbinding : Binds binding)
    {given : String} (hgiven : given ∈ operandWords) (question : Bool) (ts : List TokenTree) :
    Reads (statement (Inner.ofDepth (k + 3))) (m.openingTrees binding given question ++ ts) ts
      fun c => c.needsSemicolon = false := by
  have hcontainer : "container" ∈ operationNames := by decide
  have hstatement := reads_statement_operation (k := k + 1) hbinding hgiven hcontainer
    h.enumeration.isTypePath.argument takes_terminatedCode_nil question ts
  simpa [openingTrees, operationTrees] using hstatement

/-- A function of members has a body that can be read if its statements can. -/
theorem takes_body {pieces : List (List TokenTree)} {value : List TokenTree} {inner : Inner}
    (h : ∀ p ∈ pieces, (∃ more, p = .ident (.plain "let") :: more ∨
        p = .ident (.plain "__container") :: more) ∧
      ∀ ts, Reads (statement inner) (p ++ ts) ts fun c => c.needsSemicolon = false)
    (hvalue : Takes (terminatedCode (inner.expression true)) value []) :
    Takes (statements inner)
      (pieces.flatten ++ coreTrees ["result", "Result", "Ok"] [.group .parenthesis value .start .start])
      [] := by
  refine takes_statements _ (fun p hp => ?_) (by simp [coreTrees]) rfl (takes_statement_success hvalue)
  obtain ⟨⟨more, hmore⟩, hreads⟩ := h p hp
  refine ⟨?_, hreads⟩
  rcases hmore with rfl | rfl <;> exact ⟨_, _, rfl, fun ts => isPunct_ident (by decide)⟩

theorem takes_initialTrees {i : Initializer} {inner : Inner} {ts : List TokenTree} (hts : Closes ts) :
    Takes (expression inner true) (initialTrees i ++ ts) ts := by
  rw [initialTrees]
  rcases i.source with _ | position
  · exact takes_expression_default hts
  · exact takes_expression_names [] (opensType_of_isName (isName_bindingName position))
      (fun _ hj => absurd hj (by simp)) hts

theorem Legible.takes_decodeBodyTrees (h : m.Legible base) :
    Takes (statements (Inner.ofDepth (k + 3))) m.decodeBodyTrees [] := by
  have hfields : ∀ f ∈ m.initializers.map fun i => (i.field.anywhere, initialTrees i),
      isName f.1 = true ∧ ∀ ts, Closes ts →
        Takes ((Inner.ofDepth (k + 2)).expression true) (f.2 ++ ts) ts := by
    intro f hf
    obtain ⟨i, hi, rfl⟩ := List.mem_map.mp hf
    exact ⟨(h.initializers i hi).name, fun ts hts => takes_initialTrees hts⟩
  have hvalue := takes_terminatedCode_single (r := (Inner.ofDepth (k + 3)).expression true)
    (p := [.ident (.plain "Self"), .group .brace (marked ',' false (m.initializers.map fun i =>
      .ident i.field.anywhere :: mark ':' :: initialTrees i)) .start .start]) (by simp) fun ts hts => by
    have hrecord := takes_expression_record _ hfields hts
    rwa [List.map_map] at hrecord
  refine takes_body (fun p hp => ?_) hvalue
  rcases List.mem_cons.mp hp with rfl | hp
  · exact ⟨⟨_, .inl rfl⟩, h.reads_opening (.name (by decide)) (by decide) true⟩
  · obtain ⟨s, hs, rfl⟩ := List.mem_map.mp hp
    exact ⟨⟨_, .inl rfl⟩, h.reads_reading hs⟩

/-- A result is a type. -/
theorem Legible.isTypePath_resultTrees (h : m.Legible base) (hk : base ≤ k) {value : List TokenTree}
    (hvalue : ReadsBefore (argument (Inner.ofDepth (k + 1))) angleMarks value) (error : String)
    (herror : error ∈ runtimeNames) : IsTypePath (k + 1) (m.resultTrees value error) := by
  refine isTypePath_library (by decide) (by decide) (by decide) fun q hq => ?_
  simp only [List.mem_cons, List.not_mem_nil, or_false] at hq
  rcases hq with rfl | rfl
  · exact hvalue
  · exact (h.isTypePath_runtimeTokens hk _ herror).argument

/-- The implementation that reads a record. -/
theorem Legible.isImplementation_decode (h : m.Legible base) (hk : base ≤ k) :
    IsImplementation (Inner.ofDepth (k + 4)) (treesOf (m.boundedGenerics "Decodable").implTokens)
      (treesOf (runtimeTokens m.runtime "Decodable"))
      (treesOf (Token.ident m.name :: (m.boundedGenerics "Decodable").argumentTokens))
      (treesOf m.generics.whereTokens) m.decodeItems := by
  have hself : IsTypePath (k + 2) [.ident (.plain "Self")] := isTypePath_ident (by decide)
  have hresult := h.isTypePath_resultTrees (k := k + 2) (by omega) hself.argument
    "DecodeError" (by decide)
  have hdecoder : IsTypePath (k + 2) m.decoderTrees :=
    h.isTypePath_runtime (by omega) fun rest _ => stepBefore_arguments false (by decide) fun q hq =>
      List.mem_singleton.mp hq ▸ readsBefore_argument_lifetime
  have hopens := hdecoder.opens [] rfl
  have hgiven : Takes ((Inner.ofDepth (k + 3)).ty false) (m.decoderTrees ++ []) [] :=
    (hdecoder.reads_ty .nil).takes
  rw [List.append_nil] at hopens hgiven
  have hparameters : ∀ fuel, Takes (functionParameters (Inner.ofDepth (k + 4)) false false (fuel + 1))
      (.ident (.plain "__decoder") :: mark ':' :: mark '&' :: m.decoderTrees) [] := fun fuel =>
    takes_functionParameters_reference (by decide) (takes_ty_reference hopens hgiven)
  have hhash : isPunct "#" m.decodeBodyTrees = false := isPunct_ident (by decide)
  have hfunction : Takes (itemOfImplementation (Inner.ofDepth (k + 4))) m.decodeItems [] :=
    takes_function (by decide) (hparameters _) (hresult.reads_ty (.brace _ _)).takes hhash
      h.takes_decodeBodyTrees
  refine h.isImplementation (by omega) (by decide) (isPunct_ident (by decide)) ?_
  exact (reads_toEnd_cons (List.cons_ne_nil _ _) hfunction (reads_toEnd_nil _)).takes

/-! ### Writing -/

/-- A statement that writes a field. -/
def writingTrees (m : Members) (s : EncodeStatement) : List TokenTree :=
  [.ident (.plain "__container"), mark '.', .ident (.plain "encode"),
    .group .parenthesis
      (marked ',' false [[mark '&', .ident (.plain "self"), mark '.', .ident s.field.anywhere],
        m.keyTrees s.field]) .start .start, mark '?', mark ';']

/-- The name of the container of a function that writes a record. -/
def writerTrees (m : Members) : List TokenTree :=
  if m.encoding.isEmpty then [.ident (.plain "__container")]
  else [.ident (.plain "mut"), .ident (.plain "__container")]

/-- The statements of the function that writes a record. -/
def encodeBodyTrees (m : Members) : List TokenTree :=
  (m.openingTrees m.writerTrees "__encoder" false :: m.encoding.map m.writingTrees).flatten
    ++ coreTrees ["result", "Result", "Ok"]
      [.group .parenthesis [.group .parenthesis [] .start .start] .start .start]

/-- The function that writes a record. -/
def encodeItems (m : Members) : List TokenTree :=
  functionTrees "encode"
    (mark '&' :: .ident (.plain "self") :: mark ',' :: .ident (.plain "__encoder") :: mark ':' ::
      mark '&' :: .ident (.plain "mut") :: treesOf (runtimeTokens m.runtime "Encoder"))
    (m.resultTrees [.group .parenthesis [] .start .start] "EncodeError" ++ braced m.encodeBodyTrees [])

theorem treesOf_writing {s : EncodeStatement} (henum : m.registry.enumeration.Legible)
    (hs : s.field.Legible) : treesOf (s.tokens m.registry container) = m.writingTrees s := by
  rw [EncodeStatement.tokens]
  simp only [Token.treesOf_append, Token.treesOf, Token.trees, KeyRegistry.keyTokens,
    Ident.trees_ident henum.text, Ident.trees_ident hs.text]
  rfl

theorem Legible.treesOf_encodeTokens (h : m.Legible base) :
    treesOf m.encodeTokens
      = implementationTrees (treesOf (m.boundedGenerics "Encodable").implTokens)
        (treesOf (runtimeTokens m.runtime "Encodable"))
        (treesOf (Token.ident m.name :: (m.boundedGenerics "Encodable").argumentTokens))
        (treesOf m.generics.whereTokens) m.encodeItems [] := by
  have henum := Ident.trees_ident h.enumeration.text
  have hname := Ident.trees_ident h.name.text
  have hstatements := Token.treesOf_flatMap (f := EncodeStatement.tokens m.registry container)
    (g := m.writingTrees) (l := m.encoding) fun s hs => treesOf_writing h.enumeration (h.encoding s hs)
  rw [encodeTokens, headTokens, encodeItems, encodeBodyTrees, writerTrees]
  cases m.encoding.isEmpty
  all_goals
    simp only [List.append_assoc, Token.treesOf_append, treesOf_resultTokens, Token.treesOf,
      Token.trees, henum, hname, hstatements, okTokens, List.nil_append, if_true, if_false,
      Bool.false_eq_true]
    rfl

/-- A statement that writes a field. -/
theorem Legible.reads_writing (h : m.Legible base) {s : EncodeStatement} (hs : s ∈ m.encoding)
    (ts : List TokenTree) :
    Reads (statement (Inner.ofDepth (k + 1))) (m.writingTrees s ++ ts) ts
      fun c => c.needsSemicolon = false := by
  refine reads_statement_writing (takes_terminatedCode _ fun p hp => ?_)
  simp only [List.mem_cons, List.not_mem_nil, or_false] at hp
  rcases hp with rfl | rfl
  · exact ⟨List.cons_ne_nil _ _, fun ts hts => takes_expression_self (h.encoding s hs).name hts⟩
  · exact ⟨List.cons_ne_nil _ _, fun ts hts => h.takes_keyTrees (h.encoding s hs) hts⟩

theorem Legible.takes_encodeBodyTrees (h : m.Legible base) :
    Takes (statements (Inner.ofDepth (k + 3))) m.encodeBodyTrees [] := by
  have hvalue : Takes (terminatedCode ((Inner.ofDepth (k + 3)).expression true))
      [.group .parenthesis [] .start .start] [] :=
    takes_terminatedCode_single (List.cons_ne_nil _ _) fun ts hts => takes_expression_unit hts
  have hbinds : Binds m.writerTrees := by
    rw [writerTrees]
    split
    · exact .name (by decide)
    · exact .changing
  refine takes_body (fun p hp => ?_) hvalue
  rcases List.mem_cons.mp hp with rfl | hp
  · exact ⟨⟨_, .inl rfl⟩, h.reads_opening hbinds (by decide) false⟩
  · obtain ⟨s, hs, rfl⟩ := List.mem_map.mp hp
    exact ⟨⟨_, .inr rfl⟩, h.reads_writing hs⟩

/-- The implementation that writes a record. -/
theorem Legible.isImplementation_encode (h : m.Legible base) (hk : base ≤ k) :
    IsImplementation (Inner.ofDepth (k + 4)) (treesOf (m.boundedGenerics "Encodable").implTokens)
      (treesOf (runtimeTokens m.runtime "Encodable"))
      (treesOf (Token.ident m.name :: (m.boundedGenerics "Encodable").argumentTokens))
      (treesOf m.generics.whereTokens) m.encodeItems := by
  have hresult := h.isTypePath_resultTrees (k := k + 2) (by omega) readsBefore_unit
    "EncodeError" (by decide)
  have hencoder := h.isTypePath_runtimeTokens (k := k + 2) (by omega) "Encoder" (by decide)
  have hgiven : Takes ((Inner.ofDepth (k + 3)).ty false)
      (treesOf (runtimeTokens m.runtime "Encoder") ++ []) [] := (hencoder.reads_ty .nil).takes
  rw [List.append_nil] at hgiven
  have hparameters : ∀ fuel, Takes (functionParameters (Inner.ofDepth (k + 4)) false false (fuel + 2))
      (mark '&' :: .ident (.plain "self") :: mark ',' :: .ident (.plain "__encoder") :: mark ':' ::
        mark '&' :: .ident (.plain "mut") :: treesOf (runtimeTokens m.runtime "Encoder")) [] := fun fuel =>
    takes_functionParameters_receiver <| takes_functionParameters_reference (by decide) <|
      takes_ty_mutableReference hgiven
  have hhash : isPunct "#" m.encodeBodyTrees = false := isPunct_ident (by decide)
  have hfunction : Takes (itemOfImplementation (Inner.ofDepth (k + 4))) m.encodeItems [] :=
    takes_function (by decide) (hparameters _) (hresult.reads_ty (.brace _ _)).takes hhash
      h.takes_encodeBodyTrees
  refine h.isImplementation (by omega) (by decide) (isPunct_ident (by decide)) ?_
  exact (reads_toEnd_cons (List.cons_ne_nil _ _) hfunction (reads_toEnd_nil _)).takes

/-! ### Four items -/

theorem implementationTrees_append {gs trait subject conditions body ts : List TokenTree} :
    implementationTrees gs trait subject conditions body [] ++ ts
      = implementationTrees gs trait subject conditions body ts := by
  simp

/-- Members are an enumeration and three implementations. -/
theorem Legible.treesOf_tokens (h : m.Legible base) :
    treesOf m.tokens
      = attributeTrees (Text.literal m.registry.documentation) ++ (treesOf m.visibility.tokens
        ++ enumerationTrees m.registry.enumeration.anywhere (m.registry.keys.map Ident.anywhere)
          (implementationTrees [] (treesOf (runtimeTokens m.runtime "CodingKey"))
              [.ident m.registry.enumeration.anywhere] [] m.keyItems []
            ++ (implementationTrees (treesOf (m.boundedGenerics "Decodable").implTokens)
                (treesOf (runtimeTokens m.runtime "Decodable"))
                (treesOf (Token.ident m.name :: (m.boundedGenerics "Decodable").argumentTokens))
                (treesOf m.generics.whereTokens) m.decodeItems []
              ++ implementationTrees (treesOf (m.boundedGenerics "Encodable").implTokens)
                (treesOf (runtimeTokens m.runtime "Encodable"))
                (treesOf (Token.ident m.name :: (m.boundedGenerics "Encodable").argumentTokens))
                (treesOf m.generics.whereTokens) m.encodeItems []))) := by
  rw [tokens, Token.treesOf_append, Token.treesOf_append, h.treesOf_keysTokens, h.treesOf_decodeTokens,
    h.treesOf_encodeTokens, List.append_assoc, List.append_assoc, List.append_assoc]
  rfl

/-- Members that can be read are an enumeration and three implementations. -/
theorem Legible.reads_tokens (h : m.Legible base) (hk : base ≤ k) :
    Reads (file (Inner.ofDepth (k + 4))) (treesOf m.tokens) []
      (IsMembers m.registry.enumeration.anywhere) := by
  have hvariants : ∀ v ∈ m.registry.keys.map Ident.anywhere, isName v = true := by
    intro v hv
    obtain ⟨key, hkey, rfl⟩ := List.mem_map.mp hv
    exact (h.keys key hkey).name
  have hkeys := h.isImplementation_keys (k := k + 1) (by omega)
  have hdecode := h.isImplementation_decode hk
  have hencode := h.isImplementation_encode hk
  rw [h.treesOf_tokens]
  refine reads_file (fun ts => reads_enumeration h.enumeration.name hvariants h.visibility.takes
    Visibility.isPunct_tokens) fun p hp => ?_
  simp only [List.mem_cons, List.not_mem_nil, or_false] at hp
  rcases hp with rfl | rfl | rfl
  all_goals
    refine ⟨List.cons_ne_nil _ _, fun ts => ?_⟩
    rw [implementationTrees_append]
  · exact hkeys.reads_item
  · exact hdecode.reads_item
  · exact hencode.reads_item

/-- An implementation of a trait of the runtime library for a type. -/
def Implements (m : Members) (name : String) (subject p : List TokenTree) : Prop :=
  ∃ gs conditions body,
    p = implementationTrees gs (treesOf (runtimeTokens m.runtime name)) subject conditions body []

/-- The code of members as it is read: the enumeration of the keys, and behind it an
implementation of each trait. -/
structure FourItems (m : Members) (items : List Item) : Prop where
  read : IsMembers m.registry.enumeration.anywhere items
  trees : ∃ visible keys reading writing,
    treesOf m.tokens = attributeTrees (Text.literal m.registry.documentation) ++ (visible
      ++ enumerationTrees m.registry.enumeration.anywhere (m.registry.keys.map Ident.anywhere)
        (keys ++ (reading ++ writing))) ∧
    m.Implements "CodingKey" [.ident m.registry.enumeration.anywhere] keys ∧
    m.Implements "Decodable"
      (treesOf (Token.ident m.name :: (m.boundedGenerics "Decodable").argumentTokens)) reading ∧
    m.Implements "Encodable"
      (treesOf (Token.ident m.name :: (m.boundedGenerics "Encodable").argumentTokens)) writing

/-- The attributes of the enumeration alone have more trees than there are levels to be
left for the members. -/
theorem Legible.three_add_le_sizeList (h : m.Legible base) (hbase : base ≤ 3) :
    base + 3 ≤ TokenTree.sizeList (treesOf m.tokens) := by
  rw [h.treesOf_tokens]
  simp only [attributeTrees, List.cons_append, TokenTree.sizeList, TokenTree.size]
  omega

/-- Members that can be read are four items, read at as many levels as they have
trees. -/
theorem Legible.parses (h : m.Legible base) (hbase : base ≤ 3) :
    ∃ items, Item.parseTokens m.tokens = .ok items ∧ m.FourItems items := by
  obtain ⟨extra, hextra⟩ := Nat.exists_eq_add_of_le' (h.three_add_le_sizeList hbase)
  have hdepth : TokenTree.sizeList (treesOf m.tokens) + 1 = (extra + base) + 4 := by
    omega
  rw [Item.parseTokens, ofScan, Inner.of, hdepth]
  obtain ⟨items, hitems, hmembers⟩ := (h.reads_tokens (Nat.le_add_left base extra)).all .start
  exact ⟨items, hitems, hmembers, _, _, _, _, h.treesOf_tokens, ⟨_, _, _, rfl⟩, ⟨_, _, _, rfl⟩,
    ⟨_, _, _, rfl⟩⟩

end Members

/-! ### Declarations -/

namespace Declaration

variable {d : Declaration} {base : Nat}

/-- A declaration as it is read: its names are those of a text, and what else is
copied can be read again in a place of the same sort. -/
structure Legible (base : Nat) (d : Declaration) : Prop where
  name : d.name.Legible
  texts : ∀ f ∈ d.fields, Token.IsNameText f.name.name
  names : ∀ f ∈ d.fields, isName f.name = true ∨ f.name.isBlank = true
  types : ∀ f ∈ d.fields, ∀ p, (FieldShape.of f.type).element? = some p →
    p.Plain ∧ p.opensNoType = false
  visibility : d.visibility.Legible
  params : ∀ p ∈ d.generics.params, p.isBlank = false →
    ∀ k, base ≤ k → ReadsParameter (Inner.ofDepth k) p
  conditions : ∀ k, base ≤ k → ∀ body ts,
    Takes (whereClause? (Inner.ofDepth k)) (treesOf d.generics.whereTokens ++ braced body ts)
      (braced body ts)
  runtime : d.settings.runtime.Readable base

/-- What the members copy is a name where a name has to stand, and a type may open
with the path of the runtime library. -/
structure Fits (d : Declaration) : Prop where
  fields : ∀ f ∈ d.fields, f.name.isBlank = false
  params : ∀ p ∈ d.generics.params, p.isBlank = false
  runtime : d.settings.runtime.opensNoType = false

theorem element?_of_rule {s : FieldShape} {rule : DecodeRule} {t : DecodedType} {p : Path}
    (hrule : s.rule = some (rule, t)) (ht : t = .plain p ∨ t = .sequence p) : s.element? = some p := by
  cases s <;> simp only [FieldShape.rule, Option.some.injEq, Prod.mk.injEq, reduceCtorEq] at hrule
  all_goals
    obtain ⟨-, rfl⟩ := hrule
    rcases ht with ht | ht <;> cases ht
    rfl

/-- The name of an enumeration of keys is longer than any reserved word. -/
theorem legible_enumeration {i : Ident} (h : i.Legible) :
    (Ident.plain (i.name ++ "CodingKeys")).Legible := by
  constructor
  · obtain ⟨c, rest, hname, hc, hrest⟩ := h.text
    have hsuffix : ∀ d ∈ ['C', 'o', 'd', 'i', 'n', 'g', 'K', 'e', 'y', 's'],
        d ∉ ['"', '\'', '#'] := by simp
    refine ⟨c, rest ++ "CodingKeys".toList, ?_, hc, fun d hd => ?_⟩
    · show (i.name ++ "CodingKeys").toList = _
      rw [String.toList_append, hname, List.cons_append]
    · exact (List.mem_append.mp hd).elim (hrest d) (hsuffix d)
  · have hshort : ∀ w ∈ reserved, w.length < 10 := by decide
    have hmem : i.name ++ "CodingKeys" ∉ reserved := by
      intro hmem
      have hlt := hshort _ hmem
      rw [String.length_append] at hlt
      have hten : "CodingKeys".length = 10 := rfl
      omega
    simpa [isName, Ident.plain] using hmem

theorem Legible.field (h : d.Legible base) (hfits : d.Fits) {f : FieldDeclaration} (hf : f ∈ d.fields) :
    f.name.Legible :=
  ⟨h.texts f hf, (h.names f hf).resolve_right (Bool.eq_false_iff.mp (hfits.fields f hf))⟩

theorem mem_fields_of_keyed {f : FieldDeclaration} {i : Nat} (h : (f, i) ∈ d.keyedFields) :
    f ∈ d.fields :=
  (List.mem_zipIdx' (mem_keyedFields.mp h).1).2 ▸ List.getElem_mem _

/-- A statement reads one of the fields, at the type of its shape. -/
theorem exists_field_of_mem_decoding {s : DecodeStatement} (hs : s ∈ d.built.decoding) :
    ∃ f ∈ d.fields, s.key = f.name ∧ (FieldShape.of f.type).rule = some (s.rule, s.type) := by
  obtain ⟨c, hc, -, hkey, hrule⟩ := DecodeStatement.mem_decoding_iff.mp hs
  have hmem : c ∈ d.fields.map ClassifiedField.ofField :=
    (List.mem_zipIdx' hc).2 ▸ List.getElem_mem _
  obtain ⟨f, hf, rfl⟩ := List.mem_map.mp hmem
  exact ⟨f, hf, hkey, hrule⟩

/-- The members of a declaration that fits can be read. -/
theorem Legible.built (h : d.Legible base) (hfits : d.Fits) : d.built.Legible base where
  name := h.name
  enumeration := legible_enumeration h.name
  keys key hkey := by
    rw [keys_built] at hkey
    obtain ⟨⟨f, i⟩, hf, rfl⟩ := List.mem_map.mp hkey
    exact h.field hfits (mem_fields_of_keyed hf)
  decoding s hs := by
    obtain ⟨f, hf, hkey, -⟩ := exists_field_of_mem_decoding hs
    exact hkey ▸ h.field hfits hf
  types s hs p hp := by
    obtain ⟨f, hf, -, hrule⟩ := exists_field_of_mem_decoding hs
    exact h.types f hf p (element?_of_rule hrule hp)
  initializers i hi := by
    rw [initializers_built] at hi
    obtain ⟨⟨f, n⟩, hf, rfl⟩ := List.mem_map.mp hi
    exact h.field hfits ((List.mem_zipIdx' hf).2 ▸ List.getElem_mem _)
  encoding s hs := by
    rw [encoding_built] at hs
    obtain ⟨⟨f, i⟩, hf, rfl⟩ := List.mem_map.mp hs
    exact h.field hfits (mem_fields_of_keyed hf)
  visibility := h.visibility
  params p hp := h.params p hp (hfits.params p hp)
  conditions := h.conditions
  runtime := h.runtime
  opens := hfits.runtime

end Declaration

end RecordCoding
