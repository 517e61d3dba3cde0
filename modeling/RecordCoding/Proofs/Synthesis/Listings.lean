/-
Everything generated for a record lists its keyed fields in one order.

The keys, the code of their enumeration and the bodies that read and write are
made by functions that go through the fields each in its own way.
`Declaration.keyedFields` are the fields with a key, in the order of declaration
and with their positions, and every list is a list over them:

* `forall₂_decoding`, `initializers_eq` — the members as data;
* `variantCode_eq`, `decodeBody_eq` and their like — where the code shows them;
* `members_in_order` — all of it, for every declaration that gets members.

Design notes: a list is found in generated code by the groups around it, because
what stands in front of a group (a visibility, generics, a path) is code of the
declaration and may be of any length.
-/
import RecordCoding.Proofs.Synthesis.Statements

namespace RecordCoding

/-! ### Keyed fields -/

/-- Whether a field is stored and of a recognized shape. -/
def FieldDeclaration.keyed (f : FieldDeclaration) : Bool :=
  f.stored && (FieldShape.of f.type).recognized

/-- The keyed fields in the order of declaration, each with its position among
all fields. -/
def Declaration.keyedFields (d : Declaration) : List (FieldDeclaration × Nat) :=
  d.fields.zipIdx.filter (·.1.keyed)

theorem Declaration.mem_keyedFields {d : Declaration} {f : FieldDeclaration} {i : Nat} :
    (f, i) ∈ d.keyedFields ↔ (f, i) ∈ d.fields.zipIdx ∧ f.keyed :=
  List.mem_filter

/-- Without their positions, the keyed fields are drawn from the fields. -/
theorem Declaration.map_keyedFields {α : Type} (d : Declaration) (g : FieldDeclaration → α) :
    (d.keyedFields.map fun fi => g fi.1) = (d.fields.filter (·.keyed)).map g := by
  have hfst : d.keyedFields.map Prod.fst = d.fields.filter (·.keyed) := by
    rw [keyedFields, show (fun fi : FieldDeclaration × Nat => fi.1.keyed)
      = FieldDeclaration.keyed ∘ Prod.fst from rfl, ← List.filter_map, List.zipIdx_map_fst]
  rw [← hfst, List.map_map]
  rfl

/-- Classifying fields changes neither their number nor their order. -/
theorem ClassifiedField.ofFields_eq_map {strict : Bool} {fields : List FieldDeclaration}
    {classified : List ClassifiedField} (h : ofFields strict fields = .ok classified) :
    classified = fields.map ofField := by
  rw [ofFields] at h
  rcases hfind : (fields.map ofField).find? leftOut with _ | f
  · simp only [hfind] at h
    exact (Except.ok.inj h).symm
  · simp only [hfind] at h
    -- A field that would be left out is an error in strict mode only.
    cases strict with
    | false => exact (Except.ok.inj h).symm
    | true => exact absurd h (by simp)

/-- The members that all fields of a declaration together make. -/
def Declaration.built (d : Declaration) : Members :=
  .build d (d.fields.map ClassifiedField.ofField)

theorem Declaration.members_eq_built {d : Declaration} {m : Members} (h : d.members = .ok m) :
    m = d.built := by
  rw [members, validFields] at h
  by_cases hkind : d.kind = .record
  · rw [if_pos hkind] at h
    rcases hfields : ClassifiedField.ofFields d.settings.strict d.fields with e | classified
    · simp only [hfields] at h
      exact absurd h (by simp)
    · simp only [hfields] at h
      rw [← Except.ok.inj h, ClassifiedField.ofFields_eq_map hfields, built]
  · rw [if_neg hkind] at h
    exact absurd h (by simp)

/-! ### Members in order -/

/-- A statement reads a field at its position with what its shape asks for. -/
def ReadsField (s : DecodeStatement) (fi : FieldDeclaration × Nat) : Prop :=
  s.position = fi.2 ∧ s.key = fi.1.name ∧ (FieldShape.of fi.1.type).rule = some (s.rule, s.type)

/-- With distinct images, one element has the image of a given one. -/
theorem filter_eq_singleton_of_nodup {α : Type} {g : α → String} {l : List α} {a : α}
    (hnodup : (l.map g).Nodup) (ha : a ∈ l) : (l.filter fun b => g b == g a) = [a] := by
  induction l with
  | nil => exact absurd ha (by simp)
  | cons b rest ih =>
    rw [List.map_cons, List.nodup_cons] at hnodup
    rw [List.filter_cons]
    rcases List.mem_cons.mp ha with rfl | hrest
    · rw [if_pos (beq_self_eq_true _), List.cons.injEq, List.filter_eq_nil_iff]
      refine ⟨rfl, fun c hc hbeq => hnodup.1 ?_⟩
      rw [← beq_iff_eq.mp hbeq]
      exact List.mem_map_of_mem hc
    · have hne : g b ≠ g a := by
        intro heq
        rw [heq] at hnodup
        exact hnodup.1 (List.mem_map_of_mem hrest)
      rw [if_neg fun hbeq => hne (beq_iff_eq.mp hbeq)]
      exact ih hnodup.2 hrest

/-- The statements of the decoding are those of the keyed fields, one for each. -/
theorem forall₂_decoding (n : Nat) (fields : List FieldDeclaration) :
    List.Forall₂ ReadsField (DecodeStatement.ofFields n (fields.map ClassifiedField.ofField))
      ((fields.zipIdx n).filter (·.1.keyed)) := by
  induction fields generalizing n with
  | nil => exact .nil
  | cons f rest ih =>
    rw [List.map_cons, DecodeStatement.ofFields, List.zipIdx_cons, List.filter_cons]
    by_cases hkeyed : f.keyed
    · obtain ⟨⟨rule, type⟩, hrule⟩ :=
        FieldShape.exists_rule (ClassifiedField.recognized_of_keyed (f := .ofField f) hkeyed)
      have hs : DecodeStatement.ofField n (.ofField f) = some ⟨n, rule, type, f.name⟩ :=
        DecodeStatement.ofField_eq_some_iff.mpr ⟨hkeyed, rfl, rfl, hrule⟩
      rw [if_pos hkeyed, hs]
      exact .cons ⟨rfl, rfl, hrule⟩ (ih (n + 1))
    · have hs : DecodeStatement.ofField n (.ofField f) = none := if_neg hkeyed
      rw [if_neg hkeyed, hs]
      exact ih (n + 1)

/-- Every field is initialized once, from its local if it is keyed. -/
theorem initializers_eq (n : Nat) (fields : List FieldDeclaration) :
    Initializer.ofFields n (fields.map ClassifiedField.ofField)
      = (fields.zipIdx n).map fun fi =>
          ⟨fi.1.name, if fi.1.keyed then some fi.2 else none⟩ := by
  induction fields generalizing n with
  | nil => rfl
  | cons f rest ih =>
    rw [List.map_cons, Initializer.ofFields, ih, List.zipIdx_cons, List.map_cons]
    rfl

namespace Declaration

variable (d : Declaration)

theorem keys_built : d.built.registry.keys = d.keyedFields.map (·.1.name) := by
  rw [map_keyedFields d (·.name)]
  show ((d.fields.map ClassifiedField.ofField).filter (·.keyed)).map (·.name) = _
  rw [List.filter_map, List.map_map]
  rfl

theorem encoding_built :
    d.built.encoding = d.keyedFields.map fun fi => EncodeStatement.mk fi.1.name := by
  rw [map_keyedFields d fun f => EncodeStatement.mk f.name]
  show (d.fields.map ClassifiedField.ofField).filterMap EncodeStatement.ofField = _
  rw [EncodeStatement.filterMap_ofField, List.filter_map, List.map_map]
  rfl

theorem decoding_built : List.Forall₂ ReadsField d.built.decoding d.keyedFields :=
  forall₂_decoding 0 d.fields

theorem initializers_built :
    d.built.initializers
      = d.fields.zipIdx.map fun fi => ⟨fi.1.name, if fi.1.keyed then some fi.2 else none⟩ :=
  initializers_eq 0 d.fields

end Declaration

/-! ### Locals -/

theorem getElem?_bindingName (i : Nat) : (bindingName i).toList[2]? = some 'f' := by
  rw [bindingName, String.toList_append]
  rfl

/-- The locals of a decoding differ from each other and from what it is given
and opens. -/
theorem nodup_locals (fields : List ClassifiedField) :
    (Members.decoderName :: Members.container.spelled ::
      (DecodeStatement.ofFields 0 fields).map fun s => bindingName s.position).Nodup := by
  have hother : ∀ name : String, name.toList[2]? ≠ some 'f' →
      name ∉ (DecodeStatement.ofFields 0 fields).map fun s => bindingName s.position := by
    intro name hname hmem
    obtain ⟨s, -, rfl⟩ := List.mem_map.mp hmem
    exact hname (getElem?_bindingName s.position)
  have hlocals := DecodeStatement.bindingNames_nodup 0 fields
  refine List.nodup_cons.mpr ⟨?_, List.nodup_cons.mpr ⟨hother _ (by decide), hlocals⟩⟩
  rw [List.mem_cons, not_or]
  exact ⟨by decide, hother _ (by decide)⟩

/-- Every keyed field has a statement of its own, which alone binds its local. -/
theorem Declaration.filter_decoding_built {d : Declaration} {f : FieldDeclaration} {i : Nat}
    (h : (f, i) ∈ d.keyedFields) :
    ∃ s, (d.built.decoding.filter fun r => bindingName r.position == bindingName i) = [s] ∧
      ReadsField s (f, i) := by
  obtain ⟨s, hs, hreads⟩ := exists_mem_of_forall₂ d.decoding_built h
  have hnodup : (d.built.decoding.map fun r => bindingName r.position).Nodup :=
    DecodeStatement.bindingNames_nodup 0 (d.fields.map ClassifiedField.ofField)
  obtain rfl : s.position = i := hreads.1
  exact ⟨s, filter_eq_singleton_of_nodup hnodup hs, hreads⟩

/-! ### Code found by its groups -/

namespace Token

/-- What a token encloses, if it is a group with the delimiter. -/
def enclosed (δ : Delimiter) : Token → Option (List Token)
  | .group e body => if e = δ then some body else none
  | .word _ => none

/-- What the first group with a delimiter encloses; nothing without one. -/
def firstGroup (δ : Delimiter) (ts : List Token) : List Token :=
  (ts.filterMap (enclosed δ)).headD []

/-- What the last group with a delimiter encloses; nothing without one. -/
def lastGroup (δ : Delimiter) (ts : List Token) : List Token :=
  (ts.filterMap (enclosed δ)).getLastD []

variable {δ : Delimiter} {ts : List Token}

theorem firstGroup_append (h : ts.filterMap (enclosed δ) = []) (us : List Token) :
    firstGroup δ (ts ++ us) = firstGroup δ us := by
  rw [firstGroup, firstGroup, List.filterMap_append, h, List.nil_append]

/-- The last token decides, if it is a group. -/
theorem lastGroup_append {us body : List Token} (ts : List Token)
    (h : us.getLast? = some (.group δ body)) : lastGroup δ (ts ++ us) = body := by
  obtain ⟨vs, rfl⟩ := List.getLast?_eq_some_iff.mp h
  rw [lastGroup, ← List.append_assoc, List.filterMap_append,
    List.filterMap_cons_some (show enclosed δ (.group δ body) = some body from if_pos rfl)]
  exact List.getLastD_concat ..

/-- A visibility is written without braces. -/
theorem filterMap_visibility (v : Visibility) : v.tokens.filterMap (enclosed .brace) = [] := by
  cases v <;> rfl

end Token

namespace Members

variable (m : Members)

/-- The variants of the enumeration of keys. -/
def variantCode : List Token := Token.firstGroup .brace m.keysTokens

/-- The implementation of the trait for keys. -/
def keyCode : List Token := Token.lastGroup .brace m.keysTokens

/-- The elements of the list of all keys. -/
def allCode : List Token := Token.lastGroup .bracket m.keyCode

/-- The arms that choose the text of a key. -/
def armCode : List Token := Token.lastGroup .brace (Token.lastGroup .brace m.keyCode)

/-- The body of the function that reads a record. -/
def decodeBody : List Token := Token.lastGroup .brace (Token.lastGroup .brace m.decodeTokens)

/-- The initializers of the record that is read, which stand in the value at the end. -/
def literalCode : List Token := Token.lastGroup .brace (Token.lastGroup .parenthesis m.decodeBody)

/-- The body of the function that writes a record. -/
def encodeBody : List Token := Token.lastGroup .brace (Token.lastGroup .brace m.encodeTokens)

end Members

/-! ### The code of one field -/

namespace FieldDeclaration

/-- `Self::field` -/
def variantPath (f : FieldDeclaration) : List Token :=
  [.word "Self", .word "::", Token.ident f.name]

/-- `Self::field => "text",` -/
def armCode (f : FieldDeclaration) : List Token :=
  f.variantPath ++ [.word "=>", .word (Text.literal f.name.name), .word ","]

/-- `let __field0 = __container.decode::<T>(Keys::field)?;` -/
def readingCode (keys : Ident) (f : FieldDeclaration) (position : Nat) : List Token :=
  match (FieldShape.of f.type).rule with
  | some (rule, type) =>
    Token.words ["let", bindingName position, "=", "__container", ".", rule.operation, "::", "<"]
      ++ type.tokens
      ++ [.word ">", .group .parenthesis [Token.ident keys, .word "::", Token.ident f.name],
        .word "?", .word ";"]
  | none => []

/-- `field: __field0`, or `field: ::core::default::Default::default()` -/
def initialCode (f : FieldDeclaration) (position : Nat) : List Token :=
  [Token.ident f.name, .word ":"]
    ++ if f.keyed then [.word (bindingName position)]
       else Token.words ["::", "core", "::", "default", "::", "Default", "::", "default"]
         ++ [.group .parenthesis []]

/-- `__container.encode(&self.field, Keys::field)?;` -/
def writingCode (keys : Ident) (f : FieldDeclaration) : List Token :=
  [.word "__container", .word ".", .word "encode",
    .group .parenthesis [.word "&", .word "self", .word ".", Token.ident f.name, .word ",",
      Token.ident keys, .word "::", Token.ident f.name],
    .word "?", .word ";"]

end FieldDeclaration

/-! ### Code in order -/

namespace Members

variable (m : Members)

theorem variantCode_eq :
    m.variantCode
      = Token.joined (.word ",") (m.registry.keys.map fun key => [Token.ident key]) := by
  -- Neither the attributes in front of the enumeration nor its visibility have braces.
  rw [variantCode, keysTokens, KeyRegistry.tokens, List.append_assoc, List.append_assoc,
    List.append_assoc, Token.firstGroup_append rfl,
    Token.firstGroup_append (Token.filterMap_visibility m.visibility)]
  rfl

theorem keyCode_eq :
    m.keyCode
      = Token.words ["const", "ALL", ":", "&", "'static"]
        ++ [.group .bracket [.word "Self"], .word "=", .word "&",
          .group .bracket (Token.joined (.word ",")
            (m.registry.keys.map fun key => [.word "Self", .word "::", Token.ident key])),
          .word ";", .word "fn", .word "string_value", .group .parenthesis [.word "self"],
          .word "->", .word "&", .word "'static", .word "str"]
        ++ [.group .brace [.word "match", .word "self",
          .group .brace (m.registry.keys.flatMap fun key =>
            [.word "Self", .word "::", Token.ident key, .word "=>", .word (Text.literal key.name),
              .word ","])]] :=
  Token.lastGroup_append _ rfl

theorem decodeBody_eq :
    m.decodeBody
      = Token.words ["let", "__container", "=", "__decoder", ".", "container", "::", "<"]
        ++ [Token.ident m.registry.enumeration, .word ">", .group .parenthesis [], .word "?",
          .word ";"]
        ++ m.decoding.flatMap (DecodeStatement.tokens m.registry container)
        ++ okTokens [.word "Self",
          .group .brace (Token.joined (.word ",") (m.initializers.map Initializer.tokens))] := by
  rw [decodeBody, show Token.lastGroup .brace m.decodeTokens = _ from Token.lastGroup_append _ rfl]
  exact Token.lastGroup_append _ rfl

theorem encodeBody_eq :
    m.encodeBody
      = .word "let" :: (if m.encoding.isEmpty then [] else [.word "mut"])
        ++ (Token.words ["__container", "=", "__encoder", ".", "container", "::", "<"]
          ++ [Token.ident m.registry.enumeration, .word ">", .group .parenthesis [], .word ";"])
        ++ m.encoding.flatMap (EncodeStatement.tokens m.registry container)
        ++ okTokens [.group .parenthesis []] := by
  rw [encodeBody, show Token.lastGroup .brace m.encodeTokens = _ from Token.lastGroup_append _ rfl]
  exact Token.lastGroup_append _ rfl

theorem literalCode_eq :
    m.literalCode = Token.joined (.word ",") (m.initializers.map Initializer.tokens) := by
  rw [literalCode, decodeBody_eq,
    show Token.lastGroup .parenthesis _ = _ from Token.lastGroup_append _ rfl]
  rfl

end Members

/-- The keys are those of the keyed fields in order.  A key stands for the plain
name of its field, and no statement names another key. -/
structure KeysInOrder (d : Declaration) (m : Members) : Prop where
  keys : m.registry.keys = d.keyedFields.map (·.1.name)
  names : m.registry.names = d.keyedFields.map (·.1.name.name)
  text : ∀ key ∈ m.registry.keys, m.registry.textOf? key = some key.name
  names_nodup : (d.fields.map (·.name.name)).Nodup → m.registry.names.Nodup
  decoding : ∀ s ∈ m.decoding, s.key ∈ m.registry.keys
  encoding : ∀ s ∈ m.encoding, s.field ∈ m.registry.keys

/-- Statements are those of the keyed fields in order, initializers those of all
fields; an initializer takes its value from the one statement that binds its
local, which is the statement of the same field. -/
structure StatementsInOrder (d : Declaration) (m : Members) : Prop where
  decoding : List.Forall₂ ReadsField m.decoding d.keyedFields
  encoding : m.encoding = d.keyedFields.map fun fi => EncodeStatement.mk fi.1.name
  initializers : m.initializers
    = d.fields.zipIdx.map fun fi => ⟨fi.1.name, if fi.1.keyed then some fi.2 else none⟩
  locals : (Members.decoderName :: Members.container.spelled ::
    m.decoding.map fun s => bindingName s.position).Nodup
  bound : ∀ i ∈ m.initializers, ∀ position, i.source = some position →
    ∃ s, (m.decoding.filter fun r => bindingName r.position == bindingName position) = [s] ∧
      s.position = position ∧ s.key = i.field

/-- The code lists the keyed fields in order in all five places, and all fields
in the value at the end. -/
structure CodeInOrder (d : Declaration) (m : Members) : Prop where
  variants : m.variantCode
    = Token.joined (.word ",") (d.keyedFields.map fun fi => [Token.ident fi.1.name])
  all : m.allCode = Token.joined (.word ",") (d.keyedFields.map (·.1.variantPath))
  arms : m.armCode = d.keyedFields.flatMap (·.1.armCode)
  reading : m.decodeBody
    = Token.words ["let", "__container", "=", "__decoder", ".", "container", "::", "<"]
      ++ [Token.ident m.registry.enumeration, .word ">", .group .parenthesis [], .word "?",
        .word ";"]
      ++ d.keyedFields.flatMap (fun fi => fi.1.readingCode m.registry.enumeration fi.2)
      ++ Members.okTokens [.word "Self", .group .brace m.literalCode]
  literal : m.literalCode
    = Token.joined (.word ",") (d.fields.zipIdx.map fun fi => fi.1.initialCode fi.2)
  writing : m.encodeBody
    = .word "let" :: (if d.keyedFields.isEmpty then [] else [.word "mut"])
      ++ (Token.words ["__container", "=", "__encoder", ".", "container", "::", "<"]
        ++ [Token.ident m.registry.enumeration, .word ">", .group .parenthesis [], .word ";"])
      ++ d.keyedFields.flatMap (fun fi => fi.1.writingCode m.registry.enumeration)
      ++ Members.okTokens [.group .parenthesis []]

namespace Declaration

variable (d : Declaration)

theorem keysInOrder_built : KeysInOrder d d.built := by
  have hkeys : d.built.registry.keys = d.keyedFields.map (·.1.name) := d.keys_built
  have hnames : d.built.registry.names = d.keyedFields.map (·.1.name.name) := by
    rw [KeyRegistry.names, hkeys, List.map_map]
    rfl
  refine ⟨hkeys, hnames, ?_, ?_, ?_, ?_⟩
  · intro key hkey
    obtain ⟨f, hf, rfl⟩ := List.mem_map.mp hkey
    obtain ⟨hmem, hkeyed⟩ := List.mem_filter.mp hf
    exact KeyRegistry.textOf?_build d.name hmem hkeyed
  · intro hnodup
    rw [hnames, map_keyedFields d (·.name.name)]
    exact hnodup.sublist (List.filter_sublist.map _)
  · intro s hs
    obtain ⟨fi, hfi, -, hkey, -⟩ := exists_mem_of_forall₂ d.decoding_built.flip hs
    rw [hkeys, hkey]
    exact List.mem_map_of_mem hfi
  · intro s hs
    rw [encoding_built] at hs
    obtain ⟨fi, hfi, rfl⟩ := List.mem_map.mp hs
    rw [hkeys]
    exact List.mem_map_of_mem hfi

theorem statementsInOrder_built : StatementsInOrder d d.built := by
  refine ⟨d.decoding_built, d.encoding_built, d.initializers_built,
    nodup_locals (d.fields.map ClassifiedField.ofField), ?_⟩
  intro i hi position hsource
  rw [initializers_built] at hi
  obtain ⟨⟨f, n⟩, hmem, rfl⟩ := List.mem_map.mp hi
  -- Only a keyed field has a source, which is its own position.
  by_cases hkeyed : f.keyed
  · obtain rfl : n = position := by simpa [hkeyed] using hsource
    obtain ⟨s, hfilter, hposition, hkey, -⟩ :=
      filter_decoding_built (mem_keyedFields.mpr ⟨hmem, hkeyed⟩)
    exact ⟨s, hfilter, hposition, hkey⟩
  · exact absurd hsource (by simp [hkeyed])

/-- The code of a statement is that of the field it reads. -/
theorem tokens_of_readsField {s : DecodeStatement} {fi : FieldDeclaration × Nat}
    (h : ReadsField s fi) (keys : KeyRegistry) :
    s.tokens keys Members.container = fi.1.readingCode keys.enumeration fi.2 := by
  obtain ⟨position, rule, type, key⟩ := s
  obtain ⟨rfl, rfl, hrule⟩ := h
  rw [FieldDeclaration.readingCode, hrule]
  rfl

theorem codeInOrder_built : CodeInOrder d d.built := by
  have hreading : d.built.decoding.map (DecodeStatement.tokens d.built.registry Members.container)
      = d.keyedFields.map fun fi => fi.1.readingCode d.built.registry.enumeration fi.2 :=
    map_eq_map_of_forall₂ d.decoding_built fun s fi hs => tokens_of_readsField hs _
  have hliteral : d.built.initializers.map Initializer.tokens
      = d.fields.zipIdx.map fun fi => fi.1.initialCode fi.2 := by
    rw [initializers_built, List.map_map]
    refine List.map_congr_left fun fi _ => ?_
    rw [Function.comp, Initializer.tokens, FieldDeclaration.initialCode]
    by_cases hkeyed : fi.1.keyed
    · rw [if_pos hkeyed, if_pos hkeyed]
    · rw [if_neg hkeyed, if_neg hkeyed]
      rfl
  refine ⟨?_, ?_, ?_, ?_, ?_, ?_⟩
  · rw [Members.variantCode_eq, keys_built, List.map_map]
    rfl
  · rw [Members.allCode, Members.keyCode_eq, keys_built, List.map_map]
    rfl
  · rw [Members.armCode, Members.keyCode_eq, keys_built,
      show Token.lastGroup .brace _ = _ from Token.lastGroup_append _ rfl, List.flatMap_map]
    rfl
  · rw [Members.decodeBody_eq, Members.literalCode_eq, List.flatMap_def, List.flatMap_def, hreading]
  · rw [Members.literalCode_eq, hliteral]
  · rw [Members.encodeBody_eq, encoding_built, List.flatMap_map, List.isEmpty_map]
    rfl

end Declaration

/-- **One order everywhere.**  Whatever fields a declaration has, its members list
the keyed ones alike. -/
theorem Declaration.members_in_order {d : Declaration} {m : Members} (h : d.members = .ok m) :
    KeysInOrder d m ∧ StatementsInOrder d m ∧ CodeInOrder d m := by
  obtain rfl := members_eq_built h
  exact ⟨d.keysInOrder_built, d.statementsInOrder_built, d.codeInOrder_built⟩

/-! ### Fields named like locals -/

namespace Interleaved

def text : Path := .plain false [.plain "String"]

/-- Keyed fields with the names of a container, of a keyword and of a local,
around a field that is skipped and one without a shape. -/
def declaration : Declaration where
  name := .plain "Internal"
  kind := .record
  visibility := .everyone
  generics := .none
  settings := .initial
  fields :=
    [⟨.plain "cache", .named text, false⟩, ⟨.plain "__container", .named text, true⟩,
      ⟨.ofSpelling "r#type", .optional (.named text), true⟩,
      ⟨.plain "lookup", .optional (.optional (.named text)), true⟩,
      ⟨.plain "__field1", .sequence (.named text), true⟩]
  location := .start

/-- The value at the end takes each keyed field from the local of its position. -/
theorem literal_in_order :
    ∃ m, declaration.members = .ok m ∧
      m.registry.names = ["__container", "type", "__field1"] ∧
      m.allCode = Token.words
        ["Self", "::", "__container", ",", "Self", "::", "r#type", ",", "Self", "::", "__field1"] ∧
      m.literalCode
        = [.word "cache", .word ":"] ++ Initializer.defaultTokens
          ++ Token.words [",", "__container", ":", "__field1", ",", "r#type", ":", "__field2"]
          ++ [.word ",", .word "lookup", .word ":"] ++ Initializer.defaultTokens
          ++ Token.words [",", "__field1", ":", "__field4"] := by
  have hmembers : declaration.members = .ok declaration.built := by rfl
  obtain ⟨hkeys, -, hcode⟩ := Declaration.members_in_order hmembers
  refine ⟨declaration.built, hmembers, ?_, ?_, ?_⟩
  · rw [hkeys.names]
    rfl
  · rw [hcode.all]
    rfl
  · rw [hcode.literal]
    rfl

end Interleaved

end RecordCoding
