/-
The words of generated code.

Every word in the members of a record is one of a fixed vocabulary, a name that is
made for them, or one of the declaration's own (`Declaration.Speaks`).  Hence a word
that is neither fixed nor made gets into generated code only from the declaration.

* `Token.All` — what holds of every word in code, at any depth, by the ways in which
  code is put together;
* `Declaration.all_members` — the words of all members;
* `TypeExpression.allPaths_ofType` — the paths that a shape is made of stand in the
  type.
-/
import RecordCoding.Proofs.Synthesis.Agreement

namespace RecordCoding

namespace Token

mutual

/-- The words in a token, at any depth. -/
def leaves : Token → List String
  | .word w => [w]
  | .group _ body => leavesOf body

/-- The words in code, at any depth. -/
def leavesOf : List Token → List String
  | [] => []
  | t :: rest => t.leaves ++ leavesOf rest

end

/-- A property holds of every word in code. -/
def All (P : String → Prop) (ts : List Token) : Prop := ∀ w ∈ leavesOf ts, P w

variable {P : String → Prop} {ts us : List Token} {w : String}

@[simp] theorem all_nil : All P [] := by simp [All, leavesOf]

@[simp] theorem all_word : All P (.word w :: ts) ↔ P w ∧ All P ts := by
  simp [All, leavesOf, leaves]

@[simp] theorem all_ident {i : Ident} : All P (ident i :: ts) ↔ P i.spelled ∧ All P ts := all_word

@[simp] theorem all_group {δ : Delimiter} : All P (.group δ us :: ts) ↔ All P us ∧ All P ts := by
  simp [All, leavesOf, leaves, or_imp, forall_and]

theorem leavesOf_append : leavesOf (ts ++ us) = leavesOf ts ++ leavesOf us := by
  induction ts with
  | nil => rfl
  | cons t rest ih => rw [List.cons_append, leavesOf, ih, leavesOf, List.append_assoc]

@[simp] theorem all_append : All P (ts ++ us) ↔ All P ts ∧ All P us := by
  rw [All, leavesOf_append, List.forall_mem_append]
  rfl

@[simp] theorem all_words_nil : All P (words []) := all_nil

@[simp] theorem all_words_cons {ws : List String} :
    All P (words (w :: ws)) ↔ P w ∧ All P (words ws) := all_word

@[simp] theorem all_flatMap {α : Type} {l : List α} {f : α → List Token} :
    All P (l.flatMap f) ↔ ∀ a ∈ l, All P (f a) := by
  induction l with
  | nil => simp
  | cons a rest ih => rw [List.flatMap_cons, all_append, ih, List.forall_mem_cons]

theorem all_joined {separator : String} (hseparator : P separator) {parts : List (List Token)}
    (h : ∀ part ∈ parts, All P part) : All P (joined (.word separator) parts) := by
  induction parts with
  | nil => exact all_nil
  | cons part rest ih =>
    obtain ⟨hpart, hrest⟩ := List.forall_mem_cons.mp h
    cases rest with
    | nil => exact hpart
    | cons next rest => exact all_append.mpr ⟨hpart, all_word.mpr ⟨hseparator, ih hrest⟩⟩

/-- What is joined keeps the words of its parts. -/
theorem All.of_joined {separator : String} {parts : List (List Token)}
    (h : All P (joined (.word separator) parts)) : ∀ part ∈ parts, All P part := by
  induction parts with
  | nil => simp
  | cons part rest ih =>
    rw [List.forall_mem_cons]
    cases rest with
    | nil => exact ⟨h, by simp⟩
    | cons next rest =>
      obtain ⟨hpart, hrest⟩ := all_append.mp h
      exact ⟨hpart, ih (all_word.mp hrest).2⟩

theorem all_separated {separator : String} (hseparator : P separator) (trailing : Bool)
    {parts : List (List Token)} (h : ∀ part ∈ parts, All P part) :
    All P (separated (.word separator) trailing parts) := by
  refine all_append.mpr ⟨all_joined hseparator h, ?_⟩
  split
  · exact all_word.mpr ⟨hseparator, all_nil⟩
  · exact all_nil

theorem all_optional (hw : P w) (present : Bool) : All P (if present then [.word w] else []) := by
  cases present with
  | true => exact all_word.mpr ⟨hw, all_nil⟩
  | false => exact all_nil

theorem all_spaced (hcomma : P ",") {pairs : List ((Bool × List Token) × Bool)}
    (h : ∀ pair ∈ pairs, All P pair.1.2) (open' : Bool) : All P (angleTokens.spaced open' pairs) := by
  induction pairs generalizing open' with
  | nil => exact all_nil
  | cons pair rest ih =>
    obtain ⟨hpair, hrest⟩ := List.forall_mem_cons.mp h
    have hbefore : All P (if open' then [] else [.word ","]) := by
      cases open' with
      | true => exact all_nil
      | false => exact all_word.mpr ⟨hcomma, all_nil⟩
    rw [angleTokens.spaced, all_append, all_append, all_append]
    exact ⟨⟨⟨hbefore, hpair⟩, all_optional hcomma _⟩, ih hrest _⟩

theorem all_angleTokens (hopen : P "<") (hcomma : P ",") (hclose : P ">") (trailing : Bool)
    {arguments : List (Bool × List Token)} (h : ∀ a ∈ arguments, All P a.2) :
    All P (angleTokens trailing arguments) := by
  have hpairs : ∀ pair ∈ arguments.zip (List.replicate (arguments.length - 1) true ++ [trailing]),
      All P pair.1.2 := fun pair hpair => h _ (List.of_mem_zip hpair).1
  rw [angleTokens, all_append, List.cons_append, all_word, all_append, all_flatMap]
  refine ⟨⟨hopen, fun pair hpair => ?_, all_spaced hcomma (fun pair hpair => ?_) _⟩,
    all_word.mpr ⟨hclose, all_nil⟩⟩
  · exact all_append.mpr ⟨hpairs pair (List.mem_of_mem_filter hpair), all_optional hcomma _⟩
  · exact hpairs pair (List.mem_of_mem_filter hpair)

end Token

/-! ### The words of a declaration -/

/-- The words that generated code has whatever the declaration. -/
def fixedWords : List String :=
  ["::", ",", ":", "<", ">", "=", ".", "&", ";", "?", "+", "#", "->", "=>", "Self", "core", "result",
    "Result", "impl", "for", "fn", "let", "self", "mut", "'static", "'_", "std", "vec", "Vec", "doc",
    "allow", "derive", "enum", "const", "match", "str", "Ok", "ALL", "Clone", "Copy", "Debug",
    "PartialEq", "Eq", "Hash", "default", "Default", "encode", "decode", "decode_if_present",
    "container", "string_value", "non_camel_case_types", "__container", "__decoder", "__encoder",
    "CodingKey", "Decoder", "Encoder", "Decodable", "Encodable", "DecodeError", "EncodeError"]

namespace Declaration

/-- The code that members take over from a declaration: its name, its visibility,
its parameters and the conditions on them, the path of the runtime library, and
the names of the fields with the paths of their innermost types. -/
def ownTokens (d : Declaration) : List Token :=
  Token.ident d.name :: d.visibility.tokens ++ d.generics.params.flatMap GenericParam.tokens
    ++ d.generics.whereTokens ++ d.settings.runtime.tokens
    ++ d.fields.flatMap fun f =>
        Token.ident f.name :: (FieldShape.of f.type).element?.elim [] Path.tokens

/-- The words that members may have. -/
inductive Speaks (d : Declaration) : String → Prop
  | fixed {w : String} (h : w ∈ fixedWords) : Speaks d w
  /-- The name of the enumeration of keys. -/
  | enumeration : Speaks d (d.name.name ++ "CodingKeys")
  /-- The documentation of the enumeration. -/
  | documentation : Speaks d (Text.literal d.built.registry.documentation)
  /-- The text of a key. -/
  | text {f : FieldDeclaration} (h : f ∈ d.fields) : Speaks d (Text.literal f.name.name)
  /-- The local of a field. -/
  | binding {position : Nat} (h : position < d.fields.length) : Speaks d (bindingName position)
  | own {w : String} (h : w ∈ Token.leavesOf d.ownTokens) : Speaks d w

end Declaration

/-! ### Generics and bounds -/

section

open Token

variable {P : String → Prop}

/-- The bounds of a parameter, as they are written behind its name. -/
theorem Bound.all_of_written {bounds : List Bound} {trailing : Bool}
    (h : All P (if bounds.isEmpty then []
      else .word ":" :: separated (.word "+") trailing (Bound.tokensOfList bounds))) :
    ∀ part ∈ Bound.tokensOfList bounds, All P part := by
  cases bounds with
  | nil => simp [Bound.tokensOfList]
  | cons first rest =>
    rw [if_neg (by simp), all_word, separated, all_append] at h
    exact h.2.1.of_joined

theorem GenericParam.all_bounded {p : GenericParam} {b : Bound} (hp : All P p.tokens)
    (hb : All P b.tokens) (hcolon : P ":") (hplus : P "+") :
    All P (p.bounded b).withoutDefault.tokens := by
  cases p with
  | lifetime => exact hp
  | type attributes name bounds trailing fallback =>
    -- The bounds before the new one are those that the parameter was written with.
    have hempty : (bounds ++ [b]).isEmpty = false := by simp
    simp only [bounded, withoutDefault, tokens, hempty, all_append, all_ident,
      Bool.false_eq_true, if_false, all_word] at hp ⊢
    obtain ⟨⟨hattributes, hname, hbounds⟩, -⟩ := hp
    refine ⟨⟨hattributes, hname, hcolon, all_separated hplus _ ?_⟩, ?_⟩
    · rw [Bound.tokensOfList_concat, List.forall_mem_append, List.forall_mem_singleton]
      exact ⟨Bound.all_of_written hbounds, hb⟩
    · exact all_nil
  | constant attributes name t fallback =>
    simp only [bounded, withoutDefault, tokens, all_append] at hp ⊢
    exact ⟨hp.1, all_nil⟩

theorem GenericParam.all_argumentTokens {p : GenericParam} (hp : All P p.tokens) :
    All P p.argumentTokens := by
  cases p with
  | lifetime attributes name outlives trailing =>
    simp only [tokens, all_append, all_word] at hp
    exact all_word.mpr ⟨hp.2.1, all_nil⟩
  | type attributes name bounds trailing fallback =>
    simp only [tokens, all_append, all_ident] at hp
    exact all_ident.mpr ⟨hp.1.2.1, all_nil⟩
  | constant attributes name t fallback =>
    simp only [tokens, all_append, all_word, all_ident] at hp
    exact all_ident.mpr ⟨hp.1.1.2.2.1, all_nil⟩

theorem all_runtimeTokens {runtime : Path} {name : String} (hruntime : All P runtime.tokens)
    (hcolons : P "::") (hname : P name) : All P (runtimeTokens runtime name) := by
  rw [runtimeTokens, all_append, all_word, all_word]
  exact ⟨hruntime, hcolons, hname, all_nil⟩

theorem all_runtimeBound {runtime : Path} {name : String} (hruntime : All P runtime.tokens)
    (hcolons : P "::") (hname : P name) : All P (Members.runtimeBound runtime name).tokens := by
  obtain ⟨leading, segments⟩ := runtime
  cases segments with
  -- A path without steps: the trait stands on its own.
  | nil =>
    simp only [Members.runtimeBound, Path.segments, Path.leading, List.nil_append, Bound.tokens,
      Bool.false_eq_true, if_false, Binder.tokensOfOption, Path.tokens, Segment.tokens,
      Arguments.tokens, Segment.stepsTokens, List.append_nil, all_append, all_ident]
    exact ⟨all_optional hcolons leading, hname, all_nil⟩
  | cons first rest =>
    obtain ⟨i, arguments⟩ := first
    rw [SameRuntime.tokens_runtimeBound (by simp [Path.tokens, Segment.tokens])]
    exact all_runtimeTokens hruntime hcolons hname

end

/-! ### The words of members -/

namespace Declaration

open Token

variable (d : Declaration)

/-- A declaration's own code, part by part. -/
structure OwnWords (P : String → Prop) : Prop where
  name : P d.name.spelled
  visibility : All P d.visibility.tokens
  params : ∀ p ∈ d.generics.params, All P p.tokens
  conditions : All P d.generics.whereTokens
  runtime : All P d.settings.runtime.tokens
  fieldNames : ∀ f ∈ d.fields, P f.name.spelled
  fieldTypes : ∀ f ∈ d.fields, ∀ p, (FieldShape.of f.type).element? = some p → All P p.tokens

theorem ownWords : d.OwnWords d.Speaks := by
  have hall : All d.Speaks d.ownTokens := fun _ h => .own h
  simp only [ownTokens, all_append, all_ident, all_flatMap, List.cons_append] at hall
  obtain ⟨hname, ⟨⟨⟨hvisibility, hparams⟩, hconditions⟩, hruntime⟩, hfields⟩ := hall
  refine ⟨hname, hvisibility, hparams, hconditions, hruntime, fun f hf => (hfields f hf).1, ?_⟩
  intro f hf p hp
  have htype := (hfields f hf).2
  rwa [hp] at htype

variable {d}

theorem all_runtime {name : String} (hname : name ∈ fixedWords) :
    All d.Speaks (runtimeTokens d.settings.runtime name) :=
  all_runtimeTokens d.ownWords.runtime (.fixed (by decide)) (.fixed hname)

theorem all_listTokens {f : GenericParam → List Token} (generics : Generics)
    (h : ∀ p ∈ generics.params, All d.Speaks (f p)) : All d.Speaks (generics.listTokens f) := by
  rw [Generics.listTokens]
  split
  · exact all_nil
  · refine all_angleTokens (.fixed (by decide)) (.fixed (by decide)) (.fixed (by decide)) _ ?_
    simpa using h

theorem all_headTokens {name : String} (hname : name ∈ fixedWords) :
    All d.Speaks (d.built.headTokens name) := by
  have hbound : All d.Speaks (Members.runtimeBound d.settings.runtime name).tokens :=
    all_runtimeBound d.ownWords.runtime (.fixed (by decide)) (.fixed hname)
  have himpl : All d.Speaks (d.built.boundedGenerics name).implTokens := by
    refine all_listTokens _ fun p hp => ?_
    obtain ⟨q, hq, rfl⟩ := List.mem_map.mp hp
    exact GenericParam.all_bounded (d.ownWords.params q hq) hbound (.fixed (by decide))
      (.fixed (by decide))
  have hargument : All d.Speaks (d.built.boundedGenerics name).argumentTokens := by
    rw [Members.boundedGenerics, Generics.argumentTokens_bounded]
    exact all_listTokens _ fun p hp => GenericParam.all_argumentTokens (d.ownWords.params p hp)
  have hwhere : All d.Speaks (d.built.boundedGenerics name).whereTokens := d.ownWords.conditions
  rw [Members.headTokens]
  have hruntime : All d.Speaks (runtimeTokens d.built.runtime name) := all_runtime hname
  have hown : d.Speaks d.built.name.spelled := d.ownWords.name
  simp (disch := decide) [himpl, hargument, hwhere, hruntime, hown, Speaks.fixed]

theorem all_resultTokens {value : List Token} {error : String} (hvalue : All d.Speaks value)
    (herror : error ∈ fixedWords) : All d.Speaks (d.built.resultTokens value error) := by
  have hruntime : All d.Speaks (runtimeTokens d.built.runtime error) := all_runtime herror
  simp (disch := decide) [Members.resultTokens, hvalue, hruntime, Speaks.fixed]

theorem all_okTokens {value : List Token} (hvalue : All d.Speaks value) :
    All d.Speaks (Members.okTokens value) := by
  simp (disch := decide) [Members.okTokens, hvalue, Speaks.fixed]

theorem speaks_enumeration : d.Speaks d.built.registry.enumeration.spelled := .enumeration

theorem all_keyTokens {f : FieldDeclaration} (hf : f ∈ d.fields) :
    All d.Speaks (d.built.registry.keyTokens f.name) := by
  simp (disch := decide) [KeyRegistry.keyTokens, speaks_enumeration, d.ownWords.fieldNames f hf,
    Speaks.fixed]

theorem mem_fields_of_keyedFields {fi : FieldDeclaration × Nat} (h : fi ∈ d.keyedFields) :
    fi.1 ∈ d.fields :=
  List.fst_mem_of_mem_zipIdx (mem_keyedFields.mp h).1

/-- What a shape is read at shows the path of its innermost type. -/
theorem all_typeTokens {f : FieldDeclaration} (hf : f ∈ d.fields) {rule : DecodeRule}
    {type : DecodedType} (hrule : (FieldShape.of f.type).rule = some (rule, type)) :
    All d.Speaks type.tokens := by
  have hpath := d.ownWords.fieldTypes f hf
  cases hshape : FieldShape.of f.type <;> rw [hshape] at hrule hpath <;>
    simp only [FieldShape.rule, Option.some.injEq, Prod.mk.injEq, reduceCtorEq] at hrule <;>
    obtain ⟨-, rfl⟩ := hrule
  all_goals simp (disch := decide) [DecodedType.tokens, hpath _ rfl, Speaks.fixed]

theorem all_decodeStatement {s : DecodeStatement} (hs : s ∈ d.built.decoding) :
    All d.Speaks (s.tokens d.built.registry Members.container) := by
  obtain ⟨fi, hfi, hposition, hkey, hrule⟩ := exists_mem_of_forall₂ d.decoding_built.flip hs
  have hf := mem_fields_of_keyedFields hfi
  have hbinding : d.Speaks (bindingName s.position) :=
    .binding (hposition ▸ List.snd_lt_of_mem_zipIdx (mem_keyedFields.mp hfi).1)
  have hcontainer : d.Speaks Members.container.spelled := .fixed (by decide)
  have hoperation : d.Speaks s.rule.operation := by
    cases s.rule <;> exact .fixed (by decide)
  have hkeyTokens := all_keyTokens hf
  rw [← hkey] at hkeyTokens
  simp (disch := decide) [DecodeStatement.tokens, hbinding, hcontainer, hoperation, hkeyTokens,
    all_typeTokens hf hrule, Speaks.fixed]

theorem all_encodeStatement {s : EncodeStatement} (hs : s ∈ d.built.encoding) :
    All d.Speaks (s.tokens d.built.registry Members.container) := by
  rw [encoding_built] at hs
  obtain ⟨fi, hfi, rfl⟩ := List.mem_map.mp hs
  have hf := mem_fields_of_keyedFields hfi
  have hcontainer : d.Speaks Members.container.spelled := .fixed (by decide)
  simp (disch := decide) [EncodeStatement.tokens, hcontainer, all_keyTokens hf,
    d.ownWords.fieldNames _ hf, Speaks.fixed]

theorem all_initializer {i : Initializer} (hi : i ∈ d.built.initializers) :
    All d.Speaks i.tokens := by
  rw [initializers_built] at hi
  obtain ⟨fi, hfi, rfl⟩ := List.mem_map.mp hi
  have hf : fi.1 ∈ d.fields := List.fst_mem_of_mem_zipIdx hfi
  have hbinding : d.Speaks (bindingName fi.2) := .binding (List.snd_lt_of_mem_zipIdx hfi)
  rw [Initializer.tokens]
  cases fi.1.keyed <;>
    simp (disch := decide) [Initializer.defaultTokens, hbinding, d.ownWords.fieldNames _ hf, Speaks.fixed]

theorem all_keysTokens : All d.Speaks d.built.keysTokens := by
  have hkey : ∀ k ∈ d.built.registry.keys, d.Speaks k.spelled ∧ d.Speaks (Text.literal k.name) := by
    intro k hk
    rw [keys_built] at hk
    obtain ⟨fi, hfi, rfl⟩ := List.mem_map.mp hk
    have hf := mem_fields_of_keyedFields hfi
    exact ⟨d.ownWords.fieldNames _ hf, .text hf⟩
  -- The pieces of the code one by one, each made of words that are known.
  have hcomma : d.Speaks "," := .fixed (by decide)
  have hderived : All d.Speaks (joined (.word ",")
      (["Clone", "Copy", "Debug", "PartialEq", "Eq", "Hash"].map fun w => [Token.word w])) :=
    all_joined hcomma (by simp (disch := decide) [Speaks.fixed])
  have hvariants : All d.Speaks
      (joined (.word ",") (d.built.registry.keys.map fun k => [Token.ident k])) := by
    refine all_joined hcomma fun part hpart => ?_
    obtain ⟨k, hk, rfl⟩ := List.mem_map.mp hpart
    simp [hkey k hk]
  have hall : All d.Speaks (joined (.word ",")
      (d.built.registry.keys.map fun k => [.word "Self", .word "::", Token.ident k])) := by
    refine all_joined hcomma fun part hpart => ?_
    obtain ⟨k, hk, rfl⟩ := List.mem_map.mp hpart
    simp (disch := decide) [hkey k hk, Speaks.fixed]
  have harms : All d.Speaks (d.built.registry.keys.flatMap fun k =>
      [.word "Self", .word "::", Token.ident k] ++ [.word "=>", .word (Text.literal k.name), .word ","]) := by
    refine all_flatMap.mpr fun k hk => ?_
    simp (disch := decide) [hkey k hk, Speaks.fixed]
  have hruntime : All d.Speaks (runtimeTokens d.built.runtime "CodingKey") := all_runtime (by decide)
  have hvisibility : All d.Speaks d.built.visibility.tokens := d.ownWords.visibility
  have hdocumentation : d.Speaks (Text.literal d.built.registry.documentation) := .documentation
  rw [Members.keysTokens, KeyRegistry.tokens]
  simp only [all_append, all_word, all_ident, all_group, all_words_cons, hderived, hvariants, hall, harms,
    hruntime, hvisibility, hdocumentation, speaks_enumeration]
  simp (disch := decide) [Speaks.fixed]

theorem all_decodeTokens : All d.Speaks d.built.decodeTokens := by
  have hinitializers : All d.Speaks (joined (.word ",") (d.built.initializers.map Initializer.tokens)) :=
    all_joined (.fixed (by decide)) fun part hpart => by
      obtain ⟨i, hi, rfl⟩ := List.mem_map.mp hpart
      exact all_initializer hi
  have hstatements : All d.Speaks
      (d.built.decoding.flatMap (DecodeStatement.tokens d.built.registry Members.container)) :=
    all_flatMap.mpr fun s hs => all_decodeStatement hs
  have hdecoder : d.Speaks Members.decoderName := .fixed (by decide)
  have hcontainer : d.Speaks Members.container.spelled := .fixed (by decide)
  have hruntime : All d.Speaks (runtimeTokens d.built.runtime "Decoder") := all_runtime (by decide)
  have hhead : All d.Speaks (d.built.headTokens "Decodable") := all_headTokens (by decide)
  have hself : d.Speaks "Self" := .fixed (by decide)
  have hresult : All d.Speaks (d.built.resultTokens [.word "Self"] "DecodeError") :=
    all_resultTokens (by simp [hself]) (by decide)
  have hok : All d.Speaks (Members.okTokens [.word "Self", .group .brace
      (joined (.word ",") (d.built.initializers.map Initializer.tokens))]) :=
    all_okTokens (by simp [hself, hinitializers])
  rw [Members.decodeTokens]
  simp only [all_append, all_word, all_ident, all_group, all_words_cons, hstatements, hdecoder, hcontainer,
    hruntime, hhead, hresult, hok, speaks_enumeration]
  simp (disch := decide) [Speaks.fixed]

theorem all_encodeTokens : All d.Speaks d.built.encodeTokens := by
  have hstatements : All d.Speaks
      (d.built.encoding.flatMap (EncodeStatement.tokens d.built.registry Members.container)) :=
    all_flatMap.mpr fun s hs => all_encodeStatement hs
  have hencoder : d.Speaks Members.encoderName := .fixed (by decide)
  have hcontainer : d.Speaks Members.container.spelled := .fixed (by decide)
  have hruntime : All d.Speaks (runtimeTokens d.built.runtime "Encoder") := all_runtime (by decide)
  have hhead : All d.Speaks (d.built.headTokens "Encodable") := all_headTokens (by decide)
  have hresult : All d.Speaks (d.built.resultTokens [.group .parenthesis []] "EncodeError") :=
    all_resultTokens (by simp) (by decide)
  have hok : All d.Speaks (Members.okTokens [.group .parenthesis []]) := all_okTokens (by simp)
  have hmutable : All d.Speaks (if d.built.encoding.isEmpty then [] else [.word "mut"]) := by
    split
    · exact all_nil
    · simp (disch := decide) [Speaks.fixed]
  rw [Members.encodeTokens]
  simp only [List.cons_append, all_append, all_word, all_ident, all_group, all_words_cons, hstatements,
    hencoder, hcontainer, hruntime, hhead, hresult, hok, hmutable, speaks_enumeration]
  simp (disch := decide) [Speaks.fixed]

/-- Every word of the members is fixed, made for them, or the declaration's own. -/
theorem all_members (d : Declaration) : All d.Speaks d.built.tokens :=
  all_append.mpr ⟨all_append.mpr ⟨all_keysTokens, all_decodeTokens⟩, all_encodeTokens⟩

/-- A word that is not fixed is the declaration's own, if it begins and ends like none
that is made.  Texts and bindings give themselves away by how they begin, the
enumeration by how it ends. -/
theorem Speaks.own_of_unmade {w : String} (h : d.Speaks w) (hfixed : w ∉ fixedWords)
    (hfirst : w.toList.head? ∉ [some '"', some '_']) (hlast : w.toList.getLast? ≠ some 's') :
    w ∈ Token.leavesOf d.ownTokens := by
  cases h with
  | fixed h => exact absurd h hfixed
  | enumeration => exact absurd (by simp) hlast
  | documentation => exact absurd (by simp [Text.literal]) hfirst
  | text => exact absurd (by simp [Text.literal]) hfirst
  | binding => exact absurd (by simp [bindingName]) hfirst
  | own hown => exact hown

end Declaration

/-! ### The words of a type -/

namespace TypeExpression

open Token

variable {P : String → Prop}

/-- The paths that a shape can be made of have words with a property only. -/
def AllPaths (P : String → Prop) : TypeExpression → Prop
  | named p => All P p.tokens
  | optional content => content.AllPaths P
  | sequence element => element.AllPaths P
  | other _ => True

theorem AllPaths.element {e : TypeExpression} (h : e.AllPaths P) {p : Path}
    (hp : (FieldShape.of e).element? = some p) : All P p.tokens := by
  rcases e with q | (q | _ | (q | _ | _ | _) | _) | (q | _ | _ | _) | _ <;>
    simp only [FieldShape.of, FieldShape.element?, Option.some.injEq, reduceCtorEq] at hp <;>
    exact hp ▸ h

theorem all_of_angleTokens {trailing isLifetime : Bool} {ts : List Token}
    (h : All P (angleTokens trailing [(isLifetime, ts)])) : All P ts := by
  cases isLifetime <;> simp [angleTokens, angleTokens.spaced] at h
  · exact h.2.1
  · exact h.2.1

theorem all_of_path {leading : Bool} {segments : List Segment}
    (h : All P (Path.mk leading segments).tokens) : ∀ s ∈ segments, All P s.tokens := by
  have hsteps : ∀ steps, All P (Segment.stepsTokens steps) → ∀ s ∈ steps, All P s.tokens := by
    intro steps
    induction steps with
    | nil => simp
    | cons s rest ih =>
      intro h
      rw [Segment.stepsTokens, List.cons_append, all_word, all_append] at h
      exact List.forall_mem_cons.mpr ⟨h.2.1, ih h.2.2⟩
  cases segments with
  | nil => simp
  | cons s rest =>
    rw [Path.tokens, all_append, all_append] at h
    exact List.forall_mem_cons.mpr ⟨h.1.2, hsteps rest h.2⟩

mutual

/-- A type shows the paths that its shape can be made of. -/
theorem allPaths_ofType : ∀ t : Ty, All P t.tokens → (ofType t).AllPaths P
  | .paren inner, h => by
    rw [ofType]
    rw [Ty.tokens, all_group] at h
    exact allPaths_ofType inner h.1
  | .group inner, h => by
    rw [ofType]
    rw [Ty.tokens] at h
    exact allPaths_ofType inner h
  | .path (.mk leading segments), h => by
    have hpath : All P (Path.mk leading segments).tokens := by rwa [Ty.tokens] at h
    have hargument := allPaths_argumentOfLast segments (all_of_path hpath)
    have hplain : (if (Path.mk leading segments).bare then named (.mk leading segments)
        else other (.path (.mk leading segments))).AllPaths P := by
      split
      · exact hpath
      · trivial
    rw [ofType]
    rcases hlast : argumentOfLast segments with _ | e
    · exact hplain
    · simp only
      split
      · exact hargument e hlast
      -- No optional, but it may be a sequence.
      · split
        · exact hargument e hlast
        · exact hplain
  | .qualified .., _ => trivial
  | .reference .., _ => trivial
  | .pointer .., _ => trivial
  | .slice .., _ => trivial
  | .array .., _ => trivial
  | .tuple .., _ => trivial
  | .function .., _ => trivial
  | .variadic, _ => trivial
  | .never, _ => trivial
  | .infer, _ => trivial
  | .object .., _ => trivial
  | .implementor .., _ => trivial
  | .call .., _ => trivial
  | .verbatim .., _ => trivial

theorem allPaths_argumentOfLast : ∀ segments : List Segment, (∀ s ∈ segments, All P s.tokens) →
    ∀ e, argumentOfLast segments = some e → e.AllPaths P
  | [], _, e, he => absurd he (by simp [argumentOfLast])
  | [s], h, e, he => allPaths_argumentOfStep s (h s (List.mem_singleton_self s)) e he
  | _ :: s :: rest, h, e, he =>
    allPaths_argumentOfLast (s :: rest) (fun u hu => h u (List.mem_cons_of_mem _ hu)) e he

theorem allPaths_argumentOfStep : ∀ s : Segment, All P s.tokens →
    ∀ e, argumentOfStep s = some e → e.AllPaths P
  | .mk name arguments, h, e, he => by
    rw [Segment.tokens, all_ident] at h
    exact allPaths_soleArgument arguments h.2 e he

theorem allPaths_soleArgument : ∀ arguments : Arguments, All P arguments.tokens →
    ∀ e, soleArgument arguments = some e → e.AllPaths P
  | .none, _, e, he => absurd he (by simp [soleArgument])
  | .function .., _, e, he => absurd he (by simp [soleArgument])
  | .angle _ [] _, _, e, he => absurd he (by simp [soleArgument, soleOf])
  | .angle _ (_ :: _ :: _) _, _, e, he => absurd he (by simp [soleArgument, soleOf])
  | .angle marked [a] trailing, h, e, he => by
    rw [Arguments.tokens, all_append] at h
    exact allPaths_typeArgument a (all_of_angleTokens h.2) e he

theorem allPaths_typeArgument : ∀ a : Argument, All P a.tokens →
    ∀ e, typeArgument a = some e → e.AllPaths P
  | .type t, h, e, he => by
    rw [typeArgument, Option.some.injEq] at he
    rw [Argument.tokens] at h
    exact he ▸ allPaths_ofType t h
  | .lifetime _, _, e, he => absurd he (by simp [typeArgument])
  | .constant _, _, e, he => absurd he (by simp [typeArgument])
  | .associatedType .., _, e, he => absurd he (by simp [typeArgument])
  | .associatedConstant .., _, e, he => absurd he (by simp [typeArgument])
  | .constraint .., _, e, he => absurd he (by simp [typeArgument])

end

end TypeExpression

end RecordCoding
