/-
The path of the runtime library is a parameter of generated code.

Code generated with some path is the code generated with a name that occurs nowhere
else, the tokens of the path put in for the name.  So whatever refers to the runtime
library does it through the path, and no other library is meant in its place.

* `Token.substituteIn` — code with tokens put in for a word;
* `Declaration.Unspoken` — a word is new to a declaration and to all that is generated
  for it;
* `Declaration.substituteIn_headTokens` — the places where the path stands in the head
  of an implementation, one bound for each type parameter among them;
* `Declaration.runtime_parametric` — the members of every declaration.

Design notes: code that does not show the path is the same under every path.  It is
looked up in the vocabulary of the declaration without a path, so only the places
where the path stands need a look of their own: the traits that are implemented, the
types of parameters and errors, and one bound for each type parameter.  A path has a
step at least: nothing can be found through an empty one.
-/
import RecordCoding.Proofs.Synthesis.Vocabulary

namespace RecordCoding

/-! ### Code put in for a word -/

namespace Token

mutual

/-- A token with code put in for a word, at any depth. -/
def substitute (x : String) (code : List Token) : Token → List Token
  | .word w => if w = x then code else [.word w]
  | .group δ body => [.group δ (substituteIn x code body)]

/-- Tokens with code put in for a word. -/
def substituteIn (x : String) (code : List Token) : List Token → List Token
  | [] => []
  | t :: rest => substitute x code t ++ substituteIn x code rest

end

variable {x : String} {code ts us : List Token}

@[simp] theorem substituteIn_nil : substituteIn x code [] = [] := rfl

theorem substituteIn_word {w : String} (h : w ≠ x) :
    substituteIn x code (.word w :: ts) = .word w :: substituteIn x code ts := by
  rw [substituteIn, substitute, if_neg h]
  rfl

theorem substituteIn_self : substituteIn x code (.word x :: ts) = code ++ substituteIn x code ts := by
  rw [substituteIn, substitute, if_pos rfl]

@[simp] theorem substituteIn_group {δ : Delimiter} :
    substituteIn x code (.group δ us :: ts) = .group δ (substituteIn x code us) :: substituteIn x code ts := by
  rw [substituteIn, substitute]
  rfl

@[simp] theorem substituteIn_append :
    substituteIn x code (ts ++ us) = substituteIn x code ts ++ substituteIn x code us := by
  induction ts with
  | nil => rfl
  | cons t rest ih => rw [List.cons_append, substituteIn, ih, substituteIn, List.append_assoc]

mutual

theorem substitute_of_leaves : ∀ t : Token, (∀ w ∈ t.leaves, w ≠ x) → substitute x code t = [t]
  | .word w, h => by rw [substitute, if_neg (h w (List.mem_singleton_self w))]
  | .group δ body, h => by rw [substitute, substituteIn_of_all body h]

/-- Code without the word stays as it is. -/
theorem substituteIn_of_all : ∀ ts : List Token, All (· ≠ x) ts → substituteIn x code ts = ts
  | [], _ => rfl
  | t :: rest, h => by
    obtain ⟨ht, hrest⟩ := List.forall_mem_append.mp h
    rw [substituteIn, substitute_of_leaves t ht, substituteIn_of_all rest hrest]
    rfl

end

theorem substituteIn_joined {separator : String} (hseparator : separator ≠ x)
    (parts : List (List Token)) :
    substituteIn x code (joined (.word separator) parts)
      = joined (.word separator) (parts.map (substituteIn x code)) := by
  induction parts with
  | nil => rfl
  | cons part rest ih =>
    cases rest with
    | nil => rfl
    | cons next rest =>
      rw [joined, substituteIn_append, substituteIn_word hseparator, ih]
      · rfl
      · simp

theorem substituteIn_optional {w : String} (hw : w ≠ x) (present : Bool) :
    substituteIn x code (if present then [.word w] else []) = if present then [.word w] else [] := by
  cases present with
  | true => exact substituteIn_word hw
  | false => rfl

/-- Arguments with code put in. -/
def substituteArgument (x : String) (code : List Token) (a : Bool × List Token) : Bool × List Token :=
  (a.1, substituteIn x code a.2)

theorem substituteIn_spaced (hcomma : "," ≠ x) (pairs : List ((Bool × List Token) × Bool))
    (open' : Bool) :
    substituteIn x code (angleTokens.spaced open' pairs)
      = angleTokens.spaced open' (pairs.map (Prod.map (substituteArgument x code) id)) := by
  induction pairs generalizing open' with
  | nil => rfl
  | cons pair rest ih =>
    have hbefore : substituteIn x code (if open' then [] else [.word ","])
        = if open' then [] else [.word ","] := by
      cases open' with
      | true => rfl
      | false => exact substituteIn_word hcomma
    rw [List.map_cons, angleTokens.spaced, angleTokens.spaced]
    simp only [substituteIn_append, substituteIn_optional hcomma, hbefore, ih]
    rfl

theorem substituteIn_flatMap {α β : Type} {f : α → List Token} {g : β → List Token} (φ : α → β)
    (h : ∀ a, substituteIn x code (f a) = g (φ a)) (l : List α) :
    substituteIn x code (l.flatMap f) = (l.map φ).flatMap g := by
  induction l with
  | nil => rfl
  | cons a rest ih => rw [List.flatMap_cons, substituteIn_append, h, ih]; rfl

/-- Arguments in angle brackets keep their order and their commas. -/
theorem substituteIn_angleTokens (hopen : "<" ≠ x) (hcomma : "," ≠ x) (hclose : ">" ≠ x)
    (trailing : Bool) (arguments : List (Bool × List Token)) :
    substituteIn x code (angleTokens trailing arguments)
      = angleTokens trailing (arguments.map (substituteArgument x code)) := by
  have hwritten (pairs : List ((Bool × List Token) × Bool)) :
      substituteIn x code (pairs.flatMap fun pair => pair.1.2 ++ if pair.2 then [.word ","] else [])
        = (pairs.map (Prod.map (substituteArgument x code) id)).flatMap fun pair =>
            pair.1.2 ++ if pair.2 then [.word ","] else [] :=
    substituteIn_flatMap _ (fun pair => by rw [substituteIn_append, substituteIn_optional hcomma]; rfl) pairs
  have hlifetimes : (fun pair : (Bool × List Token) × Bool => pair.1.1)
      ∘ Prod.map (substituteArgument x code) id = fun pair => pair.1.1 := rfl
  have hothers : (fun pair : (Bool × List Token) × Bool => !pair.1.1)
      ∘ Prod.map (substituteArgument x code) id = fun pair => !pair.1.1 := rfl
  have hlast (pairs : List ((Bool × List Token) × Bool)) :
      ((pairs.map (Prod.map (substituteArgument x code) id)).getLast?.map (·.2)).getD true
        = (pairs.getLast?.map (·.2)).getD true := by
    rw [List.getLast?_map, Option.map_map]
    rfl
  rw [angleTokens, angleTokens, List.length_map, List.zip_map_left]
  simp only [List.filter_map, hlifetimes, hothers, hlast, List.cons_append, substituteIn_word hopen,
    substituteIn_append, hwritten, substituteIn_spaced hcomma, substituteIn_word hclose, substituteIn_nil]

end Token

/-! ### A path put in for a name -/

section

open Token

variable {x : String} {code : List Token}

namespace Path

theorem tokens_ne_nil {q : Path} (h : q.segments ≠ []) : q.tokens ≠ [] := by
  obtain ⟨leading, _ | ⟨⟨name, arguments⟩, rest⟩⟩ := q
  · exact absurd rfl h
  · simp [tokens, Segment.tokens]

end Path

/-- A member of the runtime library is found through the path that is put in. -/
theorem substituteIn_runtimeTokens {name : String} (hcolons : "::" ≠ x) (hname : name ≠ x)
    {p q : Path} (hp : p.tokens = [.word x]) :
    substituteIn x q.tokens (runtimeTokens p name) = runtimeTokens q name := by
  rw [runtimeTokens, hp, List.singleton_append, substituteIn_self, substituteIn_word hcolons,
    substituteIn_word hname]
  rfl

/-- A parameter takes the bound that code is put into. -/
theorem GenericParam.substituteIn_bounded {p : GenericParam} {b c : Bound} (hp : All (· ≠ x) p.tokens)
    (hb : substituteIn x code b.tokens = c.tokens) (hcolon : ":" ≠ x) (hplus : "+" ≠ x) :
    substituteIn x code (p.bounded b).withoutDefault.tokens = (p.bounded c).withoutDefault.tokens := by
  cases p with
  | lifetime => exact substituteIn_of_all _ hp
  | constant attributes name t fallback =>
    rw [tokens, all_append] at hp
    exact substituteIn_of_all _ (all_append.mpr ⟨hp.1, all_nil⟩)
  | type attributes name bounds trailing fallback =>
    have hempty (d : Bound) : (bounds ++ [d]).isEmpty = false := by simp
    simp only [tokens, all_append, all_ident] at hp
    obtain ⟨⟨hattributes, hname, hbounds⟩, -⟩ := hp
    -- The bounds before the new one are those that the parameter was written with.
    have hwritten : (Bound.tokensOfList bounds).map (substituteIn x code) = Bound.tokensOfList bounds :=
      (List.map_congr_left fun part hpart =>
        substituteIn_of_all part (Bound.all_of_written hbounds part hpart)).trans (List.map_id _)
    simp only [bounded, withoutDefault, tokens, hempty, Bool.false_eq_true, if_false, separated,
      Bool.false_and, Bound.tokensOfList_concat, Ty.fallbackTokens, List.append_nil]
    rw [substituteIn_append, substituteIn_of_all _ hattributes, Token.ident, substituteIn_word hname,
      substituteIn_word hcolon, substituteIn_joined hplus, List.map_append, hwritten, List.map_singleton, hb]

/-- A list of parameters takes what every parameter takes. -/
theorem Generics.substituteIn_listTokens {f g : GenericParam → List Token} (generics : Generics)
    (h : ∀ p ∈ generics.params, substituteIn x code (f p) = g p) (hopen : "<" ≠ x) (hcomma : "," ≠ x)
    (hclose : ">" ≠ x) : substituteIn x code (generics.listTokens f) = generics.listTokens g := by
  rw [listTokens, listTokens]
  split
  · rfl
  · rw [substituteIn_angleTokens hopen hcomma hclose, List.map_map]
    refine congrArg _ (List.map_congr_left fun p hp => ?_)
    exact Prod.ext rfl (h p hp)

end

/-! ### A declaration with a path and with a name for it -/

namespace Declaration

/-- A declaration with another path of the runtime library. -/
def withRuntime (d : Declaration) (q : Path) : Declaration := d.moved q d.location

/-- A declaration with nothing for a path. -/
def withoutRuntime (d : Declaration) : Declaration := d.withRuntime (.mk false [])

/-- A word that stands neither in a declaration nor in any code that is made for it. -/
def Unspoken (d : Declaration) (w : String) : Prop := ¬ d.withoutRuntime.Speaks w

namespace Unspoken

open Token

variable {d : Declaration} {w : String} (h : d.Unspoken w)

include h

theorem ne {v : String} (hv : d.withoutRuntime.Speaks v) : v ≠ w := fun heq => h (heq ▸ hv)

theorem ne_fixed {v : String} (hv : v ∈ fixedWords) : v ≠ w := h.ne (.fixed hv)

theorem all {ts : List Token} (hts : All d.withoutRuntime.Speaks ts) : All (· ≠ w) ts :=
  fun v hv => h.ne (hts v hv)

theorem all_words {ws : List String} (hws : ∀ v ∈ ws, v ∈ fixedWords) : All (· ≠ w) (words ws) := by
  induction ws with
  | nil => exact all_words_nil
  | cons v rest ih =>
    obtain ⟨hv, hrest⟩ := List.forall_mem_cons.mp hws
    exact all_words_cons.mpr ⟨h.ne_fixed hv, ih hrest⟩

end Unspoken

section

open Token

variable {d : Declaration} {x : Ident} {q : Path} (hx : d.Unspoken x.spelled) (hq : q.segments ≠ [])

include hx

theorem substituteIn_runtime {name : String} (hname : name ∈ fixedWords) :
    substituteIn x.spelled q.tokens (runtimeTokens (.plain false [x]) name) = runtimeTokens q name :=
  substituteIn_runtimeTokens (hx.ne_fixed (by decide)) (hx.ne_fixed hname) rfl

theorem substituteIn_keysTokens :
    substituteIn x.spelled q.tokens (d.built.withRuntime (.plain false [x])).keysTokens
      = (d.built.withRuntime q).keysTokens := by
  have hall : All (· ≠ x.spelled) (d.built.withRuntime (.mk false [])).keysTokens :=
    hx.all all_keysTokens
  have himpl : "impl" ≠ x.spelled := hx.ne_fixed (by decide)
  have hruntime : substituteIn x.spelled q.tokens (runtimeTokens (.plain false [x]) "CodingKey")
      = runtimeTokens q "CodingKey" := substituteIn_runtime hx (by decide)
  simp only [Members.keysTokens, Members.withRuntime, KeyRegistry.tokens, all_append] at hall
  obtain ⟨⟨⟨⟨hattributes, hvisibility⟩, henumeration⟩, -⟩, hkey⟩ := hall
  simp only [Members.keysTokens, Members.withRuntime, KeyRegistry.tokens, substituteIn_append,
    substituteIn_of_all _ hattributes, substituteIn_of_all _ hvisibility, substituteIn_of_all _ henumeration,
    substituteIn_word himpl, hruntime, substituteIn_of_all _ hkey]

theorem substituteIn_resultTokens {value : List Token} {error : String} (herror : error ∈ fixedWords)
    (hvalue : All (· ≠ x.spelled) value) :
    substituteIn x.spelled q.tokens ((d.built.withRuntime (.plain false [x])).resultTokens value error)
      = (d.built.withRuntime q).resultTokens value error := by
  have hopening : All (· ≠ x.spelled) (words ["::", "core", "::", "result", "::", "Result", "<"]) :=
    hx.all_words (by decide)
  have hcomma : "," ≠ x.spelled := hx.ne_fixed (by decide)
  have hclose : ">" ≠ x.spelled := hx.ne_fixed (by decide)
  simp only [Members.resultTokens, Members.withRuntime, substituteIn_append, substituteIn_of_all _ hopening,
    substituteIn_of_all _ hvalue, substituteIn_word hcomma, substituteIn_word hclose, substituteIn_nil,
    substituteIn_runtime hx herror]

include hq

theorem substituteIn_implTokens {name : String} (hname : name ∈ fixedWords) :
    substituteIn x.spelled q.tokens
        ((d.built.withRuntime (.plain false [x])).boundedGenerics name).implTokens
      = ((d.built.withRuntime q).boundedGenerics name).implTokens := by
  have hbound : substituteIn x.spelled q.tokens (Members.runtimeBound (.plain false [x]) name).tokens
      = (Members.runtimeBound q name).tokens := by
    rw [SameRuntime.tokens_runtimeBound (Path.tokens_ne_nil (by simp [Path.plain, Path.segments])),
      SameRuntime.tokens_runtimeBound (Path.tokens_ne_nil hq), substituteIn_runtime hx hname]
  have hparam (p : GenericParam) (hp : p ∈ d.generics.params) :
      substituteIn x.spelled q.tokens
          (p.bounded (Members.runtimeBound (.plain false [x]) name)).withoutDefault.tokens
        = (p.bounded (Members.runtimeBound q name)).withoutDefault.tokens :=
    GenericParam.substituteIn_bounded (hx.all (d.withoutRuntime.ownWords.params p hp)) hbound
      (hx.ne_fixed (by decide)) (hx.ne_fixed (by decide))
  rw [Members.boundedGenerics, Members.boundedGenerics, Generics.implTokens, Generics.implTokens,
    Generics.listTokens_bounded, Generics.listTokens_bounded]
  exact Generics.substituteIn_listTokens _ hparam (hx.ne_fixed (by decide)) (hx.ne_fixed (by decide))
    (hx.ne_fixed (by decide))

/-- The head of an implementation shows the path in its bounds and in its trait. -/
theorem substituteIn_headTokens {name : String} (hname : name ∈ fixedWords) :
    substituteIn x.spelled q.tokens ((d.built.withRuntime (.plain false [x])).headTokens name)
      = (d.built.withRuntime q).headTokens name := by
  have hall : All (· ≠ x.spelled) ((d.built.withRuntime (.mk false [])).headTokens name) :=
    hx.all (all_headTokens hname)
  have hbounds := substituteIn_implTokens hx hq hname
  have hruntime : substituteIn x.spelled q.tokens (runtimeTokens (.plain false [x]) name)
      = runtimeTokens q name := substituteIn_runtime hx hname
  have himpl : "impl" ≠ x.spelled := hx.ne_fixed (by decide)
  -- The arguments of the type and the conditions have no bounds put on.
  have hwhere (p : Path) : ((d.built.withRuntime p).boundedGenerics name).whereTokens
      = d.generics.whereTokens := rfl
  have hargument (p : Path) : ((d.built.withRuntime p).boundedGenerics name).argumentTokens
      = d.generics.argumentTokens := Generics.argumentTokens_bounded d.generics _
  have hname (p : Path) : (d.built.withRuntime p).name = d.name := rfl
  have hpath (p : Path) : (d.built.withRuntime p).runtime = p := rfl
  simp only [Members.headTokens, hargument, hwhere, hname, all_append] at hall
  obtain ⟨⟨⟨-, hfor⟩, harguments⟩, hconditions⟩ := hall
  simp only [Members.headTokens, hargument, hwhere, hname, hpath, List.cons_append, substituteIn_append,
    substituteIn_word himpl, hbounds, hruntime, substituteIn_of_all _ hfor, substituteIn_of_all _ harguments,
    substituteIn_of_all _ hconditions]

/-- A trait of the runtime library that is implemented by one function. -/
theorem substituteIn_implementation {trait function error : String} (htrait : trait ∈ fixedWords)
    (hfunction : function ∈ fixedWords) (herror : error ∈ fixedWords)
    {parameters others value body : List Token}
    (hparameters : substituteIn x.spelled q.tokens parameters = others)
    (hvalue : All (· ≠ x.spelled) value) (hbody : All (· ≠ x.spelled) body) :
    substituteIn x.spelled q.tokens
        ((d.built.withRuntime (.plain false [x])).headTokens trait
          ++ [group .brace
              ([word "fn", word function, group .parenthesis parameters, word "->"]
                ++ (d.built.withRuntime (.plain false [x])).resultTokens value error
                ++ [group .brace body])])
      = (d.built.withRuntime q).headTokens trait
          ++ [group .brace
              ([word "fn", word function, group .parenthesis others, word "->"]
                ++ (d.built.withRuntime q).resultTokens value error ++ [group .brace body])] := by
  have hfn : "fn" ≠ x.spelled := hx.ne_fixed (by decide)
  have hname : function ≠ x.spelled := hx.ne_fixed hfunction
  have harrow : "->" ≠ x.spelled := hx.ne_fixed (by decide)
  simp only [substituteIn_append, substituteIn_group, substituteIn_word hfn, substituteIn_word hname,
    substituteIn_word harrow, substituteIn_nil, substituteIn_headTokens hx hq htrait, hparameters,
    substituteIn_resultTokens hx herror hvalue, substituteIn_of_all body hbody]

theorem substituteIn_decodeTokens :
    substituteIn x.spelled q.tokens (d.built.withRuntime (.plain false [x])).decodeTokens
      = (d.built.withRuntime q).decodeTokens := by
  have hall : All (· ≠ x.spelled) (d.built.withRuntime (.mk false [])).decodeTokens :=
    hx.all all_decodeTokens
  obtain ⟨-, hitems⟩ := all_append.mp hall
  obtain ⟨hsignature, hbody⟩ := all_append.mp (all_group.mp hitems).1
  refine substituteIn_implementation hx hq (by decide) (by decide) (by decide) ?_ ?_ (all_group.mp hbody).1
  · have hbefore : All (· ≠ x.spelled) (words [Members.decoderName, ":", "&"]) :=
      hx.all_words (by decide)
    have hafter : All (· ≠ x.spelled) (words ["<", "'_", ">"]) := hx.all_words (by decide)
    rw [substituteIn_append, substituteIn_append, substituteIn_of_all _ hafter]
    exact congrArg₂ (· ++ · ++ _) (substituteIn_of_all _ hbefore) (substituteIn_runtime hx (by decide))
  · have hself : All (· ≠ x.spelled) (words ["Self"]) := hx.all_words (by decide)
    exact hself

theorem substituteIn_encodeTokens :
    substituteIn x.spelled q.tokens (d.built.withRuntime (.plain false [x])).encodeTokens
      = (d.built.withRuntime q).encodeTokens := by
  have hall : All (· ≠ x.spelled) (d.built.withRuntime (.mk false [])).encodeTokens :=
    hx.all all_encodeTokens
  obtain ⟨-, hitems⟩ := all_append.mp hall
  obtain ⟨hsignature, hbody⟩ := all_append.mp (all_group.mp hitems).1
  refine substituteIn_implementation hx hq (by decide) (by decide) (by decide) ?_ ?_ (all_group.mp hbody).1
  · have hbefore : All (· ≠ x.spelled)
        (words ["&", "self", ",", Members.encoderName, ":", "&", "mut"]) :=
      hx.all_words (by decide)
    rw [substituteIn_append, substituteIn_of_all _ hbefore]
    exact congrArg (_ ++ ·) (substituteIn_runtime hx (by decide))
  · simp

/-- The members with a path are the members with a new name, the path put in. -/
theorem substituteIn_tokens :
    substituteIn x.spelled q.tokens (d.built.withRuntime (.plain false [x])).tokens
      = (d.built.withRuntime q).tokens := by
  rw [Members.tokens, substituteIn_append, substituteIn_append, substituteIn_keysTokens hx,
    substituteIn_decodeTokens hx hq, substituteIn_encodeTokens hx hq]
  rfl

end

/-- Another path changes nothing in whether there are members. -/
theorem members_withRuntime (d : Declaration) (q : Path) :
    (d.withRuntime q).members = d.members.map fun _ => d.built.withRuntime q := by
  by_cases hrecord : d.kind = .record
  · have hkind : (d.withRuntime q).kind = .record := hrecord
    have hclassified : ClassifiedField.ofFields (d.withRuntime q).settings.strict (d.withRuntime q).fields
        = ClassifiedField.ofFields d.settings.strict d.fields := rfl
    rw [members_of_record hrecord, members_of_record hkind, hclassified]
    rcases hfields : ClassifiedField.ofFields d.settings.strict d.fields with e | classified
    · rfl
    · rw [ClassifiedField.ofFields_eq_map hfields]
      rfl
  · have hkind : (d.withRuntime q).kind ≠ .record := hrecord
    rw [members_of_ne_record hrecord, members_of_ne_record hkind]
    rfl

theorem mem_ownTokens_withRuntime {d : Declaration} {q : Path} {w : String}
    (h : w ∈ Token.leavesOf (d.withRuntime q).ownTokens) :
    w ∈ Token.leavesOf d.withoutRuntime.ownTokens ∨ w ∈ Token.leavesOf q.tokens := by
  simp only [ownTokens, List.cons_append, Token.leavesOf, Token.leavesOf_append, List.mem_append] at h ⊢
  rcases h with hname | (((hvisibility | hparams) | hconditions) | hruntime) | hfields
  · exact .inl (.inl hname)
  · exact .inl (.inr (.inl (.inl (.inl (.inl hvisibility)))))
  · exact .inl (.inr (.inl (.inl (.inl (.inr hparams)))))
  · exact .inl (.inr (.inl (.inl (.inr hconditions))))
  · exact .inr hruntime
  · exact .inl (.inr (.inr hfields))

/-- The default runtime library is named by whoever brings its name in. -/
theorem mem_of_codable_mem {d : Declaration} {q : Path} {m : Members}
    (hm : (d.withRuntime q).members = .ok m) (h : "codable" ∈ Token.leavesOf m.tokens) :
    "codable" ∈ Token.leavesOf d.withoutRuntime.ownTokens ∨ "codable" ∈ Token.leavesOf q.tokens := by
  rw [members_eq_built hm] at h
  have hspeaks : (d.withRuntime q).Speaks "codable" := all_members _ _ h
  exact mem_ownTokens_withRuntime (hspeaks.own_of_unmade (by decide) (by decide) (by decide))

/-- **The path of the runtime library is a parameter.**  Members with a path are the
members with a new name for it, the path put in for the name; and the name of the
default library stands in them only if the declaration or the path has it. -/
theorem runtime_parametric (d : Declaration) {q : Path} (hq : q.segments ≠ []) {x : Ident}
    (hx : d.Unspoken x.spelled) :
    (d.withRuntime q).members.map Members.tokens
        = ((d.withRuntime (.plain false [x])).members.map Members.tokens).map
            (Token.substituteIn x.spelled q.tokens) ∧
      ∀ m, (d.withRuntime q).members = .ok m → "codable" ∈ Token.leavesOf m.tokens →
        "codable" ∈ Token.leavesOf d.withoutRuntime.ownTokens ∨ "codable" ∈ Token.leavesOf q.tokens := by
  refine ⟨?_, fun m hm h => mem_of_codable_mem hm h⟩
  rw [members_withRuntime, members_withRuntime]
  rcases d.members with e | m
  · rfl
  · exact congrArg Except.ok (substituteIn_tokens hx hq).symm

end Declaration

/-! ### A record with a bounded parameter -/

namespace Supported

/-- `struct Entry<T: Clone = u8> where T: Default { value: T, type: Option<Vec<u8>> }` -/
def declaration : Declaration where
  name := .plain "Entry"
  kind := .record
  visibility := .everyone
  generics :=
    ⟨[.type [] (.plain "T") [.trait false none false (.plain false [.plain "Clone"])] false
        (some (.path (.plain false [.plain "u8"])))], false,
      [.type none (.path (.plain false [.plain "T"]))
        [.trait false none false (.plain false [.plain "Default"])] false], false⟩
  settings := .initial
  fields :=
    [⟨.plain "value", .named (.plain false [.plain "T"]), true⟩,
      ⟨.ofSpelling "r#type", .optional (.sequence (.named (.plain false [.plain "u8"]))), true⟩]
  location := .start

/-- `::rt::support` -/
def runtime : Path := .plain true [.plain "rt", .plain "support"]

theorem unspoken_runtime : declaration.Unspoken "runtime" := fun h =>
  absurd (h.own_of_unmade (by decide) (by decide) (by decide)) (by decide +kernel)

/-- The path stands at the name, and the default library is not mentioned. -/
theorem renamed_declaration :
    runtime.segments ≠ [] ∧ declaration.Unspoken "runtime" ∧
      (declaration.withRuntime runtime).members.map Members.tokens
        = ((declaration.withRuntime (.plain false [.plain "runtime"])).members.map Members.tokens).map
            (Token.substituteIn "runtime" runtime.tokens) ∧
      ∀ m, (declaration.withRuntime runtime).members = .ok m → "codable" ∉ Token.leavesOf m.tokens := by
  have hsegments : runtime.segments ≠ [] := by simp [runtime, Path.plain, Path.segments]
  obtain ⟨htokens, hcodable⟩ :=
    declaration.runtime_parametric hsegments (x := .plain "runtime") unspoken_runtime
  refine ⟨hsegments, unspoken_runtime, htokens, fun m hm h => ?_⟩
  rcases hcodable m hm h with hown | hpath
  · exact absurd hown (by decide +kernel)
  · exact absurd hpath (by decide +kernel)

end Supported

end RecordCoding
