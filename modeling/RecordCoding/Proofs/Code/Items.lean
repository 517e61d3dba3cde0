/-
Reading items back.

An implementation in generated code holds functions and constants without attributes,
visibility or parameters of their own.  An enumeration has variants without content.

* `takes_function`, `takes_constant` — the items of an implementation;
* `reads_implementation` — an implementation of a trait;
* `reads_enumeration` — an enumeration behind its attributes and its visibility;
* `reads_file` — items one after the other.

Design notes: the parameters of a declaration may be anything that reads back in its own
place.  What is known of a parameter here is only how it opens, since on this depends
whether brackets behind `impl` are taken for parameters (`opensParameters`).
-/
import RecordCoding.Proofs.Code.Statements

namespace RecordCoding

namespace Parser

variable {inner : Inner} {plus : Bool} {i : Ident} {ts mid rest body : List TokenTree} {n : Nat}

/-! ### Types of functions and constants -/

/-- A reference to a type that opens with a path. -/
theorem takes_ty_reference (hopens : OpensPath ts) (h : Takes (inner.ty false) ts rest) :
    Takes (ty inner plus) (mark '&' :: ts) rest := by
  have hlifetime : isLifetime ts = false := hopens.not_constant.1
  have hmut : isKeyword "mut" ts = false := by
    cases hopens with
    | colons ts => rfl
    | word hi hts => exact isKeyword_of_opensType hi (by decide) (by decide) _
  have hreference : Takes (referenceType inner) (mark '&' :: ts) rest := by
    have hand : isPunct "&" (mark '&' :: ts) = true := by simp [isPunct, beginsWith]
    have hdrop : (mark '&' :: ts).drop "&".toList.length = ts := rfl
    simp only [referenceType, reads_punct_bind hand, hdrop, reads_ahead_bind, hlifetime,
      Bool.false_eq_true, if_false, pure_bind, reads_keyword?_bind, hmut, reads_map]
    exact h.imp fun _ _ => trivial
  intro scope stray
  exact hreference scope stray

/-- A reference through which something changes. -/
theorem takes_ty_mutableReference (h : Takes (inner.ty false) ts rest) :
    Takes (ty inner plus) (mark '&' :: .ident (.plain "mut") :: ts) rest := by
  have hreference : Takes (referenceType inner) (mark '&' :: .ident (.plain "mut") :: ts) rest := by
    have hand : isPunct "&" (mark '&' :: .ident (.plain "mut") :: ts) = true := by
      simp [isPunct, beginsWith]
    have hdrop : (mark '&' :: .ident (.plain "mut") :: ts).drop "&".toList.length
      = .ident (.plain "mut") :: ts := rfl
    have hlifetime : isLifetime (.ident (.plain "mut") :: ts) = false := rfl
    have hmut : isKeyword "mut" (.ident (.plain "mut") :: ts) = true := rfl
    simp only [referenceType, reads_punct_bind hand, hdrop, reads_ahead_bind, hlifetime,
      Bool.false_eq_true, if_false, pure_bind, reads_keyword?_bind, hmut, if_true, reads_map,
      List.drop_succ_cons, List.drop_zero]
    exact h.imp fun _ _ => trivial
  intro scope stray
  exact hreference scope stray

/-- `&'static [Self]` -/
abbrev selvesTrees : List TokenTree :=
  [mark '&', .lifetime "'static" .start, .group .bracket [.ident (.plain "Self")] .start .start]

theorem takes_ty_selves (ts : List TokenTree) :
    Takes ((Inner.ofDepth (n + 3)).ty true) (selvesTrees ++ ts) ts := by
  intro scope stray
  cases stray <;> exact ⟨_, rfl, trivial⟩

/-- `&'static str` -/
abbrev textTrees : List TokenTree :=
  [mark '&', .lifetime "'static" .start, .ident (.plain "str")]

theorem takes_ty_text (body ts : List TokenTree) :
    Takes ((Inner.ofDepth (n + 2)).ty true) (textTrees ++ .group .brace body .start .start :: ts)
      (.group .brace body .start .start :: ts) := by
  intro scope stray
  exact ⟨_, rfl, trivial⟩

/-! ### Functions -/

/-- The names of parameters in generated code. -/
def parameterNames : List String := ["__decoder", "__encoder"]

theorem fails_receiver {w : String} (hw : w ∈ parameterNames) :
    Fails (receiver inner) (.ident (.plain w) :: ts) := by
  intro scope stray
  simp only [parameterNames, List.mem_cons, List.not_mem_nil, or_false] at hw
  rcases hw with rfl | rfl <;> exact ⟨_, rfl⟩

/-- A parameter that is a reference, the last one. -/
theorem takes_functionParameters_reference {received any : Bool} {fuel : Nat} {w : String}
    (hw : w ∈ parameterNames) (h : Takes ((Inner.ofDepth (n + 1)).ty true) (mark '&' :: ts) []) :
    Takes (functionParameters (Inner.ofDepth (n + 1)) received any (fuel + 1))
      (.ident (.plain w) :: mark ':' :: mark '&' :: ts) [] := by
  have hname : isName (.plain w) = true := by
    simp only [parameterNames, List.mem_cons, List.not_mem_nil, or_false] at hw
    rcases hw with rfl | rfl <;> decide
  have hpattern : Takes (Inner.ofDepth (n + 1)).pattern (.ident (.plain w) :: mark ':' :: mark '&' :: ts)
      (mark ':' :: mark '&' :: ts) := takes_pattern_name hname (.inr rfl) rfl
  have hpunct : ∀ p ∈ ["#", "..."], isPunct p (.ident (.plain w) :: mark ':' :: mark '&' :: ts) = false := by
    intro p hp
    simp only [List.mem_cons, List.not_mem_nil, or_false] at hp
    rcases hp with rfl | rfl <;> exact isPunct_ident (by decide)
  have hparameter : Reads (functionParameter (Inner.ofDepth (n + 1)))
      (.ident (.plain w) :: mark ':' :: mark '&' :: ts) [] fun p => ∃ c, p = (c, .typed) := by
    have hangle : isPunct "<" ((.ident (.plain w) :: mark ':' :: mark '&' :: ts : List TokenTree).drop 1)
      = false := isPunct_of_ne rfl (by decide)
    have hcolon : isPunct ":" (mark ':' :: mark '&' :: ts) = true := rfl
    have hdots : isPunct "..." (mark '&' :: ts) = false := isPunct_of_ne rfl (by decide)
    have hdrop : (mark ':' :: mark '&' :: ts).drop ":".toList.length = mark '&' :: ts := rfl
    simp only [functionParameter, reads_ahead_bind, reads_punct?_bind, hpunct "..." (by decide),
      Bool.false_eq_true, if_false]
    -- A receiver is tried first, and a name is none.
    refine (reads_attempt?_of_fails (fails_receiver hw)).bind ?_
    rintro _ rfl
    simp only [hangle, Bool.and_false, Bool.false_eq_true, if_false]
    refine hpattern.bind fun p _ => ?_
    simp only [reads_punct_bind hcolon, hdrop, reads_punct?_bind, hdots, Bool.false_eq_true, if_false]
    exact h.bind fun t _ => reads_pure.mpr ⟨rfl, _, rfl⟩
  simp only [functionParameters, reads_finished_bind, List.isEmpty_cons, Bool.false_eq_true, if_false,
    reads_attributesCode_bind (hpunct "#" (by decide))]
  refine hparameter.bind ?_
  rintro _ ⟨c, rfl⟩
  simp

/-- `self` as the only parameter. -/
theorem takes_functionParameters_self {fuel : Nat} :
    Takes (functionParameters inner false false (fuel + 1)) [.ident (.plain "self")] [] := by
  intro scope stray
  exact ⟨_, rfl, trivial⟩

/-- A reference to `self` in front of another parameter. -/
theorem takes_functionParameters_receiver {fuel : Nat}
    (h : Takes (functionParameters inner true true fuel) ts []) :
    Takes (functionParameters inner false false (fuel + 1))
      (mark '&' :: .ident (.plain "self") :: mark ',' :: ts) [] := by
  have hreceiver : Reads (functionParameter inner)
      (mark '&' :: .ident (.plain "self") :: mark ',' :: ts) (mark ',' :: ts)
      fun p => ∃ c l, p = (c, .receiver l) := by
    intro scope stray
    exact ⟨_, rfl, _, _, rfl⟩
  have hhash : isPunct "#" (mark '&' :: .ident (.plain "self") :: mark ',' :: ts) = false :=
    isPunct_of_ne rfl (by decide)
  have hcomma : isPunct "," (mark ',' :: ts) = true := rfl
  have hdrop : (mark ',' :: ts).drop ",".toList.length = ts := rfl
  simp only [functionParameters, reads_finished_bind, List.isEmpty_cons, Bool.false_eq_true, if_false,
    reads_attributesCode_bind hhash]
  refine hreceiver.bind ?_
  rintro _ ⟨c, l, rfl⟩
  simp only [Bool.false_eq_true, if_false, reads_finished_bind, List.isEmpty_cons,
    reads_punct_bind hcomma, hdrop]
  exact h.bind fun _ _ => by simp

/-- The name of a function of an implementation. -/
def functionNames : List String := ["string_value", "decode", "encode"]

/-- A block, and what stands behind it. -/
abbrev braced (body ts : List TokenTree) : List TokenTree := .group .brace body .start .start :: ts

/-- `fn name(parameters) ->`, and what stands behind it. -/
abbrev functionTrees (w : String) (parameters ts : List TokenTree) : List TokenTree :=
  .ident (.plain "fn") :: .ident (.plain w) :: .group .parenthesis parameters .start .start ::
    .punct '-' true .start :: mark '>' :: ts

variable {w : String} {parameters result : List TokenTree}

theorem takes_signature (hw : w ∈ functionNames)
    (hparameters : Takes (functionParameters inner false false (parameters.length + 1)) parameters [])
    (hresult : Takes (inner.ty true) (result ++ braced body ts) (braced body ts)) :
    Takes (signature inner false) (functionTrees w parameters (result ++ braced body ts))
      (braced body ts) := by
  have hname : isName (.plain w) = true := by
    simp only [functionNames, List.mem_cons, List.not_mem_nil, or_false] at hw
    rcases hw with rfl | rfl | rfl <;> decide
  have hword : ∀ v ∈ ["const", "async", "unsafe", "extern"], ∀ ts,
      isKeyword v (functionTrees w parameters ts) = false :=
    fun v hv ts => isKeyword_of_not_mem hv (by decide) _
  have hfn : ∀ ts, isKeyword "fn" (functionTrees w parameters ts) = true := fun _ => rfl
  have hangle : ∀ ts, isPunct "<" (.group .parenthesis parameters .start .start :: ts) = false :=
    fun _ => isPunct_group (by decide)
  have harrow : ∀ ts, isPunct "->" (.punct '-' true .start :: mark '>' :: ts) = true := fun _ => rfl
  have hwhere : isKeyword "where" (braced body ts) = false := rfl
  have hlist : Takes (do functionParameters inner false false (← rounds)) parameters [] := by
    simpa using hparameters
  simp only [signature, reads_keyword?_bind, hword "const" (by decide), hword "async" (by decide),
    hword "unsafe" (by decide), abi?, bind_assoc, hword "extern" (by decide), Bool.false_eq_true,
    if_false, pure_bind, reads_keyword_bind (hfn _), List.drop_succ_cons, List.drop_zero,
    reads_identifier_bind hname, genericParams, reads_punct?_bind, hangle]
  refine (reads_inside hlist).bind fun list _ => ?_
  simp only [result?, bind_assoc, reads_punct?_bind, harrow, if_true]
  refine Reads.bind (show Takes _ _ (braced body ts) from ?_) fun t _ => ?_
  · exact reads_map.mpr (hresult.imp fun _ _ => trivial)
  · simp only [whereClause?, bind_assoc, reads_keyword?_bind, hwhere, Bool.false_eq_true, if_false,
      pure_bind, reads_pure, and_self]

theorem takes_attributedBraces (hhash : isPunct "#" body = false)
    (hbody : Takes inner.statements body []) : Takes (attributedBraces inner) (braced body ts) ts := by
  have hinside : Takes (do
      let as ← innerAttributes inner
      let statements ← inner.statements
      pure (as.map Attribute.code ++ statements) : Parser (List Code)) body [] := by
    refine (reads_innerAttributes_bind hhash).mpr ?_
    exact hbody.bind fun _ _ => by simp
  rw [attributedBraces]
  exact (reads_inside hinside).bind fun _ _ => by simp

/-- A function of an implementation. -/
theorem takes_function (hw : w ∈ functionNames)
    (hparameters : Takes (functionParameters inner false false (parameters.length + 1)) parameters [])
    (hresult : Takes (inner.ty true) (result ++ braced body ts) (braced body ts))
    (hhash : isPunct "#" body = false) (hbody : Takes inner.statements body []) :
    Takes (itemOfImplementation inner) (functionTrees w parameters (result ++ braced body ts)) ts := by
  have hhead : ∀ ts, isPunct "#" (functionTrees w parameters ts) = false := fun _ => rfl
  have hstart : ∀ ts, isSignature false (functionTrees w parameters ts) = true := fun _ => rfl
  have hkey : ∀ v ∈ ["pub", "default"], ∀ ts, isKeyword v (functionTrees w parameters ts) = false :=
    fun v hv ts => isKeyword_of_not_mem hv (by decide) _
  have hsemicolon : isPunct ";" (braced body ts) = false := isPunct_group (by decide)
  simp only [itemOfImplementation, reads_ahead_bind, reads_attributes_bind (hhead _), visibility,
    bind_assoc, reads_keyword?_bind, hkey "pub" (by decide), hkey "default" (by decide),
    Bool.false_eq_true, if_false, pure_bind, Bool.false_and, hstart, if_true]
  -- Behind the signature stands a block, not a semicolon.
  refine (takes_signature hw hparameters hresult).bind fun parts _ => ?_
  simp only [reads_punct?_bind, hsemicolon, Bool.false_eq_true, if_false]
  exact (takes_attributedBraces hhash hbody).bind fun _ _ => by simp

/-! ### Constants -/

/-- `const ALL: &'static [Self] = &[...];`, and what stands behind it. -/
abbrev constantTrees (elements ts : List TokenTree) : List TokenTree :=
  .ident (.plain "const") :: .ident (.plain "ALL") :: mark ':' :: (selvesTrees ++ mark '=' ::
    mark '&' :: .group .bracket elements .start .start :: mark ';' :: ts)

theorem takes_constant {elements : List TokenTree}
    (h : Takes ((Inner.ofDepth (n + 3)).expression true)
      (mark '&' :: .group .bracket elements .start .start :: mark ';' :: ts) (mark ';' :: ts)) :
    Takes (itemOfImplementation (Inner.ofDepth (n + 3))) (constantTrees elements ts) ts := by
  have hhead : isPunct "#" (constantTrees elements ts) = false := rfl
  have hsignature : isSignature false (constantTrees elements ts) = false := rfl
  have hconst : isKeyword "const" (constantTrees elements ts) = true := rfl
  have hkey : ∀ v ∈ ["pub", "default"], isKeyword v (constantTrees elements ts) = false :=
    fun v hv => isKeyword_of_not_mem hv (by decide) _
  have hname : ∀ ts, isIdentifier (.ident (.plain "ALL") :: ts) = true := fun _ => rfl
  have hcolon : ∀ ts, isPunct ":" (mark ':' :: ts) = true := fun _ => rfl
  have hangle : ∀ ts, isPunct "<" (mark ':' :: ts) = false := fun _ => rfl
  have hequals : ∀ ts, isPunct "=" (mark '=' :: ts) = true := fun _ => rfl
  have hwhere : ∀ ts, isKeyword "where" (mark ';' :: ts) = false := fun _ => rfl
  have hsemicolon : ∀ ts, isPunct ";" (mark ';' :: ts) = true := fun _ => rfl
  have hdrop : ∀ (c : Char) (p : String) ts, p.toList.length = 1 →
      (mark c :: ts).drop p.toList.length = ts := by
    intro c p ts hp
    rw [hp, List.drop_succ_cons, List.drop_zero]
  simp only [itemOfImplementation, reads_ahead_bind, reads_attributes_bind hhead, visibility,
    bind_assoc, reads_keyword?_bind, hkey "pub" (by decide), hkey "default" (by decide),
    Bool.false_eq_true, if_false, pure_bind, Bool.false_and, hsignature, hconst, if_true, constantItem,
    reads_keyword_bind hconst, List.drop_succ_cons, List.drop_zero, hname, Bool.true_or,
    reads_word_bind, constantBehind, hangle, genericParams, reads_punct?_bind,
    reads_punct_bind (hcolon _), hdrop ':' ":" _ rfl]
  refine (takes_ty_selves _).bind fun t _ => ?_
  simp only [value?, reads_punct?_bind, hequals, if_true, hdrop '=' "=" _ rfl, bind_assoc]
  refine h.bind fun c _ => ?_
  simp [whereClause?, hwhere, hsemicolon, Code.isAbsent, Code.construct?]

/-! ### Implementations -/

theorem OpensPath.isKeyword_eq_false (h : OpensPath ts) {w : String} (hw : w ∈ reserved)
    (hne : w ∉ ["super", "self", "crate", "Self"]) : isKeyword w ts = false := by
  cases h with
  | colons ts => rfl
  | word hi hts => exact isKeyword_of_opensType hi hw hne _

/-- Trees that are nothing, or parameters that are known as such behind `impl`. -/
def OpensParameters (inner : Inner) (gs : List TokenTree) : Prop :=
  gs = [] ∨ ∀ ts, opensParameters (gs ++ ts) = true ∧ Takes (genericParams inner) (gs ++ ts) ts

/-- `impl`, parameters, a trait, `for`, a type, conditions and a block. -/
abbrev implementationTrees (gs trait subject conditions body ts : List TokenTree) :
    List TokenTree :=
  .ident (.plain "impl") :: (gs ++ (trait ++ .ident (.plain "for") ::
    (subject ++ (conditions ++ braced body ts))))

variable {gs trait subject conditions : List TokenTree}

/-- What the parts of an implementation have to be. -/
structure IsImplementation (inner : Inner) (gs trait subject conditions body : List TokenTree) :
    Prop where
  params : OpensParameters inner gs
  opens : ∀ ts, OpensPath (trait ++ .ident (.plain "for") :: ts)
  trait : ∀ ts, Reads (inner.ty true) (trait ++ .ident (.plain "for") :: ts)
    (.ident (.plain "for") :: ts) fun t => ∃ p, t = .path p
  subject : ∀ ts, Takes (inner.ty true) (subject ++ (conditions ++ braced body ts))
    (conditions ++ braced body ts)
  conditions : ∀ ts, Takes (whereClause? inner) (conditions ++ braced body ts) (braced body ts)
  mark : isPunct "#" body = false
  items : Takes (toEnd (itemOfImplementation inner) (body.length + 1)) body []

theorem IsImplementation.takes_itemsInBraces
    (h : IsImplementation inner gs trait subject conditions body) :
    Takes (itemsInBraces inner (itemOfImplementation inner)) (braced body ts) ts := by
  refine reads_inside ((reads_innerAttributes_bind h.mark).mpr (reads_rounds_bind.mpr ?_))
  exact h.items.bind fun _ _ => by simp

theorem IsImplementation.takes_implementation
    (h : IsImplementation inner gs trait subject conditions body) {before : List TokenTree} :
    Takes (implementation inner before [] .inherited)
      (implementationTrees gs trait subject conditions body ts) ts := by
  have hdefault : ∀ ts, isKeyword "default" (.ident (.plain "impl") :: ts) = false := fun _ => rfl
  have hunsafe : ∀ ts, isKeyword "unsafe" (.ident (.plain "impl") :: ts) = false := fun _ => rfl
  have himpl : ∀ ts, isKeyword "impl" (.ident (.plain "impl") :: ts) = true := fun _ => rfl
  have hfor : ∀ ts, isKeyword "for" (.ident (.plain "for") :: ts) = true := fun _ => rfl
  have hopens := h.opens (subject ++ (conditions ++ braced body ts))
  have hconst := hopens.isKeyword_eq_false (w := "const") (by decide) (by decide)
  have hquestion := hopens.isPunct_eq_false (p := "?") rfl (by decide)
  have hbang := hopens.isPunct_eq_false (p := "!") rfl (by decide)
  have hangle := hopens.isPunct_eq_false (p := "<") rfl (by decide)
  rw [implementation]
  simp only [reads_keyword?_bind, hdefault, hunsafe, Bool.false_eq_true, if_false,
    reads_keyword_bind (himpl _), List.drop_succ_cons, List.drop_zero, reads_ahead_bind]
  -- With parameters or without, what follows them is read alike.
  rcases h.params with rfl | hgs
  case' inl =>
    simp only [List.nil_append, opensParameters, hangle, Bool.false_and, Bool.false_eq_true, if_false,
      pure_bind]
  case' inr =>
    simp only [(hgs _).1, if_true]
    refine (hgs _).2.bind fun params _ => ?_
  all_goals
    simp only [reads_ahead_bind, hconst, hquestion, hbang, Bool.false_and, Bool.or_false,
      Bool.false_eq_true, if_false]
    refine Reads.here_bind fun start => (h.trait _).bind ?_
    rintro _ ⟨p, rfl⟩
    simp only [reads_keyword?_bind, hfor, if_true, List.drop_succ_cons, List.drop_zero]
    refine (h.subject _).bind fun subject _ => (h.conditions _).bind fun conditions _ => ?_
    refine h.takes_itemsInBraces.bind fun content _ => ?_
    simp [Visibility.isInherited]

/-- An implementation of a trait. -/
theorem IsImplementation.reads_item
    (h : IsImplementation inner gs trait subject conditions body) :
    Reads (item inner) (implementationTrees gs trait subject conditions body ts) ts
      fun p => ∃ c, p = (.other, c) := by
  have hhash : ∀ ts, isPunct "#" (.ident (.plain "impl") :: ts) = false := fun _ => rfl
  have hsignature : ∀ ts, isSignature false (.ident (.plain "impl") :: ts) = false := fun _ => rfl
  have himpl : ∀ ts, isKeyword "impl" (.ident (.plain "impl") :: ts) = true := fun _ => rfl
  have hkey : ∀ v ∈ ["pub", "extern", "use", "static", "const", "unsafe", "mod", "type", "struct",
      "enum", "union", "trait", "auto"], ∀ ts, isKeyword v (.ident (.plain "impl") :: ts) = false :=
    fun v hv ts => isKeyword_of_not_mem hv (by decide) ts
  simp only [item, reads_ahead_bind, reads_attributes_bind (hhash _), itemBehind]
  refine Reads.here_bind fun start => ?_
  simp only [visibility, bind_assoc, reads_keyword?_bind, hkey "pub" (by decide), Bool.false_eq_true,
    if_false, pure_bind, reads_ahead_bind, hsignature, hkey "extern" (by decide),
    hkey "use" (by decide), hkey "static" (by decide), hkey "const" (by decide),
    hkey "unsafe" (by decide), hkey "mod" (by decide), hkey "type" (by decide),
    hkey "struct" (by decide), hkey "enum" (by decide), hkey "union" (by decide),
    hkey "trait" (by decide), hkey "auto" (by decide), himpl, Bool.false_and, Bool.or_false,
    Bool.true_or, if_true]
  exact h.takes_implementation.bind fun c _ => reads_pure.mpr ⟨rfl, _, rfl⟩

/-! ### Enumerations -/

/-- The attributes of an enumeration, with the text of its documentation. -/
def attributeTrees (documentation : String) : List TokenTree :=
  [mark '#', .group .bracket [.ident (.plain "doc"), mark '=', .literal documentation .start]
      .start .start,
    mark '#', .group .bracket [.ident (.plain "allow"),
      .group .parenthesis [.ident (.plain "non_camel_case_types")] .start .start] .start .start,
    mark '#', .group .bracket [.ident (.plain "derive"),
      .group .parenthesis
        (marked ',' false (["Clone", "Copy", "Debug", "PartialEq", "Eq", "Hash"].map fun w =>
          [.ident (.plain w)])) .start .start] .start .start]

theorem takes_attributesLoop_nil {fuel : Nat} (hts : isPunct "#" ts = false) :
    Takes (attributes.loop inner fuel) ts ts := by
  cases fuel with
  | zero => simp [attributes.loop]
  | succ fuel => simp [attributes.loop, hts]

theorem takes_attributesLoop_cons {fuel : Nat}
    (h : Takes (oneAttribute inner false) (mark '#' :: ts) mid)
    (hrest : Takes (attributes.loop inner fuel) mid rest) :
    Takes (attributes.loop inner (fuel + 1)) (mark '#' :: ts) rest := by
  have hhash : isPunct "#" (mark '#' :: ts) = true := rfl
  simp only [attributes.loop, reads_ahead_bind, hhash, if_true]
  exact h.bind fun _ _ => hrest.bind fun _ _ => by simp

/-- The attributes of an enumeration. -/
theorem takes_attributes {documentation : String} (hts : isPunct "#" ts = false) :
    Takes (attributes inner) (attributeTrees documentation ++ ts) ts := by
  have hdoc : ∀ more, Takes (oneAttribute inner false)
      (mark '#' :: .group .bracket [.ident (.plain "doc"), mark '=', .literal documentation .start]
        .start .start :: more) more := by
    intro more scope stray
    cases stray <;> exact ⟨_, rfl, trivial⟩
  have hallow : ∀ more, Takes (oneAttribute inner false)
      (mark '#' :: .group .bracket [.ident (.plain "allow"),
        .group .parenthesis [.ident (.plain "non_camel_case_types")] .start .start]
        .start .start :: more) more := by
    intro more scope stray
    cases stray <;> exact ⟨_, rfl, trivial⟩
  have hderive : ∀ names more, Takes (oneAttribute inner false)
      (mark '#' :: .group .bracket [.ident (.plain "derive"), .group .parenthesis names .start .start]
        .start .start :: more) more := by
    intro names more scope stray
    cases stray <;> exact ⟨_, rfl, trivial⟩
  rw [attributes]
  refine reads_rounds_bind.mpr ?_
  exact takes_attributesLoop_cons (hdoc _) <| takes_attributesLoop_cons (hallow _) <|
    takes_attributesLoop_cons (hderive _ _) <| takes_attributesLoop_nil hts

/-- A variant without content. -/
theorem takes_variant (hi : isName i = true) (hts : ts = [] ∨ ∃ more, ts = mark ',' :: more) :
    Takes (variant inner) (.ident i :: ts) ts := by
  have hhash : isPunct "#" (.ident i :: ts) = false := isPunct_ident (by decide)
  have hpub := isKeyword_of_isName hi (w := "pub") (by decide) ts
  have hgroup : ∀ d, isGroup d ts = false := by
    rcases hts with rfl | ⟨more, rfl⟩ <;> exact fun _ => rfl
  have hequals : isPunct "=" ts = false := by
    rcases hts with rfl | ⟨more, rfl⟩
    · rfl
    · exact isPunct_of_ne rfl (by decide)
  simp [variant, hhash, visibility, hpub, hi, hgroup, hequals]

/-- Behind the visibility of an enumeration. -/
abbrev enumerationTrees (name : Ident) (variants : List Ident) (ts : List TokenTree) :
    List TokenTree :=
  .ident (.plain "enum") :: .ident name ::
    braced (marked ',' false (variants.map fun v => [.ident v])) ts

theorem reads_typeItem {name : Ident} {variants : List Ident} {as : List Attribute}
    {v : Visibility} (hname : isName name = true) (hvariants : ∀ v ∈ variants, isName v = true) :
    Reads (typeItem inner as v) (enumerationTrees name variants ts) ts
      fun p => p.1 = ⟨as, v, name, .none, .enumeration⟩ := by
  have hpieces : Pieces ',' List.isEmpty (variant inner) (variants.map fun v => [.ident v]) [] := by
    refine ⟨rfl, fun p hp ts => ?_, fun p hp ts hts => ?_⟩
    all_goals obtain ⟨v, hv, rfl⟩ := List.mem_map.mp hp
    · rfl
    · exact takes_variant (hvariants v hv) hts
  have hlist := reads_separatedUntil false hpieces (fun _ => rfl) (hpieces.length_lt false)
  rw [List.append_nil] at hlist
  have hbody : Takes (terminatedCode (variant inner))
      (marked ',' false (variants.map fun v => [.ident v])) [] := by
    rw [terminatedCode, terminated, bind_assoc]
    exact reads_ahead_bind.mpr (hlist.bind fun _ _ => by simp)
  have hangle : isPunct "<" (braced (marked ',' false (variants.map fun v => [.ident v])) ts) = false :=
    isPunct_group (by decide)
  have hwhere : isKeyword "where" (braced (marked ',' false (variants.map fun v => [.ident v])) ts)
    = false := rfl
  have hkind : (Ident.plain "enum").name = "enum" := rfl
  simp only [typeItem, reads_word_bind, reads_identifier_bind hname, genericParams,
    reads_punct?_bind, hangle, Bool.false_eq_true, if_false, bind_assoc, pure_bind, hkind, whereClause?,
    reads_keyword?_bind, hwhere]
  exact (reads_inside hbody).bind fun variants _ => reads_pure.mpr ⟨rfl, rfl⟩

/-- An enumeration behind its attributes and its visibility. -/
theorem reads_enumeration {documentation : String} {visible : List TokenTree} {name : Ident}
    {variants : List Ident} (hname : isName name = true) (hvariants : ∀ v ∈ variants, isName v = true)
    (hvisible : Takes visibility (visible ++ enumerationTrees name variants ts)
      (enumerationTrees name variants ts))
    (hhash : isPunct "#" (visible ++ enumerationTrees name variants ts) = false) :
    Reads (item inner)
      (attributeTrees documentation ++ (visible ++ enumerationTrees name variants ts)) ts
      fun p => ∃ t c, p = (.type t, c) ∧ t.name = name ∧ t.body = .enumeration := by
  have hsignature : ∀ ts, isSignature false (.ident (.plain "enum") :: ts) = false := fun _ => rfl
  have henum : ∀ ts, isKeyword "enum" (.ident (.plain "enum") :: ts) = true := fun _ => rfl
  have hkey : ∀ v ∈ ["extern", "use", "static", "const", "unsafe", "mod", "type", "struct"], ∀ ts,
      isKeyword v (.ident (.plain "enum") :: ts) = false :=
    fun v hv ts => isKeyword_of_not_mem hv (by decide) ts
  rw [item, reads_ahead_bind]
  refine (takes_attributes hhash).bind fun as _ => ?_
  rw [itemBehind]
  refine Reads.here_bind fun start => hvisible.bind fun v _ => ?_
  simp only [reads_ahead_bind, hsignature, hkey "extern" (by decide), hkey "use" (by decide),
    hkey "static" (by decide), hkey "const" (by decide), hkey "unsafe" (by decide),
    hkey "mod" (by decide), hkey "type" (by decide), hkey "struct" (by decide), henum,
    Bool.false_eq_true, if_false, Bool.or_true, Bool.true_or, if_true]
  refine (reads_typeItem hname hvariants).bind ?_
  rintro ⟨t, c⟩ rfl
  exact reads_pure.mpr ⟨rfl, _, _, rfl, rfl, rfl⟩

/-! ### Files -/

/-- What a file consists of that holds an enumeration and three implementations. -/
def IsMembers (name : Ident) (items : List Item) : Prop :=
  ∃ t, items = [.type t, .other, .other, .other] ∧ t.name = name ∧ t.body = .enumeration

theorem reads_file {documentation : String} {visible : List TokenTree} {name : Ident}
    {variants : List Ident} {first second third : List TokenTree}
    (henumeration : ∀ ts, Reads (item inner)
      (attributeTrees documentation ++ (visible ++ enumerationTrees name variants ts)) ts
      fun p => ∃ t c, p = (.type t, c) ∧ t.name = name ∧ t.body = .enumeration)
    (himplementation : ∀ p ∈ [first, second, third], p ≠ [] ∧
      ∀ ts, Reads (item inner) (p ++ ts) ts fun p => ∃ c, p = (.other, c)) :
    Reads (file inner)
      (attributeTrees documentation
        ++ (visible ++ enumerationTrees name variants (first ++ (second ++ third)))) []
      (IsMembers name) := by
  have hne : ∀ p ∈ [first, second, third], ∀ ts, p ++ ts ≠ [] := fun p hp ts hnil =>
    (himplementation p hp).1 (List.append_eq_nil_iff.mp hnil).1
  have hitems : ∀ fuel, Reads (toEnd (item inner) (fuel + 4))
      (attributeTrees documentation
        ++ (visible ++ enumerationTrees name variants (first ++ (second ++ third)))) []
      fun items => IsMembers name (items.map (·.1)) := by
    intro fuel
    have hthird := reads_toEnd_cons (hne third (by simp) [])
      ((himplementation third (by simp)).2 []) (reads_toEnd_nil fuel)
    rw [List.append_nil] at hthird
    have hsecond := reads_toEnd_cons (hne second (by simp) _)
      ((himplementation second (by simp)).2 third) hthird
    have hfirst := reads_toEnd_cons (hne first (by simp) _)
      ((himplementation first (by simp)).2 (second ++ third)) hsecond
    refine (reads_toEnd_cons (by simp [attributeTrees]) (henumeration _) hfirst).imp ?_
    rintro _ ⟨_, _, rfl, ⟨t, _, rfl, hname, hbody⟩, _, _, rfl, ⟨_, rfl⟩, _, _, rfl, ⟨_, rfl⟩, _, _, rfl,
      ⟨_, rfl⟩, rfl⟩
    exact ⟨t, rfl, hname, hbody⟩
  -- There are as many rounds as tokens, of which the documentation alone has six.
  have hlength : 4 ≤ (attributeTrees documentation
      ++ (visible ++ enumerationTrees name variants (first ++ (second ++ third)))).length + 1 := by
    rw [List.length_append]
    have hsix : (attributeTrees documentation).length = 6 := rfl
    omega
  obtain ⟨fuel, hfuel⟩ := Nat.exists_eq_add_of_le' hlength
  have hinner : ∀ ts scope stray, innerAttributes inner ⟨attributeTrees documentation ++ ts, scope, stray⟩
      = .ok ([], ⟨attributeTrees documentation ++ ts, scope, stray⟩) := fun _ _ _ => rfl
  refine (reads_bind_iff (hinner _)).mpr (reads_rounds_bind.mpr ?_)
  rw [hfuel]
  exact (hitems fuel).bind fun items hitems => reads_pure.mpr ⟨rfl, hitems⟩

end Parser

end RecordCoding
