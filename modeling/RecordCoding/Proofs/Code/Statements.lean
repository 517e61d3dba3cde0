/-
Reading statements back.

Generated functions are made of bindings, of expressions with a semicolon behind
them, and of one expression at the end, which may be a `match` over keys.

* `reads_statement_binding`, `reads_statement_closed` — the forms of a statement;
* `takes_statements` — the body of a function;
* `takes_statement_choice` — a `match` whose arms are variants and literals.

Design notes: whether a statement is the call of a macro or an item is decided on its
first words.  These are fixed in generated code, whatever names a record has.
-/
import RecordCoding.Proofs.Code.Expressions

namespace RecordCoding

namespace Parser

variable {inner : Inner} {i : Ident} {ts mid rest body : List TokenTree} {n : Nat}

/-! ### Patterns -/

/-- Reserved words among those that patterns are looked at for. -/
theorem isKeyword_of_patterns (hi : isName i = true) (ts : List TokenTree) : ∀ w ∈
    ["self", "Self", "super", "crate", "_", "box", "const", "ref", "mut"],
    isKeyword w (.ident i :: ts) = false := by
  intro w hw
  simp only [List.mem_cons, List.not_mem_nil, or_false] at hw
  rcases hw with rfl | rfl | rfl | rfl | rfl | rfl | rfl | rfl | rfl <;>
    exact isKeyword_of_isName hi (by decide) ts

theorem isLiteral_of_isName (hi : isName i = true) (ts : List TokenTree) :
    isLiteral (.ident i :: ts) = false := by
  have htrue := isKeyword_of_isName hi (w := "true") (by decide) ts
  have hfalse := isKeyword_of_isName hi (w := "false") (by decide) ts
  rw [isKeyword] at htrue hfalse
  rw [isLiteral, Bool.and_or_distrib_left, htrue, hfalse]
  rfl

/-- A name that something is bound to. -/
theorem takes_pattern_name {c : Char} (hi : isName i = true) (hc : c = '=' ∨ c = ':')
    (hrest : isPunct "::" (mark c :: rest) = false) :
    Takes (pattern inner) (.ident i :: mark c :: rest) (mark c :: rest) := by
  have hkey := isKeyword_of_patterns hi (mark c :: rest)
  have hliteral := isLiteral_of_isName hi (mark c :: rest)
  have hpunct : ∀ p ∈ ["::", "<", "-"], isPunct p (.ident i :: mark c :: rest) = false := by
    intro p hp
    refine isPunct_ident ?_
    simp only [List.mem_cons, List.not_mem_nil, or_false] at hp
    rcases hp with rfl | rfl | rfl <;> decide
  have hbehind : ∀ p ∈ ["!", "..", "@"], isPunct p (mark c :: rest) = false := by
    intro p hp
    simp only [List.mem_cons, List.not_mem_nil, or_false] at hp
    rcases hc with rfl | rfl <;> rcases hp with rfl | rfl | rfl <;>
      exact isPunct_of_ne rfl (by decide)
  have hpath : isPathPattern (.ident i :: mark c :: rest) = false := by
    simp [isPathPattern, isIdentifier, hi, hkey, hpunct, hbehind, hrest, isGroup]
  simp [pattern, hpath, hkey, hpunct, hliteral, isIdentifier, hi, namePattern, hbehind]

/-- The variant of an enumeration at the place of a pattern. -/
theorem takes_pattern_variant (hi : isName i = true) (hrest : EndsStep true rest)
    (hcolons : isPunct "::" rest = false)
    (hbehind : ∀ p ∈ ["!", ".."], isPunct p rest = false)
    (hgroup : ∀ d, isGroup d rest = false) :
    Takes (pattern inner) (.ident (.plain "Self") :: (doubleColon ++ .ident i :: rest)) rest := by
  have hopens : OpensPath (.ident (.plain "Self") :: (doubleColon ++ .ident i :: rest)) :=
    .word (by decide) rfl
  have hfirst : StepBefore inner true rest [.ident (.plain "Self")] :=
    stepBefore_ident (by decide) hrest
  have hsecond : ∀ p ∈ [[.ident i]], StepBefore inner true rest p := by
    intro p hp
    rw [List.mem_singleton.mp hp]
    exact stepBefore_ident (by rw [isStep, hi, Bool.true_or]) hrest
  have hpath := takes_path false hfirst hsecond hcolons
  have hpattern : isPathPattern (.ident (.plain "Self") :: (doubleColon ++ .ident i :: rest)) = true :=
    rfl
  simp only [pattern, reads_ahead_bind, hpattern, if_true]
  rw [pathPattern]
  refine (hopens.reads_qualifiedPath hpath).bind ?_
  rintro _ ⟨p, rfl⟩
  simp [hbehind, hgroup]

/-! ### Statements -/

/-- Nothing like the call of a macro stands in front. -/
theorem reads_leadingCall_of_path (h : Takes plainPath ts mid) (hbang : isPunct "!" mid = false) :
    Reads leadingCall ts ts (· = .neither) := by
  have hlooked : Reads (lookingAhead (do let _ ← plainPath; ahead)) ts ts (· = mid) :=
    reads_lookingAhead (h.bind fun _ _ => reads_ahead.mpr ⟨rfl, rfl⟩)
  rw [leadingCall]
  refine (reads_attempt? hlooked).bind ?_
  rintro _ ⟨_, rfl, rfl⟩
  simp [hbang]

theorem reads_leadingCall_of_fails (h : Fails plainPath ts) :
    Reads leadingCall ts ts (· = .neither) := by
  have hlooked : Fails (lookingAhead (do let _ ← plainPath; ahead)) ts := by
    intro scope stray
    obtain ⟨e, he⟩ := h scope stray
    refine ⟨e, ?_⟩
    have hrun : (do let _ ← plainPath; ahead : Parser (List TokenTree)) ⟨ts, scope, stray⟩ = .error e := by
      show Except.bind (plainPath ⟨ts, scope, stray⟩) _ = _
      rw [he]
      rfl
    rw [lookingAhead, hrun]
  rw [leadingCall]
  refine (reads_attempt?_of_fails hlooked).bind ?_
  rintro _ rfl
  simp

/-- A reserved word opens no path. -/
theorem fails_plainPath {w : String} (hw : w ∈ ["let", "match"]) :
    Fails plainPath (.ident (.plain w) :: ts) := by
  intro scope stray
  simp only [List.mem_cons, List.not_mem_nil, or_false] at hw
  rcases hw with rfl | rfl <;> exact ⟨_, rfl⟩

/-- A binding. -/
theorem reads_statement_binding {p vs : List TokenTree}
    (hpattern : Takes inner.pattern (p ++ mark '=' :: vs)
      (mark '=' :: vs))
    (hvalue : Takes (inner.expression true) vs (mark ';' :: rest)) :
    Reads (statement inner)
      (.ident (.plain "let") :: (p ++ mark '=' :: vs)) rest
      fun c => c.needsSemicolon = false := by
  have hhash : ∀ ts, isPunct "#" (.ident (.plain "let") :: ts) = false := fun ts =>
    isPunct_ident (by decide)
  have hlet : ∀ ts, isKeyword "let" (.ident (.plain "let") :: ts) = true := fun ts => rfl
  have hequals : isPunct "=" (mark '=' :: vs) = true := by
    simp [isPunct, beginsWith]
  have hdrop : (mark '=' :: vs).drop "=".toList.length
    = vs := rfl
  have hfound : Reads (value? inner) (mark '=' :: vs) (mark ';' :: rest)
      fun c => ∃ parts, c = .node .sequence parts := by
    simp only [value?, reads_punct?_bind, hequals, if_true, hdrop]
    exact hvalue.bind fun _ _ => reads_pure.mpr ⟨rfl, _, rfl⟩
  have hbinding : Reads (bindingStatement inner)
      (.ident (.plain "let") :: (p ++ mark '=' :: vs)) rest
      fun c => ∃ parts, c = .node .binding parts := by
    rw [bindingStatement]
    simp only [reads_keyword_bind (hlet _), List.drop_succ_cons, List.drop_zero]
    refine hpattern.bind fun p _ => ?_
    have hcolon : isPunct ":" (mark '=' :: vs) = false :=
      isPunct_of_ne rfl (by decide)
    simp only [reads_punct?_bind, hcolon, Bool.false_eq_true, if_false, pure_bind]
    refine hfound.bind ?_
    rintro _ ⟨parts, rfl⟩
    have hfull : (Code.node .sequence parts).isAbsent = false := rfl
    have helse : isKeyword "else" (mark ';' :: rest) = false := rfl
    have hend : isPunct ";" (mark ';' :: rest) = true := by simp [isPunct, beginsWith]
    simp only [hfull, Bool.false_eq_true, if_false, otherwise?, bind_assoc, reads_ahead_bind, helse,
      Bool.and_false, pure_bind, reads_punct_bind hend]
    exact reads_pure.mpr ⟨rfl, _, rfl⟩
  simp only [statement, reads_ahead_bind, reads_attributes_bind (hhash _)]
  -- A macro call is tried first, and `let` opens none.
  refine (reads_leadingCall_of_fails (fails_plainPath (by decide))).bind ?_
  rintro _ rfl
  simp only [reads_ahead_bind, hlet, if_true]
  refine hbinding.bind ?_
  rintro _ ⟨parts, rfl⟩
  exact reads_pure.mpr ⟨rfl, rfl⟩

/-- What an expression at the place of a statement does not open with if it is not
made of a block. -/
structure OpensOperand (ts : List TokenTree) : Prop where
  mark : isPunct "#" ts = false
  words : ∀ w ∈ ["if", "while", "for", "loop", "match", "try", "unsafe", "const"],
    isKeyword w ts = false
  brace : isGroup .brace ts = false
  lifetime : isLifetime ts = false

/-- An expression at the place of a statement. -/
theorem reads_statementExpression {P : Code → Prop} (hopens : OpensOperand ts)
    (hoperand : Reads (operandWith inner true (ts.length + 1)) ts mid P) (hmid : Closes mid)
    (hP : ∀ c, P c → c.isBlockLike = false ∧ Code.withAttributes [] c = c) :
    Reads (statementExpression inner) ts mid P := by
  simp only [statementExpression, reads_attributesCode_bind hopens.mark, reads_ahead_bind,
    hopens.words "if" (by decide), hopens.words "while" (by decide), hopens.words "for" (by decide),
    hopens.words "loop" (by decide), hopens.words "match" (by decide), hopens.words "try" (by decide),
    hopens.words "unsafe" (by decide), hopens.words "const" (by decide), hopens.brace,
    hopens.lifetime, Bool.false_and, Bool.false_eq_true, if_false, operationsOf, bind_assoc,
    reads_rounds_bind]
  refine hoperand.bind fun c hc => ?_
  obtain ⟨hblock, hattributes⟩ := hP c hc
  simp only [hblock, Bool.not_false, if_true, operatorRounds, bind_assoc, reads_ahead_bind, pure_bind,
    hattributes]
  exact (reads_operations hmid).imp fun a ha => ha ▸ hc

/-- A statement opens like an expression. -/
structure OpensStatement (ts : List TokenTree) : Prop where
  mark : isPunct "#" ts = false
  call : Reads leadingCall ts ts (· = .neither)
  binding : isKeyword "let" ts = false
  item : isItemStatement ts = false

/-- The constructs that stand as a statement in generated code. -/
def Standing (c : Code) : Prop :=
  ∃ k parts, c = .node k parts ∧ (k = .propagation ∨ k = .call ∨ k = .choice)

theorem Standing.withAttributes {c : Code} (h : Standing c) : Code.withAttributes [] c = c := by
  obtain ⟨k, parts, rfl, rfl | rfl | rfl⟩ := h <;> rfl

/-- A statement that is neither a binding nor an item nor the call of a macro. -/
theorem reads_statement_of_expression {P : Code → Prop} (hopens : OpensStatement ts)
    (h : Reads (expressionStatement inner []) ts rest P) : Reads (statement inner) ts rest P := by
  simp only [statement, reads_ahead_bind, reads_attributes_bind hopens.mark]
  refine hopens.call.bind ?_
  rintro _ rfl
  simp only [reads_ahead_bind, hopens.binding, hopens.item, Bool.false_eq_true, if_false]
  exact h

/-- An expression with a semicolon behind it. -/
theorem reads_statement_closed (hopens : OpensStatement ts)
    (h : Reads (statementExpression inner) ts (mark ';' :: rest) Standing) :
    Reads (statement inner) ts rest fun c => c.needsSemicolon = false := by
  have hend : isPunct ";" (mark ';' :: rest) = true := by simp [isPunct, beginsWith]
  have hdrop : (mark ';' :: rest).drop ";".toList.length = rest := rfl
  refine reads_statement_of_expression hopens (h.bind fun c hc => ?_)
  rw [hc.withAttributes]
  obtain ⟨k, parts, rfl, rfl | rfl | rfl⟩ := hc
  all_goals
    simp only [semicolon?, bind_assoc, pure_bind, reads_punct?_bind, hend, if_true, hdrop]
    exact reads_pure.mpr ⟨rfl, rfl⟩

/-- An expression at the end. -/
theorem takes_statement_last (hopens : OpensStatement ts)
    (h : Reads (statementExpression inner) ts [] Standing) : Takes (statement inner) ts [] := by
  have hend : isPunct ";" [] = false := rfl
  refine reads_statement_of_expression hopens (h.bind fun c hc => ?_)
  rw [hc.withAttributes]
  obtain ⟨k, parts, rfl, rfl | rfl | rfl⟩ := hc
  all_goals
    simp only [semicolon?, bind_assoc, pure_bind, reads_punct?_bind, hend, Bool.false_eq_true,
      if_false]
    exact reads_pure.mpr ⟨rfl, trivial⟩

/-- Statements, the last of which is an expression without a semicolon. -/
theorem takes_statementsToEnd {pieces : List (List TokenTree)} {last : List TokenTree} {fuel : Nat}
    (h : ∀ p ∈ pieces, (∃ t more, p = t :: more ∧ ∀ ts, isPunct ";" (t :: ts) = false) ∧
      ∀ ts, Reads (statement inner) (p ++ ts) ts fun c => c.needsSemicolon = false)
    (hlast : last ≠ []) (hopen : isPunct ";" last = false) (htail : Takes (statement inner) last [])
    (hfuel : pieces.length + 1 < fuel) :
    Takes (statementsToEnd inner fuel) (pieces.flatten ++ last) [] := by
  induction pieces generalizing fuel with
  | nil =>
    obtain ⟨fuel, rfl⟩ : ∃ n, fuel = n + 2 := ⟨fuel - 2, by omega⟩
    have hne : last.isEmpty = false := List.isEmpty_eq_false_iff.mpr hlast
    simp only [List.flatten_nil, List.nil_append, statementsToEnd, reads_finished_bind, hne,
      Bool.false_eq_true, if_false, reads_punct?_bind, hopen]
    exact htail.bind fun _ _ => by simp
  | cons p more ih =>
    obtain ⟨fuel, rfl⟩ : ∃ n, fuel = n + 1 := ⟨fuel - 1, by omega⟩
    obtain ⟨⟨t, tail, rfl, hmark⟩, hp⟩ := h p List.mem_cons_self
    have hfuel : more.length + 1 < fuel := by simpa using hfuel
    have ih := ih (fun q hq => h q (List.mem_cons_of_mem _ hq)) hfuel
    simp only [List.flatten_cons, List.append_assoc, List.cons_append, statementsToEnd,
      reads_finished_bind, List.isEmpty_cons, Bool.false_eq_true, if_false, reads_punct?_bind, hmark]
    refine (hp _).bind fun c hc => ?_
    simp only [hc, Bool.false_and, Bool.false_eq_true, if_false, reads_finished_bind]
    exact ih.bind fun _ _ => by simp

/-- The body of a function. -/
theorem takes_statements (pieces : List (List TokenTree)) {last : List TokenTree}
    (h : ∀ p ∈ pieces, (∃ t more, p = t :: more ∧ ∀ ts, isPunct ";" (t :: ts) = false) ∧
      ∀ ts, Reads (statement inner) (p ++ ts) ts fun c => c.needsSemicolon = false)
    (hlast : last ≠ []) (hopen : isPunct ";" last = false) (htail : Takes (statement inner) last []) :
    Takes (statements inner) (pieces.flatten ++ last) [] := by
  have hne : ∀ p ∈ pieces, 1 ≤ p.length := by
    intro p hp
    obtain ⟨⟨t, more, rfl, -⟩, -⟩ := h p hp
    exact Nat.succ_pos _
  have hpieces : pieces.length ≤ pieces.flatten.length := by
    clear h
    induction pieces with
    | nil => exact Nat.le_refl _
    | cons p more ih =>
      have hp := hne p List.mem_cons_self
      have ih := ih fun q hq => hne q (List.mem_cons_of_mem _ hq)
      rw [List.flatten_cons, List.length_append, List.length_cons]
      omega
  have hfuel : pieces.length + 1 < (pieces.flatten ++ last).length + 1 := by
    have hone := List.length_pos_iff.mpr hlast
    rw [List.length_append]
    omega
  exact reads_rounds_bind.mpr (takes_statementsToEnd h hlast hopen htail hfuel)

/-! ### Arms -/

/-- `Self::variant => "text",` -/
def armTrees (a : Ident × String) : List TokenTree :=
  .ident (.plain "Self") :: (doubleColon ++
    [.ident a.1, .punct '=' true .start, mark '>', .literal a.2 .start, mark ','])

/-- What stands behind the pattern of an arm. -/
theorem takes_pattern_arm (hi : isName i = true) :
    Takes (pattern inner)
      (.ident (.plain "Self") :: (doubleColon ++ .ident i :: .punct '=' true .start :: mark '>' :: ts))
      (.punct '=' true .start :: mark '>' :: ts) := by
  have hpunct : ∀ p ∈ ["<", "::", "!", ".."],
      isPunct p (.punct '=' true .start :: mark '>' :: ts) = false := by
    intro p hp
    simp only [List.mem_cons, List.not_mem_nil, or_false] at hp
    rcases hp with rfl | rfl | rfl | rfl <;> exact isPunct_of_ne rfl (by decide)
  refine takes_pattern_variant hi ⟨fun _ => hpunct _ (by decide), ?_⟩ (hpunct _ (by decide))
    (fun p hp => ?_) fun d => rfl
  · rw [hpunct _ (by decide), Bool.false_and]
  · simp only [List.mem_cons, List.not_mem_nil, or_false] at hp
    rcases hp with rfl | rfl <;> exact hpunct _ (by decide)

/-- A literal behind an arrow. -/
theorem reads_statementExpression_literal {text : String} :
    Reads (statementExpression inner) (.literal text .start :: mark ',' :: ts) (mark ',' :: ts)
      fun c => ∃ parts, c = .node .literal parts := by
  intro scope stray
  exact ⟨_, rfl, _, rfl⟩

theorem takes_arm {a : Ident × String} (ha : isName a.1 = true) :
    Takes (arm (Inner.ofDepth (n + 1))) (armTrees a ++ ts) ts := by
  have hpattern : Takes (Inner.ofDepth (n + 1)).pattern (armTrees a ++ ts)
      (.punct '=' true .start :: mark '>' :: .literal a.2 .start :: mark ',' :: ts) :=
    takes_pattern_arm ha
  have hbody : Reads (Inner.ofDepth (n + 1)).statementExpression (.literal a.2 .start :: mark ',' :: ts)
      (mark ',' :: ts) fun c => ∃ parts, c = .node .literal parts :=
    reads_statementExpression_literal
  have hhash : isPunct "#" (armTrees a ++ ts) = false := isPunct_ident (by decide)
  have hbar : isPunct "|" (armTrees a ++ ts) = false := isPunct_ident (by decide)
  have hpatterns : Takes (patterns (Inner.ofDepth (n + 1))) (armTrees a ++ ts)
      (.punct '=' true .start :: mark '>' :: .literal a.2 .start :: mark ',' :: ts) := by
    simp only [patterns, reads_punct?_bind, hbar, Bool.false_eq_true, if_false]
    refine hpattern.bind fun c _ => ?_
    -- The arrow is no bar, so there is one pattern.
    intro scope stray
    exact ⟨c, rfl, trivial⟩
  rw [arm]
  simp only [reads_attributesCode_bind hhash]
  refine hpatterns.bind fun p _ => ?_
  have hif : isKeyword "if"
      (.punct '=' true .start :: mark '>' :: .literal a.2 .start :: mark ',' :: ts) = false := rfl
  have harrow : isPunct "=>"
      (.punct '=' true .start :: mark '>' :: .literal a.2 .start :: mark ',' :: ts) = true := rfl
  have hcomma : isPunct "," (mark ',' :: ts) = true := rfl
  simp only [reads_keyword?_bind, hif, Bool.false_eq_true, if_false, pure_bind,
    reads_punct_bind harrow]
  refine hbody.bind ?_
  rintro _ ⟨parts, rfl⟩
  simp [Code.isBlockLike, Code.bare, Code.construct?, hcomma]

theorem takes_arms {arms : List (Ident × String)} (h : ∀ a ∈ arms, isName a.1 = true) {fuel : Nat}
    (hfuel : arms.length < fuel) :
    Takes (toEnd (arm (Inner.ofDepth (n + 1))) fuel) (arms.flatMap armTrees) [] := by
  induction arms generalizing fuel with
  | nil => exact (reads_toEnd_nil _).takes
  | cons a more ih =>
    obtain ⟨fuel, rfl⟩ : ∃ k, fuel = k + 1 := ⟨fuel - 1, by omega⟩
    rw [List.flatMap_cons]
    exact (reads_toEnd_cons (by simp [armTrees]) (takes_arm (h a List.mem_cons_self))
      (ih (fun b hb => h b (List.mem_cons_of_mem _ hb)) (by simpa using hfuel))).takes

/-- A `match` over `self` whose arms are variants and literals. -/
theorem reads_choice {arms : List (Ident × String)} (h : ∀ a ∈ arms, isName a.1 = true) :
    Reads (choice (Inner.ofDepth (n + 1)))
      [.ident (.plain "match"), .ident (.plain "self"),
        .group .brace (arms.flatMap armTrees) .start .start] []
      fun c => ∃ parts, c = .node .choice parts := by
  have hmatch : isKeyword "match" [.ident (.plain "match"), .ident (.plain "self"),
    .group .brace (arms.flatMap armTrees) .start .start] = true := rfl
  -- In front of the arms no record is read, so the brace does not belong to `self`.
  have hsubject : Takes ((Inner.ofDepth (n + 1)).expression false)
      [.ident (.plain "self"), .group .brace (arms.flatMap armTrees) .start .start]
      [.group .brace (arms.flatMap armTrees) .start .start] := by
    intro scope stray
    exact ⟨_, rfl, trivial⟩
  have hlength : arms.length ≤ (arms.flatMap armTrees).length :=
    length_le_flatMap fun a _ => by simp [armTrees]
  have hhash : isPunct "#" (arms.flatMap armTrees) = false := by
    cases arms with
    | nil => rfl
    | cons a more => exact isPunct_ident (by decide)
  have hbody : Takes (do
      let as ← innerAttributes (Inner.ofDepth (n + 1))
      let arms ← toEnd (arm (Inner.ofDepth (n + 1))) (← rounds)
      pure (as.map Attribute.code ++ arms) : Parser (List Code)) (arms.flatMap armTrees) [] := by
    refine (reads_innerAttributes_bind hhash).mpr (reads_rounds_bind.mpr ?_)
    exact (takes_arms h (Nat.lt_succ_of_le hlength)).bind fun _ _ => by simp
  rw [choice, reads_keyword_bind hmatch]
  refine hsubject.bind fun subject _ => ?_
  exact (reads_inside hbody).bind fun parts _ => reads_pure.mpr ⟨rfl, _, rfl⟩

/-- A `match` as the only statement. -/
theorem takes_statement_choice {arms : List (Ident × String)} (h : ∀ a ∈ arms, isName a.1 = true) :
    Takes (statements (Inner.ofDepth (n + 1)))
      [.ident (.plain "match"), .ident (.plain "self"),
        .group .brace (arms.flatMap armTrees) .start .start] [] := by
  have hopens : OpensStatement [.ident (.plain "match"), .ident (.plain "self"),
      .group .brace (arms.flatMap armTrees) .start .start] :=
    ⟨rfl, reads_leadingCall_of_fails (fails_plainPath (by decide)), rfl, rfl⟩
  have hexpression : Reads (statementExpression (Inner.ofDepth (n + 1)))
      [.ident (.plain "match"), .ident (.plain "self"),
        .group .brace (arms.flatMap armTrees) .start .start] [] Standing := by
    have hchoice := reads_choice (n := n) h
    simp only [statementExpression, reads_attributesCode_bind hopens.mark, reads_ahead_bind]
    refine Reads.bind (show Reads _ _ [] fun c => ∃ parts, c = .node .choice parts from ?_) ?_
    · simpa [isKeyword] using hchoice
    · rintro _ ⟨parts, rfl⟩
      simp [Code.isBlockLike, Code.bare, Code.construct?, goesOn, isDot, isPunct, beginsWith,
        Code.withAttributes, Standing]
  exact takes_statements [] (fun _ hp => absurd hp (by simp)) (by simp) rfl
    (takes_statement_last hopens hexpression)

end Parser

end RecordCoding
