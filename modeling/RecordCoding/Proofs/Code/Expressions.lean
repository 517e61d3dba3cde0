/-
Reading expressions back.

Generated expressions are paths, calls, members, references and lists of these, with
neither operators between them nor attributes in front.  `Closes` is what stands
behind one.

* `reads_expression` — an operand alone is an expression;
* `reads_trailing_*` — what follows an operand, one lemma for each form of it;
* `takes_terminatedCode` — expressions in brackets.

Design notes: an operand is read by an atom and then by a loop over what follows it.
A lemma on a step of that loop takes the run of the remaining loop for its
hypothesis, so an operand is put together from the front.
-/
import RecordCoding.Proofs.Code.Terms

namespace RecordCoding

namespace Parser

variable {inner : Inner} {record : Bool} {ts mid rest body : List TokenTree} {c : Code}
  {P Q : Code → Prop}

/-- What stands behind an expression in generated code. -/
inductive Closes : List TokenTree → Prop
  | nil : Closes []
  | comma {joint : Bool} {l : Location} (ts : List TokenTree) : Closes (.punct ',' joint l :: ts)
  | semicolon {joint : Bool} {l : Location} (ts : List TokenTree) :
      Closes (.punct ';' joint l :: ts)

theorem Closes.ends (h : Closes rest) : Ends rest := by
  cases h with
  | nil => exact .nil
  | comma ts => exact .mark (by decide) ts
  | semicolon ts => exact .mark (by decide) ts

theorem Closes.isGroup_eq_false (h : Closes rest) (d : Delimiter) : isGroup d rest = false := by
  cases h <;> rfl

/-! ### Operands -/

/-- No attributes stand in front. -/
@[simp]
theorem reads_attributes_bind {α : Type} {f : List Attribute → Parser α} {P : α → Prop}
    (h : isPunct "#" ts = false) :
    Reads (attributes inner >>= f) ts rest P ↔ Reads (f []) ts rest P := by
  refine reads_bind_iff fun scope stray => ?_
  show (if isPunct "#" ts = true then _ else pure [] : Parser (List Attribute)) ⟨ts, scope, stray⟩ = _
  rw [if_neg (by simp [h])]
  rfl

@[simp]
theorem reads_attributesCode_bind {α : Type} {f : List Code → Parser α} {P : α → Prop}
    (h : isPunct "#" ts = false) :
    Reads (attributesCode inner >>= f) ts rest P ↔ Reads (f []) ts rest P := by
  rw [attributesCode, bind_assoc, reads_attributes_bind h, pure_bind]
  rfl

@[simp]
theorem reads_innerAttributes_bind {α : Type} {f : List Attribute → Parser α} {P : α → Prop}
    (h : isPunct "#" ts = false) :
    Reads (innerAttributes inner >>= f) ts rest P ↔ Reads (f []) ts rest P := by
  refine reads_bind_iff fun scope stray => ?_
  show (if (isPunct "#" ts && isPunct "!" (ts.drop 1)) = true then _ else pure [] :
    Parser (List Attribute)) ⟨ts, scope, stray⟩ = _
  rw [if_neg (by simp [h])]
  rfl

/-- Neither an attribute nor an operator stands in front. -/
def Unprefixed (ts : List TokenTree) : Prop := ∀ p ∈ ["#", "&", "*", "!", "-"], isPunct p ts = false

theorem Unprefixed.of_no_mark (h : ∀ c joint l more, ts ≠ .punct c joint l :: more) :
    Unprefixed ts := by
  intro p hp
  have hne : p.toList ≠ [] := by
    simp only [List.mem_cons, List.not_mem_nil, or_false] at hp
    rcases hp with rfl | rfl | rfl | rfl | rfl <;> decide
  exact isPunct_of_no_mark hne h

theorem OpensPath.unprefixed (h : OpensPath ts) : Unprefixed ts := by
  intro p hp
  simp only [List.mem_cons, List.not_mem_nil, or_false] at hp
  rcases hp with rfl | rfl | rfl | rfl | rfl <;> exact h.isPunct_eq_false rfl (by decide)

/-- An operand that opens with its atom. -/
theorem reads_operandWith {fuel : Nat} (hopens : Unprefixed ts)
    (hatom : Reads (atom inner record) ts mid P)
    (htrailing : ∀ c, P c → Reads (trailing inner (mid.length + 1) c) mid rest Q) :
    Reads (operandWith inner record (fuel + 1)) ts rest Q := by
  have hfind : ["*", "!", "-"].find? (fun p => isPunct p ts) = none := by
    simp [hopens "*", hopens "!", hopens "-"]
  rw [operandWith]
  simp only [reads_ahead_bind, reads_attributesCode_bind (hopens "#" (by decide)),
    hopens "&" (by decide), Bool.false_eq_true, if_false, hfind, attributedOperand]
  refine Reads.here_bind fun l => ?_
  refine Reads.bind (show Reads _ ts rest Q from ?_) fun c hc => by simpa using hc
  exact hatom.bind fun c hc => by simpa using htrailing c hc

/-- A reference to an operand. -/
theorem reads_operandWith_reference {fuel : Nat}
    (hts : isKeyword "raw" ts = false) (hmut : isKeyword "mut" ts = false)
    (h : Takes (operandWith inner record fuel) ts rest) :
    Reads (operandWith inner record (fuel + 1)) (mark '&' :: ts) rest
      fun c => ∃ parts, c = .node .reference parts := by
  have hreference : isPunct "&" (mark '&' :: ts) = true := by simp [isPunct, beginsWith]
  have hattributes : isPunct "#" (mark '&' :: ts) = false := isPunct_of_ne rfl (by decide)
  have hdrop : (mark '&' :: ts).drop "&".toList.length = ts := rfl
  rw [operandWith]
  simp only [reads_ahead_bind, reads_attributesCode_bind hattributes, hreference, if_true,
    reads_punct_bind hreference, hdrop, hts, Bool.false_and, Bool.false_eq_true, if_false,
    reads_keyword?_bind, hmut]
  refine h.bind fun c _ => reads_pure.mpr ⟨rfl, ?_⟩
  exact ⟨_, rfl⟩

/-! ### Expressions -/

theorem reads_operations {o : Operations} {fuel base : Nat} (h : Closes rest) :
    Reads (operations o fuel c base) rest rest (· = c) := by
  cases fuel with
  | zero => simp [operations]
  | succ fuel =>
    have hoperator : operator? rest = none := by
      cases h <;> rfl
    have hassign : isAssignment rest = false := by
      cases h <;> rfl
    have hrange : isPunct ".." rest = false := h.ends.isPunct_eq_false rfl (by decide)
    have hcast : isKeyword "as" rest = false := by
      cases h <;> rfl
    simp [operations, hoperator, hassign, hrange, hcast]

/-- An operand with nothing behind it is an expression. -/
theorem reads_expression (hrest : Closes rest)
    (h : Reads (operandWith inner record (ts.length + 1)) ts rest P) :
    Reads (expression inner record) ts rest P := by
  rw [expression]
  refine Reads.bind (show Reads _ ts rest P from ?_) fun c hc => ?_
  · simpa [operationsOf] using h
  · rw [operatorRounds]
    simp only [bind_assoc, reads_ahead_bind, pure_bind]
    exact (reads_operations hrest).imp fun a ha => ha ▸ hc

/-! ### What follows an operand -/

theorem reads_trailing_nothing {fuel : Nat} (h : Closes rest) :
    Reads (trailing inner fuel c) rest rest (· = c) := by
  intro scope stray
  cases fuel with
  | zero => exact ⟨c, rfl, rfl⟩
  | succ fuel => cases h <;> exact ⟨c, rfl, rfl⟩

theorem reads_trailing_question {fuel : Nat} (hc : c.isRange = false)
    (h : Reads (trailing inner fuel (.node .propagation [c, .word "?"])) ts rest Q) :
    Reads (trailing inner (fuel + 1) c) (mark '?' :: ts) rest Q := by
  simpa [trailing, isGroup, isDot, isPunct, beginsWith, hc] using h

theorem reads_trailing_call {fuel : Nat} {o l : Location}
    (hbody : Takes (terminatedCode (inner.expression true)) body [])
    (h : ∀ parts, Reads (trailing inner fuel (.node .call [c, .group .parenthesis parts])) ts rest Q) :
    Reads (trailing inner (fuel + 1) c) (.group .parenthesis body o l :: ts) rest Q := by
  have hgroup : isGroup .parenthesis (.group .parenthesis body o l :: ts) = true := rfl
  simp only [trailing, reads_ahead_bind, hgroup, if_true]
  exact (reads_inside hbody).bind fun parts _ => h parts

/-- The numbers that may stand behind a dot do not. -/
theorem reads_numberFields?_bind {i : Ident} {f : Option (Code × Bool) → Parser Code} :
    Reads (numberFields? c >>= f) (.ident i :: ts) rest Q ↔ Reads (f none) (.ident i :: ts) rest Q :=
  reads_bind_iff fun _ _ => rfl

/-- A member behind a dot, given how the rest of it is read. -/
theorem reads_trailing_member {fuel : Nat} {i : Ident} (hc : c.isRange = false)
    (hmember : Reads (memberOf inner c) (.ident i :: ts) mid P)
    (h : ∀ c, P c → Reads (trailing inner fuel c) mid rest Q) :
    Reads (trailing inner (fuel + 1) c) (mark '.' :: .ident i :: ts) rest Q := by
  have hgroup : isGroup .parenthesis (mark '.' :: .ident i :: ts) = false := rfl
  have hdot : isDot (mark '.' :: .ident i :: ts) = true := rfl
  have hpunct : isPunct "." (mark '.' :: .ident i :: ts) = true := rfl
  simp only [trailing, reads_ahead_bind, hgroup, Bool.false_eq_true, if_false, hdot, hc,
    Bool.not_false, Bool.and_self, if_true, reads_punct_bind hpunct]
  show Reads _ (.ident i :: ts) rest Q
  rw [reads_numberFields?_bind]
  exact hmember.bind h

/-- A field. -/
theorem reads_memberOf_field {i : Ident} (hi : isName i = true) (hrest : Closes rest) :
    Reads (memberOf inner c) (.ident i :: rest) rest fun a => ∃ parts, a = .node .field parts := by
  have hawait := isKeyword_of_isName hi (w := "await") (by decide) rest
  have hcolons : isPunct "::" rest = false := hrest.ends.isPunct_eq_false rfl (by decide)
  have hgroup := hrest.isGroup_eq_false .parenthesis
  simp [memberOf, hawait, member, isIdentifier, hi, hcolons, hgroup]

/-- The call of a method. -/
theorem reads_memberOf_call {i : Ident} {o l : Location} (hi : isName i = true)
    (hbody : Takes (terminatedCode (inner.expression true)) body []) :
    Reads (memberOf inner c) (.ident i :: .group .parenthesis body o l :: rest) rest
      fun a => ∃ parts, a = .node .methodCall parts := by
  have hawait := isKeyword_of_isName hi (w := "await") (by decide) (.group .parenthesis body o l :: rest)
  have hcolons : isPunct "::" (.group .parenthesis body o l :: rest) = false := isPunct_group (by decide)
  simp only [memberOf, reads_keyword?_bind, hawait, Bool.false_eq_true, if_false, member,
    isIdentifier, hi, if_true, bind_assoc, reads_ahead_bind, reads_identifier_bind hi, pure_bind,
    hcolons, Bool.true_and, isGroup]
  simp only [Option.isSome_none, Bool.false_or, decide_true, if_true]
  exact (reads_inside hbody).bind fun parts _ => reads_pure.mpr ⟨rfl, _, rfl⟩

/-- The call of a method with arguments in angle brackets. -/
theorem reads_memberOf_turbofish {i : Ident} {o l : Location} (hi : isName i = true)
    (hcolons : isPunct "::" ts = true)
    (harguments : Takes (angleArguments inner) ts (.group .parenthesis body o l :: rest))
    (hbody : Takes (terminatedCode (inner.expression true)) body []) :
    Reads (memberOf inner c) (.ident i :: ts) rest fun a => ∃ parts, a = .node .methodCall parts := by
  have hawait := isKeyword_of_isName hi (w := "await") (by decide) ts
  simp only [memberOf, reads_keyword?_bind, hawait, Bool.false_eq_true, if_false, member,
    isIdentifier, hi, if_true, bind_assoc, reads_ahead_bind, reads_identifier_bind hi, pure_bind,
    hcolons, Bool.true_and]
  refine harguments.bind fun list _ => ?_
  simp only [Option.isSome_some, Bool.true_or, if_true, reads_ahead_bind]
  exact (reads_inside hbody).bind fun parts _ => reads_pure.mpr ⟨rfl, _, rfl⟩

/-! ### Atoms -/

/-- An atom that opens like a path is one. -/
theorem reads_atom (h : OpensPath ts) (hpath : Reads (pathAtom inner record) ts rest P) :
    Reads (atom inner record) ts rest P := by
  cases h with
  | colons ts =>
    -- A mark in front decides by itself which kind of atom is read.
    intro scope stray
    exact hpath scope stray
  | @word i hi ts hts =>
    have hkey : ∀ w ∈ ["async", "try", "move", "for", "const", "static"],
        isKeyword w (.ident i :: ts) = false := by
      intro w hw
      simp only [List.mem_cons, List.not_mem_nil, or_false] at hw
      rcases hw with rfl | rfl | rfl | rfl | rfl | rfl <;>
        exact isKeyword_of_opensType hi (by decide) (by decide) ts
    have hliteral := (OpensPath.word hi hts).isLiteral_eq_false
    have hbar : isPunct "|" (.ident i :: ts) = false := isPunct_ident (by decide)
    have hstart := isPathStart_of_opensType hi ts
    simpa [atom, hliteral, hkey, isClosure, isBinder, isBuiltin, hbar, hts, hstart] using hpath

/-- A path. -/
theorem reads_pathAtom (hopens : OpensPath ts) (hpath : Takes (path inner true) ts rest)
    (hbang : isPunct "!" rest = false) (hbrace : isGroup .brace rest = false) :
    Reads (pathAtom inner record) ts rest fun c => ∃ parts, c = .node .path parts := by
  rw [pathAtom]
  refine (hopens.reads_qualifiedPath hpath).bind ?_
  rintro _ ⟨p, rfl⟩
  simp [hbang, hbrace]

/-- A record. -/
theorem reads_pathAtom_record {o l : Location} (hopens : OpensPath ts)
    (hpath : Takes (path inner true) ts (.group .brace body o l :: rest))
    (hbody : ∀ fuel, body.length < fuel → Takes (initializers inner fuel) body []) :
    Reads (pathAtom inner true) ts rest fun c => ∃ parts, c = .node .record parts := by
  have hbang : isPunct "!" (.group .brace body o l :: rest) = false := isPunct_group (by decide)
  have hfields : Takes (do initializers inner (← rounds)) body [] := by
    simpa using hbody _ (Nat.lt_succ_self _)
  rw [pathAtom]
  refine (hopens.reads_qualifiedPath hpath).bind ?_
  rintro _ ⟨p, rfl⟩
  simp only [reads_ahead_bind, hbang, Bool.false_and, Bool.false_eq_true, if_false, isGroup,
    decide_true, Bool.and_self, if_true]
  exact (reads_inside hfields).bind fun parts _ => reads_pure.mpr ⟨rfl, _, rfl⟩

/-- Expressions in brackets, with commas between them. -/
theorem takes_terminatedCode {r : Parser Code} (pieces : List (List TokenTree))
    (h : ∀ p ∈ pieces, p ≠ [] ∧ ∀ ts, Closes ts → Takes r (p ++ ts) ts) :
    Takes (terminatedCode r) (marked ',' false pieces) [] := by
  have hpieces : Pieces ',' List.isEmpty r pieces [] := by
    refine ⟨rfl, fun p hp ts => ?_, fun p hp ts hts => ?_⟩
    · rw [List.isEmpty_eq_false_iff, ne_eq, List.append_eq_nil_iff, not_and]
      exact fun hnil => absurd hnil (h p hp).1
    · rcases hts with rfl | ⟨more, rfl⟩
      · exact (h p hp).2 _ .nil
      · exact (h p hp).2 _ (.comma more)
  have hlist := reads_separatedUntil false hpieces (fun _ => rfl) (hpieces.length_lt false)
  rw [List.append_nil] at hlist
  rw [terminatedCode, terminated, bind_assoc]
  exact reads_ahead_bind.mpr (hlist.bind fun _ _ => by simp)

/-- An array of expressions. -/
theorem reads_atom_array {pieces : List (List TokenTree)} {o l : Location}
    (h : ∀ p ∈ pieces, p ≠ [] ∧ ∀ ts, Closes ts → Takes (inner.expression true) (p ++ ts) ts) :
    Reads (atom inner record) (.group .bracket (marked ',' false pieces) o l :: rest) rest
      fun c => ∃ parts, c = .node .array parts := by
  have harray : Reads (arrayAtom inner) (.group .bracket (marked ',' false pieces) o l :: rest) rest
      fun c => ∃ parts, c = .node .array parts := by
    refine reads_inside ?_
    cases pieces with
    | nil => simp [marked]
    | cons p more =>
      obtain ⟨hne, hp⟩ := h p List.mem_cons_self
      have hmore := takes_terminatedCode more fun q hq => h q (List.mem_cons_of_mem _ hq)
      have hopen : (marked ',' false (p :: more)).isEmpty = false := by
        cases more <;> cases p <;> first | rfl | exact absurd rfl hne
      rw [reads_finished_bind, hopen, if_neg Bool.false_ne_true]
      -- A comma behind the first element tells a list from a repetition.
      cases more with
      | nil =>
        refine (hp _ .nil).bind fun a _ => ?_
        simp
      | cons q more =>
        refine (hp _ (.comma _)).bind fun a _ => ?_
        have hcomma : isPunct "," (mark ',' :: marked ',' false (q :: more)) = true := rfl
        have hdrop : (mark ',' :: marked ',' false (q :: more)).drop ",".toList.length
          = marked ',' false (q :: more) := rfl
        rw [reads_ahead_bind, List.isEmpty_cons, if_neg Bool.false_ne_true, hcomma, if_pos rfl,
          reads_punct_bind hcomma, hdrop]
        exact hmore.bind fun _ _ => reads_pure.mpr ⟨rfl, _, rfl⟩
  intro scope stray
  exact harray scope stray

/-- An empty tuple. -/
theorem reads_atom_unit {o l : Location} :
    Reads (atom inner record) (.group .parenthesis [] o l :: rest) rest
      fun c => ∃ parts, c = .node .tuple parts := by
  have hunit : Reads (parenthesizedAtom inner) (.group .parenthesis [] o l :: rest) rest
      fun c => ∃ parts, c = .node .tuple parts := by
    have hbody : Reads (terminatedCode (inner.expression true)) [] [] (· = []) := by
      simp [terminatedCode, terminated, separatedUntil, withCommas]
    refine (reads_inside hbody).bind ?_
    rintro _ rfl
    simp
  intro scope stray
  exact hunit scope stray

/-- A literal. -/
theorem reads_atom_literal {text : String} {l : Location} :
    Reads (atom inner record) (.literal text l :: rest) rest fun c => c.literal? = some text := by
  intro scope stray
  exact ⟨_, rfl, rfl⟩

/-! ### Records -/

/-- The fields of a record, each with the trees of its value. -/
theorem takes_initializers {fields : List (Ident × List TokenTree)}
    (h : ∀ f ∈ fields, isName f.1 = true ∧ ∀ ts, Closes ts → Takes (inner.expression true) (f.2 ++ ts) ts)
    {fuel : Nat} (hfuel : fields.length < fuel) :
    Takes (initializers inner fuel)
      (marked ',' false (fields.map fun f => .ident f.1 :: mark ':' :: f.2)) [] := by
  induction fields generalizing fuel with
  | nil =>
    obtain ⟨fuel, rfl⟩ : ∃ n, fuel = n + 1 := ⟨fuel - 1, by omega⟩
    simp [initializers, marked]
  | cons f more ih =>
    obtain ⟨fuel, rfl⟩ : ∃ n, fuel = n + 1 := ⟨fuel - 1, by omega⟩
    obtain ⟨hname, hvalue⟩ := h f List.mem_cons_self
    have hfuel : more.length < fuel := by simpa using hfuel
    have ih := ih (fun g hg => h g (List.mem_cons_of_mem _ hg)) hfuel
    have hfield : ∀ ts, Closes ts →
        Takes (initializer inner) (.ident f.1 :: mark ':' :: (f.2 ++ ts)) ts := by
      intro ts hts
      have hhash : isPunct "#" (.ident f.1 :: mark ':' :: (f.2 ++ ts)) = false :=
        isPunct_ident (by decide)
      have hcolon : isPunct ":" (mark ':' :: (f.2 ++ ts)) = true := by simp [isPunct, beginsWith]
      have hdrop : (mark ':' :: (f.2 ++ ts)).drop ":".toList.length = f.2 ++ ts := rfl
      rw [initializer]
      simp only [reads_attributesCode_bind hhash, member, bind_assoc, reads_ahead_bind, isIdentifier,
        hname, if_true, reads_identifier_bind hname, pure_bind, hcolon, Bool.true_or,
        reads_punct_bind hcolon, hdrop]
      exact (hvalue ts hts).bind fun _ _ => by simp
    have hdots : ∀ ts, isPunct ".." (.ident f.1 :: ts) = false := fun ts => isPunct_ident (by decide)
    -- The last field ends the list, the others have a comma behind them.
    cases more with
    | nil =>
      simp only [List.map_cons, List.map_nil, marked, initializers, reads_finished_bind,
        List.cons_append, List.isEmpty_cons, Bool.false_eq_true, if_false, reads_punct?_bind, hdots]
      exact (hfield [] .nil).bind fun _ _ => by simp
    | cons g more =>
      have hcomma : ∀ ts, isPunct "," (mark ',' :: ts) = true := fun ts => by
        simp [isPunct, beginsWith]
      have hdrop : ∀ ts, (mark ',' :: ts).drop ",".toList.length = ts := fun ts => rfl
      simp only [List.map_cons, marked, initializers, reads_finished_bind,
        List.cons_append, List.isEmpty_cons, Bool.false_eq_true, if_false, reads_punct?_bind, hdots]
      refine (hfield _ (.comma _)).bind fun _ _ => ?_
      simp only [reads_finished_bind, List.isEmpty_cons, Bool.false_eq_true, if_false,
        reads_punct_bind (hcomma _), hdrop]
      exact ih.bind fun _ _ => by simp

end Parser

end RecordCoding
