/-
Reading paths and types back.

The types in generated code open with a path.  What keeps a path from being read as
a type is only its first word, and what comes behind a path or a type in generated
code never goes on with it (`Ends`).

* `takes_segment`, `takes_path` — a path, step by step;
* `reads_ty_of_path` — a type that opens with a path;
* `takes_angleArguments` — a list of arguments in angle brackets.

Design notes: steps are taken as pieces of trees with a hypothesis on each, so the
same lemma serves for a path of plain names and for one with arguments.
-/
import RecordCoding.Proofs.Code.Trees

namespace RecordCoding

namespace Parser

variable {inner : Inner} {marked plus : Bool} {i : Ident} {ts rest : List TokenTree}

/-! ### Looking ahead -/

/-- A mark of one character, as it stands in generated code. -/
abbrev mark (c : Char) : TokenTree := .punct c false .start

/-- `::` -/
abbrev doubleColon : List TokenTree := [.punct ':' true .start, .punct ':' false .start]

/-- An operator comes next only where a mark does. -/
theorem isPunct_of_no_mark {p : String} (hp : p.toList ≠ [])
    (h : ∀ c joint l more, ts ≠ .punct c joint l :: more) : isPunct p ts = false := by
  rw [isPunct]
  generalize p.toList = cs at hp ⊢
  fun_cases beginsWith cs ts with
  | case1 => exact absurd rfl hp
  | case2 | case3 => exact absurd rfl (h _ _ _ _)
  | case4 => rfl

theorem isPunct_nil {p : String} (hp : p.toList ≠ []) : isPunct p [] = false :=
  isPunct_of_no_mark hp (by simp)

theorem isPunct_ident {p : String} (hp : p.toList ≠ []) : isPunct p (.ident i :: ts) = false :=
  isPunct_of_no_mark hp (by simp)

theorem isPunct_group {p : String} (hp : p.toList ≠ []) {d : Delimiter} {body : List TokenTree}
    {o c : Location} : isPunct p (.group d body o c :: ts) = false :=
  isPunct_of_no_mark hp (by simp)

/-- An operator that begins with another character does not come next. -/
theorem isPunct_of_ne {p : String} {a c : Char} (hp : p.toList.head? = some a) (hne : a ≠ c)
    {joint : Bool} {l : Location} : isPunct p (.punct c joint l :: ts) = false := by
  rw [isPunct]
  rcases hlist : p.toList with _ | ⟨b, more⟩
  · rw [hlist] at hp
    exact absurd hp (by simp)
  · rw [hlist, List.head?_cons, Option.some.injEq] at hp
    subst hp
    cases more <;> simp [beginsWith, hne]

theorem isPunct_of_not_mem {marks : List Char} {c : Char} (hc : c ∈ marks) {p : String} {a : Char}
    (hp : p.toList.head? = some a) (ha : a ∉ marks) : isPunct p (mark c :: ts) = false :=
  isPunct_of_ne hp fun heq => ha (heq ▸ hc)

/-- What stands behind a type or a path in generated code. -/
inductive Ends : List TokenTree → Prop
  | nil : Ends []
  | mark {c : Char} {joint : Bool} {l : Location} (hc : c ∈ [',', ';', '>', '='])
      (ts : List TokenTree) : Ends (.punct c joint l :: ts)
  | brace (body ts : List TokenTree) : Ends (.group .brace body .start .start :: ts)
  | word {w : String} (hw : w ∈ ["for", "where"]) (ts : List TokenTree) :
      Ends (.ident (.plain w) :: ts)

theorem ne_nil_of_head? {α : Type} {l : List α} {a : α} (h : l.head? = some a) : l ≠ [] := by
  rintro rfl
  cases h

theorem Ends.isPunct_eq_false (h : Ends ts) {p : String} {a : Char} (hp : p.toList.head? = some a)
    (ha : a ∉ [',', ';', '>', '=']) : isPunct p ts = false := by
  have hne : p.toList ≠ [] := ne_nil_of_head? hp
  cases h with
  | nil => exact isPunct_nil hne
  | mark hc ts => exact isPunct_of_ne hp fun heq => ha (heq ▸ hc)
  | brace body ts => exact isPunct_group hne
  | word hw ts => exact isPunct_ident hne

/-! ### Steps -/

/-- A word that a step of a path may have for its name. -/
def isStep (i : Ident) : Bool :=
  isName i || (!i.raw && ["super", "self", "crate", "try", "Self"].contains i.name)

/-- The words that a step may have for its name although they are reserved. -/
theorem isKeyword_of_isStep (h : isStep i = true) {w : String} (hw : w ∈ reserved)
    (hne : w ∉ ["super", "self", "crate", "try", "Self"]) (ts : List TokenTree) :
    isKeyword w (.ident i :: ts) = false := by
  rw [isStep, Bool.or_eq_true] at h
  rcases h with h | h
  · exact isKeyword_of_isName h hw ts
  · rw [Bool.and_eq_true, List.contains_iff_mem] at h
    rw [isKeyword, Bool.eq_false_iff]
    intro hkey
    rw [Bool.and_eq_true, decide_eq_true_eq] at hkey
    exact hne (hkey.2 ▸ h.2)

/-- A word that a type may open with. -/
def opensType (i : Ident) : Bool := isStep i && !isKeyword "try" [.ident i]

theorem isKeyword_of_opensType (h : opensType i = true) {w : String} (hw : w ∈ reserved)
    (hne : w ∉ ["super", "self", "crate", "Self"]) (ts : List TokenTree) :
    isKeyword w (.ident i :: ts) = false := by
  obtain ⟨hstep, htry⟩ := Bool.and_eq_true_iff.mp h
  by_cases heq : w = "try"
  · subst heq
    exact Bool.not_eq_true' _ ▸ htry
  · refine isKeyword_of_isStep hstep hw ?_ ts
    simp only [List.mem_cons, List.not_mem_nil, or_false, not_or] at hne ⊢
    exact ⟨hne.1, hne.2.1, hne.2.2.1, heq, hne.2.2.2⟩

/-- No arguments of a step come next. -/
def EndsStep (marked : Bool) (ts : List TokenTree) : Prop :=
  (marked = false → isPunct "<" ts = false) ∧ (isPunct "::" ts && isPunct "<" (ts.drop 2)) = false

theorem endsStep_doubleColon (i : Ident) (ts : List TokenTree) :
    EndsStep marked (doubleColon ++ .ident i :: ts) :=
  ⟨fun _ => isPunct_of_ne rfl (by decide), by
    show (true && isPunct "<" (.ident i :: ts)) = false
    rw [isPunct_ident (by decide), Bool.and_false]⟩

/-- A name as a step of a path. -/
theorem takes_segment (hi : isStep i = true) (hts : EndsStep marked ts) :
    Takes (segment inner marked) (.ident i :: ts) ts := by
  have harguments : ((!marked && isPunct "<" ts && !isPunct "<=" ts && !isPunct "<<=" ts)
      || (isPunct "::" ts && isPunct "<" (ts.drop 2))) = false := by
    rw [hts.2, Bool.or_false]
    cases marked with
    | true => rfl
    | false => rw [hts.1 rfl]; rfl
  rw [isStep, Bool.or_eq_true] at hi
  rcases hi with hname | hword
  · have hkey : ∀ w ∈ reserved, isKeyword w (.ident i :: ts) = false :=
      fun w hw => isKeyword_of_isName hname hw ts
    simp only [segment, reads_ahead_bind, hkey "super" (by decide), hkey "self" (by decide),
      hkey "crate" (by decide), hkey "try" (by decide), hkey "Self" (by decide), Bool.or_false,
      Bool.false_eq_true, if_false, reads_identifier_bind hname, harguments, reads_pure, and_self]
  · simp only [Bool.and_eq_true, Bool.not_eq_true', List.contains_iff_mem, List.mem_cons,
      List.not_mem_nil, or_false] at hword
    obtain ⟨hraw, hname⟩ := hword
    obtain ⟨name, raw, location⟩ := i
    obtain rfl : raw = false := hraw
    -- Behind any of these words but the last nothing is looked for.
    rcases hname with rfl | rfl | rfl | rfl | rfl
    case inr.inr.inr.inr =>
      simp only [segment, reads_ahead_bind, isKeyword, String.reduceEq, decide_true, decide_false,
        Bool.not_false, Bool.and_false, Bool.and_true, Bool.or_false, Bool.false_eq_true, if_false,
        if_true, reads_word_bind, harguments, reads_pure, and_self]
    all_goals simp [segment, isKeyword]

/-! ### Paths -/

/-- Steps that each stand behind `::`. -/
def stepTrees : List (List TokenTree) → List TokenTree
  | [] => []
  | p :: more => doubleColon ++ (p ++ stepTrees more)

/-- What stands behind a step of a path: a further step, or what stands behind the
path. -/
inductive BehindStep (rest : List TokenTree) : List TokenTree → Prop
  | last : BehindStep rest rest
  | next (i : Ident) (ts : List TokenTree) : BehindStep rest (doubleColon ++ .ident i :: ts)

/-- Trees that are a step of a path in front of a rest. -/
structure StepBefore (inner : Inner) (marked : Bool) (rest p : List TokenTree) : Prop where
  opens : ∃ i more, p = .ident i :: more
  takes : ∀ ts, BehindStep rest ts → Takes (segment inner marked) (p ++ ts) ts

theorem stepBefore_ident (hi : isStep i = true) (hrest : EndsStep marked rest) :
    StepBefore inner marked rest [.ident i] := by
  refine ⟨⟨i, [], rfl⟩, fun ts hts => ?_⟩
  cases hts with
  | last => exact takes_segment hi hrest
  | next j ts => exact takes_segment hi (endsStep_doubleColon j ts)

variable {first : List TokenTree} {steps : List (List TokenTree)}

theorem behindStep_stepTrees (h : ∀ p ∈ steps, StepBefore inner marked rest p) :
    BehindStep rest (stepTrees steps ++ rest) := by
  cases steps with
  | nil => exact .last
  | cons p more =>
    obtain ⟨i, tail, rfl⟩ := (h p List.mem_cons_self).opens
    exact .next i (tail ++ stepTrees more ++ rest)

theorem takes_furtherSteps (h : ∀ p ∈ steps, StepBefore inner marked rest p)
    (hrest : isPunct "::" rest = false) {fuel : Nat} (hfuel : steps.length < fuel) :
    Takes (furtherSteps inner marked fuel) (stepTrees steps ++ rest) rest := by
  induction steps generalizing fuel with
  | nil =>
    obtain ⟨fuel, rfl⟩ : ∃ n, fuel = n + 1 := ⟨fuel - 1, by omega⟩
    simp [furtherSteps, stepTrees, hrest]
  | cons p more ih =>
    obtain ⟨fuel, rfl⟩ : ∃ n, fuel = n + 1 := ⟨fuel - 1, by omega⟩
    have hmore : ∀ q ∈ more, StepBefore inner marked rest q :=
      fun q hq => h q (List.mem_cons_of_mem _ hq)
    have hp := h p List.mem_cons_self
    have hstep := hp.takes _ (behindStep_stepTrees hmore)
    have hfuel : more.length < fuel := by simpa using hfuel
    have ih := ih hmore hfuel
    obtain ⟨i, tail, rfl⟩ := hp.opens
    have hcolons : isPunct "::" (doubleColon ++ (.ident i :: tail ++ stepTrees more) ++ rest) = true :=
      rfl
    have hgroup : isGroup .parenthesis
        ((doubleColon ++ (.ident i :: tail ++ stepTrees more) ++ rest).drop 2) = false := rfl
    rw [stepTrees]
    simp only [furtherSteps, reads_ahead_bind, hcolons, hgroup, Bool.not_false, Bool.and_self,
      if_true, reads_punct_bind hcolons]
    rw [← List.append_assoc] at hstep
    exact hstep.bind fun _ _ => ih.bind fun _ _ => by simp

/-- A path, with or without `::` in front. -/
theorem takes_path (leading : Bool) (hfirst : StepBefore inner marked rest first)
    (h : ∀ p ∈ steps, StepBefore inner marked rest p) (hrest : isPunct "::" rest = false) :
    Takes (path inner marked)
      ((if leading then doubleColon else []) ++ (first ++ (stepTrees steps ++ rest))) rest := by
  have hstep := hfirst.takes _ (behindStep_stepTrees h)
  have hfuel : steps.length < (stepTrees steps ++ rest).length + 1 := by
    have hlength : ∀ steps : List (List TokenTree), steps.length ≤ (stepTrees steps).length := by
      intro steps
      induction steps with
      | nil => exact Nat.le_refl _
      | cons p more ih =>
        simp only [stepTrees, List.length_append, List.length_cons, List.length_nil]
        omega
    rw [List.length_append]
    have := hlength steps
    omega
  have hsteps := takes_furtherSteps h hrest hfuel
  obtain ⟨i, tail, rfl⟩ := hfirst.opens
  cases leading with
  | true =>
    have hcolons : isPunct "::" (doubleColon ++ (.ident i :: tail ++ (stepTrees steps ++ rest))) = true :=
      rfl
    simp only [path, if_true, reads_punct?_bind, hcolons]
    exact hstep.bind fun _ _ => by
      simpa only [reads_rounds_bind] using hsteps.bind fun _ _ => by simp
  | false =>
    have hcolons : isPunct "::" (.ident i :: tail ++ (stepTrees steps ++ rest)) = false := by
      exact isPunct_ident (by decide)
    simp only [path, Bool.false_eq_true, if_false, reads_punct?_bind, List.nil_append, hcolons]
    exact hstep.bind fun _ _ => by
      simpa only [reads_rounds_bind] using hsteps.bind fun _ _ => by simp

/-! ### Types -/

/-- A type may open with a path that begins like this. -/
inductive OpensPath : List TokenTree → Prop
  | colons (ts : List TokenTree) : OpensPath (doubleColon ++ ts)
  | word {i : Ident} (hi : opensType i = true) {ts : List TokenTree}
      (hts : isPunct "#" ts = false) : OpensPath (.ident i :: ts)

theorem OpensPath.isPunct_eq_false (h : OpensPath ts) {p : String} {a : Char}
    (hp : p.toList.head? = some a) (ha : a ≠ ':') : isPunct p ts = false := by
  cases h with
  | colons ts => exact isPunct_of_ne hp ha
  | word hi hts => exact isPunct_ident (ne_nil_of_head? hp)

theorem OpensPath.isGroup_eq_false (h : OpensPath ts) (d : Delimiter) : isGroup d ts = false := by
  cases h <;> rfl

theorem isPathStart_of_opensType (hi : opensType i = true) (ts : List TokenTree) :
    isPathStart (.ident i :: ts) = true := by
  rw [opensType, Bool.and_eq_true, isStep] at hi
  obtain ⟨hstep, htry⟩ := hi
  rw [isPathStart, isIdentifier]
  rcases hname : isName i with _ | _
  · rw [hname, Bool.false_or] at hstep
    simp only [isKeyword, isPathWord, Bool.and_eq_true, Bool.not_eq_true', Bool.and_eq_false_imp, List.contains_iff_mem,
      List.mem_cons, List.not_mem_nil, or_false] at hstep htry ⊢
    obtain ⟨hraw, hname | hname | hname | hname | hname⟩ := hstep
    all_goals simp_all
  · rfl

theorem OpensPath.reads_qualifiedPath {marked : Bool} (hopens : OpensPath ts)
    (hpath : Takes (path inner marked) ts rest) :
    Reads (qualifiedPath inner marked) ts rest fun t => ∃ p, t = .path p := by
  have hbracket : isPunct "<" ts = false := hopens.isPunct_eq_false rfl (by decide)
  rw [qualifiedPath, reads_punct?_bind, hbracket, if_neg Bool.false_ne_true]
  simp only [Bool.false_eq_true, if_false, reads_map]
  exact hpath.imp fun p _ => ⟨p, rfl⟩

/-- A path at the place of a type is that type. -/
theorem reads_ty_of_path (hopens : OpensPath ts) (hpath : Takes (path inner false) ts rest)
    (hbang : isPunct "!" rest = false) (hplus : isPunct "+" rest = false) :
    Reads (ty inner plus) ts rest fun t => ∃ p, t = .path p := by
  have hpathType : Reads (pathType inner plus none) ts rest fun t => ∃ p, t = .path p := by
    rw [pathType]
    refine (hopens.reads_qualifiedPath hpath).bind ?_
    rintro _ ⟨p, rfl⟩
    simp [hbang, hplus]
  cases hopens with
  | colons ts =>
    -- A mark in front decides by itself which kind of type is read.
    intro scope stray
    exact hpathType scope stray
  | @word i hi ts hts =>
    have hkey : ∀ w ∈ ["for", "fn", "unsafe", "extern"], isKeyword w (.ident i :: ts) = false := by
      intro w hw
      simp only [List.mem_cons, List.not_mem_nil, or_false] at hw
      rcases hw with rfl | rfl | rfl | rfl <;>
        exact isKeyword_of_opensType hi (by decide) (by decide) ts
    have hstart := isPathStart_of_opensType hi ts
    simpa [ty, binder?, hkey, isGroup, isFunctionStart, isBuiltin, hts, hstart] using hpathType

/-! ### Arguments -/

/-- A lifetime as an argument. -/
theorem takes_argument_lifetime {name : String} {l : Location} (hrest : isPunct "+" rest = false) :
    Takes (argument inner) (.lifetime name l :: rest) rest := by
  simp [argument, isLifetime, hrest]

theorem OpensPath.isLiteral_eq_false (h : OpensPath ts) : isLiteral ts = false := by
  cases h with
  | colons ts => rfl
  | @word i hi ts hts =>
    have htrue := isKeyword_of_opensType hi (w := "true") (by decide) (by decide) ts
    have hfalse := isKeyword_of_opensType hi (w := "false") (by decide) (by decide) ts
    rw [isKeyword] at htrue hfalse
    rw [isLiteral, Bool.and_or_distrib_left, htrue, hfalse]
    rfl

/-- What opens a path is neither a lifetime nor a constant. -/
theorem OpensPath.not_constant (h : OpensPath ts) :
    isLifetime ts = false ∧ isConstantArgument ts = false := by
  rw [isConstantArgument, h.isLiteral_eq_false]
  cases h with
  | colons ts => exact ⟨rfl, rfl⟩
  | word hi hts => exact ⟨rfl, rfl⟩

/-- A type as an argument. -/
theorem takes_argument_of_ty (hopens : OpensPath ts)
    (hty : Reads (inner.ty true) ts rest fun t => ∃ p, t = .path p)
    (hequals : isPunct "=" rest = false) (hcolon : isPunct ":" rest = false) :
    Takes (argument inner) ts rest := by
  obtain ⟨hlifetime, hconstant⟩ := hopens.not_constant
  simp only [argument, reads_ahead_bind, hlifetime, hconstant, Bool.false_and, Bool.false_eq_true,
    if_false]
  refine hty.bind ?_
  rintro _ ⟨p, rfl⟩
  split
  · simp [hequals, hcolon]
  · simp

variable {α : Type} {r : Parser α} {pieces : List (List TokenTree)}

/-- Trees that can be read in front of some marks, and open with none of them. -/
structure ReadsBefore (r : Parser α) (marks : List Char) (p : List TokenTree) : Prop where
  opens : ∀ c ∈ marks, ∀ ts, isPunct (String.singleton c) (p ++ ts) = false
  takes : ∀ c ∈ marks, ∀ ts, Takes r (p ++ mark c :: ts) (mark c :: ts)

theorem ReadsBefore.isEmpty_eq_false {marks : List Char} {p : List TokenTree} {c : Char}
    (h : ReadsBefore r marks p) (hc : c ∈ marks) (ts : List TokenTree) :
    (p ++ ts).isEmpty = false := by
  refine List.isEmpty_eq_false_iff.mpr fun hnil => ?_
  have hopens := h.opens c hc [mark c]
  rw [(List.append_eq_nil_iff.mp hnil).1, List.nil_append, isPunct_mark] at hopens
  exact absurd hopens (by decide)

/-- The marks that stand behind the elements of a list in angle brackets. -/
def angleMarks : List Char := [',', '>']

theorem pieces_of_readsBefore (rest : List TokenTree)
    (h : ∀ p ∈ pieces, ReadsBefore r angleMarks p) :
    Pieces ',' (isPunct ">") r pieces (mark '>' :: rest) := by
  refine ⟨rfl, fun p hp => (h p hp).opens '>' (by decide), fun p hp ts hts => ?_⟩
  rcases hts with rfl | ⟨more, rfl⟩
  · exact (h p hp).takes '>' (by decide) rest
  · exact (h p hp).takes ',' (by decide) more

/-- Arguments in angle brackets. -/
theorem takes_angleArguments (doubled trailing : Bool)
    (h : ∀ p ∈ pieces, ReadsBefore (argument inner) angleMarks p) :
    Takes (angleArguments inner)
      ((if doubled then doubleColon else [])
        ++ mark '<' :: (Parser.marked ',' trailing pieces ++ mark '>' :: rest)) rest := by
  have hpieces := pieces_of_readsBefore rest h
  have hlist := reads_separatedUntil trailing hpieces (fun _ => rfl) (hpieces.length_lt trailing)
  have hclose : ∀ list : List Argument × Bool,
      Takes (do punct ">"; pure (Arguments.angle doubled list.1 list.2)) (mark '>' :: rest) rest := by
    simp [isPunct, beginsWith]
  have hcolons : ∀ ts, isPunct "::" (doubleColon ++ ts) = true := fun _ => rfl
  have hnone : ∀ ts, isPunct "::" (mark '<' :: ts) = false := fun _ => rfl
  have hangle : ∀ ts, isPunct "<" (mark '<' :: ts) = true := fun _ => rfl
  have hbehind : ∀ ts, (doubleColon ++ ts).drop "::".toList.length = ts := fun _ => rfl
  have hdrop : ∀ ts, (mark '<' :: ts).drop "<".toList.length = ts := fun _ => rfl
  cases doubled
  all_goals
    simp only [angleArguments, Bool.false_eq_true, if_false, if_true, List.nil_append,
      reads_punct?_bind, hcolons, hnone, hbehind, reads_punct_bind (hangle _), hdrop]
    refine reads_rounds_bind.mpr (hlist.bind fun list _ => ?_)
    exact hclose list

/-- A step with arguments. -/
theorem takes_segment_arguments (trailing : Bool) (hi : isName i = true)
    (h : ∀ p ∈ pieces, ReadsBefore (argument inner) angleMarks p) :
    Takes (segment inner false)
      (.ident i :: mark '<' :: (Parser.marked ',' trailing pieces ++ mark '>' :: rest)) rest := by
  have hkey : ∀ w ∈ reserved, ∀ ts, isKeyword w (.ident i :: ts) = false :=
    fun w hw ts => isKeyword_of_isName hi hw ts
  have hangle : ∀ ts, isPunct "<" (mark '<' :: ts) = true := fun _ => rfl
  have hless : ∀ ts, isPunct "<=" (mark '<' :: ts) = false := fun _ => rfl
  have hshift : ∀ ts, isPunct "<<=" (mark '<' :: ts) = false := fun _ => rfl
  simp only [segment, reads_ahead_bind, hkey "super" (by decide), hkey "self" (by decide),
    hkey "crate" (by decide), hkey "try" (by decide), hkey "Self" (by decide), Bool.or_false,
    Bool.false_eq_true, if_false, reads_identifier_bind hi, hangle, hless, hshift, Bool.not_false,
    Bool.and_self, Bool.true_or, if_true, reads_map]
  exact (takes_angleArguments false _ h).imp fun _ _ => trivial

theorem stepBefore_arguments (trailing : Bool) (hi : isName i = true)
    (h : ∀ p ∈ pieces, ReadsBefore (argument inner) angleMarks p) :
    StepBefore inner false rest
      (.ident i :: mark '<' :: (Parser.marked ',' trailing pieces ++ [mark '>'])) := by
  refine ⟨⟨i, _, rfl⟩, fun ts _ => ?_⟩
  rw [List.cons_append, List.cons_append, List.append_assoc]
  exact takes_segment_arguments trailing hi h

end Parser

end RecordCoding
