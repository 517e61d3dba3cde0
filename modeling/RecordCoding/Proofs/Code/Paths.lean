/-
Paths at the places where generated code has them.

The same path is copied to the place of a type, of an argument and of a bound.
`IsTypePath` says what it takes for a path to be read at each of these.

* `isTypePath_of_steps` — paths, from their steps;
* `IsTypePath.reads_ty`, `IsTypePath.argument`, `IsTypePath.bound` — their places.

Design notes: a path is read one level further in at each place, and its arguments a
level further than that.  The number of levels is a parameter, since the same path stands
at different depths.
-/
import RecordCoding.Proofs.Code.Parameters
import RecordCoding.Synthesis.Expansion

namespace RecordCoding

open Token (treesOf)

namespace Parser

variable {k : Nat} {i : Ident} {ts rest p : List TokenTree}

/-- A path does not go on. -/
structure EndsPath (ts : List TokenTree) : Prop where
  angle : isPunct "<" ts = false
  colons : isPunct "::" ts = false

theorem Ends.endsPath (h : Ends ts) : EndsPath ts :=
  ⟨h.isPunct_eq_false rfl (by decide), h.isPunct_eq_false rfl (by decide)⟩

theorem EndsPath.endsStep {doubled : Bool} (h : EndsPath ts) : EndsStep doubled ts := by
  refine ⟨fun _ => h.angle, ?_⟩
  rw [h.colons, Bool.false_and]

theorem endsPath_mark {c : Char} (hc : c ∈ boundMarks) : EndsPath (mark c :: ts) :=
  ⟨isPunct_of_not_mem hc rfl (by decide), isPunct_of_not_mem hc rfl (by decide)⟩

/-- Names with `::` between them, as an expression or at the beginning of one. -/
theorem takes_path_names {inner : Inner} (leading : Bool) (names : List Ident)
    (hi : isStep i = true) (h : ∀ j ∈ names, isStep j = true) (hrest : EndsPath rest) :
    Takes (path inner true)
      ((if leading then doubleColon else [])
        ++ ([.ident i] ++ (stepTrees (names.map fun j => [.ident j]) ++ rest))) rest := by
  refine takes_path leading (stepBefore_ident hi hrest.endsStep) (fun p hp => ?_) hrest.colons
  obtain ⟨j, hj, rfl⟩ := List.mem_map.mp hp
  exact stepBefore_ident (h j hj) hrest.endsStep

/-- Trees that are a step of a path wherever one may stand in a type. -/
def IsStep (k : Nat) (p : List TokenTree) : Prop :=
  ∀ rest, EndsPath rest → StepBefore (Inner.ofDepth k) false rest p

theorem isStep_ident (hi : isStep i = true) : IsStep k [.ident i] :=
  fun _ hrest => stepBefore_ident hi hrest.endsStep

/-- Trees that are a path at the place of a type. -/
structure IsTypePath (k : Nat) (p : List TokenTree) : Prop where
  opens : ∀ ts, isPunct "#" ts = false → OpensPath (p ++ ts)
  takes : ∀ rest, EndsPath rest → Takes (path (Inner.ofDepth k) false) (p ++ rest) rest

theorem isPunct_stepTrees {steps : List (List TokenTree)} (hts : isPunct "#" ts = false) :
    isPunct "#" (stepTrees steps ++ ts) = false := by
  cases steps with
  | nil => exact hts
  | cons p more => rfl

theorem isTypePath_of_steps (leading : Bool) {more : List TokenTree} {steps : List (List TokenTree)}
    (hfirst : IsStep k (.ident i :: more)) (hsteps : ∀ p ∈ steps, IsStep k p)
    (hopens : leading = true ∨ opensType i = true)
    (hmore : ∀ ts, isPunct "#" ts = false → isPunct "#" (more ++ ts) = false) :
    IsTypePath k ((if leading then doubleColon else []) ++ (.ident i :: more ++ stepTrees steps)) := by
  refine ⟨fun ts hts => ?_, fun rest hrest => ?_⟩
  · cases leading with
    | true => exact .colons _
    | false =>
      rw [if_neg Bool.false_ne_true, List.nil_append, List.append_assoc]
      refine .word (hopens.resolve_left Bool.false_ne_true) ?_
      exact hmore _ (isPunct_stepTrees hts)
  · have hpath := takes_path leading (hfirst rest hrest)
      (fun p hp => hsteps p hp rest hrest) hrest.colons
    rwa [List.append_assoc, List.append_assoc]

/-- A single step. -/
theorem isTypePath_of_step {more : List TokenTree} (hi : opensType i = true)
    (hfirst : IsStep k (.ident i :: more))
    (hmore : ∀ ts, isPunct "#" ts = false → isPunct "#" (more ++ ts) = false) :
    IsTypePath k (.ident i :: more) := by
  have hnone : ∀ p ∈ ([] : List (List TokenTree)), IsStep k p := fun _ hp => absurd hp (by simp)
  have hpath := isTypePath_of_steps false hfirst hnone (.inr hi) hmore
  rwa [stepTrees, List.append_nil] at hpath

/-- A name alone. -/
theorem isTypePath_ident (hi : opensType i = true) : IsTypePath k [.ident i] :=
  isTypePath_of_step hi (isStep_ident (Bool.and_eq_true_iff.mp hi).1) fun _ hts => hts

theorem Ends.isPunct_hash (h : Ends ts) : isPunct "#" ts = false :=
  h.isPunct_eq_false rfl (by decide)

theorem IsTypePath.reads_ty {plus : Bool} (h : IsTypePath k p) (hrest : Ends rest) :
    Reads ((Inner.ofDepth (k + 1)).ty plus) (p ++ rest) rest fun t => ∃ q, t = .path q :=
  reads_ty_of_path (h.opens rest hrest.isPunct_hash) (h.takes rest hrest.endsPath)
    (hrest.isPunct_eq_false rfl (by decide)) (hrest.isPunct_eq_false rfl (by decide))

/-- What opens a path is none of the marks behind it. -/
theorem IsTypePath.isPunct_eq_false (h : IsTypePath k p) {c : Char} (hc : c ≠ ':') :
    isPunct (String.singleton c) (p ++ ts) = false := by
  have hopens := h.opens [] rfl
  rw [List.append_nil] at hopens
  cases hopens with
  | colons us => exact isPunct_of_ne (by simp) (Ne.symm (Ne.symm hc))
  | word hi hts => exact isPunct_ident (by simp)

theorem IsTypePath.argument (h : IsTypePath k p) :
    ReadsBefore (argument (Inner.ofDepth (k + 1))) angleMarks p := by
  have hcolon : ∀ c ∈ angleMarks, c ≠ ':' := by simp [angleMarks]
  have hmarks : ∀ c ∈ angleMarks, c ∈ [',', ';', '>', '='] := by simp [angleMarks]
  refine ⟨fun c hc ts => h.isPunct_eq_false (hcolon c hc), fun c hc ts => ?_⟩
  have hends : Ends (mark c :: ts) := .mark (hmarks c hc) ts
  exact takes_argument_of_ty (h.opens _ hends.isPunct_hash) (h.reads_ty hends)
    (isPunct_of_not_mem hc rfl (by decide)) (isPunct_of_not_mem hc rfl (by decide))

/-- A path at the place of a bound, without arguments in parentheses behind it. -/
theorem takes_traitPath {inner : Inner} (hpath : Takes (path inner false) ts rest)
    (hrest : isFunctionArguments rest = false) : Takes (traitPath inner) ts rest := by
  refine hpath.bind fun q _ => ?_
  split
  · simp [hrest]
  · simp

/-- What stands behind a bound. -/
structure EndsBound (ts : List TokenTree) : Prop where
  path : EndsPath ts
  hash : isPunct "#" ts = false
  group : isGroup .parenthesis ts = false

theorem endsBound_mark {c : Char} (hc : c ∈ boundMarks) : EndsBound (mark c :: ts) :=
  ⟨endsPath_mark hc, isPunct_of_not_mem hc rfl (by decide), rfl⟩

/-- What may open a trait: neither a bracket, nor a lifetime, nor a word of its own. -/
structure OpensTrait (ts : List TokenTree) : Prop where
  words : ∀ w ∈ ["use", "for", "const"], isKeyword w ts = false
  group : ∀ d, isGroup d ts = false
  lifetime : isLifetime ts = false

theorem opensTrait_question : OpensTrait (mark '?' :: ts) :=
  ⟨fun _ _ => rfl, fun _ => rfl, rfl⟩

theorem OpensPath.opensTrait (h : OpensPath ts) : OpensTrait ts := by
  refine ⟨fun w hw => ?_, h.isGroup_eq_false, h.not_constant.1⟩
  simp only [List.mem_cons, List.not_mem_nil, or_false] at hw
  rcases hw with rfl | rfl | rfl <;> exact h.isKeyword_eq_false (by decide) (by decide)

/-- A trait without a modifier. -/
theorem reads_traitBound?_plain {inner : Inner} (hts : OpensTrait ts)
    (hquestion : isPunct "?" ts = false)
    (h : Takes (traitPath inner) ts rest) :
    Reads (traitBound? inner false true) ts rest fun b => b.isSome = true := by
  simp only [traitBound?, binder?, bind_assoc, reads_keyword?_bind, hts.words "for" (by decide),
    Bool.false_eq_true, if_false, pure_bind, constMark, reads_ahead_bind]
  refine Reads.here_bind fun l => ?_
  simp only [hts.group, Bool.false_eq_true, if_false, bind_assoc, reads_keyword?_bind,
    hts.words "const" (by decide), pure_bind]
  refine Reads.here_bind fun l => ?_
  simp only [reads_punct?_bind, hquestion, Bool.false_eq_true, if_false, Option.isNone_none,
    Bool.and_false]
  exact h.bind fun q _ => by simp

/-- A trait that need not be implemented. -/
theorem reads_traitBound?_relaxed {inner : Inner} (hts : OpensTrait ts)
    (h : Takes (traitPath inner) ts rest) :
    Reads (traitBound? inner false true) (mark '?' :: ts) rest fun b => b.isSome = true := by
  have hopens : OpensTrait (mark '?' :: ts) := opensTrait_question
  have hmark : isPunct "?" (mark '?' :: ts) = true := rfl
  have hdrop : (mark '?' :: ts).drop "?".toList.length = ts := rfl
  simp only [traitBound?, binder?, bind_assoc, reads_keyword?_bind, hopens.words "for" (by decide),
    Bool.false_eq_true, if_false, pure_bind, constMark, reads_ahead_bind]
  refine Reads.here_bind fun l => ?_
  simp only [hopens.group, Bool.false_eq_true, if_false, bind_assoc, reads_keyword?_bind,
    hopens.words "const" (by decide), pure_bind]
  refine Reads.here_bind fun l => ?_
  simp only [reads_punct?_bind, hmark, hdrop, if_true, Option.isNone_none, Bool.and_self,
    reads_keyword?_bind, hts.words "for" (by decide), Bool.false_eq_true, if_false, pure_bind]
  exact h.bind fun q _ => by simp

/-- What is read as a trait is a bound; nothing else is tried. -/
theorem takes_bound_of_traitBound? (hts : OpensTrait ts)
    (h : Reads (traitBound? (Inner.ofDepth k) false true) ts rest fun b => b.isSome = true) :
    Takes ((Inner.ofDepth (k + 1)).bound false true) ts rest := by
  show Takes (Parser.bound (Inner.ofDepth k) false true) ts rest
  rw [Parser.bound]
  refine reads_ahead_bind.mpr (Reads.here_bind fun l => ?_)
  rw [hts.lifetime, if_neg Bool.false_ne_true, hts.words "use" (by decide), if_neg Bool.false_ne_true,
    hts.group, if_neg Bool.false_ne_true]
  refine h.bind fun b hb => ?_
  obtain ⟨b, rfl⟩ := Option.isSome_iff_exists.mp hb
  simp

/-- A path is a bound, with a question mark in front of it or without. -/
theorem IsTypePath.takes_bound (relaxed : Bool) (h : IsTypePath k p) (hrest : EndsBound rest) :
    Takes ((Inner.ofDepth (k + 1)).bound false true)
      ((if relaxed then [mark '?'] else []) ++ (p ++ rest)) rest := by
  have hopens := h.opens _ hrest.hash
  have hfunction : isFunctionArguments rest = false := by
    rw [isFunctionArguments, hrest.path.colons, hrest.group]
    rfl
  have htrait := takes_traitPath (h.takes _ hrest.path) hfunction
  cases relaxed with
  | false =>
    exact takes_bound_of_traitBound? hopens.opensTrait
      (reads_traitBound?_plain hopens.opensTrait (hopens.isPunct_eq_false rfl (by decide)) htrait)
  | true =>
    exact takes_bound_of_traitBound? opensTrait_question
      (reads_traitBound?_relaxed hopens.opensTrait htrait)

/-- A path is a bound: no modifier, binder or bracket stands in front of it. -/
theorem IsTypePath.bound (h : IsTypePath k p) :
    ReadsBefore ((Inner.ofDepth (k + 1)).bound false true) boundMarks p := by
  have hcolon : ∀ c ∈ boundMarks, c ≠ ':' := by simp [boundMarks]
  exact ⟨fun c hc ts => h.isPunct_eq_false (hcolon c hc),
    fun c hc ts => h.takes_bound false (endsBound_mark hc)⟩

/-! ### Lists of parameters and of arguments -/

variable {inner : Inner} {pieces : List (List TokenTree)}

/-- Behind the first element of a list in angle brackets stands one of their marks. -/
theorem marked_cons_eq (comma : Bool) (p : List TokenTree) (more : List (List TokenTree))
    (ts : List TokenTree) :
    ∃ c ∈ angleMarks, ∃ us, marked ',' comma (p :: more) ++ mark '>' :: ts = p ++ mark c :: us := by
  cases more with
  | nil =>
    cases comma with
    | false => exact ⟨'>', by decide, ts, by simp [marked]⟩
    | true => exact ⟨',', by decide, mark '>' :: ts, by simp [marked]⟩
  | cons q more =>
    exact ⟨',', by decide, marked ',' comma (q :: more) ++ mark '>' :: ts, by simp [marked]⟩

theorem opensParameters_of_pieces (hne : pieces ≠ []) (comma : Bool)
    (h : ∀ p ∈ pieces, ReadsBefore (genericParam inner) angleMarks p ∧ OpensParameter p) :
    OpensParameters inner (mark '<' :: (marked ',' comma pieces ++ [mark '>'])) := by
  refine .inr fun ts => ?_
  rw [List.cons_append, List.append_assoc]
  constructor
  · obtain ⟨p, more, rfl⟩ := List.exists_cons_of_ne_nil hne
    obtain ⟨c, hc, us, heq⟩ := marked_cons_eq comma p more ts
    have hopens := (h p List.mem_cons_self).2 c hc us
    rwa [← heq] at hopens
  · have hpieces := pieces_of_readsBefore ts fun p hp => (h p hp).1
    have hlist := reads_separatedUntil comma hpieces (fun _ => rfl) (hpieces.length_lt comma)
    have hopen : ∀ us, isPunct "<" (mark '<' :: us) = true := fun _ => rfl
    have hclose : isPunct ">" (mark '>' :: ts) = true := rfl
    have hdrop : ∀ us, (mark '<' :: us).drop "<".toList.length = us := fun _ => rfl
    simp only [genericParams, reads_punct?_bind, hopen, if_true, hdrop, reads_rounds_bind]
    exact hlist.bind fun _ _ => by simp [hclose]

/-- A name as a generic argument. -/
theorem opensType_of_isName (hi : isName i = true) : opensType i = true := by
  rw [opensType, isStep, hi, Bool.true_or, isKeyword_of_isName hi (by decide)]
  rfl

theorem readsBefore_argument_lifetime {w : String} {l : Location} :
    ReadsBefore (Parser.argument inner) angleMarks [.lifetime w l] :=
  ⟨fun c _ _ => isPunct_lifetime (by simp),
    fun _ hc _ => takes_argument_lifetime (isPunct_of_not_mem hc rfl (by decide))⟩

end Parser

/-- A legible name is a type. -/
theorem Ident.Legible.isTypePath {i : Ident} {k : Nat} (h : i.Legible) :
    Parser.IsTypePath k [.ident i.anywhere] :=
  Parser.isTypePath_ident (Parser.opensType_of_isName (i := i.anywhere) h.name)

namespace Generics

open RecordCoding.Parser

variable {g : Generics} {k : Nat} {inner : Inner}

/-- What a list of parameters prints between its brackets. -/
def pieces (g : Generics) (f : GenericParam → List Token) : List (List TokenTree) :=
  Token.printedElements (g.params.map fun p => (p.isLifetime, f p))

theorem mem_pieces {f : GenericParam → List Token} {q : List TokenTree} :
    q ∈ g.pieces f ↔ ∃ p ∈ g.params, treesOf (f p) = q := by
  rw [pieces, Token.mem_printedElements]
  constructor
  · rintro ⟨_, ha, rfl⟩
    obtain ⟨p, hp, rfl⟩ := List.mem_map.mp ha
    exact ⟨p, hp, rfl⟩
  · rintro ⟨p, hp, rfl⟩
    exact ⟨_, List.mem_map_of_mem hp, rfl⟩

theorem treesOf_listTokens {f : GenericParam → List Token} (hne : g.params ≠ []) :
    g.pieces f ≠ [] ∧ ∃ comma, treesOf (g.listTokens f)
      = mark '<' :: (marked ',' comma (g.pieces f) ++ [mark '>']) := by
  constructor
  · obtain ⟨p, more, hparams⟩ := List.exists_cons_of_ne_nil hne
    exact List.ne_nil_of_mem (mem_pieces.mpr ⟨p, hparams ▸ List.mem_cons_self, rfl⟩)
  · rw [listTokens, if_neg (by simpa using hne)]
    exact Token.treesOf_angleTokens g.trailing _

/-- The parameters behind `impl`. -/
theorem opensParameters_implTokens (h : ∀ p ∈ g.params, ReadsParameter inner p) :
    OpensParameters inner (treesOf g.implTokens) := by
  by_cases hnone : g.params = []
  · left
    rw [implTokens, listTokens, hnone]
    rfl
  · obtain ⟨hne, comma, htrees⟩ := treesOf_listTokens (f := fun p => p.withoutDefault.tokens) hnone
    rw [implTokens, htrees]
    refine opensParameters_of_pieces hne comma fun q hq => ?_
    obtain ⟨p, hp, rfl⟩ := mem_pieces.mp hq
    exact (h p hp).readsBefore

/-- A type with the names of its parameters. -/
theorem isTypePath_argumentTokens {name : Ident} (hname : name.Legible)
    (h : ∀ p ∈ g.params, ReadsParameter inner p) :
    IsTypePath (k + 1) (treesOf (Token.ident name :: g.argumentTokens)) := by
  have hname' : isName name.anywhere = true := hname.name
  rw [Token.treesOf, Ident.trees_ident hname.text, argumentTokens]
  by_cases hnone : g.params = []
  · rw [listTokens, hnone]
    exact hname.isTypePath
  · obtain ⟨-, comma, htrees⟩ := treesOf_listTokens (f := GenericParam.argumentTokens) hnone
    have harguments : ∀ q ∈ g.pieces GenericParam.argumentTokens,
        ReadsBefore (argument (Inner.ofDepth (k + 1))) angleMarks q := by
      intro q hq
      obtain ⟨p, hp, rfl⟩ := mem_pieces.mp hq
      have hnames := h p hp
      cases p with
      | lifetime as name outlives trailing =>
        rw [GenericParam.argumentTokens, Token.treesOf_singleton, Token.trees,
          Token.wordTrees_of_isLifetimeText hnames.2.1]
        exact readsBefore_argument_lifetime
      | type as name bounds trailing fallback =>
        rw [GenericParam.argumentTokens, Token.treesOf_singleton, Ident.trees_ident hnames.2.1.text]
        exact hnames.2.1.isTypePath.argument
      | constant as name t fallback =>
        rw [GenericParam.argumentTokens, Token.treesOf_singleton, Ident.trees_ident hnames.2.1.text]
        exact hnames.2.1.isTypePath.argument
    rw [htrees]
    exact isTypePath_of_step (opensType_of_isName hname')
      (fun _ _ => stepBefore_arguments comma hname' harguments) fun _ _ => rfl

end Generics

/-! ### Paths that are copied -/

/-- A path whose steps can be read wherever a type may stand, from so many levels on. -/
structure Path.Readable (base : Nat) (p : Path) : Prop where
  ne : p.segments ≠ []
  text : ∀ s ∈ p.segments, Token.IsNameText s.name.name
  word : ∀ s ∈ p.segments, Parser.isStep s.name = true
  steps : ∀ s ∈ p.segments, ∀ k, base ≤ k → Parser.IsStep k (treesOf s.tokens)

/-- A path without arguments whose names are those of a text. -/
structure Path.Plain (p : Path) : Prop where
  ne : p.segments ≠ []
  bare : p.bare = true
  text : ∀ s ∈ p.segments, Token.IsNameText s.name.name
  word : ∀ s ∈ p.segments, Parser.isStep s.name = true

namespace Path

open RecordCoding.Parser

/-- Whether a path opens with the reserved word that paths may open with and types
may not. -/
def opensNoType : Path → Bool
  | .mk false (s :: _) => s.name.spelled == "try"
  | _ => false

variable {p : Path} {base k : Nat} {last : List TokenTree}

theorem treesOf_stepsTokens (steps : List Segment) :
    treesOf (Segment.stepsTokens steps) = stepTrees (steps.map fun s => treesOf s.tokens) := by
  induction steps with
  | nil => rfl
  | cons s more ih =>
    have hcolons : (Token.word "::").trees = doubleColon := rfl
    rw [Segment.stepsTokens, List.map_cons, stepTrees, ← ih, List.cons_append, Token.treesOf, hcolons,
      Token.treesOf_append]

theorem stepTrees_append (steps more : List (List TokenTree)) :
    stepTrees (steps ++ more) = stepTrees steps ++ stepTrees more := by
  induction steps with
  | nil => rfl
  | cons p steps ih =>
    rw [List.cons_append, stepTrees, stepTrees, ih, List.append_assoc, List.append_assoc]

theorem treesOf_segment {s : Segment} (h : Token.IsNameText s.name.name) :
    treesOf s.tokens = .ident s.name.anywhere :: treesOf s.arguments.tokens := by
  obtain ⟨name, arguments⟩ := s
  rw [Segment.tokens, Token.treesOf, Ident.trees_ident (i := name) h]
  rfl

theorem isPunct_arguments {a : Arguments} {ts : List TokenTree} (hts : isPunct "#" ts = false) :
    isPunct "#" (treesOf a.tokens ++ ts) = false := by
  cases a with
  | none =>
    rw [Arguments.tokens]
    exact hts
  | angle marked arguments trailing =>
    rw [Arguments.tokens]
    cases marked with
    | true => rfl
    | false => rfl
  | function parameters trailing result =>
    rw [Arguments.tokens]
    rfl

/-- A word that no type may open with is `try`. -/
theorem opensType_of_spelled {i : Ident} (hi : Parser.isStep i = true) (htry : i.spelled ≠ "try") :
    opensType i.anywhere = true := by
  have hstep : Parser.isStep i.anywhere = true := hi
  have hkey : isKeyword "try" [.ident i.anywhere] = false := by
    rw [isKeyword, Bool.eq_false_iff]
    intro hkey
    rw [Bool.and_eq_true, Bool.not_eq_true', decide_eq_true_eq] at hkey
    obtain ⟨hraw, hname⟩ : i.raw = false ∧ i.name = "try" := hkey
    exact htry (by rw [Ident.spelled, hraw, if_neg Bool.false_ne_true, hname])
  rw [opensType, hstep, hkey]
  rfl

/-- A copied path with further steps behind it. -/
theorem Readable.isTypePath_append (h : p.Readable base) (hopens : p.opensNoType = false)
    (hk : base ≤ k) (more : List (List TokenTree)) (hmore : ∀ q ∈ more, IsStep k q) :
    IsTypePath k (treesOf p.tokens ++ stepTrees more) := by
  obtain ⟨leading, segments⟩ := p
  obtain ⟨s, rest, rfl⟩ := List.exists_cons_of_ne_nil h.ne
  have hs : s ∈ s :: rest := List.mem_cons_self
  have htrees := treesOf_segment (h.text s hs)
  have hfirst := h.steps s hs k hk
  rw [htrees] at hfirst
  have hsteps : ∀ q ∈ (rest.map fun s => treesOf s.tokens) ++ more, IsStep k q := by
    intro q hq
    rcases List.mem_append.mp hq with hq | hq
    · obtain ⟨t, ht, rfl⟩ := List.mem_map.mp hq
      exact h.steps t (List.mem_cons_of_mem _ ht) k hk
    · exact hmore q hq
  have htype : leading = true ∨ opensType s.name.anywhere = true := by
    cases leading with
    | true => exact .inl rfl
    | false =>
      have htry : (s.name.spelled == "try") = false := hopens
      exact .inr (opensType_of_spelled (h.word s hs) (by simpa using htry))
  have hpath := isTypePath_of_steps _ hfirst hsteps htype fun ts hts => isPunct_arguments hts
  rw [stepTrees_append, ← treesOf_stepsTokens, ← htrees, ← List.append_assoc, ← List.append_assoc] at hpath
  rw [Path.tokens, Token.treesOf_append, Token.treesOf_append]
  cases leading with
  | true => exact hpath
  | false => exact hpath

theorem Readable.tokens_ne_nil (h : p.Readable base) : p.tokens ≠ [] := by
  obtain ⟨leading, segments⟩ := p
  obtain ⟨⟨i, a⟩, rest, rfl⟩ := List.exists_cons_of_ne_nil h.ne
  simp [Path.tokens, Segment.tokens]

/-- A copied path is a type. -/
theorem Readable.isTypePath (h : p.Readable base) (hopens : p.opensNoType = false)
    (hk : base ≤ k) : IsTypePath k (treesOf p.tokens) := by
  have hpath := h.isTypePath_append hopens hk [] fun _ hq => absurd hq (by simp)
  rwa [stepTrees, List.append_nil] at hpath

theorem Plain.treesOf_tokens (h : p.Plain) : ∀ s ∈ p.segments, treesOf s.tokens = [.ident s.name.anywhere] := by
  intro s hs
  have hnone := List.all_eq_true.mp h.bare s hs
  obtain ⟨name, arguments⟩ := s
  cases arguments with
  | none => exact treesOf_segment (h.text _ hs)
  | angle marked arguments trailing => exact absurd hnone Bool.false_ne_true
  | function parameters trailing result => exact absurd hnone Bool.false_ne_true

/-- A path without arguments can be read at any depth. -/
theorem Plain.readable (h : p.Plain) (base : Nat) : p.Readable base where
  ne := h.ne
  text := h.text
  word := h.word
  steps s hs k _ := by
    rw [h.treesOf_tokens s hs]
    exact isStep_ident (i := s.name.anywhere) (h.word s hs)

end Path

/-! ### Visibility -/

namespace Parser

variable {inner : Inner} {i : Ident} {ts rest : List TokenTree}

theorem takes_plainPath_steps {names : List Ident} {fuel : Nat}
    (h : ∀ j ∈ i :: names, isPathStart [.ident j] = true) (hrest : isPunct "::" rest = false)
    (hfuel : names.length < fuel) :
    Reads (plainPath.steps fuel) (.ident i :: (stepTrees (names.map fun j => [.ident j]) ++ rest)) rest
      fun r => r.1 ≠ [] ∧ r.2 = false := by
  induction names generalizing i fuel with
  | nil =>
    obtain ⟨fuel, rfl⟩ : ∃ n, fuel = n + 1 := ⟨fuel - 1, by omega⟩
    have hstart : isPathStart (.ident i :: rest) = true := h i List.mem_cons_self
    simp [plainPath.steps, stepTrees, hstart, hrest]
  | cons j more ih =>
    obtain ⟨fuel, rfl⟩ : ∃ n, fuel = n + 1 := ⟨fuel - 1, by omega⟩
    have hfuel : more.length < fuel := by simpa using hfuel
    have ih := ih (i := j) (fun l hl => h l (List.mem_cons_of_mem _ hl)) hfuel
    have hstart : ∀ ts, isPathStart (.ident i :: ts) = true := fun _ => h i List.mem_cons_self
    have hcolons : ∀ ts, isPunct "::" (doubleColon ++ ts) = true := fun _ => rfl
    have hdrop : ∀ ts, (doubleColon ++ ts).drop "::".toList.length = ts := fun _ => rfl
    simp only [List.map_cons, stepTrees, List.append_assoc, plainPath.steps, reads_ahead_bind, hstart,
      if_true, reads_word_bind, reads_punct?_bind, hcolons, hdrop]
    refine ih.bind ?_
    rintro ⟨names, open'⟩ ⟨hne, rfl⟩
    simpa using hne

/-- A path without arguments. -/
theorem takes_plainPath {leading : Bool} {names : List Ident}
    (h : ∀ j ∈ i :: names, isPathStart [.ident j] = true) (hrest : isPunct "::" rest = false) :
    Takes plainPath ((if leading then doubleColon else [])
      ++ .ident i :: (stepTrees (names.map fun j => [.ident j]) ++ rest)) rest := by
  have hlength : names.length
      < (.ident i :: (stepTrees (names.map fun j => [.ident j]) ++ rest) : List TokenTree).length + 1 := by
    have hle : names.length ≤ (stepTrees (names.map fun j => [.ident j])).length := by
      clear h
      induction names with
      | nil => exact Nat.le_refl _
      | cons j more ih =>
        rw [List.map_cons, stepTrees, List.length_append, List.length_append, List.length_cons]
        simp only [List.length_cons, List.length_nil]
        omega
    rw [List.length_cons, List.length_append]
    omega
  have hsteps := takes_plainPath_steps h hrest hlength
  have hname : ∀ ts, isPunct "::" (.ident i :: ts) = false := fun _ => isPunct_ident (by decide)
  have hcolons : ∀ ts, isPunct "::" (doubleColon ++ ts) = true := fun _ => rfl
  have hdrop : ∀ ts, (doubleColon ++ ts).drop "::".toList.length = ts := fun _ => rfl
  cases leading with
  | true =>
    simp only [plainPath, if_true, reads_punct?_bind, hcolons, hdrop, reads_rounds_bind]
    refine hsteps.bind ?_
    rintro ⟨names, open'⟩ ⟨hne, rfl⟩
    simp [hne]
  | false =>
    simp only [plainPath, Bool.false_eq_true, if_false, List.nil_append, reads_punct?_bind, hname,
      reads_rounds_bind]
    refine hsteps.bind ?_
    rintro ⟨names, open'⟩ ⟨hne, rfl⟩
    simp [hne]

end Parser

/-- A visibility that a declaration may be given. -/
inductive Visibility.Legible : Visibility → Prop
  | inherited : Legible .inherited
  | everyone : Legible .everyone
  | near {w : String} (hw : w ∈ ["crate", "self", "super"]) : Legible (.near w)
  | within {p : Path} (hp : p.Plain)
      (hwords : ∀ s ∈ p.segments, Parser.isPathStart [.ident s.name] = true) : Legible (.within p)

namespace Visibility

open RecordCoding.Parser

variable {v : Visibility} {ts : List TokenTree}

theorem isPunct_tokens {w : String} : isPunct "#" (treesOf v.tokens ++ .ident (.plain w) :: ts) = false := by
  cases v <;> exact isPunct_ident (by decide)

/-- The path of a restricted visibility. -/
theorem takes_plainPath_tokens {p : Path} (hp : p.Plain)
    (hwords : ∀ s ∈ p.segments, isPathStart [.ident s.name] = true) :
    Takes plainPath (treesOf p.tokens) [] ∧ 0 < (treesOf p.tokens).length := by
  obtain ⟨leading, segments⟩ := p
  obtain ⟨s, more, rfl⟩ := List.exists_cons_of_ne_nil hp.ne
  have hfirst := hp.treesOf_tokens s List.mem_cons_self
  have hmore : treesOf (Segment.stepsTokens more)
      = stepTrees ((more.map fun s => s.name.anywhere).map fun j => [.ident j]) := by
    rw [Path.treesOf_stepsTokens, List.map_map]
    congr 1
    exact List.map_congr_left fun s hs => hp.treesOf_tokens s (List.mem_cons_of_mem _ hs)
  have htrees : treesOf (Path.mk leading (s :: more)).tokens
      = (if leading then doubleColon else []) ++ .ident s.name.anywhere ::
        (stepTrees ((more.map fun s => s.name.anywhere).map fun j => [.ident j]) ++ []) := by
    rw [Path.tokens, Token.treesOf_append, Token.treesOf_append, hfirst, hmore]
    cases leading with
    | true => simp only [List.append_nil, if_true, List.append_assoc]; rfl
    | false => simp [Token.treesOf]
  have hstart : ∀ j ∈ s.name.anywhere :: more.map fun s => s.name.anywhere,
      isPathStart [.ident j] = true := by
    intro j hj
    rw [← List.map_cons (f := fun s : Segment => s.name.anywhere)] at hj
    obtain ⟨s, hs, rfl⟩ := List.mem_map.mp hj
    exact hwords s hs
  rw [htrees]
  refine ⟨takes_plainPath hstart rfl, ?_⟩
  rw [List.length_append, List.length_cons]
  omega

/-- A visibility in front of a word. -/
theorem Legible.takes (h : v.Legible) : Takes visibility (treesOf v.tokens ++ .ident (.plain "enum") :: ts)
    (.ident (.plain "enum") :: ts) := by
  cases h with
  | inherited =>
    intro scope stray
    exact ⟨_, rfl, trivial⟩
  | everyone =>
    intro scope stray
    exact ⟨_, rfl, trivial⟩
  | near hw =>
    intro scope stray
    simp only [List.mem_cons, List.not_mem_nil, or_false] at hw
    rcases hw with rfl | rfl | rfl <;> exact ⟨_, rfl, trivial⟩
  | within hp hwords =>
    rename_i p
    obtain ⟨hpath, hlength⟩ := takes_plainPath_tokens hp hwords
    have htrees : treesOf (Visibility.within p).tokens
        = [.ident (.plain "pub"), .group .parenthesis (.ident (.plain "in") :: treesOf p.tokens)
            .start .start] := by
      rw [Visibility.tokens, code]
      simp only [Code.tokens, Code.tokensOfList, Ty.tokens, Token.treesOf, Token.treesOf_append,
        Token.trees, List.append_nil]
      rfl
    have hinside : Takes (do skip 1; Visibility.within <$> plainPath)
        (.ident (.plain "in") :: treesOf p.tokens) [] := by
      simp only [reads_skip_bind, List.drop_succ_cons, List.drop_zero, reads_map]
      exact hpath.imp fun _ _ => trivial
    have hpub : ∀ ts, isKeyword "pub" (.ident (.plain "pub") :: ts) = true := fun _ => rfl
    have hin : isKeyword "in" [.ident (.plain "in")] = true := rfl
    rw [htrees]
    obtain ⟨t, more, hpieces⟩ := List.exists_cons_of_length_pos hlength
    rw [hpieces] at hinside ⊢
    simp only [visibility, List.cons_append, List.nil_append, reads_keyword?_bind, hpub, if_true,
      List.drop_succ_cons, List.drop_zero, reads_ahead_bind, hin]
    exact reads_inside hinside

end Visibility

end RecordCoding
