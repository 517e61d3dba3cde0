/-
Reading generic parameters back.

A list in angle brackets is printed with the lifetimes first.  Whatever commas stood in
the text, one comma stands between two elements of what is printed.

* `treesOf_angleTokens` — such a list, as trees;
* `takes_genericParams`, `takes_argumentsOf` — the parameters behind `impl`, and the
  names of them behind that of a type;
* `opensParameters_angle` — the brackets behind `impl` are taken for parameters.

Design notes: what a parameter holds besides its name is anything that was read at the
place of a bound, a type or an attribute.  `Code.ReadsBack` says that such a thing can be
read in its place again; the parameters themselves are put together here, because
implementations add a bound to them.
-/
import RecordCoding.Proofs.Code.Items

namespace RecordCoding

open Token (treesOf)

/-! ### Lists in angle brackets -/

namespace Parser

theorem marked_append {c : Char} {trailing : Bool} {ps qs : List (List TokenTree)} (h : qs ≠ []) :
    marked c true ps ++ marked c trailing qs = marked c trailing (ps ++ qs) := by
  induction ps with
  | nil => rfl
  | cons p more ih =>
    cases more with
    | nil =>
      obtain ⟨q, qs, rfl⟩ := List.exists_cons_of_ne_nil h
      simp [marked]
    | cons p' more =>
      rw [List.cons_append, List.cons_append, marked, marked, List.append_assoc, List.cons_append, ih,
        List.cons_append]

theorem marked_closed {c : Char} (trailing : Bool) {ps : List (List TokenTree)} (h : ps ≠ []) :
    marked c trailing ps ++ (if trailing then [] else [mark c]) = marked c true ps := by
  induction ps with
  | nil => exact absurd rfl h
  | cons p more ih =>
    cases more with
    | nil => cases trailing <;> simp [marked]
    | cons q more => rw [marked, marked, List.append_assoc, List.cons_append, ih (by simp)]

end Parser

namespace Token

open RecordCoding.Parser (marked marked_append marked_closed mark)

/-- Elements with the comma behind each, all of which are there but perhaps the last. -/
def Separated (list : List ((Bool × List Token) × Bool)) : Prop :=
  list.Pairwise fun a _ => a.2 = true

variable {list : List ((Bool × List Token) × Bool)}

/-- Whether a comma stands behind the last element. -/
def closed (list : List ((Bool × List Token) × Bool)) (empty : Bool) : Bool :=
  (list.getLast?.map (·.2)).getD empty

theorem treesOf_written (h : Separated list) :
    treesOf (list.flatMap fun p => p.1.2 ++ if p.2 then [.word ","] else [])
      = marked ',' (closed list false) (list.map fun p => treesOf p.1.2) := by
  induction list with
  | nil => rfl
  | cons p more ih =>
    obtain ⟨hp, hmore⟩ := List.pairwise_cons.mp h
    have ih := ih hmore
    cases more with
    | nil =>
      obtain ⟨a, comma⟩ := p
      cases comma <;> simp [closed, marked, treesOf_append, treesOf, trees, wordTrees, treesFrom,
        opensName]
    | cons q more =>
      have hcomma := hp q List.mem_cons_self
      have hclosed : closed (p :: q :: more) false = closed (q :: more) false := by simp [closed]
      rw [List.flatMap_cons, treesOf_append, ih, hcomma, hclosed]
      show _ = marked ',' _ (treesOf p.1.2 :: treesOf q.1.2 :: more.map fun p => treesOf p.1.2)
      rw [marked, treesOf_append]
      simp [treesOf, trees, wordTrees, treesFrom, opensName]

theorem spaced_eq (open' : Bool) (h : Separated list) (hne : list ≠ []) :
    angleTokens.spaced open' list
      = (if open' then [] else [.word ","])
        ++ list.flatMap fun p => p.1.2 ++ if p.2 then [.word ","] else [] := by
  induction list generalizing open' with
  | nil => exact absurd rfl hne
  | cons p more ih =>
    obtain ⟨a, comma⟩ := p
    obtain ⟨hp, hmore⟩ := List.pairwise_cons.mp h
    cases more with
    | nil => simp [angleTokens.spaced]
    | cons q more =>
      obtain rfl : comma = true := hp q List.mem_cons_self
      rw [angleTokens.spaced, ih true hmore (by simp)]
      simp

/-- The elements of a list in angle brackets, in the order in which they are printed. -/
def printedElements (arguments : List (Bool × List Token)) : List (List TokenTree) :=
  (arguments.filter (·.1) ++ arguments.filter (!·.1)).map fun a => treesOf a.2

theorem mem_printedElements {arguments : List (Bool × List Token)} {q : List TokenTree} :
    q ∈ printedElements arguments ↔ ∃ a ∈ arguments, treesOf a.2 = q := by
  rw [printedElements, List.mem_map]
  refine exists_congr fun a => and_congr_left fun _ => ?_
  rw [List.mem_append, List.mem_filter, List.mem_filter]
  cases a.1 <;> simp

theorem separated_zip (trailing : Bool) (arguments : List (Bool × List Token)) :
    Separated (arguments.zip (List.replicate (arguments.length - 1) true ++ [trailing])) := by
  induction arguments with
  | nil => exact List.Pairwise.nil
  | cons a more ih =>
    cases more with
    | nil => simp [Separated]
    | cons b more =>
      simp only [List.length_cons, Nat.add_one_sub_one, List.replicate_succ, List.cons_append,
        List.zip_cons_cons] at ih ⊢
      exact List.Pairwise.cons (fun _ _ => rfl) ih

/-- Lifetimes and other elements, with the comma between them that may be missing. -/
theorem treesOf_spaced {lifetimes others : List ((Bool × List Token) × Bool)}
    (hlifetimes : Separated lifetimes) (hothers : Separated others) :
    ∃ comma, treesOf ((lifetimes.flatMap fun p => p.1.2 ++ if p.2 then [.word ","] else [])
        ++ angleTokens.spaced (closed lifetimes true) others)
      = marked ',' comma ((lifetimes ++ others).map fun p => treesOf p.1.2) := by
  by_cases hnone : others = []
  · subst hnone
    refine ⟨closed lifetimes false, ?_⟩
    rw [treesOf_append, treesOf_written hlifetimes, List.append_nil]
    exact List.append_nil _
  · have hne : others.map (fun p => treesOf p.1.2) ≠ [] := by simpa using hnone
    refine ⟨closed others false, ?_⟩
    rw [spaced_eq _ hothers hnone, List.map_append, ← marked_append hne, treesOf_append, treesOf_append,
      treesOf_written hlifetimes, treesOf_written hothers, ← List.append_assoc]
    congr 1
    -- The comma behind the lifetimes is written here or there.
    rcases List.eq_nil_or_concat lifetimes with rfl | ⟨front, ⟨a, comma⟩, rfl⟩
    · rfl
    · have hclosed : ∀ empty, closed (front.concat (a, comma)) empty = comma := by simp [closed]
      rw [hclosed, hclosed, ← marked_closed comma (by simp)]
      cases comma <;> rfl

theorem map_filter_zip (trailing : Bool) {arguments : List (Bool × List Token)}
    (f : Bool × List Token → Bool) :
    (((arguments.zip (List.replicate (arguments.length - 1) true ++ [trailing])).filter
      fun p => f p.1).map (·.1)) = arguments.filter f := by
  have hzip : (arguments.zip (List.replicate (arguments.length - 1) true ++ [trailing])).map (·.1)
      = arguments := List.map_fst_zip (by simp; omega)
  calc _ = ((arguments.zip (List.replicate (arguments.length - 1) true ++ [trailing])).map
      (·.1)).filter f := (List.filter_map ..).symm
    _ = arguments.filter f := by rw [hzip]

/-- A list in angle brackets is what it prints of its elements, with commas between them. -/
theorem treesOf_angleTokens (trailing : Bool) (arguments : List (Bool × List Token)) :
    ∃ comma, treesOf (angleTokens trailing arguments)
      = mark '<' :: (marked ',' comma (printedElements arguments) ++ [mark '>']) := by
  have hall := separated_zip trailing arguments
  obtain ⟨comma, htrees⟩ := treesOf_spaced (hall.filter fun p => p.1.1) (hall.filter fun p => !p.1.1)
  refine ⟨comma, ?_⟩
  have hprinted : printedElements arguments = List.map (fun p => treesOf p.1.2)
      (((arguments.zip (List.replicate (arguments.length - 1) true ++ [trailing])).filter
          fun p => p.1.1)
        ++ ((arguments.zip (List.replicate (arguments.length - 1) true ++ [trailing])).filter
          fun p => !p.1.1)) := by
    rw [printedElements, ← map_filter_zip trailing (·.1),
      ← map_filter_zip trailing (!·.1), ← List.map_append, List.map_map]
    rfl
  rw [hprinted, ← htrees]
  show treesOf (.word "<" :: ((_ ++ _) ++ [.word ">"])) = _
  rw [treesOf, treesOf_append]
  rfl

end Token

/-! ### Parameters -/

/-- An identifier that a declaration may be given for a name. -/
structure Ident.Legible (i : Ident) : Prop where
  text : Token.IsNameText i.name
  name : Parser.isName i = true

/-- A name that is none. -/
def Ident.isBlank (i : Ident) : Bool := i.spelled == "_"

/-- Whether a parameter is a type named by an underscore. -/
def GenericParam.isBlank : GenericParam → Bool
  | .type _ name _ _ _ => name.isBlank
  | _ => false

namespace Parser

variable {inner : Inner} {ts : List TokenTree}

/-- The marks that stand behind a bound. -/
def boundMarks : List Char := ['+', ',', '>', '=']

/-- Attributes that can be read in their place again. -/
structure ReadsAttributes (inner : Inner) (as : List Code) : Prop where
  opens : as ≠ [] → ∀ ts, isPunct "#" (treesOf (Code.tokensOfList as) ++ ts) = true
  takes : ∀ ts, isPunct "#" ts = false →
    Takes (attributesCode inner) (treesOf (Code.tokensOfList as) ++ ts) ts

/-- A parameter whose parts can be read in their places again. -/
def ReadsParameter (inner : Inner) : GenericParam → Prop
  | .lifetime as name outlives _ =>
    ReadsAttributes inner as ∧ Token.IsLifetimeText name ∧ ∀ l ∈ outlives, Token.IsLifetimeText l
  | .type as name bounds _ _ =>
    ReadsAttributes inner as ∧ name.Legible
      ∧ ∀ b ∈ bounds, ReadsBefore (inner.bound false true) boundMarks (treesOf b.tokens)
  | .constant as name t _ =>
    ReadsAttributes inner as ∧ name.Legible ∧ ReadsBefore (inner.ty true) angleMarks (treesOf t.tokens)

theorem ReadsParameter.bounded {b : Bound} {p : GenericParam} (h : ReadsParameter inner p)
    (hb : ReadsBefore (inner.bound false true) boundMarks (treesOf b.tokens)) :
    ReadsParameter inner (p.bounded b) := by
  cases p with
  | lifetime as name outlives trailing => exact h
  | type as name bounds trailing fallback =>
    obtain ⟨has, hname, hbounds⟩ := h
    refine ⟨has, hname, fun x hx => ?_⟩
    rcases List.mem_append.mp hx with hx | hx
    · exact hbounds x hx
    · exact List.mem_singleton.mp hx ▸ hb
  | constant as name t fallback => exact h

/-- Brackets that open with this are taken for parameters behind `impl`. -/
def OpensParameter (p : List TokenTree) : Prop :=
  ∀ c ∈ angleMarks, ∀ ts, opensParameters (mark '<' :: (p ++ mark c :: ts)) = true

/-- The lifetimes that another one outlives. -/
theorem treesOf_outlivesTokens {outlives : List String} {trailing : Bool}
    (h : ∀ l ∈ outlives, Token.IsLifetimeText l) :
    treesOf (outlivesTokens outlives trailing)
      = marked '+' trailing (outlives.map fun l => [.lifetime l .start]) := by
  rw [outlivesTokens]
  refine (Token.treesOf_separated (c := '+') rfl trailing _).trans ?_
  rw [List.map_map]
  congr 1
  refine List.map_congr_left fun l hl => ?_
  show treesOf [.word l] = _
  rw [Token.treesOf_singleton, Token.trees, Token.wordTrees_of_isLifetimeText (h l hl)]

theorem takes_lifetimeParam {as : List Code} {name : String} {outlives : List String}
    {trailing : Bool} (hname : Token.IsLifetimeText name)
    (houtlives : ∀ l ∈ outlives, Token.IsLifetimeText l) {c : Char} (hc : c ∈ angleMarks) :
    Takes (lifetimeParam as)
      (treesOf (.word name :: if outlives.isEmpty then [] else .word ":" :: outlivesTokens outlives trailing)
        ++ mark c :: ts) (mark c :: ts) := by
  rw [Token.treesOf, Token.trees, Token.wordTrees_of_isLifetimeText hname]
  -- Without lifetimes behind it there is no colon either.
  cases outlives with
  | nil =>
    have hcolon : isPunct ":" (mark c :: ts) = false := isPunct_of_not_mem hc rfl (by decide)
    simp [lifetimeParam, Token.treesOf, hcolon]
  | cons l more =>
    have htrees : treesOf (outlivesTokens (l :: more) trailing)
        = marked '+' trailing ((l :: more).map fun l => [.lifetime l .start]) :=
      treesOf_outlivesTokens houtlives
    have hpieces : Pieces '+' (fun ts => ts.isEmpty || isPunct "," ts || isPunct ">" ts) lifetime
        ((l :: more).map fun l => [.lifetime l .start]) (mark c :: ts) := by
      refine ⟨?_, fun p hp ts => ?_, fun p hp ts hts => ?_⟩
      · simp only [angleMarks, List.mem_cons, List.not_mem_nil, or_false] at hc
        rcases hc with rfl | rfl <;> rfl
      · obtain ⟨l, hl, rfl⟩ := List.mem_map.mp hp
        rfl
      · obtain ⟨l, hl, rfl⟩ := List.mem_map.mp hp
        exact reads_lifetime.mpr ⟨rfl, trivial⟩
    have hplus : isPunct "+" (mark c :: ts) = false := isPunct_of_not_mem hc rfl (by decide)
    have hlist := reads_chained trailing hpieces hplus (hpieces.length_lt trailing)
    have hcolon : ∀ ts, isPunct ":" (mark ':' :: ts) = true := fun _ => rfl
    have hdrop : ∀ ts, (mark ':' :: ts).drop ":".toList.length = ts := fun _ => rfl
    have hword : (Token.word ":").trees = [mark ':'] := rfl
    simp only [List.isEmpty_cons, Bool.false_eq_true, if_false, Token.treesOf, hword, htrees,
      List.cons_append, List.nil_append, lifetimeParam, reads_lifetime_bind, reads_punct?_bind, hcolon,
      if_true, hdrop, reads_rounds_bind]
    exact hlist.bind fun _ _ => by simp

theorem treesOf_bounds (trailing : Bool) (bounds : List Bound) :
    treesOf (Token.separated (.word "+") trailing (Bound.tokensOfList bounds))
      = marked '+' trailing (bounds.map fun b => treesOf b.tokens) := by
  refine (Token.treesOf_separated (c := '+') rfl trailing _).trans ?_
  congr 1
  induction bounds with
  | nil => rfl
  | cons b more ih => rw [Bound.tokensOfList, List.map_cons, List.map_cons, ih]

theorem pieces_bounds {bounds : List Bound}
    (hbounds : ∀ b ∈ bounds, ReadsBefore (inner.bound false true) boundMarks (treesOf b.tokens))
    {c : Char} (hc : c ∈ angleMarks) (ts : List TokenTree) :
    Pieces '+' (fun ts => ts.isEmpty || isPunct "," ts || isPunct ">" ts || isPunct "=" ts)
      (inner.bound false true) (bounds.map fun b => treesOf b.tokens) (mark c :: ts) := by
  refine ⟨?_, fun p hp us => ?_, fun p hp us hus => ?_⟩
  · simp only [angleMarks, List.mem_cons, List.not_mem_nil, or_false] at hc
    rcases hc with rfl | rfl <;> rfl
  · obtain ⟨b, hb, rfl⟩ := List.mem_map.mp hp
    have hopens := (hbounds b hb).opens
    have hcomma : isPunct "," (treesOf b.tokens ++ us) = false := hopens ',' (by decide) us
    have hangle : isPunct ">" (treesOf b.tokens ++ us) = false := hopens '>' (by decide) us
    have hequals : isPunct "=" (treesOf b.tokens ++ us) = false := hopens '=' (by decide) us
    rw [(hbounds b hb).isEmpty_eq_false (c := '+') (by decide), hcomma, hangle, hequals]
    rfl
  · obtain ⟨b, hb, rfl⟩ := List.mem_map.mp hp
    have hmarks : ∀ d ∈ angleMarks, d ∈ boundMarks := by simp [angleMarks, boundMarks]
    rcases hus with rfl | ⟨more, rfl⟩
    · exact (hbounds b hb).takes c (hmarks c hc) ts
    · exact (hbounds b hb).takes '+' (by decide) more

/-- The bounds of a type parameter with the colon; nothing where there are none. -/
def boundTokens (bounds : List Bound) (trailing : Bool) : List Token :=
  if bounds.isEmpty then []
  else .word ":" :: Token.separated (.word "+") trailing (Bound.tokensOfList bounds)

theorem takes_typeParam {as : List Code} {name : Ident} {bounds : List Bound} {trailing : Bool}
    (hname : isName name = true)
    (hbounds : ∀ b ∈ bounds, ReadsBefore (inner.bound false true) boundMarks (treesOf b.tokens))
    {c : Char} (hc : c ∈ angleMarks) :
    Takes (typeParam inner as) (.ident name :: (treesOf (boundTokens bounds trailing) ++ mark c :: ts))
      (mark c :: ts) := by
  have hequals : isPunct "=" (mark c :: ts) = false := isPunct_of_not_mem hc rfl (by decide)
  cases bounds with
  | nil =>
    have hcolon : isPunct ":" (mark c :: ts) = false := isPunct_of_not_mem hc rfl (by decide)
    simp [typeParam, hname, boundTokens, Token.treesOf, hcolon, hequals]
  | cons b more =>
    have hpieces := pieces_bounds hbounds hc ts
    have hplus : isPunct "+" (mark c :: ts) = false := isPunct_of_not_mem hc rfl (by decide)
    have hlist := reads_chained trailing hpieces hplus (hpieces.length_lt trailing)
    have hcolon : ∀ ts, isPunct ":" (mark ':' :: ts) = true := fun _ => rfl
    have hdrop : ∀ ts, (mark ':' :: ts).drop ":".toList.length = ts := fun _ => rfl
    have hword : (Token.word ":").trees = [mark ':'] := rfl
    simp only [boundTokens, List.isEmpty_cons, Bool.false_eq_true, if_false, Token.treesOf, hword,
      treesOf_bounds, List.cons_append, List.nil_append, typeParam, reads_identifier_bind hname,
      reads_punct?_bind, hcolon, if_true, hdrop, boundList, reads_rounds_bind, bind_assoc]
    refine hlist.bind fun _ _ => ?_
    simp [hequals]

theorem takes_constantParam {as : List Code} {name : Ident} {type : List TokenTree}
    (hname : isName name = true) (htype : ReadsBefore (inner.ty true) angleMarks type)
    {c : Char} (hc : c ∈ angleMarks) :
    Takes (constantParam inner as)
      (.ident (.plain "const") :: .ident name :: mark ':' :: (type ++ mark c :: ts)) (mark c :: ts) := by
  have hconst : ∀ ts, isKeyword "const" (.ident (.plain "const") :: ts) = true := fun _ => rfl
  have hcolon : ∀ ts, isPunct ":" (mark ':' :: ts) = true := fun _ => rfl
  have hdrop : ∀ ts, (mark ':' :: ts).drop ":".toList.length = ts := fun _ => rfl
  have hequals : isPunct "=" (mark c :: ts) = false := isPunct_of_not_mem hc rfl (by decide)
  simp only [constantParam, reads_keyword_bind (hconst _), List.drop_succ_cons, List.drop_zero,
    reads_identifier_bind hname, reads_punct_bind (hcolon _), hdrop]
  refine (htype.takes c hc ts).bind fun t _ => ?_
  simp [hequals]

/-- The trees of a parameter behind `impl`. -/
def parameterTrees (p : GenericParam) : List TokenTree := treesOf p.withoutDefault.tokens

theorem ne_hash_of_mem_angleMarks {c : Char} (hc : c ∈ angleMarks) : c ≠ '#' := by
  rintro rfl
  exact absurd hc (by decide)

theorem ne_of_isPunct_hash {c : Char} (hc : c ≠ '#') (h : isPunct "#" ts = true) :
    isPunct (String.singleton c) ts = false := by
  cases ts with
  | nil => exact absurd h (by decide)
  | cons t more =>
    cases t with
    | punct d joint l =>
      have hd : '#' = d := by simpa [isPunct, beginsWith] using h
      exact isPunct_of_ne (by simp) (hd ▸ hc)
    | _ => exact absurd h (by simp [isPunct, beginsWith])

variable {as : List Code} {t : TokenTree} {more : List TokenTree}

/-- A parameter opens with its attributes, or with a word. -/
theorem ReadsAttributes.opens_behind (has : ReadsAttributes inner as)
    (ht : ∀ p : String, p.toList ≠ [] → ∀ ts, isPunct p (t :: ts) = false) {c : Char} (hc : c ≠ '#')
    (ts : List TokenTree) :
    isPunct (String.singleton c) (treesOf (Code.tokensOfList as) ++ t :: more ++ ts) = false := by
  rw [List.append_assoc]
  by_cases hnone : as = []
  · subst hnone
    exact ht _ (by simp) _
  · exact ne_of_isPunct_hash hc (has.opens hnone _)

theorem ReadsAttributes.opensParameter (has : ReadsAttributes inner as)
    (h : OpensParameter (t :: more)) : OpensParameter (treesOf (Code.tokensOfList as) ++ t :: more) := by
  intro c hc ts
  by_cases hnone : as = []
  · subst hnone
    exact h c hc ts
  · have hhash := has.opens hnone (t :: more ++ mark c :: ts)
    rw [← List.append_assoc] at hhash
    have hangle : ∀ us, isPunct "<" (mark '<' :: us) = true := fun _ => rfl
    simp only [opensParameters, hangle, List.drop_succ_cons, List.drop_zero, hhash, Bool.or_true,
      Bool.true_or, Bool.true_and]

theorem isPunct_lifetime {p w : String} {l : Location} (hp : p.toList ≠ []) :
    isPunct p (.lifetime w l :: ts) = false := by
  rw [isPunct]
  rcases hlist : p.toList with _ | ⟨a, l⟩
  · exact absurd hlist hp
  · cases l <;> rfl

/-- What stands behind the name of a lifetime or of a type as a parameter. -/
theorem isPunct_of_colon {c : Char} (hc : c ∈ angleMarks) {us : List TokenTree}
    (hus : us = mark c :: ts ∨ ∃ vs, us = mark ':' :: vs) :
    (isPunct ">" us || isPunct "," us || isPunct "=" us || (isPunct ":" us && !isPunct "::" us))
      = true := by
  simp only [angleMarks, List.mem_cons, List.not_mem_nil, or_false] at hc
  rcases hus with rfl | ⟨vs, rfl⟩
  · rcases hc with rfl | rfl <;> rfl
  · rfl

/-- A lifetime as a parameter behind `impl`. -/
theorem readsBefore_lifetimeParam {name : String} {outlives : List String} {trailing : Bool}
    (h : ReadsParameter inner (.lifetime as name outlives trailing)) :
    ReadsBefore (genericParam inner) angleMarks (parameterTrees (.lifetime as name outlives trailing))
      ∧ OpensParameter (parameterTrees (.lifetime as name outlives trailing)) := by
  obtain ⟨has, hname, houtlives⟩ := h
  have hbehind : treesOf (.word name ::
      if outlives.isEmpty then [] else .word ":" :: outlivesTokens outlives trailing)
      = .lifetime name .start ::
        treesOf (if outlives.isEmpty then [] else .word ":" :: outlivesTokens outlives trailing) := by
    rw [Token.treesOf, Token.trees, Token.wordTrees_of_isLifetimeText hname]
    rfl
  have hplain : (GenericParam.lifetime as name outlives trailing).withoutDefault
      = .lifetime as name outlives trailing := rfl
  rw [parameterTrees, hplain, GenericParam.tokens, Token.treesOf_append, hbehind]
  -- Read as a parameter by what stands first, and known as one by its third token.
  refine ⟨⟨fun c hc => has.opens_behind (fun _ hp _ => isPunct_lifetime hp) ?_, fun c hc ts => ?_⟩,
    has.opensParameter fun c hc ts => ?_⟩
  · exact ne_hash_of_mem_angleMarks hc
  · rw [List.append_assoc]
    refine (has.takes _ (isPunct_lifetime (by decide))).bind fun codes _ => reads_ahead_bind.mpr ?_
    have hparam : Takes (lifetimeParam codes) (treesOf (.word name ::
        if outlives.isEmpty then [] else .word ":" :: outlivesTokens outlives trailing)
        ++ mark c :: ts) (mark c :: ts) := takes_lifetimeParam hname houtlives hc
    rw [hbehind] at hparam
    exact hparam
  · have hcolon : ∀ us, treesOf (if outlives.isEmpty then [] else
          .word ":" :: outlivesTokens outlives trailing) ++ mark c :: ts = us →
        us = mark c :: ts ∨ ∃ vs, us = mark ':' :: vs := by
      rintro _ rfl
      cases outlives with
      | nil => exact .inl rfl
      | cons l more => exact .inr ⟨_, rfl⟩
    have hthird := isPunct_of_colon hc (hcolon _ rfl)
    have hlifetime : ∀ us, isLifetime (.lifetime name .start :: us) = true := fun _ => rfl
    have hangle : ∀ us, isPunct "<" (mark '<' :: us) = true := fun _ => rfl
    simp only [opensParameters, hangle, List.cons_append, List.drop_succ_cons, List.drop_zero, hlifetime,
      Bool.or_true, Bool.true_and, hthird]

/-- A type as a parameter behind `impl`. -/
theorem readsBefore_typeParam {name : Ident} {bounds : List Bound} {trailing : Bool}
    {fallback : Option Ty} (h : ReadsParameter inner (.type as name bounds trailing fallback)) :
    ReadsBefore (genericParam inner) angleMarks
        (parameterTrees (.type as name bounds trailing fallback))
      ∧ OpensParameter (parameterTrees (.type as name bounds trailing fallback)) := by
  obtain ⟨has, hname, hbounds⟩ := h
  have hplain : (GenericParam.type as name bounds trailing fallback).withoutDefault
      = .type as name bounds trailing none := rfl
  have htrees : parameterTrees (.type as name bounds trailing fallback)
      = treesOf (Code.tokensOfList as) ++ .ident name.anywhere ::
        treesOf (boundTokens bounds trailing) := by
    rw [parameterTrees, hplain, GenericParam.tokens, Ty.fallbackTokens, List.append_nil,
      Token.treesOf_append, Token.treesOf, Ident.trees_ident hname.text]
    rfl
  rw [htrees]
  have hname' : isName name.anywhere = true := hname.name
  have hidentifier : ∀ us, isIdentifier (.ident name.anywhere :: us) = true := fun _ => hname'
  refine ⟨⟨fun c hc => has.opens_behind (fun _ hp _ => isPunct_ident hp) ?_, fun c hc ts => ?_⟩,
    has.opensParameter fun c hc ts => ?_⟩
  · exact ne_hash_of_mem_angleMarks hc
  · rw [List.append_assoc]
    refine (has.takes _ (isPunct_ident (by decide))).bind fun codes _ => ?_
    have hlifetime : ∀ us, isLifetime (.ident name.anywhere :: us) = false := fun _ => rfl
    simp only [reads_ahead_bind, hlifetime, hidentifier, Bool.false_eq_true, if_false, if_true]
    exact takes_typeParam hname' hbounds hc
  · have hcolon : ∀ us, treesOf (boundTokens bounds trailing) ++ mark c :: ts = us →
        us = mark c :: ts ∨ ∃ vs, us = mark ':' :: vs := by
      rintro _ rfl
      cases bounds with
      | nil => exact .inl rfl
      | cons b more => exact .inr ⟨_, rfl⟩
    have hthird := isPunct_of_colon hc (hcolon _ rfl)
    have hangle : ∀ us, isPunct "<" (mark '<' :: us) = true := fun _ => rfl
    simp only [opensParameters, hangle, List.cons_append, List.drop_succ_cons, List.drop_zero,
      hidentifier, Bool.true_or, Bool.or_true, Bool.true_and, hthird]

/-- A constant as a parameter behind `impl`. -/
theorem readsBefore_constantParam {name : Ident} {type : Ty} {fallback : Option Code}
    (h : ReadsParameter inner (.constant as name type fallback)) :
    ReadsBefore (genericParam inner) angleMarks (parameterTrees (.constant as name type fallback))
      ∧ OpensParameter (parameterTrees (.constant as name type fallback)) := by
  obtain ⟨has, hname, htype⟩ := h
  have hplain : (GenericParam.constant as name type fallback).withoutDefault
      = .constant as name type none := rfl
  have htrees : parameterTrees (.constant as name type fallback)
      = treesOf (Code.tokensOfList as) ++ .ident (.plain "const") :: .ident name.anywhere ::
        mark ':' :: treesOf type.tokens := by
    rw [parameterTrees, hplain, GenericParam.tokens, Code.fallbackTokens]
    simp only [List.append_nil, Token.treesOf_append, Token.treesOf, Ident.trees_ident hname.text,
      List.append_assoc]
    rfl
  rw [htrees]
  have hname' : isName name.anywhere = true := hname.name
  refine ⟨⟨fun c hc => has.opens_behind (fun _ hp _ => isPunct_ident hp) ?_, fun c hc ts => ?_⟩,
    has.opensParameter fun c hc ts => ?_⟩
  · exact ne_hash_of_mem_angleMarks hc
  · rw [List.append_assoc]
    refine (has.takes _ (isPunct_ident (by decide))).bind fun codes _ => ?_
    exact reads_ahead_bind.mpr (takes_constantParam hname' htype hc)
  · have hconst : ∀ us, isKeyword "const" (.ident (.plain "const") :: us) = true := fun _ => rfl
    have hangle : ∀ us, isPunct "<" (mark '<' :: us) = true := fun _ => rfl
    simp only [opensParameters, hangle, List.cons_append, List.drop_succ_cons, List.drop_zero, hconst,
      Bool.or_true, Bool.true_or, Bool.true_and]

/-- A parameter can be read behind `impl`, and is known there as one. -/
theorem ReadsParameter.readsBefore {p : GenericParam} (h : ReadsParameter inner p) :
    ReadsBefore (genericParam inner) angleMarks (parameterTrees p) ∧ OpensParameter (parameterTrees p) := by
  cases p with
  | lifetime as name outlives trailing => exact readsBefore_lifetimeParam h
  | type as name bounds trailing fallback => exact readsBefore_typeParam h
  | constant as name t fallback => exact readsBefore_constantParam h

end Parser

end RecordCoding
