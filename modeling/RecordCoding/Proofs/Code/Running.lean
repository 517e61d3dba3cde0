/-
How parsers run.

`Reads` says that a parser gets through some trees up to a rest, wherever the end
is, and what it makes of them.  The lemmas here take a parser apart from the
front, one of them for each way in which parsers are put together:

* `Reads.bind` and its forms for a first step that looks ahead or takes one token;
* `reads_inside` — what brackets enclose is read to its end;
* `reads_separatedUntil`, `reads_chained`, `reads_toEnd` — lists.

Design notes: a parser that looks ahead and then decides is a bind over `ahead`.
The forms `reads_*_bind` are equivalences, so that `simp` carries out such steps
as soon as it can evaluate what is looked for.
-/
import RecordCoding.Code.Parse

namespace RecordCoding

namespace Parser

variable {α β : Type} {r : Parser α} {f : α → Parser β} {ts mid rest : List TokenTree}
  {P : α → Prop} {Q : β → Prop}

/-- From some trees a parser gets to a rest of them, and what it makes has a
property. -/
def Reads (r : Parser α) (ts rest : List TokenTree) (P : α → Prop) : Prop :=
  ∀ scope stray, ∃ a, r ⟨ts, scope, stray⟩ = .ok (a, ⟨rest, scope, stray⟩) ∧ P a

/-- A parser gets from some trees to a rest of them. -/
abbrev Takes (r : Parser α) (ts rest : List TokenTree) : Prop := Reads r ts rest fun _ => True

/-- A parser fails in front of some trees. -/
def Fails (r : Parser α) (ts : List TokenTree) : Prop :=
  ∀ scope stray, ∃ e, r ⟨ts, scope, stray⟩ = .error e

/-! ### Steps -/

theorem Reads.imp {P' : α → Prop} (h : Reads r ts rest P) (himp : ∀ a, P a → P' a) :
    Reads r ts rest P' := by
  intro scope stray
  obtain ⟨a, ha, hP⟩ := h scope stray
  exact ⟨a, ha, himp a hP⟩

theorem Reads.takes (h : Reads r ts rest P) : Takes r ts rest := h.imp fun _ _ => trivial

/-- A parser that gets to the end reads all of its trees. -/
theorem Reads.all (h : Reads r ts [] P) (scope : Location) : ∃ a, r.all scope ts = .ok a ∧ P a := by
  obtain ⟨a, ha, hP⟩ := h scope none
  refine ⟨a, ?_, hP⟩
  rw [Parser.all, ha]
  rfl

theorem Reads.bind (h : Reads r ts mid P) (hf : ∀ a, P a → Reads (f a) mid rest Q) :
    Reads (r >>= f) ts rest Q := by
  intro scope stray
  obtain ⟨a, ha, hP⟩ := h scope stray
  obtain ⟨b, hb, hQ⟩ := hf a hP scope stray
  refine ⟨b, ?_, hQ⟩
  show Except.bind (r ⟨ts, scope, stray⟩) _ = _
  rw [ha]
  exact hb

@[simp]
theorem reads_map {g : α → β} : Reads (g <$> r) ts rest Q ↔ Reads r ts rest (Q ∘ g) := by
  have hrun : ∀ s, (g <$> r) s = (r s).bind fun p => .ok (g p.1, p.2) := fun _ => rfl
  constructor
  · intro h scope stray
    obtain ⟨b, hb, hQ⟩ := h scope stray
    rw [hrun] at hb
    rcases hr : r ⟨ts, scope, stray⟩ with e | ⟨a, s⟩
    · rw [hr] at hb
      exact absurd hb (by simp [Except.bind])
    · rw [hr] at hb
      obtain ⟨rfl, rfl⟩ := Prod.mk.inj (Except.ok.inj hb)
      exact ⟨a, rfl, hQ⟩
  · intro h scope stray
    obtain ⟨a, ha, hQ⟩ := h scope stray
    refine ⟨g a, ?_, hQ⟩
    rw [hrun, ha]
    rfl

@[simp]
theorem reads_pure {a : α} : Reads (pure a : Parser α) ts rest P ↔ ts = rest ∧ P a := by
  constructor
  · intro h
    obtain ⟨b, hb, hP⟩ := h .start none
    obtain ⟨rfl, hs⟩ := Prod.mk.inj (Except.ok.inj hb)
    exact ⟨congrArg ParseState.rest hs, hP⟩
  · rintro ⟨rfl, hP⟩ scope stray
    exact ⟨a, rfl, hP⟩

/-- A first step that is certain. -/
theorem reads_bind_iff {a : α} (h : ∀ scope stray, r ⟨ts, scope, stray⟩ = .ok (a, ⟨mid, scope, stray⟩)) :
    Reads (r >>= f) ts rest Q ↔ Reads (f a) mid rest Q := by
  have hrun : ∀ scope stray, (r >>= f) ⟨ts, scope, stray⟩ = f a ⟨mid, scope, stray⟩ := by
    intro scope stray
    show Except.bind (r ⟨ts, scope, stray⟩) _ = _
    rw [h]
    rfl
  simp only [Reads, hrun]

@[simp]
theorem reads_ahead_bind {f : List TokenTree → Parser β} :
    Reads (ahead >>= f) ts rest Q ↔ Reads (f ts) ts rest Q :=
  reads_bind_iff fun _ _ => rfl

@[simp]
theorem reads_rounds_bind {f : Nat → Parser β} :
    Reads (rounds >>= f) ts rest Q ↔ Reads (f (ts.length + 1)) ts rest Q :=
  reads_bind_iff fun _ _ => rfl

@[simp]
theorem reads_finished_bind {f : Bool → Parser β} :
    Reads (finished >>= f) ts rest Q ↔ Reads (f ts.isEmpty) ts rest Q :=
  reads_bind_iff fun _ _ => rfl

@[simp]
theorem reads_skip_bind {n : Nat} {f : Unit → Parser β} :
    Reads (skip n >>= f) ts rest Q ↔ Reads (f ()) (ts.drop n) rest Q :=
  reads_bind_iff fun _ _ => rfl

@[simp]
theorem reads_word_bind {i : Ident} {f : Ident → Parser β} :
    Reads (word >>= f) (.ident i :: ts) rest Q ↔ Reads (f i) ts rest Q :=
  reads_bind_iff fun _ _ => rfl

/-- The next place does not matter. -/
theorem Reads.here_bind {f : Location → Parser β} (h : ∀ l, Reads (f l) ts rest Q) :
    Reads (here >>= f) ts rest Q := by
  have hhere : Takes here ts ts := by
    intro scope stray
    cases ts with
    | nil => exact ⟨_, rfl, trivial⟩
    | cons t ts => exact ⟨_, rfl, trivial⟩
  exact hhere.bind fun l _ => h l

@[simp]
theorem reads_punct_bind {p : String} {f : Unit → Parser β} (h : isPunct p ts = true) :
    Reads (punct p >>= f) ts rest Q ↔ Reads (f ()) (ts.drop p.toList.length) rest Q := by
  refine reads_bind_iff fun scope stray => ?_
  show (if isPunct p ts = true then skip p.length else _) _ = _
  rw [if_pos h]
  rfl

@[simp]
theorem reads_punct?_bind {p : String} {f : Bool → Parser β} :
    Reads (punct? p >>= f) ts rest Q ↔
      if isPunct p ts then Reads (f true) (ts.drop p.toList.length) rest Q
      else Reads (f false) ts rest Q := by
  have hrun : ∀ scope stray, punct? p ⟨ts, scope, stray⟩
      = (if isPunct p ts = true then (do skip p.length; pure true) else pure false : Parser Bool)
          ⟨ts, scope, stray⟩ := fun _ _ => rfl
  by_cases h : isPunct p ts = true
  · rw [if_pos h]
    exact reads_bind_iff fun scope stray => by rw [hrun, if_pos h]; rfl
  · rw [if_neg h]
    exact reads_bind_iff fun scope stray => by rw [hrun, if_neg h]; rfl

@[simp]
theorem reads_keyword_bind {w : String} {f : Unit → Parser β} (h : isKeyword w ts = true) :
    Reads (keyword w >>= f) ts rest Q ↔ Reads (f ()) (ts.drop 1) rest Q := by
  refine reads_bind_iff fun scope stray => ?_
  show (if isKeyword w ts = true then skip 1 else _) _ = _
  rw [if_pos h]
  rfl

@[simp]
theorem reads_keyword?_bind {w : String} {f : Bool → Parser β} :
    Reads (keyword? w >>= f) ts rest Q ↔
      if isKeyword w ts then Reads (f true) (ts.drop 1) rest Q else Reads (f false) ts rest Q := by
  have hrun : ∀ scope stray, keyword? w ⟨ts, scope, stray⟩
      = (if isKeyword w ts = true then (do skip 1; pure true) else pure false : Parser Bool)
          ⟨ts, scope, stray⟩ := fun _ _ => rfl
  by_cases h : isKeyword w ts = true
  · rw [if_pos h]
    exact reads_bind_iff fun scope stray => by rw [hrun, if_pos h]; rfl
  · rw [if_neg h]
    exact reads_bind_iff fun scope stray => by rw [hrun, if_neg h]; rfl

@[simp]
theorem reads_identifier_bind {i : Ident} {f : Ident → Parser β} (h : isName i = true) :
    Reads (identifier >>= f) (.ident i :: ts) rest Q ↔ Reads (f i) ts rest Q := by
  refine reads_bind_iff fun scope stray => ?_
  show (if isName i = true then (do skip 1; pure i) else _ : Parser Ident) _ = _
  rw [if_pos h]
  rfl

@[simp]
theorem reads_lifetime_bind {name : String} {l : Location} {f : String → Parser β} :
    Reads (lifetime >>= f) (.lifetime name l :: ts) rest Q ↔ Reads (f name) ts rest Q :=
  reads_bind_iff fun _ _ => rfl

/-- A parser that stands alone is one that nothing is done behind. -/
theorem reads_bind_pure : Reads (r >>= pure) ts rest P ↔ Reads r ts rest P := by
  rw [bind_pure]

@[simp]
theorem reads_word {i : Ident} {P : Ident → Prop} :
    Reads word (.ident i :: ts) rest P ↔ ts = rest ∧ P i := by
  rw [← reads_bind_pure, reads_word_bind, reads_pure]

@[simp]
theorem reads_identifier {i : Ident} {P : Ident → Prop} (h : isName i = true) :
    Reads identifier (.ident i :: ts) rest P ↔ ts = rest ∧ P i := by
  rw [← reads_bind_pure, reads_identifier_bind h, reads_pure]

@[simp]
theorem reads_lifetime {name : String} {l : Location} {P : String → Prop} :
    Reads lifetime (.lifetime name l :: ts) rest P ↔ ts = rest ∧ P name := by
  rw [← reads_bind_pure, reads_lifetime_bind, reads_pure]

@[simp]
theorem reads_ahead {P : List TokenTree → Prop} : Reads ahead ts rest P ↔ ts = rest ∧ P ts := by
  rw [← reads_bind_pure, reads_ahead_bind, reads_pure]

@[simp]
theorem reads_punct {p : String} {P : Unit → Prop} (h : isPunct p ts = true) :
    Reads (punct p) ts rest P ↔ ts.drop p.toList.length = rest ∧ P () := by
  rw [← reads_bind_pure, reads_punct_bind h, reads_pure]

@[simp]
theorem reads_keyword {w : String} {P : Unit → Prop} (h : isKeyword w ts = true) :
    Reads (keyword w) ts rest P ↔ ts.drop 1 = rest ∧ P () := by
  rw [← reads_bind_pure, reads_keyword_bind h, reads_pure]

/-! ### Brackets and trials -/

theorem reads_inside {d : Delimiter} {body : List TokenTree} {opening closing : Location}
    (h : Reads r body [] P) :
    Reads (inside d r) (.group d body opening closing :: rest) rest P := by
  intro scope stray
  obtain ⟨a, ha, hP⟩ := h closing stray
  refine ⟨a, ?_, hP⟩
  have hlift : ∀ s : ParseState, (liftM (r ⟨body, closing, stray⟩) : Parser (α × ParseState)) s
      = .ok ((a, ⟨[], closing, stray⟩), s) := by
    intro s
    show Except.bind (r ⟨body, closing, stray⟩) _ = _
    rw [ha]
    rfl
  show (if d = d then _ else _ : Parser α) _ = _
  rw [if_pos rfl]
  show Except.bind ((liftM (r ⟨body, closing, stray⟩) : Parser (α × ParseState)) _) _ = _
  rw [hlift]
  cases stray <;> rfl

theorem reads_attempt? (h : Reads r ts rest P) :
    Reads (attempt? r) ts rest fun o => ∃ a, o = some a ∧ P a := by
  intro scope stray
  obtain ⟨a, ha, hP⟩ := h scope stray
  refine ⟨some a, ?_, a, rfl, hP⟩
  rw [attempt?, ha]

theorem reads_attempt?_of_fails (h : Fails r ts) : Reads (attempt? r) ts ts (· = none) := by
  intro scope stray
  obtain ⟨e, he⟩ := h scope stray
  refine ⟨none, ?_, rfl⟩
  rw [attempt?, he]

theorem reads_lookingAhead (h : Reads r ts rest P) : Reads (lookingAhead r) ts ts P := by
  intro scope stray
  obtain ⟨a, ha, hP⟩ := h scope stray
  refine ⟨a, ?_, hP⟩
  rw [lookingAhead, ha]

/-! ### Lists -/

/-- Pieces with a mark between two of them, and behind the last one if asked for. -/
def marked (c : Char) (trailing : Bool) : List (List TokenTree) → List TokenTree
  | [] => []
  | [p] => p ++ if trailing then [.punct c false .start] else []
  | p :: q :: more => p ++ .punct c false .start :: marked c trailing (q :: more)

/-- What stands behind a piece of a list: the mark, or what stands behind the
list. -/
def Behind (c : Char) (rest ts : List TokenTree) : Prop :=
  ts = rest ∨ ∃ more, ts = .punct c false .start :: more

variable {c : Char} {stop : List TokenTree → Bool} {pieces : List (List TokenTree)} {trailing : Bool}

/-- A list that ends where `stop` holds, each of whose elements can be read. -/
structure Pieces (c : Char) (stop : List TokenTree → Bool) (r : Parser α)
    (pieces : List (List TokenTree)) (rest : List TokenTree) : Prop where
  ends : stop rest = true
  opens : ∀ p ∈ pieces, ∀ ts, stop (p ++ ts) = false
  reads : ∀ p ∈ pieces, ∀ ts, Behind c rest ts → Takes r (p ++ ts) ts

theorem Pieces.tail {p : List TokenTree} (h : Pieces c stop r (p :: pieces) rest) :
    Pieces c stop r pieces rest :=
  ⟨h.ends, fun q hq => h.opens q (List.mem_cons_of_mem _ hq),
    fun q hq => h.reads q (List.mem_cons_of_mem _ hq)⟩

theorem Pieces.opens_marked {p : List TokenTree} (h : Pieces c stop r (p :: pieces) rest)
    (trailing : Bool) :
    stop (marked c trailing (p :: pieces) ++ rest) = false := by
  cases pieces with
  | nil =>
    rw [marked, List.append_assoc]
    exact h.opens p List.mem_cons_self _
  | cons q more =>
    rw [marked, List.append_assoc]
    exact h.opens p List.mem_cons_self _

/-- Pieces that are not empty have together at least as many elements as there are pieces,
so these are enough rounds for a loop over them. -/
theorem length_le_flatMap {α β : Type} {l : List α} {f : α → List β} (h : ∀ a ∈ l, f a ≠ []) :
    l.length ≤ (l.flatMap f).length := by
  induction l with
  | nil => exact Nat.le_refl 0
  | cons a more ih =>
    have ha := List.length_pos_iff.mpr (h a List.mem_cons_self)
    have ih := ih fun b hb => h b (List.mem_cons_of_mem _ hb)
    rw [List.flatMap_cons, List.length_append, List.length_cons]
    omega

/-- The same with marks between the pieces. -/
theorem length_le_marked (trailing : Bool) (h : ∀ p ∈ pieces, p ≠ []) :
    pieces.length ≤ (marked c trailing pieces).length := by
  induction pieces with
  | nil => exact Nat.zero_le _
  | cons p more ih =>
    have hp := List.length_pos_iff.mpr (h p List.mem_cons_self)
    have ih := ih fun q hq => h q (List.mem_cons_of_mem _ hq)
    cases more with
    | nil =>
      simp only [marked, List.length_append, List.length_singleton]
      omega
    | cons q more =>
      simp only [marked, List.length_append, List.length_cons] at ih ⊢
      omega

theorem Pieces.length_lt (h : Pieces c stop r pieces rest) (trailing : Bool) :
    pieces.length < (marked c trailing pieces ++ rest).length + 1 := by
  have hne : ∀ p ∈ pieces, p ≠ [] := by
    rintro p hp rfl
    exact absurd (h.ends.symm.trans (h.opens [] hp rest)) (by decide)
  have hmarked := length_le_marked (c := c) trailing hne
  rw [List.length_append]
  omega

theorem isPunct_mark (ts : List TokenTree) :
    isPunct (String.singleton c) (.punct c false .start :: ts) = true := by
  simp [isPunct, beginsWith]

theorem reads_mark_bind {f : Unit → Parser β} :
    Reads (punct (String.singleton c) >>= f) (.punct c false .start :: ts) rest Q ↔
      Reads (f ()) ts rest Q := by
  rw [reads_punct_bind (isPunct_mark ts)]
  simp

theorem reads_mark?_bind {f : Bool → Parser β} :
    Reads (punct? (String.singleton c) >>= f) (.punct c false .start :: ts) rest Q ↔
      Reads (f true) ts rest Q := by
  rw [reads_punct?_bind, if_pos (isPunct_mark ts)]
  simp

theorem reads_separatedUntil {fuel : Nat} (trailing : Bool) (h : Pieces c stop r pieces rest)
    (hmark : ∀ ts, stop (.punct c false .start :: ts) = false) (hfuel : pieces.length < fuel) :
    Takes (separatedUntil stop (String.singleton c) r fuel) (marked c trailing pieces ++ rest) rest := by
  induction pieces generalizing fuel with
  | nil =>
    obtain ⟨fuel, rfl⟩ : ∃ n, fuel = n + 1 := ⟨fuel - 1, by omega⟩
    simp [separatedUntil, marked, h.ends]
  | cons p pieces ih =>
    obtain ⟨fuel, rfl⟩ : ∃ n, fuel = n + 1 := ⟨fuel - 1, by omega⟩
    have hopens := h.opens_marked trailing
    have hread := h.reads p List.mem_cons_self
    have hfuel : pieces.length < fuel := by simpa using hfuel
    have ih := ih h.tail hfuel
    simp only [separatedUntil, reads_ahead_bind, hopens, Bool.false_eq_true, if_false]
    -- Only behind the last element does it matter whether a mark trails.
    cases pieces with
    | cons q more =>
      rw [marked, List.append_assoc, List.cons_append]
      refine (hread _ (.inr ⟨_, rfl⟩)).bind fun a _ => ?_
      rw [reads_ahead_bind, hmark, if_neg Bool.false_ne_true, reads_mark_bind]
      exact ih.bind fun _ _ => by simp
    | nil =>
      rw [marked, List.append_assoc]
      cases trailing with
      | false =>
        refine (hread _ (.inl rfl)).bind fun a _ => ?_
        simp [h.ends]
      | true =>
        refine (hread _ (.inr ⟨rest, rfl⟩)).bind fun a _ => ?_
        rw [reads_ahead_bind, hmark, if_neg Bool.false_ne_true, reads_mark_bind]
        exact ih.bind fun _ _ => by simp

theorem reads_chained {fuel : Nat} (trailing : Bool) (h : Pieces c stop r pieces rest)
    (hmark : isPunct (String.singleton c) rest = false) (hfuel : pieces.length < fuel) :
    Takes (chained stop (String.singleton c) r fuel) (marked c trailing pieces ++ rest) rest := by
  induction pieces generalizing fuel with
  | nil =>
    obtain ⟨fuel, rfl⟩ : ∃ n, fuel = n + 1 := ⟨fuel - 1, by omega⟩
    simp [chained, marked, h.ends]
  | cons p pieces ih =>
    obtain ⟨fuel, rfl⟩ : ∃ n, fuel = n + 1 := ⟨fuel - 1, by omega⟩
    have hopens := h.opens_marked trailing
    have hread := h.reads p List.mem_cons_self
    have hfuel : pieces.length < fuel := by simpa using hfuel
    have ih := ih h.tail hfuel
    simp only [chained, reads_ahead_bind, hopens, Bool.false_eq_true, if_false]
    cases pieces with
    | cons q more =>
      rw [marked, List.append_assoc, List.cons_append]
      refine (hread _ (.inr ⟨_, rfl⟩)).bind fun a _ => ?_
      rw [reads_mark?_bind]
      exact ih.bind fun _ _ => by simp
    | nil =>
      rw [marked, List.append_assoc]
      cases trailing with
      | false =>
        refine (hread _ (.inl rfl)).bind fun a _ => ?_
        simp [hmark]
      | true =>
        refine (hread _ (.inr ⟨rest, rfl⟩)).bind fun a _ => ?_
        rw [reads_mark?_bind]
        exact ih.bind fun _ _ => by simp

theorem reads_toEnd_nil (fuel : Nat) : Reads (toEnd r fuel) [] [] (· = []) := by
  cases fuel with
  | zero => simp [toEnd]
  | succ fuel => simp [toEnd]

theorem reads_toEnd_cons {fuel : Nat} {Q : List α → Prop} (hne : ts ≠ []) (h : Reads r ts mid P)
    (hrest : Reads (toEnd r fuel) mid [] Q) :
    Reads (toEnd r (fuel + 1)) ts [] fun l => ∃ a more, l = a :: more ∧ P a ∧ Q more := by
  have hne : ts.isEmpty = false := List.isEmpty_eq_false_iff.mpr hne
  simp only [toEnd, reads_finished_bind, hne, Bool.false_eq_true, if_false]
  refine h.bind fun a ha => hrest.bind fun more hmore => ?_
  exact reads_pure.mpr ⟨rfl, a, more, rfl, ha, hmore⟩

end Parser

end RecordCoding
