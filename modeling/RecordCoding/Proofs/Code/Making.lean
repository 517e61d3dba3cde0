/-
What parsers make of spelled trees.

`Makes` says of a parser that what it makes of spelled trees has a property, and that
what it leaves is spelled too.

* `MakesFrom.bind` — a parser behind another one;
* `MakesFrom.behind` — a parser behind one of which only the trees it leaves count;
* `makes_separatedUntil`, `makes_chained`, `makes_toEnd` — lists;
* `Makes.all` — a parser that gets to the end.

Design notes: the conditions under which a parser takes a reserved word for a name are
about the trees ahead, so `MakesFrom` fixes these.
-/
import RecordCoding.Proofs.Code.Advancing
import RecordCoding.Proofs.Code.Parameters
import RecordCoding.Proofs.Code.Spelling

namespace RecordCoding

open TokenTree (SpelledList)

namespace Parser

variable {α β : Type} {r : Parser α} {f : α → Parser β} {ts : List TokenTree} {P P' : α → Prop}
  {Q : β → Prop}

/-- With some spelled trees ahead, what a parser makes has a property, and what it
leaves is spelled. -/
def MakesFrom (ts : List TokenTree) (r : Parser α) (P : α → Prop) : Prop :=
  ∀ scope stray a s', SpelledList ts → r ⟨ts, scope, stray⟩ = .ok (a, s') → SpelledList s'.rest ∧ P a

/-- What a parser makes of spelled trees has a property. -/
abbrev Makes (r : Parser α) (P : α → Prop) : Prop := ∀ ts, MakesFrom ts r P

/-! ### Steps -/

theorem Advances.makes [Advances r] (ts : List TokenTree) : MakesFrom ts r fun _ => True :=
  fun _ _ a s' hts hr => ⟨hts.suffix (suffix _ a s' hr), trivial⟩

theorem MakesFrom.imp (h : MakesFrom ts r P) (himp : ∀ a, P a → P' a) : MakesFrom ts r P' := by
  intro scope stray a s' hts hr
  obtain ⟨hrest, ha⟩ := h scope stray a s' hts hr
  exact ⟨hrest, himp a ha⟩

theorem MakesFrom.bind (h : MakesFrom ts r P) (hf : ∀ a, P a → Makes (f a) Q) :
    MakesFrom ts (r >>= f) Q := by
  intro scope stray b s' hts hb
  obtain ⟨a, t, ha, hb⟩ := exists_of_bind_run hb
  obtain ⟨hrest, hP⟩ := h scope stray a t hts ha
  exact hf a hP t.rest t.scope t.stray b s' hrest hb

/-- A first step whose result does not matter. -/
theorem MakesFrom.behind [Advances r] (hf : ∀ a, Makes (f a) Q) : MakesFrom ts (r >>= f) Q :=
  (Advances.makes ts).bind fun a _ => hf a

theorem makesFrom_ahead_bind {f : List TokenTree → Parser β} (h : MakesFrom ts (f ts) Q) :
    MakesFrom ts (ahead >>= f) Q :=
  h

theorem makesFrom_rounds_bind {f : Nat → Parser β} (h : MakesFrom ts (f (ts.length + 1)) Q) :
    MakesFrom ts (rounds >>= f) Q :=
  h

theorem makesFrom_pure {a : α} (h : P a) : MakesFrom ts (pure a : Parser α) P := by
  intro scope stray b s' hts hb
  obtain ⟨rfl, rfl⟩ := Prod.mk.inj (Except.ok.inj hb)
  exact ⟨hts, h⟩

theorem MakesFrom.map {g : α → β} (h : MakesFrom ts r fun a => Q (g a)) : MakesFrom ts (g <$> r) Q := by
  rw [map_eq_pure_bind]
  exact h.bind fun a ha _ => makesFrom_pure ha

theorem MakesFrom.ite {c : Prop} [Decidable c] {r' : Parser α} (h : c → MakesFrom ts r P)
    (h' : ¬ c → MakesFrom ts r' P) : MakesFrom ts (if c then r else r') P := by
  split
  · exact h ‹_›
  · exact h' ‹_›

theorem makes_throw (e : SyntaxError) : Makes (throw e : Parser α) P := by
  intro ts scope stray a s' hts h
  cases h

theorem fail_ne_ok {c : SyntaxCause} {s : ParseState} {result : α × ParseState} :
    (fail c : Parser α) s ≠ .ok result := by
  obtain ⟨_ | ⟨t, rest⟩, scope, stray⟩ := s <;> exact fun h => by cases h

theorem makes_fail (c : SyntaxCause) : Makes (fail c : Parser α) P :=
  fun _ _ _ _ _ _ h => absurd h fail_ne_ok

theorem makes_failAt (c : SyntaxCause) (l : Location) : Makes (failAt c l : Parser α) P :=
  makes_throw _

theorem makes_failExpected (options : List String) : Makes (failExpected options : Parser α) P :=
  makes_fail _

/-! ### Single tokens -/

/-- The name that is taken is the one ahead. -/
theorem makesFrom_identifier :
    MakesFrom ts identifier fun i => i.Legible ∧ ∃ rest, ts = .ident i :: rest := by
  intro scope stray a s' hts h
  cases ts with
  | nil => cases h
  | cons t rest =>
    cases t with
    | ident i =>
      change (if isName i then _ else _ : Parser Ident) _ = _ at h
      split at h
      · cases h
        exact ⟨hts.2, ⟨hts.1, ‹_›⟩, rest, rfl⟩
      · cases h
    | _ => cases h

theorem makes_identifier : Makes identifier Ident.Legible :=
  fun _ => makesFrom_identifier.imp fun _ hi => hi.1

/-- The word that is taken is the one ahead. -/
theorem makesFrom_word :
    MakesFrom ts word fun i => Token.IsNameText i.name ∧ ∃ rest, ts = .ident i :: rest := by
  intro scope stray a s' hts h
  cases ts with
  | nil => cases h
  | cons t rest =>
    cases t with
    | ident i =>
      cases h
      exact ⟨hts.2, hts.1, rest, rfl⟩
    | _ => cases h

theorem makes_lifetime : Makes lifetime Token.IsLifetimeText := by
  rintro (_ | ⟨t, rest⟩) scope stray a s' hts h
  · cases h
  · cases t with
    | lifetime name l =>
      cases h
      exact ⟨hts.2, hts.1⟩
    | _ => cases h

theorem makesFrom_punct?_bind {p : String} {f : Bool → Parser β}
    (h : isPunct p ts = true → Makes (f true) Q) (h' : isPunct p ts = false → MakesFrom ts (f false) Q) :
    MakesFrom ts (punct? p >>= f) Q := by
  intro scope stray b s' hts hb
  obtain ⟨found, t, ht, hb⟩ := exists_of_bind_run hb
  have hrest := hts.suffix (Advances.suffix _ _ _ ht)
  change (if isPunct p ts then _ else _ : Parser Bool) _ = _ at ht
  split at ht
  · rename_i hp
    obtain ⟨_, u, -, ht⟩ := exists_of_bind_run ht
    cases ht
    exact h hp _ _ _ b s' hrest hb
  · rename_i hp
    cases ht
    exact h' (Bool.eq_false_iff.mpr hp) scope stray b s' hts hb

/-! ### Brackets and lists -/

theorem makes_inside {d : Delimiter} (h : Makes r P) : Makes (inside d r) P := by
  rintro (_ | ⟨t, rest⟩) scope stray a s' hts ha
  · cases ha
  · cases t with
    | group e inner opening closing =>
      change (if d = e then _ else _ : Parser α) _ = _ at ha
      split at ha
      · obtain ⟨⟨a, t⟩, u, hu, ha⟩ := exists_of_bind_run ha
        change Except.bind (r ⟨inner, closing, stray⟩) _ = _ at hu
        rcases hr : r ⟨inner, closing, stray⟩ with e | ⟨b, v⟩
        · rw [hr] at hu
          cases hu
        · rw [hr] at hu
          cases hu
          cases ha
          exact ⟨hts.2, (h inner closing stray _ _ hts.1 hr).2⟩
      · cases ha
    | _ => cases ha

theorem makes_separatedUntil (stop : List TokenTree → Bool) (separator : String) (h : Makes r P)
    (fuel : Nat) : Makes (separatedUntil stop separator r fuel) fun l => ∀ a ∈ l.1, P a := by
  induction fuel with
  | zero => exact fun ts => makesFrom_pure (by simp)
  | succ fuel ih =>
    intro ts
    rw [separatedUntil]
    refine makesFrom_ahead_bind (.ite (fun _ => makesFrom_pure (by simp)) fun _ => ?_)
    refine (h ts).bind fun a ha ts => makesFrom_ahead_bind (.ite (fun _ => ?_) fun _ => ?_)
    · exact makesFrom_pure (by simpa using ha)
    · refine .behind fun _ ts => (ih ts).bind fun l hl ts => ?_
      exact makesFrom_pure (List.forall_mem_cons.mpr ⟨ha, hl⟩)

theorem makes_chained (stop : List TokenTree → Bool) (separator : String) (h : Makes r P)
    (fuel : Nat) : Makes (chained stop separator r fuel) fun l => ∀ a ∈ l.1, P a := by
  induction fuel with
  | zero => exact fun ts => makesFrom_pure (by simp)
  | succ fuel ih =>
    intro ts
    rw [chained]
    refine makesFrom_ahead_bind (.ite (fun _ => makesFrom_pure (by simp)) fun _ => ?_)
    refine (h ts).bind fun a ha ts => .behind fun _ ts =>
      .ite (fun _ => ?_) fun _ => ?_
    · refine (ih ts).bind fun l hl ts => ?_
      exact makesFrom_pure (List.forall_mem_cons.mpr ⟨ha, hl⟩)
    · exact makesFrom_pure (by simpa using ha)

theorem makes_terminated (h : Makes r P) : Makes (terminated r) fun l => ∀ a ∈ l.1, P a := by
  intro ts
  rw [terminated]
  exact makesFrom_ahead_bind (makes_separatedUntil _ _ h _ ts)

theorem makes_toEnd (h : Makes r P) (fuel : Nat) : Makes (toEnd r fuel) fun l => ∀ a ∈ l, P a := by
  induction fuel with
  | zero => exact fun ts => makesFrom_pure (by simp)
  | succ fuel ih =>
    intro ts
    rw [toEnd]
    refine .behind fun _ ts => .ite (fun _ => makesFrom_pure (by simp)) fun _ => ?_
    refine (h ts).bind fun a ha ts => (ih ts).bind fun l hl ts => ?_
    exact makesFrom_pure (List.forall_mem_cons.mpr ⟨ha, hl⟩)

/-- A parser that gets to the end makes of spelled trees what it makes. -/
theorem Makes.all (h : Makes r P) {scope : Location} {a : α} (hts : SpelledList ts)
    (ha : r.all scope ts = .ok a) : P a := by
  rw [Parser.all] at ha
  rcases hr : r ⟨ts, scope, none⟩ with e | ⟨b, s⟩
  · rw [hr] at ha
    cases ha
  · rw [hr] at ha
    simp only at ha
    split at ha
    · cases ha
    · cases ha
      exact (h ts scope none _ _ hts hr).2

end Parser

end RecordCoding
