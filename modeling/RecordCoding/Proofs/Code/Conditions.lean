/-
Reading plain parameters and conditions back.

A bound is plain if it is a lifetime or a path without arguments, and so are the
parameters and conditions that have no other bounds.  What was read as one of these is
read again where members copy it to.

* `GenericParam.readsParameter` — a parameter behind `impl`;
* `Generics.takes_whereClause?` — the conditions in front of a body.

Design notes: a bound ends with a mark in a list of parameters, and with the body in the
last condition.  `EndsBound` covers both.
-/
import RecordCoding.Proofs.Code.MakingTerms

namespace RecordCoding

open Token (treesOf)

/-- Whether a bound is a lifetime or a path without arguments. -/
def Bound.isPlain : Bound → Bool
  | .lifetime _ => true
  | .trait false none _ p => p.bare && !p.opensNoType
  | _ => false

/-- Whether a type is a path without arguments. -/
def Ty.isPlain : Ty → Bool
  | .path p => p.bare
  | _ => false

/-- Whether a parameter has plain bounds and no attributes. -/
def GenericParam.isPlain : GenericParam → Bool
  | .lifetime as _ _ _ => as.isEmpty
  | .type as _ bounds _ _ => as.isEmpty && bounds.all Bound.isPlain
  | .constant as _ t _ => as.isEmpty && t.isPlain

/-- Whether a condition is about lifetimes, or about a path with plain bounds. -/
def Predicate.isPlain : Predicate → Bool
  | .lifetime _ _ _ => true
  | .type none subject bounds _ => subject.isPlain && bounds.all Bound.isPlain
  | .type (some _) _ _ _ => false

namespace Parser

variable {k : Nat} {p rest ts : List TokenTree}

/-! ### Bounds -/

/-- Trees that can be read at the place of a bound. -/
structure ReadsBound (k : Nat) (p : List TokenTree) : Prop where
  opens : ∀ c ∈ boundMarks, ∀ ts, isPunct (String.singleton c) (p ++ ts) = false
  continues : ∀ ts, endsPredicates (p ++ ts) = false
  takes : ∀ rest, EndsBound rest → Takes ((Inner.ofDepth (k + 1)).bound false true) (p ++ rest) rest

theorem ReadsBound.readsBefore (h : ReadsBound k p) :
    ReadsBefore ((Inner.ofDepth (k + 1)).bound false true) boundMarks p :=
  ⟨h.opens, fun _ hc _ => h.takes _ (endsBound_mark hc)⟩

theorem readsBound_lifetime {w : String} {l : Location} : ReadsBound k [.lifetime w l] := by
  refine ⟨fun c hc ts => isPunct_lifetime (by simp), fun ts => rfl, fun rest _ => ?_⟩
  show Takes (Parser.bound (Inner.ofDepth k) false true) _ _
  rw [Parser.bound]
  refine reads_ahead_bind.mpr (Reads.here_bind fun l => ?_)
  simp [isLifetime]

/-- What opens a path is not the end of the conditions. -/
theorem IsTypePath.endsPredicates (h : IsTypePath k p) : endsPredicates (p ++ ts) = false := by
  have hopens := h.opens [] rfl
  rw [List.append_nil] at hopens
  cases hopens with
  | colons us => rfl
  | word hi hus => rfl

theorem IsTypePath.readsBound (relaxed : Bool) (h : IsTypePath k p) :
    ReadsBound k ((if relaxed then [mark '?'] else []) ++ p) := by
  have hcolon : ∀ c ∈ boundMarks, c ≠ ':' := by simp [boundMarks]
  refine ⟨fun c hc ts => ?_, fun ts => ?_, fun rest hrest => ?_⟩
  · cases relaxed with
    | false => exact h.isPunct_eq_false (hcolon c hc)
    | true =>
      have hquestion : c ≠ '?' := by
        rintro rfl
        exact absurd hc (by decide)
      exact isPunct_of_ne (by simp) hquestion
  · cases relaxed with
    | false => exact h.endsPredicates
    | true => rfl
  · rw [List.append_assoc]
    exact h.takes_bound relaxed hrest

/-- A plain bound that was read is read again. -/
theorem readsBound_of_isPlain {b : Bound} (hb : b.Spelled) (hplain : b.isPlain = true) :
    ReadsBound k (treesOf b.tokens) := by
  match b with
  | .lifetime name =>
    rw [Bound.tokens, Token.treesOf_singleton, Token.trees, Token.wordTrees_of_isLifetimeText hb]
    exact readsBound_lifetime
  | .trait false none relaxed p =>
    obtain ⟨hbare, hopens⟩ := Bool.and_eq_true_iff.mp hplain
    have hpath := ((hb.plain hbare).readable 0).isTypePath (by simpa using hopens) (Nat.zero_le k)
    have htrees : treesOf (Bound.trait false none relaxed p).tokens
        = (if relaxed then [mark '?'] else []) ++ treesOf p.tokens := by
      rw [Bound.tokens]
      cases relaxed <;> rfl
    rw [htrees]
    exact hpath.readsBound relaxed

/-! ### Conditions -/

theorem endsBound_behind {body ts : List TokenTree} (h : Behind ',' (braced body ts) rest) :
    EndsBound rest := by
  rcases h with rfl | ⟨more, rfl⟩
  · exact ⟨⟨rfl, rfl⟩, rfl, rfl⟩
  · exact endsBound_mark (by decide)

theorem endsPredicates_behind {body ts : List TokenTree} (h : Behind ',' (braced body ts) rest) :
    endsPredicates rest = true ∧ isPunct "+" rest = false := by
  rcases h with rfl | ⟨more, rfl⟩ <;> exact ⟨rfl, rfl⟩

variable {body us : List TokenTree}

/-- A lifetime with those that it outlives. -/
theorem takes_predicate_lifetime {name : String} {outlives : List String} {trailing : Bool}
    {inner : Inner} (hname : Token.IsLifetimeText name) (houtlives : ∀ l ∈ outlives, Token.IsLifetimeText l)
    (hrest : Behind ',' (braced body us) rest) :
    Takes (predicate inner) (treesOf (Predicate.lifetime name outlives trailing).tokens ++ rest)
      rest := by
  obtain ⟨hends, hplus⟩ := endsPredicates_behind hrest
  have hpieces : Pieces '+' (fun ts => endsPredicates ts || isPunct ":" ts) lifetime
      (outlives.map fun l => [.lifetime l .start]) rest := by
    refine ⟨by rw [hends, Bool.true_or], fun p hp ts => ?_, fun p hp ts _ => ?_⟩
    all_goals obtain ⟨l, hl, rfl⟩ := List.mem_map.mp hp
    · rfl
    · exact reads_lifetime.mpr ⟨rfl, trivial⟩
  have hlist := reads_chained trailing hpieces hplus (hpieces.length_lt trailing)
  have htrees : treesOf (Predicate.lifetime name outlives trailing).tokens
      = .lifetime name .start :: mark ':' ::
        marked '+' trailing (outlives.map fun l => [.lifetime l .start]) := by
    rw [Predicate.tokens, Token.treesOf_append, treesOf_outlivesTokens houtlives, Token.treesOf,
      Token.trees, Token.wordTrees_of_isLifetimeText hname]
    rfl
  have hlifetime : ∀ ts, (isLifetime (.lifetime name .start :: mark ':' :: ts)
      && isPunct ":" ((.lifetime name .start :: mark ':' :: ts).drop 1)) = true := fun _ => rfl
  have hcolon : ∀ ts, isPunct ":" (mark ':' :: ts) = true := fun _ => rfl
  have hdrop : ∀ ts, (mark ':' :: ts).drop ":".toList.length = ts := fun _ => rfl
  rw [htrees]
  simp only [predicate, List.cons_append, reads_ahead_bind, hlifetime, if_true, reads_lifetime_bind,
    reads_punct_bind (hcolon _), hdrop, reads_rounds_bind]
  exact hlist.bind fun _ _ => by simp

/-- A path with its bounds. -/
theorem takes_predicate_type {q : Path} {bounds : List Bound} {trailing : Bool}
    (hq : IsTypePath k (treesOf q.tokens)) (hbounds : ∀ b ∈ bounds, ReadsBound k (treesOf b.tokens))
    (hrest : Behind ',' (braced body us) rest) :
    Takes (predicate (Inner.ofDepth (k + 1)))
      (treesOf (Predicate.type none (.path q) bounds trailing).tokens ++ rest) rest := by
  obtain ⟨hends, hplus⟩ := endsPredicates_behind hrest
  have hpieces : Pieces '+' endsPredicates ((Inner.ofDepth (k + 1)).bound false true)
      (bounds.map fun b => treesOf b.tokens) rest := by
    refine ⟨hends, fun p hp ts => ?_, fun p hp ts hts => ?_⟩
    all_goals obtain ⟨b, hb, rfl⟩ := List.mem_map.mp hp
    · exact (hbounds b hb).continues ts
    · refine (hbounds b hb).takes ts ?_
      rcases hts with rfl | ⟨more, rfl⟩
      · exact endsBound_behind hrest
      · exact endsBound_mark (by decide)
  have hlist := reads_chained trailing hpieces hplus (hpieces.length_lt trailing)
  have htrees : treesOf (Predicate.type none (.path q) bounds trailing).tokens
      = treesOf q.tokens ++ mark ':' :: marked '+' trailing (bounds.map fun b => treesOf b.tokens) := by
    rw [Predicate.tokens, Binder.tokensOfOption, Ty.tokens, List.nil_append, Token.treesOf_append,
      Token.treesOf, treesOf_bounds]
    rfl
  have hopens := hq.opens
    (mark ':' :: (marked '+' trailing (bounds.map fun b => treesOf b.tokens) ++ rest)) rfl
  have hfor : isKeyword "for" _ = false := hopens.isKeyword_eq_false (by decide) (by decide)
  have hcolon : ∀ ts, isPunct ":" (mark ':' :: ts) = true := fun _ => rfl
  have hdrop : ∀ ts, (mark ':' :: ts).drop ":".toList.length = ts := fun _ => rfl
  rw [htrees, List.append_assoc, List.cons_append]
  simp only [predicate, reads_ahead_bind, hopens.not_constant.1, Bool.false_and, Bool.false_eq_true,
    if_false, binder?, bind_assoc, reads_keyword?_bind, hfor, pure_bind]
  refine Reads.bind (reads_ty_of_path hopens (hq.takes _ ⟨rfl, rfl⟩) rfl rfl) fun t _ => ?_
  simp only [reads_punct_bind (hcolon _), hdrop, boundList, bind_assoc, reads_rounds_bind]
  exact hlist.bind fun _ _ => by simp

theorem readsAttributes_nil {inner : Inner} : ReadsAttributes inner [] := by
  refine ⟨fun hne => absurd rfl hne, fun ts hts => ?_⟩
  rw [Takes, ← bind_pure (attributesCode _)]
  exact (reads_attributesCode_bind hts).mpr (by simp)

/-- A path that is a type of its own, as that of a constant is. -/
theorem IsTypePath.ty (h : IsTypePath k p) :
    ReadsBefore ((Inner.ofDepth (k + 1)).ty true) angleMarks p := by
  have hcolon : ∀ c ∈ angleMarks, c ≠ ':' := by simp [angleMarks]
  have hmarks : ∀ c ∈ angleMarks, c ∈ [',', ';', '>', '='] := by simp [angleMarks]
  exact ⟨fun c hc ts => h.isPunct_eq_false (hcolon c hc),
    fun c hc ts => (h.reads_ty (.mark (hmarks c hc) ts)).takes⟩

end Parser

open RecordCoding.Parser

variable {k : Nat}

/-- A plain type that was read is a path. -/
theorem Ty.Spelled.exists_isTypePath {t : Ty} (h : t.Spelled) (hplain : t.isPlain = true) :
    ∃ q, t = .path q ∧ IsTypePath k (treesOf q.tokens) := by
  cases t with
  | path q =>
    obtain ⟨hq, hopens⟩ := h.path q rfl
    exact ⟨q, rfl, ((hq.plain hplain).readable 0).isTypePath hopens (Nat.zero_le k)⟩
  | _ => exact absurd hplain Bool.false_ne_true

/-- A plain parameter that was read, and has a name, is read again behind `impl`. -/
theorem GenericParam.Spelled.readsParameter {p : GenericParam} (h : p.Spelled)
    (hplain : p.isPlain = true) (hblank : p.isBlank = false) : ReadsParameter (Inner.ofDepth (k + 1)) p := by
  cases p with
  | lifetime as name outlives trailing =>
    obtain rfl := List.isEmpty_iff.mp hplain
    exact ⟨readsAttributes_nil, h⟩
  | type as name bounds trailing fallback =>
    obtain ⟨has, hbounds⟩ := Bool.and_eq_true_iff.mp hplain
    obtain rfl := List.isEmpty_iff.mp has
    obtain ⟨hname, hspelled⟩ := h
    have hlegible : name.Legible :=
      ⟨hname.text, hname.name.resolve_right (Bool.eq_false_iff.mp hblank)⟩
    exact ⟨readsAttributes_nil, hlegible, fun b hb =>
      (readsBound_of_isPlain (hspelled b hb) (List.all_eq_true.mp hbounds b hb)).readsBefore⟩
  | constant as name t fallback =>
    obtain ⟨has, ht⟩ := Bool.and_eq_true_iff.mp hplain
    obtain rfl := List.isEmpty_iff.mp has
    obtain ⟨q, rfl, hq⟩ := h.2.exists_isTypePath ht
    exact ⟨readsAttributes_nil, h.1, hq.ty⟩

/-- A plain condition that was read is read again. -/
theorem Predicate.Spelled.takes {p : Predicate} (h : p.Spelled) (hplain : p.isPlain = true)
    {body us rest : List TokenTree} (hrest : Behind ',' (braced body us) rest) :
    Takes (predicate (Inner.ofDepth (k + 1))) (treesOf p.tokens ++ rest) rest := by
  match p with
  | .lifetime name outlives trailing => exact takes_predicate_lifetime h.1 h.2 hrest
  | .type none subject bounds trailing =>
    obtain ⟨hsubject, hbounds⟩ := Bool.and_eq_true_iff.mp hplain
    obtain ⟨q, rfl, hq⟩ := h.1.exists_isTypePath hsubject
    exact takes_predicate_type hq (fun b hb =>
      readsBound_of_isPlain (h.2 b hb) (List.all_eq_true.mp hbounds b hb)) hrest
  | .type (some binder) subject bounds trailing => exact absurd hplain Bool.false_ne_true

/-- A plain condition does not open with what ends the conditions. -/
theorem Predicate.Spelled.endsPredicates {p : Predicate} (h : p.Spelled) (hplain : p.isPlain = true)
    (ts : List TokenTree) : endsPredicates (treesOf p.tokens ++ ts) = false := by
  match p with
  | .lifetime name outlives trailing =>
    rw [Predicate.tokens, Token.treesOf_append, Token.treesOf, Token.trees,
      Token.wordTrees_of_isLifetimeText h.1]
    rfl
  | .type none subject bounds trailing =>
    obtain ⟨hsubject, -⟩ := Bool.and_eq_true_iff.mp hplain
    obtain ⟨q, rfl, hq⟩ := h.1.exists_isTypePath (k := 0) hsubject
    rw [Predicate.tokens, Binder.tokensOfOption, Ty.tokens, List.nil_append, Token.treesOf_append,
      List.append_assoc]
    exact hq.endsPredicates
  | .type (some binder) subject bounds trailing => exact absurd hplain Bool.false_ne_true

theorem treesOf_predicates (trailing : Bool) (predicates : List Predicate) :
    treesOf (Token.separated (.word ",") trailing (Predicate.tokensOfList predicates))
      = marked ',' trailing (predicates.map fun p => treesOf p.tokens) := by
  refine (Token.treesOf_separated (c := ',') rfl trailing _).trans ?_
  congr 1
  induction predicates with
  | nil => rfl
  | cons p more ih => rw [Predicate.tokensOfList, List.map_cons, List.map_cons, ih]

/-- Plain conditions that were read are read again in front of a body. -/
theorem Generics.takes_whereClause? {g : Generics} (h : ∀ p ∈ g.predicates, p.Spelled)
    (hplain : ∀ p ∈ g.predicates, p.isPlain = true) (body ts : List TokenTree) :
    Takes (Parser.whereClause? (Inner.ofDepth (k + 1))) (treesOf g.whereTokens ++ braced body ts)
      (braced body ts) := by
  have hpieces : Pieces ',' endsPredicates (predicate (Inner.ofDepth (k + 1)))
      (g.predicates.map fun p => treesOf p.tokens) (braced body ts) := by
    refine ⟨rfl, fun q hq us => ?_, fun q hq us hus => ?_⟩
    all_goals obtain ⟨p, hp, rfl⟩ := List.mem_map.mp hq
    · exact (h p hp).endsPredicates (hplain p hp) us
    · exact (h p hp).takes (hplain p hp) hus
  have hlist := reads_chained g.predicatesTrailing hpieces rfl (hpieces.length_lt g.predicatesTrailing)
  rw [whereTokens, conditions, Code.tokens]
  split
  · -- Without conditions the word in front of them is not printed either.
    have hwhere : isKeyword "where" (braced body ts) = false := rfl
    simp [Token.treesOf, Parser.whereClause?, hwhere]
  · have hword : (Token.word "where").trees = [.ident (.plain "where")] := rfl
    have hwhere : ∀ us, isKeyword "where" (.ident (.plain "where") :: us) = true := fun _ => rfl
    simp only [Token.treesOf, hword, treesOf_predicates, List.cons_append, List.nil_append,
      Parser.whereClause?, reads_keyword?_bind, hwhere, if_true, List.drop_succ_cons, List.drop_zero,
      reads_rounds_bind]
    exact hlist.bind fun _ _ => by simp

end RecordCoding
