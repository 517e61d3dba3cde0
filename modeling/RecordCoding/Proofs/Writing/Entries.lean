/-
Writing entries one after the other into an open container.

`Encoder.putAll` writes under keys in order, up to the first failure.  What it
leaves behind is told by the entries alone:

* `putAll_eq_ok_iff` — it succeeds exactly if every write makes a tree and no
  key is met twice, and then it has added one entry for each write, in order;
* `putAll_fresh_succeeds_iff` — with distinct keys only the trees matter;
* `lookup_of_putAll_fresh` — and each key leads to the tree written under it.

Design notes: a write is a key together with the tree it makes of its path, so
that entries of described values and entries of generated code are the same
thing here (`runKeyed_eq_putAll`).
-/
import Mathlib.Data.List.Forall2
import RecordCoding.Encoder

namespace RecordCoding

/-- What a value makes of the path it is written at. -/
abbrev TreeMaker := CodingPath → Except EncodeError Tree

/-! ### Lists related element by element -/

/-- Lists that are related element by element have the same image. -/
theorem map_eq_map_of_forall₂ {α β γ : Type} {R : α → β → Prop} {as : List α} {bs : List β}
    {g : α → γ} {k : β → γ} (h : List.Forall₂ R as bs) (hR : ∀ a b, R a b → g a = k b) :
    as.map g = bs.map k := by
  induction h with
  | nil => rfl
  | cons hab _ ih => rw [List.map_cons, List.map_cons, hR _ _ hab, ih]

theorem exists_mem_of_forall₂ {α β : Type} {R : α → β → Prop} {as : List α} {bs : List β} {b : β}
    (h : List.Forall₂ R as bs) (hb : b ∈ bs) : ∃ a ∈ as, R a b := by
  induction h with
  | nil => exact absurd hb (by simp)
  | cons hab _ ih =>
    rcases List.mem_cons.mp hb with rfl | hrest
    · exact ⟨_, List.mem_cons_self .., hab⟩
    · obtain ⟨a, ha, hR⟩ := ih hrest
      exact ⟨a, List.mem_cons_of_mem _ ha, hR⟩

/-! ### Entries under distinct keys -/

/-- With distinct keys, a look-up finds every entry. -/
theorem lookup_of_mem_of_nodup {α : Type} {entries : List (String × α)} {key : String} {a : α}
    (hnodup : (entries.map (·.1)).Nodup) (hmem : (key, a) ∈ entries) :
    entries.lookup key = some a := by
  induction entries with
  | nil => exact absurd hmem (by simp)
  | cons entry rest ih =>
    obtain ⟨k, b⟩ := entry
    rw [List.map_cons, List.nodup_cons] at hnodup
    rw [List.lookup_cons]
    rcases List.mem_cons.mp hmem with heq | hrest
    · obtain ⟨rfl, rfl⟩ := Prod.mk.inj heq
      rw [beq_self_eq_true]
    · have hne : key ≠ k := by
        rintro rfl
        exact hnodup.1 (List.mem_map.mpr ⟨(key, a), hrest, rfl⟩)
      rw [beq_eq_false_iff_ne.mpr hne]
      exact ih hnodup.2 hrest

/-- Each write makes the tree of the entry at its place. -/
def Wrote (path : CodingPath) (writes : List (String × TreeMaker))
    (entries : List (String × Tree)) : Prop :=
  List.Forall₂ (fun w entry => entry.1 = w.1 ∧ w.2 (path.key w.1) = .ok entry.2) writes entries

namespace Wrote

variable {path : CodingPath} {writes : List (String × TreeMaker)} {entries : List (String × Tree)}

theorem keys_eq (h : Wrote path writes entries) : entries.map (·.1) = writes.map (·.1) :=
  (map_eq_map_of_forall₂ h fun _ _ hentry => hentry.1.symm).symm

theorem exists_entry (h : Wrote path writes entries) {w : String × TreeMaker} (hw : w ∈ writes) :
    ∃ t, w.2 (path.key w.1) = .ok t ∧ (w.1, t) ∈ entries := by
  obtain ⟨⟨key, t⟩, hmem, rfl, ht⟩ := exists_mem_of_forall₂ h.flip hw
  exact ⟨t, ht, hmem⟩

/-- Entries exist if every write makes a tree. -/
theorem exists_of_forall (path : CodingPath) {writes : List (String × TreeMaker)}
    (h : ∀ w ∈ writes, ∃ t, w.2 (path.key w.1) = .ok t) : ∃ entries, Wrote path writes entries := by
  induction writes with
  | nil => exact ⟨[], .nil⟩
  | cons w rest ih =>
    obtain ⟨t, ht⟩ := h w (List.mem_cons_self ..)
    obtain ⟨entries, hrest⟩ := ih fun v hv => h v (List.mem_cons_of_mem _ hv)
    exact ⟨(w.1, t) :: entries, .cons ⟨rfl, ht⟩ hrest⟩

end Wrote

/-! ### Writing in order -/

namespace Encoder

/-- Write under keys in order, up to the first failure. -/
def putAll (e : Encoder) : List (String × TreeMaker) → Written
  | [] => (.ok (), e)
  | (key, encode) :: rest =>
    match e.putWith key encode with
    | (.error err, e') => (.error err, e')
    | (.ok (), e') => putAll e' rest

variable {path : CodingPath} {single : Option Tree} {done : List (String × Tree)}

theorem holdsKey_iff {key : String} :
    (Encoder.mk path single (some done)).holdsKey key ↔ key ∈ done.map (·.1) := by
  simp [holdsKey, written]

/-- One write succeeds if its key is new and its value makes a tree. -/
theorem putWith_eq_ok_iff {key : String} {encode : TreeMaker} {e' : Encoder} :
    (Encoder.mk path single (some done)).putWith key encode = (.ok (), e') ↔
      key ∉ done.map (·.1) ∧
        ∃ t, encode (path.key key) = .ok t ∧ e' = ⟨path, single, some (done ++ [(key, t)])⟩ := by
  rw [putWith]
  by_cases hkey : (Encoder.mk path single (some done)).holdsKey key
  · have hmem := holdsKey_iff.mp hkey
    simp [hkey, hmem]
  · have hmem : key ∉ done.map (·.1) := fun h => hkey (holdsKey_iff.mpr h)
    rw [if_neg hkey]
    rcases hencode : encode (path.key key) with err | t
    · simp
    · simp [hmem, push, written, eq_comm]

/-- A run of writes succeeds if no key is met twice and every write makes a
tree; it adds their entries in order. -/
theorem putAll_eq_ok_iff {writes : List (String × TreeMaker)} {e' : Encoder} :
    (Encoder.mk path single (some done)).putAll writes = (.ok (), e') ↔
      (writes.map (·.1)).Nodup ∧ (∀ key ∈ writes.map (·.1), key ∉ done.map (·.1)) ∧
        ∃ entries, Wrote path writes entries ∧ e' = ⟨path, single, some (done ++ entries)⟩ := by
  -- The entries written so far grow along the run, so they are part of the induction.
  induction writes generalizing done with
  | nil =>
    rw [putAll]
    constructor
    · intro h
      obtain ⟨-, rfl⟩ := Prod.mk.inj h
      exact ⟨List.nodup_nil, by simp, [], .nil, by simp⟩
    · rintro ⟨-, -, entries, hwrote, rfl⟩
      cases hwrote
      simp
  | cons w rest ih =>
    obtain ⟨key, encode⟩ := w
    rw [putAll, List.map_cons, List.nodup_cons]
    constructor
    · intro h
      rcases hput : (Encoder.mk path single (some done)).putWith key encode with ⟨_ | _, e₁⟩
      · rw [hput] at h
        exact absurd h (by simp)
      · rw [hput] at h
        obtain ⟨hnew, t, ht, rfl⟩ := putWith_eq_ok_iff.mp hput
        obtain ⟨hnodup, hfresh, entries, hwrote, rfl⟩ := ih.mp h
        rw [List.map_append] at hfresh
        -- A later write would have met the key that was just added.
        refine ⟨⟨fun hmem => hfresh key hmem (by simp), hnodup⟩, ?_,
          (key, t) :: entries, .cons ⟨rfl, ht⟩ hwrote, by simp⟩
        intro k hk
        rcases List.mem_cons.mp hk with rfl | hk
        · exact hnew
        · exact fun hdone => hfresh k hk (List.mem_append_left _ hdone)
    · rintro ⟨⟨hkey, hnodup⟩, hfresh, entries, hwrote, rfl⟩
      cases hwrote with
      | @cons _ entry _ entries hentry hrest =>
        obtain ⟨k, t⟩ := entry
        obtain ⟨rfl, ht⟩ := hentry
        have hnew : k ∉ done.map (·.1) := hfresh k (List.mem_cons_self ..)
        rw [putWith_eq_ok_iff.mpr ⟨hnew, t, ht, rfl⟩]
        refine ih.mpr ⟨hnodup, fun l hl hdone => ?_, entries, hrest, by simp⟩
        rw [List.map_append] at hdone
        rcases List.mem_append.mp hdone with hdone | hdone
        · exact hfresh l (List.mem_cons_of_mem _ hl) hdone
        · obtain rfl : l = k := by simpa using hdone
          exact hkey hl

/-! ### A container of its own -/

/-- The object that a run of writes leaves in a fresh container. -/
theorem writtenTree_putAll_fresh {writes : List (String × TreeMaker)} {t : Tree} :
    writtenTree ((Encoder.fresh path).opened.putAll writes) = .ok t ↔
      (writes.map (·.1)).Nodup ∧ ∃ entries, Wrote path writes entries ∧ t = .object entries := by
  rw [show (Encoder.fresh path).opened = Encoder.mk path none (some []) from rfl]
  constructor
  · intro h
    rcases hrun : (Encoder.mk path none (some [])).putAll writes with ⟨_ | _, e⟩
    · rw [hrun] at h
      exact absurd h (by simp [writtenTree])
    · obtain ⟨hnodup, -, entries, hwrote, rfl⟩ := putAll_eq_ok_iff.mp hrun
      rw [hrun, writtenTree, Except.ok.injEq] at h
      exact ⟨hnodup, entries, hwrote, h.symm⟩
  · rintro ⟨hnodup, entries, hwrote, rfl⟩
    rw [putAll_eq_ok_iff.mpr ⟨hnodup, by simp, entries, hwrote, rfl⟩]
    rfl

/-- With distinct keys, writing succeeds if every write makes a tree. -/
theorem putAll_fresh_succeeds_iff {writes : List (String × TreeMaker)}
    (hnodup : (writes.map (·.1)).Nodup) :
    (∃ t, writtenTree ((Encoder.fresh path).opened.putAll writes) = .ok t) ↔
      ∀ w ∈ writes, ∃ t, w.2 (path.key w.1) = .ok t := by
  constructor
  · rintro ⟨t, h⟩ w hw
    obtain ⟨-, entries, hwrote, -⟩ := writtenTree_putAll_fresh.mp h
    obtain ⟨tree, htree, -⟩ := hwrote.exists_entry hw
    exact ⟨tree, htree⟩
  · intro h
    obtain ⟨entries, hwrote⟩ := Wrote.exists_of_forall path h
    exact ⟨.object entries, writtenTree_putAll_fresh.mpr ⟨hnodup, entries, hwrote, rfl⟩⟩

/-- Every key leads to the tree that was written under it. -/
theorem lookup_of_putAll_fresh {writes : List (String × TreeMaker)} {entries : List (String × Tree)}
    (h : writtenTree ((Encoder.fresh path).opened.putAll writes) = .ok (.object entries))
    {key : String} {encode : TreeMaker} (hmem : (key, encode) ∈ writes) :
    ∃ t, encode (path.key key) = .ok t ∧ entries.lookup key = some t := by
  obtain ⟨hnodup, written, hwrote, hobject⟩ := writtenTree_putAll_fresh.mp h
  obtain rfl := Tree.object.inj hobject
  obtain ⟨t, ht, hentry⟩ := hwrote.exists_entry hmem
  rw [← hwrote.keys_eq] at hnodup
  exact ⟨t, ht, lookup_of_mem_of_nodup hnodup hentry⟩

end Encoder

/-! ### The writes of a container as a run -/

/-- The writes of a container, none of them tolerated, are a run of writes. -/
theorem Writing.runKeyed_eq_putAll {writes : List (KeyedWriting Writing)}
    (h : ∀ w ∈ writes, w.tolerated = false) (e : Encoder) :
    Writing.runKeyed writes e = e.putAll (writes.map fun w => (w.key, w.content.treeAt)) := by
  induction writes generalizing e with
  | nil => rfl
  | cons w rest ih =>
    obtain ⟨key, tolerated, content⟩ := w
    obtain rfl : tolerated = false := h _ (List.mem_cons_self ..)
    rw [Writing.runKeyed_cons, List.map_cons, Encoder.putAll]
    rcases e.putWith key content.treeAt with ⟨_ | _, e'⟩
    · rfl
    · exact ih (fun v hv => h v (List.mem_cons_of_mem _ hv)) e'

/-- The object that a container makes, none of its writes being tolerated. -/
theorem Writing.treeAt_keyed {writes : List (KeyedWriting Writing)}
    (h : ∀ w ∈ writes, w.tolerated = false) (p : CodingPath) :
    (Writing.keyed writes).treeAt p
      = writtenTree ((Encoder.fresh p).opened.putAll
          (writes.map fun w => (w.key, w.content.treeAt))) := by
  rw [treeAt, run, runKeyed_eq_putAll h]

end RecordCoding
