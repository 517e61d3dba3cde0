/-
Trees read from any self-describing source.

`Part` says that a source stands somewhere in another, `Fault` what is wrong with one
by itself, and `offences` lists all that is wrong anywhere, in the order of reading:
what is in an entry of a map comes before the key of the entry.

* `mem_offences_iff` — the list holds the faults of all parts and nothing else;
* `toTree_eq` — a source is read as its image, or fails with its first offence;
* `mirrors_iff` — the image is the only tree that mirrors a readable source;
* `toTree_outcome` — which sources can be read, as what, and how the others fail.
-/
import Mathlib.Data.List.Induction
import RecordCoding.Visit
import RecordCoding.Proofs.Faults
import RecordCoding.Proofs.Tree.UniqueKeys

namespace RecordCoding

namespace Source

variable {s n content : Source} {items : List Source} {entries : List (String × Source)}
  {err : SourceError}

/-! ### Parts of a source -/

/-- `Part n s`: the source `n` stands in `s` at some depth, or is `s` itself. -/
inductive Part : Source → Source → Prop
  | refl (s : Source) : Part s s
  | present {n s : Source} (h : Part n s) : Part n (.present s)
  | item {n s : Source} {items : List Source} (hitem : s ∈ items) (h : Part n s) :
      Part n (.sequence items)
  | entry {n : Source} {entry : String × Source} {entries : List (String × Source)}
      (hentry : entry ∈ entries) (h : Part n entry.2) : Part n (.map entries)

theorem part_present_iff : Part n (.present content) ↔ n = .present content ∨ Part n content := by
  constructor
  · intro h
    cases h with
    | refl => exact .inl rfl
    | present h => exact .inr h
  · rintro (rfl | h)
    · exact .refl _
    · exact .present h

theorem part_sequence_iff :
    Part n (.sequence items) ↔ n = .sequence items ∨ ∃ s ∈ items, Part n s := by
  constructor
  · intro h
    cases h with
    | refl => exact .inl rfl
    | item hitem h => exact .inr ⟨_, hitem, h⟩
  · rintro (rfl | ⟨s, hitem, h⟩)
    · exact .refl _
    · exact .item hitem h

theorem part_map_iff :
    Part n (.map entries) ↔ n = .map entries ∨ ∃ entry ∈ entries, Part n entry.2 := by
  constructor
  · intro h
    cases h with
    | refl => exact .inl rfl
    | entry hentry h => exact .inr ⟨_, hentry, h⟩
  · rintro (rfl | ⟨entry, hentry, h⟩)
    · exact .refl _
    · exact .entry hentry h

/-- Whether nothing else can stand in a source. -/
def isLeaf : Source → Bool
  | .present _ | .sequence _ | .map _ => false
  | _ => true

theorem part_of_isLeaf (h : s.isLeaf) : Part n s ↔ n = s := by
  constructor
  · intro hpart
    cases hpart with
    | refl => rfl
    | present | item | entry => exact absurd h (by simp [isLeaf])
  · rintro rfl
    exact .refl n

/-! ### What can be wrong -/

/-- What no tree holds, as an error calls it. -/
def unsupported? : Source → Option String
  | .bytes => some "byte array"
  | .wideSigned n => some s!"integer `{n}` as i128"
  | .wideUnsigned n => some s!"integer `{n}` as u128"
  | .newtype => some "newtype struct"
  | .enumeration => some "enum"
  | _ => none

/-- What is wrong with a source by itself, whatever stands in it. -/
inductive Fault : Source → SourceError → Prop
  | tooLarge {n : UInt64} (h : Nat.pow 2 63 ≤ n.toNat) : Fault (.unsigned n) (.integerTooLarge n.toNat)
  | unsupported {s : Source} {description : String} (h : s.unsupported? = some description) :
      Fault s (.unsupported description)
  | repeated {before after : List (String × Source)} {key : String} {s : Source}
      (hkey : key ∈ before.map (·.1)) : Fault (.map (before ++ (key, s) :: after)) (.duplicateKey key)

theorem not_fault_present : ¬ Fault (.present content) err := by
  intro h
  cases h with
  | unsupported h => exact absurd h (by simp [unsupported?])

theorem not_fault_sequence : ¬ Fault (.sequence items) err := by
  intro h
  cases h with
  | unsupported h => exact absurd h (by simp [unsupported?])

theorem fault_unsigned_iff {n : UInt64} :
    Fault (.unsigned n) err ↔ Nat.pow 2 63 ≤ n.toNat ∧ err = .integerTooLarge n.toNat := by
  constructor
  · intro h
    cases h with
    | tooLarge hlarge => exact ⟨hlarge, rfl⟩
    | unsupported h => exact absurd h (by simp [unsupported?])
  · rintro ⟨hlarge, rfl⟩
    exact .tooLarge hlarge

theorem fault_map_iff :
    Fault (.map entries) err ↔ ∃ before key s after, entries = before ++ (key, s) :: after ∧
      key ∈ before.map (·.1) ∧ err = .duplicateKey key := by
  constructor
  · intro h
    cases h with
    | unsupported h => exact absurd h (by simp [unsupported?])
    | repeated hkey => exact ⟨_, _, _, _, rfl, hkey, rfl⟩
  · rintro ⟨before, key, s, after, rfl, hkey, rfl⟩
    exact .repeated hkey

/-- A source that a tree can be read from. -/
structure Readable (s : Source) : Prop where
  small : ∀ n, Part (.unsigned n) s → n.toNat < Nat.pow 2 63
  supported : ∀ n, Part n s → n.unsupported? = none
  distinct : ∀ entries, Part (.map entries) s → (entries.map (·.1)).Nodup

theorem nodup_keys_iff :
    (entries.map (·.1)).Nodup ↔ ∀ err, ¬ Fault (.map entries) err := by
  constructor
  · intro hnodup err h
    obtain ⟨before, key, s, after, rfl, hkey, -⟩ := fault_map_iff.mp h
    rw [List.map_append, List.map_cons, List.nodup_middle, List.nodup_cons] at hnodup
    exact hnodup.1 (List.mem_append_left _ hkey)
  · intro h
    -- The last entry repeats no key, and those before it are a map without a fault.
    induction entries using List.reverseRecOn with
    | nil => exact List.nodup_nil
    | append_singleton before entry ih =>
      obtain ⟨key, s⟩ := entry
      rw [List.map_append, List.map_singleton, List.nodup_append_comm, List.singleton_append,
        List.nodup_cons]
      refine ⟨fun hkey => h _ (.repeated hkey), ih fun err herr => h err ?_⟩
      obtain ⟨first, k, v, after, rfl, hk, rfl⟩ := fault_map_iff.mp herr
      rw [List.append_assoc]
      exact .repeated hk

/-- A source is readable if no part has a fault. -/
theorem readable_iff : s.Readable ↔ ∀ n err, Part n s → ¬ Fault n err := by
  constructor
  · rintro h n err hpart (hlarge | hunsupported | hkey)
    · exact absurd (h.small _ hpart) (Nat.not_lt.mpr hlarge)
    · exact absurd hunsupported (by simp [h.supported _ hpart])
    · exact nodup_keys_iff.mp (h.distinct _ hpart) _ (.repeated hkey)
  · intro h
    refine ⟨fun n hpart => ?_, fun n hpart => ?_, fun entries hpart => ?_⟩
    · exact Nat.lt_of_not_le fun hlarge => h _ _ hpart (.tooLarge hlarge)
    · exact Option.eq_none_iff_forall_not_mem.mpr fun d hd => h _ _ hpart (.unsupported hd)
    · exact nodup_keys_iff.mpr fun err => h _ err hpart

/-! ### All that is wrong, in the order of reading -/

mutual

/-- All that is wrong in a source. -/
def offences : Source → List SourceError
  | .unsigned n => if n.toNat < Nat.pow 2 63 then [] else [.integerTooLarge n.toNat]
  | .present content => content.offences
  | .sequence items => offencesOfItems items
  | .map entries => offencesOfEntries [] entries
  -- Nothing else can be wrong with a source in which nothing stands.
  | s => s.unsupported?.toList.map .unsupported

/-- All that is wrong in the elements of a sequence. -/
def offencesOfItems : List Source → List SourceError
  | [] => []
  | s :: rest => s.offences ++ offencesOfItems rest

/-- All that is wrong in entries that stand behind others with the given keys. -/
def offencesOfEntries (earlier : List String) : List (String × Source) → List SourceError
  | [] => []
  -- A key counts where it repeats one, behind what stands under it.
  | (key, s) :: rest =>
    s.offences ++ (if key ∈ earlier then [.duplicateKey key] else [])
      ++ offencesOfEntries (earlier ++ [key]) rest

end

theorem mem_offences_of_isLeaf (h : s.isLeaf) :
    err ∈ s.offences ↔ ∃ n, Part n s ∧ Fault n err := by
  simp only [part_of_isLeaf h, exists_eq_left]
  cases s with
  | present | sequence | map => exact absurd h (by simp [isLeaf])
  | unsigned n =>
    rw [fault_unsigned_iff, offences]
    by_cases hsmall : n.toNat < Nat.pow 2 63
    · rw [if_pos hsmall]
      exact iff_of_false List.not_mem_nil fun h => absurd hsmall (Nat.not_lt.mpr h.1)
    · rw [if_neg hsmall, List.mem_singleton]
      exact (and_iff_right (Nat.le_of_not_lt hsmall)).symm
  | _ =>
    simp only [offences, List.mem_map, Option.mem_toList]
    constructor
    · rintro ⟨d, hd, rfl⟩
      exact .unsupported hd
    · intro hfault
      cases hfault with
      | unsupported hd => exact ⟨_, hd, rfl⟩

/-- A key that repeats one among others or one before it in its map. -/
theorem repeats_cons_iff {earlier : List String} {key : String} {rest : List (String × Source)} :
    (∃ before k v after, (key, s) :: rest = before ++ (k, v) :: after ∧
        k ∈ earlier ++ before.map (·.1) ∧ err = .duplicateKey k) ↔
      (key ∈ earlier ∧ err = .duplicateKey key) ∨
      ∃ before k v after, rest = before ++ (k, v) :: after ∧
        k ∈ earlier ++ [key] ++ before.map (·.1) ∧ err = .duplicateKey k := by
  constructor
  · rintro ⟨_ | ⟨entry, before⟩, k, v, after, heq, hk, rfl⟩
    · obtain ⟨⟨⟩, -⟩ := List.cons.inj heq
      exact .inl ⟨by simpa using hk, rfl⟩
    · obtain ⟨rfl, rfl⟩ := List.cons.inj heq
      exact .inr ⟨before, k, v, after, rfl, by simpa using hk, rfl⟩
  · rintro (⟨hkey, rfl⟩ | ⟨before, k, v, after, rfl, hk, rfl⟩)
    · exact ⟨[], key, s, rest, rfl, by simpa using hkey, rfl⟩
    · exact ⟨(key, s) :: before, k, v, after, rfl, by simpa using hk, rfl⟩

mutual

/-- The offences are the faults of all parts. -/
theorem mem_offences_iff (err : SourceError) : ∀ s : Source,
    err ∈ s.offences ↔ ∃ n, Part n s ∧ Fault n err
  | .present content => by
    simp only [offences, mem_offences_iff err content, part_present_iff, or_and_right, exists_or,
      exists_eq_left, not_fault_present, false_or]
  | .sequence items => by
    simp only [offences, mem_offencesOfItems_iff err items, part_sequence_iff, or_and_right,
      exists_or, exists_eq_left, not_fault_sequence, false_or]
  | .map entries => by
    simp only [offences, mem_offencesOfEntries_iff err [] entries, part_map_iff, or_and_right,
      exists_or, exists_eq_left, fault_map_iff, List.nil_append]
  | .bool _ | .signed _ | .unsigned _ | .double _ | .single _ | .char _ | .text _ | .unit | .absent
  | .bytes | .wideSigned _ | .wideUnsigned _ | .newtype | .enumeration => by
    exact mem_offences_of_isLeaf rfl

theorem mem_offencesOfItems_iff (err : SourceError) : ∀ items : List Source,
    err ∈ offencesOfItems items ↔ ∃ n, (∃ s ∈ items, Part n s) ∧ Fault n err
  | [] => by simp [offencesOfItems]
  | s :: rest => by
    rw [offencesOfItems, List.mem_append, mem_offences_iff err s, mem_offencesOfItems_iff err rest]
    simp only [List.exists_mem_cons_iff, or_and_right, exists_or]

/-- In entries behind others, a key also counts if it stands among the others. -/
theorem mem_offencesOfEntries_iff (err : SourceError) (earlier : List String) :
    ∀ entries : List (String × Source), err ∈ offencesOfEntries earlier entries ↔
      (∃ before key s after, entries = before ++ (key, s) :: after ∧
        key ∈ earlier ++ before.map (·.1) ∧ err = .duplicateKey key) ∨
      ∃ n, (∃ entry ∈ entries, Part n entry.2) ∧ Fault n err
  | [] => by simp [offencesOfEntries]
  | (key, s) :: rest => by
    rw [offencesOfEntries, List.mem_append, List.mem_append, mem_offences_iff err s,
      mem_offencesOfEntries_iff err (earlier ++ [key]) rest, repeats_cons_iff]
    have hkey : err ∈ (if key ∈ earlier then [SourceError.duplicateKey key] else [])
        ↔ key ∈ earlier ∧ err = .duplicateKey key := by
      by_cases h : key ∈ earlier <;> simp [h]
    simp only [hkey, List.exists_mem_cons_iff, or_and_right, exists_or]
    -- The same four cases on both sides, told by entry here and by kind of fault there.
    rw [or_assoc, or_left_comm, or_assoc, or_left_comm (a := ∃ n, Part n s ∧ Fault n err)]

end

theorem offences_eq_nil_iff : s.offences = [] ↔ s.Readable := by
  rw [List.eq_nil_iff_forall_not_mem, readable_iff]
  simp only [mem_offences_iff, not_exists, not_and]
  exact forall_comm

/-! ### What a source is read as -/

mutual

/-- The tree of a source, whatever is wrong in it. -/
def image : Source → Tree
  | .bool b => .bool b
  | .signed n => .integer n
  | .unsigned n => .integer (Int64.ofNat n.toNat)
  | .double x => .double x
  | .single x => .double x.toDouble
  | .char c => .text (String.singleton c)
  | .text s => .text s
  | .present content => content.image
  | .sequence items => .array (imagesOfItems items)
  | .map entries => .object (imagesOfEntries entries)
  -- For `unit` and `absent`; what is not supported is never read.
  | _ => .null

/-- The trees of the elements of a sequence. -/
def imagesOfItems : List Source → List Tree
  | [] => []
  | s :: rest => s.image :: imagesOfItems rest

/-- The trees of the entries of a map, under their keys. -/
def imagesOfEntries : List (String × Source) → List (String × Tree)
  | [] => []
  | (key, s) :: rest => (key, s.image) :: imagesOfEntries rest

end

theorem imagesOfItems_eq_map : ∀ items : List Source, imagesOfItems items = items.map image
  | [] => rfl
  | s :: rest => congrArg (s.image :: ·) (imagesOfItems_eq_map rest)

theorem imagesOfEntries_eq_map : ∀ entries : List (String × Source),
    imagesOfEntries entries = entries.map fun entry => (entry.1, entry.2.image)
  | [] => rfl
  | (key, s) :: rest => congrArg ((key, s.image) :: ·) (imagesOfEntries_eq_map rest)

mutual

/-- A source is read as its image, unless something is wrong in it. -/
theorem toTree_eq : ∀ s : Source, s.toTree = unlessFaults s.offences s.image
  | .present content => by
    rw [toTree, offences, image]
    exact toTree_eq content
  | .sequence items => by
    rw [toTree, offences, image, treesOfItems_eq items, unlessFaults_map]
  | .map entries => by
    rw [toTree, offences, image, treesOfEntries_eq [] entries, unlessFaults_map]
    rfl
  | .unsigned n => by
    rw [toTree, offences, image]
    split <;> rfl
  | .bool _ | .signed _ | .double _ | .single _ | .char _ | .text _ | .unit | .absent
  | .bytes | .wideSigned _ | .wideUnsigned _ | .newtype | .enumeration => rfl

theorem treesOfItems_eq : ∀ items : List Source,
    treesOfItems items = unlessFaults (offencesOfItems items) (imagesOfItems items)
  | [] => rfl
  | s :: rest => by
    rw [treesOfItems, toTree_eq s, treesOfItems_eq rest, offencesOfItems, imagesOfItems]
    rcases s.offences with _ | _
    · rcases offencesOfItems rest with _ | _ <;> rfl
    · rfl

theorem treesOfEntries_eq (done : List (String × Tree)) : ∀ entries : List (String × Source),
    treesOfEntries done entries
      = unlessFaults (offencesOfEntries (done.map (·.1)) entries) (done ++ imagesOfEntries entries)
  | [] => by
    rw [treesOfEntries, imagesOfEntries, List.append_nil]
    rfl
  | (key, s) :: rest => by
    have hheld : done.any (·.1 == key) ↔ key ∈ done.map (·.1) := by simp
    rw [treesOfEntries, toTree_eq s, offencesOfEntries, imagesOfEntries]
    -- If nothing is wrong in the entry, its key is looked for among those before it.
    rcases s.offences with _ | _
    · simp only [unlessFaults, hheld]
      by_cases hkey : key ∈ done.map (·.1)
      · rw [if_pos hkey, if_pos hkey]
        rfl
      · rw [if_neg hkey, if_neg hkey, treesOfEntries_eq (done ++ [(key, s.image)]) rest,
          List.map_append, List.append_assoc]
        rfl
    · rfl

end

/-! ### Trees that mirror a source -/

/-- The tree says what the source says, one for one. -/
inductive Mirrors : Source → Tree → Prop
  | bool (b : Bool) : Mirrors (.bool b) (.bool b)
  | signed (n : Int64) : Mirrors (.signed n) (.integer n)
  | unsigned {n : UInt64} {m : Int64} (h : m.toInt = n.toNat) : Mirrors (.unsigned n) (.integer m)
  | double (x : Double) : Mirrors (.double x) (.double x)
  | single (x : Single) : Mirrors (.single x) (.double x.toDouble)
  | char (c : Char) : Mirrors (.char c) (.text (String.singleton c))
  | text (s : String) : Mirrors (.text s) (.text s)
  | unit : Mirrors .unit .null
  | absent : Mirrors .absent .null
  | present {content : Source} {t : Tree} (h : Mirrors content t) : Mirrors (.present content) t
  | sequence {items : List Source} {ts : List Tree} (hlength : items.length = ts.length)
      (h : ∀ s t, (s, t) ∈ items.zip ts → Mirrors s t) : Mirrors (.sequence items) (.array ts)
  | map {entries : List (String × Source)} {es : List (String × Tree)}
      (hkeys : entries.map (·.1) = es.map (·.1))
      (h : ∀ s t, (s, t) ∈ (entries.map (·.2)).zip (es.map (·.2)) → Mirrors s t) :
      Mirrors (.map entries) (.object es)

theorem Part.trans {m : Source} (h : Part m n) (hn : Part n s) : Part m s := by
  induction hn with
  | refl => exact h
  | present _ ih => exact .present ih
  | item hitem _ ih => exact .item hitem ih
  | entry hentry _ ih => exact .entry hentry ih

theorem Readable.part (h : s.Readable) (hn : Part n s) : n.Readable :=
  ⟨fun _ hm => h.small _ (hm.trans hn), fun _ hm => h.supported _ (hm.trans hn),
    fun _ hm => h.distinct _ (hm.trans hn)⟩

mutual

theorem mirrors_image : ∀ s : Source, s.Readable → s.Mirrors s.image
  | .present content, h => by
    rw [image]
    exact .present (mirrors_image content (h.part (.present (.refl _))))
  | .sequence items, h => by
    rw [image, imagesOfItems_eq_map]
    refine .sequence (List.length_map _).symm fun s t hmem => ?_
    rw [← List.map_id items, List.map_map, List.zip_map'] at hmem
    obtain ⟨s, hs, ⟨⟩⟩ := List.mem_map.mp hmem
    exact mirrors_imagesOfItems items (fun s hs => h.part (.item hs (.refl _))) s hs
  | .map entries, h => by
    rw [image, imagesOfEntries_eq_map]
    refine .map (by rw [List.map_map]; rfl) fun s t hmem => ?_
    rw [List.map_map, List.zip_map'] at hmem
    obtain ⟨entry, hentry, ⟨⟩⟩ := List.mem_map.mp hmem
    exact mirrors_imagesOfEntries entries (fun entry he => h.part (.entry he (.refl _))) entry hentry
  | .unsigned n, h => .unsigned (Int64.toInt_ofNat_of_lt (h.small n (.refl _)))
  | .bool b, _ => .bool b
  | .signed n, _ => .signed n
  | .double x, _ => .double x
  | .single x, _ => .single x
  | .char c, _ => .char c
  | .text s, _ => .text s
  | .unit, _ => .unit
  | .absent, _ => .absent
  | .bytes, h | .wideSigned _, h | .wideUnsigned _, h | .newtype, h | .enumeration, h =>
    absurd (h.supported _ (.refl _)) (by simp [unsupported?])

theorem mirrors_imagesOfItems : ∀ items : List Source, (∀ s ∈ items, s.Readable) →
    ∀ s ∈ items, s.Mirrors s.image
  | [], _ => by simp
  | s :: rest, h => by
    rw [List.forall_mem_cons] at h ⊢
    exact ⟨mirrors_image s h.1, mirrors_imagesOfItems rest h.2⟩

theorem mirrors_imagesOfEntries : ∀ entries : List (String × Source),
    (∀ entry ∈ entries, entry.2.Readable) → ∀ entry ∈ entries, entry.2.Mirrors entry.2.image
  | [], _ => by simp
  | (key, s) :: rest, h => by
    rw [List.forall_mem_cons] at h ⊢
    exact ⟨mirrors_image s h.1, mirrors_imagesOfEntries rest h.2⟩

end

/-- The second of two lists, if it is told by the first. -/
theorem eq_map_of_zip {α β : Type} {f : α → β} : ∀ {l : List α} {l' : List β},
    l.length = l'.length → (∀ a b, (a, b) ∈ l.zip l' → b = f a) → l' = l.map f
  | [], [], _, _ => rfl
  | a :: l, b :: l', hlength, h => by
    rw [List.map_cons, h a b List.mem_cons_self,
      eq_map_of_zip (Nat.succ.inj hlength) fun a b hab => h a b (List.mem_cons_of_mem _ hab)]

theorem length_values_eq {es : List (String × Tree)} (hkeys : entries.map (·.1) = es.map (·.1)) :
    (entries.map (·.2)).length = (es.map (·.2)).length := by
  simpa using congrArg List.length hkeys

/-- No other tree mirrors a source. -/
theorem Mirrors.eq_image {t : Tree} (h : s.Mirrors t) : t = s.image := by
  induction h with
  | @unsigned n m h =>
    -- The integer of the tree has 63 bits for its amount, so the number is small.
    have hsmall : n.toNat < Nat.pow 2 63 := by
      have hlt := m.toInt_lt
      show n.toNat < 9223372036854775808
      omega
    rw [image, Int64.toInt_inj.mp (h.trans (Int64.toInt_ofNat_of_lt hsmall).symm)]
  | present _ ih =>
    rw [image]
    exact ih
  | sequence hlength _ ih => rw [image, imagesOfItems_eq_map, eq_map_of_zip hlength ih]
  | @map entries es hkeys _ ih =>
    have hvalues : es.map (·.2) = entries.map fun entry => entry.2.image := by
      rw [eq_map_of_zip (length_values_eq hkeys) ih, List.map_map]
      rfl
    -- Entries are told by their keys and by what stands under them.
    have hentries : es = entries.map fun entry => (entry.1, entry.2.image) :=
      calc es = (es.map (·.1)).zip (es.map (·.2)) := by rw [List.zip_map', List.map_id']
        _ = _ := by rw [← hkeys, hvalues, List.zip_map']
    rw [image, imagesOfEntries_eq_map, hentries]
  | _ => rfl

theorem mirrors_iff {t : Tree} (h : s.Readable) : s.Mirrors t ↔ t = s.image := by
  constructor
  · exact Mirrors.eq_image
  · rintro rfl
    exact mirrors_image s h

theorem exists_mem_zip {α β : Type} {l : List α} {l' : List β} {b : β}
    (hlength : l.length = l'.length) (hb : b ∈ l') : ∃ a ∈ l, (a, b) ∈ l.zip l' := by
  rw [← List.map_snd_zip (Nat.le_of_eq hlength.symm)] at hb
  obtain ⟨⟨a, b⟩, hmem, rfl⟩ := List.mem_map.mp hb
  exact ⟨a, (List.of_mem_zip hmem).1, hmem⟩

/-- A tree repeats a key only where the source does. -/
theorem Mirrors.uniqueKeys {t : Tree} (h : s.Mirrors t) (hs : s.Readable) : t.UniqueKeys := by
  induction h with
  | present _ ih => exact ih (hs.part (.present (.refl _)))
  | sequence hlength _ ih =>
    refine Tree.uniqueKeys_array.mpr fun t ht => ?_
    obtain ⟨s, hmem, hzip⟩ := exists_mem_zip hlength ht
    exact ih s t hzip (hs.part (.item hmem (.refl _)))
  | @map entries es hkeys _ ih =>
    refine Tree.uniqueKeys_object.mpr ⟨hkeys ▸ hs.distinct _ (.refl _), fun e he => ?_⟩
    obtain ⟨s, hmem, hzip⟩ := exists_mem_zip (length_values_eq hkeys) (List.mem_map_of_mem he)
    obtain ⟨entry, hentry, rfl⟩ := List.mem_map.mp hmem
    exact ih _ _ hzip (hs.part (.entry hentry (.refl _)))
  | _ => exact Tree.uniqueKeys_of_isLeaf rfl

/-- **What becomes of any source.**  A tree is read exactly if no unsigned integer in the
source is too large, nothing in it is unsupported and no map in it repeats a key; the
tree is the one that mirrors the source, and none of its objects repeats a key.  Any
other source fails with the first of its offences, which are the faults of its parts in
the order of reading. -/
theorem toTree_outcome (s : Source) :
    ((∃ t, s.toTree = .ok t) ↔ s.Readable) ∧
      (∀ t, s.toTree = .ok t ↔ s.Readable ∧ s.Mirrors t) ∧
      (∀ t, s.toTree = .ok t → t.UniqueKeys) ∧
      (∀ err, s.toTree = .error err ↔ s.offences.head? = some err) ∧
      ∀ err, err ∈ s.offences ↔ ∃ n, Part n s ∧ Fault n err := by
  have hok : ∀ t, s.toTree = .ok t ↔ s.Readable ∧ s.Mirrors t := by
    intro t
    rw [toTree_eq, unlessFaults_eq_ok_iff, offences_eq_nil_iff]
    exact and_congr_right fun h => by rw [mirrors_iff h, eq_comm]
  refine ⟨⟨?_, fun h => ⟨s.image, (hok _).mpr ⟨h, mirrors_image s h⟩⟩⟩, hok, ?_, ?_,
    fun err => mem_offences_iff err s⟩
  · rintro ⟨t, ht⟩
    exact ((hok t).mp ht).1
  · intro t ht
    obtain ⟨hs, hmirrors⟩ := (hok t).mp ht
    exact hmirrors.uniqueKeys hs
  · intro err
    rw [toTree_eq, unlessFaults_eq_error_iff]

/-- A map that repeats a key of the map around it, which is no repetition. -/
def nested : Source :=
  .map [("a", .sequence [.unsigned 7, .present .unit]), ("b", .map [("a", .char 'c')])]

/-- It is read, and no object repeats a key. -/
theorem toTree_nested :
    ∃ t, nested.toTree = .ok t ∧ t.UniqueKeys ∧ t.keys = ["a", "b"] := by
  obtain ⟨-, -, hunique, -, -⟩ := toTree_outcome nested
  exact ⟨_, rfl, hunique _ rfl, rfl⟩

/-- What stands under a repeated key counts before the key. -/
example : (Source.map [("a", .unit), ("b", .present .bytes), ("a", .newtype)]).offences
    = [.unsupported "byte array", .unsupported "newtype struct", .duplicateKey "a"] := by
  decide

end Source

end RecordCoding
