/-
Keys by their texts, and the keys of an object.

A look-up by text goes through the keys of a record in order, and the keys of an object
are found by such look-ups, entry by entry.  Keys may share a text, and an object may
have unknown keys and repeat known ones.

* `KeySet.ofText?_eq_some_iff` — the first key with a text is found;
* `KeySet.nodup_texts_iff` — every key is found by its own text if all texts differ;
* `KeyedDecoder.decode_probes` — what a decoder shows of the keys of its object;
* `Encoder.allKeys_written` — the keys of an object are those it was written under;
* `keys_read_as_written` — all of it, and the keys of generated members.
-/
import Mathlib.Data.List.Nodup
import RecordCoding.Proofs.Reading.Container
import RecordCoding.Proofs.Writing.Entries
import RecordCoding.Synthesis.Members

namespace RecordCoding

namespace KeySet

variable {α : Type} {keys : KeySet} {k l : CodingKey} {text : String}
  {entries : List (String × α)}

/-! ### Keys by their texts -/

theorem ofText?_eq_some_iff :
    keys.ofText? text = some k ↔
      k.text = text ∧ ∃ before after, keys = before ++ k :: after ∧ ∀ l ∈ before, l.text ≠ text := by
  simp only [ofText?, List.find?_eq_some_iff_append, beq_iff_eq, Bool.not_eq_true', beq_eq_false_iff_ne]

theorem ofText?_eq_none_iff : keys.ofText? text = none ↔ ∀ k ∈ keys, k.text ≠ text := by
  simp only [ofText?, List.find?_eq_none, beq_iff_eq, ne_eq]

theorem text_of_ofText? (h : keys.ofText? text = some k) : k.text = text :=
  (ofText?_eq_some_iff.mp h).1

theorem mem_of_ofText? (h : keys.ofText? text = some k) : k ∈ keys :=
  List.mem_of_find?_eq_some h

theorem ofText?_isSome_iff : (keys.ofText? text).isSome ↔ text ∈ keys.texts := by
  simp [ofText?, texts, List.find?_isSome]

/-- Every key is found by its own text. -/
def Invertible (keys : KeySet) : Prop := ∀ k ∈ keys, keys.ofText? k.text = some k

/-- That is so if different keys have different texts. -/
theorem invertible_iff :
    keys.Invertible ↔ ∀ k ∈ keys, ∀ l ∈ keys, k.text = l.text → k = l := by
  constructor
  · intro h k hk l hl htext
    have hfound : keys.ofText? k.text = some l := by rw [htext, h l hl]
    exact Option.some.inj ((h k hk).symm.trans hfound)
  · intro h k hk
    rcases hfind : keys.ofText? k.text with _ | l
    · exact absurd rfl (ofText?_eq_none_iff.mp hfind k hk)
    · rw [h l (mem_of_ofText? hfind) k hk (text_of_ofText? hfind)]

/-- No two texts are the same if no key is listed twice and each is found. -/
theorem nodup_texts_iff : keys.texts.Nodup ↔ keys.Nodup ∧ keys.Invertible := by
  rw [invertible_iff]
  constructor
  · exact fun h => ⟨h.of_map _, fun k hk l hl => List.inj_on_of_nodup_map h hk hl⟩
  · rintro ⟨hnodup, h⟩
    exact hnodup.map_on h

/-! ### The keys of an object -/

/-- The keys of an object depend on the texts of its entries alone. -/
theorem present_eq_filterMap : keys.present entries = (entries.map (·.1)).filterMap keys.ofText? := by
  rw [present, List.filterMap_map]
  rfl

theorem mem_present_iff :
    k ∈ keys.present entries ↔ ∃ text ∈ entries.map (·.1), keys.ofText? text = some k := by
  rw [present_eq_filterMap, List.mem_filterMap]

/-- Each of them is the first with its text. -/
theorem ofText?_of_mem_present (h : k ∈ keys.present entries) : keys.ofText? k.text = some k := by
  obtain ⟨text, -, hfind⟩ := mem_present_iff.mp h
  rw [text_of_ofText? hfind, hfind]

/-- Their texts are those of the entries, in order, without the unknown ones. -/
theorem texts_present :
    (keys.present entries).map (·.text) = (entries.map (·.1)).filter (· ∈ keys.texts) := by
  rw [present_eq_filterMap, List.map_filterMap, ← List.filterMap_eq_filter]
  -- A text is kept on the one side if it is found, on the other if it is known.
  refine List.filterMap_congr fun text _ => ?_
  rcases hfind : keys.ofText? text with _ | k
  · have hunknown : text ∉ keys.texts := by
      rw [← ofText?_isSome_iff, hfind]
      simp
    simp [Option.guard, hunknown]
  · have hknown : text ∈ keys.texts := by
      rw [← ofText?_isSome_iff, hfind]
      rfl
    simp [Option.guard, hknown, text_of_ofText? hfind]

theorem indexOfText?_bind (keys : KeySet) (text : String) :
    (keys.indexOfText? text).bind (keys[·]?) = keys.ofText? text := by
  induction keys with
  | nil => rfl
  | cons k rest ih =>
    rw [ofText?, List.find?_cons, indexOfText?, List.findIdx?_cons]
    -- If the first key has another text, positions among the rest are one less.
    rcases hk : k.text == text with _ | _
    · simp only [Bool.false_eq_true, if_false, Option.bind_map]
      exact ih
    · rfl

/-- The positions that a look at an object shows are those of its keys. -/
theorem presentIndices_bind (keys : KeySet) (entries : List (String × α)) :
    (keys.presentIndices entries).filterMap (keys[·]?) = keys.present entries := by
  rw [presentIndices, present, List.filterMap_filterMap]
  exact List.filterMap_congr fun entry _ => indexOfText?_bind keys entry.1

end KeySet

/-- The keys of a record as the texts they have, and named like its fields. -/
def KeyRegistry.keySet (r : KeyRegistry) : KeySet := r.keys.map fun key => ⟨key.spelled, key.name⟩

theorem KeyRegistry.texts_build (record : Ident) (fields : List ClassifiedField) :
    (build record fields).keySet.texts = (fields.filter (·.keyed)).map (·.name.name) := by
  rw [KeySet.texts, keySet, build, List.map_map, List.map_map]
  rfl

/-! ### What a decoder shows of keys -/

namespace KeyedDecoder

variable {c : KeyedDecoder} {keys : KeySet} {k : CodingKey}

/-- Whether there is an entry under a key. -/
def contains (c : KeyedDecoder) (key : CodingKey) : Bool := (c.entries.lookup key.text).isSome

/-- The keys of the object. -/
def allKeys (c : KeyedDecoder) (keys : KeySet) : List CodingKey := keys.present c.entries

theorem contains_iff : c.contains k ↔ k.text ∈ c.entries.map (·.1) := by
  rw [contains, List.lookup_isSome_iff, List.mem_map]
  simp only [beq_iff_eq, eq_comm (a := k.text)]

/-- A key of the set is in the object if it or one with its text is listed. -/
theorem contains_iff_listed (hk : k ∈ keys) :
    c.contains k ↔ ∃ l ∈ c.allKeys keys, l.text = k.text := by
  have hknown : k.text ∈ keys.texts := List.mem_map_of_mem hk
  rw [contains_iff, ← List.mem_map, allKeys, KeySet.texts_present, List.mem_filter, decide_eq_true_eq,
    and_iff_left hknown]

theorem keys_readersOfEntries (s : Schema) (entries : List (String × Tree)) :
    (readersOfEntries s entries).map (·.1) = entries.map (·.1) := by
  induction entries with
  | nil => rfl
  | cons entry rest ih => exact congrArg (entry.1 :: ·) ih

theorem presentIndices_readersOfEntries (s : Schema) (entries : List (String × Tree)) :
    keys.presentIndices (readersOfEntries s entries) = keys.presentIndices entries := by
  have hkeys {α : Type} (es : List (String × α)) :
      keys.presentIndices es = (es.map (·.1)).filterMap keys.indexOfText? := by
    rw [List.filterMap_map]
    rfl
  rw [hkeys, keys_readersOfEntries, ← hkeys]

/-- A probe for a key and for all keys shows what the container knows. -/
theorem decode_probes (s : Schema) (keys : KeySet) (k : CodingKey) {d : Decoder}
    (h : d.container = .ok c) :
    Decoder.decode s (.inspecting [.container keys [.contains k.text, .allKeys]]) d
      = .ok (.observed [.container [.flag (c.contains k), .keys (keys.presentIndices c.entries)]]) := by
  obtain ⟨tree, p⟩ := d
  cases tree with
  | object entries =>
    obtain rfl := Except.ok.inj h
    have hflag : (readersOfEntries s entries).any (·.1 == k.text) = contains ⟨entries, p⟩ k := by
      rw [Bool.eq_iff_iff, contains_iff, ← keys_readersOfEntries s entries]
      simp
    rw [← hflag, ← presentIndices_readersOfEntries s entries]
    rfl
  | _ => exact absurd h (by simp [Decoder.container])

end KeyedDecoder

/-! ### Keys that were written -/

/-- The keys of an object are those it was written under if each is the first with its
text. -/
theorem Encoder.allKeys_written {keys : KeySet} {path : CodingPath}
    {writes : List (CodingKey × TreeMaker)} (hkeys : ∀ w ∈ writes, w.1 ∈ keys) {t : Tree}
    (h : writtenTree ((Encoder.fresh path).opened.putAll
      (writes.map fun w => (w.1.text, w.2))) = .ok t) :
    ∃ c, Decoder.container ⟨t, path⟩ = .ok c ∧
      (c.allKeys keys).map (·.text) = writes.map (·.1.text) ∧
      (c.allKeys keys = writes.map (·.1) ↔ ∀ w ∈ writes, keys.ofText? w.1.text = some w.1) := by
  obtain ⟨-, entries, hwrote, rfl⟩ := writtenTree_putAll_fresh.mp h
  have htexts : entries.map (·.1) = writes.map (·.1.text) := by
    rw [hwrote.keys_eq, List.map_map]
    rfl
  refine ⟨⟨entries, path⟩, rfl, ?_, ?_, fun hfirst => ?_⟩
  -- Every text that was written is known, so none is left out.
  · rw [KeyedDecoder.allKeys, KeySet.texts_present, htexts, List.filter_eq_self]
    intro text htext
    obtain ⟨w, hw, rfl⟩ := List.mem_map.mp htext
    exact decide_eq_true (List.mem_map_of_mem (hkeys w hw))
  · intro hall w hw
    have hlisted : w.1 ∈ keys.present entries := by
      rw [show keys.present entries = writes.map (·.1) from hall]
      exact List.mem_map_of_mem hw
    exact KeySet.ofText?_of_mem_present hlisted
  · rw [KeyedDecoder.allKeys, KeySet.present_eq_filterMap, htexts, List.filterMap_map,
      ← List.filterMap_eq_map]
    exact List.filterMap_congr hfirst

/-- **Keys are read as they were written.**  A look-up by text finds the first key with
the text, so it gives back every key exactly if no two have the same text, as those of
generated members with distinct fields.  An object contains a key if some entry has its
text, which is so if a key with the text is listed; the list has one key for each known
entry, in order.  And writing keys with distinct texts into a container of its own makes
an object of which they are listed again. -/
theorem keys_read_as_written :
    (∀ (keys : KeySet) (text : String),
      (∀ k, keys.ofText? text = some k ↔ k.text = text ∧
        ∃ before after, keys = before ++ k :: after ∧ ∀ l ∈ before, l.text ≠ text) ∧
      (keys.ofText? text = none ↔ ∀ k ∈ keys, k.text ≠ text)) ∧
    (∀ keys : KeySet,
      (keys.Invertible ↔ ∀ k ∈ keys, ∀ l ∈ keys, k.text = l.text → k = l) ∧
      (keys.texts.Nodup ↔ keys.Nodup ∧ keys.Invertible)) ∧
    (∀ (record : Ident) (fields : List ClassifiedField),
      (KeyRegistry.build record fields).keySet.texts
          = (fields.filter (·.keyed)).map (·.name.name) ∧
        (((fields.filter (·.keyed)).map (·.name.name)).Nodup →
          (KeyRegistry.build record fields).keySet.Invertible)) ∧
    (∀ (keys : KeySet) (c : KeyedDecoder),
      (∀ k, c.contains k ↔ k.text ∈ c.entries.map (·.1)) ∧
      (∀ k ∈ keys, c.contains k ↔ ∃ l ∈ c.allKeys keys, l.text = k.text) ∧
      (c.allKeys keys).map (·.text) = (c.entries.map (·.1)).filter (· ∈ keys.texts) ∧
      (∀ k ∈ c.allKeys keys, keys.ofText? k.text = some k) ∧
      ∀ (s : Schema) (k : CodingKey) (d : Decoder), d.container = .ok c → ∃ indices,
        Decoder.decode s (.inspecting [.container keys [.contains k.text, .allKeys]]) d
          = .ok (.observed [.container [.flag (c.contains k), .keys indices]]) ∧
        indices.filterMap (keys[·]?) = c.allKeys keys) ∧
    ∀ (keys : KeySet) (path : CodingPath) (writes : List (CodingKey × TreeMaker)),
      (∀ w ∈ writes, w.1 ∈ keys) → (writes.map (·.1.text)).Nodup →
        ((∃ t, writtenTree ((Encoder.fresh path).opened.putAll
            (writes.map fun w => (w.1.text, w.2))) = .ok t) ↔
          ∀ w ∈ writes, ∃ t, w.2 (path.key w.1.text) = .ok t) ∧
        ∀ t, writtenTree ((Encoder.fresh path).opened.putAll
            (writes.map fun w => (w.1.text, w.2))) = .ok t →
          ∃ c, Decoder.container ⟨t, path⟩ = .ok c ∧
            (c.allKeys keys).map (·.text) = writes.map (·.1.text) ∧
            (c.allKeys keys = writes.map (·.1) ↔ ∀ w ∈ writes, keys.ofText? w.1.text = some w.1) ∧
            (keys.texts.Nodup → c.allKeys keys = writes.map (·.1)) := by
  refine ⟨fun keys text => ⟨fun k => KeySet.ofText?_eq_some_iff, KeySet.ofText?_eq_none_iff⟩,
    fun keys => ⟨KeySet.invertible_iff, KeySet.nodup_texts_iff⟩,
    fun record fields => ⟨KeyRegistry.texts_build record fields, fun hnodup => ?_⟩,
    fun keys c => ⟨fun k => KeyedDecoder.contains_iff,
      fun k hk => KeyedDecoder.contains_iff_listed hk, KeySet.texts_present,
      fun k hk => KeySet.ofText?_of_mem_present hk, fun s k d hd => ?_⟩,
    fun keys path writes hkeys hnodup => ⟨?_, fun t ht => ?_⟩⟩
  · rw [← KeyRegistry.texts_build record] at hnodup
    exact (KeySet.nodup_texts_iff.mp hnodup).2
  · exact ⟨_, KeyedDecoder.decode_probes s keys k hd, KeySet.presentIndices_bind keys c.entries⟩
  · have hnodup : ((writes.map fun w => (w.1.text, w.2)).map (·.1)).Nodup := by
      rw [List.map_map]
      exact hnodup
    rw [Encoder.putAll_fresh_succeeds_iff hnodup, List.forall_mem_map]
  · obtain ⟨c, hc, htexts, hlisted⟩ := Encoder.allKeys_written hkeys ht
    refine ⟨c, hc, htexts, hlisted, fun hdistinct => hlisted.mpr fun w hw => ?_⟩
    exact (KeySet.nodup_texts_iff.mp hdistinct).2 w.1 (hkeys w hw)

/-! ### Keys with and without a text of their own -/

namespace SharedText

/-- Two of three keys have the same text. -/
def keys : KeySet := [⟨"C0", "same"⟩, ⟨"C1", "same"⟩, ⟨"C2", "x"⟩]

/-- An entry under a key that is not the first with its text, behind another one. -/
def writes : List (CodingKey × TreeMaker) :=
  [(⟨"C2", "x"⟩, fun _ => .ok .null), (⟨"C1", "same"⟩, fun path => .ok (.text path.printed))]

/-- An object with an unknown key and a known one twice. -/
def crowded : KeyedDecoder :=
  ⟨[("x", .null), ("other", .null), ("same", .bool true), ("x", .bool false)], .root⟩

/-- The fields of a record, two of them keyed and one with a raw name. -/
def fields : List ClassifiedField :=
  [⟨.plain "name", .scalar (.plain false [.plain "String"]), true⟩, ⟨.plain "lookup", .unrecognized, true⟩,
    ⟨.ofSpelling "r#type", .optionalScalar (.plain false [.plain "String"]), true⟩]

/-- The keys of a record, written from the last to the first. -/
def backwards : List (CodingKey × TreeMaker) :=
  [(⟨"r#type", "type"⟩, fun _ => .ok .null), (⟨"name", "name"⟩, fun _ => .ok .null)]

/-- The second key is listed as the first one with its text, and keys with texts of
their own are listed as they were written. -/
theorem keys_listed :
    (KeyRegistry.build (.plain "Person") fields).keySet.Invertible ∧
    (crowded.contains ⟨"C1", "same"⟩ ∧ ∃ l ∈ crowded.allKeys keys, l.text = "same") ∧
    (∃ indices,
      Decoder.decode [] (.inspecting [.container keys [.contains "same", .allKeys]])
          ⟨.object crowded.entries, .root⟩
        = .ok (.observed [.container [.flag true, .keys indices]]) ∧
      indices.filterMap (keys[·]?) = [⟨"C2", "x"⟩, ⟨"C0", "same"⟩, ⟨"C2", "x"⟩]) ∧
    (∃ c, Decoder.container ⟨.object [("x", .null), ("same", .text "$.same")], .root⟩ = .ok c ∧
      (c.allKeys keys).map (·.text) = ["x", "same"] ∧ ¬ c.allKeys keys = writes.map (·.1)) ∧
    ∃ c, Decoder.container ⟨.object [("type", .null), ("name", .null)], .root⟩ = .ok c ∧
      c.allKeys (KeyRegistry.build (.plain "Person") fields).keySet = backwards.map (·.1) := by
  obtain ⟨-, -, hregistry, hobject, hwritten⟩ := keys_read_as_written
  obtain ⟨-, hlisted, -, -, hshown⟩ := hobject keys crowded
  have hcontains : crowded.contains ⟨"C1", "same"⟩ := by decide
  refine ⟨(hregistry (.plain "Person") fields).2 (by decide),
    ⟨hcontains, (hlisted ⟨"C1", "same"⟩ (by decide)).mp hcontains⟩,
    hshown [] ⟨"C1", "same"⟩ ⟨.object crowded.entries, .root⟩ rfl, ?_, ?_⟩
  · obtain ⟨-, hobject⟩ := hwritten keys .root writes (by decide) (by decide)
    obtain ⟨c, hc, htexts, hall, -⟩ := hobject (.object [("x", .null), ("same", .text "$.same")]) (by rfl)
    refine ⟨c, hc, htexts, fun h => ?_⟩
    have hfirst : keys.ofText? "same" = some ⟨"C1", "same"⟩ :=
      hall.mp h _ (List.mem_cons_of_mem _ (List.mem_singleton.mpr rfl))
    exact absurd hfirst (by decide)
  · obtain ⟨-, hobject⟩ := hwritten (KeyRegistry.build (.plain "Person") fields).keySet .root backwards
      (by decide) (by decide)
    obtain ⟨c, hc, -, -, hall⟩ := hobject (.object [("type", .null), ("name", .null)]) (by rfl)
    exact ⟨c, hc, hall (by decide)⟩

end SharedText

end RecordCoding
