/-
Values that write themselves into an encoder that holds something.

A record joins the container that is open: its entries are put behind those that
are there, up to the first field whose key is taken or whose value fails.  A value
that is no record replaces whatever was there, or changes nothing.

* `extends_putAll` — what a run of writes leaves in a container, in full;
* `Datum.run_of_record`, `Datum.run_of_not_record` — the two ways of a value;
* `joined_or_replaced` — both of them, and generated members.

Design notes:

* `Extends` is about any result, so that a run that stops half way and one that is
  carried out are told by one relation.
* A key is compared with the entries before its value is looked at, so `taken` asks
  nothing of the value.
-/
import RecordCoding.Proofs.Data.NormalForm
import RecordCoding.Proofs.Synthesis.RoundTrip

namespace RecordCoding

namespace Encoder

variable {path : CodingPath} {held entries : List (String × Tree)}
  {writes : List (String × TreeMaker)} {key : String} {make : TreeMaker} {t : Tree}

/-! ### Writes into a container that holds entries -/

/-- These writes made these entries, all of them under new keys. -/
structure Carried (path : CodingPath) (held : List (String × Tree))
    (writes : List (String × TreeMaker)) (entries : List (String × Tree)) : Prop where
  wrote : Wrote path writes entries
  nodup : (writes.map (·.1)).Nodup
  new : ∀ key ∈ writes.map (·.1), key ∉ held.map (·.1)

/-- What becomes of writes into a container with the entries `held`. -/
inductive Extends (path : CodingPath) (held : List (String × Tree))
    (writes : List (String × TreeMaker)) : Written → Prop
  /-- All of them are carried out. -/
  | whole {entries : List (String × Tree)} (h : Carried path held writes entries) :
      Extends path held writes (.ok (), ⟨path, none, some (held ++ entries)⟩)
  /-- Those before a key that is taken. -/
  | taken {before after : List (String × TreeMaker)} {key : String} {make : TreeMaker}
      {entries : List (String × Tree)} (hsplit : writes = before ++ (key, make) :: after)
      (h : Carried path held before entries) (hkey : key ∈ (held ++ entries).map (·.1)) :
      Extends path held writes
        (.error (.duplicateKey key path), ⟨path, none, some (held ++ entries)⟩)
  /-- Those before a value that fails under a key that is not. -/
  | failed {before after : List (String × TreeMaker)} {key : String} {make : TreeMaker}
      {entries : List (String × Tree)} {err : EncodeError}
      (hsplit : writes = before ++ (key, make) :: after) (h : Carried path held before entries)
      (hkey : key ∉ (held ++ entries).map (·.1)) (hfails : make (path.key key) = .error err) :
      Extends path held writes (.error err, ⟨path, none, some (held ++ entries)⟩)

theorem Carried.nil : Carried path held [] [] := ⟨.nil, List.nodup_nil, by simp⟩

theorem Carried.cons (h : Carried path (held ++ [(key, t)]) writes entries)
    (hkey : key ∉ held.map (·.1)) (ht : make (path.key key) = .ok t) :
    Carried path held ((key, make) :: writes) ((key, t) :: entries) := by
  have hnew : ∀ k ∈ writes.map (·.1), k ∉ held.map (·.1) ∧ k ≠ key := by
    intro k hk
    have hboth := h.new k hk
    rw [List.map_append, List.mem_append, not_or] at hboth
    exact ⟨hboth.1, fun heq => hboth.2 (by simp [heq])⟩
  refine ⟨.cons ⟨rfl, ht⟩ h.wrote, ?_, ?_⟩
  · rw [List.map_cons, List.nodup_cons]
    exact ⟨fun hmem => (hnew key hmem).2 rfl, h.nodup⟩
  · intro k hk
    rcases List.mem_cons.mp hk with rfl | hk
    · exact hkey
    · exact (hnew k hk).1

/-- One more write in front, which is carried out. -/
theorem Extends.cons {w : Written} (h : Extends path (held ++ [(key, t)]) writes w)
    (hkey : key ∉ held.map (·.1)) (ht : make (path.key key) = .ok t) :
    Extends path held ((key, make) :: writes) w := by
  -- The new entry moves from those that were held to those that were made.
  have hmove (entries : List (String × Tree)) :
      held ++ [(key, t)] ++ entries = held ++ (key, t) :: entries := by
    rw [List.append_assoc, List.singleton_append]
  cases h with
  | whole h =>
    rw [hmove]
    exact .whole (h.cons hkey ht)
  | taken hsplit h htaken =>
    rw [hmove] at htaken ⊢
    exact .taken (congrArg ((key, make) :: ·) hsplit) (h.cons hkey ht) htaken
  | failed hsplit h hnew hfails =>
    rw [hmove] at hnew ⊢
    exact .failed (congrArg ((key, make) :: ·) hsplit) (h.cons hkey ht) hnew hfails

/-- A run of writes into a container with the entries `held`. -/
theorem extends_run (path : CodingPath) (held : List (String × Tree))
    (writes : List (String × TreeMaker)) :
    Extends path held writes ((Encoder.mk path none (some held)).putAll writes) := by
  -- The entries that are held grow along the run.
  induction writes generalizing held with
  | nil =>
    have hwhole : Extends path held [] _ := .whole .nil
    rw [List.append_nil] at hwhole
    exact hwhole
  | cons w rest ih =>
    obtain ⟨key, make⟩ := w
    rw [putAll]
    by_cases hkey : key ∈ held.map (·.1)
    · rw [putWith, if_pos (holdsKey_iff.mpr hkey)]
      have hstop : Extends path held ((key, make) :: rest) _ :=
        .taken (List.nil_append _).symm .nil (by simpa using hkey)
      rw [List.append_nil] at hstop
      exact hstop
    · rcases hmake : make (path.key key) with err | t
      · rw [putWith, if_neg (mt holdsKey_iff.mp hkey), hmake]
        have hstop : Extends path held ((key, make) :: rest) _ :=
          .failed (List.nil_append _).symm .nil (by simpa using hkey) hmake
        rw [List.append_nil] at hstop
        exact hstop
      · rw [putWith_eq_ok_iff.mpr ⟨hkey, t, hmake, rfl⟩]
        exact (ih (held ++ [(key, t)])).cons hkey hmake

/-- What a run of writes leaves in a container, whatever its encoder held. -/
theorem extends_putAll (e : Encoder) (writes : List (String × TreeMaker)) :
    Extends e.path e.written writes (e.opened.putAll writes) :=
  extends_run e.path e.written writes

/-- Entries that join others are those of a container of their own. -/
theorem Extends.exists_own {e : Encoder} (h : Extends path held writes (.ok (), e)) :
    ∃ own, writtenTree ((Encoder.fresh path).opened.putAll writes) = .ok (.object own) ∧
      e = ⟨path, none, some (held ++ own)⟩ := by
  cases h with
  | @whole own h => exact ⟨own, writtenTree_putAll_fresh.mpr ⟨h.nodup, own, h.wrote, rfl⟩, rfl⟩

end Encoder

/-! ### The two ways of a value -/

namespace Datum

/-- The record that a value is, be it behind optional values and pointers: its name,
the types for its parameters, and its fields. -/
def record? : DataType → Datum → Option (String × List DataType × List (String × Datum))
  | .record name arguments, .record _ fields => some (name, arguments, fields)
  | .option t, .present d => record? t d
  | .pointer t, .pointer d => record? t d
  | _, _ => none

/-- The writes of the keyed fields of a record, in the order of declaration. -/
def keyedWrites (s : Schema) (arguments : List DataType) (fs : List Field)
    (fields : List (String × Datum)) : List (String × TreeMaker) :=
  (fs.zip fields).filterMap fun fv => (fv.1.coding.instantiate arguments).type?.map fun t =>
    (fv.1.key, (fv.2.2.writing s t).treeAt)

theorem keyedWrites_eq_map (s : Schema) (arguments : List DataType) (fs : List Field)
    (fields : List (String × Datum)) :
    keyedWrites s arguments fs fields
      = (writingOfFields s arguments fs fields).map fun w => (w.key, w.content.treeAt) := by
  rw [keyedWrites, writingOfFields_eq_filterMap, List.map_filterMap]
  simp only [Option.map_map]
  rfl

variable {s : Schema} {t : DataType} {d : Datum} {name : String} {arguments : List DataType}
  {fields : List (String × Datum)}

/-- A record writes its keyed fields into the container of the encoder it is given. -/
theorem run_of_record (h : d.record? t = some (name, arguments, fields)) (e : Encoder) :
    (d.writing s t).run e
      = e.opened.putAll (keyedWrites s arguments (s.fieldsOf name) fields) := by
  revert h
  fun_induction record? t d with
  | case1 name' arguments' n fields' =>
    rintro ⟨⟩
    rw [writing, Writing.run, Writing.runKeyed_eq_putAll fun _ => not_tolerated_of_mem,
      keyedWrites_eq_map]
  | case2 t d ih =>
    intro h
    rw [writing]
    exact ih h
  | case3 t d ih =>
    intro h
    rw [writing]
    exact ih h
  | case4 => exact fun h => absurd h (by simp)

end Datum

/-- What becomes of an encoder if a result is written into it as the single value. -/
def Encoder.settled (e : Encoder) : Except EncodeError Tree → Written
  | .ok t => (.ok (), e.write t)
  | .error err => (.error err, e)

/-- A value that is no record is written as a single value or not at all. -/
theorem Datum.run_of_not_record {s : Schema} {t : DataType} {d : Datum} (hd : OfType s t d)
    (h : d.record? t = none) (e : Encoder) :
    (d.writing s t).run e = e.settled ((d.writing s t).treeAt e.path) := by
  -- Integers and lists may fail; whatever else is no record always makes its tree.
  induction hd with
  | integer =>
    rw [writing, Writing.run, Writing.treeAt_integer]
    split <;> rfl
  | @list t items =>
    rw [writing, Writing.run, Writing.treeAt_elements]
    rcases Writing.trees (writingOfItems s t items) e.path 0 with _ | _ <;> rfl
  | present _ ih => exact ih h
  | pointer _ ih => exact ih h
  | record => exact absurd h (by simp [record?])
  | _ => rfl

/-- So it takes the place of what was there exactly if it makes a tree at all. -/
theorem Datum.run_eq_ok_iff_of_not_record {s : Schema} {t : DataType} {d : Datum}
    (hd : OfType s t d) (h : d.record? t = none) (e e' : Encoder) :
    (d.writing s t).run e = (.ok (), e') ↔
      ∃ tree, d.toTree s t = .ok tree ∧ e' = ⟨e.path, some tree, none⟩ := by
  rw [run_of_not_record hd h]
  simp only [toTree, ← Writing.treeAt_eq_ok_iff _ e.path]
  rcases (d.writing s t).treeAt e.path with err | tree
  · simp [Encoder.settled]
  · simp [Encoder.settled, Encoder.write, eq_comm]

/-! ### Both ways -/

section

variable {V : Path → Type} {O : Type} {codecs : ∀ p, Codec (V p)}

/-- Generated members write the keyed fields into the container of the encoder. -/
theorem Members.extends_encode_build (d : Declaration) {fields : List ClassifiedField}
    {self : RecordValue V O}
    (hself : ∀ f ∈ fields, f.keyed → (self f.name.name).shape = f.shape) (e : Encoder) :
    ∃ w, (Members.build d fields).encode codecs self e = some w ∧
      Encoder.Extends e.path e.written ((fields.filter (·.keyed)).map fun f =>
        (f.name.name, (self f.name.name).makerD codecs)) w ∧
      ∀ e', w = (.ok (), e') →
        ∃ fresh own, (Members.build d fields).encode codecs self (.fresh e.path) = some fresh ∧
          writtenTree fresh = .ok (.object own) ∧
          e' = ⟨e.path, none, some (e.written ++ own)⟩ := by
  -- One run of writes, into this encoder and into one that holds nothing.
  have hextends := Encoder.extends_putAll e ((fields.filter (·.keyed)).map fun f =>
    (f.name.name, (self f.name.name).makerD codecs))
  refine ⟨_, Members.encode_build d hself e, hextends, fun e' he' => ?_⟩
  rw [he'] at hextends
  obtain ⟨own, hown, hentries⟩ := hextends.exists_own
  exact ⟨_, own, Members.encode_build d hself (.fresh e.path), hown, hentries⟩

end

/-- **A record joins the container that is open, anything else replaces what was
there.**  Generated members, whatever the codecs of their fields, and records of any
described type put their keyed fields behind the entries of the encoder, in the order
of declaration, up to the first whose key is taken or whose value fails; if there is
none, their own entries are those they have in a tree of their own.  A value that is
no record leaves its tree alone in the encoder, if it makes one. -/
theorem joined_or_replaced :
    (∀ (V : Path → Type) (O : Type) (codecs : ∀ p, Codec (V p)) (d : Declaration)
        (fields : List ClassifiedField) (self : RecordValue V O),
      (∀ f ∈ fields, f.keyed → (self f.name.name).shape = f.shape) → ∀ e : Encoder,
        ∃ w, (Members.build d fields).encode codecs self e = some w ∧
          Encoder.Extends e.path e.written ((fields.filter (·.keyed)).map fun f =>
            (f.name.name, (self f.name.name).makerD codecs)) w ∧
          ∀ e', w = (.ok (), e') →
            ∃ fresh own, (Members.build d fields).encode codecs self (.fresh e.path) = some fresh ∧
              writtenTree fresh = .ok (.object own) ∧
              e' = ⟨e.path, none, some (e.written ++ own)⟩) ∧
    (∀ (s : Schema) (t : DataType) (d : Datum) (name : String) (arguments : List DataType)
        (fields : List (String × Datum)),
      d.record? t = some (name, arguments, fields) → ∀ e : Encoder,
        Encoder.Extends e.path e.written (Datum.keyedWrites s arguments (s.fieldsOf name) fields)
          ((d.writing s t).run e) ∧
        ∀ e', (d.writing s t).run e = (.ok (), e') →
          ∃ own, d.toTree s t = .ok (.object own) ∧
            e' = ⟨e.path, none, some (e.written ++ own)⟩) ∧
    ∀ (s : Schema) (t : DataType) (d : Datum), OfType s t d → d.record? t = none →
      ∀ e e' : Encoder, (d.writing s t).run e = (.ok (), e') ↔
        ∃ tree, d.toTree s t = .ok tree ∧ e' = ⟨e.path, some tree, none⟩ := by
  refine ⟨fun V O codecs d fields self hself e => Members.extends_encode_build d hself e, ?_,
    fun s t d hd h => Datum.run_eq_ok_iff_of_not_record hd h⟩
  intro s t d name arguments fields h e
  have hextends := Encoder.extends_putAll e (Datum.keyedWrites s arguments (s.fieldsOf name) fields)
  rw [Datum.run_of_record h]
  refine ⟨hextends, fun e' he' => ?_⟩
  rw [he'] at hextends
  obtain ⟨own, hown, hentries⟩ := hextends.exists_own
  refine ⟨own, ?_, hentries⟩
  -- The tree is the same at the root.
  rw [Datum.toTree, ← Writing.treeAt_eq_ok_iff _ e.path, Writing.treeAt, Datum.run_of_record h]
  exact hown

/-! ### A container that holds an entry -/

namespace Crowded

def point : RecordType :=
  ⟨"Point", [⟨"x", "x", .required (.integer .u64)⟩, ⟨"cache", "cache", .excluded .absent⟩,
    ⟨"y", "y", .required (.integer .u64)⟩, ⟨"z", "z", .required (.integer .u64)⟩]⟩

/-- A point behind an option and a pointer. -/
def pointType : DataType := .option (.pointer (.record "Point" []))

/-- A point whose second number no tree holds. -/
def fields : List (String × Datum) :=
  [("x", .integer 1), ("cache", .string "kept"), ("y", .integer 18446744073709551615),
    ("z", .integer 3)]

def located : Datum := .present (.pointer (.record "Point" fields))

def numbers : Datum := .list [.integer 1, .integer 2]

/-- An encoder that holds an entry under the second key of a point. -/
def encoder : Encoder := ⟨.root, none, some [("y", .null)]⟩

/-- The key that is taken stops the point before its number is looked at; a list
takes the place of the entry; and a generated record stands behind it. -/
theorem entry_joined :
    (located.record? pointType = some ("Point", [], fields) ∧
      Encoder.Extends .root encoder.written (Datum.keyedWrites [point] [] point.fields fields)
        ((located.writing [point] pointType).run encoder) ∧
      (located.writing [point] pointType).run encoder
        = (.error (.duplicateKey "y" .root), ⟨.root, none, some [("y", .null), ("x", .integer 1)]⟩)) ∧
    (OfType [point] (.list (.integer .u64)) numbers ∧
      numbers.record? (.list (.integer .u64)) = none ∧
      (numbers.writing [point] (.list (.integer .u64))).run encoder
        = (.ok (), ⟨.root, some (.array [.integer 1, .integer 2]), none⟩)) ∧
    (∀ f ∈ MixedRecord.fields, f.keyed → (MixedRecord.self f.name.name).shape = f.shape) ∧
      ∃ w, (Members.build default MixedRecord.fields).encode (fun _ => MixedRecord.textCodec)
          MixedRecord.self encoder = some w ∧
        Encoder.Extends .root [("y", .null)] ((MixedRecord.fields.filter (·.keyed)).map fun f =>
          (f.name.name, (MixedRecord.self f.name.name).makerD fun _ => MixedRecord.textCodec)) w ∧
        w = (.ok (), ⟨.root, none, some [("y", .null), ("tags", .array [.text "a", .text "b"]),
          ("type", .null), ("aliases", .array []), ("name", .text "x")]⟩) := by
  obtain ⟨hcode, hrecord, hother⟩ := joined_or_replaced
  have hnumbers : OfType [point] (.list (.integer .u64)) numbers := by
    refine .list ?_
    simp only [List.forall_mem_cons]
    exact ⟨.integer (by decide), .integer (by decide), by simp⟩
  have hself : ∀ f ∈ MixedRecord.fields,
      f.keyed → (MixedRecord.self f.name.name).shape = f.shape := by
    simp only [MixedRecord.fields, List.forall_mem_cons]
    exact ⟨fun _ => rfl, fun h => absurd h (by decide), fun _ => rfl,
      fun h => absurd h (by decide), fun _ => rfl, fun _ => rfl, by simp⟩
  obtain ⟨hextends, -⟩ := hrecord [point] pointType located "Point" [] fields rfl encoder
  obtain ⟨w, hw, hjoined, -⟩ := hcode _ Nat (fun _ => MixedRecord.textCodec) default
    MixedRecord.fields MixedRecord.self hself encoder
  refine ⟨⟨rfl, hextends, rfl⟩, ⟨hnumbers, rfl, ?_⟩, hself,
    w, hw, hjoined, Option.some.inj (hw.symm.trans (by rfl))⟩
  exact (hother _ _ _ hnumbers rfl encoder _).mpr ⟨_, rfl, rfl⟩

end Crowded

end RecordCoding
