/-
Value trees as JSON text and back.

`Meets keys r a rest` says what comes of a step over a text in which `keys` are
repeated, in the order of reading: `a` if there are none, and otherwise the fault
of the first one.

* `meets_itemThen`, `meets_entryThen` — one element and one entry; the faults of
  what comes first come first, and an entry's value comes before its key;
* `meets_readValue` — a value of any written text, by recursion on its tree;
* `survives_iff_uniqueKeys` — a tree is read back from either layout exactly if
  its keys are unique.

Design notes: all that is asked of a layout is that it sets parts apart by white
space (`Style.Blank`).  The reader's fuel is bounded by the length of the text that
is left, which every element and every entry makes shorter.
-/
import RecordCoding.Proofs.Json.Scanning
import RecordCoding.Proofs.Tree.UniqueKeys

namespace RecordCoding

namespace Tree

mutual

/-- How many arrays and objects stand inside one another. -/
def depth : Tree → Nat
  | .array items => depthOfItems items + 1
  | .object entries => depthOfEntries entries + 1
  | _ => 0

/-- The depth of the deepest element. -/
def depthOfItems : List Tree → Nat
  | [] => 0
  | t :: rest => max t.depth (depthOfItems rest)

/-- The depth of the deepest entry. -/
def depthOfEntries : List (String × Tree) → Nat
  | [] => 0
  | (_, t) :: rest => max t.depth (depthOfEntries rest)

end

end Tree

namespace Json

/-! ### Steps over repeated keys -/

/-- What comes of a step over a text with repeated keys: the fault of the first
one, or the result if there are none. -/
def Meets {α : Type} (keys : List String) (r : Step α) (a : α) (rest : List Char) : Prop :=
  match keys with
  | [] => Takes r a rest
  | key :: _ => ∃ offset, r = .error ⟨.duplicateKey key, offset⟩

section

variable {α β : Type} {keys : List String} {r : Step α} {a : α} {rest : List Char}

theorem Meets.map (g : α → β) (h : Meets keys r a rest) :
    Meets keys (r.map fun (a, i) => (g a, i)) (g a) rest := by
  cases keys with
  | nil => exact Takes.map g h
  | cons key keys =>
    obtain ⟨o, rfl⟩ := h
    exact ⟨o, rfl⟩

end

/-! ### Styles -/

/-- A style that sets parts apart by white space alone. -/
structure Style.Blank (style : Style) : Prop where
  lead : ∀ d, ∀ c ∈ style.lead d, isBlank c
  colon : ∃ blanks, style.colon = ':' :: blanks ∧ ∀ c ∈ blanks, isBlank c

theorem blank_compact : Style.compact.Blank where
  lead _ := by simp [Style.compact]
  colon := ⟨[], rfl, by simp⟩

theorem blank_pretty : Style.pretty.Blank where
  lead d := by
    rw [Style.pretty, List.forall_mem_cons]
    refine ⟨rfl, fun c hc => ?_⟩
    obtain rfl := List.eq_of_mem_replicate hc
    rfl
  colon := ⟨[' '], rfl, by simp [isBlank]⟩

/-! ### Texts -/

/-- Elements behind others, each with its comma. -/
def itemsTail (style : Style) (d : Nat) (items : List Tree) : List Char :=
  items.flatMap fun t => ',' :: (style.lead d ++ textAt style d t)

/-- An entry of an object. -/
def entryText (style : Style) (d : Nat) (entry : String × Tree) : List Char :=
  stringText entry.1 ++ (style.colon ++ textAt style d entry.2)

/-- Entries behind others, each with its comma. -/
def entriesTail (style : Style) (d : Nat) (entries : List (String × Tree)) : List Char :=
  entries.flatMap fun entry => ',' :: (style.lead d ++ entryText style d entry)

section

variable {style : Style} {d : Nat}

theorem textOfItems_cons (t : Tree) (rest : List Tree) :
    textOfItems style d (t :: rest)
      = style.lead d ++ (textAt style d t ++ itemsTail style d rest) := by
  induction rest generalizing t with
  | nil => simp [textOfItems, itemsTail]
  | cons u rest ih =>
    rw [textOfItems, ih]
    · simp [itemsTail]
    · simp

theorem textOfEntries_cons (entry : String × Tree) (rest : List (String × Tree)) :
    textOfEntries style d (entry :: rest)
      = style.lead d ++ (entryText style d entry ++ entriesTail style d rest) := by
  induction rest generalizing entry with
  | nil => simp [textOfEntries, entriesTail, entryText]
  | cons other rest ih =>
    obtain ⟨key, t⟩ := entry
    rw [textOfEntries, ih]
    · simp [entriesTail, entryText]
    · simp

/-- The text of a value: it starts neither with white space nor with the end of an array. -/
def Opens (text : List Char) : Prop :=
  ∃ c more, text = c :: more ∧ isBlank c = false ∧ c ≠ ']'

theorem opens_textAt (style : Style) (d : Nat) {t : Tree} (hdouble : ∀ x, t ≠ .double x) :
    Opens (textAt style d t) := by
  cases t with
  | null => exact ⟨_, _, rfl, by decide, by decide⟩
  | bool b => cases b <;> exact ⟨_, _, rfl, by decide, by decide⟩
  | integer n =>
    rw [textAt, printedInt]
    by_cases hneg : n.toInt < 0
    · rw [if_pos hneg]
      exact ⟨_, _, rfl, by decide, by decide⟩
    · rw [if_neg hneg]
      obtain ⟨c, digits, hdigits, hc⟩ := Text.exists_digitsOf n.toInt.natAbs
      obtain ⟨hblank, hmark⟩ := ne_of_isDigit hc
      exact ⟨c, digits, hdigits, hblank, fun h => hmark (by simp [h])⟩
  | double x => exact absurd rfl (hdouble x)
  | text s => exact ⟨_, _, rfl, by decide, by decide⟩
  | array items => cases items <;> exact ⟨_, _, rfl, by decide, by decide⟩
  | object entries => cases entries <;> exact ⟨_, _, rfl, by decide, by decide⟩

theorem Opens.append {text : List Char} (h : Opens text) (after : List Char) :
    Opens (text ++ after) := by
  obtain ⟨c, more, rfl, hc⟩ := h
  exact ⟨c, more ++ after, rfl, hc⟩

theorem Opens.solid {text : List Char} (h : Opens text) : Solid text := by
  obtain ⟨c, more, rfl, hc, -⟩ := h
  exact solid_cons hc more

end

/-! ### Reading what was written -/

section

variable {style : Style} {d fuel depth : Nat} {rest : List Char}

/-- White space in front of a value makes no difference. -/
theorem exists_readValue_blanks (fuel depth : Nat) {blanks text : List Char}
    (hblanks : ∀ c ∈ blanks, isBlank c) (htext : Solid text) (o : Nat) :
    ∃ o', readValue (fuel + 1) depth ⟨blanks ++ text, o⟩ = readValue (fuel + 1) depth ⟨text, o'⟩ := by
  obtain ⟨o', ho⟩ := exists_trimmed hblanks htext o
  refine ⟨o', ?_⟩
  unfold readValue
  simp only [ho, trimmed_of_solid htext]

theorem readValue_digit {c : Char} (hc : c.isDigit) (o : Nat) :
    readValue (fuel + 1) depth ⟨c :: rest, o⟩ = readNumber false ⟨c :: rest, o⟩ := by
  obtain ⟨hblank, hmark⟩ := ne_of_isDigit hc
  simp only [List.mem_cons, List.not_mem_nil, or_false, not_or] at hmark
  unfold readValue
  simp only [trimmed_of_solid (solid_cons hblank rest)]
  split <;> simp_all

/-- A word, an integer or a string is read as what it was written for. -/
theorem takes_leaf {t : Tree} (hleaf : t.isLeaf) (hdouble : ∀ x, t ≠ .double x)
    (hrest : EndsNumber rest) (o : Nat) :
    Takes (readValue (fuel + 1) depth ⟨textAt style d t ++ rest, o⟩) t rest := by
  cases t with
  | null => exact (takes_readWord "ull".toList rest (o + 1)).map fun _ => Tree.null
  | bool b =>
    cases b with
    | true => exact (takes_readWord "rue".toList rest (o + 1)).map fun _ => Tree.bool true
    | false => exact (takes_readWord "alse".toList rest (o + 1)).map fun _ => Tree.bool false
  | integer n =>
    have hlimit : n.toInt.natAbs < digitLimit := by
      have hlow := n.le_toInt
      have hhigh := n.toInt_lt
      have hpow : digitLimit = 2 ^ 64 := rfl
      omega
    rw [textAt, printedInt]
    -- A sign is read before the digits, and tells whether the number is negated.
    by_cases hneg : n.toInt < 0
    · obtain ⟨o, h⟩ := exists_readNumber hrest true hlimit (o + 1)
      have hfinish := finishInteger_toInt n ⟨rest, o⟩
      rw [decide_eq_true hneg] at hfinish
      rw [if_pos hneg]
      exact ⟨o, h.trans hfinish⟩
    · obtain ⟨o', h⟩ := exists_readNumber hrest false hlimit o
      have hfinish := finishInteger_toInt n ⟨rest, o'⟩
      rw [decide_eq_false hneg] at hfinish
      obtain ⟨c, digits, hdigits, hc⟩ := Text.exists_digitsOf n.toInt.natAbs
      rw [if_neg hneg]
      rw [hdigits, List.cons_append] at h ⊢
      rw [readValue_digit hc]
      exact ⟨o', h.trans hfinish⟩
  | double x => exact absurd rfl (hdouble x)
  | text s =>
    obtain ⟨body, hbody, h⟩ := takes_stringText s rest (o + 1)
    rw [textAt, hbody]
    exact h.map Tree.text
  | array items => exact absurd hleaf (by simp [Tree.isLeaf])
  | object entries => exact absurd hleaf (by simp [Tree.isLeaf])

/-! ### Elements -/

/-- An element and those behind it, after the comma. -/
def itemThen (fuel depth : Nat) (i : Input) : Step (List Tree) :=
  match readValue fuel depth i with
  | .error f => .error f
  | .ok (t, i) =>
    match readItems fuel depth false i with
    | .error f => .error f
    | .ok (ts, i) => .ok (t :: ts, i)

theorem exists_readItems_first (fuel depth : Nat) {blanks text : List Char}
    (hblanks : ∀ c ∈ blanks, isBlank c) (htext : Opens text) (o : Nat) :
    ∃ o', readItems (fuel + 1) depth true ⟨blanks ++ text, o⟩ = itemThen fuel depth ⟨text, o'⟩ := by
  obtain ⟨o', ho⟩ := exists_trimmed hblanks htext.solid o
  obtain ⟨c, more, rfl, -, hc⟩ := htext
  refine ⟨o', ?_⟩
  rw [readItems]
  simp only [ho, if_true]
  rfl

theorem exists_readItems_more (fuel depth : Nat) {blanks text : List Char}
    (hblanks : ∀ c ∈ blanks, isBlank c) (htext : Opens text) (o : Nat) :
    ∃ o', readItems (fuel + 1) depth false ⟨',' :: (blanks ++ text), o⟩
      = itemThen fuel depth ⟨text, o'⟩ := by
  obtain ⟨o', ho⟩ := exists_trimmed hblanks htext.solid (o + 1)
  obtain ⟨c, more, rfl, -, hc⟩ := htext
  refine ⟨o', ?_⟩
  have hskip : (Input.mk (',' :: (blanks ++ c :: more)) o).skip.trimmed = ⟨c :: more, o'⟩ := ho
  rw [readItems, trimmed_of_solid (solid_cons (by decide) _)]
  simp only [hskip, Bool.false_eq_true, if_false]
  split
  · next h => exact absurd h (by simp)
  · next h => exact absurd (List.cons.inj h).1 (by decide)
  · next h =>
    obtain rfl := (List.cons.inj h).1
    have hopen : ∀ tail, c :: more = ']' :: tail → False := fun _ h => hc (List.cons.inj h).1
    simp only [if_true]
    rfl

/-- The end of an array, behind its elements. -/
theorem takes_endOfItems {blanks : List Char} (hblanks : ∀ c ∈ blanks, isBlank c) (first : Bool)
    (o : Nat) : Takes (readItems (fuel + 1) depth first ⟨blanks ++ ']' :: rest, o⟩) [] rest := by
  obtain ⟨o', ho⟩ := exists_trimmed hblanks (solid_cons (by decide : isBlank ']' = false) rest) o
  refine ⟨o' + 1, ?_⟩
  rw [readItems]
  simp only [ho]
  rfl

/-- The elements of an array, from the first one on. -/
theorem meets_itemThen {t : Tree} {ts : List Tree} {keys more : List String} {text after : List Char}
    {o : Nat} (hvalue : Meets keys (readValue fuel depth ⟨text, o⟩) t after)
    (htail : ∀ o, Meets more (readItems fuel depth false ⟨after, o⟩) ts rest) :
    Meets (keys ++ more) (itemThen fuel depth ⟨text, o⟩) (t :: ts) rest := by
  rw [itemThen]
  cases keys with
  | cons key keys =>
    obtain ⟨o', h⟩ := hvalue
    rw [h]
    exact ⟨o', rfl⟩
  | nil =>
    obtain ⟨o', h⟩ := hvalue
    have hmap := (htail o').map (t :: ·)
    simp only [h]
    rcases htail' : readItems fuel depth false ⟨after, o'⟩ with f | ⟨us, i⟩ <;> rw [htail'] at hmap <;>
      exact hmap

/-! ### Entries -/

/-- An entry and those behind it, after the comma; `done` are the entries before. -/
def entryThen (fuel depth : Nat) (done : List (String × Tree)) (i : Input) :
    Step (List (String × Tree)) :=
  match readString (i.rest.length + 1) [] i.skip with
  | .error f => .error f
  | .ok (key, i) =>
    let i := i.trimmed
    match i.rest with
    | ':' :: _ =>
      match readValue fuel depth i.skip with
      | .error f => .error f
      | .ok (t, i) =>
        if done.any (·.1 == key) then
          .error ((closeAfterFault i).fault (.duplicateKey key))
        else readEntries fuel depth (done ++ [(key, t)]) i
    | [] => .error (i.faultAhead .endInObject)
    | _ => .error (i.faultAhead .expectedColon)

theorem exists_readEntries_first (rest : List Char) (fuel depth : Nat) {blanks : List Char}
    (hblanks : ∀ c ∈ blanks, isBlank c) (o : Nat) :
    ∃ o', readEntries (fuel + 1) depth [] ⟨blanks ++ '"' :: rest, o⟩
      = entryThen fuel depth [] ⟨'"' :: rest, o'⟩ := by
  obtain ⟨o', ho⟩ := exists_trimmed hblanks (solid_cons (by decide : isBlank '"' = false) rest) o
  refine ⟨o', ?_⟩
  rw [readEntries]
  simp only [ho]
  rfl

theorem exists_readEntries_more (fuel depth : Nat) {blanks : List Char}
    (hblanks : ∀ c ∈ blanks, isBlank c) {done : List (String × Tree)}
    (hdone : done.isEmpty = false) (o : Nat) :
    ∃ o', readEntries (fuel + 1) depth done ⟨',' :: (blanks ++ '"' :: rest), o⟩
      = entryThen fuel depth done ⟨'"' :: rest, o'⟩ := by
  obtain ⟨o', ho⟩ := exists_trimmed hblanks (solid_cons (by decide : isBlank '"' = false) rest) (o + 1)
  refine ⟨o', ?_⟩
  rw [readEntries, trimmed_of_solid (solid_cons (by decide) _)]
  have hskip : (Input.mk (',' :: (blanks ++ '"' :: rest)) o).skip.trimmed = ⟨'"' :: rest, o'⟩ := ho
  simp only [hskip, hdone, Bool.false_eq_true, if_false]
  rfl

/-- The end of an object, behind its entries. -/
theorem takes_endOfEntries {blanks : List Char} (hblanks : ∀ c ∈ blanks, isBlank c)
    (done : List (String × Tree)) (o : Nat) :
    Takes (readEntries (fuel + 1) depth done ⟨blanks ++ '\x7d' :: rest, o⟩) done rest := by
  obtain ⟨o', ho⟩ := exists_trimmed hblanks (solid_cons (by decide : isBlank '\x7d' = false) rest) o
  refine ⟨o' + 1, ?_⟩
  rw [readEntries]
  simp only [ho]
  rfl

theorem any_key_eq (done : List (String × Tree)) (key : String) :
    (done.any fun e => e.1 == key) = decide (key ∈ done.map (·.1)) := by
  rw [Bool.eq_iff_iff]
  simp

/-- An entry is read completely before its key is compared with those before. -/
theorem meets_entryThen (hstyle : style.Blank) {key : String} {t : Tree} {keys more : List String}
    {text after : List Char} (htext : Solid text)
    (hvalue : ∀ o, Meets keys (readValue (fuel + 1) depth ⟨text, o⟩) t after)
    (done : List (String × Tree)) {es : List (String × Tree)} (htail : ∀ o,
      Meets more (readEntries (fuel + 1) depth (done ++ [(key, t)]) ⟨after, o⟩) es rest)
    {body : List Char} (hbody : stringText key ++ (style.colon ++ text) = '"' :: body) (o : Nat) :
    Meets (keys ++ (if key ∈ done.map (·.1) then [key] else []) ++ more)
      (entryThen (fuel + 1) depth done ⟨'"' :: body, o⟩) es rest := by
  obtain ⟨blanks, hcolon, hblanks⟩ := hstyle.colon
  obtain ⟨body', hbody', o₁, hkey⟩ := takes_stringText key (style.colon ++ text) (o + 1)
  obtain rfl : body' = body := (List.cons.inj (hbody'.symm.trans hbody)).2
  obtain ⟨o₂, hblank⟩ := exists_readValue_blanks fuel depth hblanks htext (o₁ + 1)
  rw [hcolon] at hkey
  have hread : readString ((Input.mk ('"' :: body') o).rest.length + 1) []
      (Input.mk ('"' :: body') o).skip = .ok (key, ⟨':' :: (blanks ++ text), o₁⟩) := hkey
  rw [entryThen, hread]
  have htrim : (Input.mk (':' :: (blanks ++ text)) o₁).trimmed = ⟨':' :: (blanks ++ text), o₁⟩ :=
    trimmed_of_solid (solid_cons (by decide) _)
  have hskip : (Input.mk (':' :: (blanks ++ text)) o₁).skip = ⟨blanks ++ text, o₁ + 1⟩ := rfl
  simp only [htrim, hskip, hblank, List.append_assoc]
  cases keys with
  -- A fault in the value is met before the key is looked at.
  | cons repeated keys =>
    obtain ⟨o₃, h⟩ := hvalue o₂
    rw [h]
    exact ⟨o₃, rfl⟩
  | nil =>
    obtain ⟨o₃, h⟩ := hvalue o₂
    rw [h]
    simp only [any_key_eq]
    by_cases hmem : key ∈ done.map (·.1)
    · rw [if_pos hmem, decide_eq_true hmem]
      exact ⟨_, rfl⟩
    · rw [if_neg hmem, decide_eq_false hmem]
      exact htail o₃

end

/-! ### Whole trees -/

section

variable {style : Style} {d fuel depth : Nat} {rest : List Char}

theorem endsNumber_of_blanks {blanks : List Char} (hblanks : ∀ c ∈ blanks, isBlank c)
    (hrest : EndsNumber rest) : EndsNumber (blanks ++ rest) := by
  cases blanks with
  | nil => exact hrest
  | cons c blanks =>
    intro b hb
    obtain rfl := Option.some.inj hb
    have hblank := hblanks c (List.mem_cons_self ..)
    simp only [isBlank, Bool.or_eq_true, decide_eq_true_eq] at hblank
    obtain ((rfl | rfl) | rfl) | rfl := hblank <;> decide

theorem endsNumber_cons {c : Char} (hc : c ∈ [',', ']', '\x7d']) : EndsNumber (c :: rest) := by
  intro b hb
  obtain rfl := Option.some.inj hb
  simp only [List.mem_cons, List.not_mem_nil, or_false] at hc
  obtain rfl | rfl | rfl := hc <;> decide

theorem endsNumber_itemsTail (ts : List Tree) (hrest : EndsNumber rest) :
    EndsNumber (itemsTail style d ts ++ rest) := by
  cases ts with
  | nil => exact hrest
  | cons t ts => exact endsNumber_cons (by decide)

theorem endsNumber_entriesTail (es : List (String × Tree)) (hrest : EndsNumber rest) :
    EndsNumber (entriesTail style d es ++ rest) := by
  cases es with
  | nil => exact hrest
  | cons e es => exact endsNumber_cons (by decide)

end

section

variable {style : Style}

theorem length_textAt_pos (style : Style) (d : Nat) {t : Tree} (hdouble : ∀ x, t ≠ .double x) :
    0 < (textAt style d t).length := by
  obtain ⟨c, more, htext, -⟩ := opens_textAt style d hdouble
  rw [htext]
  exact Nat.succ_pos _

theorem length_stringText (s : String) : 2 ≤ (stringText s).length := by
  simp [stringText]

theorem ne_double {t : Tree} (hdoubles : ∀ x, ¬ Tree.Subtree (.double x) t) (x : Double) :
    t ≠ .double x := by
  rintro rfl
  exact hdoubles x (.refl _)

theorem meets_leaf {t : Tree} (hleaf : t.isLeaf) {d fuel depth : Nat} {rest : List Char} (o : Nat)
    (hdoubles : ∀ x, ¬ Tree.Subtree (.double x) t) (hfuel : (textAt style d t).length ≤ fuel)
    (hrest : EndsNumber rest) :
    Meets t.repeatedKeys (readValue fuel depth ⟨textAt style d t ++ rest, o⟩) t rest := by
  have hpos := length_textAt_pos style d (ne_double hdoubles)
  obtain ⟨fuel, rfl⟩ := Nat.exists_eq_succ_of_ne_zero (Nat.ne_of_gt (Nat.lt_of_lt_of_le hpos hfuel))
  rw [(Tree.repeatedKeys_eq_nil_iff t).mpr (Tree.uniqueKeys_of_isLeaf hleaf)]
  exact takes_leaf hleaf (ne_double hdoubles) hrest o

variable (hstyle : style.Blank)

include hstyle

mutual

/-- A value of a text is read as the tree it was written for, unless a key is repeated. -/
theorem meets_readValue : ∀ (t : Tree) (d fuel depth : Nat) (rest : List Char) (o : Nat),
    (∀ x, ¬ Tree.Subtree (.double x) t) → t.depth ≤ depth →
      (textAt style d t).length ≤ fuel → EndsNumber rest →
        Meets t.repeatedKeys (readValue fuel depth ⟨textAt style d t ++ rest, o⟩) t rest
  | .null, _, _, _, _, o, hdoubles, _, hfuel, hrest => meets_leaf rfl o hdoubles hfuel hrest
  | .bool _, _, _, _, _, o, hdoubles, _, hfuel, hrest => meets_leaf rfl o hdoubles hfuel hrest
  | .integer _, _, _, _, _, o, hdoubles, _, hfuel, hrest => meets_leaf rfl o hdoubles hfuel hrest
  | .double _, _, _, _, _, o, hdoubles, _, hfuel, hrest => meets_leaf rfl o hdoubles hfuel hrest
  | .text _, _, _, _, _, o, hdoubles, _, hfuel, hrest => meets_leaf rfl o hdoubles hfuel hrest
  | .array [], _, fuel + 2, depth + 1, rest, o, _, _, _, _ => by
    have h : Takes (readItems (fuel + 1) depth true ⟨[] ++ ']' :: rest, o + 1⟩) [] rest :=
      takes_endOfItems (by simp) true (o + 1)
    exact h.map Tree.array
  | .array (t :: ts), d, fuel + 1, depth + 1, rest, o, hdoubles, hdepth, hfuel, _ => by
    have hdoubles := fun u (hu : u ∈ t :: ts) x hsub => hdoubles x (.item hu hsub)
    rw [List.forall_mem_cons] at hdoubles
    have hdepth : Tree.depthOfItems (t :: ts) ≤ depth := Nat.le_of_succ_le_succ hdepth
    rw [Tree.depthOfItems, Nat.max_le] at hdepth
    have hopens := opens_textAt style (d + 1) (ne_double hdoubles.1)
    have hpos := length_textAt_pos style (d + 1) (ne_double hdoubles.1)
    -- The brackets and a value that is not empty leave fuel for the parts.
    rw [textAt, textOfItems_cons] at hfuel
    simp only [List.length_cons, List.length_append, List.length_nil] at hfuel
    obtain ⟨fuel, rfl⟩ : ∃ f, fuel = f + 1 := ⟨fuel - 1, by omega⟩
    -- Whatever follows a value, a comma or the end, it does not go on like a number.
    have hend : EndsNumber (style.lead d ++ ']' :: rest) :=
      endsNumber_of_blanks (hstyle.lead d) (endsNumber_cons (by decide))
    have hvalue := fun o => meets_readValue t (d + 1) fuel depth
      (itemsTail style (d + 1) ts ++ (style.lead d ++ ']' :: rest)) o hdoubles.1 hdepth.1 (by omega)
      (endsNumber_itemsTail ts hend)
    have htail := fun o => meets_itemsTail ts (d + 1) fuel depth (style.lead d) rest o (hstyle.lead d)
      hdoubles.2 hdepth.2 (by omega)
    obtain ⟨o', hstep⟩ := exists_readItems_first fuel depth (hstyle.lead (d + 1))
      (hopens.append (itemsTail style (d + 1) ts ++ (style.lead d ++ ']' :: rest))) (o + 1)
    have hitems := meets_itemThen (hvalue o') htail
    rw [← hstep] at hitems
    have htext : textAt style d (.array (t :: ts)) ++ rest = '[' :: (style.lead (d + 1) ++
        (textAt style (d + 1) t ++ (itemsTail style (d + 1) ts ++ (style.lead d ++ ']' :: rest)))) := by
      rw [textAt, textOfItems_cons]
      simp
    rw [htext]
    exact hitems.map Tree.array
  | .object [], _, fuel + 2, depth + 1, rest, o, _, _, _, _ => by
    have h : Takes (readEntries (fuel + 1) depth [] ⟨[] ++ '\x7d' :: rest, o + 1⟩) [] rest :=
      takes_endOfEntries (by simp) [] (o + 1)
    exact h.map Tree.object
  | .object ((key, t) :: es), d, fuel + 1, depth + 1, rest, o, hdoubles, hdepth, hfuel, _ => by
    have hdoubles := fun u (hu : u ∈ (key, t) :: es) x hsub => hdoubles x (.entry hu hsub)
    rw [List.forall_mem_cons] at hdoubles
    have hdepth : Tree.depthOfEntries ((key, t) :: es) ≤ depth := Nat.le_of_succ_le_succ hdepth
    rw [Tree.depthOfEntries, Nat.max_le] at hdepth
    have hopens := opens_textAt style (d + 1) (ne_double hdoubles.1)
    have hpos : 0 < (textAt style (d + 1) t).length := length_textAt_pos style _ (ne_double hdoubles.1)
    have hkey := length_stringText key
    rw [textAt, textOfEntries_cons, entryText] at hfuel
    simp only [List.length_cons, List.length_append, List.length_nil] at hfuel
    obtain ⟨fuel, rfl⟩ : ∃ f, fuel = f + 2 := ⟨fuel - 2, by omega⟩
    have hend : EndsNumber (style.lead d ++ '\x7d' :: rest) :=
      endsNumber_of_blanks (hstyle.lead d) (endsNumber_cons (by decide))
    have hvalue := fun o => meets_readValue t (d + 1) (fuel + 1) depth
      (entriesTail style (d + 1) es ++ (style.lead d ++ '\x7d' :: rest)) o hdoubles.1 hdepth.1 (by omega)
      (endsNumber_entriesTail es hend)
    have htail := fun o => meets_entriesTail es [(key, t)] (d + 1) (fuel + 1) depth (style.lead d) rest o
      (hstyle.lead d) rfl hdoubles.2 hdepth.2 (by omega)
    obtain ⟨body, hbody⟩ : ∃ body, stringText key ++ (style.colon ++ (textAt style (d + 1) t ++
        (entriesTail style (d + 1) es ++ (style.lead d ++ '\x7d' :: rest)))) = '"' :: body := ⟨_, rfl⟩
    obtain ⟨o', hstep⟩ := exists_readEntries_first body (fuel + 1) depth (hstyle.lead (d + 1)) (o + 1)
    have hentries := meets_entryThen hstyle (hopens.append _).solid hvalue [] htail hbody o'
    rw [← hstep, ← hbody] at hentries
    have htext : textAt style d (.object ((key, t) :: es)) ++ rest = '\x7b' :: (style.lead (d + 1) ++
        (stringText key ++ (style.colon ++ (textAt style (d + 1) t ++
          (entriesTail style (d + 1) es ++ (style.lead d ++ '\x7d' :: rest)))))) := by
      rw [textAt, textOfEntries_cons, entryText]
      simp
    rw [htext]
    exact hentries.map Tree.object

theorem meets_itemsTail : ∀ (ts : List Tree) (d fuel depth : Nat) (blanks rest : List Char) (o : Nat),
    (∀ c ∈ blanks, isBlank c) → (∀ t ∈ ts, ∀ x, ¬ Tree.Subtree (.double x) t) →
      Tree.depthOfItems ts ≤ depth → (itemsTail style d ts).length < fuel →
        Meets (Tree.repeatedInItems ts)
          (readItems fuel depth false ⟨itemsTail style d ts ++ (blanks ++ ']' :: rest), o⟩) ts rest
  | [], _, fuel + 1, depth, blanks, rest, o, hblanks, _, _, _ => takes_endOfItems hblanks false o
  | t :: ts, d, fuel + 1, depth, blanks, rest, o, hblanks, hdoubles, hdepth, hfuel => by
    rw [List.forall_mem_cons] at hdoubles
    rw [Tree.depthOfItems, Nat.max_le] at hdepth
    rw [itemsTail, List.flatMap_cons, ← itemsTail, List.length_append, List.length_cons,
      List.length_append] at hfuel
    -- A comma comes first, then the element, with room for it and for those behind it.
    have hopens := opens_textAt style d (ne_double hdoubles.1)
    have hvalue := fun o => meets_readValue t d fuel depth
      (itemsTail style d ts ++ (blanks ++ ']' :: rest)) o hdoubles.1 hdepth.1 (by omega)
      (endsNumber_itemsTail ts (endsNumber_of_blanks hblanks (endsNumber_cons (by decide))))
    have htail := fun o => meets_itemsTail ts d fuel depth blanks rest o hblanks hdoubles.2 hdepth.2
      (by omega)
    obtain ⟨o', hstep⟩ := exists_readItems_more fuel depth (hstyle.lead d)
      (hopens.append (itemsTail style d ts ++ (blanks ++ ']' :: rest))) o
    have hitems := meets_itemThen (hvalue o') htail
    rw [← hstep] at hitems
    have htext : itemsTail style d (t :: ts) ++ (blanks ++ ']' :: rest) = ',' :: (style.lead d ++
        (textAt style d t ++ (itemsTail style d ts ++ (blanks ++ ']' :: rest)))) := by
      simp [itemsTail]
    rw [htext]
    exact hitems

theorem meets_entriesTail : ∀ (es done : List (String × Tree)) (d fuel depth : Nat)
    (blanks rest : List Char) (o : Nat),
    (∀ c ∈ blanks, isBlank c) → done.isEmpty = false →
      (∀ e ∈ es, ∀ x, ¬ Tree.Subtree (.double x) e.2) →
      Tree.depthOfEntries es ≤ depth → (entriesTail style d es).length < fuel →
        Meets (Tree.repeatedInEntries (done.map (·.1)) es)
          (readEntries fuel depth done ⟨entriesTail style d es ++ (blanks ++ '\x7d' :: rest), o⟩)
          (done ++ es) rest
  | [], done, _, fuel + 1, depth, blanks, rest, o, hblanks, _, _, _, _ => by
    rw [List.append_nil]
    exact takes_endOfEntries hblanks done o
  | (key, t) :: es, done, d, fuel + 1, depth, blanks, rest, o, hblanks, hdone, hdoubles, hdepth, hfuel => by
    rw [List.forall_mem_cons] at hdoubles
    rw [Tree.depthOfEntries, Nat.max_le] at hdepth
    -- The value has a text of its own, so there is fuel left when the key is read.
    have hpos := length_textAt_pos style d (ne_double hdoubles.1)
    rw [entriesTail, List.flatMap_cons, ← entriesTail, entryText] at hfuel
    simp only [List.length_cons, List.length_append] at hfuel
    obtain ⟨fuel, rfl⟩ : ∃ f, fuel = f + 1 := ⟨fuel - 1, by omega⟩
    have hopens := opens_textAt style d (ne_double hdoubles.1)
    have hvalue := fun o => meets_readValue t d (fuel + 1) depth
      (entriesTail style d es ++ (blanks ++ '\x7d' :: rest)) o hdoubles.1 hdepth.1 (by omega)
      (endsNumber_entriesTail es (endsNumber_of_blanks hblanks (endsNumber_cons (by decide))))
    have htail := fun o => meets_entriesTail es (done ++ [(key, t)]) d (fuel + 1) depth blanks rest o
      hblanks (by simp) hdoubles.2 hdepth.2 (by omega)
    obtain ⟨body, hbody⟩ : ∃ body, stringText key ++ (style.colon ++ (textAt style d t ++
        (entriesTail style d es ++ (blanks ++ '\x7d' :: rest)))) = '"' :: body := ⟨_, rfl⟩
    obtain ⟨o', hstep⟩ := exists_readEntries_more (fuel + 1) depth (hstyle.lead d) hdone o
    have hentries := meets_entryThen hstyle (hopens.append _).solid hvalue done htail hbody o'
    rw [← hstep, ← hbody] at hentries
    have htext : entriesTail style d ((key, t) :: es) ++ (blanks ++ '\x7d' :: rest) = ',' ::
        (style.lead d ++ (stringText key ++ (style.colon ++ (textAt style d t ++
          (entriesTail style d es ++ (blanks ++ '\x7d' :: rest)))))) := by
      simp [entriesTail, entryText]
    rw [htext, Tree.repeatedInEntries]
    simpa using hentries

end

/-- A written text is read as its tree, or the fault is that of the first repeated key. -/
theorem read_write {t : Tree} (hdoubles : ∀ x, ¬ Tree.Subtree (.double x) t)
    (hdepth : t.depth ≤ depthLimit) :
    match t.repeatedKeys with
    | [] => read (write style t).toList = .ok t
    | key :: _ => ∃ offset, read (write style t).toList = .error ⟨.duplicateKey key, offset⟩ := by
  have hmeets := meets_readValue hstyle t 0 (2 * (textAt style 0 t).length + 2) depthLimit [] 0 hdoubles
    hdepth (by omega) (by simp [EndsNumber])
  rw [List.append_nil] at hmeets
  rw [write, String.toList_ofList, read, readFirst]
  rcases hkeys : t.repeatedKeys with _ | ⟨key, keys⟩ <;> rw [hkeys] at hmeets
  · obtain ⟨offset, h⟩ := hmeets
    rw [h]
    rfl
  · obtain ⟨offset, h⟩ := hmeets
    rw [h]
    exact ⟨offset, rfl⟩

end

/-- **Trees survive as text exactly if their keys are unique.**  A tree without
doubles that is not nested too deeply is read back from its text in either layout
if no object in it repeats a key; otherwise both fail with the key that is first
found repeated. -/
theorem survives_iff_uniqueKeys (t : Tree) (hdoubles : ∀ x, ¬ Tree.Subtree (.double x) t)
    (hdepth : t.depth ≤ 127) :
    (t.UniqueKeys →
      read (write .compact t).toList = .ok t ∧ read (write .pretty t).toList = .ok t) ∧
      (¬ t.UniqueKeys → ∃ key, t.repeatedKeys.head? = some key ∧
        (∃ offset, read (write .compact t).toList = .error ⟨.duplicateKey key, offset⟩) ∧
        ∃ offset, read (write .pretty t).toList = .error ⟨.duplicateKey key, offset⟩) := by
  have hcompact := read_write blank_compact hdoubles hdepth
  have hpretty := read_write blank_pretty hdoubles hdepth
  rw [← Tree.repeatedKeys_eq_nil_iff]
  rcases hkeys : t.repeatedKeys with _ | ⟨key, keys⟩ <;> rw [hkeys] at hcompact hpretty
  · exact ⟨fun _ => ⟨hcompact, hpretty⟩, fun h => absurd rfl h⟩
  · exact ⟨fun h => absurd h (by simp), fun _ => ⟨key, rfl, hcompact, hpretty⟩⟩

/-! ### Trees that survive and one that does not -/

namespace Kept

/-- Integers at their limits, a control character, and one key at two depths. -/
def tree : Tree :=
  .object [("id", .array [.integer Int64.minValue, .integer Int64.maxValue]),
    ("\x01\"", .object [("id", .text "ключ\n")])]

/-- The outer key is repeated first in the text, and the inner one is found first. -/
def twice : Tree :=
  .object [("a", .null), ("a", .object [("b", .null), ("b", .bool true)])]

theorem no_double_tree (x : Double) : ¬ Tree.Subtree (.double x) tree := by
  simp (disch := decide) [tree, Tree.subtree_array_iff, Tree.subtree_object_iff, Tree.subtree_of_isLeaf]

theorem no_double_twice (x : Double) : ¬ Tree.Subtree (.double x) twice := by
  simp (disch := decide) [twice, Tree.subtree_object_iff, Tree.subtree_of_isLeaf]

theorem survives_or_not :
    ((∀ x, ¬ Tree.Subtree (.double x) tree) ∧ tree.depth ≤ 127 ∧ tree.UniqueKeys ∧
      read (write .compact tree).toList = .ok tree ∧ read (write .pretty tree).toList = .ok tree) ∧
      (∀ x, ¬ Tree.Subtree (.double x) twice) ∧ twice.depth ≤ 127 ∧ ¬ twice.UniqueKeys ∧
      twice.repeatedKeys.head? = some "b" ∧
      (∃ offset, read (write .compact twice).toList = .error ⟨.duplicateKey "b", offset⟩) ∧
      ∃ offset, read (write .pretty twice).toList = .error ⟨.duplicateKey "b", offset⟩ := by
  have hdepth : tree.depth ≤ 127 := by decide
  have htwice : twice.depth ≤ 127 := by decide
  have hunique : tree.UniqueKeys := (Tree.repeatedKeys_eq_nil_iff tree).mp (by decide)
  have hrepeats : ¬ twice.UniqueKeys := fun h =>
    absurd ((Tree.repeatedKeys_eq_nil_iff twice).mpr h) (by decide)
  refine ⟨⟨no_double_tree, hdepth, hunique,
    (survives_iff_uniqueKeys tree no_double_tree hdepth).1 hunique⟩,
    no_double_twice, htwice, hrepeats, by decide, ?_⟩
  obtain ⟨key, hkey, hfails⟩ := (survives_iff_uniqueKeys twice no_double_twice htwice).2 hrepeats
  obtain rfl : "b" = key := Option.some.inj (Eq.trans (by decide) hkey)
  exact hfails

end Kept

end Json

end RecordCoding
