/-
An encoder over a whole run of operations.

An `Operation` is one call on an encoder, or on a container that was opened on
it.  In a run every operation is carried out, whatever became of the ones before.
A log tells what the operations of a run changed (`Change`), with what a value
did that wrote itself straight into the encoder.

`reached_by_run`: at every point of every run

* the single value and the entries are not both there, and no key occurs twice;
* the entries of an earlier point come first, unless a single value was written
  in between;
* the entries are those that were written since the container was opened afresh,
  each key with the tree that was written first;
* the tree is that of `Content`, a machine with three states that is told nothing
  but the log.

Design notes:

* A write under a key opens its container.  Opening a container that is open does
  nothing (`opened_of_opened`, `opened_put`), so writing through one that is kept
  open is the same.
* A value that goes its own way with an encoder carries out operations as well,
  so a `Writing` stands for what it does.
* The log grows along a run, and `Explains` is what the log and the encoder have
  to do with each other all the way.
-/
import Mathlib.Data.List.DropRight
import RecordCoding.Proofs.Writing.Atomic

namespace RecordCoding

/-! ### Changes -/

/-- What an operation does to the encoder it is carried out on. -/
inductive Change
  /-- A keyed container was opened, or opened again. -/
  | opened
  /-- A tree was written under a key. -/
  | entry (key : String) (t : Tree)
  /-- A tree was written as the single value. -/
  | single (t : Tree)
  deriving Inhabited

namespace Change

def isSingle : Change → Bool
  | single _ => true
  | _ => false

def entry? : Change → Option (String × Tree)
  | entry key t => some (key, t)
  | _ => none

end Change

/-- The entries written since a single value was last written.  A container that
is opened after that value is a new one, and one that is opened again is not. -/
def entriesSinceSingle (log : List Change) : List (String × Tree) :=
  (log.rtakeWhile fun c => !c.isSingle).filterMap Change.entry?

/-- What an encoder holds, as an abstract machine. -/
inductive Content
  | nothing
  | single (t : Tree)
  /-- Trees under distinct keys, in the order of insertion. -/
  | map (entries : List (String × Tree))
  deriving Inhabited

namespace Content

/-- The content after a change.  A key that is there keeps its tree. -/
def after : Content → Change → Content
  | map entries, .opened => map entries
  | _, .opened => map []
  | map entries, .entry key t =>
    map (if key ∈ entries.map (·.1) then entries else entries ++ [(key, t)])
  | c, .entry _ _ => c
  | _, .single t => single t

/-- The content after all changes of a log. -/
def ofLog (log : List Change) : Content := log.foldl after nothing

def tree : Content → Tree
  | nothing => .null
  | single t => t
  | map entries => .object entries

/-- The encoder with a given content. -/
def encoder (path : CodingPath) : Content → Encoder
  | nothing => ⟨path, none, none⟩
  | single t => ⟨path, some t, none⟩
  | map entries => ⟨path, none, some entries⟩

theorem tree_encoder (c : Content) (path : CodingPath) : (c.encoder path).tree = c.tree := by
  cases c <;> rfl

end Content

/-! ### The changes of a writing -/

namespace Writing

/-- The changes of writes into an open container. -/
def keyedChanges : List (KeyedWriting Writing) → Encoder → List Change
  | [], _ => []
  | ⟨key, tolerated, w⟩ :: rest, e =>
    match e.put key w, w.treeAt (e.path.key key) with
    | (.ok (), e'), .ok t => .entry key t :: keyedChanges rest e'
    | (_, e'), _ => if tolerated then keyedChanges rest e' else []

mutual

/-- The changes that a writing makes to its encoder, up to its failure. -/
def changes : Writing → Encoder → List Change
  | .tree t, _ => [.single t]
  | .integer n, _ => if fitsInt64 n then [.single (.integer (Int64.ofInt n))] else []
  | .elements items, e =>
    match trees items e.path 0 with
    | .ok ts => [.single (.array ts)]
    | .error _ => []
  | .keyed writes, e => .opened :: keyedChanges writes e.opened
  | .failing _, _ => []
  | .sequence steps, e => sequenceChanges steps e
  | .attempt w, e => w.changes e

/-- The changes of writings one after the other, up to the first failure. -/
def sequenceChanges : List Writing → Encoder → List Change
  | [], _ => []
  | w :: rest, e =>
    match w.run e with
    | (.error _, _) => w.changes e
    | (.ok (), e') => w.changes e ++ sequenceChanges rest e'

end

end Writing

/-! ### Operations -/

/-- A call on an encoder, or on a container opened on it. -/
inductive Operation
  /-- Open a container with the keys of a set. -/
  | container (keys : KeySet)
  /-- Write a value under a key of any set. -/
  | put (key : CodingKey) (w : Writing)
  /-- Write a value under a key, or leave the key out. -/
  | putIfPresent (key : CodingKey) (w : Option Writing)
  | value (t : Tree)
  | elements (items : List Writing)
  /-- Let a value write itself straight into the encoder. -/
  | encode (w : Writing)
  deriving Inhabited

namespace Operation

/-- Carry out an operation; a write under a key opens its container. -/
def run : Operation → Encoder → Written
  | container _, e => (.ok (), e.opened)
  | put key w, e => e.opened.put key.text w
  | putIfPresent key w, e => e.opened.putIfPresent key.text w
  | value t, e => (.ok (), e.write t)
  | elements items, e => (Writing.elements items).run e
  | encode w, e => w.run e

/-- An operation as a writing of its own. -/
def writing : Operation → Writing
  | container _ => .keyed []
  | put key w => .keyed [⟨key.text, false, w⟩]
  | putIfPresent key w => .keyed (w.toList.map fun w => ⟨key.text, false, w⟩)
  | value t => .tree t
  | elements items => .elements items
  | encode w => w

/-- The encoder that operations lead to, failures being passed over. -/
def after (e : Encoder) (ops : List Operation) : Encoder := ops.foldl (fun e op => (op.run e).2) e

/-- What the operations of a run change. -/
def changesOf : List Operation → Encoder → List Change
  | [], _ => []
  | op :: rest, e => op.writing.changes e ++ changesOf rest (op.run e).2

/-- The encoder that a run on a fresh encoder leads to. -/
def reached (path : CodingPath) (ops : List Operation) : Encoder := after (.fresh path) ops

/-- The log of a run on a fresh encoder. -/
def history (path : CodingPath) (ops : List Operation) : List Change := changesOf ops (.fresh path)

end Operation

/-! ### Containers that are kept open -/

namespace Encoder

variable (e : Encoder) (key : String) (w : Writing)

theorem opened_of_opened : e.opened.opened = e.opened := rfl

/-- A container stays open under a write, so it need not be opened again. -/
theorem opened_put : (e.opened.put key w).2.opened = (e.opened.put key w).2 := by
  rw [put, putWith]
  by_cases hkey : e.opened.holdsKey key
  · rw [if_pos hkey, opened_of_opened]
  · rw [if_neg hkey]
    rcases w.treeAt (e.opened.path.key key) with _ | t
    · exact opened_of_opened e
    · rfl

/-- A write that succeeds has made a tree. -/
theorem exists_tree_of_putWith {e e' : Encoder} {key : String} {encode : TreeMaker}
    (h : e.putWith key encode = (.ok (), e')) : ∃ t, encode (e.path.key key) = .ok t := by
  rw [putWith] at h
  by_cases hkey : e.holdsKey key
  · rw [if_pos hkey] at h
    exact absurd (Prod.mk.inj h).1 (by simp)
  · rw [if_neg hkey] at h
    rcases hencode : encode (e.path.key key) with _ | t
    · rw [hencode] at h
      exact absurd (Prod.mk.inj h).1 (by simp)
    · exact ⟨t, rfl⟩

end Encoder

/-! ### Logs and encoders -/

section

variable {log : List Change} {e e' : Encoder} {path : CodingPath} {key : String} {t : Tree}

theorem entriesSinceSingle_opened :
    entriesSinceSingle (log ++ [.opened]) = entriesSinceSingle log := by
  rw [entriesSinceSingle, List.rtakeWhile_concat_pos _ _ _ rfl, List.filterMap_append]
  exact List.append_nil _

theorem entriesSinceSingle_entry :
    entriesSinceSingle (log ++ [.entry key t]) = entriesSinceSingle log ++ [(key, t)] := by
  rw [entriesSinceSingle, List.rtakeWhile_concat_pos _ _ _ rfl, List.filterMap_append]
  rfl

theorem entriesSinceSingle_single : entriesSinceSingle (log ++ [.single t]) = [] := by
  rw [entriesSinceSingle, List.rtakeWhile_concat_neg _ _ _ (by simp [Change.isSingle])]
  rfl

/-- Without a single value, entries are only added. -/
theorem entriesSinceSingle_append {more : List Change} (h : ∀ c ∈ more, c.isSingle = false) :
    entriesSinceSingle (log ++ more) = entriesSinceSingle log ++ more.filterMap Change.entry? := by
  induction more generalizing log with
  | nil => rw [List.append_nil, List.filterMap_nil, List.append_nil]
  | cons c rest ih =>
    have hrest := fun d hd => h d (List.mem_cons_of_mem _ hd)
    rw [← List.singleton_append, ← List.append_assoc, ih hrest]
    cases c with
    | opened => rw [entriesSinceSingle_opened]; rfl
    | entry key t => rw [entriesSinceSingle_entry, List.append_assoc]; rfl
    | single t => exact absurd (h _ (List.mem_cons_self ..)) (by simp [Change.isSingle])

/-- What the log of a run says about the encoder that the run led to. -/
structure Explains (log : List Change) (e : Encoder) : Prop where
  /-- The encoder holds what the abstract machine does. -/
  content : e = (Content.ofLog log).encoder e.path
  written : e.written = entriesSinceSingle log
  nodup : (e.written.map (·.1)).Nodup

namespace Explains

theorem fresh (path : CodingPath) : Explains [] (.fresh path) where
  content := rfl
  written := rfl
  nodup := List.nodup_nil

theorem exclusive (h : Explains log e) : e.single = none ∨ e.entries = none := by
  rw [h.content]
  cases Content.ofLog log with
  | nothing => exact Or.inl rfl
  | single t => exact Or.inr rfl
  | map entries => exact Or.inl rfl

theorem opened (h : Explains log e) : Explains (log ++ [.opened]) e.opened where
  content := by
    rw [Content.ofLog, List.foldl_concat, ← Content.ofLog]
    have hcontent := h.content
    cases hmachine : Content.ofLog log <;> rw [hmachine] at hcontent <;> rw [hcontent] <;> rfl
  written := by
    rw [entriesSinceSingle_opened, ← h.written]
    rfl
  nodup := h.nodup

/-- A single value takes the place of whatever was there. -/
theorem write (log : List Change) (e : Encoder) (t : Tree) :
    Explains (log ++ [.single t]) (e.write t) where
  content := by
    rw [Content.ofLog, List.foldl_concat, ← Content.ofLog]
    cases Content.ofLog log <;> rfl
  written := by
    rw [entriesSinceSingle_single]
    rfl
  nodup := List.nodup_nil

/-- A write into an open container that succeeds. -/
theorem putWith {done : List (String × Tree)} {encode : TreeMaker} (h : Explains log e)
    (hopen : e.entries = some done) (hput : e.putWith key encode = (.ok (), e'))
    (htree : encode (e.path.key key) = .ok t) :
    Explains (log ++ [.entry key t]) e' ∧ e'.entries = some (done ++ [(key, t)]) := by
  obtain ⟨path, single, entries⟩ := e
  obtain rfl : entries = some done := hopen
  obtain ⟨hnew, made, hmade, rfl⟩ := Encoder.putWith_eq_ok_iff.mp hput
  obtain rfl : made = t := Except.ok.inj (hmade.symm.trans htree)
  have hwritten : done = entriesSinceSingle log := h.written
  -- The machine has the same entries, so the key is new to it as well.
  have hmachine : Content.ofLog log = .map done ∧ single = none := by
    have hcontent := h.content
    cases hmachine : Content.ofLog log <;> rw [hmachine] at hcontent <;>
      simp_all [Content.encoder]
  refine ⟨⟨?_, ?_, ?_⟩, rfl⟩
  · rw [Content.ofLog, List.foldl_concat, ← Content.ofLog, hmachine.1, hmachine.2, Content.after,
      if_neg hnew]
    rfl
  · rw [entriesSinceSingle_entry, ← hwritten]
    rfl
  · have hnodup : (done.map (·.1)).Nodup := h.nodup
    show ((done ++ [(key, made)]).map (·.1)).Nodup
    rw [List.map_append, List.nodup_append]
    refine ⟨hnodup, by simp, fun k hk l hl heq => ?_⟩
    obtain rfl : l = key := by simpa using hl
    exact hnew (heq ▸ hk)

end Explains

/-! ### Step and run -/

/-- Writes into an open container, failed ones among them. -/
theorem explains_runKeyed {writes : List (KeyedWriting Writing)} {done : List (String × Tree)}
    (h : Explains log e) (hopen : e.entries = some done) :
    Explains (log ++ Writing.keyedChanges writes e) (Writing.runKeyed writes e).2 := by
  induction writes generalizing log e done with
  | nil =>
    rw [Writing.keyedChanges, List.append_nil]
    exact h
  | cons w rest ih =>
    obtain ⟨key, tolerated, w⟩ := w
    rw [Writing.runKeyed_cons, Writing.keyedChanges, Encoder.put]
    rcases hput : e.putWith key w.treeAt with ⟨err | ⟨⟩, e'⟩
    -- A write that failed changed nothing, and the log is silent about it.
    · obtain rfl : e' = e := Encoder.atomic_putWith key w.treeAt e err e' hput
      cases tolerated with
      | false => simpa using h
      | true => exact ih h hopen
    · obtain ⟨t, htree⟩ := Encoder.exists_tree_of_putWith hput
      obtain ⟨hstep, hopen'⟩ := h.putWith hopen hput htree
      simp only [htree]
      rw [List.append_cons]
      exact ih hstep hopen'

mutual

/-- One writing, carried out on the encoder as it stands. -/
theorem explains_run : ∀ (w : Writing) {log : List Change} {e : Encoder}, Explains log e →
    Explains (log ++ w.changes e) (w.run e).2
  | .tree t, log, e, h => by
    rw [Writing.changes, Writing.run]
    exact .write log e t
  | .integer n, log, e, h => by
    rw [Writing.changes, Writing.run]
    by_cases hfits : fitsInt64 n
    · rw [if_pos hfits, if_pos hfits]
      exact .write log e _
    · rw [if_neg hfits, if_neg hfits, List.append_nil]
      exact h
  -- Elements are written into encoders of their own, so nothing of them stays if one fails.
  | .elements items, log, e, h => by
    rw [Writing.changes, Writing.run]
    rcases Writing.trees items e.path 0 with _ | ts
    · simpa using h
    · exact .write log e _
  | .keyed writes, log, e, h => by
    rw [Writing.changes, Writing.run, List.append_cons]
    exact explains_runKeyed h.opened rfl
  | .failing message, log, e, h => by
    rw [Writing.changes, Writing.run, List.append_nil]
    exact h
  | .sequence steps, log, e, h => by
    rw [Writing.changes, Writing.run]
    exact explains_runSequence steps h
  | .attempt w, log, e, h => by
    rw [Writing.changes, Writing.run]
    exact explains_run w h

theorem explains_runSequence : ∀ (steps : List Writing) {log : List Change} {e : Encoder},
    Explains log e →
      Explains (log ++ Writing.sequenceChanges steps e) (Writing.runSequence steps e).2
  | [], log, e, h => by
    rw [Writing.sequenceChanges, Writing.runSequence, List.append_nil]
    exact h
  | w :: rest, log, e, h => by
    have hw := explains_run w h
    rw [Writing.sequenceChanges, Writing.runSequence]
    rcases hrun : w.run e with ⟨_ | ⟨⟩, e'⟩
    · rw [hrun] at hw
      exact hw
    · rw [hrun] at hw
      simp only
      rw [← List.append_assoc]
      exact explains_runSequence rest hw

end

namespace Operation

/-- One write under a key is a container of its own. -/
theorem put_eq_run_keyed (key : String) (w : Writing) (e : Encoder) :
    e.opened.put key w = (Writing.keyed [⟨key, false, w⟩]).run e := by
  rw [Writing.run, Writing.runKeyed_cons, Encoder.put]
  rcases e.opened.putWith key w.treeAt with ⟨_ | ⟨⟩, e'⟩ <;> rfl

/-- An operation does what its writing does. -/
theorem run_eq (op : Operation) (e : Encoder) : op.run e = op.writing.run e := by
  cases op with
  | put key w => exact put_eq_run_keyed key.text w e
  | putIfPresent key w =>
    cases w with
    | none => rfl
    | some w => exact put_eq_run_keyed key.text w e
  | _ => rfl

theorem explains_after (ops : List Operation) (h : Explains log e) :
    Explains (log ++ changesOf ops e) (after e ops) := by
  induction ops generalizing log e with
  | nil =>
    rw [changesOf, List.append_nil]
    exact h
  | cons op rest ih =>
    have hop := explains_run op.writing h
    rw [← run_eq] at hop
    rw [changesOf, ← List.append_assoc, after, List.foldl_cons]
    exact ih hop

/-- What follows a point of a run goes on from the encoder reached there. -/
theorem reached_append (path : CodingPath) (before rest : List Operation) :
    reached path (before ++ rest) = after (reached path before) rest := by
  rw [reached, reached, after, after, after, List.foldl_append]

theorem explains_reached (path : CodingPath) (ops : List Operation) :
    Explains (history path ops) (reached path ops) :=
  explains_after ops (.fresh path)

/-- **Every point of every run**, here the one between `before` and `rest`. -/
theorem reached_by_run (path : CodingPath) (before rest : List Operation) :
    ((reached path before).single = none ∨ (reached path before).entries = none) ∧
      ((reached path before).written.map (·.1)).Nodup ∧
      ((∀ c ∈ changesOf rest (reached path before), c.isSingle = false) →
        (reached path before).written <+: (reached path (before ++ rest)).written) ∧
      (reached path before).written.length = (entriesSinceSingle (history path before)).length ∧
      (∀ key, (reached path before).written.lookup key
        = (entriesSinceSingle (history path before)).lookup key) ∧
      (reached path before).tree = (Content.ofLog (history path before)).tree := by
  have hpoint := explains_reached path before
  refine ⟨hpoint.exclusive, hpoint.nodup, fun hentries => ?_, ?_, fun key => ?_, ?_⟩
  · have hlater := explains_after rest hpoint
    rw [reached_append, hlater.written, entriesSinceSingle_append hentries, ← hpoint.written]
    exact List.prefix_append _ _
  · rw [hpoint.written]
  · rw [hpoint.written]
  · rw [hpoint.content, Content.tree_encoder]

end Operation

end

/-! ### A run of every kind of operation -/

namespace MixedRun

/-- Two keys of different sets with one text. -/
def name : CodingKey := ⟨"A0", "name"⟩
def otherName : CodingKey := ⟨"B2", "name"⟩

def nickname : CodingKey := ⟨"A1", "nickname"⟩

/-- Entries that a single value drops; then a container that is opened again, a
key that is taken, and a record that fails half way. -/
def before : List Operation :=
  [.put nickname (.integer 1), .value (.bool true), .container [name, nickname],
    .put name (.tree (.text "a")), .put otherName (.tree (.text "b")),
    .encode (.keyed [⟨"x", false, .integer 2⟩, ⟨"y", false, .failing "no"⟩]),
    .elements [.tree .null, .failing "no"]]

/-- One more entry, and one that is left out. -/
def rest : List Operation :=
  [.putIfPresent otherName none, .putIfPresent nickname (some (.integer 3))]

/-- What is reached half way is the beginning of what is reached in the end. -/
theorem entries_reached :
    Operation.history .root before
        = [.opened, .entry "nickname" (.integer 1), .single (.bool true), .opened, .opened,
          .entry "name" (.text "a"), .opened, .opened, .entry "x" (.integer 2)] ∧
      (∀ c ∈ Operation.changesOf rest (Operation.reached .root before), c.isSingle = false) ∧
      (Operation.reached .root before).written = [("name", .text "a"), ("x", .integer 2)] ∧
      (Operation.reached .root before).written
        <+: (Operation.reached .root (before ++ rest)).written ∧
      (Operation.reached .root before).tree
        = (Content.ofLog (Operation.history .root before)).tree := by
  obtain ⟨-, -, hbegins, -, -, htree⟩ := Operation.reached_by_run .root before rest
  have hentries : ∀ c ∈ Operation.changesOf rest (Operation.reached .root before),
      c.isSingle = false := by decide
  exact ⟨rfl, hentries, rfl, hbegins hentries, htree⟩

end MixedRun

end RecordCoding
