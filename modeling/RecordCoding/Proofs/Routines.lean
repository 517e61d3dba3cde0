/-
Code that reads and writes without asking where it stands.

A type may bring code of its own for both directions.  `ReadingRoutine` and
`WritingRoutine` are all code that works with the operations of its decoder or its
encoder and does not look at a path: it uses every operation but the one that tells
the path, lets other code do a part in the same place or further down, goes on as it
likes after a failure, and sees everything of a failure but its path.

`ReadingRoutine.run_under` and `WritingRoutine.run_under`: such code does the same
under every root.

Design notes:

* A routine is indexed by the number of failures that it has met and can still raise.
  It is shown a failure without its path (`DecodeError.bare`), and raises the failure
  as it was.
* What reads an element or an entry may depend on its tree, so that the code of a
  recursive type is unfolded along the tree.  A routine that writes is that of one
  value anyway.
* Which keys an object has follows from its tree, so `ReadingRoutine.look` covers
  looks at keys.  An encoder shows nothing but the number of its entries.
-/
import RecordCoding.Proofs.Reading.Place
import RecordCoding.Proofs.Writing.Entries

namespace RecordCoding

/-! ### Failures that were met -/

/-- A failure without its path. -/
def DecodeError.bare (err : DecodeError) : DecodeError := err.mapPath fun _ => .root

/-- A failure without its path. -/
def EncodeError.bare (err : EncodeError) : EncodeError := err.mapPath fun _ => .root

theorem DecodeError.bare_under (err : DecodeError) (outer : CodingPath) :
    (err.under outer).bare = err.bare := by
  cases err <;> rfl

theorem EncodeError.bare_under (err : EncodeError) (outer : CodingPath) :
    (err.under outer).bare = err.bare := by
  cases err <;> rfl

/-- The failures met so far with one more in front of them. -/
def further {ε : Type} {n : Nat} (err : ε) (met : Fin n → ε) : Fin (n + 1) → ε :=
  Fin.cases err met

theorem further_map {ε : Type} {n : Nat} (f : ε → ε) (err : ε) (met : Fin n → ε) :
    further (f err) (fun i => f (met i)) = fun i => f (further err met i) :=
  funext (Fin.cases rfl fun _ => rfl)

/-- No failure so far. -/
def unmet {ε : Type} : Fin 0 → ε := fun i => i.elim0

theorem eq_unmet {ε : Type} (met : Fin 0 → ε) : met = unmet := funext fun i => i.elim0

/-! ### Reading -/

/-- A failure that code asks its decoder for. -/
inductive Complaint
  | mismatch (expected : String)
  | outOfRange (target : String)
  | custom (message : String)

def Decoder.complaint (d : Decoder) : Complaint → DecodeError
  | .mismatch expected => d.mismatch expected
  | .outOfRange target => d.outOfRange target
  | .custom message => d.failure message

theorem Decoder.complaint_under (d : Decoder) (outer : CodingPath) (c : Complaint) :
    (d.under outer).complaint c = (d.complaint c).under outer := by
  cases c with
  | mismatch expected => exact d.mismatch_under outer expected
  | outOfRange target => rfl
  | custom message => rfl

/-- What code lets other code read: `Access β γ` makes a `γ` of what is read as `β`. -/
inductive Access : Type → Type → Type 1
  /-- The node itself. -/
  | here {β : Type} : Access β β
  /-- All elements of an array. -/
  | elements {β : Type} : Access β (List β)
  /-- The first entry under a key. -/
  | entry {β : Type} (key : String) : Access β β
  /-- The first entry under a key; a missing key and `null` are no value. -/
  | entryIfPresent {β : Type} (key : String) : Access β (Option β)

/-- Read by an access. -/
def Access.read {β γ : Type} :
    Access β γ → (Decoder → Except DecodeError β) → Decoder → Except DecodeError γ
  | .here, f, d => f d
  | .elements, f, d => d.elements f
  | .entry key, f, d => d.container.bind fun c => c.decode key f
  | .entryIfPresent key, f, d => d.container.bind fun c => c.decodeIfPresent key f

/-- Code that reads a value of type `α`, with `n` failures behind it. -/
inductive ReadingRoutine : Nat → Type → Type 1
  /-- End with a value. -/
  | done {n : Nat} {α : Type} (a : α) : ReadingRoutine n α
  /-- End with a failure that was met, the latest being the first. -/
  | raise {n : Nat} {α : Type} (i : Fin n) : ReadingRoutine n α
  /-- End with a failure of the decoder. -/
  | complain {n : Nat} {α : Type} (c : Complaint) : ReadingRoutine n α
  /-- Look at the tree. -/
  | look {n : Nat} {α : Type} (next : Tree → ReadingRoutine n α) : ReadingRoutine n α
  /-- Read the node as a described type. -/
  | type {n : Nat} (s : Schema) (t : DataType) (h : t.Sightless s) : ReadingRoutine n Datum
  /-- Let other code read. -/
  | access {n : Nat} {β γ : Type} (a : Access β γ) (content : Tree → ReadingRoutine 0 β) :
      ReadingRoutine n γ
  /-- Go on with a value, or after a failure. -/
  | andThen {n : Nat} {α β : Type} (first : ReadingRoutine n β) (next : β → ReadingRoutine n α)
      (failed : DecodeError → ReadingRoutine (n + 1) α) : ReadingRoutine n α

/-- What is read by access is read alike under every root if the other code reads
alike. -/
theorem Access.read_sameEverywhere {β γ : Type} (a : Access β γ)
    {f : Decoder → Except DecodeError β} (hf : ∀ tree, SameEverywhere f tree) (tree : Tree) :
    SameEverywhere (a.read f) tree := by
  cases a with
  | here => exact hf tree
  | elements => exact .elements fun _ _ item _ => hf item
  | entry key =>
    exact .container fun _ _ outer _ => KeyedDecoder.decode_under outer fun child _ => hf child
  | entryIfPresent key =>
    exact .container fun _ _ outer _ => KeyedDecoder.decodeIfPresent_under outer fun child _ => hf child

namespace ReadingRoutine

/-- Carry out a routine, given the failures behind it. -/
def run {n : Nat} {α : Type} :
    ReadingRoutine n α → (Fin n → DecodeError) → Decoder → Except DecodeError α
  | .done a, _, _ => .ok a
  | .raise i, met, _ => .error (met i)
  | .complain c, _, d => .error (d.complaint c)
  | .look next, met, d => (next d.tree).run met d
  | .type s t _, _, d => Decoder.decode s t d
  | .access a content, _, d => a.read (fun child => (content child.tree).run unmet child) d
  | .andThen first next failed, met, d =>
    match first.run met d with
    | .ok b => (next b).run met d
    | .error err => (failed err.bare).run (further err met) d

/-- Code without failures behind it reads on its own. -/
theorem run_unmet_under {α : Type} {r : ReadingRoutine 0 α}
    (h : ∀ (met : Fin 0 → DecodeError) (d : Decoder) (outer : CodingPath),
      r.run (fun i => (met i).under outer) (d.under outer)
        = (r.run met d).mapError (·.under outer))
    (d : Decoder) (outer : CodingPath) :
    r.run unmet (d.under outer) = (r.run unmet d).mapError (·.under outer) := by
  have hrun := h unmet d outer
  rw [eq_unmet fun i => DecodeError.under (unmet i) outer] at hrun
  exact hrun

/-- A routine reads alike under every root, if the failures behind it were met under
that root as well. -/
theorem run_under {n : Nat} {α : Type} (r : ReadingRoutine n α) (met : Fin n → DecodeError)
    (d : Decoder) (outer : CodingPath) :
    r.run (fun i => (met i).under outer) (d.under outer)
      = (r.run met d).mapError (·.under outer) := by
  induction r generalizing d outer with
  | done a => rfl
  | raise i => rfl
  | complain c => exact congrArg Except.error (d.complaint_under outer c)
  | look next ih => exact ih d.tree met d outer
  | type s t h => exact decode_sameEverywhere h d.path outer
  | access a content ih =>
    have hcontent : ∀ tree, SameEverywhere
        (fun child => (content child.tree).run unmet child) tree :=
      fun tree p outer => run_unmet_under (ih tree) ⟨tree, p⟩ outer
    exact a.read_sameEverywhere hcontent d.tree d.path outer
  | andThen first next failed ihfirst ihnext ihfailed =>
    rw [run, run, ihfirst]
    rcases first.run met d with err | b
    · show (failed (err.under outer).bare).run (further (err.under outer) _) (d.under outer) = _
      rw [err.bare_under, further_map (·.under outer) err met]
      exact ihfailed err.bare (further err met) d outer
    · exact ihnext b met d outer

end ReadingRoutine

/-! ### Writing -/

/-- The trees of elements from `index` on of an array at a path, up to the first
failure. -/
def makeEach : List TreeMaker → CodingPath → Nat → Except EncodeError (List Tree)
  | [], _, _ => .ok []
  | make :: rest, p, index =>
    match make (p.index index) with
    | .error err => .error err
    | .ok t => (makeEach rest p (index + 1)).map (t :: ·)

/-- Write an array of what is made for each element. -/
def Encoder.writeEach (e : Encoder) (makers : List TreeMaker) : Written :=
  match makeEach makers e.path 0 with
  | .error err => (.error err, e)
  | .ok ts => (.ok (), e.write (.array ts))

/-- The same tree is made of every path, or the same failure under every root. -/
def TreeMaker.Alike (make : TreeMaker) : Prop :=
  ∀ (p outer : CodingPath), make (p.under outer) = (make p).mapError (·.under outer)

theorem makeEach_under {makers : List TreeMaker} (h : ∀ make ∈ makers, TreeMaker.Alike make)
    (p outer : CodingPath) (index : Nat) :
    makeEach makers (p.under outer) index
      = (makeEach makers p index).mapError (·.under outer) := by
  induction makers generalizing index with
  | nil => rfl
  | cons make rest ih =>
    have hfirst := h make (List.mem_cons_self ..) (p.index index) outer
    have hrest := ih (fun m hm => h m (List.mem_cons_of_mem _ hm)) (index + 1)
    rw [makeEach, makeEach, CodingPath.index_under, hfirst, hrest]
    rcases make (p.index index) with _ | t
    · rfl
    · rcases makeEach rest p (index + 1) with _ | ts <;> rfl

theorem Encoder.writeEach_under {makers : List TreeMaker}
    (h : ∀ make ∈ makers, TreeMaker.Alike make) (e : Encoder) (outer : CodingPath) :
    (e.under outer).writeEach makers = Written.under (e.writeEach makers) outer := by
  rw [writeEach, writeEach]
  rw [show (e.under outer).path = e.path.under outer from rfl, makeEach_under h]
  rcases makeEach makers e.path 0 with _ | ts <;> rfl

/-- What is made on an encoder of its own. -/
def madeBy (write : Encoder → Written) : TreeMaker := fun p => writtenTree (write (.fresh p))

theorem alike_madeBy {write : Encoder → Written}
    (h : ∀ e outer, write (e.under outer) = Written.under (write e) outer) :
    TreeMaker.Alike (madeBy write) := by
  intro p outer
  rw [madeBy, Encoder.fresh_under, h, Encoder.writtenTree_under]
  rfl

/-- Code that writes a value, with `n` failures behind it. -/
inductive WritingRoutine : Nat → Type 1
  /-- End without a failure. -/
  | done {n : Nat} : WritingRoutine n
  /-- End with a failure that was met, the latest being the first. -/
  | raise {n : Nat} (i : Fin n) : WritingRoutine n
  /-- End with a failure of the encoder. -/
  | complain {n : Nat} (message : String) : WritingRoutine n
  /-- Write as values of described types do: a tree, an integer, entries. -/
  | ask {n : Nat} (w : Writing) : WritingRoutine n
  /-- Open the container and count its entries. -/
  | count {n : Nat} (next : Nat → WritingRoutine n) : WritingRoutine n
  /-- Let other code write into the same encoder. -/
  | here {n : Nat} (content : WritingRoutine 0) : WritingRoutine n
  /-- Let other code write under a key. -/
  | put {n : Nat} (key : String) (content : WritingRoutine 0) : WritingRoutine n
  /-- Let other code write elements. -/
  | elements {n : Nat} {ι : Type} (items : List ι) (content : ι → WritingRoutine 0) :
      WritingRoutine n
  /-- Go on without a failure, or after one. -/
  | andThen {n : Nat} (first next : WritingRoutine n) (failed : EncodeError → WritingRoutine (n + 1)) :
      WritingRoutine n

namespace WritingRoutine

/-- Carry out a routine, given the failures behind it. -/
def run {n : Nat} : WritingRoutine n → (Fin n → EncodeError) → Encoder → Written
  | .done, _, e => (.ok (), e)
  | .raise i, met, e => (.error (met i), e)
  | .complain message, _, e => (.error (e.failure message), e)
  | .ask w, _, e => w.run e
  | .count next, met, e => (next e.opened.written.length).run met e.opened
  | .here content, _, e => content.run unmet e
  | .put key content, _, e => e.opened.putWith key (madeBy (content.run unmet))
  | .elements items content, _, e =>
    e.writeEach (items.map fun x => madeBy ((content x).run unmet))
  | .andThen first next failed, met, e =>
    match first.run met e with
    | (.ok (), e') => next.run met e'
    | (.error err, e') => (failed err.bare).run (further err met) e'

/-- Code without failures behind it writes on its own. -/
theorem run_unmet_under {r : WritingRoutine 0}
    (h : ∀ (met : Fin 0 → EncodeError) (e : Encoder) (outer : CodingPath),
      r.run (fun i => (met i).under outer) (e.under outer) = Written.under (r.run met e) outer)
    (e : Encoder) (outer : CodingPath) :
    r.run unmet (e.under outer) = Written.under (r.run unmet e) outer := by
  have hrun := h unmet e outer
  rw [eq_unmet fun i => EncodeError.under (unmet i) outer] at hrun
  exact hrun

/-- A routine does the same under every root, if the failures behind it were met
under that root as well. -/
theorem run_under {n : Nat} (r : WritingRoutine n) (met : Fin n → EncodeError) (e : Encoder)
    (outer : CodingPath) :
    r.run (fun i => (met i).under outer) (e.under outer) = Written.under (r.run met e) outer := by
  induction r generalizing e outer with
  | done => rfl
  | raise i => rfl
  | complain message => rfl
  | ask w => exact w.run_under outer e
  | count next ih => exact ih e.opened.written.length met e.opened outer
  | here content ih => exact run_unmet_under ih e outer
  | put key content ih =>
    exact e.opened.putWith_under outer key (alike_madeBy (run_unmet_under ih) · outer)
  | elements items content ih =>
    refine e.writeEach_under (fun make hmake => ?_) outer
    obtain ⟨x, -, rfl⟩ := List.mem_map.mp hmake
    exact alike_madeBy (run_unmet_under (ih x))
  | andThen first next failed ihfirst ihnext ihfailed =>
    rw [run, run, ihfirst]
    rcases first.run met e with ⟨err | ⟨⟩, e'⟩
    · show (failed (err.under outer).bare).run (further (err.under outer) _) (e'.under outer) = _
      rw [err.bare_under, further_map (·.under outer) err met]
      exact ihfailed err.bare (further err met) e' outer
    · exact ihnext met e' outer

end WritingRoutine

/-! ### Types with code of their own -/

/-- The code of a type for both directions. -/
structure Routines (α : Type) where
  /-- How a value is read of a tree. -/
  read : Tree → ReadingRoutine 0 α
  /-- How a value is written. -/
  write : α → WritingRoutine 0

/-- The codec of a type with code of its own. -/
def Routines.codec {α : Type} (r : Routines α) : Codec α where
  encode x := (r.write x).run unmet
  decode d := (r.read d.tree).run unmet d

end RecordCoding
