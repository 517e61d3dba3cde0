/-
The tree of a value, said without an encoder.

`reference` is the tree that a value stands for: an object with one entry for
each keyed field, an array with one element for each element, `null` for no
value.  Writing makes this tree, or it stops at the first thing in the way.

* `verdict_writing` — what writing comes to at any path: the reference tree, the
  first integer that no tree holds, or a key that a record repeats;
* `exists_at_of_leads` — the tree of a part stands where its steps lead;
* `toTree_matches_reference` — all of it for whole values.

Design notes: `Verdict` is about any result, so that lists of trees, entries and
single trees are one notion, and a failure inside a child becomes one of its
parent in one place (`Verdict.bind`).
-/
import RecordCoding.Proofs.Data.Parts
import RecordCoding.Proofs.Reading.Blame

namespace RecordCoding

/-! ### The reference tree -/

namespace Datum

mutual

/-- The tree that a value stands for. -/
def reference (s : Schema) : DataType → Datum → Tree
  | .bool, .bool b => .bool b
  | .string, .string v => .text v
  | .char, .char c => .text (String.singleton c)
  | .single, .single x => .double x.toDouble
  | .double, .double x => .double x
  | .tree, .tree t => t
  | .integer _, .integer n => .integer (Int64.ofInt n)
  | .list t, .list items => .array (referenceOfItems s t items)
  | .option t, .present d => reference s t d
  | .pointer t, .pointer d => reference s t d
  | .record name arguments, .record _ fields =>
    .object (referenceOfFields s arguments (s.fieldsOf name) fields)
  | _, _ => .null

/-- The trees of the elements of a list. -/
def referenceOfItems (s : Schema) (t : DataType) : List Datum → List Tree
  | [] => []
  | d :: rest => reference s t d :: referenceOfItems s t rest

/-- The entries of the keyed fields of a record, in the order of declaration. -/
def referenceOfFields (s : Schema) (arguments : List DataType) :
    List Field → List (String × Datum) → List (String × Tree)
  | f :: fs, (_, d) :: ds =>
    match (f.coding.instantiate arguments).type? with
    | some t => (f.key, reference s t d) :: referenceOfFields s arguments fs ds
    | none => referenceOfFields s arguments fs ds
  | _, _ => []

end

variable {s : Schema} {t : DataType} {arguments : List DataType}

theorem referenceOfItems_eq_map (items : List Datum) :
    referenceOfItems s t items = items.map (reference s t) := by
  induction items with
  | nil => rfl
  | cons d rest ih => rw [referenceOfItems, ih, List.map_cons]

/-- The keys that are written are those of the keyed fields. -/
theorem keys_writingOfFields {fs : List Field} {ds : List (String × Datum)}
    (hlength : ds.length = fs.length) :
    (writingOfFields s arguments fs ds).map (·.key)
      = (fs.filter Field.isKeyed).map (·.key) := by
  induction fs generalizing ds with
  | nil => cases ds <;> rfl
  | cons f fs ih =>
    cases ds with
    | nil => exact absurd hlength (by simp)
    | cons v ds =>
      have hrest := ih (Nat.succ.inj hlength)
      rw [writingOfFields, List.filter_cons]
      rcases htype : (f.coding.instantiate arguments).type? with _ | t
      · rw [if_neg fun h => by simpa [htype] using (Field.isKeyed_iff arguments).mp h]
        exact hrest
      · rw [if_pos ((Field.isKeyed_iff arguments).mpr ⟨t, htype⟩), List.map_cons, List.map_cons,
          hrest]

theorem keys_referenceOfFields (fs : List Field) (ds : List (String × Datum)) :
    (referenceOfFields s arguments fs ds).map (·.1)
      = (writingOfFields s arguments fs ds).map (·.key) := by
  induction fs generalizing ds with
  | nil => cases ds <;> rfl
  | cons f fs ih =>
    cases ds with
    | nil => rfl
    | cons v ds =>
      rw [referenceOfFields, writingOfFields]
      rcases (f.coding.instantiate arguments).type? with _ | t
      · exact ih ds
      · exact congrArg _ (ih ds)

/-- A record is written under exactly its keys. -/
theorem keys_of_record (arguments : List DataType) {name : String} {fields : List (String × Datum)}
    (hnames : fields.map (·.1) = (s.fieldsOf name).map (·.name)) :
    (writingOfFields s arguments (s.fieldsOf name) fields).map (·.key)
      = (s.keysOf name).texts := by
  have hlength : fields.length = (s.fieldsOf name).length := by
    simpa using congrArg List.length hnames
  rw [keys_writingOfFields hlength, Schema.texts_keysOf]

end Datum

/-! ### What writing comes to -/

/-- A result at a path: what is expected if nothing is wrong, else the failure of
the first wrong integer or of a repeated key. -/
inductive Verdict {α : Type} (expected : α) (wrong : List (List PathStep × Int))
    (repeated : List PathStep → Prop) (p : CodingPath) : Except EncodeError α → Prop
  | made (h : wrong = []) : Verdict expected wrong repeated p (.ok expected)
  | outOfRange {steps : List PathStep} {n : Int} (h : wrong.head? = some (steps, n)) :
      Verdict expected wrong repeated p (.error (.outOfRange n ⟨p.steps ++ steps⟩))
  | duplicateKey {steps : List PathStep} {key : String} (h : repeated steps) :
      Verdict expected wrong repeated p (.error (.duplicateKey key ⟨p.steps ++ steps⟩))

namespace Verdict

variable {α β : Type} {expected : α} {wrong : List (List PathStep × Int)}
  {repeated repeated' : List PathStep → Prop} {p : CodingPath}

theorem map (f : α → β) {r : Except EncodeError α} (h : Verdict expected wrong repeated p r) :
    Verdict (f expected) wrong repeated p (r.map f) := by
  cases h with
  | made h => exact .made h
  | outOfRange h => exact .outOfRange h
  | duplicateKey h => exact .duplicateKey h

theorem outOfRange_here {n : Int} :
    Verdict expected [([], n)] repeated p (.error (.outOfRange n p)) := by
  have hfirst : [(([] : List PathStep), n)].head? = some ([], n) := rfl
  have h : Verdict expected _ repeated p (.error (.outOfRange n ⟨p.steps ++ []⟩)) :=
    .outOfRange hfirst
  rw [List.append_nil] at h
  exact h

theorem duplicateKey_here {key : String} (h : repeated []) :
    Verdict expected wrong repeated p (.error (.duplicateKey key p)) := by
  have h : Verdict expected wrong repeated p (.error (.duplicateKey key ⟨p.steps ++ []⟩)) :=
    .duplicateKey h
  rw [List.append_nil] at h
  exact h

theorem weaken {r : Except EncodeError α} (h : Verdict expected wrong repeated p r)
    (hrepeated : ∀ steps, repeated steps → repeated' steps) :
    Verdict expected wrong repeated' p r := by
  cases h with
  | made h => exact .made h
  | outOfRange h => exact .outOfRange h
  | duplicateKey h => exact .duplicateKey (hrepeated _ h)

/-- A child and what comes after it: a failure inside the child is one of its
parent, one step further up, and without one it is up to the rest. -/
theorem bind {step : PathStep} {child : Except EncodeError α} {tail : α → Except EncodeError β}
    {expected' : β} {rest : List (List PathStep × Int)}
    (h : Verdict expected wrong repeated (p.appending step) child)
    (hrepeated : ∀ steps, repeated steps → repeated' (step :: steps))
    (htail : Verdict expected' rest repeated' p (tail expected)) :
    Verdict expected' (wrong.map (below step) ++ rest) repeated' p (child.bind tail) := by
  have hsteps (steps : List PathStep) :
      (p.appending step).steps ++ steps = p.steps ++ step :: steps := by
    rw [CodingPath.appending, List.append_assoc, List.singleton_append]
  cases h with
  | made hnone =>
    rw [hnone]
    exact htail
  | @outOfRange steps n hfirst =>
    obtain ⟨others, rfl⟩ := List.head?_eq_some_iff.mp hfirst
    rw [hsteps]
    exact .outOfRange rfl
  | @duplicateKey steps key hrepeat =>
    rw [hsteps]
    exact .duplicateKey (hrepeated steps hrepeat)

end Verdict

/-- The steps lead to a record that has two keys of one text. -/
def Repeats (s : Schema) (t : DataType) (d : Datum) (steps : List PathStep) : Prop :=
  ∃ name arguments n fields,
    Leads s t d steps (.record name arguments) (.record n fields) ∧ ¬(s.keysOf name).texts.Nodup

namespace Repeats

variable {s : Schema} {t u : DataType} {d e : Datum} {steps : List PathStep}

theorem of_step (step : List PathStep)
    (h : ∀ {v f below}, Leads s u e below v f → Leads s t d (step ++ below) v f)
    (hrepeats : Repeats s u e steps) : Repeats s t d (step ++ steps) := by
  obtain ⟨name, arguments, n, fields, hleads, hkeys⟩ := hrepeats
  exact ⟨name, arguments, n, fields, h hleads, hkeys⟩

theorem not_of_distinctKeys (h : DistinctKeys s t d) : ¬Repeats s t d steps := by
  rintro ⟨name, arguments, n, fields, hleads, hkeys⟩
  exact hkeys (h steps name arguments n fields hleads)

end Repeats

namespace Datum

variable {s : Schema} {t : DataType} {d : Datum} {arguments : List DataType}

/-- What a value comes to at every path. -/
def Judged (s : Schema) (t : DataType) (d : Datum) : Prop :=
  ∀ p, Verdict (d.reference s t) (d.oversized s t) (Repeats s t d) p ((d.writing s t).treeAt p)

theorem judged_leaf {leaf : Tree} (hwriting : d.writing s t = .tree leaf)
    (hreference : d.reference s t = leaf) (hoversized : d.oversized s t = []) : Judged s t d := by
  intro p
  rw [hwriting, Writing.treeAt_tree, hreference]
  exact .made hoversized

theorem judged_integer {kind : IntegerKind} {n : Int} (h : kind.holds n) :
    Judged s (.integer kind) (.integer n) := by
  intro p
  rw [writing, reference, oversized, Writing.treeAt_integer]
  by_cases hexceeds : kind.exceeds n
  · have hfits : ¬fitsInt64 n := fun hfits => by
      simpa [hexceeds] using (IntegerKind.fitsInt64_iff h).mp hfits
    rw [if_pos hexceeds, if_neg hfits]
    exact .outOfRange_here
  · rw [if_neg hexceeds,
      if_pos ((IntegerKind.fitsInt64_iff h).mpr (eq_false_of_ne_true hexceeds))]
    exact .made rfl

/-- The elements of a list are written up to the first that fails. -/
theorem verdict_trees {repeated : List PathStep → Prop} {items : List Datum} {p : CodingPath}
    (index : Nat) (hitems : ∀ d ∈ items, Judged s t d)
    (hrepeated : ∀ d i steps, (d, i) ∈ items.zipIdx index → Repeats s t d steps →
      repeated (.index i :: steps)) :
    Verdict (referenceOfItems s t items) (oversizedOfItems s t index items) repeated p
      (Writing.trees (writingOfItems s t items) p index) := by
  induction items generalizing index with
  | nil => exact .made rfl
  | cons d rest ih =>
    have hd := hitems d (List.mem_cons_self ..) (p.index index)
    have hrest := ih (index + 1) (fun e he => hitems e (List.mem_cons_of_mem _ he))
      fun e i steps he => hrepeated e i steps (List.mem_cons_of_mem _ he)
    rw [writingOfItems, Writing.trees_cons, referenceOfItems, oversizedOfItems]
    exact hd.bind (fun steps => hrepeated d index steps (List.mem_cons_self ..))
      (hrest.map (d.reference s t :: ·))

/-- The tree of a container after one more write: a key that is taken or a value
that fails is the end of it. -/
theorem writtenTree_runKeyed_cons (key : String) (w : Writing)
    (rest : List (KeyedWriting Writing)) (e : Encoder) :
    writtenTree (Writing.runKeyed (⟨key, false, w⟩ :: rest) e)
      = if e.holdsKey key then .error (.duplicateKey key e.path)
        else (w.treeAt (e.path.key key)).bind fun t =>
          writtenTree (Writing.runKeyed rest (e.push key t)) := by
  rw [Writing.runKeyed_cons, Encoder.putWith]
  by_cases hkey : e.holdsKey key
  · rw [if_pos hkey, if_pos hkey]
    rfl
  · rw [if_neg hkey, if_neg hkey]
    dsimp only
    rcases w.treeAt (e.path.key key) with _ | _ <;> rfl

/-- The keyed fields of a record are written up to the first that fails. -/
theorem verdict_runKeyed {repeated : List PathStep → Prop} {p : CodingPath} {fs : List Field}
    (ds : List (String × Datum)) (done : List (String × Tree))
    (hfields : ∀ f v t, (f, v) ∈ fs.zip ds → (f.coding.instantiate arguments).type? = some t →
      Judged s t v.2)
    (hrepeated : ∀ f v t steps, (f, v) ∈ fs.zip ds →
      (f.coding.instantiate arguments).type? = some t → Repeats s t v.2 steps →
        repeated (.key f.key :: steps))
    (hkeys : repeated [] ∨
      (done.map (·.1) ++ (writingOfFields s arguments fs ds).map (·.key)).Nodup) :
    Verdict (.object (done ++ referenceOfFields s arguments fs ds))
      (oversizedOfFields s arguments fs ds) repeated p
      (writtenTree
        (Writing.runKeyed (writingOfFields s arguments fs ds) ⟨p, none, some done⟩)) := by
  -- The keys met so far and those to come make up one list throughout.
  induction fs generalizing ds done with
  | nil =>
    cases ds <;> exact (List.append_nil done).symm ▸ .made rfl
  | cons f fs ih =>
    cases ds with
    | nil => exact (List.append_nil done).symm ▸ .made rfl
    | cons v ds =>
      have hrest := fun done' => ih ds done'
        (fun g w t hmem => hfields g w t (List.mem_cons_of_mem _ hmem))
        fun g w t steps hmem => hrepeated g w t steps (List.mem_cons_of_mem _ hmem)
      rw [writingOfFields] at hkeys ⊢
      rw [referenceOfFields, oversizedOfFields]
      rcases htype : (f.coding.instantiate arguments).type? with _ | t
      · simp only [htype] at hkeys
        exact hrest done hkeys
      · simp only [htype, List.map_cons] at hkeys
        rw [writtenTree_runKeyed_cons]
        by_cases hkey : (Encoder.mk p none (some done)).holdsKey f.key
        · rw [if_pos hkey]
          refine .duplicateKey_here (hkeys.resolve_right fun hnodup => ?_)
          exact (List.nodup_append.mp hnodup).2.2 _ (Encoder.holdsKey_iff.mp hkey) _
            (List.mem_cons_self ..) rfl
        · rw [if_neg hkey]
          have hv := hfields f v t (List.mem_cons_self ..) htype (p.key f.key)
          refine hv.bind (fun steps => hrepeated f v t steps (List.mem_cons_self ..) htype) ?_
          have hnext := hrest (done ++ [(f.key, v.2.reference s t)]) (by simpa using hkeys)
          rw [List.append_assoc, List.singleton_append] at hnext
          exact hnext

theorem judged_list {items : List Datum} (h : ∀ d ∈ items, Judged s t d) :
    Judged s (.list t) (.list items) := by
  intro p
  rw [writing, reference, oversized, Writing.treeAt_elements]
  refine (verdict_trees 0 h ?_).map Tree.array
  intro d i steps hmem hrepeats
  exact .of_step [_] (.item (List.mk_mem_zipIdx_iff_getElem?.mp hmem)) hrepeats

theorem judged_record {name : String} {fields : List (String × Datum)}
    (hnames : fields.map (·.1) = (s.fieldsOf name).map (·.name))
    (h : ∀ f v t, (f, v) ∈ (s.fieldsOf name).zip fields →
      (f.coding.instantiate arguments).type? = some t → Judged s t v.2) :
    Judged s (.record name arguments) (.record name fields) := by
  intro p
  rw [writing, reference, oversized, Writing.treeAt, Writing.run]
  refine verdict_runKeyed fields [] h ?_ ?_
  · intro f v t steps hmem htype hrepeats
    exact .of_step [_] (.field hmem htype) hrepeats
  · rw [List.map_nil, List.nil_append, keys_of_record arguments hnames]
    by_cases hnodup : (s.keysOf name).texts.Nodup
    · exact Or.inr hnodup
    · exact Or.inl ⟨name, arguments, name, fields, .here _ _, hnodup⟩

/-- What writing comes to, for every value of every type. -/
theorem verdict_writing (h : OfType s t d) : Judged s t d := by
  induction h with
  | integer hholds => exact judged_integer hholds
  | list _ ih => exact judged_list ih
  | present _ ih => exact fun p => (ih p).weaken fun steps => .of_step [] .present
  | pointer _ ih => exact fun p => (ih p).weaken fun steps => .of_step [] .pointer
  | record hnames _ ih => exact judged_record hnames ih
  | _ => exact judged_leaf rfl rfl rfl

/-! ### The trees of parts -/

/-- Every element has made the tree at its index. -/
theorem exists_of_trees_eq_ok {ws : List Writing} {p : CodingPath} {index : Nat} {ts : List Tree}
    (h : Writing.trees ws p index = .ok ts) {i : Nat} {w : Writing} (hw : ws[i]? = some w) :
    ∃ tree, w.treeAt (p.index (index + i)) = .ok tree ∧ ts[i]? = some tree := by
  induction ws generalizing index ts i with
  | nil => exact absurd hw (by simp)
  | cons v rest ih =>
    rw [Writing.trees_cons] at h
    obtain ⟨tree, hmade, h⟩ := exists_of_bind_eq_ok h
    obtain ⟨others, htrees, rfl⟩ := exists_of_map_eq_ok h
    cases i with
    | zero =>
      obtain rfl := Option.some.inj hw
      exact ⟨tree, hmade, rfl⟩
    | succ i =>
      obtain ⟨made, hat, hget⟩ := ih htrees hw
      rw [Nat.add_right_comm] at hat
      exact ⟨made, hat, hget⟩

/-- The tree of a part stands where its steps lead. -/
theorem exists_at_of_leads {u : DataType} {e : Datum} {steps : List PathStep}
    (h : Leads s t d steps u e) {tree : Tree} (htree : d.toTree s t = .ok tree) :
    ∃ sub, e.toTree s u = .ok sub ∧ tree.at? ⟨steps⟩ = some sub := by
  induction h generalizing tree with
  | here => exact ⟨tree, htree, Tree.at?_root tree⟩
  | present _ ih => exact ih htree
  | pointer _ ih => exact ih htree
  | @item t u items i d e steps hitem _ ih =>
    rw [toTree, writing, Writing.toTree, Writing.treeAt_elements, writingOfItems_eq_map] at htree
    obtain ⟨ts, htrees, rfl⟩ := exists_of_map_eq_ok htree
    have hw : (items.map (writing s t))[i]? = some (d.writing s t) := by
      rw [List.getElem?_map, hitem, Option.map_some]
    obtain ⟨child, hchild, hget⟩ := exists_of_trees_eq_ok htrees hw
    obtain ⟨sub, hsub, hat⟩ := ih ((Writing.treeAt_eq_ok_iff _ _ child).mp hchild)
    have hstep : (Tree.array ts).step? (.index i) = some child := hget
    exact ⟨sub, hsub, (Tree.at?_cons hstep steps).trans hat⟩
  | @field name n arguments fields f v t u e steps hfield htype _ ih =>
    rw [toTree, Writing.toTree, treeAt_record] at htree
    -- The writes of a record all have keys of their own, so each entry is found by its key.
    obtain ⟨-, entries, -, rfl⟩ := Encoder.writtenTree_putAll_fresh.mp htree
    have hwrite := mem_writingOfFields (s := s) hfield htype
    obtain ⟨child, hchild, hlookup⟩ :=
      Encoder.lookup_of_putAll_fresh htree (List.mem_map.mpr ⟨_, hwrite, rfl⟩)
    obtain ⟨sub, hsub, hat⟩ := ih ((Writing.treeAt_eq_ok_iff _ _ child).mp hchild)
    have hstep : (Tree.object entries).step? (.key f.key) = some child := hlookup
    exact ⟨sub, hsub, (Tree.at?_cons hstep steps).trans hat⟩

/-- What makes a tree has distinct keys throughout. -/
theorem distinctKeys_of_toTree (h : OfType s t d) {tree : Tree} (htree : d.toTree s t = .ok tree) :
    DistinctKeys s t d := by
  intro steps name arguments n fields hleads
  obtain ⟨sub, hsub, -⟩ := exists_at_of_leads hleads htree
  cases h.of_leads hleads with
  | record hnames _ =>
    rw [toTree, Writing.toTree, treeAt_record] at hsub
    obtain ⟨hnodup, -⟩ := Encoder.writtenTree_putAll_fresh.mp hsub
    rw [List.map_map] at hnodup
    rw [← keys_of_record arguments hnames]
    exact hnodup

/-! ### Whole values -/

/-- A tree in which every part of a value stands where the steps to it lead. -/
structure Mirrors (s : Schema) (t : DataType) (d : Datum) (tree : Tree) : Prop where
  part : ∀ steps u e, Leads s t d steps u e → tree.at? ⟨steps⟩ = some (e.reference s u)
  /-- A record is an object with exactly its keys in their order, be it without any. -/
  record : ∀ steps name arguments n fields,
    Leads s t d steps (.record name arguments) (.record n fields) →
      ∃ entries, tree.at? ⟨steps⟩ = some (.object entries) ∧
        entries.map (·.1) = (s.keysOf name).texts
  /-- A list is an array with a tree for each element. -/
  list : ∀ steps u items, Leads s t d steps (.list u) (.list items) →
    tree.at? ⟨steps⟩ = some (.array (items.map (reference s u)))
  absent : ∀ steps u, Leads s t d steps (.option u) .absent → tree.at? ⟨steps⟩ = some .null

/-- A failure of the first integer that no tree holds, in the order of fields and elements. -/
structure BlamesFirst (s : Schema) (t : DataType) (d : Datum) (err : EncodeError)
    (steps : List PathStep) (kind : IntegerKind) (n : Int) : Prop where
  error : err = .outOfRange n ⟨steps⟩
  message : err.message = outOfRangeMessage (toString n) "i64" ⟨steps⟩
  leads : Leads s t d steps (.integer kind) (.integer n)
  exceeds : kind.exceeds n
  first : (d.oversized s t).head? = some (steps, n)

theorem verdict_toTree (h : OfType s t d) :
    Verdict (d.reference s t) (d.oversized s t) (Repeats s t d) .root (d.toTree s t) :=
  verdict_writing h .root

theorem toTree_eq_reference (h : OfType s t d) {tree : Tree} (htree : d.toTree s t = .ok tree) :
    tree = d.reference s t ∧ d.oversized s t = [] := by
  have hverdict := verdict_toTree h
  rw [htree] at hverdict
  cases hverdict with
  | made hnone => exact ⟨rfl, hnone⟩

/-- With distinct keys, only an integer that no tree holds is in the way. -/
theorem head?_oversized_of_error (h : OfType s t d) {err : EncodeError}
    (herr : d.toTree s t = .error err) (hdistinct : DistinctKeys s t d) :
    ∃ steps n, (d.oversized s t).head? = some (steps, n) ∧ err = .outOfRange n ⟨steps⟩ := by
  have hverdict := verdict_toTree h
  rw [herr] at hverdict
  cases hverdict with
  | outOfRange hfirst => exact ⟨_, _, hfirst, rfl⟩
  | duplicateKey hrepeats => exact absurd hrepeats (Repeats.not_of_distinctKeys hdistinct)

theorem mirrors_of_toTree (h : OfType s t d) {tree : Tree} (htree : d.toTree s t = .ok tree) :
    Mirrors s t d tree := by
  have hpart : ∀ steps u e, Leads s t d steps u e →
      tree.at? ⟨steps⟩ = some (e.reference s u) := by
    intro steps u e hleads
    obtain ⟨sub, hsub, hat⟩ := exists_at_of_leads hleads htree
    rw [hat, (toTree_eq_reference (h.of_leads hleads) hsub).1]
  refine ⟨hpart, ?_, ?_, ?_⟩
  · intro steps name arguments n fields hleads
    cases h.of_leads hleads with
    | record hnames _ =>
      refine ⟨_, hpart _ _ _ hleads, ?_⟩
      rw [keys_referenceOfFields, keys_of_record arguments hnames]
  · intro steps u items hleads
    rw [hpart _ _ _ hleads, reference, referenceOfItems_eq_map]
  · intro steps u hleads
    exact hpart _ _ _ hleads

/-- **Encoding makes the reference tree, or stops at the first integer that no
tree holds.**  Only a record with a repeated key is ever refused for its keys. -/
theorem toTree_matches_reference (h : OfType s t d) :
    ((∃ tree, d.toTree s t = .ok tree) ↔
      DistinctKeys s t d ∧ ∀ steps kind n,
        Leads s t d steps (.integer kind) (.integer n) → kind.exceeds n = false) ∧
    (∀ tree, d.toTree s t = .ok tree → tree = d.reference s t ∧ Mirrors s t d tree) ∧
    (∀ err, d.toTree s t = .error err → DistinctKeys s t d →
      ∃ steps kind n, BlamesFirst s t d err steps kind n) ∧
    (∀ key p, d.toTree s t = .error (.duplicateKey key p) → Repeats s t d p.steps) ∧
    ∀ steps n, (steps, n) ∈ d.oversized s t ↔
      ∃ kind, Leads s t d steps (.integer kind) (.integer n) ∧ kind.exceeds n := by
  refine ⟨⟨?_, ?_⟩, ?_, ?_, ?_, fun steps n => mem_oversized_iff h⟩
  · rintro ⟨tree, htree⟩
    refine ⟨distinctKeys_of_toTree h htree, fun steps kind n hleads => ?_⟩
    -- An integer that no tree holds would be listed, and then there would be no tree.
    by_contra hexceeds
    have hmem := mem_oversized_of_leads (eq_true_of_ne_false hexceeds) hleads
    rw [(toTree_eq_reference h htree).2] at hmem
    exact absurd hmem (by simp)
  · rintro ⟨hdistinct, hholds⟩
    rcases hmade : d.toTree s t with err | tree
    · obtain ⟨steps, n, hfirst, -⟩ := head?_oversized_of_error h hmade hdistinct
      obtain ⟨kind, hleads, hexceeds⟩ := leads_of_mem_oversized h (List.mem_of_mem_head? hfirst)
      exact absurd (hholds steps kind n hleads) (by simp [hexceeds])
    · exact ⟨tree, rfl⟩
  · intro tree htree
    exact ⟨(toTree_eq_reference h htree).1, mirrors_of_toTree h htree⟩
  · intro err herr hdistinct
    obtain ⟨steps, n, hfirst, rfl⟩ := head?_oversized_of_error h herr hdistinct
    obtain ⟨kind, hleads, hexceeds⟩ := leads_of_mem_oversized h (List.mem_of_mem_head? hfirst)
    refine ⟨steps, kind, n, rfl, ?_, hleads, hexceeds, hfirst⟩
    rw [EncodeError.message, ofList_printedInt, EncodeError.integerTarget]
  · intro key p herr
    have hverdict := verdict_toTree h
    rw [herr] at hverdict
    cases hverdict with
    | duplicateKey hrepeats => exact hrepeats

/-! ### Amounts beyond the range -/

namespace Overflow

/-- An account has amounts of any integer type, a stamp that is left out, and the
account before it. -/
def schema : Schema :=
  [⟨"Account", [⟨"stamp", "stamp", .excluded (.integer 0)⟩,
    ⟨"amounts", "amounts", .required (.list (.parameter 0))⟩,
    ⟨"before", "before", .ifPresent (.pointer (.record "Account" [.parameter 0]))⟩]⟩]

def account : DataType := .record "Account" [.integer .u64]

/-- An account with a stamp that no tree holds. -/
def accountOf (amounts : List Int) (before : Datum) : Datum :=
  .record "Account" [("stamp", .integer 18446744073709551615),
    ("amounts", .list (amounts.map .integer)), ("before", before)]

/-- The second amount of the account before is the first that no tree holds. -/
def accounts : Datum :=
  accountOf [1, 2] (.present (.pointer
    (accountOf [9223372036854775807, 9223372036854775808, 18446744073709551615] .absent)))

theorem ofType_accountOf {amounts : List Int} {before : Datum}
    (hamounts : ∀ n ∈ amounts, IntegerKind.u64.holds n)
    (hbefore : OfType schema (.option (.pointer account)) before) :
    OfType schema account (accountOf amounts before) := by
  refine .of_forall₂ (.cons ⟨rfl, nofun⟩ (.cons ⟨rfl, ?_⟩ (.cons ⟨rfl, ?_⟩ .nil)))
  · rintro t ⟨⟩
    refine .list fun d hd => ?_
    obtain ⟨n, hn, rfl⟩ := List.mem_map.mp hd
    exact .integer (hamounts n hn)
  · rintro t ⟨⟩
    exact hbefore

theorem ofType_accounts : OfType schema account accounts :=
  ofType_accountOf (by decide) (.present (.pointer (ofType_accountOf (by decide) (.absent _))))

/-- The error leads past the stamps to that amount. -/
theorem amount_blamed :
    OfType schema account accounts ∧ DistinctKeys schema account accounts ∧
      ∃ err kind, accounts.toTree schema account = .error err ∧
        BlamesFirst schema account accounts err
          [.key "before", .key "amounts", .index 1] kind 9223372036854775808 := by
  have hdistinct : DistinctKeys schema account accounts := distinctKeys_of_schema (by decide)
  have herr : accounts.toTree schema account
      = .error (.outOfRange 9223372036854775808
          ⟨[.key "before", .key "amounts", .index 1]⟩) := by rfl
  obtain ⟨steps, kind, n, hblames⟩ :=
    (toTree_matches_reference ofType_accounts).2.2.1 _ herr hdistinct
  obtain ⟨rfl, hsteps⟩ := EncodeError.outOfRange.inj hblames.error
  obtain rfl := CodingPath.mk.inj hsteps
  exact ⟨ofType_accounts, hdistinct, _, kind, herr, hblames⟩

end Overflow

end Datum

end RecordCoding
