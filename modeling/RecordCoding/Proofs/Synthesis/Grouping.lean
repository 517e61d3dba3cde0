/-
Settings in lists of attributes, however they are grouped.

A `Setting` is one item of a `#[codable(...)]` list as it stands there, and `Grouped`
says that some attributes give a sequence of settings: a stretch of it in every list,
with any other attributes in between.

* `Setting.listFrom_eq` — a list is read setting by setting;
* `Grouped.agree` — the entries of the attributes are those of the settings, up to the
  first that nobody accepts;
* `Grouped.ofAttributes_eq` — what the attributes give depends on the settings alone.

Design notes:

* A value that is no path ends the reading of its list, and the lists behind it are
  read all the same.  `Entry.Agree` says that this makes no difference.
* Every token has a place of its own here, since faults are reported at places.
-/
import RecordCoding.Proofs.Code.Expressions
import RecordCoding.Proofs.Code.Paths
import RecordCoding.Proofs.Synthesis.Precedence

namespace RecordCoding

/-! ### Entries up to the first fault -/

namespace Entry

/-- Two lists of entries that are the same up to one that neither a record nor a field
accepts. -/
inductive Agree : List Entry → List Entry → Prop
  | nil : Agree [] []
  | cons (e : Entry) {as bs : List Entry} (h : Agree as bs) : Agree (e :: as) (e :: bs)
  -- What stands behind the fault is never looked at, and need not be the same.
  | fault {e : Entry} (hrecord : e.recordFault?.isSome) (hfield : e.fieldFault?.isSome)
      (as bs : List Entry) : Agree (e :: as) (e :: bs)

variable {as bs cs ds : List Entry}

theorem Agree.append (h : Agree as bs) (h' : Agree cs ds) : Agree (as ++ cs) (bs ++ ds) := by
  induction h with
  | nil => exact h'
  | cons e _ ih => exact .cons e ih
  | fault hrecord hfield as bs => exact .fault hrecord hfield (as ++ cs) (bs ++ ds)

/-- A run that stops at faults does not tell such lists apart. -/
theorem Agree.foldlM_eq {α : Type} {add : α → Entry → Except SyntaxError α}
    (hstop : ∀ e, e.recordFault?.isSome → e.fieldFault?.isSome → ∃ err, ∀ a, add a e = .error err)
    (h : Agree as bs) (a : α) : as.foldlM add a = bs.foldlM add a := by
  induction h generalizing a with
  | nil => rfl
  | cons e _ ih => rw [List.foldlM_cons, List.foldlM_cons, funext ih]
  | fault hrecord hfield as bs =>
    obtain ⟨err, herr⟩ := hstop _ hrecord hfield
    rw [List.foldlM_cons, List.foldlM_cons, herr]
    rfl

theorem Agree.record_eq (h : Agree as bs) : RecordSettings.ofEntries as = RecordSettings.ofEntries bs := by
  refine h.foldlM_eq (fun e hrecord _ => ?_) _
  obtain ⟨err, herr⟩ := Option.isSome_iff_exists.mp hrecord
  exact ⟨err, fun settings => by rw [RecordSettings.add_eq, herr]; rfl⟩

theorem Agree.field_eq (h : Agree as bs) : FieldSettings.ofEntries as = FieldSettings.ofEntries bs := by
  refine h.foldlM_eq (fun e _ hfield => ?_) _
  obtain ⟨err, herr⟩ := Option.isSome_iff_exists.mp hfield
  exact ⟨err, fun settings => by rw [FieldSettings.add_eq, herr]; rfl⟩

end Entry

/-! ### Settings as they are written -/

/-- Two colons. -/
structure Colons where
  first : Location
  second : Location
  /-- Whether the second one is joined to what follows it. -/
  joint : Bool

def Colons.trees (c : Colons) : List TokenTree :=
  [.punct ':' true c.first, .punct ':' c.joint c.second]

/-- A path of words. -/
structure WrittenPath where
  leading : Option Colons
  first : Ident
  further : List (Colons × Ident)

namespace WrittenPath

/-- The steps of a path behind the first. -/
def furtherTrees (further : List (Colons × Ident)) : List TokenTree :=
  further.flatMap fun step => step.1.trees ++ [.ident step.2]

def trees (p : WrittenPath) : List TokenTree :=
  (p.leading.map Colons.trees).getD [] ++ .ident p.first :: furtherTrees p.further

def path (p : WrittenPath) : Path := .plain p.leading.isSome (p.first :: p.further.map (·.2))

/-- Where the path begins. -/
def location (p : WrittenPath) : Location := (p.leading.map Colons.first).getD p.first.location

end WrittenPath

/-- One item of a list. -/
inductive Setting
  /-- A path alone. -/
  | named (p : WrittenPath)
  /-- `crate` with an equals sign and an expression, which is the given literal or none. -/
  | runtime (location equals : Location) (joint : Bool) (opening : TokenTree)
      (more : List TokenTree) (literal : Option String)

/-- What stands behind an item of a list: the end, or a comma. -/
inductive EndsItem : List TokenTree → Prop
  | nil : EndsItem []
  | comma (joint : Bool) (l : Location) (ts : List TokenTree) : EndsItem (.punct ',' joint l :: ts)

/-- Trees that are an expression, and the literal that it consists of, if it does:
wherever they stand in a list, with room for as many levels as they have tokens, they
are read up to their end. -/
def IsExpression (value : List TokenTree) (literal : Option String) : Prop :=
  ∀ depth, TokenTree.sizeList value < depth → ∀ rest, EndsItem rest →
    Parser.Reads ((Inner.ofDepth depth).expression true) (value ++ rest) rest
      fun code => code.literal? = literal

namespace Setting

def trees : Setting → List TokenTree
  | named p => p.trees
  | runtime l equals joint opening more _ =>
    .ident ⟨"crate", false, l⟩ :: .punct '=' joint equals :: opening :: more

/-- The path that `crate` is set to by a literal or another value, or why it is none. -/
def pathOf (l : Location) : Option String → Except SyntaxError Path
  | some literal => Entry.pathInText literal l
  | none => .error ⟨.rule "expected string literal", false, l⟩

/-- What a setting asks for. -/
def entry : Setting → Entry
  | named p => .asked (Entry.requestOf p.path) p.location
  | runtime l _ _ opening _ literal => .asked (.runtime (pathOf opening.location literal)) l

/-- A path is not `crate` alone, which needs a value, and a value is an expression. -/
def WellFormed : Setting → Prop
  | named p => p.path.isName "crate" = false
  | runtime _ _ _ opening more literal => IsExpression (opening :: more) literal

end Setting

/-- The settings of a list, with commas between them, and maybe one behind the last. -/
inductive Lists : List Setting → List TokenTree → Prop
  | nil : Lists [] []
  | last (s : Setting) : Lists [s] s.trees
  | cons (s : Setting) (joint : Bool) (l : Location) {more : List Setting} {body : List TokenTree}
      (h : Lists more body) : Lists (s :: more) (s.trees ++ .punct ',' joint l :: body)

/-- Attributes that give the settings, a stretch of them in each list for this library,
however short. -/
inductive Grouped : List Setting → List Attribute → Prop
  | nil : Grouped [] []
  | other {settings : List Setting} {a : Attribute} {as : List Attribute}
      (ha : a.path.isName "codable" = false) (h : Grouped settings as) : Grouped settings (a :: as)
  | list {stretch settings : List Setting} {a : Attribute} {as : List Attribute} {d : Delimiter}
      {body : List TokenTree} {closing : Location} (ha : a.path.isName "codable" = true)
      (hcontent : a.content = .list d body closing) (hbody : Lists stretch body)
      (h : Grouped settings as) : Grouped (stretch ++ settings) (a :: as)

/-! ### Reading one setting -/

open RecordCoding.Parser

variable {rest : List TokenTree}

theorem EndsItem.closes (h : EndsItem rest) : Closes rest := by
  cases h with
  | nil => exact .nil
  | comma joint l ts => exact .comma ts

theorem Colons.isPunct_trees (c : Colons) (ts : List TokenTree) :
    isPunct "::" (c.trees ++ ts) = true := by
  simp [isPunct, beginsWith, Colons.trees]

@[simp]
theorem reads_here_bind {α : Type} {f : Location → Parser α} {t : TokenTree} {ts : List TokenTree}
    {P : α → Prop} : Reads (here >>= f) (t :: ts) rest P ↔ Reads (f t.location) (t :: ts) rest P :=
  reads_bind_iff fun _ _ => rfl

/-- A step that comes to something is followed by the others. -/
theorem bind_run {α β : Type} {r : Parser α} {f : α → Parser β} {s s' : ParseState} {a : α}
    (h : r s = .ok (a, s')) : (r >>= f) s = f a s' := by
  show Except.bind (r s) _ = _
  rw [h]
  rfl

namespace WrittenPath

theorem reads_further (h : EndsItem rest) {further : List (Colons × Ident)} {fuel : Nat}
    (hfuel : further.length < fuel) :
    Reads (Entry.path.further fuel) (furtherTrees further ++ rest) rest (· = further.map (·.2)) := by
  induction further generalizing fuel with
  | nil =>
    obtain ⟨fuel, rfl⟩ : ∃ n, fuel = n + 1 := ⟨fuel - 1, by omega⟩
    simp [Entry.path.further, furtherTrees, h.closes.ends.isPunct_eq_false (p := "::") rfl (by decide)]
  | cons step more ih =>
    obtain ⟨c, i⟩ := step
    obtain ⟨fuel, rfl⟩ : ∃ n, fuel = n + 1 := ⟨fuel - 1, by omega⟩
    have hmore : Reads (Entry.path.further fuel) (furtherTrees more ++ rest) rest
        (· = more.map (·.2)) := ih (by simpa using hfuel)
    have htrees : furtherTrees ((c, i) :: more) ++ rest
        = c.trees ++ .ident i :: (furtherTrees more ++ rest) := by
      simp [furtherTrees]
    have hdrop : (c.trees ++ .ident i :: (furtherTrees more ++ rest)).drop "::".toList.length
        = .ident i :: (furtherTrees more ++ rest) := rfl
    rw [htrees, Entry.path.further, reads_punct?_bind, if_pos (c.isPunct_trees _), hdrop, if_pos rfl,
      reads_word_bind]
    refine hmore.bind ?_
    rintro _ rfl
    exact reads_pure.mpr ⟨rfl, rfl⟩

/-- A path is read up to the end of its item. -/
theorem reads_path (p : WrittenPath) (h : EndsItem rest) :
    Reads Entry.path (p.trees ++ rest) rest (· = (p.path, p.location)) := by
  obtain ⟨leading, first, further⟩ := p
  have hfurther : Reads (Entry.path.further ((furtherTrees further ++ rest).length + 1))
      (furtherTrees further ++ rest) rest (· = further.map (·.2)) := by
    have hlength : further.length ≤ (furtherTrees further).length :=
      length_le_flatMap fun step _ => by simp [Colons.trees]
    refine reads_further h ?_
    rw [List.length_append]
    omega
  -- What is read behind the colons, if there are any.
  have hsteps (l : Location) : Reads (do
        let ts ← ahead
        if !isWord ts then
          if ts.isEmpty then fail (.rule "expected nested attribute")
          else if isLiteral ts then
            fail (.rule "unexpected literal in nested attribute, expected ident")
          else fail (.rule "unexpected token in nested attribute, expected ident")
        else do
          let first ← word
          let rest ← Entry.path.further (← rounds)
          pure (Path.plain leading.isSome (first :: rest), l))
      (.ident first :: (furtherTrees further ++ rest)) rest
      (· = (Path.plain leading.isSome (first :: further.map (·.2)), l)) := by
    simp only [reads_ahead_bind, isWord, Bool.not_true, Bool.false_eq_true, if_false,
      reads_word_bind, reads_rounds_bind]
    refine hfurther.bind ?_
    rintro _ rfl
    exact reads_pure.mpr ⟨rfl, rfl⟩
  cases leading with
  | none =>
    have hcolons : isPunct "::" (.ident first :: (furtherTrees further ++ rest)) = false :=
      isPunct_ident (by decide)
    rw [Entry.path]
    simpa [trees, hcolons, path, location, TokenTree.location] using hsteps first.location
  | some c =>
    have hcolons := c.isPunct_trees (.ident first :: (furtherTrees further ++ rest))
    have hdrop : (c.trees ++ .ident first :: (furtherTrees further ++ rest)).drop "::".toList.length
        = .ident first :: (furtherTrees further ++ rest) := rfl
    have htrees : trees ⟨some c, first, further⟩ ++ rest
        = c.trees ++ .ident first :: (furtherTrees further ++ rest) := by
      simp [trees]
    have hopening : c.trees ++ .ident first :: (furtherTrees further ++ rest)
        = .punct ':' true c.first ::
          (.punct ':' c.joint c.second :: .ident first :: (furtherTrees further ++ rest)) := rfl
    rw [htrees, Entry.path, hopening, reads_here_bind, ← hopening, reads_punct?_bind, if_pos hcolons,
      hdrop]
    exact hsteps c.first

end WrittenPath

namespace Setting

/-- A value is read up to the end of its item, whatever comes of it. -/
theorem runtimePath_eq {opening : TokenTree} {more : List TokenTree} {literal : Option String}
    {depth : Nat} (hvalue : IsExpression (opening :: more) literal)
    (hdepth : TokenTree.sizeList (opening :: more) < depth) (h : EndsItem rest) (joint : Bool)
    (equals scope : Location) (stray : Option SyntaxError) :
    Entry.runtimePath (Inner.ofDepth depth)
        ⟨.punct '=' joint equals :: (opening :: more ++ rest), scope, stray⟩
      = (pathOf opening.location literal).map fun p => (p, ⟨rest, scope, stray⟩) := by
  obtain ⟨code, hread, hliteral⟩ := hvalue depth hdepth rest h scope stray
  -- The value is read to its end first; only then it is looked at, as a literal and as text.
  have hequals : punct "=" ⟨.punct '=' joint equals :: (opening :: more ++ rest), scope, stray⟩
      = .ok ((), ⟨opening :: more ++ rest, scope, stray⟩) := rfl
  have hhere : here ⟨opening :: more ++ rest, scope, stray⟩
      = .ok (opening.location, ⟨opening :: more ++ rest, scope, stray⟩) := rfl
  rw [Entry.runtimePath, bind_run hequals, bind_run hhere, bind_run hread, hliteral]
  rcases literal with _ | literal
  · rfl
  · show Except.bind (Entry.pathInText literal _) _ = Except.map _ (Entry.pathInText literal _)
    rcases Entry.pathInText literal opening.location with _ | _ <;> rfl

/-- A setting in front of what ends it: its entry, and then what follows, unless it is a
value that is no path. -/
theorem listFrom_eq {s : Setting} (hs : s.WellFormed) {depth : Nat}
    (hdepth : TokenTree.sizeList s.trees ≤ depth) (h : EndsItem rest) (fuel : Nat) (scope : Location)
    (stray : Option SyntaxError) :
    Entry.listFrom (Inner.ofDepth depth) (fuel + 1) ⟨s.trees ++ rest, scope, stray⟩
        = s.entry :: Entry.listFrom.more (Inner.ofDepth depth) ⟨rest, scope, stray⟩ fuel ∨
      Entry.listFrom (Inner.ofDepth depth) (fuel + 1) ⟨s.trees ++ rest, scope, stray⟩ = [s.entry] ∧
        s.entry.recordFault?.isSome ∧ s.entry.fieldFault?.isSome := by
  cases s with
  | named p =>
    obtain ⟨_, hpath, rfl⟩ := p.reads_path h scope stray
    refine .inl ?_
    rw [Entry.listFrom, trees, hpath]
    simp only [show p.path.isName "crate" = false from hs, Bool.false_eq_true, if_false]
    rfl
  | runtime l equals joint opening more literal =>
    have hpath : Entry.path
        ⟨(runtime l equals joint opening more literal).trees ++ rest, scope, stray⟩
        = .ok ((.plain false [⟨"crate", false, l⟩], l),
            ⟨.punct '=' joint equals :: (opening :: more ++ rest), scope, stray⟩) := by rfl
    have hcrate : Path.isName "crate" (.plain false [⟨"crate", false, l⟩]) = true := by rfl
    have hroom : TokenTree.sizeList (opening :: more) < depth := by
      simp only [trees, TokenTree.sizeList, TokenTree.size] at hdepth ⊢
      omega
    rw [Entry.listFrom, hpath]
    simp only [hcrate, if_true, runtimePath_eq hs hroom h joint equals scope stray, entry]
    -- A value that is no path ends the list, with an entry that nobody accepts.
    rcases pathOf opening.location literal with err | p
    · exact .inr ⟨rfl, rfl, rfl⟩
    · exact .inl rfl

end Setting

theorem more_nil (inner : Inner) (scope : Location) (fuel : Nat) :
    Entry.listFrom.more inner ⟨[], scope, none⟩ fuel = [] := by
  rw [Entry.listFrom.more]
  rfl

theorem more_comma (inner : Inner) (joint : Bool) (l scope : Location) (body : List TokenTree)
    (fuel : Nat) :
    Entry.listFrom.more inner ⟨.punct ',' joint l :: body, scope, none⟩ fuel
      = if body.isEmpty then [] else Entry.listFrom inner fuel ⟨body, scope, none⟩ := by
  have hcomma : punct "," ⟨.punct ',' joint l :: body, scope, none⟩
      = .ok ((), ⟨body, scope, none⟩) := rfl
  rw [Entry.listFrom.more, hcomma]
  rfl

theorem sizeList_append (ts us : List TokenTree) :
    TokenTree.sizeList (ts ++ us) = TokenTree.sizeList ts + TokenTree.sizeList us := by
  induction ts with
  | nil => rw [List.nil_append, TokenTree.sizeList, Nat.zero_add]
  | cons t ts ih => rw [List.cons_append, TokenTree.sizeList, TokenTree.sizeList, ih, Nat.add_assoc]

theorem Setting.trees_ne_nil (s : Setting) : s.trees ≠ [] := by
  cases s with
  | named p => simp [trees, WrittenPath.trees]
  | runtime => simp [trees]

namespace Lists

variable {settings : List Setting} {body : List TokenTree}

theorem isEmpty_eq (h : Lists settings body) : body.isEmpty = settings.isEmpty := by
  cases h with
  | nil => rfl
  | last s => simp [s.trees_ne_nil]
  | cons s joint l h => simp

theorem length_le (h : Lists settings body) : settings.length ≤ body.length := by
  induction h with
  | nil => exact Nat.le_refl 0
  | last s => exact List.length_pos_iff.mpr s.trees_ne_nil
  | cons s joint l _ ih =>
    have hpos := List.length_pos_iff.mpr s.trees_ne_nil
    simp only [List.length_append, List.length_cons]
    omega

/-- The entries of a list are those of its settings, up to a fault. -/
theorem agree {depth : Nat} (h : Lists settings body) (hwell : ∀ s ∈ settings, s.WellFormed)
    (hne : settings ≠ []) (hdepth : TokenTree.sizeList body ≤ depth) {fuel : Nat}
    (hfuel : settings.length ≤ fuel) (scope : Location) :
    Entry.Agree (Entry.listFrom (Inner.ofDepth depth) fuel ⟨body, scope, none⟩)
      (settings.map (·.entry)) := by
  induction h generalizing fuel with
  | nil => exact absurd rfl hne
  | last s =>
    obtain ⟨fuel, rfl⟩ : ∃ n, fuel = n + 1 := ⟨fuel - 1, by simp at hfuel; omega⟩
    have hread := Setting.listFrom_eq (hwell s List.mem_cons_self) hdepth .nil fuel scope none
    rw [List.append_nil] at hread
    -- Nothing stands behind the last setting, so it does not matter whether reading goes on.
    rcases hread with hread | ⟨hread, -, -⟩
    · rw [hread, more_nil]
      exact .cons _ .nil
    · rw [hread]
      exact .cons _ .nil
  | @cons s joint l more body hmore ih =>
    obtain ⟨fuel, rfl⟩ : ∃ n, fuel = n + 1 := ⟨fuel - 1, by simp at hfuel; omega⟩
    rw [sizeList_append, TokenTree.sizeList] at hdepth
    have hhead : TokenTree.sizeList s.trees ≤ depth := by omega
    have hread := Setting.listFrom_eq (hwell s List.mem_cons_self) hhead (.comma joint l body) fuel
      scope none
    rcases hread with hread | ⟨hread, hrecord, hfield⟩
    · rw [hread, more_comma, hmore.isEmpty_eq]
      refine .cons _ ?_
      cases more with
      | nil => exact .nil
      | cons t more =>
        exact ih (fun s hs => hwell s (List.mem_cons_of_mem _ hs)) (by simp) (by omega)
          (by simpa using hfuel)
    · rw [hread]
      exact .fault hrecord hfield _ _

end Lists

/-! ### Values -/

/-- An atom with nothing behind it is an expression. -/
theorem isExpression_of_atom {value : List TokenTree} {literal : Option String}
    (hopens : ∀ rest, Unprefixed (value ++ rest))
    (hatom : ∀ inner rest, Closes rest →
      Reads (atom inner true) (value ++ rest) rest fun code => code.literal? = literal) :
    IsExpression value literal := by
  intro depth hdepth rest h
  -- There is room for one level, that of the operand.
  obtain ⟨depth, rfl⟩ : ∃ n, depth = n + 1 := ⟨depth - 1, by omega⟩
  refine reads_expression h.closes (reads_operandWith (hopens rest)
    (hatom _ rest h.closes) fun code hcode => ?_)
  exact (reads_trailing_nothing h.closes).imp fun _ heq => heq ▸ hcode

/-- A literal. -/
theorem isExpression_literal (text : String) (l : Location) :
    IsExpression [.literal text l] (some text) :=
  isExpression_of_atom (fun _ => .of_no_mark (by simp)) fun _ _ _ => reads_atom_literal

/-! ### Attributes -/

/-- The entries of attributes are those of the settings they give, up to a fault. -/
theorem Grouped.agree {settings : List Setting} {as : List Attribute} (h : Grouped settings as)
    (hwell : ∀ s ∈ settings, s.WellFormed) :
    Entry.Agree (Entry.ofAttributes as) (settings.map (·.entry)) := by
  induction h with
  | nil => exact .nil
  | @other settings a as ha _ ih =>
    have hnone : Entry.ofAttribute a = [] := by
      rw [Entry.ofAttribute, if_neg (by simp [ha])]
    rw [Entry.ofAttributes, List.flatMap_cons, hnone]
    exact ih hwell
  | @list stretch settings a as d body closing ha hcontent hbody _ ih =>
    rw [List.forall_mem_append] at hwell
    rw [Entry.ofAttributes, List.flatMap_cons, List.map_append]
    refine .append ?_ (ih hwell.2)
    rw [Entry.ofAttribute, if_pos ha, hcontent]
    simp only [hbody.isEmpty_eq]
    cases stretch with
    | nil => exact .nil
    | cons s more =>
      exact hbody.agree hwell.1 (by simp) (Nat.le_succ _) (Nat.le_succ_of_le hbody.length_le) closing

/-- **Settings count in their sequence, whatever attributes they are grouped in.**  A
record gets the first fault in the sequence, which is a setting for fields, an unknown
one, or a `crate` whose value is no text or the text of no path; else it is strict if
some setting asks for that, and its runtime library is the last that is named.  A field
gets the first setting that is no `skip` for its fault; else it is skipped if there is
one. -/
theorem Grouped.ofAttributes_eq {settings : List Setting} (hwell : ∀ s ∈ settings, s.WellFormed)
    {as : List Attribute} (h : Grouped settings as) :
    RecordSettings.ofAttributes as
        = unlessFaults (settings.filterMap (·.entry.recordFault?))
            ⟨settings.any (·.entry.asksStrict),
              (settings.filterMap (·.entry.runtime?)).getLastD RecordSettings.defaultRuntime⟩ ∧
      FieldSettings.ofAttributes as
        = unlessFaults (settings.filterMap (·.entry.fieldFault?))
            ⟨settings.any (·.entry.asksSkip)⟩ := by
  have hentries := h.agree hwell
  rw [RecordSettings.ofAttributes, hentries.record_eq, RecordSettings.ofEntries_eq,
    FieldSettings.ofAttributes, hentries.field_eq, FieldSettings.ofEntries_eq]
  simp only [RecordSettings.askedBy, FieldSettings.askedBy, List.filterMap_map, List.any_map,
    RecordSettings.initial, Bool.false_or]
  exact ⟨rfl, rfl⟩

/-! ### Settings in several lists -/

namespace Regrouped

def strict : Setting := .named ⟨none, ⟨"strict", false, ⟨1, 10⟩⟩, []⟩

def runtime (text : String) : Setting :=
  .runtime ⟨3, 10⟩ ⟨3, 16⟩ false (.literal text ⟨3, 18⟩) [] (some text)

/-- `::crate`, which is not `crate` alone. -/
def unknown : Setting := .named ⟨some ⟨⟨4, 10⟩, ⟨4, 11⟩, false⟩, ⟨"crate", false, ⟨4, 12⟩⟩, []⟩

def settings : List Setting := [strict, runtime "\"a::b\"", runtime "\"c\""]

def codable (body : List TokenTree) : Attribute :=
  ⟨.start, false, .plain false [.plain "codable"], .list .parenthesis body .start⟩

/-- A list with a comma at its end, an attribute for somebody else, an empty list, and
a list of two settings. -/
def attributes : List Attribute :=
  [codable (strict.trees ++ [.punct ',' false ⟨1, 16⟩]),
    ⟨.start, false, .plain false [.plain "serde"], .none⟩, codable [],
    codable ((runtime "\"a::b\"").trees ++ .punct ',' false ⟨3, 24⟩ :: (runtime "\"c\"").trees)]

theorem wellFormed_settings : ∀ s ∈ settings, s.WellFormed := by
  simp only [settings, List.forall_mem_cons]
  exact ⟨by rfl, isExpression_literal _ _, isExpression_literal _ _, by simp⟩

theorem grouped_settings : Grouped settings attributes :=
  .list (by rfl) rfl (.cons strict false ⟨1, 16⟩ .nil) <| .other (by rfl) <|
    .list (by rfl) rfl .nil <|
      .list (by rfl) rfl (.cons (runtime "\"a::b\"") false ⟨3, 24⟩ (.last (runtime "\"c\""))) .nil

/-- The record is strict, and the last path counts; a field accepts none of this, and a
record no unknown path behind what it accepts. -/
theorem ofAttributes_settings :
    (∀ s ∈ settings, s.WellFormed) ∧ Grouped settings attributes ∧
      (∃ r, RecordSettings.ofAttributes attributes = .ok r ∧ r.strict ∧ r.runtime.isName "c") ∧
      FieldSettings.ofAttributes attributes
        = .error ⟨.rule "unknown codable field attribute", false, ⟨1, 10⟩⟩ ∧
      RecordSettings.ofAttributes
          [codable (strict.trees ++ .punct ',' false ⟨1, 16⟩ :: unknown.trees), codable []]
        = .error ⟨.rule "unknown codable attribute", false, ⟨4, 10⟩⟩ := by
  obtain ⟨hrecord, hfield⟩ := Grouped.ofAttributes_eq wellFormed_settings grouped_settings
  have hfaults : settings.filterMap (·.entry.recordFault?) = [] := by decide +kernel
  rw [hfaults] at hrecord
  have hwell : ∀ s ∈ [strict, unknown], s.WellFormed := by
    simp only [List.forall_mem_cons]
    exact ⟨by rfl, by rfl, by simp⟩
  have hgrouped : Grouped [strict, unknown]
      [codable (strict.trees ++ .punct ',' false ⟨1, 16⟩ :: unknown.trees), codable []] :=
    .list (by rfl) rfl (.cons strict false ⟨1, 16⟩ (.last unknown)) (.list (by rfl) rfl .nil .nil)
  refine ⟨wellFormed_settings, grouped_settings, ⟨_, hrecord, rfl, by decide +kernel⟩, ?_, ?_⟩
  · rw [hfield]
    rfl
  · rw [(Grouped.ofAttributes_eq hwell hgrouped).1]
    rfl

end Regrouped

end RecordCoding
