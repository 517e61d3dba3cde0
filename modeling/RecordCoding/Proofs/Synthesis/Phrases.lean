/-
Reading the statements and types of generated code.

Each kind of statement that members hold is read back here on trees, given that the names
and types in it can be read.

* `reads_statement_opening` — the container is opened;
* `reads_statement_reading`, `reads_statement_writing` — a field is read or written;
* `takes_statement_success` — the result is put together;
* `isTypePath_result` — the type of a result.

Design notes: an operand is read from its atom on, so the lemmas here compose what
follows the name of a container, one member after the other.
-/
import RecordCoding.Proofs.Code.Paths

namespace RecordCoding

namespace Parser

variable {k : Nat} {inner : Inner} {record : Bool} {i : Ident} {ts mid rest : List TokenTree}
  {P : Code → Prop}

/-- The words that an expression in generated code opens with. -/
def operandWords : List String := ["__container", "__decoder", "__encoder"]

variable {w : String}

theorem isName_of_operandWords (hw : w ∈ operandWords) : isName (.plain w) = true := by
  simp only [operandWords, List.mem_cons, List.not_mem_nil, or_false] at hw
  rcases hw with rfl | rfl | rfl <;> decide

/-- A name in front of a dot. -/
theorem reads_atom_name (hi : opensType i = true) :
    Reads (atom inner record) (.ident i :: mark '.' :: ts) (mark '.' :: ts)
      fun c => ∃ parts, c = .node .path parts := by
  have hopens : OpensPath (.ident i :: mark '.' :: ts) :=
    .word hi (isPunct_of_ne rfl (by decide))
  have hcolons : isPunct "::" (mark '.' :: ts) = false := isPunct_of_ne rfl (by decide)
  have hfirst : StepBefore inner true (mark '.' :: ts) [.ident i] :=
    stepBefore_ident (Bool.and_eq_true_iff.mp hi).1
      ⟨fun h => absurd h (by decide), by rw [hcolons, Bool.false_and]⟩
  have hnone : ∀ p ∈ ([] : List (List TokenTree)), StepBefore inner true (mark '.' :: ts) p :=
    fun _ hp => absurd hp (by simp)
  have hpath := takes_path false hfirst hnone hcolons
  exact reads_atom hopens (reads_pathAtom hopens hpath (isPunct_of_ne rfl (by decide)) rfl)

/-- An operand that opens with a name and goes on behind a dot. -/
theorem reads_operandWith_name {fuel : Nat} (hi : opensType i = true)
    (h : ∀ parts, Reads (trailing inner ((mark '.' :: ts).length + 1) (.node .path parts))
      (mark '.' :: ts) rest P) :
    Reads (operandWith inner record (fuel + 1)) (.ident i :: mark '.' :: ts) rest P := by
  refine reads_operandWith (.of_no_mark (by simp)) (reads_atom_name hi) ?_
  rintro _ ⟨parts, rfl⟩
  exact h parts

/-- `.operation::<T>(arguments)` -/
abbrev operationTrees (operation : String) (type arguments ts : List TokenTree) : List TokenTree :=
  mark '.' :: .ident (.plain operation) :: (doubleColon ++ mark '<' :: (type ++ mark '>' ::
    .group .parenthesis arguments .start .start :: ts))

/-- The operations of containers that generated code calls with a type. -/
def operationNames : List String := ["container", "decode", "decode_if_present"]

variable {operation : String} {type arguments : List TokenTree}

theorem takes_turbofish (htype : ReadsBefore (argument inner) angleMarks type) :
    Takes (angleArguments inner) (doubleColon ++ mark '<' :: (type ++ mark '>' :: ts)) ts := by
  have hpieces : ∀ p ∈ [type], ReadsBefore (argument inner) angleMarks p := fun p hp =>
    List.mem_singleton.mp hp ▸ htype
  simpa [marked] using takes_angleArguments true false hpieces

/-- The call of an operation behind an operand. -/
theorem reads_trailing_operation {fuel : Nat} {c : Code} (ho : operation ∈ operationNames)
    (hc : c.isRange = false) (htype : ReadsBefore (argument inner) angleMarks type)
    (harguments : Takes (terminatedCode (inner.expression true)) arguments [])
    (h : ∀ parts, Reads (trailing inner fuel (.node .methodCall parts)) ts rest P) :
    Reads (trailing inner (fuel + 1) c) (operationTrees operation type arguments ts) rest P := by
  have hname : isName (.plain operation) = true := by
    simp only [operationNames, List.mem_cons, List.not_mem_nil, or_false] at ho
    rcases ho with rfl | rfl | rfl <;> decide
  refine reads_trailing_member hc
    (reads_memberOf_turbofish hname rfl (takes_turbofish htype) harguments) ?_
  rintro _ ⟨parts, rfl⟩
  exact h parts

/-! ### Paths as expressions -/

/-- A path as an expression. -/
theorem takes_expression_path (hopens : OpensPath ts) (hpath : Takes (path inner true) ts rest)
    (hrest : Closes rest) : Takes (expression inner record) ts rest := by
  have hbang : isPunct "!" rest = false := hrest.ends.isPunct_eq_false rfl (by decide)
  refine (reads_expression hrest (P := fun _ => True) ?_).takes
  refine reads_operandWith hopens.unprefixed
    (reads_atom hopens (reads_pathAtom hopens hpath hbang (hrest.isGroup_eq_false _))) fun c _ => ?_
  exact (reads_trailing_nothing hrest).takes

/-- The call of a path. -/
theorem reads_operandWith_call {fuel : Nat} {body : List TokenTree} (hopens : OpensPath ts)
    (hpath : Takes (path inner true) ts (.group .parenthesis body .start .start :: rest))
    (hbody : Takes (terminatedCode (inner.expression true)) body []) (hrest : Closes rest) :
    Reads (operandWith inner record (fuel + 1)) ts rest fun c => ∃ parts, c = .node .call parts := by
  refine reads_operandWith hopens.unprefixed
    (reads_atom hopens (reads_pathAtom hopens hpath (isPunct_group (by decide)) rfl)) fun c _ => ?_
  refine reads_trailing_call hbody fun parts => ?_
  exact (reads_trailing_nothing hrest).imp fun _ h => ⟨_, h⟩

/-- A name or a variant as an expression. -/
theorem takes_expression_names (names : List Ident) (hi : opensType i = true)
    (h : ∀ j ∈ names, isName j = true) (hrest : Closes rest) :
    Takes (expression inner record)
      (.ident i :: (stepTrees (names.map fun j => [.ident j]) ++ rest)) rest := by
  have hstep : ∀ j ∈ names, isStep j = true := fun j hj => by rw [isStep, h j hj, Bool.true_or]
  have hhash : isPunct "#" (stepTrees (names.map fun j => [.ident j]) ++ rest) = false :=
    isPunct_stepTrees hrest.ends.isPunct_hash
  exact takes_expression_path (.word hi hhash)
    (takes_path_names false names (Bool.and_eq_true_iff.mp hi).1 hstep hrest.ends.endsPath) hrest

/-- A single expression in parentheses. -/
theorem takes_terminatedCode_single {r : Parser Code} {p : List TokenTree} (hne : p ≠ [])
    (h : ∀ ts, Closes ts → Takes r (p ++ ts) ts) : Takes (terminatedCode r) p [] := by
  have hlist := takes_terminatedCode (r := r) [p] fun q hq =>
    List.mem_singleton.mp hq ▸ ⟨hne, h⟩
  simpa [marked] using hlist

/-- Nothing in parentheses. -/
theorem takes_terminatedCode_nil {r : Parser Code} : Takes (terminatedCode r) [] [] :=
  takes_terminatedCode [] fun _ hp => absurd hp (by simp)

/-- A reference to an array of expressions. -/
theorem takes_expression_array {pieces : List (List TokenTree)}
    (h : ∀ p ∈ pieces, p ≠ [] ∧ ∀ ts, Closes ts → Takes (inner.expression true) (p ++ ts) ts)
    (hrest : Closes rest) :
    Takes (expression inner true)
      (mark '&' :: .group .bracket (marked ',' false pieces) .start .start :: rest) rest := by
  refine (reads_expression hrest (P := fun _ => True) ?_).takes
  refine (reads_operandWith_reference rfl rfl ?_).takes
  exact reads_operandWith (.of_no_mark (by simp)) (reads_atom_array h) fun c _ =>
    (reads_trailing_nothing hrest).takes

/-! ### Bindings -/

/-- A name that a value is bound to, with `mut` in front of it or not. -/
inductive Binds : List TokenTree → Prop
  | name {i : Ident} (hi : isName i = true) : Binds [.ident i]
  | changing : Binds [.ident (.plain "mut"), .ident (.plain "__container")]

theorem Binds.takes_pattern {p : List TokenTree} (h : Binds p) :
    Takes ((Inner.ofDepth (k + 1)).pattern) (p ++ mark '=' :: ts) (mark '=' :: ts) := by
  cases h with
  | name hi => exact takes_pattern_name hi (.inl rfl) (isPunct_of_ne rfl (by decide))
  | changing =>
    intro scope stray
    exact ⟨_, rfl, trivial⟩

/-- `let binding = container.operation::<T>(arguments)?;`, or without the question
mark. -/
theorem reads_statement_operation {p : List TokenTree} (hp : Binds p) (hw : w ∈ operandWords)
    (ho : operation ∈ operationNames)
    (htype : ReadsBefore (argument (Inner.ofDepth (k + 1))) angleMarks type)
    (harguments : Takes (terminatedCode ((Inner.ofDepth (k + 1)).expression true)) arguments [])
    (question : Bool) (rest : List TokenTree) :
    Reads (statement (Inner.ofDepth (k + 2)))
      (.ident (.plain "let") :: (p ++ mark '=' :: .ident (.plain w) ::
        operationTrees operation type arguments
          ((if question then [mark '?'] else []) ++ mark ';' :: rest))) rest
      fun c => c.needsSemicolon = false := by
  refine reads_statement_binding hp.takes_pattern ?_
  show Takes (expression (Inner.ofDepth (k + 1)) true) _ _
  refine (reads_expression (.semicolon rest) (P := fun _ => True) ?_).takes
  refine reads_operandWith_name (opensType_of_isName (isName_of_operandWords hw)) fun parts => ?_
  refine reads_trailing_operation (c := .node .path parts) ho rfl htype harguments fun parts => ?_
  cases question with
  | false => exact (reads_trailing_nothing (.semicolon rest)).takes
  | true =>
    exact reads_trailing_question rfl (reads_trailing_nothing (.semicolon rest)).takes

/-! ### Writing a field -/

/-- A field of `self` behind a reference. -/
theorem takes_expression_self (hi : isName i = true) (hrest : Closes rest) :
    Takes (expression inner true) (mark '&' :: .ident (.plain "self") :: mark '.' :: .ident i :: rest)
      rest := by
  refine (reads_expression hrest (P := fun _ => True) ?_).takes
  refine (reads_operandWith_reference rfl rfl ?_).takes
  refine reads_operandWith_name (by decide) fun parts => ?_
  refine reads_trailing_member rfl (reads_memberOf_field hi hrest) fun c _ => ?_
  exact (reads_trailing_nothing hrest).takes

/-- `container.encode(arguments)?;` -/
theorem reads_statement_writing {arguments : List TokenTree}
    (harguments : Takes (terminatedCode (inner.expression true)) arguments []) :
    Reads (statement inner)
      (.ident (.plain "__container") :: mark '.' :: .ident (.plain "encode") ::
        .group .parenthesis arguments .start .start :: mark '?' :: mark ';' :: rest) rest
      fun c => c.needsSemicolon = false := by
  have hcall : Takes plainPath
      (.ident (.plain "__container") :: mark '.' :: .ident (.plain "encode") ::
        .group .parenthesis arguments .start .start :: mark '?' :: mark ';' :: rest)
      (mark '.' :: .ident (.plain "encode") ::
        .group .parenthesis arguments .start .start :: mark '?' :: mark ';' :: rest) := by
    intro scope stray
    exact ⟨_, rfl, trivial⟩
  have hopens : OpensOperand (.ident (.plain "__container") :: mark '.' :: .ident (.plain "encode") ::
      .group .parenthesis arguments .start .start :: mark '?' :: mark ';' :: rest) :=
    ⟨rfl, fun v hv => isKeyword_of_not_mem hv (by decide) _, rfl, rfl⟩
  refine reads_statement_closed ⟨rfl, reads_leadingCall_of_path hcall rfl, rfl, rfl⟩ ?_
  refine (reads_statementExpression (P := fun c => ∃ parts, c = .node .propagation parts) hopens ?_
    (.semicolon rest) ?_).imp fun c hc => ⟨.propagation, hc.choose, hc.choose_spec, .inl rfl⟩
  · refine reads_operandWith_name (by decide) fun parts => ?_
    refine reads_trailing_member rfl (reads_memberOf_call (by decide) harguments) ?_
    rintro _ ⟨call, rfl⟩
    refine reads_trailing_question rfl ?_
    exact (reads_trailing_nothing (.semicolon rest)).imp fun _ h => ⟨_, h⟩
  · rintro _ ⟨parts, rfl⟩
    exact ⟨rfl, rfl⟩

/-! ### The result -/

/-- `::core` with steps behind it, and what stands behind these. -/
def coreTrees (names : List String) (ts : List TokenTree) : List TokenTree :=
  doubleColon ++ ([.ident (.plain "core")]
    ++ (stepTrees ((names.map Ident.plain).map fun j => [.ident j]) ++ ts))

/-- A call of a function of the standard library. -/
theorem reads_operandWith_core {fuel : Nat} {names : List String} {arguments : List TokenTree}
    (hnames : ∀ j ∈ names.map Ident.plain, isStep j = true)
    (harguments : Takes (terminatedCode (inner.expression true)) arguments []) (hrest : Closes rest) :
    Reads (operandWith inner record (fuel + 1))
      (coreTrees names (.group .parenthesis arguments .start .start :: rest)) rest
      fun c => ∃ parts, c = .node .call parts := by
  have hends : EndsPath (.group .parenthesis arguments .start .start :: rest) :=
    ⟨isPunct_group (by decide), isPunct_group (by decide)⟩
  have hpath : Takes (path inner true)
      (coreTrees names (.group .parenthesis arguments .start .start :: rest))
      (.group .parenthesis arguments .start .start :: rest) :=
    takes_path_names true _ (by decide) hnames hends
  exact reads_operandWith_call (.colons _) hpath harguments hrest

/-- Success with a value, at the end of a function. -/
theorem takes_statement_success {value : List TokenTree}
    (hvalue : Takes (terminatedCode (inner.expression true)) value []) :
    Takes (statement inner)
      (coreTrees ["result", "Result", "Ok"] [.group .parenthesis value .start .start]) [] := by
  have hcall : Takes plainPath
      (coreTrees ["result", "Result", "Ok"] [.group .parenthesis value .start .start])
      [.group .parenthesis value .start .start] := by
    intro scope stray
    exact ⟨_, rfl, trivial⟩
  refine takes_statement_last ⟨rfl, reads_leadingCall_of_path hcall rfl, rfl, rfl⟩ ?_
  have hopens : OpensOperand
      (coreTrees ["result", "Result", "Ok"] [.group .parenthesis value .start .start]) :=
    ⟨rfl, fun _ _ => rfl, rfl, rfl⟩
  refine (reads_statementExpression (P := fun c => ∃ parts, c = .node .call parts) hopens ?_ .nil
    ?_).imp fun c hc => ⟨.call, hc.choose, hc.choose_spec, .inr (.inl rfl)⟩
  · exact reads_operandWith_core (by decide) hvalue .nil
  · rintro _ ⟨parts, rfl⟩
    exact ⟨rfl, rfl⟩

/-- The value of a field that was not read. -/
theorem takes_expression_default (hrest : Closes rest) :
    Takes (expression inner true)
      (coreTrees ["default", "Default", "default"] (.group .parenthesis [] .start .start :: rest))
      rest := by
  refine (reads_expression hrest (P := fun _ => True) ?_).takes
  exact (reads_operandWith_core (by decide) takes_terminatedCode_nil hrest).takes

/-- The value of a function that gives nothing back. -/
theorem takes_expression_unit (hrest : Closes rest) :
    Takes (expression inner record) (.group .parenthesis [] .start .start :: rest) rest := by
  refine (reads_expression hrest (P := fun _ => True) ?_).takes
  exact reads_operandWith (.of_no_mark (by simp)) reads_atom_unit fun c _ =>
    (reads_trailing_nothing hrest).takes

/-- `Self` with its fields. -/
theorem takes_expression_record (fields : List (Ident × List TokenTree))
    (h : ∀ f ∈ fields, isName f.1 = true ∧
      ∀ ts, Closes ts → Takes (inner.expression true) (f.2 ++ ts) ts) (hrest : Closes rest) :
    Takes (expression inner true)
      (.ident (.plain "Self") ::
        .group .brace (marked ',' false (fields.map fun f => .ident f.1 :: mark ':' :: f.2))
          .start .start :: rest) rest := by
  have hopens : ∀ body : List TokenTree,
      OpensPath (.ident (.plain "Self") :: .group .brace body .start .start :: rest) :=
    fun _ => .word (by decide) rfl
  have hends : ∀ body : List TokenTree, EndsPath (.group .brace body .start .start :: rest) :=
    fun _ => ⟨isPunct_group (by decide), isPunct_group (by decide)⟩
  have hpath : ∀ body : List TokenTree, Takes (path inner true)
      (.ident (.plain "Self") :: .group .brace body .start .start :: rest)
      (.group .brace body .start .start :: rest) := fun body =>
    takes_path_names false [] (by decide) (by decide) (hends body)
  have hlength : fields.length
      ≤ (marked ',' false (fields.map fun f => .ident f.1 :: mark ':' :: f.2)).length := by
    refine List.length_map .. ▸ length_le_marked false fun p hp => ?_
    obtain ⟨f, -, rfl⟩ := List.mem_map.mp hp
    exact List.cons_ne_nil _ _
  have hbody : ∀ fuel,
      (marked ',' false (fields.map fun f => .ident f.1 :: mark ':' :: f.2)).length < fuel →
      Takes (initializers inner fuel)
        (marked ',' false (fields.map fun f => .ident f.1 :: mark ':' :: f.2)) [] :=
    fun fuel hfuel => takes_initializers h (by omega)
  refine (reads_expression hrest (P := fun _ => True) ?_).takes
  refine reads_operandWith (hopens _).unprefixed
    (reads_atom (hopens _) (reads_pathAtom_record (hopens _) (hpath _) hbody)) fun c _ => ?_
  exact (reads_trailing_nothing hrest).takes

/-! ### Types -/

/-- `::first::names::last<arguments>` -/
def libraryTrees (first : String) (names : List String) (last : String)
    (arguments : List (List TokenTree)) : List TokenTree :=
  doubleColon ++ ([.ident (.plain first)]
    ++ stepTrees ((names.map fun w => [.ident (.plain w)])
      ++ [.ident (.plain last) :: mark '<' :: (marked ',' false arguments ++ [mark '>'])]))

/-- A type of the standard library with its arguments. -/
theorem isTypePath_library {first last : String} {names : List String}
    {arguments : List (List TokenTree)} (hfirst : isStep (.plain first) = true)
    (hnames : ∀ w ∈ names, isStep (.plain w) = true) (hlast : isName (.plain last) = true)
    (h : ∀ p ∈ arguments, ReadsBefore (argument (Inner.ofDepth k)) angleMarks p) :
    IsTypePath k (libraryTrees first names last arguments) := by
  refine isTypePath_of_steps true (isStep_ident hfirst) (fun p hp => ?_) (.inl rfl)
    fun _ hts => hts
  rcases List.mem_append.mp hp with hp | hp
  · obtain ⟨w, hw, rfl⟩ := List.mem_map.mp hp
    exact isStep_ident (hnames w hw)
  · rw [List.mem_singleton.mp hp]
    exact fun _ _ => stepBefore_arguments false hlast h

/-- The type of nothing as an argument. -/
theorem readsBefore_unit :
    ReadsBefore (argument (Inner.ofDepth (k + 1))) angleMarks [.group .parenthesis [] .start .start] := by
  refine ⟨fun c _ ts => isPunct_group (by simp), fun c hc ts => ?_⟩
  simp only [angleMarks, List.mem_cons, List.not_mem_nil, or_false] at hc
  intro scope stray
  rcases hc with rfl | rfl <;> cases stray <;> exact ⟨_, rfl, trivial⟩

end Parser

end RecordCoding
