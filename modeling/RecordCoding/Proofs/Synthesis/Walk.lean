/-
The walk over the items of a file with one stack for the modules around them.

`Candidate.ofItems` hands the modules down, so that what it says of one module
cannot depend on another.  A walk has a single stack: it puts a name on top when
it goes into a module and takes one off when it comes out, and the label of a
declaration is what the stack holds at that moment.  A declaration is a struct, an
enum, a union or a trait (`TypeBody`).

* `Walk.item_eq`, `Walk.items_eq` — an item, and items one after the other: the
  declarations are found as they are collected, and the stack is as before;
* `Walk.items_in_place` — what a walk finds, by the places in the file.

Design notes: that the stack is as before is part of what is proved of every
item.  Without it nothing could be said of the items behind a module.
-/
import RecordCoding.Proofs.Synthesis.Places

namespace RecordCoding

/-- A walk under way. -/
structure Walk where
  /-- The names of the modules gone into, outermost first. -/
  modules : List String
  /-- The declarations found so far, each with the path of the modules around it,
  if there are any. -/
  found : List (TypeItem × Option String)
  deriving Inhabited

namespace Walk

/-- Go into a module. -/
def enter (w : Walk) (name : Ident) : Walk := { w with modules := w.modules ++ [name.spelled] }

/-- Come out of the innermost module. -/
def leave (w : Walk) : Walk := { w with modules := w.modules.dropLast }

/-- The path of the modules gone into, if there are any. -/
def label (w : Walk) : Option String :=
  if w.modules = [] then none else some ("::".intercalate w.modules)

/-- Find a declaration. -/
def find (w : Walk) (t : TypeItem) : Walk := { w with found := w.found ++ [(t, w.label)] }

mutual

/-- Go through an item. -/
def item (w : Walk) : Item → Walk
  | .type t => w.find t
  | .module name content => w.content name content
  | .other => w

/-- Go through a module and come out again, if its content is written in place. -/
def content (w : Walk) (name : Ident) : Option (List Item) → Walk
  | none => w
  | some items => ((w.enter name).items items).leave

/-- Go through items in the order of the text. -/
def items (w : Walk) : List Item → Walk
  | [] => w
  | i :: rest => (w.item i).items rest

end

end Walk

/-- A declaration as a walk finds it. -/
def Candidate.finding (c : Candidate) : TypeItem × Option String := (c.item, c.moduleLabel)

namespace Walk

/-- The walk after some more declarations, in the same modules. -/
def after (w : Walk) (cs : List Candidate) : Walk :=
  { w with found := w.found ++ cs.map Candidate.finding }

theorem after_nil (w : Walk) : w.after [] = w := by
  rw [after, List.map_nil, List.append_nil]

theorem after_after (w : Walk) (before later : List Candidate) :
    (w.after before).after later = w.after (before ++ later) := by
  simp only [after, List.map_append, List.append_assoc]

theorem label_eq (w : Walk) (t : TypeItem) : w.label = Candidate.moduleLabel ⟨t, w.modules⟩ := by
  simp only [label, Candidate.moduleLabel, List.isEmpty_iff]

theorem find_eq (w : Walk) (t : TypeItem) : w.find t = w.after [⟨t, w.modules⟩] := by
  rw [find, label_eq w t]
  rfl

/-- The name that is taken off is the one that was put on top. -/
theorem leave_after_enter (w : Walk) (name : Ident) (cs : List Candidate) :
    ((w.enter name).after cs).leave = w.after cs := by
  simp only [leave, after, enter, List.dropLast_concat]

mutual

theorem item_eq (w : Walk) (i : Item) : w.item i = w.after (Candidate.ofItem w.modules i) := by
  cases i with
  | type t => exact w.find_eq t
  | module name inner => exact w.content_eq name inner
  | other => exact w.after_nil.symm

theorem content_eq (w : Walk) (name : Ident) (inner : Option (List Item)) :
    w.content name inner = w.after (Candidate.ofContent (w.modules ++ [name.spelled]) inner) := by
  cases inner with
  | none => exact w.after_nil.symm
  | some inside =>
    rw [content, (w.enter name).items_eq inside, leave_after_enter]
    rfl

/-- A walk finds what is collected with the modules handed down. -/
theorem items_eq (w : Walk) (is : List Item) :
    w.items is = w.after (Candidate.ofItems w.modules is) := by
  cases is with
  | nil => exact w.after_nil.symm
  | cons i rest =>
    rw [items, w.item_eq i, items_eq _ rest]
    -- The modules after an item are those before it.
    exact w.after_after (Candidate.ofItem w.modules i) (Candidate.ofItems w.modules rest)

end

/-- **A walk finds every declaration once, under its own modules.**  Whatever
modules a walk is in already, it finds the declarations at all places of the items,
in the order of their places, each under those modules and the ones around it, and
it ends in the modules that it began in.  The declarations that an expansion goes
through are these. -/
theorem items_in_place (w : Walk) (is : List Item) :
    ∃ placed, PlacesInOrder (StandsAt is) placed ∧
      (w.items is).modules = w.modules ∧
      (w.items is).found = w.found ++ placed.map (fun pc =>
        (pc.2.item,
          if w.modules ++ pc.2.modules = [] then none
          else some ("::".intercalate (w.modules ++ pc.2.modules)))) ∧
      (w.items is).found
        = w.found ++ (Candidate.ofItems w.modules is).map fun c => (c.item, c.moduleLabel) := by
  obtain ⟨placed, hplaced, hsnd⟩ := exists_ordered_places is
  have hwalk := w.items_eq is
  refine ⟨placed, hplaced, by rw [hwalk, after], ?_, by rw [hwalk, after]; rfl⟩
  have hlabels : (Candidate.ofItems w.modules is).map Candidate.finding
      = placed.map fun pc => (pc.2.inside w.modules).finding := by
    rw [Candidate.ofItems_inside, ← hsnd, List.map_map, List.map_map]
    rfl
  rw [hwalk, after, hlabels]
  simp only [Candidate.finding, Candidate.inside, Candidate.moduleLabel, List.isEmpty_iff]

/-- Behind a module its name is forgotten. -/
example (t : TypeItem) (a b : Ident) :
    (Walk.items ⟨[], []⟩ [.module a (some [.module b (some []), .type t]), .type t])
      = ⟨[], [(t, some a.spelled), (t, none)]⟩ := rfl

end Walk

end RecordCoding
