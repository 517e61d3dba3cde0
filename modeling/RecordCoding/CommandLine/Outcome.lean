/-
Outcomes: what a run of the program prints and writes, and how it ends.

A run reads one file, reports what there is to say about it, and gives out the
generated items. It fails where the file cannot be read, expanded or written,
and where one of the diagnostics is an error; in the last case the items are
given out all the same.

Design notes:

* What the file system says is an argument: the content of the file that is
  read, or why there is none. Only writing is left to the caller, who reports
  its failure with `Outcome.unwritten`.
-/
import RecordCoding.Layout.Members
import RecordCoding.CommandLine.Invocation

namespace RecordCoding

/-- What is printed and written, and how a run ends. -/
structure Outcome where
  stdout : String
  stderr : String
  /-- The file that is written, and its content. -/
  written : Option (String × String)
  exitCode : Nat
  deriving DecidableEq, Repr, Inhabited

/-! ### Texts -/

/-- The lines of a text behind the first, indented. -/
def hanging (s : String) : String :=
  String.ofList (s.toList.flatMap fun c => if c = '\n' then "\n    ".toList else [c])

/-- The report of what failed, and of the cause. -/
def failureReport (failed cause : String) : String :=
  "Error: " ++ failed ++ "\n\nCaused by:\n    " ++ hanging cause ++ "\n"

namespace Diagnostic

/-- The line that reports a diagnostic about a file. -/
def line (input : String) (d : Diagnostic) : String :=
  d.severity.name ++ ": " ++ input ++ s!":{d.location.line}:{d.location.column}: " ++ d.message
    ++ " [" ++ d.kind.id ++ "]\n"

end Diagnostic

namespace Event

/-- The line that logs an event. -/
def line (e : Event) : String :=
  let shown (entry : String × String) : String :=
    if entry.1 = "message" then entry.2 else entry.1 ++ "=" ++ entry.2
  (if e.isWarning then " WARN " else "DEBUG ") ++ e.target ++ ": "
    ++ " ".intercalate (e.fields.map shown) ++ "\n"

end Event

/-- How the program is called. -/
def usage : String := "Usage: codable-codegen [OPTIONS] <INPUT>"

namespace Switch

/-- The forms of an option in a list of all of them. -/
def forms (s : Switch) : String :=
  (match s.letter? with
   | none => "    "
   | some c => String.ofList ['-', c] ++ ", ") ++ s.shown

end Switch

/-- The text that explains the program. -/
def helpText : String :=
  let column := (Switch.all.map (·.forms.length)).foldl max 0
  let padded (s : String) : String :=
    s ++ String.ofList (List.replicate (column - s.length) ' ')
  "Generate coding keys, decode and encode impls for Rust records\n\n" ++ usage
    ++ "\n\nArguments:\n  <INPUT>  Rust source file to read\n\nOptions:\n"
    ++ String.join (Switch.all.map fun s => "  " ++ padded s.forms ++ "  " ++ s.about ++ "\n")

namespace Outcome

/-- A run that does nothing but fail. -/
def failed (what cause : String) : Outcome := ⟨"", failureReport what cause, none, 1⟩

/-- A run with arguments that cannot be followed. -/
def ofUsageError (e : UsageError) : Outcome :=
  ⟨"", "error: " ++ e.message ++ "\n\n" ++ usage ++ "\n\nFor more information, try '--help'.\n",
    none, 2⟩

/-- The same run when its file could not be written. -/
def unwritten (o : Outcome) (path cause : String) : Outcome :=
  { o with
    stderr := o.stderr ++ failureReport ("failed to write " ++ path) cause
    written := none
    exitCode := 1 }

end Outcome

namespace Invocation

/-- A run, given what its file holds or why it cannot be read. -/
def outcome (i : Invocation) : Except String String → Outcome
  | .error cause => .failed ("failed to read " ++ i.input) cause
  | .ok source =>
    match Expansion.ofSource i.options source with
    | .error e => .failed ("failed to expand " ++ i.input) e.message
    | .ok e =>
      let report := String.join (e.diagnostics.map (·.line i.input))
      let exitCode := if e.hasErrors then 1 else 0
      match i.output with
      | none => ⟨e.source, report, none, exitCode⟩
      | some path => ⟨"", report, some (path, e.source), exitCode⟩

/-- The events that are logged: all of them if the run is verbose, else the
warnings. -/
def log (i : Invocation) (source : String) : List Event :=
  (Event.ofSource i.options source).filter fun e => i.verbose || e.isWarning

end Invocation

end RecordCoding
