/-
What the arguments of the command line ask for.

Arguments are read from left to right. One that starts with two hyphens names an
option, one that starts with a single hyphen holds the letters of some; all
others are files to read, of which there has to be exactly one. Behind `--`
there are only files.

Design notes:

* A value is attached to its option, behind `=` in the long form and with or
  without it in the short one, or is the next argument. That one must not look
  like an option; a hyphen on its own does not.
* Only types may be asked for more than once.
* The first fault counts, and a request for help ends the reading.
-/
import RecordCoding.Synthesis.Expansion

namespace RecordCoding

/-- What a run of the program works on. -/
structure Invocation where
  /-- The file that is read. -/
  input : String
  /-- The file that is written instead of the standard output. -/
  output : Option String
  options : ExpansionOptions
  verbose : Bool

/-- What the program is asked for. -/
inductive CommandLine
  | help
  | run (invocation : Invocation)

/-! ### Options -/

/-- An option. -/
inductive Switch
  | output
  | type
  | strict
  | cratePath
  | verbose
  | help
  deriving DecidableEq, Repr, Inhabited

namespace Switch

/-- The options in the order in which they are listed. -/
def all : List Switch := [output, type, strict, cratePath, verbose, help]

/-- The long form, without its hyphens. -/
def longName : Switch → String
  | output => "output"
  | type => "type"
  | strict => "strict"
  | cratePath => "crate-path"
  | verbose => "verbose"
  | help => "help"

/-- The letter of the short form. -/
def letter? : Switch → Option Char
  | output => some 'o'
  | type => some 't'
  | strict => none
  | cratePath => none
  | verbose => some 'v'
  | help => some 'h'

/-- What the value of an option is called. -/
def valueName? : Switch → Option String
  | output => some "FILE"
  | type => some "TYPE"
  | cratePath => some "PATH"
  | _ => none

def takesValue (s : Switch) : Bool := s.valueName?.isSome

/-- What an option is for. -/
def about : Switch → String
  | output => "Write the generated items here instead of stdout"
  | type => "Only generate for these types (default: every `#[derive(Codable)]`)"
  | strict => "Report fields of unrecognized shape instead of skipping them"
  | cratePath => "Path of the runtime crate in the generated code"
  | verbose => "Enable debug logging"
  | help => "Print help"

def ofLong? (name : String) : Option Switch := all.find? (·.longName = name)

def ofLetter? (c : Char) : Option Switch := all.find? (·.letter? = some c)

/-- An option as a message shows it. -/
def shown (s : Switch) : String :=
  "--" ++ s.longName
    ++ match s.valueName? with
       | none => ""
       | some v => " <" ++ v ++ ">"

end Switch

/-! ### Faults -/

/-- Why arguments cannot be followed. -/
inductive UsageError
  | unexpected (argument : String)
  | missingValue (option : Switch)
  | unwantedValue (option : Switch) (value : String)
  | repeated (option : Switch)
  /-- There is no name where a file is named. -/
  | unnamedFile (place : String)
  | missingInput
  deriving DecidableEq, Repr, Inhabited

namespace UsageError

def message : UsageError → String
  | unexpected argument => "unexpected argument '" ++ argument ++ "' found"
  | missingValue option => "a value is required for '" ++ option.shown ++ "' but none was supplied"
  | unwantedValue option value =>
    "unexpected value '" ++ value ++ "' for '" ++ option.shown ++ "' found; no more were expected"
  | repeated option => "the argument '" ++ option.shown ++ "' cannot be used multiple times"
  | unnamedFile place => "a value is required for '" ++ place ++ "' but none was supplied"
  | missingInput => "the following required arguments were not provided:\n  <INPUT>"

end UsageError

/-! ### Reading -/

/-- How an argument is written. -/
inductive ArgumentForm
  /-- The end of the options. -/
  | separator
  | long (name : String) (value : Option String)
  | short (letters : List Char)
  | plain (s : String)
  deriving DecidableEq, Repr

namespace ArgumentForm

def ofArgument (s : String) : ArgumentForm :=
  match s.toList with
  | ['-', '-'] => separator
  | '-' :: '-' :: rest =>
    let name := rest.takeWhile (· ≠ '=')
    match rest.dropWhile (· ≠ '=') with
    | [] => long (String.ofList name) none
    | _ :: value => long (String.ofList name) (some (String.ofList value))
  | '-' :: c :: rest => short (c :: rest)
  | _ => plain s

end ArgumentForm

/-- What the arguments so far ask for. -/
structure Draft where
  input : Option String
  output : Option String
  types : List String
  strict : Bool
  runtime : Option String
  verbose : Bool
  deriving Inhabited

namespace Draft

def empty : Draft := ⟨none, none, [], false, none, false⟩

/-- Give an option its value. -/
def assign (d : Draft) (s : Switch) (value : String) : Except UsageError Draft :=
  match s with
  | .output =>
    if value.isEmpty then .error (.unnamedFile s.shown)
    else if d.output.isSome then .error (.repeated s)
    else .ok { d with output := some value }
  | .type => .ok { d with types := d.types ++ [value] }
  | .cratePath =>
    if d.runtime.isSome then .error (.repeated s) else .ok { d with runtime := some value }
  | _ => .error (.unwantedValue s value)

/-- Turn on an option without a value. -/
def turnOn (d : Draft) (s : Switch) : Except UsageError Draft :=
  match s with
  | .strict => if d.strict then .error (.repeated s) else .ok { d with strict := true }
  | .verbose => if d.verbose then .error (.repeated s) else .ok { d with verbose := true }
  | _ => .error (.missingValue s)

/-- Name the file to read. -/
def read (d : Draft) (name : String) : Except UsageError Draft :=
  if name.isEmpty then .error (.unnamedFile "<INPUT>")
  else if d.input.isSome then .error (.unexpected name)
  else .ok { d with input := some name }

/-- What all the arguments ask for. -/
def finished (d : Draft) : Except UsageError CommandLine :=
  match d.input with
  | none => .error .missingInput
  | some input => .ok (.run ⟨input, d.output, ⟨d.types, d.strict, d.runtime⟩, d.verbose⟩)

/-- What reading letters leads to. -/
inductive Step
  | next (d : Draft)
  /-- An option waits for its value. -/
  | waiting (d : Draft) (s : Switch)
  | help

/-- Read the letters of an argument: an option with a value takes the rest. -/
def letters (d : Draft) : List Char → Except UsageError Step
  | [] => .ok (.next d)
  | c :: rest =>
    match Switch.ofLetter? c with
    | none => .error (.unexpected (String.ofList ['-', c]))
    | some .help => .ok .help
    | some s =>
      if s.takesValue then
        match rest with
        | [] => .ok (.waiting d s)
        | '=' :: value => Step.next <$> d.assign s (String.ofList value)
        | value => Step.next <$> d.assign s (String.ofList value)
      else
        match d.turnOn s with
        | .error e => .error e
        | .ok d => d.letters rest

/-- Read the long form of an option. -/
def long (d : Draft) (name : String) (value : Option String) : Except UsageError Step :=
  match Switch.ofLong? name, value with
  | none, _ => .error (.unexpected ("--" ++ name))
  | some .help, none => .ok .help
  | some s, none => if s.takesValue then .ok (.waiting d s) else Step.next <$> d.turnOn s
  | some s, some value => Step.next <$> d.assign s value

end Draft

namespace CommandLine

/-- Read arguments that are all files. -/
def ofFiles (d : Draft) : List String → Except UsageError CommandLine
  | [] => d.finished
  | name :: rest =>
    match d.read name with
    | .error e => .error e
    | .ok d => ofFiles d rest

/-- Read arguments behind those of a draft, the first of which may be the value
of an option. -/
def ofRest (d : Draft) (waiting : Option Switch) : List String → Except UsageError CommandLine
  | [] =>
    match waiting with
    | some s => .error (.missingValue s)
    | none => d.finished
  | argument :: rest =>
    let step : Except UsageError (Option Draft.Step) :=
      match ArgumentForm.ofArgument argument, waiting with
      | .plain value, some s => (some ∘ Draft.Step.next) <$> d.assign s value
      | .plain name, none => (some ∘ Draft.Step.next) <$> d.read name
      | _, some s => .error (.missingValue s)
      | .separator, none => .ok none
      | .long name value, none => some <$> d.long name value
      | .short cs, none => some <$> d.letters cs
    match step with
    | .error e => .error e
    | .ok none => ofFiles d rest
    | .ok (some .help) => .ok .help
    | .ok (some (.next d)) => ofRest d none rest
    | .ok (some (.waiting d s)) => ofRest d (some s) rest

/-- What the arguments of the command line ask for. -/
def ofArguments (arguments : List String) : Except UsageError CommandLine :=
  ofRest .empty none arguments

end CommandLine

end RecordCoding
