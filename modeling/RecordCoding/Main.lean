/-
The program: it reads its arguments and a file, and prints or writes what the
library makes of them.
-/
import RecordCoding.CommandLine.Outcome

namespace RecordCoding

/-- The number of an error of the system, which some calls give negated. -/
def errorNumber (code : UInt32) : UInt32 := if code.toNat < Nat.pow 2 31 then code else 0 - code

/-- Why the system refused to work on a file. -/
def refusal (e : IO.Error) : String :=
  let numbered (text : String) (code : UInt32) : String :=
    text ++ " (os error " ++ toString (errorNumber code) ++ ")"
  match e with
  | .noFileOrDirectory _ code _ => numbered "No such file or directory" code
  | .permissionDenied _ code _ => numbered "Permission denied" code
  | .inappropriateType _ code _ =>
    numbered (if errorNumber code = 20 then "Not a directory" else "Is a directory") code
  | e => e.toString

/-- Print what a run prints, and end as it ends. -/
def finish (o : Outcome) : IO UInt32 := do
  (← IO.getStderr).putStr o.stderr
  (← IO.getStdout).putStr o.stdout
  pure (UInt32.ofNat o.exitCode)

/-- Carry out a run: read its file, and write what it gives. -/
def carryOut (i : Invocation) : IO UInt32 := do
  let source ←
    try
      let s ← IO.FS.readFile i.input
      pure (Except.ok s)
    catch e => pure (Except.error (refusal e))
  if let .ok s := source then
    for event in i.log s do
      (← IO.getStderr).putStr event.line
  let o := i.outcome source
  match o.written with
  | none => finish o
  | some (path, content) =>
    try
      IO.FS.writeFile path content
      finish o
    catch e => finish (o.unwritten path (refusal e))

end RecordCoding

def main (arguments : List String) : IO UInt32 :=
  match RecordCoding.CommandLine.ofArguments arguments with
  | .error e => RecordCoding.finish (.ofUsageError e)
  | .ok .help => RecordCoding.finish ⟨RecordCoding.helpText, "", none, 0⟩
  | .ok (.run i) => RecordCoding.carryOut i
