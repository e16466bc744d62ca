-- SUMMARY: The program: it fetches what a run can see, and prints and saves its report.
import Restorable.CommandLine.Report
import Std.Time.DateTime.Timestamp

/-!
# The program

Files are fetched before the run, as far as its arguments and the places of settings
name them. Everything else is decided by the report.
-/
namespace Restorable
namespace Program

/-- The paths that an invocation reads. -/
def inputs (i : Invocation) : List String :=
  match i.command with
  | .logical schema _ | .snapshot schema _ => [schema]
  | .publish path _ => [path]
  | .check stored schema _ => [stored, schema]

/-- What stands at a path, if anything does. -/
def fetch (path : String) : IO (List (String × Entry)) := do
  try
    return [(path, .file (← IO.FS.readBinFile path))]
  catch e =>
    match e with
    | .noFileOrDirectory .. => return []
    | _ => return [(path, .folder)]

/-- The variables of the environment. -/
def environment : IO (List (String × String)) := do
  try
    let bytes ← IO.FS.readBinFile "/proc/self/environ"
    let text := (String.fromUTF8? bytes).getD ""
    return (text.splitOn "\x00").filterMap fun line =>
      let cs := line.toList
      match cs.dropWhile (· ≠ '=') with
      | _ :: value => some (String.ofList (cs.takeWhile (· ≠ '=')), String.ofList value)
      | [] => none
  catch _ => return []

/-- What a run with these arguments can see. -/
def workspace (arguments : List String) : IO Workspace := do
  let environment ← environment
  let folder := Workspace.userFolder environment
  let own :=
    match Arguments.invocation arguments with
    | .ok i => (i.settings.toList.flatMap Settings.candidates) ++ inputs i
    | .error _ => []
  let places := Settings.localPlaces ++ folder.toList.map Settings.userPlace
  let entries ← (places.flatMap Settings.candidates ++ own).mapM fetch
  return ⟨entries.flatten, environment, folder⟩

def now : IO Instant := do
  let t := (← Std.Time.Timestamp.now).val
  return .ofSeconds t.second.val t.nano.val.toNat

/-- Save a file; whether this succeeded. -/
def save (path text : String) : IO Bool := do
  try
    IO.FS.writeFile path text
    return true
  catch _ => return false

def print (report : Report) : IO UInt32 := do
  for line in report.output do
    IO.println line
  for line in report.error.toList do
    IO.eprintln line
  return report.exit

end Program
end Restorable

open Restorable in
def main (arguments : List String) : IO UInt32 := do
  match outcome arguments (← Program.workspace arguments) (← Program.now) with
  | .done report => Program.print report
  | .save path text saved =>
    Program.print (if ← Program.save path text then saved else .unsaved)
