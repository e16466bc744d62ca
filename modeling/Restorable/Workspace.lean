-- SUMMARY: What a program finds around it: files and folders, variables and a folder for settings.
import Restorable.Text

/-!
# Workspaces

A workspace is what a run can see: the contents of files by path, the variables of the
environment and the folder in which settings of the user stand. Paths are compared
without empty parts and parts that stay in place. A folder is there when it is listed
or something lies below it.
-/
namespace Restorable

/-- What stands at a path. -/
inductive Entry
  | file (bytes : ByteArray)
  | folder

/-- What a run can see. -/
structure Workspace where
  entries : List (String × Entry)
  environment : List (String × String)
  /-- The folder of the user in which programs keep their settings. -/
  settingsFolder : Option String

namespace Path

/-- Drop the parts that change nothing, and resolve those that go up. -/
def simplified (taken : List (List Char)) : List (List Char) → List (List Char)
  | [] => taken.reverse
  | p :: ps =>
    if p.isEmpty || p = ['.'] then simplified taken ps
    else if p = ['.', '.'] then simplified (taken.drop 1) ps
    else simplified (p :: taken) ps

/-- The parts by which paths are compared; a leading slash counts. -/
def normal (path : String) : List String :=
  let cs := path.toList
  let root := if cs.head? = some '/' then ["/"] else []
  root ++ (simplified [] (Text.pieces '/' cs)).map String.ofList

/-- A file in a folder. -/
def within (folder file : String) : String := folder ++ "/" ++ file

/-- The last part of a path. -/
def fileName (path : String) : String := (normal path).getLastD ""

/-- What follows the last dot of the last part, unless the dot is its first character. -/
def extension (path : String) : String :=
  let cs := (fileName path).toList
  match cs.reverse.dropWhile (· ≠ '.') with
  | _ :: _ :: _ => String.ofList (cs.reverse.takeWhile (· ≠ '.')).reverse
  | _ => ""

end Path

namespace Workspace

/-- The folder in which programs keep the settings of a user: the one that is named for
it, if its path is absolute, or else one in the home folder. -/
def userFolder (environment : List (String × String)) : Option String :=
  match (environment.lookup "XDG_CONFIG_HOME").filter fun path => path.toList.head? = some '/' with
  | some folder => some folder
  | none =>
    ((environment.lookup "HOME").filter (!·.isEmpty)).map fun home => Path.within home ".config"

/-- What stands at a path, if anything does. -/
def find? (w : Workspace) (path : String) : Option Entry :=
  let parts := Path.normal path
  match w.entries.find? fun (p, _) => Path.normal p = parts with
  | some (_, entry) => some entry
  | none =>
    if parts.isEmpty || w.entries.any fun (p, _) => parts.isPrefixOf (Path.normal p) then
      some .folder
    else none

/-- The bytes of a file. -/
def file? (w : Workspace) (path : String) : Option ByteArray :=
  match w.find? path with
  | some (.file bytes) => some bytes
  | _ => none

/-- Whether a file can be written: its folder is there, and it is no folder itself. -/
def canWrite (w : Workspace) (path : String) : Bool :=
  let inFolder := w.find? ("/".intercalate (Path.normal path).dropLast) matches some .folder
  inFolder && !(w.find? path matches some .folder)

/-- The workspace with a file written, unless it cannot be. -/
def write? (w : Workspace) (path : String) (bytes : ByteArray) : Option Workspace :=
  if w.canWrite path then
    let parts := Path.normal path
    let others := w.entries.filter fun (p, _) => Path.normal p ≠ parts
    some { w with entries := (path, .file bytes) :: others }
  else none

end Workspace
end Restorable
