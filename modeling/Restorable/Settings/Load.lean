-- SUMMARY: Settings from layered files and from the environment, and their text as a file.
import Restorable.Settings.Environment
import Restorable.Toml.Document
import Restorable.Workspace

/-!
# Loading and saving settings

Later layers win key by key: three files at fixed places, one in the folder of the
user, one that is named, and the environment. Only the named file has to be there, but
a file that is there has to be well formed.
-/
namespace Restorable

mutual

/-- A JSON value as a value of settings. An integer above 2^63 is a float. -/
def Json.toSetting : Json → Setting
  | .null => .null
  | .bool b => .bool b
  | .num (.int n) =>
    if n.val < 9223372036854775808 then .int n.val
    else
      match Binary64.ofNat? n.val.toNat with
      | some x => .float (.finite x)
      | none => .float (.infinite false)
  | .num (.float x) => .float (.finite x)
  | .str s => .str s
  | .arr xs => .list (Json.toSettingItems xs)
  | .obj es => .table (Json.toSettingEntries es)

def Json.toSettingItems : List Json → List Setting
  | [] => []
  | x :: xs => x.toSetting :: toSettingItems xs

def Json.toSettingEntries : List (String × Json) → List (String × Setting)
  | [] => []
  | (k, v) :: es => (k, v.toSetting) :: toSettingEntries es

end

namespace Settings

/-! ## Files -/

/-- The layouts of settings files, known by the extension of their paths. -/
inductive FileLayout
  | toml
  | json
  deriving DecidableEq, Repr

def FileLayout.extension : FileLayout → String
  | .toml => "toml"
  | .json => "json"

def FileLayout.ofPath? (path : String) : Option FileLayout :=
  [FileLayout.toml, .json].find? fun layout => layout.extension = Path.extension path

/-- The entries of a text in some layout. -/
def FileLayout.entries? (layout : FileLayout) (text : String) : Option (List (String × Setting)) :=
  match layout with
  | .toml => Toml.document? text
  | .json => do (← (← Json.parse? text).obj?).mapM fun (k, v) => some (k, v.toSetting)

/-- The paths at which a named file may stand: as it is named, or with an extension
appended. -/
def candidates (path : String) : List String :=
  path :: [FileLayout.toml, .json].map fun layout => path ++ "." ++ layout.extension

/-- The file that a path names. -/
def locate? (w : Workspace) (path : String) : Option (String × ByteArray) :=
  (candidates path).findSome? fun path => (w.file? path).map fun bytes => (path, bytes)

/-- Text without a byte order mark in front. -/
def withoutMark (text : String) : String :=
  match text.toList with
  | '\ufeff' :: cs => String.ofList cs
  | _ => text

/-- The entries of the file that a path names; none stands for a fault, and for a file
that has to be there and is not. -/
def fileEntries? (w : Workspace) (required : Bool) (path : String) :
    Option (List (String × Setting)) :=
  match locate? w path with
  | none => if required then none else some []
  | some (path, bytes) =>
    match FileLayout.ofPath? path with
    | none => if required then none else some []
    | some layout => do layout.entries? (withoutMark (← String.fromUTF8? bytes))

/-- Where settings files stand in the folder of a run. -/
def localPlaces : List String := ["evolution.toml", ".evolution.toml", "config/evolution.toml"]

/-- Where the settings file of the user stands. -/
def userPlace (folder : String) : String := Path.within folder "evolution/evolution.toml"

/-- The layers in a workspace, the first below the others. -/
def layers? (w : Workspace) (named : Option String) : Option (List (List (String × Setting))) := do
  let user := (w.settingsFolder.toList.map userPlace).filter fun path => (w.find? path).isSome
  let usual ← (localPlaces ++ user).mapM (fileEntries? w false)
  let own ← named.toList.mapM (fileEntries? w true)
  return usual ++ own ++ [Environment.settings w.environment]

/-- The settings in a workspace, with a file that may be named. -/
def load (w : Workspace) (named : Option String) : Except Failure Settings :=
  match layers? w named with
  | none => .error .settings
  | some layers =>
    match (layers.foldl Setting.layer (.table [])).settings? with
    | some s => .ok s
    | none => .error .settings

/-! ## Text -/

def boolText (b : Bool) : String := if b then "true" else "false"

/-- The settings as a file. -/
def fileText (s : Settings) : String :=
  "\n".intercalate
    ["[bridge]",
      "legacy_timestamp_mapping = " ++ boolText s.conversion.mapping.isLegacy,
      "root_record_name = " ++ Toml.quoted s.conversion.rootName,
      "validate_with_avro = " ++ boolText s.conversion.crossCheck,
      "",
      "[snapshot]",
      "verify_checksums = " ++ boolText s.storage.verify,
      "output_format = " ++ Toml.quoted s.storage.format.word,
      ""]

/-- Save the settings in a file of a workspace. -/
def save (s : Settings) (w : Workspace) (path : String) : Except Failure Workspace :=
  match w.write? path s.fileText.toUTF8 with
  | some w => .ok w
  | none => .error .io

end Settings
end Restorable
