-- SUMMARY: What each command prints and saves, as a function of the workspace.
import Restorable.CommandLine.Arguments
import Restorable.Encoder.Table
import Restorable.Restore.Resolve
import Restorable.Settings.Conversion
import Restorable.Settings.Load

/-!
# Reports

A run ends with a report: lines for both outputs and an exit code, which is 0 where all
went well, 2 for stored state that cannot be read and for refused arguments, and 1 for
every failure. A run that saves a file has two reports, one for each way this can end.
-/
namespace Restorable

/-- How a run ends. -/
structure Report where
  exit : UInt32
  output : List String
  error : Option String
  deriving DecidableEq, Repr

/-- A report, or a file to save first and the report for when it is saved. -/
inductive Outcome
  | done (report : Report)
  | save (path text : String) (saved : Report)

namespace Report

def success (output : List String) : Report := ⟨0, output, none⟩

/-- The report of a failure, with its text. -/
def failure (text : String) : Report := ⟨1, [], some ("Error: " ++ text)⟩

/-- The report where a file cannot be saved. -/
def unsaved : Report := failure Failure.io.message

def usage : List String :=
  ["Usage: schema-evolve [--config FILE] [--modern-timestamps] COMMAND",
    "  logical SCHEMA [--json]           print the logical type of a schema",
    "  export LOGICAL [--name NAME]      print the schema of a logical type",
    "  snapshot SCHEMA --output FILE     save the snapshot of the encoder for a schema",
    "  check SNAPSHOT SCHEMA [--strict]  compare a snapshot with the encoder for a schema"]

/-- The report of arguments that are no invocation. -/
def ofNoInvocation : NoInvocation → Report
  | .help => success usage
  | .refused => ⟨2, [], some ("\n".intercalate usage)⟩

end Report

/-! ## Paths and files -/

def Path.escaped (c : Char) : List Char :=
  if c = '"' then ['\\', '"']
  else if c = '\\' then ['\\', '\\']
  else if c = '\n' then ['\\', 'n']
  else if c = '\r' then ['\\', 'r']
  else if c = '\t' then ['\\', 't']
  else if c = '\x00' then ['\\', '0']
  else if c.toNat < 0x20 ∨ (0x7f ≤ c.toNat ∧ c.toNat < 0xa0) then
    ['\\', 'u', '\x7b'] ++ Nat.toDigits 16 c.toNat ++ ['\x7d']
  else [c]

/-- A path in quotes, as messages show it. -/
def Path.quoted (path : String) : String :=
  "\"" ++ String.ofList (path.toList.flatMap Path.escaped) ++ "\""

/-- The text of a file, or why there is none. -/
def Workspace.text (w : Workspace) (path : String) : Except String String :=
  match w.find? path with
  | none => .error ("file not found: " ++ Path.quoted path)
  | some .folder => .error ("reading " ++ Path.quoted path ++ ": Is a directory (os error 21)")
  | some (.file bytes) =>
    match String.fromUTF8? bytes with
    | some text => .ok text
    | none => .error ("reading " ++ Path.quoted path ++ ": stream did not contain valid UTF-8")

/-- A failure by its text. -/
def stated {α : Type} : Except Failure α → Except String α
  | .ok x => .ok x
  | .error f => .error f.message

/-- A failure by its text, behind what was being done. -/
def whileDoing {α : Type} (context : String) : Except Failure α → Except String α
  | .ok x => .ok x
  | .error f => .error (context ++ ": " ++ f.message)

/-! ## Commands -/

/-- The encoders of the command line hold no custom kinds but those given by tables. -/
abbrev StoredEncoder := Encoder TableKind

/-- The logical type of a schema file. -/
def ingestFile (w : Workspace) (c : ConversionSettings) (path : String) :
    Except String LogicalType := do
  stated (c.ingest (← w.text path))

/-- The logical type that a file describes. -/
def readLogical (w : Workspace) (path : String) : Except String LogicalType := do
  let text ← w.text path
  match LogicalType.ofText? text with
  | .ok t => .ok t
  | .error .malformed => .error ("parsing logical type " ++ Path.quoted path)
  | .error (.invalid fault) =>
    .error ("parsing logical type " ++ Path.quoted path ++ ": " ++
      (Failure.invalidType fault).message)

/-- The stored snapshot of a file. -/
def readStored (w : Workspace) (s : StorageSettings) (path : String) : Except String Persisted :=
  whileDoing ("reading snapshot " ++ Path.quoted path) <|
    match w.file? path with
    | some bytes => Persisted.ofBytes? bytes s.verify
    | none => .error .io

/-- The lines on a verdict. -/
def verdictReport (written : Instant) (v : Verdict TableKind) : Report :=
  let first := "🔍 Checking snapshot written " ++ written.display
  match v with
  | .asIs => .success [first, "✅ Compatible as is"]
  | .migrate e => .success [first, "⚠️  Compatible after migration", e.snapshot.toJson.pretty]
  | .incompatible why =>
    ⟨2, [first, "❌ Incompatible at " ++ why.path.text, "  " ++ why.reason.message], none⟩

/-- What a command does under some settings, at a time. -/
def Command.outcome (command : Command) (w : Workspace) (s : Settings) (now : Instant) :
    Except String Outcome := do
  match command with
  | .logical schema json =>
    let t ← ingestFile w s.conversion schema
    return .done (.success [if json then t.toJson.pretty else t.text])
  | .publish path name =>
    let t ← readLogical w path
    let schema ← stated (t.toSchema s.conversion.mapping (name.getD s.conversion.rootName))
    if s.conversion.crossCheck then stated schema.strict
    return .done (.success [schema.prettyText])
  | .snapshot path output =>
    let e : StoredEncoder := .ofLogical (← ingestFile w s.conversion path)
    let p := Persisted.ofEnvelope e.snapshot now
    return .save output (p.text s.storage.format)
      (.success ["✅ Wrote " ++ e.id ++ " snapshot to " ++ Path.quoted output,
        "  Checksum: " ++ p.checksum])
  | .check stored schema strict =>
    let p ← readStored w s.storage stored
    let e : StoredEncoder := .ofLogical (← ingestFile w s.conversion schema)
    return .done (verdictReport p.writtenAt (resolve strict p.envelope e))

namespace Invocation

/-- The settings of an invocation. -/
def loadSettings (i : Invocation) (w : Workspace) : Except String Settings := do
  let s ← whileDoing "loading configuration" (Settings.load w i.settings)
  if i.modern then return { s with conversion := { s.conversion with mapping := .modern } }
  else return s

/-- What an invocation does. -/
def outcome (i : Invocation) (w : Workspace) (now : Instant) : Outcome :=
  match (do i.command.outcome w (← i.loadSettings w) now) with
  | .ok outcome => outcome
  | .error text => .done (.failure text)

end Invocation

/-- What arguments do. -/
def outcome (arguments : List String) (w : Workspace) (now : Instant) : Outcome :=
  match Arguments.invocation arguments with
  | .ok i => i.outcome w now
  | .error why => .done (.ofNoInvocation why)

/-- The end of a run in a workspace, and the workspace behind it. -/
def Outcome.settle (o : Outcome) (w : Workspace) : Report × Workspace :=
  match o with
  | .done report => (report, w)
  | .save path text saved =>
    match w.write? path text.toUTF8 with
    | some w => (saved, w)
    | none => (.unsaved, w)

end Restorable
