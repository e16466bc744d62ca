-- SUMMARY: The settings of conversions and of stored snapshots, with their JSON form.
import Restorable.Logical.OfSchema
import Restorable.Snapshot.Persisted

/-!
# Settings

Settings come in two sections, one for conversions between schemas and logical types,
one for stored snapshots. Every setting has a default, so a document may leave out any
of them; it may also hold keys that are no settings.
-/
namespace Restorable

/-- How schemas and logical types are converted. -/
structure ConversionSettings where
  mapping : TimestampMapping
  /-- The name of the outermost type of a written schema. -/
  rootName : String
  /-- Whether documents are also read by the strict rules of the format. -/
  crossCheck : Bool
  deriving DecidableEq, Repr

def ConversionSettings.default : ConversionSettings := ⟨.legacy, "record", true⟩

/-- How snapshots are stored. -/
structure StorageSettings where
  verify : Bool
  format : OutputFormat
  deriving DecidableEq, Repr

def StorageSettings.default : StorageSettings := ⟨true, .pretty⟩

/-- All settings. -/
structure Settings where
  conversion : ConversionSettings
  storage : StorageSettings
  deriving DecidableEq, Repr

namespace Settings

def default : Settings := ⟨.default, .default⟩

end Settings

/-! ## Words -/

/-- Whether the legacy mapping is chosen. -/
def TimestampMapping.isLegacy : TimestampMapping → Bool
  | .legacy => true
  | .modern => false

def TimestampMapping.ofLegacy (legacy : Bool) : TimestampMapping :=
  if legacy then .legacy else .modern

def OutputFormat.word : OutputFormat → String
  | .pretty => "pretty"
  | .compact => "compact"

def OutputFormat.ofWord? : String → Option OutputFormat
  | "pretty" => some .pretty
  | "compact" => some .compact
  | _ => none

/-! ## Sections read from any source -/

/-- A way to look up the value of a setting by its key and its place in its section. -/
abbrev Lookup (σ : Type) := String → Nat → Option σ

/-- The value that a source has for a setting, or the default where it has none. -/
def Lookup.read {σ α : Type} (source : Lookup σ) (decode : σ → Option α) (key : String)
    (place : Nat) (default : α) : Option α :=
  match source key place with
  | some v => decode v
  | none => some default

/-- The conversion section, given how to decode its values. -/
def ConversionSettings.read {σ : Type} (source : Lookup σ) (bool : σ → Option Bool)
    (text : σ → Option String) : Option ConversionSettings := do
  let d := ConversionSettings.default
  let legacy ← source.read bool "legacy_timestamp_mapping" 0 d.mapping.isLegacy
  let rootName ← source.read text "root_record_name" 1 d.rootName
  let crossCheck ← source.read bool "validate_with_avro" 2 d.crossCheck
  return ⟨.ofLegacy legacy, rootName, crossCheck⟩

/-- The storage section, given how to decode its values. -/
def StorageSettings.read {σ : Type} (source : Lookup σ) (bool : σ → Option Bool)
    (format : σ → Option OutputFormat) : Option StorageSettings := do
  let d := StorageSettings.default
  let verify ← source.read bool "verify_checksums" 0 d.verify
  let format ← source.read format "output_format" 1 d.format
  return ⟨verify, format⟩

/-- All settings, given how to decode the sections. -/
def Settings.read {σ : Type} (source : Lookup σ) (conversion : σ → Option ConversionSettings)
    (storage : σ → Option StorageSettings) : Option Settings := do
  let conversion ← source.read conversion "bridge" 0 .default
  let storage ← source.read storage "snapshot" 1 .default
  return ⟨conversion, storage⟩

/-! ## The JSON form -/

/-- The values of an object by key, or of an array by position; an array has no more
items than there are settings. -/
def Json.lookup? (settings : Nat) : Json → Option (Lookup Json)
  | .obj es => some fun key _ => Json.find? key es
  | .arr xs => if xs.length ≤ settings then some fun _ place => xs[place]? else none
  | _ => none

/-- A word, which may also be the key of an object whose only value is null. -/
def OutputFormat.ofJson? : Json → Option OutputFormat
  | .str word => ofWord? word
  | .obj [(word, .null)] => ofWord? word
  | _ => none

def ConversionSettings.ofJson? (v : Json) : Option ConversionSettings := do
  read (← v.lookup? 3) Json.bool? Json.str?

def StorageSettings.ofJson? (v : Json) : Option StorageSettings := do
  read (← v.lookup? 2) Json.bool? OutputFormat.ofJson?

def Settings.ofJson? (v : Json) : Option Settings := do
  read (← v.lookup? 2) ConversionSettings.ofJson? StorageSettings.ofJson?

def ConversionSettings.toJson (s : ConversionSettings) : Json :=
  .obj [("legacy_timestamp_mapping", .bool s.mapping.isLegacy),
    ("root_record_name", .str s.rootName), ("validate_with_avro", .bool s.crossCheck)]

def StorageSettings.toJson (s : StorageSettings) : Json :=
  .obj [("verify_checksums", .bool s.verify), ("output_format", .str s.format.word)]

def Settings.toJson (s : Settings) : Json :=
  .obj [("bridge", s.conversion.toJson), ("snapshot", s.storage.toJson)]

end Restorable
