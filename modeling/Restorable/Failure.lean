-- SUMMARY: Every way an operation can fail, by cause, and the text of each.
import Restorable.Schema.Fault
import Restorable.Schema.Nullability
import Restorable.Logical.Json
import Restorable.Logical.Text

/-!
# Failures

A failure says what went wrong; `Failure.message` is the only place that words it. A
reason why stored state cannot be read may itself carry a failure, the one met while
the migrated encoder was put together.
-/
namespace Restorable

/-! ## Types without a counterpart -/

/-- Why a schema has no logical type, or a logical type no schema. -/
inductive Unsupported
  | recursiveReference (name : Name)
  | union (fault : UnionFault)
  | raw (type : LogicalType)
  | zoned (type : LogicalType)
  | keyNotString (collection key : LogicalType)

/-- The kind of type that has no counterpart. -/
def Unsupported.category : Unsupported → String
  | .recursiveReference _ => "RECORD"
  | .union _ => "UNION"
  | .raw t | .zoned t => t.category
  | .keyNotString collection _ => collection.category

def Unsupported.detail : Unsupported → String
  | .recursiveReference n => s!"recursive reference to {n.full} has no logical mapping"
  | .union .noMembers => "union without members"
  | .union .onlyNulls => "union of two null members has no logical mapping"
  | .raw t => s!"Unsupported to derive Schema for type: {t.text}"
  | .zoned t => s!"Unsupported to derive Schema for type: {t.text} in legacy timestamp mapping"
  | .keyNotString _ key =>
    "Avro format doesn't support non-string as key type of map. The key type is: " ++ key.text

/-- The types whose precision is limited. -/
inductive LimitedType
  | decimal
  | time
  | timestamp
  | zonedTimestamp
  | localTimestamp
  deriving DecidableEq, Repr

def LimitedType.word : LimitedType → String
  | .decimal => "DECIMAL"
  | .time => "TIME"
  | .timestamp => "TIMESTAMP"
  | .zonedTimestamp => "TIMESTAMP_LTZ"
  | .localTimestamp => "LOCAL TIMESTAMP"

/-! ## Places and reasons -/

/-- The place of an envelope, as indices of nested envelopes from the root. -/
abbrev NestedPath := List Nat

def NestedPath.text (path : NestedPath) : String :=
  match path with
  | [] => "own-config"
  | path => ".".intercalate (path.map fun i => s!"nested[{i}]")

/-- An optional length, with a word for its absence. -/
def lengthText : Option UInt64 → String
  | none => "None"
  | some n => s!"Some({n})"

mutual

/-- Why stored state cannot be read by an encoder. -/
inductive Reason
  | futureVersion (version : UInt32) (id : String) (readable : UInt32)
  | kindChanged (previous current : String)
  | missingKey (key : String)
  | scaleChanged (old new : UInt32)
  | precisionNarrowed (kind : String) (old new : UInt32)
  | zoneChanged (old new : Bool)
  | lengthChanged (old new : Option UInt64)
  | fieldRenamed (index : Nat) (old new : String)
  | genericChanged (old : Option String) (new : String)
  | nestedCount (stored : Nat) (encoder : String) (current : Nat)
  | cannotAssemble (failure : Failure)
  | migrationRefused
  | stated (text : String)

/-- Why an operation failed. -/
inductive Failure
  | schema (fault : SchemaFault)
  | rejected
  | missingLayoutVersion
  | unsupported (cause : Unsupported)
  | precisionRange (type : LimitedType) (requested greatest : UInt32)
  | incompatible (path : NestedPath) (reason : Reason)
  | invalidType (fault : TypeFault)
  | checksumMismatch (expected actual : String)
  | unsupportedLayout (found newest : UInt32)
  | io
  | json (fault : DecodeFault)
  | avro
  | settings

end

/-! ## Texts -/

mutual

def Reason.message : Reason → String
  | .futureVersion version id readable =>
    s!"future format version {version} of {id} (understands up to {readable})"
  | .kindChanged previous current => s!"encoder changed from {previous} to {current}"
  | .missingKey key => s!"snapshot config is missing '{key}'"
  | .scaleChanged old new => s!"decimal scale changed from {old} to {new}"
  | .precisionNarrowed kind old new => s!"{kind} precision narrowed from {old} to {new}"
  | .zoneChanged old new => s!"timestamp zone flag changed from {old} to {new}"
  | .lengthChanged old new =>
    s!"binary length changed from {lengthText old} to {lengthText new}"
  | .fieldRenamed index old new => s!"row field {index} renamed from '{old}' to '{new}'"
  | .genericChanged (some old) new => s!"generic type changed from {old} to {new}"
  | .genericChanged none new => "generic type changed from <unknown> to " ++ new
  | .nestedCount stored encoder current =>
    s!"nested arity mismatch: snapshot has {stored}, {encoder} encoder has {current}"
  | .cannotAssemble failure => "cannot assemble migrated encoder: " ++ failure.message
  | .migrationRefused => "migration required but resolver is strict"
  | .stated text => text

/-- The text of a failure. Words of other programs are left out. -/
def Failure.message : Failure → String
  | .schema fault => "Could not parse schema: " ++ fault.message
  | .rejected => "Could not parse schema: rejected by avro"
  | .missingLayoutVersion => "Could not parse schema: snapshot missing 'layout_version'"
  | .unsupported cause => s!"Unsupported type {cause.category}: {cause.detail}"
  | .precisionRange type requested greatest =>
    s!"Avro does not support {type.word} type with precision: {requested}, " ++
      s!"it only supports precision up to {greatest}"
  | .incompatible path reason => s!"Incompatible schema at {path.text}: " ++ reason.message
  | .invalidType fault => "Invalid logical type: " ++ fault.message
  | .checksumMismatch expected actual => s!"Checksum mismatch: expected {expected}, got {actual}"
  | .unsupportedLayout found newest =>
    s!"Unsupported snapshot layout version {found}, newest readable is {newest}"
  | .io => "IO error"
  | .json .malformed => "JSON error"
  | .json (.invalid fault) => "JSON error: Invalid logical type: " ++ fault.message
  | .avro => "Avro error"
  | .settings => "Configuration error"

end

end Restorable
