-- SUMMARY: What an encoder can read, and what it says of an envelope's own configuration.
import Restorable.Encoder.Basic

/-!
# Reading stored configurations

An encoder reads envelopes of its own kind and of the kinds that it widens. On its own
kind it compares configurations: precisions may grow, everything else has to stay, and
a missing key is an incompatibility and never a default. Versions before the second
had no scale, which was zero, and no zone flag, which was off.
-/
namespace Restorable

namespace ConfigVerdict

/-- Precision may stay or grow. -/
def ofPrecision (kind : String) (old new : UInt32) : ConfigVerdict :=
  if old = new then .asIs
  else if old < new then .migrate
  else .incompatible (.precisionNarrowed kind old new)

/-- The verdict on a stored value, which has to be there. -/
def ofKey {α : Type} (key : String) (stored : Option α) (verdict : α → ConfigVerdict) :
    ConfigVerdict :=
  match stored with
  | some x => verdict x
  | none => .incompatible (.missingKey key)

end ConfigVerdict

/-- A leaf against the version and the configuration of an envelope of its kind. -/
def Leaf.resolve (l : Leaf) (version : UInt32) (old : Config) : ConfigVerdict :=
  match l with
  | .decimal precision scale =>
    .ofKey "precision" (old.uint32? "precision") fun oldPrecision =>
      let oldScale := if version < 2 then some 0 else old.uint32? "scale"
      .ofKey "scale" oldScale fun oldScale =>
        if oldScale = scale then .ofPrecision "decimal" oldPrecision precision
        else .incompatible (.scaleChanged oldScale scale)
  | .time precision =>
    .ofKey "precision" (old.uint32? "precision") fun oldPrecision =>
      .ofPrecision "time" oldPrecision precision
  | .timestamp precision zoned =>
    let oldZoned := if version < 2 then some false else old.bool? "zoned"
    .ofKey "zoned" oldZoned fun oldZoned =>
      if oldZoned = zoned then
        .ofKey "precision" (old.uint32? "precision") fun oldPrecision =>
          .ofPrecision "timestamp" oldPrecision precision
      else .incompatible (.zoneChanged oldZoned zoned)
  | .bytes length =>
    let oldLength := (old.uint32? "length").map UInt32.toUInt64
    if oldLength = length then .asIs else .incompatible (.lengthChanged oldLength length)
  | .generic typeName =>
    let oldName := old.str? "type_name"
    if oldName = some typeName then .asIs else .incompatible (.genericChanged oldName typeName)
  | _ => .asIs

/-- The first place at which two lists of names differ, as far as both go. -/
def firstRename (index : Nat) : List String → List String → Option (Nat × String × String)
  | old :: olds, new :: news =>
    if old = new then firstRename (index + 1) olds news else some (index, old, new)
  | _, _ => none

/-- The names of a row against the configuration of an envelope of a row. -/
def resolveNames (names : List String) (old : Config) : ConfigVerdict :=
  .ofKey "field_names" (old.strings? "field_names") fun oldNames =>
    match firstRename 0 oldNames names with
    | some (index, old, new) => .incompatible (.fieldRenamed index old new)
    | none => .asIs

namespace Encoder

variable {κ : Type} [CustomKind κ]

/-- A built-in encoder against an envelope of its kind. -/
def resolveSameKind (e : Encoder κ) (previous : Envelope) : ConfigVerdict :=
  match e with
  | .leaf l => l.resolve previous.version previous.config
  | .row names _ => resolveNames names previous.config
  | _ => .asIs

/-- The newest version that can be read of the kind with an id; none for a kind that the
encoder knows nothing about. -/
def readable (e : Encoder κ) (id : String) : Option UInt32 :=
  match e, e.kind?, Kind.ofId? id with
  | .custom k _, _, _ => CustomKind.readable k id
  | _, some current, some previous =>
    if previous = current ∨ current.widens previous then some previous.version else none
  | _, _, _ => none

/-- What an encoder says of an envelope, nested envelopes apart. -/
def resolveConfig (e : Encoder κ) (previous : Envelope) : ConfigVerdict :=
  match e, e.kind? with
  | .custom k _, _ => CustomKind.resolve k previous
  | e, some current =>
    match Kind.ofId? previous.id with
    | some kind =>
      if kind = current then e.resolveSameKind previous
      else if current.widens kind then .migrate
      else .incompatible (.kindChanged previous.id current.id)
    | none => .incompatible (.kindChanged previous.id current.id)
  | e, none => .incompatible (.kindChanged previous.id e.id)

end Encoder
end Restorable
