-- SUMMARY: Snapshot envelopes: one encoder's id, version and configuration, with nested envelopes.
import Restorable.Json.Writer
import Restorable.Snapshot.Config

/-!
# Envelopes

An envelope records what an encoder looked like when state was written. Ids are free
text, so a snapshot of an unknown kind can still be read and compared. An empty
configuration and an empty list of nested envelopes are not written.
-/
namespace Restorable

/-- The description of one encoder and of the encoders nested in it, in order. -/
inductive Envelope
  | mk (id : String) (version : UInt32) (config : Config) (nested : List Envelope)

namespace Envelope

instance : Inhabited Envelope := ⟨.mk "" 0 .empty []⟩

def id : Envelope → String
  | .mk id _ _ _ => id

/-- The format version of the kind of encoder. -/
def version : Envelope → UInt32
  | .mk _ version _ _ => version

def config : Envelope → Config
  | .mk _ _ config _ => config

def nested : Envelope → List Envelope
  | .mk _ _ _ nested => nested

mutual

/-- Equality of envelopes; configurations compare as JSON values. -/
def same : Envelope → Envelope → Bool
  | .mk i v c ns, .mk j w d ms => i = j && v = w && c.same d && sameAll ns ms

def sameAll : List Envelope → List Envelope → Bool
  | [], [] => true
  | e :: es, f :: fs => e.same f && sameAll es fs
  | _, _ => false

end

/-! ## Writing -/

def configAttr (c : Config) : List (String × Json) :=
  if c.isEmpty then [] else [("config", c.toJson)]

def nestedAttr (nested : List Json) : List (String × Json) :=
  if nested.isEmpty then [] else [("nested", .arr nested)]

mutual

def toJson : Envelope → Json
  | .mk id version config nested =>
    .obj (("encoder_id", .str id) :: ("format_version", .ofUInt32 version) ::
      configAttr config ++ nestedAttr (nestedToJson nested))

def nestedToJson : List Envelope → List Json
  | [] => []
  | e :: es => e.toJson :: nestedToJson es

end

/-- The compact text, which a checksum covers. -/
def canonical (e : Envelope) : String := e.toJson.compact

/-! ## Reading -/

/-- The configuration attribute, empty where it is absent. -/
def readConfig? : Option Json → Option Config
  | none => some .empty
  | some v => Config.ofJson? v

mutual

/-- The envelope that a value describes: an object by keys, or an array by position. -/
def ofJson? : Json → Option Envelope
  | .obj attrs => do
    let id ← (← Json.find? "encoder_id" attrs).str?
    let version ← (← Json.find? "format_version" attrs).uint32?
    let config ← readConfig? (Json.find? "config" attrs)
    return .mk id version config (← readNestedAttr? attrs)
  | .arr [.str id, version] => do return .mk id (← version.uint32?) .empty []
  | .arr [.str id, version, config] => do
    return .mk id (← version.uint32?) (← Config.ofJson? config) []
  | .arr [.str id, version, config, .arr nested] => do
    return .mk id (← version.uint32?) (← Config.ofJson? config) (← readNested? nested)
  | _ => none

/-- The nested envelopes, none where the attribute is absent. -/
def readNestedAttr? : List (String × Json) → Option (List Envelope)
  | [] => some []
  | (k, v) :: attrs =>
    if k = "nested" then
      match v with
      | .arr nested => readNested? nested
      | _ => none
    else readNestedAttr? attrs

def readNested? : List Json → Option (List Envelope)
  | [] => some []
  | v :: vs => do
    let e ← ofJson? v
    return e :: (← readNested? vs)

end

end Envelope
end Restorable
