-- SUMMARY: Envelopes with a layout version, a time and a checksum, as text and back.
import Restorable.Digest.Sha256
import Restorable.Failure
import Restorable.Json.Reader
import Restorable.Snapshot.Envelope
import Restorable.Time.Instant

/-!
# Persisted snapshots

A persisted snapshot is an envelope with the layout version, the time of writing and a
checksum of the envelope's compact text. The layout version is checked before anything
else is read. The checksum covers the envelope that was read and not its text, so
blanks, the order of keys and unknown fields do not matter.
-/
namespace Restorable

/-- The layout version that is written, and the newest that is read. -/
def layoutVersion : UInt32 := 1

/-- The checksum of an envelope. -/
def Envelope.checksum (e : Envelope) : String := Sha256.hex e.canonical.toUTF8

/-- Whether a checksum is that of an envelope. -/
def Envelope.verify (e : Envelope) (checksum : String) : Except Failure Unit :=
  if e.checksum = checksum then .ok () else .error (.checksumMismatch checksum e.checksum)

/-- An envelope as it is stored. -/
structure Persisted where
  layout : UInt32
  writtenAt : Instant
  checksum : String
  envelope : Envelope

/-- The layouts of written JSON. -/
inductive OutputFormat
  | pretty
  | compact
  deriving DecidableEq, Repr

namespace Persisted

/-- An envelope ready to be stored at a time. -/
def ofEnvelope (e : Envelope) (writtenAt : Instant) : Persisted :=
  ⟨layoutVersion, writtenAt, e.checksum, e⟩

/-! ## Writing -/

def toJson (p : Persisted) : Json :=
  .obj [("layout_version", .ofUInt32 p.layout), ("written_at", .str p.writtenAt.text),
    ("checksum", .str p.checksum), ("envelope", p.envelope.toJson)]

def text (p : Persisted) : OutputFormat → String
  | .pretty => p.toJson.pretty
  | .compact => p.toJson.compact

/-! ## Reading -/

/-- The layout version of a document, which has to be one that can be read. -/
def checkLayout (v : Json) : Except Failure Unit :=
  match (v.get? "layout_version").bind Json.uint64? with
  | none => .error .missingLayoutVersion
  | some found =>
    if found ≤ layoutVersion.toUInt64 then .ok ()
    else
      .error (.unsupportedLayout (if found < 4294967296 then found.toUInt32 else 4294967295)
        layoutVersion)

/-- The snapshot that a JSON object describes. -/
def ofJson? (v : Json) : Option Persisted := do
  let layout ← (← v.get? "layout_version").uint32?
  let writtenAt ← Instant.ofText? (← (← v.get? "written_at").str?)
  let checksum ← (← v.get? "checksum").str?
  let envelope ← Envelope.ofJson? (← v.get? "envelope")
  return ⟨layout, writtenAt, checksum, envelope⟩

/-- The snapshot that a text describes; its checksum is compared if `verify` is set. -/
def ofText? (text : String) (verify : Bool) : Except Failure Persisted :=
  match Json.parse? text with
  | none => .error (.json .malformed)
  | some v => do
    checkLayout v
    match ofJson? v with
    | none => .error (.json .malformed)
    | some p =>
      if verify then p.envelope.verify p.checksum
      return p

/-- The snapshot that stored bytes describe; they have to be UTF-8. -/
def ofBytes? (bytes : ByteArray) (verify : Bool) : Except Failure Persisted :=
  match String.fromUTF8? bytes with
  | none => .error (.json .malformed)
  | some text => ofText? text verify

end Persisted
end Restorable
