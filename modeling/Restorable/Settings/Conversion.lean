-- SUMMARY: Reading and writing schema documents under conversion settings.
import Restorable.Avro.Reader
import Restorable.Schema.OfLogical
import Restorable.Schema.Reader
import Restorable.Schema.Writer
import Restorable.Settings.Basic

/-!
# Conversions under settings

A document is read by the rules of this library first. Where the settings ask for it,
the strict rules of the format have to accept it as well, both for documents that are
read and for those that are written.
-/
namespace Restorable

/-- Whether the strict rules of the format accept a text. -/
def Avro.acceptsText (text : String) : Bool :=
  match Json.parse? text with
  | some v => accepts v
  | none => false

/-- A schema that the strict rules of the format accept once it is written. -/
def Schema.strict (s : Schema) : Except Failure Unit :=
  if Avro.accepts s.toJson then .ok () else .error .avro

namespace ConversionSettings

/-- Refuse a text that the strict rules refuse, where the settings ask for it. -/
def checkText (c : ConversionSettings) (text : String) : Except Failure Unit :=
  if c.crossCheck && !Avro.acceptsText text then .error .rejected else .ok ()

/-- The schema that a document describes. -/
def readSchema (c : ConversionSettings) (text : String) : Except Failure Schema :=
  match Schema.ofText? text with
  | .error fault => .error (.schema fault)
  | .ok s => do
    c.checkText text
    return s

/-- The logical type of a schema document. -/
def ingest (c : ConversionSettings) (text : String) : Except Failure LogicalType := do
  (← c.readSchema text).toLogical c.mapping

/-- The schema document of a logical type, under the root name of the settings. -/
def publish (c : ConversionSettings) (t : LogicalType) : Except Failure String := do
  let s ← t.toSchema c.mapping c.rootName
  c.checkText s.text
  return s.text

end ConversionSettings
end Restorable
