-- SUMMARY: A custom kind of encoder that states by a table which previous kinds it accepts.
import Restorable.Encoder.Basic

/-!
# Kinds given by a table

The table lists previous ids with what becomes of their state; an id that is not
listed is refused. The kind is rebuilt around any nested encoders, unless it states
why it cannot be.
-/
namespace Restorable

/-- What becomes of state that a previous kind wrote. -/
inductive Acceptance
  | asIs
  | migrate
  | refused (reason : String)
  deriving DecidableEq, Repr

/-- A custom kind of encoder by its table. -/
structure TableKind where
  id : String
  version : UInt32
  config : Config
  accepts : List (String × Acceptance)
  refusal : Option String

namespace TableKind

def resolve (k : TableKind) (previous : Envelope) : ConfigVerdict :=
  match k.accepts.lookup previous.id with
  | some .asIs => .asIs
  | some .migrate => .migrate
  | some (.refused reason) => .incompatible (.stated reason)
  | none => .incompatible (.stated (k.id ++ " cannot read " ++ previous.id))

def rebuild (k : TableKind) (nested : List (Encoder TableKind)) :
    Except Failure (Encoder TableKind) :=
  match k.refusal with
  | some reason => .error (.invalidType (.refused reason))
  | none => .ok (.custom k nested)

instance : CustomKind TableKind where
  id := TableKind.id
  version := TableKind.version
  readable k id := if id = k.id then some k.version else none
  config := TableKind.config
  resolve := resolve
  rebuild := rebuild

end TableKind
end Restorable
