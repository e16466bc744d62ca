-- SUMMARY: Verdicts on stored state: readable as is, after migration, or not, and where not.
import Restorable.Encoder.Basic

/-!
# Verdicts

State can be read as it is, or after it is written again with a migrated encoder, or
not at all. Verdicts combine to the worse of two, and the earlier of two equally bad
ones stays.
-/
namespace Restorable

/-- Why an envelope cannot be read, and where it fails. -/
structure Incompatibility where
  path : NestedPath
  reason : Reason

/-- The outcome of comparing an envelope with the current encoder. -/
inductive Verdict (κ : Type)
  | asIs
  | migrate (encoder : Encoder κ)
  | incompatible (why : Incompatibility)

namespace Verdict

variable {κ : Type}

/-- The order of badness. -/
def rank : Verdict κ → Nat
  | .asIs => 0
  | .migrate _ => 1
  | .incompatible _ => 2

/-- The worse of two verdicts, the first of equals. -/
def combine (v w : Verdict κ) : Verdict κ := if v.rank < w.rank then w else v

def isAsIs : Verdict κ → Bool
  | .asIs => true
  | _ => false

def isMigrate : Verdict κ → Bool
  | .migrate _ => true
  | _ => false

def isIncompatible : Verdict κ → Bool
  | .incompatible _ => true
  | _ => false

/-- The migrated encoder if there is one, or the incompatibility as a failure. -/
def result : Verdict κ → Except Failure (Option (Encoder κ))
  | .asIs => .ok none
  | .migrate e => .ok (some e)
  | .incompatible ⟨path, reason⟩ => .error (.incompatible path reason)

/-- Where a migration is refused, it counts as incompatible. -/
def strict : Verdict κ → Verdict κ
  | .migrate _ => .incompatible ⟨[], .migrationRefused⟩
  | v => v

def text [CustomKind κ] : Verdict κ → String
  | .asIs => "compatible as is"
  | .migrate e => "compatible after migration to " ++ e.id
  | .incompatible why => "incompatible at " ++ why.path.text ++ ": " ++ why.reason.message

end Verdict
end Restorable
