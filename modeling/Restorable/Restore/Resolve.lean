-- SUMMARY: Comparing a stored envelope with the current encoder, node by node.
import Restorable.Encoder.Compatibility
import Restorable.Restore.Verdict

/-!
# Resolving envelopes

The envelope and the encoder are walked in step, depth first. Each node is checked by
version, by configuration and by the number of nested envelopes before its children
are visited; the first failing check gives the verdict, with the place of its node.
A node that needs migration, by itself or through a child, is put together again from
its children at the end.
-/
namespace Restorable

namespace Incompatibility

def atRoot (reason : Reason) : Incompatibility := ⟨[], reason⟩

/-- The same failure seen from one level up. -/
def under (index : Nat) (why : Incompatibility) : Incompatibility :=
  { why with path := index :: why.path }

end Incompatibility

variable {κ : Type} [CustomKind κ]

/-! ## One node -/

/-- The version has to be readable. Kinds that the encoder knows nothing about are left
to the comparison of configurations. -/
def checkVersion (previous : Envelope) (current : Encoder κ) : Except Reason Unit :=
  match current.readable previous.id with
  | some readable =>
    if readable < previous.version then
      .error (.futureVersion previous.version previous.id readable)
    else .ok ()
  | none => .ok ()

/-- Whether the own configuration needs migration. -/
def checkConfig (previous : Envelope) (current : Encoder κ) : Except Reason Bool :=
  match current.resolveConfig previous with
  | .asIs => .ok false
  | .migrate => .ok true
  | .incompatible reason => .error reason

/-- As many nested envelopes as nested encoders. -/
def checkNested (previous : Envelope) (current : Encoder κ) : Except Reason Unit :=
  if current.nested.length = previous.nested.length then .ok ()
  else .error (.nestedCount previous.nested.length current.id current.nested.length)

/-- The checks of one node before its children; whether it needs migration itself. -/
def checkNode (previous : Envelope) (current : Encoder κ) : Except Reason Bool := do
  checkVersion previous current
  let own ← checkConfig previous current
  checkNested previous current
  return own

/-- The verdict on a node whose checks passed, from its children as they are to be. -/
def assemble (current : Encoder κ) (migrates : Bool) (nested : List (Encoder κ)) : Verdict κ :=
  if migrates then
    match current.rebuild nested with
    | .ok e => .migrate e
    | .error failure => .incompatible (.atRoot (.cannotAssemble failure))
  else .asIs

/-! ## Trees -/

mutual

/-- The verdict on an envelope. -/
def Envelope.resolve (previous : Envelope) (current : Encoder κ) : Verdict κ :=
  match previous with
  | .mk id version config stored =>
    match checkNode (.mk id version config stored) current with
    | .error reason => .incompatible (.atRoot reason)
    | .ok own =>
      match resolveAll stored current.nested 0 with
      | .error why => .incompatible why
      | .ok (migrates, nested) => assemble current (own || migrates) nested

/-- Whether any of the nested envelopes needs migration, and the nested encoders as they
are to be; or the first incompatibility. -/
def resolveAll (stored : List Envelope) (current : List (Encoder κ)) (index : Nat) :
    Except Incompatibility (Bool × List (Encoder κ)) :=
  match stored, current with
  | s :: stored, c :: current =>
    match s.resolve c with
    | .incompatible why => .error (why.under index)
    | .migrate e =>
      match resolveAll stored current (index + 1) with
      | .error why => .error why
      | .ok (_, es) => .ok (true, e :: es)
    | .asIs =>
      match resolveAll stored current (index + 1) with
      | .error why => .error why
      | .ok (migrates, es) => .ok (migrates, c :: es)
  | _, _ => .ok (false, [])

end

/-- The verdict on an envelope; a strict one refuses migration. -/
def resolve (strict : Bool) (previous : Envelope) (current : Encoder κ) : Verdict κ :=
  if strict then (previous.resolve current).strict else previous.resolve current

end Restorable
