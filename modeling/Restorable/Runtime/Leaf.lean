-- SUMMARY: Runtime representations without parts.

/-!
# Leaves

A leaf is how a value without parts is held at run time. Descriptors and encoders
share their leaves.
-/
namespace Restorable

/-- A runtime representation without parts. -/
inductive Leaf
  | void
  | boolean
  | byte
  | short
  | int
  | long
  | float
  | double
  | string
  | bytes (length : Option UInt64)
  | decimal (precision scale : UInt32)
  | date
  | time (precision : UInt32)
  | timestamp (precision : UInt32) (zoned : Bool)
  | generic (typeName : String)
  deriving DecidableEq, Repr

end Restorable
