-- SUMMARY: What the members of a union mean, and adding null to a schema.
import Restorable.Schema.Basic

/-!
# Unions and null

A union of one member means that member, a union of `null` and one other member means
that member with null admitted, and any other union has no such meaning. Null is
always added in front, so that a field can have the default `null`.
-/
namespace Restorable

/-- What the members of a union mean. -/
inductive UnionShape
  | single (inner : Schema)
  | nullable (inner : Schema)
  | mixed (nullable : Bool)

/-- Why a union has no meaning at all. -/
inductive UnionFault
  | noMembers
  | onlyNulls
  deriving DecidableEq, Repr

namespace Schema

/-- Classify the members of a union. A mixed one is nullable when null is a member. -/
def unionShape : List Schema → Except UnionFault UnionShape
  | [] => .error .noMembers
  | [only] => .ok (.single only)
  | [a, b] =>
    match a.isNull, b.isNull with
    | true, true => .error .onlyNulls
    | true, false => .ok (.nullable b)
    | false, true => .ok (.nullable a)
    | false, false => .ok (.mixed false)
  | members => .ok (.mixed (members.any isNull))

/-- Whether the schema accepts null: it is null, or a union with null as a member. -/
def admitsNull : Schema → Bool
  | .null => true
  | .union members => members.any isNull
  | _ => false

/-- Let a schema accept null where `nullable` is set. -/
def wrapNull (s : Schema) (nullable : Bool) : Schema :=
  if !nullable || s.admitsNull then s else .union [.null, s]

/-- The type words of the members of a union. -/
def unionSummary (members : List Schema) : String :=
  "union<" ++ ",".intercalate (members.map typeName) ++ ">"

end Schema
end Restorable
