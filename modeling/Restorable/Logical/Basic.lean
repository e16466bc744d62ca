-- SUMMARY: Logical types: scalar kinds and collections with a nullability flag, and their rules.

/-!
# Logical types

A logical type says what values look like and whether they may be absent. Decimals
have between 1 and 38 digits with no more of them behind the point, the fields of a
row have different names, and null is nullable; types built by hand may break these
rules, and `LogicalType.check` finds the first place where they do.
-/
namespace Restorable

/-! ## Scalar kinds -/

/-- The width of an exact integer. -/
inductive IntWidth
  | tiny
  | small
  | int
  | big
  deriving DecidableEq, Repr

def IntWidth.bits : IntWidth → Nat
  | .tiny => 8
  | .small => 16
  | .int => 32
  | .big => 64

/-- A kind of value without parts. -/
inductive Scalar
  | null
  | boolean
  | integer (width : IntWidth)
  | float
  | double
  | string
  | binary (length : Option UInt64)
  | decimal (precision scale : UInt32)
  | date
  | time (precision : UInt32)
  | timestamp (precision : UInt32) (zoned : Bool)
  | raw (typeName : String)
  deriving DecidableEq, Repr

/-! ## Types -/

/-- A named field of a row, around its type. -/
structure RowField (τ : Type) where
  name : String
  type : τ

/-- A logical type; `nullable` says whether values may be absent. -/
inductive LogicalType
  | scalar (nullable : Bool) (kind : Scalar)
  | array (nullable : Bool) (element : LogicalType)
  | map (nullable : Bool) (key value : LogicalType)
  | multiset (nullable : Bool) (element : LogicalType)
  | row (nullable : Bool) (fields : List (RowField LogicalType))

namespace LogicalType

instance : Inhabited LogicalType := ⟨.scalar true .null⟩

def isNullable : LogicalType → Bool
  | .scalar n _ | .array n _ | .map n _ _ | .multiset n _ | .row n _ => n

/-- The same type with the flag as given, whatever the type is. -/
def setNullable (nullable : Bool) : LogicalType → LogicalType
  | .scalar _ k => .scalar nullable k
  | .array _ e => .array nullable e
  | .map _ k v => .map nullable k v
  | .multiset _ e => .multiset nullable e
  | .row _ fs => .row nullable fs

def isNull : LogicalType → Bool
  | .scalar _ .null => true
  | _ => false

/-- The same type, nullable as given; null stays nullable. -/
def withNullability (t : LogicalType) (nullable : Bool) : LogicalType :=
  t.setNullable (nullable || t.isNull)

/-- The same type with absent values admitted. -/
def nullable (t : LogicalType) : LogicalType := t.withNullability true

/-- The same type without absent values. -/
def notNull (t : LogicalType) : LogicalType := t.withNullability false

def isString : LogicalType → Bool
  | .scalar _ .string => true
  | _ => false

/-! ## Equality -/

mutual

def beq : LogicalType → LogicalType → Bool
  | .scalar m j, .scalar n k => m = n && j = k
  | .array m s, .array n t | .multiset m s, .multiset n t => m = n && beq s t
  | .map m j v, .map n k w => m = n && beq j k && beq v w
  | .row m fs, .row n gs => m = n && beqFields fs gs
  | _, _ => false

def beqFields : List (RowField LogicalType) → List (RowField LogicalType) → Bool
  | [], [] => true
  | ⟨n, s⟩ :: fs, ⟨m, t⟩ :: gs => n = m && beq s t && beqFields fs gs
  | _, _ => false

end

mutual

theorem eq_of_beq : (s t : LogicalType) → beq s t = true → s = t
  | .scalar _ _, t, h => by cases t <;> simp_all [beq]
  | .array _ s, t, h => by
    cases t <;> simp only [beq, Bool.and_eq_true, decide_eq_true_eq, Bool.false_eq_true] at h
    rw [h.1, eq_of_beq s _ h.2]
  | .map _ j v, t, h => by
    cases t <;> simp only [beq, Bool.and_eq_true, decide_eq_true_eq, Bool.false_eq_true] at h
    rw [h.1.1, eq_of_beq j _ h.1.2, eq_of_beq v _ h.2]
  | .multiset _ s, t, h => by
    cases t <;> simp only [beq, Bool.and_eq_true, decide_eq_true_eq, Bool.false_eq_true] at h
    rw [h.1, eq_of_beq s _ h.2]
  | .row _ fs, t, h => by
    cases t <;> simp only [beq, Bool.and_eq_true, decide_eq_true_eq, Bool.false_eq_true] at h
    rw [h.1, eq_of_beqFields fs _ h.2]

theorem eq_of_beqFields : (fs gs : List (RowField LogicalType)) → beqFields fs gs = true → fs = gs
  | [], gs, h => by cases gs <;> simp_all [beqFields]
  | ⟨_, s⟩ :: fs, gs, h => by
    cases gs <;> simp only [beqFields, Bool.and_eq_true, decide_eq_true_eq, Bool.false_eq_true] at h
    rw [h.1.1, eq_of_beq s _ h.1.2, eq_of_beqFields fs _ h.2]

end

mutual

@[simp] theorem beq_refl : (t : LogicalType) → beq t t = true
  | .scalar _ _ => by simp [beq]
  | .array _ s | .multiset _ s => by simp [beq, beq_refl s]
  | .map _ k v => by simp [beq, beq_refl k, beq_refl v]
  | .row _ fs => by simp [beq, beqFields_refl fs]

@[simp] theorem beqFields_refl : (fs : List (RowField LogicalType)) → beqFields fs fs = true
  | [] => rfl
  | ⟨_, s⟩ :: fs => by simp [beqFields, beq_refl s, beqFields_refl fs]

end

instance : DecidableEq LogicalType := fun s t =>
  if h : beq s t = true then isTrue (eq_of_beq s t h)
  else isFalse fun heq => h (heq ▸ beq_refl s)

end LogicalType

/-! ## Rules -/

/-- The greatest number of digits of a decimal. -/
def maxDecimalPrecision : UInt32 := 38

/-- Why a type, or an encoder put together from parts, is not valid. -/
inductive TypeFault
  | decimalPrecision (precision : UInt32)
  | decimalScale (scale precision : UInt32)
  | duplicateField (name : String)
  | nestedCount (encoder : String) (expected found : Nat)
  | refused (reason : String)
  deriving DecidableEq, Repr

def TypeFault.message : TypeFault → String
  | .decimalPrecision precision =>
    s!"decimal precision must be between 1 and {maxDecimalPrecision}, got {precision}"
  | .decimalScale scale precision => s!"decimal scale {scale} exceeds precision {precision}"
  | .duplicateField name => s!"duplicate row field name '{name}'"
  | .nestedCount encoder expected found =>
    s!"{encoder} encoder takes {expected} nested encoders, got {found}"
  | .refused reason => reason

/-- Precision between 1 and 38, and a scale no greater. -/
def checkDecimal (precision scale : UInt32) : Except TypeFault Unit :=
  if precision = 0 ∨ maxDecimalPrecision < precision then .error (.decimalPrecision precision)
  else if precision < scale then .error (.decimalScale scale precision)
  else .ok ()

/-- The first name that stands also before its place. -/
def firstRepeat (seen : List String) : List String → Option String
  | [] => none
  | n :: ns => if n ∈ seen then some n else firstRepeat (n :: seen) ns

/-- Different names for all fields. -/
def checkFields {τ : Type} (fields : List (RowField τ)) : Except TypeFault Unit :=
  match firstRepeat [] (fields.map RowField.name) with
  | some name => .error (.duplicateField name)
  | none => .ok ()

namespace LogicalType

/-! ## Constructors that keep the rules -/

/-- A kind without absent values, except that null is nullable. -/
def ofScalar (k : Scalar) : LogicalType := (LogicalType.scalar false k).notNull

def null : LogicalType := ofScalar .null

def boolean : LogicalType := ofScalar .boolean

def integer (width : IntWidth) : LogicalType := ofScalar (.integer width)

def int : LogicalType := integer .int

def bigint : LogicalType := integer .big

def float : LogicalType := ofScalar .float

def double : LogicalType := ofScalar .double

def string : LogicalType := ofScalar .string

/-- Byte strings of any length. -/
def bytes : LogicalType := ofScalar (.binary none)

/-- Byte strings of one length. -/
def binary (length : UInt64) : LogicalType := ofScalar (.binary (some length))

/-- A decimal with a valid precision and scale. -/
def decimal? (precision scale : UInt32) : Except TypeFault LogicalType := do
  checkDecimal precision scale
  return ofScalar (.decimal precision scale)

def date : LogicalType := ofScalar .date

def time (precision : UInt32) : LogicalType := ofScalar (.time precision)

/-- A local date and time. -/
def timestamp (precision : UInt32) : LogicalType := ofScalar (.timestamp precision false)

/-- A point on the time line. -/
def zonedTimestamp (precision : UInt32) : LogicalType := ofScalar (.timestamp precision true)

def arrayOf (element : LogicalType) : LogicalType := .array false element

def mapOf (key value : LogicalType) : LogicalType := .map false key value

def multisetOf (element : LogicalType) : LogicalType := .multiset false element

/-- A row whose fields have different names. -/
def row? (fields : List (RowField LogicalType)) : Except TypeFault LogicalType := do
  checkFields fields
  return .row false fields

/-- A shape without a faithful type, known by a name only. -/
def raw (typeName : String) : LogicalType := ofScalar (.raw typeName)

/-- The type with its flag as a new type of its kind has it. -/
def fresh (t : LogicalType) : LogicalType := t.setNullable t.isNull

end LogicalType
end Restorable
