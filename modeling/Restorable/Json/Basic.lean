-- SUMMARY: JSON values, their equality and their accessors.
import Restorable.Binary64.Basic

/-!
# JSON values

An object is the list of its entries in document order, so that a typed reader can
report the first fault of a text.
-/
namespace Restorable

/-! ## Numbers -/

/-- An integer between -2^63 and 2^64 - 1, the range that JSON integers have here. -/
structure Integer where
  val : Int
  lower : -9223372036854775808 ≤ val
  upper : val < 18446744073709551616
  deriving DecidableEq, Repr

namespace Integer

def ofInt? (n : Int) : Option Integer :=
  if h : -9223372036854775808 ≤ n ∧ n < 18446744073709551616 then some ⟨n, h.1, h.2⟩ else none

def ofUInt64 (n : UInt64) : Integer :=
  ⟨n.toNat, by omega, by have := n.toNat_lt; omega⟩

def ofUInt32 (n : UInt32) : Integer :=
  ⟨n.toNat, by omega, by have := n.toNat_lt; omega⟩

/-- The value as an unsigned 64-bit integer, when it is not negative. -/
def toUInt64? (n : Integer) : Option UInt64 :=
  if 0 ≤ n.val then some (UInt64.ofNat n.val.toNat) else none

@[simp] theorem toUInt64?_ofUInt64 (n : UInt64) : (ofUInt64 n).toUInt64? = some n := by
  simp [ofUInt64, toUInt64?]

end Integer

/-- A JSON number: an integer, or a finite float. -/
inductive Number
  | int (n : Integer)
  | float (x : Binary64)
  deriving DecidableEq, Repr

/-- Numbers are equal when both are integers or both are floats, of one value. -/
def Number.same : Number → Number → Bool
  | .int m, .int n => m = n
  | .float x, .float y => x.same y
  | _, _ => false

@[simp] theorem Number.same_refl (n : Number) : n.same n = true := by
  cases n with
  | int n => simp [same]
  | float x => exact x.same_refl

/-! ## Values -/

/-- A JSON value, with the entries of objects in document order. -/
inductive Json
  | null
  | bool (b : Bool)
  | num (n : Number)
  | str (s : String)
  | arr (items : List Json)
  | obj (entries : List (String × Json))

namespace Json

instance : Inhabited Json := ⟨.null⟩

def ofUInt64 (n : UInt64) : Json := .num (.int (.ofUInt64 n))

def ofUInt32 (n : UInt32) : Json := .num (.int (.ofUInt32 n))

def ofStrings (ss : List String) : Json := .arr (ss.map .str)

mutual

/-- Equality of values, entry by entry; numbers compare by `Number.same`. -/
def same : Json → Json → Bool
  | .null, .null => true
  | .bool a, .bool b => a = b
  | .num m, .num n => m.same n
  | .str s, .str t => s = t
  | .arr xs, .arr ys => sameItems xs ys
  | .obj es, .obj fs => sameEntries es fs
  | _, _ => false

def sameItems : List Json → List Json → Bool
  | [], [] => true
  | x :: xs, y :: ys => x.same y && sameItems xs ys
  | _, _ => false

def sameEntries : List (String × Json) → List (String × Json) → Bool
  | [], [] => true
  | (k, x) :: es, (l, y) :: fs => k = l && x.same y && sameEntries es fs
  | _, _ => false

end

mutual

@[simp] theorem same_refl : (v : Json) → v.same v = true
  | .null => rfl
  | .bool _ => by simp [same]
  | .num n => by simp [same]
  | .str _ => by simp [same]
  | .arr xs => by simp [same, sameItems_refl xs]
  | .obj es => by simp [same, sameEntries_refl es]

@[simp] theorem sameItems_refl : (xs : List Json) → sameItems xs xs = true
  | [] => rfl
  | x :: xs => by simp [sameItems, x.same_refl, sameItems_refl xs]

@[simp] theorem sameEntries_refl : (es : List (String × Json)) → sameEntries es es = true
  | [] => rfl
  | (_, x) :: es => by simp [sameEntries, x.same_refl, sameEntries_refl es]

end

/-! ## Accessors -/

/-- The value of the first entry with this key. -/
def find? (key : String) : List (String × Json) → Option Json
  | [] => none
  | (k, v) :: es => if k = key then some v else find? key es

/-- The value of a key of an object. -/
def get? (v : Json) (key : String) : Option Json :=
  match v with
  | .obj es => find? key es
  | _ => none

def bool? : Json → Option Bool
  | .bool b => some b
  | _ => none

def str? : Json → Option String
  | .str s => some s
  | _ => none

def arr? : Json → Option (List Json)
  | .arr xs => some xs
  | _ => none

def obj? : Json → Option (List (String × Json))
  | .obj es => some es
  | _ => none

/-- A non-negative integer below 2^64. -/
def uint64? : Json → Option UInt64
  | .num (.int n) => n.toUInt64?
  | _ => none

/-- A non-negative integer below 2^32. -/
def uint32? (v : Json) : Option UInt32 := do
  let n ← v.uint64?
  if n < 4294967296 then some n.toUInt32 else none

end Json
end Restorable
