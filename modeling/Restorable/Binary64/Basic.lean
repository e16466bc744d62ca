-- SUMMARY: Finite binary64 values as bit fields, and rounding of exact quotients to them.

/-!
# Finite binary64 values

A value is its three bit fields, with the exponent of infinities and NaNs left
out. Magnitudes are natural multiples of 2^-1074, the least positive value, so
arithmetic is exact on natural numbers followed by one rounding to nearest, ties
to even.
-/
namespace Restorable

/-- The number of fractions, 2^52. -/
abbrev Binary64.fractions : Nat := 4503599627370496

/-- A finite binary64 value by its bit fields. -/
structure Binary64 where
  negative : Bool
  exponent : Fin 2047
  fraction : Fin Binary64.fractions
  deriving DecidableEq, Repr

namespace Binary64

/-! ## Magnitudes -/

def zero : Binary64 := ⟨false, 0, 0⟩

/-- The integer significand, with the leading bit of a normal value. -/
def significand (x : Binary64) : Nat :=
  if x.exponent.val = 0 then x.fraction.val else fractions + x.fraction.val

/-- The power of two that scales the significand, counted from 2^-1074. -/
def shift (x : Binary64) : Nat := x.exponent.val - 1

/-- The magnitude as a multiple of 2^-1074. -/
def units (x : Binary64) : Nat := x.significand * Nat.pow 2 x.shift

def isZero (x : Binary64) : Bool := x.exponent.val = 0 && x.fraction.val = 0

/-- Numeric equality: a value equals itself, and the two zeros are equal. -/
def same (x y : Binary64) : Bool := x = y || (x.isZero && y.isZero)

@[simp] theorem same_refl (x : Binary64) : x.same x = true := by simp [same]

/-! ## Rounding -/

/-- `num / den` rounded to the nearest natural number, a tie to the even one. -/
def roundHalfEven (num den : Nat) : Nat :=
  let floor := num / den
  let twice := 2 * (num % den)
  if twice < den then floor
  else if den < twice then floor + 1
  else if floor % 2 = 0 then floor else floor + 1

/-- The value at a position of the ascending list of magnitudes; `none` above the
greatest finite one. -/
def ofPosition? (negative : Bool) (position : Nat) : Option Binary64 :=
  if h : position / fractions < 2047 then
    some ⟨negative, ⟨position / fractions, h⟩,
      ⟨position % fractions, Nat.mod_lt _ (by decide)⟩⟩
  else
    none

/-- The value nearest to `num / den` units, ties to even; `none` when it is too
large. Rounding happens at the 53rd significant bit, or at a whole unit. -/
def ofUnits? (negative : Bool) (num den : Nat) : Option Binary64 :=
  let shift := (num / den).log2 + 1 - 53
  ofPosition? negative (shift * fractions + roundHalfEven num (den * Nat.pow 2 shift))

/-- The value nearest to a natural number. -/
def ofNat? (n : Nat) : Option Binary64 := ofUnits? false (n * Nat.pow 2 1074) 1

/-! ## Powers of ten -/

/-- The value nearest to `10 ^ k`; `k` is at most 308. -/
def powTen (k : Nat) : Binary64 := (ofNat? (Nat.pow 10 k)).getD zero

/-- The rounded product of two magnitudes, with the sign of the first. -/
def mul? (x y : Binary64) : Option Binary64 :=
  ofUnits? x.negative (x.units * y.units) (Nat.pow 2 1074)

/-- The rounded quotient of two magnitudes, with the sign of the first. -/
def div? (x y : Binary64) : Option Binary64 :=
  ofUnits? x.negative (x.units * Nat.pow 2 1074) y.units

/-- Divide by `10 ^ k`, 308 decimal places at a time; `fuel` bounds the steps. -/
def divPowTen? (fuel : Nat) (x : Binary64) (k : Nat) : Option Binary64 :=
  match fuel with
  | 0 => x.div? (powTen k)
  | fuel + 1 =>
    if k ≤ 308 then x.div? (powTen k)
    else if x.isZero then some x
    else do divPowTen? fuel (← x.div? (powTen 308)) (k - 308)

/-- The value of `significand * 10 ^ exponent` as read from decimal text: the
significand is rounded first, then the scaled value. `none` when it overflows. -/
def ofDecimal? (negative : Bool) (significand : Nat) (exponent : Int) : Option Binary64 := do
  let x ← ofNat? significand
  let scaled ←
    match exponent with
    | .ofNat k => if k ≤ 308 then x.mul? (powTen k) else if x.isZero then some x else none
    | .negSucc k => x.divPowTen? (k / 308 + 1) (k + 1)
  return { scaled with negative }

/-- The value nearest to `significand * 10 ^ exponent`, rounded once; `none` when
it overflows. -/
def nearestDecimal? (negative : Bool) (significand : Nat) (exponent : Int) : Option Binary64 :=
  match exponent with
  | .ofNat k => ofUnits? negative (significand * Nat.pow 10 k * Nat.pow 2 1074) 1
  | .negSucc k => ofUnits? negative (significand * Nat.pow 2 1074) (Nat.pow 10 (k + 1))

/-! ## Whole parts -/

/-- The magnitude without its fractional part. -/
def floor (x : Binary64) : Nat := x.units / Nat.pow 2 1074

end Binary64
end Restorable
