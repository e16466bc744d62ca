-- SUMMARY: The shortest decimal that reads back as a given binary64 value, and its texts.
import Restorable.Binary64.Basic

/-!
# Shortest decimals

Among the decimals that lie in the interval of reals rounding to a value, the
shortest is found on the first decimal grid that has a point in the interval. The
interval contains its ends exactly when the significand is even.
-/
namespace Restorable

/-- A decimal `digits * 10 ^ exponent`. -/
structure Decimal where
  digits : Nat
  exponent : Int
  deriving DecidableEq, Repr

namespace Decimal

/-- Move trailing zeros of the digits into the exponent. -/
def trim (fuel : Nat) (d : Decimal) : Decimal :=
  match fuel with
  | 0 => d
  | fuel + 1 =>
    if d.digits ≠ 0 ∧ d.digits % 10 = 0 then trim fuel ⟨d.digits / 10, d.exponent + 1⟩ else d

end Decimal

namespace Binary64

/-! ## The rounding interval -/

/-- A magnitude and the ends of its rounding interval, in quarters of a unit. -/
structure Interval where
  lower : Nat
  value : Nat
  upper : Nat
  closed : Bool

/-- The gap below a power of two is half the gap above it. -/
def interval (x : Binary64) : Interval :=
  let scale := Nat.pow 2 x.shift
  let value := 4 * x.significand * scale
  let below := if x.fraction.val = 0 ∧ 1 < x.exponent.val then scale else 2 * scale
  { lower := value - below, value, upper := value + 2 * scale, closed := x.significand % 2 = 0 }

/-- Whether `num / den` quarters of a unit lie in the interval. -/
def Interval.contains (i : Interval) (num den : Nat) : Bool :=
  if i.closed then i.lower * den ≤ num && num ≤ i.upper * den
  else i.lower * den < num && num < i.upper * den

/-! ## Decimal grids -/

/-- The numerator and denominator of `10 ^ exponent` in quarters of a unit. -/
def gridStep (exponent : Int) : Nat × Nat :=
  match exponent with
  | .ofNat k => (Nat.pow 10 k * Nat.pow 2 1076, 1)
  | .negSucc k => (Nat.pow 2 1076, Nat.pow 10 (k + 1))

/-- The grid point in the interval nearest to the value, if any; a tie goes to the
even multiple. -/
def Interval.onGrid? (i : Interval) (exponent : Int) : Option Decimal :=
  let (num, den) := gridStep exponent
  let down := i.value * den / num
  let up := down + 1
  let toDown := i.value * den - down * num
  let toUp := up * num - i.value * den
  match i.contains (down * num) den, i.contains (up * num) den with
  | true, true =>
    let preferDown := toDown < toUp || (toDown = toUp && down % 2 = 0)
    some ⟨if preferDown then down else up, exponent⟩
  | true, false => some ⟨down, exponent⟩
  | false, true => some ⟨up, exponent⟩
  | false, false => none

/-- The decimal exponent of the leading digit of a nonzero magnitude. -/
def leadingExponent (x : Binary64) : Int :=
  let whole := x.floor
  if 0 < whole then (Nat.toDigits 10 whole).length - 1
  else
    let places := (List.range 330).find? fun k => Nat.pow 2 1074 ≤ x.units * Nat.pow 10 k
    Int.negOfNat (places.getD 330)

/-- The shortest decimal that reads back as the magnitude, nearest to it among the
shortest ones. Seventeen digits always suffice. -/
def shortest (x : Binary64) : Decimal :=
  if x.isZero then ⟨0, 0⟩
  else
    let top := x.leadingExponent
    let found := (List.range 18).findSome? fun n => x.interval.onGrid? (top - Int.ofNat n)
    (found.getD ⟨0, 0⟩).trim 20

end Binary64

/-! ## Texts -/

namespace Decimal

def digitText (d : Decimal) : String := Nat.repr d.digits

def zeros (n : Nat) : String := String.ofList (List.replicate n '0')

/-- The exponent of the leading digit. -/
def leading (d : Decimal) : Int := d.exponent + d.digitText.length - 1

/-- Positional notation; `whole` is appended to a decimal without fractional part. -/
def positional (d : Decimal) (whole : String) : String :=
  let text := d.digitText
  match d.exponent with
  | .ofNat k => text ++ zeros k ++ whole
  | .negSucc k =>
    let places := k + 1
    if places < text.length then
      let split := text.length - places
      String.ofList (text.toList.take split) ++ "." ++ String.ofList (text.toList.drop split)
    else "0." ++ zeros (places - text.length) ++ text

/-- One digit, the others after a point, and a signed exponent. -/
def scientific (d : Decimal) : String :=
  let mantissa :=
    match d.digitText.toList with
    | [] => ""
    | [c] => String.singleton c
    | c :: rest => String.singleton c ++ "." ++ String.ofList rest
  let sign := if d.leading < 0 then "-" else "+"
  mantissa ++ "e" ++ sign ++ Nat.repr d.leading.natAbs

end Decimal

namespace Binary64

def signText (x : Binary64) : String := if x.negative then "-" else ""

/-- Positional with a fractional part when the leading digit stands between 10^-5
and 10^15, scientific otherwise. -/
def jsonText (x : Binary64) : String :=
  let d := x.shortest
  let body := if -5 ≤ d.leading ∧ d.leading ≤ 15 then d.positional ".0" else d.scientific
  x.signText ++ body

/-- Positional throughout, without a fractional part for whole values. -/
def plainText (x : Binary64) : String := x.signText ++ x.shortest.positional ""

end Binary64
end Restorable
