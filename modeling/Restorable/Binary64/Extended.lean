-- SUMMARY: Binary64 values with infinities and one value that is no number, and their texts.
import Restorable.Binary64.Shortest
import Restorable.Json.Reader

/-!
# Extended floats

Settings may be floats that are not finite. Reading a decimal rounds once, and what is
too large is infinite.
-/
namespace Restorable

/-- A binary64 value, finite or not. -/
inductive ExtendedFloat
  | finite (x : Binary64)
  | infinite (negative : Bool)
  | notANumber
  deriving DecidableEq, Repr

namespace ExtendedFloat

/-- Leading exponents beyond this bound overflow, or round to zero. -/
def exponentBound : Int := 400

/-- The value nearest to the number that a text writes. -/
def ofNumberText (t : Json.NumberText) : ExtendedFloat :=
  let fraction := t.fraction.getD []
  let significand := Json.natOfDigits (t.whole ++ fraction)
  let exponent := t.exponent.getD 0 - fraction.length
  let leading := (Nat.repr significand).length + exponent
  if significand = 0 ∨ leading < -exponentBound then
    .finite { Binary64.zero with negative := t.negative }
  else if exponentBound < leading then .infinite t.negative
  else
    match Binary64.nearestDecimal? t.negative significand exponent with
    | some x => .finite x
    | none => .infinite t.negative

/-- Zero of either sign. -/
def isZero : ExtendedFloat → Bool
  | .finite x => x.isZero
  | _ => false

def text : ExtendedFloat → String
  | .finite x => x.plainText
  | .infinite false => "inf"
  | .infinite true => "-inf"
  | .notANumber => "NaN"

end ExtendedFloat
end Restorable
