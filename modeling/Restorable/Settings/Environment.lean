-- SUMMARY: Settings from the variables of the environment.
import Restorable.Settings.Value

/-!
# Settings in the environment

A variable that begins with `EVOLUTION__`, in any case, sets the value at the path
that the rest of its name writes with two underscores between keys. The value is a
switch, an integer or a float where its text is one.
-/
namespace Restorable
namespace Environment

/-- What the names of variables with settings begin with, in lower case. -/
def mark : List Char := "evolution__".toList

/-- Two underscores in a row are a dot. -/
def dotted : List Char → List Char
  | '_' :: '_' :: cs => '.' :: dotted cs
  | c :: cs => c :: dotted cs
  | [] => []

/-- The key that a name of a variable writes, if it holds a setting. -/
def key? (name : String) : Option String :=
  let cs := (Text.lower name).toList
  if mark.isPrefixOf cs then some (String.ofList (dotted (cs.drop mark.length))) else none

/-! ## Values -/

/-- A sign, which is minus or not. -/
def sign : List Char → Bool × List Char
  | '+' :: cs => (false, cs)
  | '-' :: cs => (true, cs)
  | cs => (false, cs)

/-- An integer of 64 bits in decimal digits. -/
def int? (cs : List Char) : Option Int :=
  let (negative, ds) := sign cs
  let n : Int := Json.natOfDigits ds
  let n := if negative then -n else n
  let inRange := -9223372036854775808 ≤ n ∧ n < 9223372036854775808
  if !ds.isEmpty ∧ ds.all Char.isDigit ∧ inRange then some n else none

/-- The exponent behind a float, if one stands here. -/
def exponent? : List Char → Option (Option Int)
  | [] => some none
  | c :: cs =>
    let (negative, ds) := sign cs
    let n : Int := Json.natOfDigits ds
    if (c = 'e' ∨ c = 'E') ∧ !ds.isEmpty ∧ ds.all Char.isDigit then
      some (some (if negative then -n else n))
    else none

/-- Decimal digits with a point anywhere among them, and an exponent. -/
def decimal? (negative : Bool) (cs : List Char) : Option ExtendedFloat := do
  let whole := cs.takeWhile Char.isDigit
  let (fraction, rest) :=
    match cs.dropWhile Char.isDigit with
    | '.' :: cs => (cs.takeWhile Char.isDigit, cs.dropWhile Char.isDigit)
    | cs => ([], cs)
  let exponent ← exponent? rest
  if whole.isEmpty && fraction.isEmpty then none
  else some (ExtendedFloat.ofNumberText ⟨negative, whole, some fraction, exponent⟩)

/-- A float: decimal digits, or a word for what is not finite, in any case. -/
def float? (cs : List Char) : Option ExtendedFloat :=
  let (negative, rest) := sign cs
  let word := (String.ofList rest).toLower
  if word = "inf" ∨ word = "infinity" then some (.infinite negative)
  else if word = "nan" then some .notANumber
  else decimal? negative rest

/-- The value that a text writes. -/
def setting (text : String) : Setting :=
  if text.toLower = "true" then .bool true
  else if text.toLower = "false" then .bool false
  else
    match int? text.toList, float? text.toList with
    | some n, _ => .int n
    | none, some x => .float x
    | none, none => .str text

/-- The settings among variables. -/
def settings (environment : List (String × String)) : List (String × Setting) :=
  environment.filterMap fun (name, text) => (key? name).map fun key => (key, setting text)

end Environment
end Restorable
