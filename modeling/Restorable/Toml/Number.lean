-- SUMMARY: TOML numbers and dates.
import Restorable.Settings.Value
import Restorable.Time.Instant
import Restorable.Toml.Quoted

/-!
# TOML numbers and dates

Integers are decimal with a sign, or hexadecimal, octal or binary without one, and have
64 bits. Underscores stand between digits. Dates and times are read as the text of
their normal form.
-/
namespace Restorable
namespace Toml

/-! ## Digits -/

/-- The digits from here on, with single underscores between them. -/
def moreDigits (isDigit : Char → Bool) : List Char → List Char × List Char
  | '_' :: d :: cs =>
    if isDigit d then
      let (ds, rest) := moreDigits isDigit cs
      (d :: ds, rest)
    else ([], '_' :: d :: cs)
  | c :: cs =>
    if isDigit c then
      let (ds, rest) := moreDigits isDigit cs
      (c :: ds, rest)
    else ([], c :: cs)
  | [] => ([], [])

/-- At least one digit, the first without an underscore. -/
def grouped (isDigit : Char → Bool) : List Char → Option (List Char × List Char)
  | c :: cs =>
    if isDigit c then
      let (ds, rest) := moreDigits isDigit cs
      some (c :: ds, rest)
    else none
  | [] => none

/-- Decimal digits without a leading zero. -/
def wholeDigits : List Char → Option (List Char × List Char)
  | '0' :: cs => some (['0'], cs)
  | cs => grouped Char.isDigit cs

/-- A sign, which is minus or not. -/
def sign : List Char → Bool × List Char
  | '+' :: cs => (false, cs)
  | '-' :: cs => (true, cs)
  | cs => (false, cs)

/-! ## Numbers -/

/-- An integer of 64 bits. -/
def int64? (n : Int) : Option Setting :=
  if -9223372036854775808 ≤ n ∧ n < 9223372036854775808 then some (.int n) else none

/-- The number that digits of a base write. -/
def natOfBase (base : Nat) (ds : List Char) : Nat :=
  ds.foldl (fun n c => base * n + (Json.hexDigit? c).getD 0) 0

def basedInteger (base : Nat) (cs : List Char) : Option (Setting × List Char) := do
  let (ds, rest) ← grouped (fun c => (Json.hexDigit? c).any (· < base)) cs
  some (← int64? (natOfBase base ds), rest)

def integer (cs : List Char) : Option (Setting × List Char) :=
  match cs with
  | '0' :: 'x' :: cs => basedInteger 16 cs
  | '0' :: 'o' :: cs => basedInteger 8 cs
  | '0' :: 'b' :: cs => basedInteger 2 cs
  | cs => do
    let (negative, cs) := sign cs
    let (ds, rest) ← wholeDigits cs
    let n : Int := Json.natOfDigits ds
    some (← int64? (if negative then -n else n), rest)

def fraction : List Char → Option (Option (List Char) × List Char)
  | '.' :: cs => do
    let (ds, rest) ← grouped Char.isDigit cs
    some (some ds, rest)
  | cs => some (none, cs)

def exponent : List Char → Option (Option Int × List Char)
  | 'e' :: cs | 'E' :: cs => do
    let (negative, cs) := sign cs
    let (ds, rest) ← grouped Char.isDigit cs
    let n : Int := Json.natOfDigits ds
    some (some (if negative then -n else n), rest)
  | cs => some (none, cs)

/-- A decimal float; one above the greatest is refused. -/
def decimalFloat (cs : List Char) : Option (Setting × List Char) := do
  let (negative, cs) := sign cs
  let (whole, cs) ← wholeDigits cs
  let (fraction, cs) ← fraction cs
  let (exponent, rest) ← exponent cs
  if fraction.isNone ∧ exponent.isNone then none
  else
    let x := ExtendedFloat.ofNumberText ⟨negative, whole, fraction, exponent⟩
    if x = .infinite false then none else some (.float x, rest)

/-- Infinity, or no number, with a sign. -/
def specialFloat (cs : List Char) : Option (Setting × List Char) :=
  let (negative, cs) := sign cs
  match cs with
  | 'i' :: 'n' :: 'f' :: rest => some (.float (.infinite negative), rest)
  | 'n' :: 'a' :: 'n' :: rest => some (.float .notANumber, rest)
  | _ => none

/-- Whether digits are followed by what only a float has. -/
def isDecimalFloat (cs : List Char) : Bool :=
  match wholeDigits (sign cs).2 with
  | some (_, '.' :: _) | some (_, 'e' :: _) | some (_, 'E' :: _) => true
  | _ => false

/-- A number of any kind. -/
def number (cs : List Char) : Option (Setting × List Char) :=
  match specialFloat cs with
  | some read => some read
  | none => if isDecimalFloat cs then decimalFloat cs else integer cs

/-! ## Dates -/

/-- A number of exactly so many digits, between two bounds. -/
def digitsWithin (width least greatest : Nat) (cs : List Char) : Option (Nat × List Char) :=
  let ds := cs.take width
  let n := Json.natOfDigits ds
  if ds.length = width ∧ ds.all Char.isDigit ∧ least ≤ n ∧ n ≤ greatest then some (n, cs.drop width)
  else none

/-- A number in two digits. -/
def twoDigits (n : Nat) : String := Instant.padded 2 n

def mark (c : Char) : List Char → Option (List Char)
  | d :: cs => if c = d then some cs else none
  | [] => none

/-- A day of the calendar. -/
def date (cs : List Char) : Option (String × List Char) := do
  let (year, cs) ← digitsWithin 4 0 9999 cs
  let (month, cs) ← digitsWithin 2 1 12 (← mark '-' cs)
  let (day, rest) ← digitsWithin 2 1 31 (← mark '-' cs)
  if Date.isValid ⟨year, month, day⟩ then
    some (Instant.padded 4 year ++ "-" ++ twoDigits month ++ "-" ++ twoDigits day, rest)
  else none

/-- The fraction of a second without zeros at its end; nine digits count. -/
def secondFraction : List Char → Option (String × List Char)
  | '.' :: cs => do
    let (ds, rest) ← Json.digits cs
    let kept := ((ds.take 9).reverse.dropWhile (· = '0')).reverse
    some (if kept.isEmpty then "" else "." ++ String.ofList kept, rest)
  | cs => some ("", cs)

/-- A time of day. -/
def timeOfDay (cs : List Char) : Option (String × List Char) := do
  let (hour, cs) ← digitsWithin 2 0 23 cs
  let (minute, cs) ← digitsWithin 2 0 59 (← mark ':' cs)
  let (second, cs) ← digitsWithin 2 0 60 (← mark ':' cs)
  let (fraction, rest) ← secondFraction cs
  some (twoDigits hour ++ ":" ++ twoDigits minute ++ ":" ++ twoDigits second ++ fraction, rest)

/-- An offset from UTC, empty where there is none. -/
def offset (cs : List Char) : Option (String × List Char) :=
  let clock (negative : Bool) (cs : List Char) : Option (String × List Char) := do
    let (hour, cs) ← digitsWithin 2 0 23 cs
    let (minute, rest) ← digitsWithin 2 0 59 (← mark ':' cs)
    let minus := negative ∧ ¬(hour = 0 ∧ minute = 0)
    some ((if minus then "-" else "+") ++ twoDigits hour ++ ":" ++ twoDigits minute, rest)
  match cs with
  | 'Z' :: rest | 'z' :: rest => some ("Z", rest)
  | '+' :: rest => clock false rest
  | '-' :: rest => clock true rest
  | cs => some ("", cs)

/-- Whether a time of day stands here, by its hour and the mark behind it. -/
def isTime (cs : List Char) : Bool :=
  (cs.take 2).all Char.isDigit && (cs.drop 2).head? = some ':'

/-- A time of day behind a date, with its offset. A blank that no time follows is left
alone. -/
def timeBehind (cs : List Char) : Option (String × List Char) :=
  match cs with
  | 'T' :: rest | 't' :: rest | ' ' :: rest =>
    if isTime rest then do
      let (time, rest) ← timeOfDay rest
      let (offset, rest) ← offset rest
      some ("T" ++ time ++ offset, rest)
    else some ("", cs)
  | cs => some ("", cs)

/-- Whether a date or a time of day stands here. -/
def isDate (cs : List Char) : Bool :=
  ((cs.take 4).all Char.isDigit && (cs.drop 4).head? = some '-') || isTime cs

/-- A date, a time of day, or both. -/
def dateTime (cs : List Char) : Option (Setting × List Char) :=
  if isTime cs then do
    let (time, rest) ← timeOfDay cs
    some (.str time, rest)
  else do
    let (date, cs) ← date cs
    let (time, rest) ← timeBehind cs
    some (.str (date ++ time), rest)

end Toml
end Restorable
