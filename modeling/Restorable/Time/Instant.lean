-- SUMMARY: Points in time with nanoseconds, their texts, and a relaxed reader of RFC 3339.
import Restorable.Json.Reader
import Restorable.Time.Civil

/-!
# Instants

An instant is a second of UTC with nanoseconds; a leap second is the second 59 with a
nanosecond count past a full second. Texts have no fraction, or 3, 6 or 9 digits of it,
as few as hold the value. The reader takes any offset, blanks between the parts, parts
without leading zeros, and a blank in place of the `T`.
-/
namespace Restorable

/-- A point in time: the day, the second of the day, and the nanosecond, which is 10^9
or more in a leap second. -/
structure Instant where
  day : Int
  second : Nat
  nano : Nat
  deriving DecidableEq, Repr

namespace Instant

/-- The instant of a count of seconds from 1970 and the nanoseconds behind them. -/
def ofSeconds (seconds : Int) (nano : Nat) : Instant :=
  ⟨seconds / 86400, (seconds % 86400).toNat, nano⟩

/-! ## Texts -/

def padded (width n : Nat) : String :=
  let text := Nat.repr n
  String.ofList (List.replicate (width - text.length) '0') ++ text

/-- Four digits, or a sign and at least four digits outside 0 to 9999. -/
def yearText (year : Int) : String :=
  if 0 ≤ year ∧ year ≤ 9999 then padded 4 year.toNat
  else (if year < 0 then "-" else "+") ++ padded 4 year.natAbs

def dateText (t : Instant) : String :=
  let d := Date.ofDayNumber t.day
  yearText d.year ++ "-" ++ padded 2 d.month ++ "-" ++ padded 2 d.day

/-- The fraction of a second, with the fewest groups of three digits that hold it. -/
def fractionText (nano : Nat) : String :=
  if nano = 0 then ""
  else if nano % 1000000 = 0 then "." ++ padded 3 (nano / 1000000)
  else if nano % 1000 = 0 then "." ++ padded 6 (nano / 1000)
  else "." ++ padded 9 nano

def timeText (t : Instant) : String :=
  let second := t.second % 60 + t.nano / 1000000000
  padded 2 (t.second / 3600) ++ ":" ++ padded 2 (t.second / 60 % 60) ++ ":" ++ padded 2 second ++
    fractionText (t.nano % 1000000000)

/-- The text in persisted snapshots. -/
def text (t : Instant) : String := t.dateText ++ "T" ++ t.timeText ++ "Z"

/-- The text with a numeric offset. -/
def offsetText (t : Instant) : String := t.dateText ++ "T" ++ t.timeText ++ "+00:00"

/-- The text for people. -/
def display (t : Instant) : String := t.dateText ++ " " ++ t.timeText ++ " UTC"

/-! ## Parts of a text -/

/-- The blanks of Unicode. -/
def isBlank (c : Char) : Bool :=
  let n := c.toNat
  (0x09 ≤ n && n ≤ 0x0d) || n = 0x20 || n = 0x85 || n = 0xa0 || n = 0x1680 ||
    (0x2000 ≤ n && n ≤ 0x200a) || n = 0x2028 || n = 0x2029 || n = 0x202f || n = 0x205f || n = 0x3000

def skipBlanks (cs : List Char) : List Char := cs.dropWhile isBlank

/-- Between one and `width` digits behind blanks. -/
def number (width : Nat) (cs : List Char) : Option (Nat × List Char) :=
  let cs := skipBlanks cs
  let ds := (cs.take width).takeWhile Char.isDigit
  if ds.isEmpty then none else some (Json.natOfDigits ds, cs.drop ds.length)

/-- Any number of digits. -/
def longNumber (cs : List Char) : Option (Nat × List Char) := do
  let (ds, rest) ← Json.digits cs
  some (Json.natOfDigits ds, rest)

/-- Four digits, or a sign and any number of digits. -/
def year (cs : List Char) : Option (Int × List Char) :=
  match skipBlanks cs with
  | '-' :: cs => do
    let (n, rest) ← longNumber cs
    some (-(n : Int), rest)
  | '+' :: cs => do
    let (n, rest) ← longNumber cs
    some ((n : Int), rest)
  | cs => do
    let (n, rest) ← number 4 cs
    some ((n : Int), rest)

/-- A mark behind blanks. -/
def mark (c : Char) (cs : List Char) : Option (List Char) :=
  match skipBlanks cs with
  | d :: rest => if c = d then some rest else none
  | [] => none

/-- The fraction of a second in nanoseconds; digits past the ninth are dropped. -/
def fraction : List Char → Option (Nat × List Char)
  | '.' :: cs => do
    let (ds, rest) ← Json.digits cs
    let ds := ds.take 9
    some (Json.natOfDigits ds * Nat.pow 10 (9 - ds.length), rest)
  | cs => some (0, cs)

/-- An offset from UTC in seconds: `Z`, `UTC`, or a sign with hours and minutes. -/
def offset (cs : List Char) : Option (Int × List Char) :=
  let signed (negative : Bool) (cs : List Char) : Option (Int × List Char) :=
    match cs with
    | h :: i :: cs =>
      match cs.dropWhile fun c => c = ':' || isBlank c with
      | m :: n :: rest =>
        if [h, i, m, n].all Char.isDigit && m ≤ '5' then
          let seconds : Int := Json.natOfDigits [h, i] * 3600 + Json.natOfDigits [m, n] * 60
          some (if negative then -seconds else seconds, rest)
        else none
      | _ => none
    | _ => none
  if (cs.take 3).map Char.toUpper = ['U', 'T', 'C'] then some (0, cs.drop 3)
  else
    match cs with
    | 'Z' :: rest | 'z' :: rest => some (0, rest)
    | '+' :: rest => signed false rest
    | '-' :: rest | '\u2212' :: rest => signed true rest
    | _ => none

/-! ## Reading -/

/-- The years that dates may have. -/
def yearInRange (year : Int) : Bool := -262143 ≤ year && year ≤ 262142

/-- The instant of a local date and time at an offset. -/
def ofLocal? (date : Date) (hour minute second nano : Nat) (offset : Int) : Option Instant :=
  let timeOk := hour ≤ 23 && minute ≤ 59 && second ≤ 60 && -86400 < offset && offset < 86400
  if yearInRange date.year && date.isValid && timeOk then
    let leap := second / 60
    let seconds : Int :=
      date.dayNumber * 86400 + hour * 3600 + minute * 60 + (second - leap : Nat) - offset
    let day := seconds / 86400
    if yearInRange (Date.ofDayNumber day).year then
      some ⟨day, (seconds % 86400).toNat, nano + leap * 1000000000⟩
    else none
  else none

/-- The instant that a text writes. -/
def ofText? (text : String) : Option Instant := do
  let (year, cs) ← year text.toList
  let (month, cs) ← number 2 (← mark '-' cs)
  let (day, cs) ← number 2 (← mark '-' cs)
  let cs ←
    match cs with
    | 't' :: cs | 'T' :: cs | ' ' :: cs => some cs
    | _ => none
  let (hour, cs) ← number 2 cs
  let (minute, cs) ← number 2 (← mark ':' cs)
  let (second, cs) ← number 2 (← mark ':' cs)
  let (nano, cs) ← fraction cs
  let (offset, cs) ← offset (skipBlanks cs)
  if (skipBlanks cs).isEmpty then ofLocal? ⟨year, month, day⟩ hour minute second nano offset
  else none

end Instant
end Restorable
