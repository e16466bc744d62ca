-- SUMMARY: Reading JSON text, one function for each production of the grammar.
import Restorable.Json.Sorted

/-!
# Reading JSON

Each reader takes the remaining characters and returns what it read with the rest.
Containers nest at most 127 deep. Integers in range are kept exactly; any other
number is read as a float in two roundings, and one too large is refused.
-/
namespace Restorable
namespace Json

/-- The greatest number of containers around a value, itself included. -/
def maxDepth : Nat := 127

/-! ## Blanks and strings -/

def isBlank (c : Char) : Bool := c = ' ' || c = '\t' || c = '\n' || c = '\r'

def skipBlanks (cs : List Char) : List Char := cs.dropWhile isBlank

def hexDigit? (c : Char) : Option Nat :=
  if '0' ≤ c ∧ c ≤ '9' then some (c.toNat - '0'.toNat)
  else if 'a' ≤ c ∧ c ≤ 'f' then some (c.toNat - 'a'.toNat + 10)
  else if 'A' ≤ c ∧ c ≤ 'F' then some (c.toNat - 'A'.toNat + 10)
  else none

/-- Four hexadecimal digits. -/
def codeUnit : List Char → Option (Nat × List Char)
  | a :: b :: c :: d :: rest => do
    let a ← hexDigit? a
    let b ← hexDigit? b
    let c ← hexDigit? c
    let d ← hexDigit? d
    some (((a * 16 + b) * 16 + c) * 16 + d, rest)
  | _ => none

/-- The character of the code units that follow a `u` escape. A high surrogate needs
the low one right behind it, and a low one cannot come first. -/
def unicodeEscape (cs : List Char) : Option (Char × List Char) := do
  let (unit, rest) ← codeUnit cs
  if 0xDC00 ≤ unit ∧ unit ≤ 0xDFFF then none
  else if 0xD800 ≤ unit ∧ unit ≤ 0xDBFF then
    match rest with
    | '\\' :: 'u' :: rest =>
      let (low, rest) ← codeUnit rest
      if 0xDC00 ≤ low ∧ low ≤ 0xDFFF then
        some (Char.ofNat (0x10000 + (unit - 0xD800) * 0x400 + (low - 0xDC00)), rest)
      else none
    | _ => none
  else some (Char.ofNat unit, rest)

/-- The character of an escape, after its backslash. -/
def escape : List Char → Option (Char × List Char)
  | '"' :: rest => some ('"', rest)
  | '\\' :: rest => some ('\\', rest)
  | '/' :: rest => some ('/', rest)
  | 'b' :: rest => some ('\x08', rest)
  | 'f' :: rest => some ('\x0c', rest)
  | 'n' :: rest => some ('\n', rest)
  | 'r' :: rest => some ('\r', rest)
  | 't' :: rest => some ('\t', rest)
  | 'u' :: rest => unicodeEscape rest
  | _ => none

/-- The characters up to the closing quote; `fuel` bounds their number. -/
def stringBody : Nat → List Char → Option (List Char × List Char)
  | 0, _ => none
  | _ + 1, [] => none
  | _ + 1, '"' :: rest => some ([], rest)
  | fuel + 1, '\\' :: rest => do
    let (c, rest) ← escape rest
    let (cs, rest) ← stringBody fuel rest
    some (c :: cs, rest)
  | fuel + 1, c :: rest => do
    if c.toNat < 0x20 then none
    else
      let (cs, rest) ← stringBody fuel rest
      some (c :: cs, rest)

/-! ## Numbers -/

def digitValue (c : Char) : Nat := c.toNat - '0'.toNat

/-- The number that decimal digits write. -/
def natOfDigits (cs : List Char) : Nat := cs.foldl (fun n c => 10 * n + digitValue c) 0

/-- Append digits to a significand while it stays below 2^64; returns it with the
number of digits taken. -/
def absorb (significand : Nat) : List Char → Nat × Nat
  | [] => (significand, 0)
  | c :: cs =>
    let next := 10 * significand + digitValue c
    if next < 18446744073709551616 then
      let (s, taken) := absorb next cs
      (s, taken + 1)
    else (significand, 0)

/-- The parts of a number text: sign, whole digits, and the digits of the fraction
and the exponent where they are present. -/
structure NumberText where
  negative : Bool
  whole : List Char
  fraction : Option (List Char)
  exponent : Option Int

/-- At least one digit. -/
def digits (cs : List Char) : Option (List Char × List Char) :=
  match cs.takeWhile Char.isDigit with
  | [] => none
  | ds => some (ds, cs.dropWhile Char.isDigit)

def signedDigits : List Char → Option (Int × List Char)
  | '-' :: cs => do
    let (ds, rest) ← digits cs
    some (-(natOfDigits ds : Int), rest)
  | '+' :: cs => do
    let (ds, rest) ← digits cs
    some ((natOfDigits ds : Int), rest)
  | cs => do
    let (ds, rest) ← digits cs
    some ((natOfDigits ds : Int), rest)

def wholeDigits (cs : List Char) : Option (List Char × List Char) := do
  match ← digits cs with
  | ('0' :: _ :: _, _) => none
  | read => some read

def fractionDigits : List Char → Option (Option (List Char) × List Char)
  | '.' :: cs => do
    let (ds, rest) ← digits cs
    some (some ds, rest)
  | cs => some (none, cs)

def exponentPart : List Char → Option (Option Int × List Char)
  | 'e' :: cs => do
    let (e, rest) ← signedDigits cs
    some (some e, rest)
  | 'E' :: cs => do
    let (e, rest) ← signedDigits cs
    some (some e, rest)
  | cs => some (none, cs)

def unsignedText (negative : Bool) (cs : List Char) : Option (NumberText × List Char) := do
  let (whole, rest) ← wholeDigits cs
  let (fraction, rest) ← fractionDigits rest
  let (exponent, rest) ← exponentPart rest
  some (⟨negative, whole, fraction, exponent⟩, rest)

def numberText : List Char → Option (NumberText × List Char)
  | '-' :: cs => unsignedText true cs
  | cs => unsignedText false cs

/-- The float that a number text writes; whole digits that no longer fit the
significand raise the exponent, further ones of the fraction are dropped. -/
def NumberText.float? (t : NumberText) : Option Binary64 :=
  let (s, taken) := absorb 0 t.whole
  let (s', places) := absorb s (t.fraction.getD [])
  let exponent := (t.whole.length - taken : Nat) - (places : Int) + t.exponent.getD 0
  Binary64.ofDecimal? t.negative s' exponent

/-- The integer that a number text writes, if it is one in range. Zero with a minus
sign is not an integer. -/
def NumberText.integer? (t : NumberText) : Option Integer :=
  match t.fraction, t.exponent with
  | none, none =>
    let n := natOfDigits t.whole
    if t.negative then if n = 0 then none else Integer.ofInt? (-n) else Integer.ofInt? n
  | _, _ => none

def NumberText.number? (t : NumberText) : Option Number :=
  match t.integer? with
  | some n => some (.int n)
  | none => t.float?.map .float

/-! ## Values -/

/-- The rest of the text behind a word. -/
def expect : List Char → List Char → Option (List Char)
  | [], cs => some cs
  | w :: ws, c :: cs => if w = c then expect ws cs else none
  | _ :: _, [] => none

mutual

/-- One value with the blanks before it; `fuel` bounds the steps and `depth` the
containers that may still open. -/
def value : Nat → Nat → List Char → Option (Json × List Char)
  | 0, _, _ => none
  | fuel + 1, depth, cs =>
    match skipBlanks cs with
    | [] => none
    | '"' :: rest => do
      let (s, rest) ← stringBody (rest.length + 1) rest
      some (.str (String.ofList s), rest)
    | '[' :: rest =>
      match depth with
      | 0 => none
      | depth + 1 =>
        match skipBlanks rest with
        | ']' :: rest => some (.arr [], rest)
        | _ => do
          let (xs, rest) ← items fuel depth rest
          some (.arr xs, rest)
    | '{' :: rest =>
      match depth with
      | 0 => none
      | depth + 1 =>
        match skipBlanks rest with
        | '}' :: rest => some (.obj [], rest)
        | _ => do
          let (es, rest) ← entries fuel depth rest
          some (.obj es, rest)
    | 'n' :: rest => do some (.null, ← expect ['u', 'l', 'l'] rest)
    | 't' :: rest => do some (.bool true, ← expect ['r', 'u', 'e'] rest)
    | 'f' :: rest => do some (.bool false, ← expect ['a', 'l', 's', 'e'] rest)
    | cs => do
      let (t, rest) ← numberText cs
      some (.num (← t.number?), rest)

/-- The items of an array up to its closing bracket, at least one. -/
def items : Nat → Nat → List Char → Option (List Json × List Char)
  | 0, _, _ => none
  | fuel + 1, depth, cs => do
    let (x, rest) ← value fuel depth cs
    match skipBlanks rest with
    | ',' :: rest =>
      let (xs, rest) ← items fuel depth rest
      some (x :: xs, rest)
    | ']' :: rest => some ([x], rest)
    | _ => none

/-- The entries of an object up to its closing brace, at least one. -/
def entries : Nat → Nat → List Char → Option (List (String × Json) × List Char)
  | 0, _, _ => none
  | fuel + 1, depth, cs => do
    match skipBlanks cs with
    | '"' :: rest =>
      let (k, rest) ← stringBody (rest.length + 1) rest
      match skipBlanks rest with
      | ':' :: rest =>
        let (v, rest) ← value fuel depth rest
        match skipBlanks rest with
        | ',' :: rest =>
          let (es, rest) ← entries fuel depth rest
          some ((String.ofList k, v) :: es, rest)
        | '}' :: rest => some ([(String.ofList k, v)], rest)
        | _ => none
      | _ => none
    | _ => none

end

/-! ## Texts -/

/-- The first value of a text and what follows it. -/
def leading? (text : String) : Option (Json × List Char) :=
  let cs := text.toList
  value (2 * cs.length + 2) maxDepth cs

/-- Whether only blanks are left. -/
def atEnd (rest : List Char) : Bool := rest.all isBlank

/-- The value of a whole text, with its objects in document order. -/
def document? (text : String) : Option Json := do
  let (v, rest) ← leading? text
  if atEnd rest then some v else none

/-- The value of a whole text, with its objects sorted. -/
def parse? (text : String) : Option Json := (document? text).map sorted

end Json
end Restorable
