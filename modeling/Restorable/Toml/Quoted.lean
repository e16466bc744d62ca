-- SUMMARY: The four kinds of TOML strings: reading them, and choosing one to write.
import Restorable.Json.Reader

/-!
# TOML strings

A basic string stands in double quotes and has escapes, a literal one stands in single
quotes and has none; three quotes on each side let either run over several lines. A
string is written in the first form that needs no escapes, and as a basic string with
escapes where none will do.
-/
namespace Restorable
namespace Toml

/-! ## Characters -/

/-- A blank within a line. -/
def isBlank (c : Char) : Bool := c = ' ' || c = '\t'

def skipBlanks (cs : List Char) : List Char := cs.dropWhile isBlank

/-- A character that no string and no comment may hold as it is. -/
def isControl (c : Char) : Bool := (c.toNat < 0x20 && c ≠ '\t') || c.toNat = 0x7f

/-- The rest behind a line end, if one stands here. -/
def lineEnd? : List Char → Option (List Char)
  | '\n' :: cs => some cs
  | '\r' :: '\n' :: cs => some cs
  | _ => none

/-- The rest behind blanks and line ends. -/
def skipSpace : List Char → List Char
  | ' ' :: cs | '\t' :: cs | '\n' :: cs => skipSpace cs
  | '\r' :: '\n' :: cs => skipSpace cs
  | cs => cs

/-! ## Reading -/

/-- The character of some hexadecimal digits. -/
def codePoint (width : Nat) (cs : List Char) : Option (Char × List Char) := do
  let digits ← (cs.take width).mapM Json.hexDigit?
  let n := digits.foldl (fun n d => 16 * n + d) 0
  if digits.length = width ∧ n.isValidChar then some (Char.ofNat n, cs.drop width) else none

/-- The character of an escape, behind its backslash. -/
def escape : List Char → Option (Char × List Char)
  | 'b' :: cs => some ('\x08', cs)
  | 't' :: cs => some ('\t', cs)
  | 'n' :: cs => some ('\n', cs)
  | 'f' :: cs => some ('\x0c', cs)
  | 'r' :: cs => some ('\r', cs)
  | '"' :: cs => some ('"', cs)
  | '\\' :: cs => some ('\\', cs)
  | 'u' :: cs => codePoint 4 cs
  | 'U' :: cs => codePoint 8 cs
  | _ => none

/-- The forms of a string: the quote, whether it has escapes, and whether it may run
over several lines. -/
structure Form where
  quote : Char
  escapes : Bool
  lines : Bool
  deriving DecidableEq, Repr

/-- The rest behind the closing quotes, and the quotes before them that belong to the
string: up to two in a string of several lines. -/
def close? (form : Form) (cs : List Char) : Option (List Char × List Char) :=
  let run := cs.takeWhile (· = form.quote)
  if !form.lines then
    match cs with
    | c :: rest => if c = form.quote then some ([], rest) else none
    | [] => none
  else if 3 ≤ run.length then
    let kept := min (run.length - 3) 2
    some (run.take kept, cs.drop (kept + 3))
  else none

/-- The characters up to the closing quotes; `fuel` bounds their number. -/
def body (form : Form) : Nat → List Char → Option (List Char × List Char)
  | 0, _ => none
  | fuel + 1, cs =>
    match close? form cs with
    | some closed => some closed
    | none =>
      match cs with
      | [] => none
      | c :: rest =>
        if c = '\\' ∧ form.escapes then
          match form.lines, lineEnd? (skipBlanks rest) with
          | true, some rest => body form fuel (skipSpace rest)
          | _, _ => do
            let (c, rest) ← escape rest
            let (cs, rest) ← body form fuel rest
            some (c :: cs, rest)
        else
          match form.lines, lineEnd? (c :: rest) with
          | true, some rest => do
            let (cs, rest) ← body form fuel rest
            some ('\n' :: cs, rest)
          | _, _ =>
            if isControl c then none
            else do
              let (cs, rest) ← body form fuel rest
              some (c :: cs, rest)

/-- A string in some form, behind its opening quotes. -/
def ofForm (form : Form) (cs : List Char) : Option (String × List Char) := do
  let cs := if form.lines then (lineEnd? cs).getD cs else cs
  let (content, rest) ← body form (cs.length + 1) cs
  some (String.ofList content, rest)

/-- A string of one line. -/
def lineString : List Char → Option (String × List Char)
  | '"' :: cs => ofForm ⟨'"', true, false⟩ cs
  | '\'' :: cs => ofForm ⟨'\'', false, false⟩ cs
  | _ => none

/-- A string of any kind. -/
def string : List Char → Option (String × List Char)
  | '"' :: '"' :: '"' :: cs => ofForm ⟨'"', true, true⟩ cs
  | '\'' :: '\'' :: '\'' :: cs => ofForm ⟨'\'', false, true⟩ cs
  | cs => lineString cs

/-! ## Writing -/

/-- The longest run of a character, after a run of length `run`. -/
def longestRun (c : Char) (run : Nat) : List Char → Nat
  | [] => run
  | d :: cs => if d = c then longestRun c (run + 1) cs else max run (longestRun c 0 cs)

/-- Whether a string can stand in a form without escapes. Only the characters that
need one in every form, the backslash, the quotes and the line end count. -/
def isPlain (form : Form) (cs : List Char) : Bool :=
  !cs.any (fun c => c ≠ '\n' && isControl c) &&
    !(form.escapes && cs.contains '\\') &&
    longestRun form.quote 0 cs ≤ (if form.lines then 2 else 0) &&
    (form.lines || !cs.contains '\n')

/-- The forms in order of preference. -/
def forms : List Form :=
  [⟨'"', true, false⟩, ⟨'\'', false, false⟩, ⟨'"', true, true⟩, ⟨'\'', false, true⟩]

/-- The form in which a string is written. -/
def formOf (cs : List Char) : Form :=
  (forms.find? (isPlain · cs)).getD ⟨'"', true, cs.contains '\n'⟩

def upperHex (n : Nat) : Char := (Nat.digitChar (n % 16)).toUpper

/-- A character of a basic string, after `quotes` double quotes in a row. -/
def escaped (form : Form) (quotes : Nat) (c : Char) : List Char :=
  if c = '"' then if form.lines ∧ quotes < 2 then [c] else ['\\', '"']
  else if c = '\\' then ['\\', '\\']
  else if c = '\x08' then ['\\', 'b']
  else if c = '\t' then ['\\', 't']
  else if c = '\n' then if form.lines then [c] else ['\\', 'n']
  else if c = '\x0c' then ['\\', 'f']
  else if c = '\r' then ['\\', 'r']
  else if isControl c then ['\\', 'u', '0', '0', upperHex (c.toNat / 16), upperHex c.toNat]
  else [c]

/-- The characters of a basic string; a run of double quotes is broken before the
third. -/
def escapedAll (form : Form) (quotes : Nat) : List Char → List Char
  | [] => []
  | c :: cs =>
    let next := if c = '"' ∧ form.lines ∧ quotes < 2 then quotes + 1 else 0
    escaped form quotes c ++ escapedAll form next cs

/-- A string in the form that suits it. -/
def quoted (s : String) : String :=
  let cs := s.toList
  let form := formOf cs
  let marks := String.ofList (List.replicate (if form.lines then 3 else 1) form.quote)
  let start := if form.lines ∧ cs.contains '\n' then "\n" else ""
  let content := if form.escapes then String.ofList (escapedAll form 0 cs) else s
  marks ++ start ++ content ++ marks

end Toml
end Restorable
