-- SUMMARY: Writing JSON, in compact form and with two blanks of indentation.
import Restorable.Json.Basic
import Restorable.Binary64.Shortest

/-!
# Writing JSON

Both forms write entries in the order of the value. Only the quote, the backslash
and the characters below U+0020 are escaped.
-/
namespace Restorable

/-! ## Strings and numbers -/

def Number.text : Number → String
  | .int n => toString n.val
  | .float x => x.jsonText

namespace Json

def lowerHex (n : Nat) : Char := Nat.digitChar (n % 16)

/-- One character of a string. -/
def escaped (c : Char) : List Char :=
  if c = '"' then ['\\', '"']
  else if c = '\\' then ['\\', '\\']
  else if c = '\x08' then ['\\', 'b']
  else if c = '\x0c' then ['\\', 'f']
  else if c = '\n' then ['\\', 'n']
  else if c = '\r' then ['\\', 'r']
  else if c = '\t' then ['\\', 't']
  else if c.toNat < 0x20 then ['\\', 'u', '0', '0', lowerHex (c.toNat / 16), lowerHex c.toNat]
  else [c]

def quoted (s : String) : String := "\"" ++ String.ofList (s.toList.flatMap escaped) ++ "\""

/-! ## The compact form -/

mutual

/-- The text without blanks. -/
def compact : Json → String
  | .null => "null"
  | .bool true => "true"
  | .bool false => "false"
  | .num n => n.text
  | .str s => quoted s
  | .arr xs => "[" ++ compactItems xs ++ "]"
  | .obj es => "\x7b" ++ compactEntries es ++ "\x7d"

def compactItems : List Json → String
  | [] => ""
  | [x] => x.compact
  | x :: xs => x.compact ++ "," ++ compactItems xs

def compactEntries : List (String × Json) → String
  | [] => ""
  | [(k, v)] => quoted k ++ ":" ++ v.compact
  | (k, v) :: es => quoted k ++ ":" ++ v.compact ++ "," ++ compactEntries es

end

/-! ## The pretty form -/

def newLine (depth : Nat) : String := "\n" ++ String.ofList (List.replicate (2 * depth) ' ')

mutual

/-- The text with each item and entry on a line of its own, at `depth` levels of
indentation; empty containers stay on one line. -/
def prettyAt (depth : Nat) : Json → String
  | .arr [] => "[]"
  | .arr xs => "[" ++ prettyItems (depth + 1) xs ++ newLine depth ++ "]"
  | .obj [] => "\x7b\x7d"
  | .obj es => "\x7b" ++ prettyEntries (depth + 1) es ++ newLine depth ++ "\x7d"
  | .null => "null"
  | .bool true => "true"
  | .bool false => "false"
  | .num n => n.text
  | .str s => quoted s

def prettyItems (depth : Nat) : List Json → String
  | [] => ""
  | [x] => newLine depth ++ x.prettyAt depth
  | x :: xs => newLine depth ++ x.prettyAt depth ++ "," ++ prettyItems depth xs

def prettyEntries (depth : Nat) : List (String × Json) → String
  | [] => ""
  | [(k, v)] => newLine depth ++ quoted k ++ ": " ++ v.prettyAt depth
  | (k, v) :: es =>
    newLine depth ++ quoted k ++ ": " ++ v.prettyAt depth ++ "," ++ prettyEntries depth es

end

def pretty (v : Json) : String := v.prettyAt 0

end Json
end Restorable
