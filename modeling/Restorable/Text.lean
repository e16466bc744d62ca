-- SUMMARY: Cutting texts at a separator, and the lower case of keys.

/-!
# Texts

Dotted names, paths of folders and paths of settings are cut at one character. A
separator stands between two pieces, so there is one piece more than separators, and
pieces may be empty.
-/
namespace Restorable
namespace Text

/-- The pieces of a text between separators, at least one. -/
def pieces (separator : Char) : List Char → List (List Char)
  | [] => [[]]
  | c :: cs =>
    match pieces separator cs with
    | p :: ps => if c = separator then [] :: p :: ps else (c :: p) :: ps
    | [] => [[c]]

/-- A character in lower case. Besides the ASCII letters, the sign for kelvin is the only
one that has an ASCII letter for its lower case; all others are left alone, since no key
of a setting has them. -/
def lowerChar (c : Char) : Char := if c = '\u212a' then 'k' else c.toLower

/-- A key in lower case. -/
def lower (s : String) : String := s.map lowerChar

end Text
end Restorable
