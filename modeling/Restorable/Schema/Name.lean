-- SUMMARY: Names of named schema types, their namespaces and their grammar.
import Restorable.Text

/-!
# Names of schema types

A full name is dotted: what stands before its last dot is the namespace. An undotted
name takes the namespace written beside it, or else the one around it.
-/
namespace Restorable

/-- The name of a record, an enum or a fixed type. -/
structure Name where
  name : String
  space : Option String
  deriving DecidableEq, Repr

namespace Name

/-! ## Full names -/

/-- Split at the last dot: the characters before and after it. -/
def splitLastDot (cs : List Char) : Option (List Char × List Char) :=
  let last := (cs.reverse.takeWhile (· ≠ '.')).reverse
  match cs.reverse.dropWhile (· ≠ '.') with
  | [] => none
  | _ :: before => some (before.reverse, last)

/-- The name that a dotted text writes. -/
def ofFull (full : String) : Name :=
  match splitLastDot full.toList with
  | some (before, last) => ⟨String.ofList last, some (String.ofList before)⟩
  | none => ⟨full, none⟩

/-- The dotted text of a name. -/
def full (n : Name) : String :=
  match n.space with
  | some space => space ++ "." ++ n.name
  | none => n.name

/-- The name that a text writes where `written` stands beside it and `enclosing` is
the namespace around it; both are for undotted texts only, and an empty namespace
counts as none. -/
def qualified (text : String) (written enclosing : Option String) : Name :=
  let n := ofFull text
  match n.space with
  | some _ => n
  | none => { n with space := (written.or enclosing).filter (· ≠ "") }

/-! ## Grammar -/

def isStart (c : Char) : Bool := ('a' ≤ c && c ≤ 'z') || ('A' ≤ c && c ≤ 'Z') || c = '_'

def isPart (c : Char) : Bool := isStart c || ('0' ≤ c && c ≤ '9')

/-- A letter or underscore, then letters, digits and underscores, all ASCII. -/
def isIdentifier (cs : List Char) : Bool :=
  match cs with
  | [] => false
  | c :: cs => isStart c && cs.all isPart

/-- The simple name and every piece of the namespace are identifiers. -/
def isValid (n : Name) : Bool :=
  isIdentifier n.name.toList &&
    match n.space with
    | some space => (Text.pieces '.' space.toList).all isIdentifier
    | none => true

end Name
end Restorable
