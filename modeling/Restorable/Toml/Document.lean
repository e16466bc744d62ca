-- SUMMARY: TOML documents: headers and entries line by line, put together as tables.
import Restorable.Toml.Value

/-!
# TOML documents

A document is a list of statements, one a line. A header opens a table, or a further
table of a list, for the entries behind it. A table is stated once, a key is set once.
-/
namespace Restorable
namespace Toml

/-! ## Statements -/

/-- One line of a document. -/
inductive Statement
  | entry (path : List String) (key : String) (v : Setting)
  | table (path : List String) (key : String)
  | item (path : List String) (key : String)

/-- An entry, or a header in one or two brackets. -/
def statement (cs : List Char) : Option (Statement × List Char) :=
  match cs with
  | '[' :: '[' :: rest => do
    let (path, key, rest) ← dottedKey rest
    some (.item path key, ← mark ']' (← mark ']' rest))
  | '[' :: rest => do
    let (path, key, rest) ← dottedKey rest
    some (.table path key, ← mark ']' rest)
  | cs => do
    let (path, key, rest) ← dottedKey cs
    let rest := skipBlanks (← mark '=' rest)
    let (v, rest) ← value (2 * rest.length + 2) 0 rest
    some (.entry path key v, rest)

/-- The rest behind blanks and a comment, which have to end the line. -/
def endOfLine (cs : List Char) : Option (List Char) := do
  match ← comment? (skipBlanks cs) with
  | [] => some []
  | cs => lineEnd? cs

/-- The statements of a text; `fuel` bounds their number. -/
def statements : Nat → List Char → Option (List Statement)
  | 0, _ => none
  | fuel + 1, cs => do
    match ← skipFiller (cs.length + 1) cs with
    | [] => some []
    | cs =>
      let (s, rest) ← statement cs
      some (s :: (← statements fuel (← endOfLine rest)))

/-! ## Assembly -/

/-- Change the entries of the table at a path. Where a table is missing, a header
implies it; of several tables the last is meant. -/
def changeAt (change : Entries → Option Entries) : List String → Entries → Option Entries
  | [], es => change es
  | p :: ps, es =>
    match es.lookup p with
    | none => do some (es ++ [(p, .table .implied (← changeAt change ps []))])
    | some (.table origin sub) => do some (replace p (.table origin (← changeAt change ps sub)) es)
    | some (.tables items) => do
      some (replace p (.tables (← changeLast (changeAt change ps) items)) es)
    | some (.value _) => none

/-- State a table, which may have been implied before. -/
def stateTable (key : String) (es : Entries) : Option Entries :=
  match es.lookup key with
  | none => some (es ++ [(key, .table .stated [])])
  | some (.table .implied sub) => some (replace key (.table .stated sub) es)
  | some _ => none

/-- Append a table to a list of tables. -/
def appendTable (key : String) (es : Entries) : Option Entries :=
  match es.lookup key with
  | none => some (es ++ [(key, .tables [[]])])
  | some (.tables items) => some (replace key (.tables (items ++ [[]])) es)
  | some _ => none

/-- The tables so far, and the path of the open one. -/
structure Assembly where
  root : Entries
  opened : List String

def Assembly.apply (a : Assembly) : Statement → Option Assembly
  | .entry path key v => do some { a with root := ← changeAt (setKey key v path) a.opened a.root }
  | .table path key => do
    some ⟨← changeAt (stateTable key) path a.root, path ++ [key]⟩
  | .item path key => do
    some ⟨← changeAt (appendTable key) path a.root, path ++ [key]⟩

/-- The entries that a document holds. A byte order mark may stand in front. -/
def document? (text : String) : Option (List (String × Setting)) := do
  let cs :=
    match text.toList with
    | '\ufeff' :: cs => cs
    | cs => cs
  let a ← (← statements (cs.length + 1) cs).foldlM Assembly.apply ⟨[], []⟩
  some (settingEntries a.root)

end Toml
end Restorable
