-- SUMMARY: TOML keys and values, arrays and inline tables included, and tables under assembly.
import Restorable.Toml.Number

/-!
# TOML values

A table is put together from keys with dots. It remembers how it came about, since a
table that a header states, or that a value spells out, is closed to keys with dots.
-/
namespace Restorable
namespace Toml

/-! ## Tables under assembly -/

/-- How a table came about: by its own header, by a longer header, or by a key with
dots. -/
inductive Origin
  | stated
  | implied
  | dotted
  deriving DecidableEq, Repr

/-- What stands under a key. -/
inductive Node
  | value (v : Setting)
  | table (origin : Origin) (entries : List (String × Node))
  | tables (items : List (List (String × Node)))

/-- The entries of a table in order. -/
abbrev Entries := List (String × Node)

mutual

def Node.toSetting : Node → Setting
  | .value v => v
  | .table _ es => .table (settingEntries es)
  | .tables items => .list (settingTables items)

def settingEntries : List (String × Node) → List (String × Setting)
  | [] => []
  | (k, n) :: es => (k, n.toSetting) :: settingEntries es

def settingTables : List (List (String × Node)) → List Setting
  | [] => []
  | es :: items => .table (settingEntries es) :: settingTables items

end

/-- Replace the node of a key. -/
def replace (key : String) (node : Node) (es : Entries) : Entries :=
  es.map fun (k, n) => if k = key then (k, node) else (k, n)

/-- Change the last of several tables. -/
def changeLast (change : Entries → Option Entries) : List Entries → Option (List Entries)
  | [] => none
  | [es] => do some [← change es]
  | es :: items => do some (es :: (← changeLast change items))

/-- Set a new key at a path of tables. A key may go on where keys with dots began, and
pass through what longer headers implied. -/
def setKey (key : String) (v : Setting) : List String → Entries → Option Entries
  | [], es => if (es.lookup key).isSome then none else some (es ++ [(key, .value v)])
  | p :: ps, es =>
    match es.lookup p with
    | none => do some (es ++ [(p, .table .dotted (← setKey key v ps []))])
    | some (.table .dotted sub) => do some (replace p (.table .dotted (← setKey key v ps sub)) es)
    | some (.table .implied sub) =>
      if ps.isEmpty then none else do some (replace p (.table .implied (← setKey key v ps sub)) es)
    | some (.tables items) =>
      if ps.isEmpty then none
      else do some (replace p (.tables (← changeLast (setKey key v ps) items)) es)
    | some _ => none

/-- The table with the given entries as an inline value. -/
def inlineTable (pairs : List (List String × String × Setting)) : Option Setting := do
  let es ← pairs.foldlM (fun es (path, key, v) => setKey key v path es) []
  some (.table (settingEntries es))

/-! ## Keys -/

def isBareKeyChar (c : Char) : Bool := Name.isPart c || c = '-'

/-- One key, bare or in quotes. -/
def simpleKey (cs : List Char) : Option (String × List Char) :=
  match cs.takeWhile isBareKeyChar with
  | [] => lineString cs
  | bare => some (String.ofList bare, cs.drop bare.length)

/-- The keys behind a first one, each behind a dot; `fuel` bounds their number. -/
def moreKeys : Nat → List Char → Option (List String × List Char)
  | 0, _ => none
  | fuel + 1, cs =>
    match skipBlanks cs with
    | '.' :: rest => do
      let (k, rest) ← simpleKey (skipBlanks rest)
      let (ks, rest) ← moreKeys fuel rest
      some (k :: ks, rest)
    | cs => some ([], cs)

/-- The number that levels of tables and lists stay below, both in one key with dots and
in one value. -/
def maxLevels : Nat := 80

/-- Keys with dots between them: the path of tables and the last key. -/
def dottedKey (cs : List Char) : Option (List String × String × List Char) := do
  let (k, rest) ← simpleKey (skipBlanks cs)
  let (ks, rest) ← moreKeys (rest.length + 1) rest
  let keys := k :: ks
  if keys.length < maxLevels then some (keys.dropLast, keys.getLastD k, rest) else none

/-! ## Values -/

/-- The rest behind a comment, up to the end of its line. -/
def comment? : List Char → Option (List Char)
  | '#' :: cs =>
    let rest := cs.dropWhile fun c => !isControl c
    if rest.isEmpty || (lineEnd? rest).isSome then some rest else none
  | cs => some cs

/-- The rest behind blanks, line ends and comments. -/
def skipFiller : Nat → List Char → Option (List Char)
  | 0, _ => none
  | fuel + 1, cs =>
    match skipSpace cs with
    | '#' :: rest => do skipFiller fuel (← comment? ('#' :: rest))
    | cs => some cs

mutual

/-- One value inside so many lists and tables; `fuel` bounds the steps. -/
def value : Nat → Nat → List Char → Option (Setting × List Char)
  | 0, _, _ => none
  | fuel + 1, depth, cs =>
    match cs with
    | '"' :: _ | '\'' :: _ => do
      let (s, rest) ← string cs
      some (.str s, rest)
    | '[' :: rest =>
      if depth + 1 < maxLevels then do
        let (xs, rest) ← items fuel (depth + 1) rest
        some (.list xs, rest)
      else none
    | '{' :: rest =>
      if depth + 1 < maxLevels then
        match skipBlanks rest with
        | '}' :: rest => some (.table [], rest)
        | rest => do
          let (pairs, rest) ← pairs fuel (depth + 1) rest
          some (← inlineTable pairs, rest)
      else none
    | 't' :: rest => do some (.bool true, ← Json.expect ['r', 'u', 'e'] rest)
    | 'f' :: rest => do some (.bool false, ← Json.expect ['a', 'l', 's', 'e'] rest)
    | cs => if isDate cs then dateTime cs else number cs

/-- The items of an array up to its closing bracket. -/
def items : Nat → Nat → List Char → Option (List Setting × List Char)
  | 0, _, _ => none
  | fuel + 1, depth, cs => do
    match ← skipFiller (cs.length + 1) cs with
    | ']' :: rest => some ([], rest)
    | cs =>
      let (x, rest) ← value fuel depth cs
      match ← skipFiller (rest.length + 1) rest with
      | ',' :: rest =>
        let (xs, rest) ← items fuel depth rest
        some (x :: xs, rest)
      | ']' :: rest => some ([x], rest)
      | _ => none

/-- The entries of an inline table up to its closing brace, at least one. -/
def pairs : Nat → Nat → List Char → Option (List (List String × String × Setting) × List Char)
  | 0, _, _ => none
  | fuel + 1, depth, cs => do
    let (path, key, rest) ← dottedKey cs
    let (v, rest) ← value fuel depth (skipBlanks (← mark '=' rest))
    match skipBlanks rest with
    | ',' :: rest =>
      let (more, rest) ← pairs fuel depth rest
      some ((path, key, v) :: more, rest)
    | '}' :: rest => some ([(path, key, v)], rest)
    | _ => none

end

end Toml
end Restorable
