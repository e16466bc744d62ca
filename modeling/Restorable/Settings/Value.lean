-- SUMMARY: The values that sources of settings hold, merged key by key and read as settings.
import Restorable.Binary64.Extended
import Restorable.Settings.Basic

/-!
# Values of settings

Files and environment variables hold loosely typed values. Keys are compared without
case. A later table is merged into an earlier one key by key; any other value takes
the place of what was there. Reading a value as a setting is lenient: a switch may be
a number or a word, a text may be a switch or a number.
-/
namespace Restorable

/-- A value from a source of settings. -/
inductive Setting
  | null
  | bool (b : Bool)
  | int (n : Int)
  | float (x : ExtendedFloat)
  | str (s : String)
  | list (items : List Setting)
  | table (entries : List (String × Setting))

namespace Setting

instance : Inhabited Setting := ⟨.null⟩

/-! ## Merging -/

/-- The entries of a table; any other value has none. -/
def entries : Setting → List (String × Setting)
  | .table es => es
  | _ => []

/-- Replace the value of a key, or append the key; `old` is none where it is new. -/
def update (key : String) (change : Option Setting → Setting) :
    List (String × Setting) → List (String × Setting)
  | [] => [(key, change none)]
  | (k, v) :: es => if k = key then (k, change (some v)) :: es else (k, v) :: update key change es

mutual

/-- A value over the one that was there. An empty table leaves it as it is. -/
def merge (old : Option Setting) : Setting → Setting
  | .table [] => old.getD (.table [])
  | .table (e :: es) => .table (mergeAll ((old.map entries).getD []) (e :: es))
  | v => v

/-- The entries of a table over those of another. -/
def mergeAll (old : List (String × Setting)) : List (String × Setting) → List (String × Setting)
  | [] => old
  | (k, v) :: es => mergeAll (update (Text.lower k) (fun old => merge old v) old) es

end

/-! ## Paths -/

/-- A step from a value to a part of it. A negative place counts from the end. -/
inductive Step
  | key (name : String)
  | item (place : Int)
  deriving DecidableEq, Repr

/-- The items of a list; any other value has none. -/
def items : Setting → List Setting
  | .list vs => vs
  | _ => []

/-- Where in a list of some length a place is. -/
def position (place : Int) (length : Nat) : Nat :=
  if 0 ≤ place then place.toNat else length - place.natAbs

/-- A list with an item replaced; one that is too short is filled with nulls. -/
def replaceItem (place : Int) (change : Setting → Setting) (vs : List Setting) : List Setting :=
  let i := position place vs.length
  (vs ++ List.replicate (i + 1 - vs.length) Setting.null).modify i change

/-- A value set at a path, with tables and lists made on the way. -/
def setAt (root : Setting) : List Step → Setting → Setting
  | [], v => v
  | [.key k], v => .table (update (Text.lower k) (fun old => merge old v) root.entries)
  | .key k :: steps, v =>
    .table (update (Text.lower k) (fun old => setAt (old.getD .null) steps v) root.entries)
  | .item i :: steps, v => .list (replaceItem i (fun old => setAt old steps v) root.items)

/-- The characters of a key in a path. -/
def isKeyChar (c : Char) : Bool := Name.isPart c || c = ' ' || c = '-'

/-- The place that is written between brackets, given without the opening one: an
integer of 64 bits, with blanks around it. -/
def place? (cs : List Char) : Option Int :=
  let isBlank (c : Char) : Bool := c = ' ' || c = '\t'
  let (negative, cs) :=
    match cs.dropWhile isBlank with
    | '-' :: cs => (true, cs)
    | cs => (false, cs)
  let digits := cs.takeWhile Char.isDigit
  let n : Int := Json.natOfDigits digits
  let n := if negative then -n else n
  let inRange := -9223372036854775808 ≤ n ∧ n < 9223372036854775808
  match (cs.dropWhile Char.isDigit).dropWhile isBlank with
  | [']'] => if !digits.isEmpty ∧ inRange then some n else none
  | _ => none

/-- The steps that a key with places behind it writes. -/
def steps? (cs : List Char) : Option (List Step) :=
  match Text.pieces '[' cs with
  | key :: places =>
    if !key.isEmpty && key.all isKeyChar then do
      return .key (String.ofList key) :: (← places.mapM fun cs => Step.item <$> place? cs)
    else none
  | [] => none

/-- The path that a key writes: keys between dots, with places in brackets behind them;
or the whole key where that is no path. -/
def path (key : String) : List Step :=
  match (Text.pieces '.' key.toList).mapM steps? with
  | some steps => steps.flatten
  | none => [.key key]

/-- The entries of a source over the settings so far; each key is a path. -/
def layer (root : Setting) (source : List (String × Setting)) : Setting :=
  source.foldl (fun root (key, v) => root.setAt (path key) v) root

/-! ## Reading -/

/-- A switch: also a number, which is on unless it is zero, and some words. -/
def bool? : Setting → Option Bool
  | .bool b => some b
  | .int n => some (n ≠ 0)
  | .float x => some !x.isZero
  | .str s =>
    if s.toLower ∈ ["1", "true", "on", "yes"] then some true
    else if s.toLower ∈ ["0", "false", "off", "no"] then some false
    else none
  | _ => none

/-- A text: also a switch or a number, as it is written. -/
def str? : Setting → Option String
  | .str s => some s
  | .bool b => some (if b then "true" else "false")
  | .int n => some (toString n)
  | .float x => some x.text
  | _ => none

/-- A layout by its word, in any case, or by the only key of a table. -/
def format? : Setting → Option OutputFormat
  | .str word | .table [(word, _)] => OutputFormat.ofWord? word.toLower
  | _ => none

/-- The values of a table by key, or of a list by position. -/
def lookup? : Setting → Option (Lookup Setting)
  | .table es => some fun key _ => es.lookup key
  | .list xs => some fun _ place => xs[place]?
  | _ => none

/-- The conversion section. -/
def conversion? (v : Setting) : Option ConversionSettings := do
  ConversionSettings.read (← v.lookup?) bool? str?

/-- The storage section. -/
def storage? (v : Setting) : Option StorageSettings := do
  StorageSettings.read (← v.lookup?) bool? format?

/-- All settings. -/
def settings? (v : Setting) : Option Settings := do
  Settings.read (← v.lookup?) conversion? storage?

end Setting
end Restorable
