-- SUMMARY: The values that defaults turn into, and what they become as a kind without parts.
import Restorable.Avro.Shape

/-!
# Data

A default is read as a datum of its own kind first: an integer is a long, any other
number a double, a text a string, an object a map. Conversions then turn it into a
datum of the kind that is asked for. Contents are kept only as far as a later
conversion can depend on them.
-/
namespace Restorable
namespace Avro

/-- A value on its way to some shape. -/
inductive Datum
  | null
  | boolean
  | int (n : Int)
  | long (n : Int)
  | float
  | double
  | bytes (content : ByteArray)
  | string (content : String)
  | fixed (content : ByteArray)
  | enum (symbol : String)
  | decimal (length : Nat)
  | logical (kind : Kind)
  | array (items : List Datum)
  | map (entries : List (String × Datum))
  | record (fields : List (String × Datum))
  | union (inner : Datum)

namespace Datum

instance : Inhabited Datum := ⟨.null⟩

def kind : Datum → Kind
  | .null => .null
  | .boolean => .boolean
  | .int _ => .int
  | .long _ => .long
  | .float => .float
  | .double => .double
  | .bytes _ => .bytes
  | .string _ => .string
  | .fixed _ => .fixed
  | .enum _ => .enum
  | .decimal _ => .decimal
  | .logical k => k
  | .array _ => .array
  | .map _ => .map
  | .record _ => .record
  | .union _ => .union

/-- The datum that a member of a union holds. -/
def unwrapped : Datum → Datum
  | .union d => d
  | d => d

/-! ## From JSON -/

/-- An integer in the range of `width` values around zero, modulo that number. -/
def wrap (width : Int) (n : Int) : Int := (n + width / 2) % width - width / 2

def wrap32 (n : Int) : Int := wrap 4294967296 n

def wrap64 (n : Int) : Int := wrap 18446744073709551616 n

mutual

/-- The datum of a JSON value. The upper half of the unsigned integers wraps. -/
def ofJson : Json → Datum
  | .null => .null
  | .bool _ => .boolean
  | .num (.int n) => .long (wrap64 n.val)
  | .num (.float _) => .double
  | .str s => .string s
  | .arr xs => .array (ofItems xs)
  | .obj es => .map (ofEntries es)

def ofItems : List Json → List Datum
  | [] => []
  | x :: xs => ofJson x :: ofItems xs

def ofEntries : List (String × Json) → List (String × Datum)
  | [] => []
  | (k, v) :: es => (k, ofJson v) :: ofEntries es

end

/-! ## Conversions -/

/-- An integer on 32 bits; a long loses its upper half. -/
def int? : Datum → Option Int
  | .int n => some n
  | .long n => some (wrap32 n)
  | _ => none

/-- A byte, which is an integer between 0 and 255. -/
def byte? (d : Datum) : Option UInt8 := do
  let n ← d.unwrapped.int?
  if 0 ≤ n ∧ n < 256 then some n.toNat.toUInt8 else none

/-- Bytes: also a text as UTF-8, and an array of bytes. -/
def bytes? : Datum → Option ByteArray
  | .bytes b => some b
  | .string s => some s.toUTF8
  | .array items => do return ⟨(← items.mapM byte?).toArray⟩
  | _ => none

/-- A text: also bytes that are UTF-8. -/
def string? : Datum → Option String
  | .string s => some s
  | .bytes b | .fixed b => String.fromUTF8? b
  | _ => none

/-- Bytes of a fixed size. A text passes with any size. -/
def fixed? (size : UInt64) : Datum → Option ByteArray
  | .fixed b => if b.size = size.toNat then some b else none
  | .string s => some s.toUTF8
  | _ => none

/-- One of the symbols: the one that is written, or else the default of the enum. -/
def enum? (symbols : List String) (default : Option String) (d : Datum) : Option String := do
  let s ←
    match d with
    | .enum s | .string s => some s
    | _ => none
  if s ∈ symbols then some s else default.filter (· ∈ symbols)

/-- Whether numbers in so many bytes have so many digits. The number of bits is taken on
32 bits. -/
def holdsDigits (precision : UInt64) (length : Nat) : Bool :=
  let bits := wrap32 (8 * length - 1)
  if 2147483648 ≤ length ∨ bits < 0 then false
  else if 1024 ≤ bits then true
  else precision.toNat < (Nat.repr (Nat.pow 2 bits.toNat - 1)).length

/-- The length of a decimal. -/
def decimal? (precision : UInt64) (carrier : Option UInt64) (d : Datum) : Option Nat := do
  let length ←
    match d with
    | .decimal length => some length
    | .fixed b | .bytes b => some b.size
    | _ => none
  if carrier.all (fun size => holdsDigits precision size.toNat) && holdsDigits precision length then
    some length
  else none

def isHex (c : Char) : Bool :=
  ('0' ≤ c && c ≤ '9') || ('a' ≤ c && c ≤ 'f') || ('A' ≤ c && c ≤ 'F')

/-- Groups of 8, 4, 4, 4 and 12 hexadecimal digits. -/
def isHyphenatedUuid (cs : List Char) : Bool :=
  cs.length = 36 && cs.zipIdx.all fun (c, i) =>
    if i = 8 ∨ i = 13 ∨ i = 18 ∨ i = 23 then c = '-' else isHex c

/-- A UUID: 32 digits, or groups with hyphens, the latter also in braces or as a URN,
whose scheme and namespace are in any case. -/
def isUuid (s : String) : Bool :=
  let cs := s.toList
  let urn := "urn:uuid:".toList
  let braced := cs.head? = some '\x7b' && cs.getLast? = some '\x7d'
  (cs.length = 32 && cs.all isHex) || isHyphenatedUuid cs ||
    (braced && isHyphenatedUuid (cs.drop 1).dropLast) ||
    ((cs.take urn.length).map Char.toLower = urn && isHyphenatedUuid (cs.drop urn.length))

/-- Whether a datum of another kind can become one of a logical kind. Days and
milliseconds of a day come from ints only, which no default is by itself. -/
def becomes : Kind → Datum → Bool
  | .date, .int _ | .timeMillis, .int _ => true
  | .timeMicros, .int _ | .timeMicros, .long _ => true
  | .timestampMillis, .int _ | .timestampMillis, .long _ => true
  | .timestampMicros, .int _ | .timestampMicros, .long _ => true
  | .localTimestampMillis, .int _ | .localTimestampMillis, .long _ => true
  | .localTimestampMicros, .int _ | .localTimestampMicros, .long _ => true
  | .uuid, .string s => isUuid s
  | .duration, .fixed b => b.size = 12
  | _, _ => false

/-- The datum as one of a kind without parts. -/
def convert (k : Kind) (d : Datum) : Option Datum :=
  match k, d with
  | .null, .null => some .null
  | .boolean, .boolean => some .boolean
  | .int, d => d.int?.map .int
  | .long, .int n | .long, .long n => some (.long n)
  | .float, .int _ | .float, .long _ | .float, .float | .float, .double => some .float
  | .double, .int _ | .double, .long _ | .double, .float | .double, .double => some .double
  | .bytes, d => d.bytes?.map .bytes
  | .string, d => d.string?.map .string
  | k, .logical l => if k = l then some (.logical l) else none
  | k, d => if becomes k d then some (.logical k) else none

end Datum
end Avro
end Restorable
