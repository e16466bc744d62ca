-- SUMMARY: Encoders, the custom kinds that they may hold, and the envelopes they leave behind.
import Restorable.Failure
import Restorable.Encoder.Kind
import Restorable.Runtime.Descriptor
import Restorable.Snapshot.Envelope

/-!
# Encoders

An encoder is a tree of built-in kinds, with nodes of custom kinds among them. What a
custom kind may do is the class `CustomKind`; everything else treats it as a value of
an arbitrary type. Nested encoders have a fixed order, which is also the order of the
nested envelopes.
-/
namespace Restorable

/-- An encoder, with custom kinds of type `κ`. -/
inductive Encoder (κ : Type)
  | leaf (leaf : Leaf)
  | array (element : Encoder κ)
  | map (key value : Encoder κ)
  | row (names : List String) (fields : List (Encoder κ))
  | nullable (inner : Encoder κ)
  | either (left right : Encoder κ)
  | custom (kind : κ) (nested : List (Encoder κ))

/-- What an encoder says of an envelope, nested envelopes apart. -/
inductive ConfigVerdict
  | asIs
  | migrate
  | incompatible (reason : Reason)

/-- What a custom kind of encoder has to provide. -/
class CustomKind (κ : Type) where
  id : κ → String
  version : κ → UInt32
  /-- The newest version of a kind, given by its id, that can be read. -/
  readable : κ → String → Option UInt32
  config : κ → Config
  resolve : κ → Envelope → ConfigVerdict
  /-- The same shape around other nested encoders. -/
  rebuild : κ → List (Encoder κ) → Except Failure (Encoder κ)

namespace Leaf

def kind : Leaf → Kind
  | .void => .void
  | .boolean => .boolean
  | .byte => .byte
  | .short => .short
  | .int => .int
  | .long => .long
  | .float => .float
  | .double => .double
  | .string => .string
  | .bytes _ => .bytes
  | .decimal .. => .decimal
  | .date => .date
  | .time _ => .time
  | .timestamp .. => .timestamp
  | .generic _ => .generic

/-- The configuration that an envelope records. -/
def config : Leaf → Config
  | .bytes (some length) => Config.empty.insert "length" (.ofUInt64 length)
  | .decimal precision scale =>
    (Config.empty.insert "precision" (.ofUInt32 precision)).insert "scale" (.ofUInt32 scale)
  | .time precision => Config.empty.insert "precision" (.ofUInt32 precision)
  | .timestamp precision zoned =>
    (Config.empty.insert "precision" (.ofUInt32 precision)).insert "zoned" (.bool zoned)
  | .generic typeName => Config.empty.insert "type_name" (.str typeName)
  | _ => Config.empty

end Leaf

namespace Encoder

variable {κ : Type}

instance : Inhabited (Encoder κ) := ⟨.leaf .void⟩

/-! ## Selection -/

mutual

/-- The encoder for a runtime representation. -/
def ofDescriptor : Descriptor → Encoder κ
  | .leaf l => .leaf l
  | .array e => .array (ofDescriptor e)
  | .map k v => .map (ofDescriptor k) (ofDescriptor v)
  | .row fs => .row (fs.map Prod.fst) (ofFields fs)
  | .nullable d => .nullable (ofDescriptor d)

def ofFields : List (String × Descriptor) → List (Encoder κ)
  | [] => []
  | (_, d) :: fs => ofDescriptor d :: ofFields fs

end

/-- The encoder for a logical type. -/
def ofLogical (t : LogicalType) : Encoder κ := ofDescriptor (.ofLogical t)

/-- A row from its fields. -/
def ofRow (fields : List (String × Encoder κ)) : Encoder κ :=
  .row (fields.map Prod.fst) (fields.map Prod.snd)

/-! ## Description -/

/-- The built-in kind of an encoder, none for a custom one. -/
def kind? : Encoder κ → Option Kind
  | .leaf l => some l.kind
  | .array _ => some .array
  | .map .. => some .map
  | .row .. => some .row
  | .nullable _ => some .nullable
  | .either .. => some .either
  | .custom .. => none

/-- The nested encoders, in order. -/
def nested : Encoder κ → List (Encoder κ)
  | .leaf _ => []
  | .array e => [e]
  | .map k v => [k, v]
  | .row _ fs => fs
  | .nullable e => [e]
  | .either l r => [l, r]
  | .custom _ es => es

section
variable [CustomKind κ]

def id : Encoder κ → String
  | .custom k _ => CustomKind.id k
  | .leaf l => l.kind.id
  | .array _ => Kind.array.id
  | .map .. => Kind.map.id
  | .row .. => Kind.row.id
  | .nullable _ => Kind.nullable.id
  | .either .. => Kind.either.id

def version : Encoder κ → UInt32
  | .custom k _ => CustomKind.version k
  | .leaf l => l.kind.version
  | _ => 1

def config : Encoder κ → Config
  | .custom k _ => CustomKind.config k
  | .leaf l => l.config
  | .row names _ => Config.empty.insert "field_names" (.ofStrings names)
  | _ => Config.empty

mutual

/-- The envelope of an encoder. -/
def snapshot : Encoder κ → Envelope
  | .leaf l => .mk l.kind.id l.kind.version l.config []
  | .array e => .mk Kind.array.id 1 .empty [e.snapshot]
  | .map k v => .mk Kind.map.id 1 .empty [k.snapshot, v.snapshot]
  | .row names fs =>
    .mk Kind.row.id 1 (Config.empty.insert "field_names" (.ofStrings names)) (snapshotAll fs)
  | .nullable e => .mk Kind.nullable.id 1 .empty [e.snapshot]
  | .either l r => .mk Kind.either.id 1 .empty [l.snapshot, r.snapshot]
  | .custom k es =>
    .mk (CustomKind.id k) (CustomKind.version k) (CustomKind.config k) (snapshotAll es)

def snapshotAll : List (Encoder κ) → List Envelope
  | [] => []
  | e :: es => e.snapshot :: snapshotAll es

end

@[simp] theorem snapshotAll_eq_map (es : List (Encoder κ)) : snapshotAll es = es.map snapshot := by
  induction es with
  | nil => rfl
  | cons e es ih => simp [snapshotAll, ih]

/-- An envelope holds the id, the version and the configuration of an encoder, and the
envelopes of the nested ones. -/
theorem snapshot_eq (e : Encoder κ) :
    e.snapshot = .mk e.id e.version e.config (e.nested.map snapshot) := by
  cases e <;> simp [snapshot, id, version, config, nested]

@[simp] theorem id_snapshot (e : Encoder κ) : e.snapshot.id = e.id := by
  rw [snapshot_eq]
  rfl

@[simp] theorem version_snapshot (e : Encoder κ) : e.snapshot.version = e.version := by
  rw [snapshot_eq]
  rfl

@[simp] theorem config_snapshot (e : Encoder κ) : e.snapshot.config = e.config := by
  rw [snapshot_eq]
  rfl

@[simp] theorem nested_snapshot (e : Encoder κ) : e.snapshot.nested = e.nested.map snapshot := by
  rw [snapshot_eq]
  rfl

mutual

/-- Equality of encoders; custom ones are equal when their envelopes are. -/
def same : Encoder κ → Encoder κ → Bool
  | .leaf l, .leaf m => l = m
  | .array e, .array f => e.same f
  | .map k v, .map l w => k.same l && v.same w
  | .row ns fs, .row ms gs => ns = ms && sameAll fs gs
  | .nullable e, .nullable f => e.same f
  | .either l r, .either m s => l.same m && r.same s
  | .custom k es, .custom l fs =>
    (custom k es).snapshot.same (custom l fs).snapshot
  | _, _ => false

def sameAll : List (Encoder κ) → List (Encoder κ) → Bool
  | [], [] => true
  | e :: es, f :: fs => e.same f && sameAll es fs
  | _, _ => false

end

end

/-! ## Assembly -/

/-- The same shape around other nested encoders, if there are as many as it takes. -/
def rebuild [CustomKind κ] (e : Encoder κ) (nested : List (Encoder κ)) :
    Except Failure (Encoder κ) :=
  match e, nested with
  | .custom k _, es => CustomKind.rebuild k es
  | .array _, [e] => .ok (.array e)
  | .map .., [k, v] => .ok (.map k v)
  | .nullable _, [e] => .ok (.nullable e)
  | .either .., [l, r] => .ok (.either l r)
  | .row names _, es =>
    if es.length = names.length then .ok (.row names es)
    else .error (.invalidType (.nestedCount Kind.row.id names.length es.length))
  | .leaf l, [] => .ok (.leaf l)
  | .array _, es => .error (.invalidType (.nestedCount Kind.array.id 1 es.length))
  | .map .., es => .error (.invalidType (.nestedCount Kind.map.id 2 es.length))
  | .nullable _, es => .error (.invalidType (.nestedCount Kind.nullable.id 1 es.length))
  | .either .., es => .error (.invalidType (.nestedCount Kind.either.id 2 es.length))
  | .leaf l, es => .error (.invalidType (.nestedCount l.kind.id 0 es.length))

end Encoder
end Restorable
