-- SUMMARY: Two logical types leave the same snapshot exactly when they are held in the same way.
import Restorable.Proofs.Encoder.Recorded
import Restorable.Proofs.Json.Normal
import Restorable.Proofs.Restore.Evolution
import Restorable.Proofs.Snapshot.Envelope

/-!
# Snapshots tell types apart

A snapshot says everything of its encoder, an encoder everything of the runtime
representation that it was chosen for, and a representation everything of the logical type
apart from two things: a multiset is held as a map from elements to counts, and null is
nullable whatever its flag says. `LogicalType.held` removes exactly these two, so equal
snapshots mean equal types after it.
-/
namespace Restorable

/-! ## Types as they are held -/

namespace LogicalType

mutual

/-- The type with the maps that hold its multisets, and with null nullable. -/
def held : LogicalType → LogicalType
  | .scalar n k => (LogicalType.scalar n k).withNullability n
  | .array n e => .array n e.held
  | .map n k v => .map n k.held v.held
  | .multiset n e => .map n e.held .int
  | .row n fs => .row n (heldFields fs)

def heldFields : List (RowField LogicalType) → List (RowField LogicalType)
  | [] => []
  | ⟨name, t⟩ :: fs => ⟨name, t.held⟩ :: heldFields fs

end

private theorem isNull_scalar (n : Bool) (k : Scalar) :
    (LogicalType.scalar n k).isNull = decide (k = .null) := by
  cases k <;> rfl

@[simp] theorem held_null (n : Bool) : (LogicalType.scalar n .null).held = .scalar true .null :=
  congrArg (LogicalType.scalar · .null) (Bool.or_true n)

private theorem held_scalar (n : Bool) {k : Scalar} (h : k ≠ .null) :
    (LogicalType.scalar n k).held = .scalar n k := by
  rw [held, withNullability, isNull_scalar, decide_eq_false h, Bool.or_false, setNullable]

private theorem ofScalar_of_ne {k : Scalar} (h : k ≠ .null) : ofScalar k = .scalar false k := by
  rw [ofScalar, notNull, withNullability, isNull_scalar, decide_eq_false h, Bool.or_false,
    setNullable]

end LogicalType

/-! ## Representations -/

/-- The scalar kind that a leaf represents. -/
def Leaf.scalar : Leaf → Scalar
  | .void => .null
  | .boolean => .boolean
  | .byte => .integer .tiny
  | .short => .integer .small
  | .int => .integer .int
  | .long => .integer .big
  | .float => .float
  | .double => .double
  | .string => .string
  | .bytes length => .binary length
  | .decimal precision scale => .decimal precision scale
  | .date => .date
  | .time precision => .time precision
  | .timestamp precision zoned => .timestamp precision zoned
  | .generic typeName => .raw typeName

@[simp] theorem Scalar.scalar_leaf (k : Scalar) : k.leaf.scalar = k := by
  cases k with
  | integer width => cases width <;> rfl
  | _ => rfl

namespace Descriptor

mutual

/-- The type without multisets that is represented. -/
def logical : Descriptor → LogicalType
  | .leaf l => .ofScalar l.scalar
  | .array d => .array false d.logical
  | .map k v => .map false k.logical v.logical
  | .row fs => .row false (logicalFields fs)
  | .nullable d => d.logical.setNullable true

def logicalFields : List (String × Descriptor) → List (RowField LogicalType)
  | [] => []
  | (name, d) :: fs => ⟨name, d.logical⟩ :: logicalFields fs

end

private theorem ofLogical_scalar (n : Bool) {k : Scalar} (h : k ≠ .null) :
    ofLogical (.scalar n k) = (leaf k.leaf).orAbsent n := by
  cases k with
  | null => exact absurd rfl h
  | _ => rfl

/-- Admitting absent values sets the flag. -/
private theorem logical_orAbsent {d : Descriptor} (n : Bool) (h : d.logical.isNullable = false) :
    (d.orAbsent n).logical = d.logical.setNullable n := by
  cases n with
  | true => rfl
  | false =>
    change d.logical = d.logical.setNullable false
    cases ht : d.logical with
    | scalar m k | array m e | map m k v | multiset m e | row m fs =>
      rw [ht] at h
      cases h
      rfl

mutual

/-- The representation of a type represents it as it is held. -/
@[simp] theorem logical_ofLogical : (t : LogicalType) → (ofLogical t).logical = t.held
  | .scalar n k => by
    by_cases hk : k = .null
    · subst hk
      rw [LogicalType.held_null]
      rfl
    · have hleaf : (leaf k.leaf).logical = .scalar false k := by
        rw [logical, Scalar.scalar_leaf, LogicalType.ofScalar_of_ne hk]
      rw [ofLogical_scalar n hk, logical_orAbsent n (congrArg LogicalType.isNullable hleaf), hleaf,
        LogicalType.held_scalar n hk]
      rfl
  | .array n e => by
    rw [ofLogical, logical_orAbsent n rfl, logical, logical_ofLogical e]
    rfl
  | .map n k v => by
    rw [ofLogical, logical_orAbsent n rfl, logical, logical_ofLogical k, logical_ofLogical v]
    rfl
  | .multiset n e => by
    rw [ofLogical, logical_orAbsent n rfl, logical, logical_ofLogical e]
    rfl
  | .row n fs => by
    rw [ofLogical, logical_orAbsent n rfl, logical, logicalFields_ofFields fs]
    rfl

@[simp] theorem logicalFields_ofFields : (fs : List (RowField LogicalType)) →
    logicalFields (ofFields fs) = LogicalType.heldFields fs
  | [] => rfl
  | ⟨name, t⟩ :: fs => by
    rw [ofFields, logicalFields, logical_ofLogical t, logicalFields_ofFields fs]
    rfl

end

mutual

/-- A type is represented as its held form is. -/
@[simp] theorem ofLogical_held : (t : LogicalType) → ofLogical t.held = ofLogical t
  | .scalar n k => by
    by_cases hk : k = .null
    · subst hk
      rw [LogicalType.held_null]
      rfl
    · rw [LogicalType.held_scalar n hk]
  | .array n e => by
    rw [LogicalType.held, ofLogical, ofLogical_held e, ofLogical]
  | .map n k v => by
    rw [LogicalType.held, ofLogical, ofLogical_held k, ofLogical_held v, ofLogical]
  | .multiset n e => by
    rw [LogicalType.held, ofLogical, ofLogical_held e]
    rfl
  | .row n fs => by
    rw [LogicalType.held, ofLogical, ofFields_heldFields fs, ofLogical]

@[simp] theorem ofFields_heldFields : (fs : List (RowField LogicalType)) →
    ofFields (LogicalType.heldFields fs) = ofFields fs
  | [] => rfl
  | ⟨name, t⟩ :: fs => by
    rw [LogicalType.heldFields, ofFields, ofLogical_held t, ofFields_heldFields fs, ofFields]

end

/-- Types with one representation are held in one way. -/
theorem ofLogical_eq_iff {s t : LogicalType} : ofLogical s = ofLogical t ↔ s.held = t.held := by
  constructor
  · intro h
    rw [← logical_ofLogical s, h, logical_ofLogical t]
  · intro h
    rw [← ofLogical_held s, h, ofLogical_held t]

end Descriptor

/-! ## Encoders of representations -/

namespace Encoder

variable {κ : Type}

mutual

/-- Different representations have different encoders. -/
theorem ofDescriptor_injective : (c d : Descriptor) →
    (ofDescriptor c : Encoder κ) = ofDescriptor d → c = d
  | .leaf l, d, h => by
    cases d with
    | leaf m => cases h; rfl
    | _ => cases h
  | .array c, d, h => by
    cases d with
    | array d =>
      injection h with h
      rw [ofDescriptor_injective c d h]
    | _ => cases h
  | .map k v, d, h => by
    cases d with
    | map k' v' =>
      injection h with hk hv
      rw [ofDescriptor_injective k k' hk, ofDescriptor_injective v v' hv]
    | _ => cases h
  | .row fs, d, h => by
    cases d with
    | row gs =>
      injection h with hnames hfields
      rw [ofFields_injective fs gs hnames hfields]
    | _ => cases h
  | .nullable c, d, h => by
    cases d with
    | nullable d =>
      injection h with h
      rw [ofDescriptor_injective c d h]
    | _ => cases h

theorem ofFields_injective : (fs gs : List (String × Descriptor)) →
    fs.map Prod.fst = gs.map Prod.fst →
    (ofFields fs : List (Encoder κ)) = ofFields gs → fs = gs
  | [], gs, hnames, _ => (List.map_eq_nil_iff.1 hnames.symm).symm
  | (name, c) :: fs, [], hnames, _ => nomatch hnames
  | (name, c) :: fs, (name', d) :: gs, hnames, h => by
    obtain ⟨hname, hnames⟩ := List.cons.inj hnames
    obtain ⟨hc, hfs⟩ := List.cons.inj h
    have hhead : name = name' := hname
    rw [hhead, ofDescriptor_injective c d hc, ofFields_injective fs gs hnames hfs]

end

end Encoder

/-! ## Configurations -/

/-- Two leaves of one kind with one configuration are equal. -/
theorem Leaf.eq_of_config {l m : Leaf} (hk : l.kind = m.kind) (h : l.config = m.config) :
    l = m := by
  have hlength : ∀ length : Option UInt64,
      ((Leaf.bytes length).config.get? "length").bind Json.uint64? = length := by
    intro length
    cases length with
    | none => rfl
    | some length =>
      simp [config]
  cases l with
  | bytes length =>
    cases m <;> cases hk
    rename_i length'
    rw [← hlength length, h, hlength length']
  | decimal precision scale =>
    cases m <;> cases hk
    rename_i precision' scale'
    have hprecision : precision = precision' := by
      simpa [config] using congrArg (Config.uint32? · "precision") h
    have hscale : scale = scale' := by
      simpa [config] using congrArg (Config.uint32? · "scale") h
    rw [hprecision, hscale]
  | time precision =>
    cases m <;> cases hk
    rename_i precision'
    have hprecision : precision = precision' := by
      simpa [config] using congrArg (Config.uint32? · "precision") h
    rw [hprecision]
  | timestamp precision zoned =>
    cases m <;> cases hk
    rename_i precision' zoned'
    have hprecision : precision = precision' := by
      simpa [config] using congrArg (Config.uint32? · "precision") h
    have hzoned : zoned = zoned' := by
      simpa [config] using congrArg (Config.bool? · "zoned") h
    rw [hprecision, hzoned]
  | generic typeName =>
    cases m <;> cases hk
    rename_i typeName'
    have hname : typeName = typeName' := by
      simpa [config] using congrArg (Config.str? · "type_name") h
    rw [hname]
  | _ =>
    cases m <;> cases hk
    rfl

namespace Encoder

variable {κ : Type}

private theorem kind?_ne_leaf {k : Kind} (hk : k ∈ compositeKinds) (l : Leaf) :
    some k ≠ (leaf l : Encoder κ).kind? :=
  fun h => (kind_ne_of_composite l hk).1 (Option.some.inj h).symm

variable [CustomKind κ] {a b : Encoder κ} {k : Kind}

/-- An encoder of a built-in kind is made up of its kind, its configuration and its parts. -/
private theorem eq_of_parts (hkind : a.kind? = b.kind?) (hbuiltIn : a.kind? = some k)
    (hconfig : a.config = b.config) (hnested : a.nested = b.nested) : a = b := by
  cases a with
  | leaf l =>
    cases b with
    | leaf m => rw [Leaf.eq_of_config (Option.some.inj hkind) hconfig]
    | custom => cases hkind
    | _ => exact absurd hkind.symm (kind?_ne_leaf (by decide) l)
  | row names es =>
    cases b with
    | row names' fs =>
      have hnames : names = names' := by
        simpa [config] using congrArg (Config.strings? · "field_names") hconfig
      have hfields : es = fs := hnested
      rw [hnames, hfields]
    | leaf m => exact absurd hkind (kind?_ne_leaf (by decide) m)
    | _ => cases hkind
  | array e =>
    cases b with
    | array f => cases hnested; rfl
    | leaf m => exact absurd hkind (kind?_ne_leaf (by decide) m)
    | _ => cases hkind
  | nullable e =>
    cases b with
    | nullable f => cases hnested; rfl
    | leaf m => exact absurd hkind (kind?_ne_leaf (by decide) m)
    | _ => cases hkind
  | map key value =>
    cases b with
    | map key' value' => cases hnested; rfl
    | leaf m => exact absurd hkind (kind?_ne_leaf (by decide) m)
    | _ => cases hkind
  | either left right =>
    cases b with
    | either left' right' => cases hnested; rfl
    | leaf m => exact absurd hkind (kind?_ne_leaf (by decide) m)
    | _ => cases hkind
  | custom => cases hbuiltIn

/-- Configurations of built-in kinds have no floats, so being the same is being equal. -/
private theorem normal_config (h : a.kind? = some k) :
    a.config.toJson.normal = a.config.toJson := by
  cases a with
  | leaf l =>
    cases l with
    | bytes length => cases length <;> rfl
    | _ => rfl
  | row names es =>
    have hitems : ∀ ss : List String, Json.normalItems (ss.map .str) = ss.map .str := by
      intro ss
      induction ss with
      | nil => rfl
      | cons s ss ih =>
        rw [List.map_cons, Json.normalItems, ih]
        rfl
    have hentries : (Config.empty.insert "field_names" (.ofStrings names)).toJson =
        .obj [("field_names", .arr (names.map .str))] := by
      change Json.obj [("field_names", .arr (Json.sortedItems (names.map .str)))] = _
      simp
    rw [config, hentries, Json.normal, Json.normalEntries, Json.normal, hitems, Json.normalEntries]
  | custom => cases h
  | _ => rfl

private theorem eq_of_same_config (ha : a.kind? = some k) (hb : b.kind? = some k)
    (h : a.config.same b.config = true) : a.config = b.config := by
  have hnormal : a.config.toJson.normal = b.config.toJson.normal :=
    (Json.same_iff_normal a.config.toJson b.config.toJson).1 h
  rw [normal_config ha, normal_config hb] at hnormal
  exact Config.ext (Json.obj.inj hnormal)

/-! ## Snapshots -/

theorem eq_of_same_snapshots {es fs : List (Encoder κ)}
    (h : ∀ e ∈ es, ∀ f ∈ fs, e.snapshot.same f.snapshot = true → e = f)
    (hall : Envelope.sameAll (es.map snapshot) (fs.map snapshot) = true) : es = fs := by
  induction es generalizing fs with
  | nil =>
    cases fs with
    | nil => rfl
    | cons f fs => cases hall
  | cons e es ih =>
    cases fs with
    | nil => cases hall
    | cons f fs =>
      obtain ⟨hhead, htail⟩ := (Bool.and_eq_true _ _).mp hall
      have hes := ih (fun e he f hf => h e (List.mem_cons_of_mem _ he) f (List.mem_cons_of_mem _ hf))
        htail
      rw [h e List.mem_cons_self f List.mem_cons_self hhead, hes]

/-- Encoders of built-in kinds with the same snapshot are equal. -/
theorem eq_of_same_snapshot (ha : a.BuiltIn) :
    ∀ b : Encoder κ, b.BuiltIn → a.snapshot.same b.snapshot = true → a = b := by
  induction ha with
  | @node a k hk _ ih =>
    intro b hb h
    obtain @⟨_, l, hl, hnested⟩ := hb
    rw [snapshot_eq a, snapshot_eq b] at h
    simp only [Envelope.same, Bool.and_eq_true, decide_eq_true_eq] at h
    obtain ⟨⟨⟨hid, -⟩, hconfig⟩, hall⟩ := h
    have hkind : k = l := by
      apply Kind.id_injective
      rw [← id_of_kind hk, ← id_of_kind hl, hid]
    subst hkind
    have hparts : a.nested = b.nested :=
      eq_of_same_snapshots (fun e he f hf => ih e he f (hnested f hf)) hall
    exact eq_of_parts (hk.trans hl.symm) hk (eq_of_same_config hk hl hconfig) hparts

/-- The encoders of two logical types leave the same snapshot, and an equal one, exactly when
the types are equal as they are held. -/
theorem same_snapshot_ofLogical_iff (s t : LogicalType) :
    ((ofLogical s : Encoder κ).snapshot.same (ofLogical t : Encoder κ).snapshot = true ↔
        s.held = t.held) ∧
      ((ofLogical s : Encoder κ).snapshot = (ofLogical t : Encoder κ).snapshot ↔
        s.held = t.held) := by
  have hequal : s.held = t.held → (ofLogical s : Encoder κ) = ofLogical t := by
    intro h
    exact congrArg ofDescriptor (Descriptor.ofLogical_eq_iff.2 h)
  have hheld : (ofLogical s : Encoder κ).snapshot.same (ofLogical t : Encoder κ).snapshot = true →
      s.held = t.held := by
    intro h
    have hencoders : (ofLogical s : Encoder κ) = ofLogical t :=
      eq_of_same_snapshot (builtIn_ofDescriptor _) _ (builtIn_ofDescriptor _) h
    exact Descriptor.ofLogical_eq_iff.1 (ofDescriptor_injective _ _ hencoders)
  refine ⟨⟨hheld, ?_⟩, ?_, ?_⟩
  · intro h
    rw [hequal h]
    exact Envelope.same_refl _
  · intro h
    apply hheld
    rw [h]
    exact Envelope.same_refl _
  · intro h
    rw [hequal h]

end Encoder
end Restorable
