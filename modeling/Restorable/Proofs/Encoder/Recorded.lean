-- SUMMARY: Encoders of built-in kinds only, and which encoder the envelope of one records.
import Restorable.Proofs.Encoder.Evolution

/-!
# What an envelope records of an encoder

The length of a byte string is written with 64 bits and read back with 32. An envelope
therefore records an encoder up to lengths of 2^32 and more, which read as if there were
no fixed length at all.
-/
namespace Restorable

/-! ## Leaves -/

/-- The leaf that a configuration records: a length is recorded below 2^32 only. -/
def Leaf.recorded : Leaf → Leaf
  | .bytes (some length) => if length < 4294967296 then .bytes (some length) else .bytes none
  | l => l

namespace Leaf

theorem recorded_of_lt {length : UInt64} (h : length < 4294967296) :
    (Leaf.bytes (some length)).recorded = .bytes (some length) :=
  if_pos h

theorem recorded_of_le {length : UInt64} (h : 4294967296 ≤ length) :
    (Leaf.bytes (some length)).recorded = .bytes none :=
  if_neg (UInt64.not_lt.2 h)

@[simp] theorem kind_recorded (l : Leaf) : l.recorded.kind = l.kind := by
  cases l with
  | bytes length =>
    cases length with
    | none => rfl
    | some length =>
      rcases UInt64.lt_or_le length 4294967296 with h | h
      · rw [recorded_of_lt h]
      · rw [recorded_of_le h]
        rfl
  | _ => rfl

/-- The recorded leaf and the leaf itself cannot be told apart by their configurations. -/
theorem resolve_recorded {l m : Leaf} (hk : l.kind = m.kind) :
    m.resolve l.recorded.kind.version l.recorded.config = m.resolve l.kind.version l.config := by
  cases l with
  | bytes length =>
    cases length with
    | none => rfl
    | some length =>
      rcases UInt64.lt_or_le length 4294967296 with h | h
      · rw [recorded_of_lt h]
      · rw [recorded_of_le h]
        have hnone : (Leaf.bytes (some length)).config.uint32? "length" = none := by
          simp [config, Config.uint32?, Json.uint32?_ofUInt64_of_le h]
        cases m <;> cases hk
        simp only [resolve, hnone]
        rfl
  | _ => rfl

end Leaf

namespace Encoder

variable {κ : Type}

/-! ## Built-in encoders -/

/-- No custom kinds, at any depth. -/
inductive BuiltIn : Encoder κ → Prop
  | node {e : Encoder κ} {k : Kind} (kind : e.kind? = some k)
    (nested : ∀ c ∈ e.nested, BuiltIn c) : BuiltIn e

/-- Every length of a byte string is below 2^32, at any depth. -/
inductive Short : Encoder κ → Prop
  | node {e : Encoder κ}
    (own : ∀ length, e = .leaf (.bytes (some length)) → length < 4294967296)
    (nested : ∀ c ∈ e.nested, Short c) : Short e

theorem Short.nested {e : Encoder κ} (h : e.Short) : ∀ c ∈ e.nested, c.Short := by
  cases h with
  | node own nested => exact nested

theorem short_leaf {l : Leaf} : (leaf l : Encoder κ).Short ↔ (leaf l : Encoder κ).Regular := by
  constructor
  · rintro ⟨own, -⟩
    cases l with
    | bytes length =>
      cases length with
      | none => trivial
      | some length => exact own length rfl
    | _ => trivial
  · intro h
    refine .node ?_ (fun c hc => nomatch hc)
    intro length heq
    cases heq
    exact h

/-! ## The recorded encoder -/

mutual

/-- The encoder that an envelope records. -/
def recorded : Encoder κ → Encoder κ
  | .leaf l => .leaf l.recorded
  | .array e => .array e.recorded
  | .map k v => .map k.recorded v.recorded
  | .row names es => .row names (recordedAll es)
  | .nullable e => .nullable e.recorded
  | .either l r => .either l.recorded r.recorded
  | .custom k es => .custom k es

def recordedAll : List (Encoder κ) → List (Encoder κ)
  | [] => []
  | e :: es => e.recorded :: recordedAll es

end

@[simp] theorem recordedAll_eq_map (es : List (Encoder κ)) : recordedAll es = es.map recorded := by
  induction es with
  | nil => rfl
  | cons e es ih => rw [recordedAll, ih, List.map_cons]

@[simp] theorem kind?_recorded (e : Encoder κ) : e.recorded.kind? = e.kind? := by
  cases e with
  | leaf l => simp [recorded, kind?]
  | _ => rfl

theorem nested_recorded {e : Encoder κ} {k : Kind} (h : e.kind? = some k) :
    e.recorded.nested = e.nested.map recorded := by
  cases e with
  | custom kind es => cases h
  | row names es => exact recordedAll_eq_map es
  | _ => rfl

/-- An encoder is recorded as it is exactly when its lengths are below 2^32. -/
theorem recorded_eq_self_iff {e : Encoder κ} (h : e.BuiltIn) : e.recorded = e ↔ e.Short := by
  induction h with
  | @node e k kind _ ih =>
    have hall : e.nested.map recorded = e.nested ↔ ∀ c ∈ e.nested, c.Short := by
      rw [← forall₂_congr ih, ← List.map_inj_left, List.map_id']
    constructor
    · intro heq
      refine .node ?_ (hall.1 ?_)
      · rintro length rfl
        rcases UInt64.lt_or_le length 4294967296 with hlt | hle
        · exact hlt
        · simp only [recorded, Leaf.recorded_of_le hle] at heq
          cases heq
      · rw [← nested_recorded kind, heq]
    · rintro ⟨own, nested⟩
      have hnested := hall.2 nested
      cases e with
      | leaf l =>
        have hl : l.recorded = l := by
          cases l with
          | bytes length =>
            cases length with
            | none => rfl
            | some length => exact Leaf.recorded_of_lt (own length rfl)
          | _ => rfl
        rw [recorded, hl]
      | row names es =>
        rw [recorded, recordedAll_eq_map]
        exact congrArg (row names) hnested
      | custom => cases kind
      | _ => simp_all [recorded, Encoder.nested]

/-! ## Encoders of runtime representations -/

mutual

theorem builtIn_ofDescriptor : (d : Descriptor) → (ofDescriptor d : Encoder κ).BuiltIn
  | .leaf _ => .node rfl (fun _ hc => nomatch hc)
  | .array d => .node rfl (List.forall_mem_singleton.2 (builtIn_ofDescriptor d))
  | .map k v => .node rfl (List.forall_mem_cons.2 ⟨builtIn_ofDescriptor k,
      List.forall_mem_singleton.2 (builtIn_ofDescriptor v)⟩)
  | .row fs => .node rfl (builtIn_ofFields fs)
  | .nullable d => .node rfl (List.forall_mem_singleton.2 (builtIn_ofDescriptor d))

theorem builtIn_ofFields : (fs : List (String × Descriptor)) →
    ∀ c ∈ (ofFields fs : List (Encoder κ)), c.BuiltIn
  | [] => fun _ hc => nomatch hc
  | (_, d) :: fs => List.forall_mem_cons.2 ⟨builtIn_ofDescriptor d, builtIn_ofFields fs⟩

end

@[simp] theorem length_ofFields (fs : List (String × Descriptor)) :
    (ofFields fs : List (Encoder κ)).length = fs.length := by
  induction fs with
  | nil => rfl
  | cons f fs ih => simp only [ofFields, List.length_cons, ih]

mutual

/-- What is recorded of such an encoder is regular. -/
theorem regular_recorded : (d : Descriptor) → (ofDescriptor d : Encoder κ).recorded.Regular
  | .leaf l => by
    cases l with
    | bytes length =>
      cases length with
      | none => trivial
      | some length =>
        rcases UInt64.lt_or_le length 4294967296 with h | h
        · simp only [ofDescriptor, recorded, Leaf.recorded_of_lt h]
          exact h
        · simp only [ofDescriptor, recorded, Leaf.recorded_of_le h]
          trivial
    | _ => trivial
  | .array d | .nullable d => regular_recorded d
  | .map k v => ⟨regular_recorded k, regular_recorded v⟩
  | .row fs => by
    refine ⟨?_, allRegular_recordedAll fs⟩
    simp

theorem allRegular_recordedAll : (fs : List (String × Descriptor)) →
    AllRegular (recordedAll (ofFields fs : List (Encoder κ)))
  | [] => trivial
  | (_, d) :: fs => ⟨regular_recorded d, allRegular_recordedAll fs⟩

end

end Encoder
end Restorable
