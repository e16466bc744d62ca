-- SUMMARY: When a built-in encoder may take the place of another, and how configurations tell.
import Restorable.Encoder.Compatibility
import Restorable.Proofs.Snapshot.Config

/-!
# Evolution of encoders

An encoder evolves into another of the same shape whose leaves are the same or wider:
integers and floats of more bits, decimals, times and timestamps of more digits. The
configuration that an encoder leaves in its envelope tells the comparison at one node
which of the three holds: the same, wider, or neither.
-/
namespace Restorable

/-! ## The relation -/

/-- A leaf may take the place of the same leaf, and of a narrower one. -/
inductive Leaf.Evolves : Leaf → Leaf → Prop
  | same (l : Leaf) : Evolves l l
  | byteShort : Evolves .byte .short
  | byteInt : Evolves .byte .int
  | byteLong : Evolves .byte .long
  | shortInt : Evolves .short .int
  | shortLong : Evolves .short .long
  | intLong : Evolves .int .long
  | floatDouble : Evolves .float .double
  | decimal {precision precision' : UInt32} (scale : UInt32) (h : precision ≤ precision') :
    Evolves (.decimal precision scale) (.decimal precision' scale)
  | time {precision precision' : UInt32} (h : precision ≤ precision') :
    Evolves (.time precision) (.time precision')
  | timestamp {precision precision' : UInt32} (zoned : Bool) (h : precision ≤ precision') :
    Evolves (.timestamp precision zoned) (.timestamp precision' zoned)

namespace Encoder

variable {κ : Type}

mutual

/-- The same tree of built-in encoders up to leaves that evolve. -/
def Evolves : Encoder κ → Encoder κ → Prop
  | .leaf l, .leaf m => l.Evolves m
  | .array e, .array f | .nullable e, .nullable f => e.Evolves f
  | .map k v, .map l w | .either k v, .either l w => k.Evolves l ∧ v.Evolves w
  | .row names es, .row names' fs => names = names' ∧ AllEvolve es fs
  | _, _ => False

/-- As many encoders, each evolving into the one in its place. -/
def AllEvolve : List (Encoder κ) → List (Encoder κ) → Prop
  | [], [] => True
  | e :: es, f :: fs => e.Evolves f ∧ AllEvolve es fs
  | _, _ => False

end

mutual

/-- No custom kinds, a name for every field of a row, and lengths of byte strings below
2^32, as configurations hold them. -/
def Regular : Encoder κ → Prop
  | .leaf (.bytes (some length)) => length < 4294967296
  | .leaf _ => True
  | .array e | .nullable e => e.Regular
  | .map k v | .either k v => k.Regular ∧ v.Regular
  | .row names es => names.length = es.length ∧ AllRegular es
  | .custom .. => False

def AllRegular : List (Encoder κ) → Prop
  | [] => True
  | e :: es => e.Regular ∧ AllRegular es

end

mutual

theorem evolves_refl : (e : Encoder κ) → e.Regular → e.Evolves e
  | .leaf l, _ => .same l
  | .array e, h | .nullable e, h => evolves_refl e h
  | .map k v, h | .either k v, h => ⟨evolves_refl k h.1, evolves_refl v h.2⟩
  | .row _ es, h => ⟨rfl, allEvolve_refl es h.2⟩
  | .custom .., h => h.elim

theorem allEvolve_refl : (es : List (Encoder κ)) → AllRegular es → AllEvolve es es
  | [], _ => trivial
  | e :: es, h => ⟨evolves_refl e h.1, allEvolve_refl es h.2⟩

end

end Encoder

/-! ## Three outcomes -/

/-- One of three outcomes: the same, evolved, or apart, each with its answer. -/
inductive Decides (same evolves asIs migrate refused : Prop) : Prop
  | same (h : same) (answer : asIs)
  | evolved (hne : ¬ same) (h : evolves) (answer : migrate)
  | apart (h : ¬ evolves) (answer : refused)

/-- What the comparison of configurations answers in the three cases. -/
abbrev DecidesConfig (same evolves : Prop) (verdict : ConfigVerdict) : Prop :=
  Decides same evolves (verdict = .asIs) (verdict = .migrate)
    (∃ reason, verdict = .incompatible reason)

/-- Values that may not change: the same, or apart. -/
private theorem decides_of_eq {α : Type} [DecidableEq α] (old new : α) (reason : Reason) :
    DecidesConfig (old = new) (old = new) (if old = new then .asIs else .incompatible reason) := by
  split
  next heq => exact .same heq rfl
  next hne => exact .apart hne ⟨reason, rfl⟩

/-- A guard in front of a comparison: where it does not hold, the two are apart. -/
private theorem decides_of_guard {guard same evolves : Prop} [Decidable guard]
    {verdict : ConfigVerdict} (reason : Reason) (h : DecidesConfig same evolves verdict) :
    DecidesConfig (guard ∧ same) (guard ∧ evolves)
      (if guard then verdict else .incompatible reason) := by
  split
  next hguard =>
    rw [and_iff_right hguard, and_iff_right hguard]
    exact h
  next hno => exact .apart (fun h => hno h.1) ⟨reason, rfl⟩

theorem decides_ofPrecision (kind : String) (old new : UInt32) :
    DecidesConfig (old = new) (old ≤ new) (.ofPrecision kind old new) := by
  unfold ConfigVerdict.ofPrecision
  split
  next heq => exact .same heq rfl
  next hne =>
    split
    next hlt => exact .evolved hne (UInt32.le_of_lt hlt) rfl
    next hnot =>
      refine .apart ?_ ⟨_, rfl⟩
      intro hle
      exact hne (UInt32.le_antisymm hle (UInt32.not_lt.1 hnot))

namespace Leaf

@[simp] theorem evolves_decimal {p s p' s' : UInt32} :
    Evolves (.decimal p s) (.decimal p' s') ↔ s = s' ∧ p ≤ p' := by
  constructor
  · intro h
    cases h with
    | same => exact ⟨rfl, UInt32.le_refl p⟩
    | decimal _ h => exact ⟨rfl, h⟩
  · rintro ⟨rfl, h⟩
    exact .decimal s h

@[simp] theorem evolves_time {p p' : UInt32} : Evolves (.time p) (.time p') ↔ p ≤ p' := by
  constructor
  · intro h
    cases h with
    | same => exact UInt32.le_refl p
    | time h => exact h
  · intro h
    exact .time h

@[simp] theorem evolves_timestamp {p p' : UInt32} {z z' : Bool} :
    Evolves (.timestamp p z) (.timestamp p' z') ↔ z = z' ∧ p ≤ p' := by
  constructor
  · intro h
    cases h with
    | same => exact ⟨rfl, UInt32.le_refl p⟩
    | timestamp _ h => exact ⟨rfl, h⟩
  · rintro ⟨rfl, h⟩
    exact .timestamp z h

@[simp] theorem evolves_bytes {length length' : Option UInt64} :
    Evolves (.bytes length) (.bytes length') ↔ length = length' := by
  constructor
  · intro h
    cases h with
    | same => rfl
  · rintro rfl
    exact .same _

@[simp] theorem evolves_generic {name name' : String} :
    Evolves (.generic name) (.generic name') ↔ name = name' := by
  constructor
  · intro h
    cases h with
    | same => rfl
  · rintro rfl
    exact .same _

/-- Between different kinds, evolution is the widening of kinds. -/
theorem evolves_iff_widens {l m : Leaf} (h : l.kind ≠ m.kind) :
    l.Evolves m ↔ m.kind.widens l.kind = true := by
  constructor
  · intro hev
    cases hev <;> first | rfl | exact absurd rfl h
  · intro hw
    cases l <;> cases m <;> first | (cases hw; done) | constructor

/-! ## Comparing leaves of one kind -/

private theorem resolve_decimal (p s p' s' : UInt32) :
    (Leaf.decimal p' s').resolve 2 (Leaf.decimal p s).config =
      if s = s' then .ofPrecision "decimal" p p' else .incompatible (.scaleChanged s s') := by
  have hp : (Leaf.decimal p s).config.uint32? "precision" = some p := by simp [config]
  have hs : (Leaf.decimal p s).config.uint32? "scale" = some s := by simp [config]
  have hversion : ¬ (2 : UInt32) < 2 := by decide
  simp only [resolve, hp, hs, if_neg hversion, ConfigVerdict.ofKey]

private theorem resolve_time (p p' : UInt32) :
    (Leaf.time p').resolve 1 (Leaf.time p).config = .ofPrecision "time" p p' := by
  have hp : (Leaf.time p).config.uint32? "precision" = some p := by simp [config]
  simp only [resolve, hp, ConfigVerdict.ofKey]

private theorem resolve_timestamp (p p' : UInt32) (z z' : Bool) :
    (Leaf.timestamp p' z').resolve 2 (Leaf.timestamp p z).config =
      if z = z' then .ofPrecision "timestamp" p p' else .incompatible (.zoneChanged z z') := by
  have hp : (Leaf.timestamp p z).config.uint32? "precision" = some p := by simp [config]
  have hz : (Leaf.timestamp p z).config.bool? "zoned" = some z := by simp [config]
  have hversion : ¬ (2 : UInt32) < 2 := by decide
  simp only [resolve, hp, hz, if_neg hversion, ConfigVerdict.ofKey]

/-- A length below 2^32 is read back from a configuration, and so is its absence. -/
private theorem length_config {length : Option UInt64} (h : ∀ n, length = some n → n < 4294967296) :
    ((Leaf.bytes length).config.uint32? "length").map UInt32.toUInt64 = length := by
  cases length with
  | none => rfl
  | some n =>
    have hn := h n rfl
    have hmod : n % 4294967296 = n := by
      apply UInt64.toNat_inj.1
      rw [UInt64.toNat_mod]
      exact Nat.mod_eq_of_lt (UInt64.lt_iff_toNat_lt.1 hn)
    simp [config, Config.uint32?, Json.uint32?_ofUInt64 hn, hmod]

private theorem resolve_bytes {length length' : Option UInt64}
    (h : ∀ n, length = some n → n < 4294967296) :
    (Leaf.bytes length').resolve 1 (Leaf.bytes length).config =
      if length = length' then .asIs else .incompatible (.lengthChanged length length') := by
  simp only [resolve, length_config h]

private theorem resolve_generic (name name' : String) :
    (Leaf.generic name').resolve 1 (Leaf.generic name).config =
      if name = name' then .asIs else .incompatible (.genericChanged (some name) name') := by
  have hname : (Leaf.generic name).config.str? "type_name" = some name := by simp [config]
  simp only [resolve, hname, Option.some.injEq]

/-- A leaf on the configuration of a leaf of its kind. -/
theorem decides_resolve {κ : Type} {l m : Leaf} (hk : l.kind = m.kind)
    (hl : (Encoder.leaf l : Encoder κ).Regular) :
    DecidesConfig (l = m) (l.Evolves m) (m.resolve l.kind.version l.config) := by
  cases m with
  | decimal p' s' =>
    cases l <;> cases hk
    rename_i p s
    rw [Leaf.decimal.injEq, and_comm, evolves_decimal]
    change DecidesConfig _ _ ((Leaf.decimal p' s').resolve 2 (Leaf.decimal p s).config)
    rw [resolve_decimal]
    exact decides_of_guard _ (decides_ofPrecision "decimal" p p')
  | time p' =>
    cases l <;> cases hk
    rename_i p
    rw [Leaf.time.injEq, evolves_time]
    change DecidesConfig _ _ ((Leaf.time p').resolve 1 (Leaf.time p).config)
    rw [resolve_time]
    exact decides_ofPrecision "time" p p'
  | timestamp p' z' =>
    cases l <;> cases hk
    rename_i p z
    rw [Leaf.timestamp.injEq, and_comm, evolves_timestamp]
    change DecidesConfig _ _ ((Leaf.timestamp p' z').resolve 2 (Leaf.timestamp p z).config)
    rw [resolve_timestamp]
    exact decides_of_guard _ (decides_ofPrecision "timestamp" p p')
  | bytes length' =>
    cases l <;> cases hk
    rename_i length
    have hlength : ∀ n, length = some n → n < 4294967296 := by
      rintro n rfl
      exact hl
    rw [Leaf.bytes.injEq, evolves_bytes]
    change DecidesConfig _ _ ((Leaf.bytes length').resolve 1 (Leaf.bytes length).config)
    rw [resolve_bytes hlength]
    exact decides_of_eq length length' _
  | generic name' =>
    cases l <;> cases hk
    rename_i name
    rw [Leaf.generic.injEq, evolves_generic]
    change DecidesConfig _ _ ((Leaf.generic name').resolve 1 (Leaf.generic name).config)
    rw [resolve_generic]
    exact decides_of_eq name name' _
  | _ => cases l <;> first | exact .same rfl rfl | cases hk

end Leaf
end Restorable
