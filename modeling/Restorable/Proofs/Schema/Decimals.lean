-- SUMMARY: Which digits the objects of decimals are read with, and which objects are refused.
import Restorable.Proofs.Logical.Convertible

/-!
# Digits of decimals

The precision of a decimal has to be written as a positive integer of 32 bits. The scale may be
left out, and is then zero. A scale that is written as anything but a natural number counts as
left out, so the digits that are read are the written ones exactly when the scale is a number
or is not there.
-/
namespace Restorable

/-! ## Numbers as they are written -/

namespace Json

/-- A value is read as a natural number exactly when it is that number. -/
theorem uint64?_eq_some_iff {v : Json} {n : UInt64} : v.uint64? = some n ↔ v = .ofUInt64 n := by
  constructor
  · intro h
    unfold uint64? at h
    split at h
    · rename_i m
      unfold Integer.toUInt64? at h
      split at h
      · rename_i hnonneg
        obtain rfl := Option.some.inj h
        obtain ⟨val, lower, upper⟩ := m
        have hval : ((UInt64.ofNat val.toNat).toNat : Int) = val := by
          have hlt : val.toNat < 18446744073709551616 := by omega
          rw [UInt64.toNat_ofNat_of_lt' hlt]
          exact Int.toNat_of_nonneg hnonneg
        simp only [ofUInt64, Integer.ofUInt64, hval]
      · cases h
    · cases h
  · rintro rfl
    exact uint64?_ofUInt64 n

theorem ofUInt32_inj {m n : UInt32} (h : ofUInt32 m = ofUInt32 n) : m = n := by
  have hread := congrArg uint32? h
  rwa [uint32?_ofUInt32, uint32?_ofUInt32, Option.some.injEq] at hread

@[simp] theorem ofUInt64_toUInt64 (n : UInt32) : ofUInt64 n.toUInt64 = ofUInt32 n := by
  simp only [ofUInt64, ofUInt32, Integer.ofUInt64, Integer.ofUInt32, UInt32.toNat_toUInt64]

end Json

namespace Schema

open Steps

variable {attrs : List (String × Json)} {precision scale : UInt32}

/-! ## Digits that are read -/

/-- The scale of a decimal as the reader takes it. -/
def scaleOf (attrs : List (String × Json)) : UInt64 :=
  ((Json.find? "scale" attrs).bind Json.uint64?).getD 0

/-- The digits that the reader takes from the attributes of a decimal. -/
structure HasDigits (attrs : List (String × Json)) (precision scale : UInt32) : Prop where
  precision_eq : Json.find? "precision" attrs = some (.ofUInt32 precision)
  pos : 0 < precision
  scale_eq : scaleOf attrs = scale.toUInt64
  le : scale ≤ precision

/-- A precision of 64 bits that is positive, in range and no less than the scale. -/
private theorem hasDigits_of_checks {digits : UInt64}
    (hprecision : (Json.find? "precision" attrs).bind Json.uint64? = some digits)
    (hpos : digits ≠ 0) (hle : ¬ digits < scaleOf attrs) (hrange : digits < 4294967296) :
    HasDigits attrs digits.toUInt32 (scaleOf attrs).toUInt32 := by
  rw [UInt64.lt_iff_toNat_lt] at hle hrange
  have hlarge : (4294967296 : UInt64).toNat = 4294967296 := rfl
  have hwide : ∀ n : UInt64, n.toNat < 4294967296 → n.toUInt32.toUInt64 = n := by
    intro n hn
    rw [← UInt64.toNat_inj, UInt32.toNat_toUInt64, UInt64.toNat_toUInt32]
    exact Nat.mod_eq_of_lt hn
  have hzero : 0 < digits.toNat := Nat.pos_of_ne_zero fun h => hpos (UInt64.toNat_inj.1 h)
  refine ⟨?_, ?_, (hwide _ (by omega)).symm, ?_⟩
  · obtain ⟨v, hv, hdigits⟩ := Option.bind_eq_some_iff.1 hprecision
    rw [hv, Json.uint64?_eq_some_iff.1 hdigits, ← Json.ofUInt64_toUInt64, hwide _ (by omega)]
  · rw [UInt32.lt_iff_toNat_lt, UInt64.toNat_toUInt32, UInt32.toNat_zero]
    omega
  · rw [UInt32.le_iff_toNat_le, UInt64.toNat_toUInt32, UInt64.toNat_toUInt32]
    omega

/-- The annotation of a decimal is read exactly where it has digits. -/
private theorem readRefinement_decimal {a : Option Refinement}
    (hlogical : Json.find? "logicalType" attrs = some (.str "decimal")) :
    readRefinement attrs = .ok a ↔
      ∃ precision scale, a = some (.decimal precision scale) ∧ HasDigits attrs precision scale := by
  have hread : ∀ digits, (Json.find? "precision" attrs).bind Json.uint64? = some digits →
      readRefinement attrs =
        if digits = 0 then .error .precisionNotPositive
        else if digits < scaleOf attrs then .error (.scaleAbovePrecision (scaleOf attrs) digits)
        else if digits < 4294967296 then
          .ok (some (.decimal digits.toUInt32 (scaleOf attrs).toUInt32))
        else .error (.precisionOutOfRange digits) := by
    intro digits hdigits
    simp only [readRefinement, hlogical, Option.bind_some, Json.str?, hdigits]
    rfl
  constructor
  · intro h
    cases hprecision : (Json.find? "precision" attrs).bind Json.uint64? with
    | none =>
      simp only [readRefinement, hlogical, Option.bind_some, Json.str?, hprecision] at h
      cases h
    | some digits =>
      rw [hread digits hprecision] at h
      split at h
      · cases h
      · split at h
        · cases h
        · split at h
          · cases h
            exact ⟨_, _, rfl, hasDigits_of_checks hprecision ‹_› ‹_› ‹_›⟩
          · cases h
  · rintro ⟨precision, scale, rfl, hdigits⟩
    have hprecision : (Json.find? "precision" attrs).bind Json.uint64? = some precision.toUInt64 := by
      rw [hdigits.precision_eq]
      exact Json.uint64?_ofUInt32 precision
    have hzero : precision.toUInt64 ≠ 0 := by
      intro h
      have hpos := hdigits.pos
      rw [(@UInt32.toUInt64_inj precision 0).1 h] at hpos
      exact absurd hpos (by decide)
    have hle : ¬ precision.toUInt64 < scale.toUInt64 := by
      rw [UInt64.lt_iff_toNat_lt, UInt32.toNat_toUInt64, UInt32.toNat_toUInt64]
      exact Nat.not_lt.2 (UInt32.le_iff_toNat_le.1 hdigits.le)
    have hrange : precision.toUInt64 < 4294967296 := by
      rw [UInt64.lt_iff_toNat_lt, UInt32.toNat_toUInt64]
      exact precision.toNat_lt
    rw [hread _ hprecision, hdigits.scale_eq, if_neg hzero, if_neg hle, if_pos hrange,
      UInt32.toUInt32_toUInt64, UInt32.toUInt32_toUInt64]

/-! ## Digits that are written -/

/-- The attributes say the digits of a decimal: the precision is a positive integer, and the
scale one that is no greater, or it is left out and zero. -/
structure WritesDigits (attrs : List (String × Json)) (precision scale : UInt32) : Prop where
  precision_eq : Json.find? "precision" attrs = some (.ofUInt32 precision)
  pos : 0 < precision
  scale_eq : (Json.find? "scale" attrs = none ∧ scale = 0) ∨
    Json.find? "scale" attrs = some (.ofUInt32 scale)
  le : scale ≤ precision

/-- The scale is a natural number of 64 bits, or is left out. -/
def ScaleIsNumber (attrs : List (String × Json)) : Prop :=
  ∀ v, Json.find? "scale" attrs = some v → ∃ n, v = .ofUInt64 n

private theorem WritesDigits.scaleIsNumber (h : WritesDigits attrs precision scale) :
    ScaleIsNumber attrs := by
  intro v hv
  rcases h.scale_eq with ⟨hnone, -⟩ | hsome
  · rw [hnone] at hv
    cases hv
  · rw [hsome] at hv
    cases hv
    exact ⟨scale.toUInt64, (Json.ofUInt64_toUInt64 scale).symm⟩

/-- Where the scale is a number or is left out, the digits that are read are written. -/
private theorem HasDigits.writesDigits (h : HasDigits attrs precision scale)
    (hs : ScaleIsNumber attrs) :
    WritesDigits attrs precision scale := by
  refine ⟨h.precision_eq, h.pos, ?_, h.le⟩
  have hscale := h.scale_eq
  unfold scaleOf at hscale
  cases hv : Json.find? "scale" attrs with
  | none =>
    rw [hv] at hscale
    exact .inl ⟨rfl, ((@UInt32.toUInt64_inj 0 scale).1 hscale).symm⟩
  | some v =>
    obtain ⟨n, rfl⟩ := hs v hv
    rw [hv, Option.bind_some, Json.uint64?_ofUInt64, Option.getD_some] at hscale
    rw [hscale, Json.ofUInt64_toUInt64]
    exact .inr rfl

/-- Any other scale is read as zero. -/
private theorem HasDigits.scale_eq_zero (h : HasDigits attrs precision scale)
    (hs : ¬ ScaleIsNumber attrs) :
    scale = 0 := by
  have hnone : (Json.find? "scale" attrs).bind Json.uint64? = none := by
    rw [Option.eq_none_iff_forall_not_mem]
    intro n hn
    obtain ⟨v, hv, hnumber⟩ := Option.bind_eq_some_iff.1 hn
    apply hs
    intro w hw
    rw [hv] at hw
    cases hw
    exact ⟨n, Json.uint64?_eq_some_iff.1 hnumber⟩
  have hscale := h.scale_eq
  rw [scaleOf, hnone] at hscale
  exact ((@UInt32.toUInt64_inj 0 scale).1 hscale).symm

/-! ## Objects of decimals -/

variable {word : String} {space : Option String} {scope : Scope}

/-- An object is refused when its annotation is. -/
private theorem read_of_refused {fault : SchemaFault}
    (htype : Json.find? "type" attrs = some (.str word)) (h : readRefinement attrs = .error fault) :
    read (.obj attrs) space scope = .error fault := by
  rw [read_obj, htype, h]
  rfl

/-- The type of a decimal object carries the digits that its attributes have. -/
private theorem hasDigits_of_read {s : Schema} {scope' : Scope}
    (hword : word = "bytes" ∨ word = "fixed") (htype : Json.find? "type" attrs = some (.str word))
    (hlogical : Json.find? "logicalType" attrs = some (.str "decimal"))
    (h : read (.obj attrs) space scope = .ok (s, scope')) :
    ∃ precision scale, s.refinement? = some (.decimal precision scale) ∧
      HasDigits attrs precision scale := by
  rw [read_obj, htype] at h
  obtain ⟨a, scope₁, hlift, h⟩ := bind_eq_ok.1 h
  obtain ⟨ha, rfl⟩ := lift_eq_ok.1 hlift
  obtain ⟨precision, scale, rfl, hdigits⟩ := (readRefinement_decimal hlogical).1 ha
  refine ⟨precision, scale, ?_, hdigits⟩
  rcases hword with rfl | rfl
  · obtain ⟨rfl, -⟩ := pure_eq_ok.1 h
    rfl
  · obtain ⟨n, size, -, -, -, h⟩ := readFixed_eq_ok h
    obtain ⟨-, rfl, -⟩ := register_eq_ok.1 h
    rfl

/-- The object of a decimal is refused unless its precision is a positive integer of 32 bits, and
what it is read with is what it says exactly when its scale is a number or is left out. Then it
is refused whenever it says no digits; any other scale counts as zero. -/
theorem read_decimal_iff (word : String) (attrs : List (String × Json)) (space : Option String)
    (scope : Scope) (hword : word = "bytes" ∨ word = "fixed")
    (htype : Json.find? "type" attrs = some (.str word))
    (hlogical : Json.find? "logicalType" attrs = some (.str "decimal")) :
    (∀ s scope', read (.obj attrs) space scope = .ok (s, scope') →
      ∃ precision scale, s.refinement? = some (.decimal precision scale) ∧
        Json.find? "precision" attrs = some (.ofUInt32 precision) ∧ 0 < precision ∧
        (WritesDigits attrs precision scale ↔ ScaleIsNumber attrs) ∧
        (¬ ScaleIsNumber attrs → scale = 0)) ∧
      ((¬ ∃ precision, Json.find? "precision" attrs = some (.ofUInt32 precision) ∧ 0 < precision) →
        ∃ fault, read (.obj attrs) space scope = .error fault) ∧
      (ScaleIsNumber attrs → (¬ ∃ precision scale, WritesDigits attrs precision scale) →
        ∃ fault, read (.obj attrs) space scope = .error fault) := by
  have hrefused : (¬ ∃ precision scale, HasDigits attrs precision scale) →
      ∃ fault, read (.obj attrs) space scope = .error fault := by
    intro hnone
    cases hread : readRefinement attrs with
    | error fault => exact ⟨fault, read_of_refused htype hread⟩
    | ok a =>
      obtain ⟨precision, scale, -, hdigits⟩ := (readRefinement_decimal hlogical).1 hread
      exact absurd ⟨precision, scale, hdigits⟩ hnone
  refine ⟨?_, ?_, ?_⟩
  · intro s scope' h
    obtain ⟨precision, scale, hs, hdigits⟩ := hasDigits_of_read hword htype hlogical h
    exact ⟨precision, scale, hs, hdigits.precision_eq, hdigits.pos,
      ⟨WritesDigits.scaleIsNumber, hdigits.writesDigits⟩, hdigits.scale_eq_zero⟩
  · intro hnone
    apply hrefused
    rintro ⟨precision, scale, hdigits⟩
    exact hnone ⟨precision, hdigits.precision_eq, hdigits.pos⟩
  · intro hs hnone
    apply hrefused
    rintro ⟨precision, scale, hdigits⟩
    exact hnone ⟨precision, scale, hdigits.writesDigits hs⟩

/-- A decimal with a scale that is a number, and one whose scale exceeds its precision. -/
theorem read_decimal_iff_amount :
    let amount : UInt32 → List (String × Json) := fun scale =>
      [("type", .str "bytes"), ("logicalType", .str "decimal"), ("precision", .ofUInt32 12),
        ("scale", .ofUInt32 scale)]
    (∃ s scope', read (.obj (amount 2)) (some "shop") .empty = .ok (s, scope') ∧
      s.refinement? = some (.decimal 12 2) ∧ WritesDigits (amount 2) 12 2) ∧
      ∃ fault, read (.obj (amount 13)) (some "shop") .empty = .error fault := by
  intro amount
  have hscale : ∀ scale, ScaleIsNumber (amount scale) := by
    rintro scale v hv
    cases hv
    exact ⟨scale.toUInt64, (Json.ofUInt64_toUInt64 scale).symm⟩
  have hall := fun scale =>
    read_decimal_iff "bytes" (amount scale) (some "shop") .empty (.inl rfl) rfl rfl
  constructor
  · have hread : read (.obj (amount 2)) (some "shop") .empty =
        .ok (.bytes (some (.decimal 12 2)), .empty) := rfl
    obtain ⟨precision, scale, hs, -, -, hwrites, -⟩ := (hall 2).1 _ _ hread
    cases hs
    exact ⟨_, _, hread, rfl, hwrites.2 (hscale 2)⟩
  · apply (hall 13).2.2 (hscale 13)
    rintro ⟨precision, scale, hwrites⟩
    have hprecision : 12 = precision := Json.ofUInt32_inj (Option.some.inj hwrites.precision_eq)
    have hle := hwrites.le
    rcases hwrites.scale_eq with ⟨hnone, -⟩ | hsome
    · cases hnone
    · rw [← hprecision, ← Json.ofUInt32_inj (Option.some.inj hsome)] at hle
      exact absurd hle (by decide)

/-- A scale that is written as a text is read as zero. -/
theorem read_decimal_text_scale :
    let attrs : List (String × Json) := [("type", .str "bytes"), ("logicalType", .str "decimal"),
      ("precision", .ofUInt32 9), ("scale", .str "2")]
    ofJson? (.obj attrs) = .ok (.bytes (some (.decimal 9 0))) ∧
      ¬ ∀ (attrs : List (String × Json)) (s : Schema),
        Json.find? "type" attrs = some (.str "bytes") →
          Json.find? "logicalType" attrs = some (.str "decimal") →
            ofJson? (.obj attrs) = .ok s →
              ∃ precision scale, s.refinement? = some (.decimal precision scale) ∧
                WritesDigits attrs precision scale := by
  intro attrs
  have hread : ofJson? (.obj attrs) = .ok (.bytes (some (.decimal 9 0))) := rfl
  refine ⟨hread, fun hall => ?_⟩
  obtain ⟨precision, scale, -, hwrites⟩ := hall attrs _ rfl rfl hread
  rcases hwrites.scale_eq with ⟨hnone, -⟩ | hsome
  · cases hnone
  · cases hsome

end Schema
end Restorable
