-- SUMMARY: The shortest decimal of a value lies in its rounding interval, and tells the value.
import Mathlib.Algebra.Order.Field.Rat
import Mathlib.Tactic.FieldSimp
import Mathlib.Tactic.Linarith
import Mathlib.Tactic.Positivity
import Mathlib.Tactic.Ring
import Restorable.Binary64.Shortest

/-!
# Shortest decimals

The decimal that is written for a value lies in the interval of the reals that round to the
value, as the grid of seventeen digits is finer than the interval is wide. The intervals of two
magnitudes meet in one point at most, and one of them leaves it out, so a decimal is the shortest
one of a single magnitude.
-/
namespace Restorable

/-- The number that a decimal writes. -/
def Decimal.value (d : Decimal) : ℚ := d.digits * 10 ^ d.exponent

/-- Zeros at the end of the digits are moved into the exponent. -/
@[simp] theorem Decimal.value_trim (fuel : Nat) (d : Decimal) : (d.trim fuel).value = d.value := by
  induction fuel generalizing d with
  | zero => rfl
  | succ fuel ih =>
    rw [trim]
    split
    next h =>
      have hdigits : d.digits = d.digits / 10 * 10 := by omega
      have hcast : (d.digits : ℚ) = (d.digits / 10 : Nat) * 10 := by exact_mod_cast hdigits
      rw [ih, value, value, hcast, zpow_add_one₀ (by norm_num)]
      ring
    next => rfl

namespace Binary64

/-! ## Grids -/

/-- How many quarters of a unit make one. -/
@[irreducible] def perOne : Nat := Nat.pow 2 1076

private theorem perOne_pos : 0 < perOne := by decide +kernel

private theorem gridStep_ofNat (k : Nat) : gridStep (.ofNat k) = (Nat.pow 10 k * perOne, 1) := by
  unfold perOne
  rfl

private theorem gridStep_negSucc (k : Nat) :
    gridStep (.negSucc k) = (perOne, Nat.pow 10 (k + 1)) := by
  unfold perOne
  rfl

private theorem gridStep_pos (exponent : Int) :
    0 < (gridStep exponent).1 ∧ 0 < (gridStep exponent).2 := by
  cases exponent with
  | ofNat k =>
    rw [gridStep_ofNat]
    exact ⟨Nat.mul_pos (Nat.pow_pos (by decide)) perOne_pos, Nat.one_pos⟩
  | negSucc k =>
    rw [gridStep_negSucc]
    exact ⟨perOne_pos, Nat.pow_pos (by decide)⟩

/-- The step of a grid is a power of ten, in quarters of a unit. -/
private theorem gridStep_div (exponent : Int) :
    ((gridStep exponent).1 : ℚ) / (gridStep exponent).2 = 10 ^ exponent * perOne := by
  cases exponent with
  | ofNat k =>
    rw [gridStep_ofNat]
    simp
  | negSucc k =>
    rw [gridStep_negSucc, zpow_negSucc, div_eq_inv_mul]
    simp

/-- The points of an interval, in quarters of a unit. -/
def Interval.Has (i : Interval) (q : ℚ) : Prop :=
  if i.closed then i.lower ≤ q ∧ q ≤ i.upper else i.lower < q ∧ q < i.upper

theorem Interval.contains_iff {i : Interval} {num den : Nat} (hden : 0 < den) :
    i.contains num den = true ↔ i.Has (num / den) := by
  have hcast : (0 : ℚ) < den := by exact_mod_cast hden
  unfold contains Has
  split
  · rw [Bool.and_eq_true, decide_eq_true_eq, decide_eq_true_eq, le_div_iff₀ hcast,
      div_le_iff₀ hcast]
    norm_cast
  · rw [Bool.and_eq_true, decide_eq_true_eq, decide_eq_true_eq, lt_div_iff₀ hcast,
      div_lt_iff₀ hcast]
    norm_cast

/-- What is found on a grid lies in the interval. -/
theorem Interval.has_onGrid {i : Interval} {exponent : Int} {d : Decimal}
    (h : i.onGrid? exponent = some d) : i.Has (d.value * perOne) := by
  obtain ⟨digits, rfl, hmem⟩ : ∃ digits, d = ⟨digits, exponent⟩ ∧
      i.contains (digits * (gridStep exponent).1) (gridStep exponent).2 = true := by
    simp only [onGrid?] at h
    split at h
    next hdown hup =>
      obtain rfl := Option.some.inj h
      refine ⟨_, rfl, ?_⟩
      split
      · exact hdown
      · exact hup
    next hdown _ => exact ⟨_, (Option.some.inj h).symm, hdown⟩
    next _ hup => exact ⟨_, (Option.some.inj h).symm, hup⟩
    next => cases h
  rw [contains_iff (gridStep_pos exponent).2, Nat.cast_mul, mul_div_assoc, gridStep_div,
    ← mul_assoc] at hmem
  exact hmem

/-- A grid with steps below the distance from the value to the upper end has a point between. -/
private theorem Interval.onGrid?_ne_none {i : Interval} {exponent : Int}
    (hlower : i.lower ≤ i.value) (hupper : (i.value : ℚ) + 10 ^ exponent * perOne < i.upper) :
    i.onGrid? exponent ≠ none := by
  obtain ⟨hnum, hden⟩ := gridStep_pos exponent
  set num := (gridStep exponent).1
  set den := (gridStep exponent).2
  have hdenq : (0 : ℚ) < den := by exact_mod_cast hden
  have hup : i.contains ((i.value * den / num + 1) * num) den = true := by
    have hmore : i.value * den < (i.value * den / num + 1) * num := by
      rw [Nat.mul_comm _ num]
      exact Nat.lt_mul_div_succ _ hnum
    have hless : (i.value * den / num + 1) * num ≤ i.value * den + num := by
      rw [Nat.add_mul, Nat.one_mul]
      exact Nat.add_le_add_right (Nat.div_mul_le_self _ _) num
    have hpast : (i.value : ℚ) < ((i.value * den / num + 1) * num : Nat) / den := by
      rw [lt_div_iff₀ hdenq]
      exact_mod_cast hmore
    have hstep : (((i.value * den / num + 1) * num : Nat) : ℚ) / den ≤
        i.value + 10 ^ exponent * perOne := by
      rw [← gridStep_div, div_le_iff₀ hdenq, add_mul (i.value : ℚ), div_mul_cancel₀ _ hdenq.ne']
      exact_mod_cast hless
    have hlow : (i.lower : ℚ) ≤ i.value := by exact_mod_cast hlower
    have hhas := And.intro (hlow.trans_lt hpast) (hstep.trans_lt hupper)
    rw [contains_iff hden, Has]
    split
    · exact ⟨hhas.1.le, hhas.2.le⟩
    · exact hhas
  simp only [onGrid?]
  split
  next => exact Option.some_ne_none _
  next => exact Option.some_ne_none _
  next => exact Option.some_ne_none _
  next hnot => exact absurd (hup.symm.trans hnot) Bool.noConfusion

/-! ## Rounding intervals -/

/-- How far an interval goes below its value, in quarters of a unit times the power of two. -/
def gapBelow (x : Binary64) : Nat := if x.fraction.val = 0 ∧ 1 < x.exponent.val then 1 else 2

@[simp] theorem value_interval (x : Binary64) : x.interval.value = 4 * x.units := by
  simp only [interval, units, Nat.mul_assoc]

private theorem upper_interval (x : Binary64) :
    x.interval.upper = (4 * x.significand + 2) * 2 ^ x.shift := by
  simp only [interval, Nat.pow_eq, Nat.add_mul]

private theorem lower_interval (x : Binary64) :
    x.interval.lower = (4 * x.significand - x.gapBelow) * 2 ^ x.shift := by
  simp only [interval, gapBelow, Nat.pow_eq, Nat.sub_mul]
  split <;> simp

private theorem significand_lt (x : Binary64) : x.significand < 2 * fractions := by
  have := x.fraction.isLt
  unfold significand
  split <;> omega

theorem significand_pos {x : Binary64} (hx : x.isZero = false) : 0 < x.significand := by
  unfold significand
  split
  next h => simpa [isZero, h, Nat.pos_iff_ne_zero] using hx
  next => exact Nat.add_pos_left (by decide) _

theorem units_pos {x : Binary64} (hx : x.isZero = false) : 0 < x.units :=
  Nat.mul_pos (significand_pos hx) (Nat.pow_pos Nat.two_pos)

/-- A number is no less than the power of ten that its leading digit stands for. -/
private theorem ten_pow_le_of_pos {n : Nat} (hn : 0 < n) :
    10 ^ ((Nat.toDigits 10 n).length - 1) ≤ n := by
  rcases Nat.eq_zero_or_pos ((Nat.toDigits 10 n).length - 1) with hzero | hpos
  · rw [hzero]
    exact hn
  · have hlong : ¬ (Nat.toDigits 10 n).length ≤ (Nat.toDigits 10 n).length - 1 := by omega
    rw [Nat.length_toDigits_le_iff (by decide) hpos] at hlong
    exact Nat.le_of_not_lt hlong

/-- The places that are looked at are enough for the least positive value. -/
private theorem find?_places {one units : Nat} (hone : ∃ bound < 330, one ≤ Nat.pow 10 bound)
    (hunits : 0 < units) :
    ∃ k, ((List.range 330).find? fun k => one ≤ units * Nat.pow 10 k) = some k ∧
      one ≤ units * Nat.pow 10 k := by
  obtain ⟨bound, hbound, hone⟩ := hone
  have hsome : ((List.range 330).find? fun k => one ≤ units * Nat.pow 10 k).isSome = true := by
    rw [List.find?_isSome]
    have hlast : one ≤ units * Nat.pow 10 bound :=
      Nat.le_trans hone (Nat.le_mul_of_pos_left _ hunits)
    exact ⟨bound, List.mem_range.2 hbound, decide_eq_true hlast⟩
  obtain ⟨k, hk⟩ := Option.isSome_iff_exists.1 hsome
  have hplace := List.find?_some hk
  exact ⟨k, hk, of_decide_eq_true hplace⟩

/-- Where the leading digit is looked for, with the number of units in one. -/
private theorem leadingExponent_eq (x : Binary64) :
    ∃ one, perOne = 4 * one ∧ (∃ bound < 330, one ≤ Nat.pow 10 bound) ∧
      x.leadingExponent =
        if 0 < x.units / one then ((Nat.toDigits 10 (x.units / one)).length : Int) - 1
        else Int.negOfNat
          (((List.range 330).find? fun k => one ≤ x.units * Nat.pow 10 k).getD 330) :=
  ⟨Nat.pow 2 1074, by decide +kernel, ⟨324, by decide +kernel⟩, rfl⟩

/-- The power of ten of the leading digit is no greater than the value. -/
private theorem ten_pow_leadingExponent_le {x : Binary64} (hx : x.isZero = false) :
    (10 : ℚ) ^ x.leadingExponent * perOne ≤ x.interval.value := by
  obtain ⟨one, hper, hone, hlead⟩ := leadingExponent_eq x
  rw [hlead, hper, value_interval, Nat.cast_mul, Nat.cast_mul, mul_left_comm]
  refine mul_le_mul_of_nonneg_left ?_ (Nat.cast_nonneg 4)
  split
  next hwhole =>
    have hlead := ten_pow_le_of_pos hwhole
    have hlength := Nat.length_toDigits_pos (b := 10) (n := x.units / one)
    have hexp : ((Nat.toDigits 10 (x.units / one)).length : Int) - 1 =
        ((Nat.toDigits 10 (x.units / one)).length - 1 : Nat) := by omega
    rw [hexp, zpow_natCast]
    exact_mod_cast Nat.le_trans (Nat.mul_le_mul_right one hlead) (Nat.div_mul_le_self _ _)
  next =>
    obtain ⟨k, hfind, hk⟩ := find?_places hone (units_pos hx)
    have hpow : (0 : ℚ) < 10 ^ k := by positivity
    rw [hfind, Option.getD_some, Int.negOfNat_eq, Int.ofNat_eq_natCast, zpow_neg, zpow_natCast,
      inv_mul_le_iff₀ hpow, mul_comm]
    exact_mod_cast hk

/-- The grid of seventeen digits has a point in the interval. -/
private theorem onGrid?_seventeen_ne_none {x : Binary64} (hx : x.isZero = false) :
    x.interval.onGrid? (x.leadingExponent - 17) ≠ none := by
  have hlead := ten_pow_leadingExponent_le hx
  have hscale : (0 : ℚ) < 2 ^ x.shift := by positivity
  have hsig : (x.significand : ℚ) ≤ 2 * fractions := by exact_mod_cast x.significand_lt.le
  have hvalue : (x.interval.value : ℚ) = 4 * x.significand * 2 ^ x.shift := by
    rw [value_interval, units, Nat.pow_eq]
    push_cast
    ring
  apply Interval.onGrid?_ne_none
  · exact Nat.sub_le _ _
  · have hstep : (10 : ℚ) ^ (x.leadingExponent - 17) * perOne =
        10 ^ x.leadingExponent * perOne / 10 ^ 17 := by
      rw [zpow_sub₀ (by norm_num)]
      norm_num
      ring
    have hupper : (x.interval.upper : ℚ) = x.interval.value + 2 * 2 ^ x.shift := by
      rw [hvalue, upper_interval]
      push_cast
      ring
    rw [hstep, hupper]
    have hwidth : (4 * (2 * fractions) : ℚ) < 2 * 10 ^ 17 := by norm_num [fractions]
    have hsmall : 10 ^ x.leadingExponent * perOne / 10 ^ 17 < (2 : ℚ) * 2 ^ x.shift := by
      rw [div_lt_iff₀ (by norm_num)]
      calc (10 : ℚ) ^ x.leadingExponent * perOne ≤ 4 * x.significand * 2 ^ x.shift :=
            hvalue ▸ hlead
        _ ≤ 4 * (2 * fractions) * 2 ^ x.shift := by gcongr
        _ < 2 * 10 ^ 17 * 2 ^ x.shift := mul_lt_mul_of_pos_right hwidth hscale
        _ = 2 * 2 ^ x.shift * 10 ^ 17 := by ring
    linarith

/-- The shortest decimal lies in the interval. -/
theorem has_shortest {x : Binary64} (hx : x.isZero = false) :
    x.interval.Has (x.shortest.value * perOne) := by
  have hshortest : x.shortest = (((List.range 18).findSome? fun n =>
      x.interval.onGrid? (x.leadingExponent - Int.ofNat n)).getD ⟨0, 0⟩).trim 20 :=
    if_neg (hx ▸ Bool.false_ne_true)
  rw [hshortest, Decimal.value_trim]
  cases hfound : (List.range 18).findSome? fun n =>
    x.interval.onGrid? (x.leadingExponent - Int.ofNat n) with
  | none =>
    have hlast := List.findSome?_eq_none_iff.1 hfound 17 (by decide)
    exact absurd hlast (onGrid?_seventeen_ne_none hx)
  | some d =>
    obtain ⟨n, -, hd⟩ := List.exists_of_findSome?_eq_some hfound
    exact Interval.has_onGrid hd

private theorem value_shortest_of_isZero {x : Binary64} (hx : x.isZero = true) :
    x.shortest.value = 0 := by
  have hshortest : x.shortest = ⟨0, 0⟩ := if_pos hx
  rw [hshortest, Decimal.value, Nat.cast_zero, zero_mul]

theorem value_shortest_pos {x : Binary64} (hx : x.isZero = false) : 0 < x.shortest.value := by
  have hlower : 0 < x.interval.lower := by
    have hsig := significand_pos hx
    rw [lower_interval]
    refine Nat.mul_pos ?_ (Nat.pow_pos Nat.two_pos)
    unfold gapBelow
    split <;> omega
  have hlowerq : (0 : ℚ) < x.interval.lower := by exact_mod_cast hlower
  have hper : (0 : ℚ) < perOne := by exact_mod_cast perOne_pos
  have hhas := has_shortest hx
  refine (mul_pos_iff_of_pos_right hper).1 ?_
  unfold Interval.Has at hhas
  split at hhas
  · exact hlowerq.trans_le hhas.1
  · exact hlowerq.trans hhas.1

/-! ## One value for each decimal -/

/-- The magnitude of `x` comes before that of `y`. -/
def Below (x y : Binary64) : Prop :=
  x.exponent.val < y.exponent.val ∨
    x.exponent.val = y.exponent.val ∧ x.fraction.val < y.fraction.val

section Below

variable {x y : Binary64}

/-- Under one power of two the significands ascend, and no gap is halved. -/
private theorem Below.of_shift_eq (h : x.Below y) (hs : x.shift = y.shift) :
    x.significand < y.significand ∧ y.gapBelow = 2 := by
  have hx := x.fraction.isLt
  have hy := y.fraction.isLt
  unfold Below at h
  unfold shift at hs
  unfold significand gapBelow
  constructor
  · split <;> split <;> omega
  · rw [if_neg]
    omega

/-- Under a greater power of two the significand has its leading bit. -/
private theorem le_significand_of_shift_lt (hs : x.shift < y.shift) :
    4 * fractions - 1 ≤ 4 * y.significand - y.gapBelow := by
  unfold shift at hs
  unfold significand gapBelow
  rw [if_neg (by omega)]
  split <;> omega

/-- Of two values the interval of the greater one starts where that of the lesser one ends, or
behind it; where they meet, one of them is open. -/
private theorem Below.upper_le_lower (h : x.Below y) :
    x.interval.upper ≤ y.interval.lower ∧
      (x.interval.upper = y.interval.lower →
        ¬ (x.significand % 2 = 0 ∧ y.significand % 2 = 0)) := by
  have hpow : 0 < 2 ^ x.shift := Nat.pow_pos Nat.two_pos
  rw [upper_interval, lower_interval]
  rcases Nat.lt_trichotomy x.shift y.shift with hs | hs | hs
  · have hy := le_significand_of_shift_lt hs
    have hx := x.significand_lt
    have hdouble : 2 ≤ 2 ^ (y.shift - x.shift) := by
      calc 2 = 2 ^ 1 := rfl
        _ ≤ 2 ^ (y.shift - x.shift) := Nat.pow_le_pow_right Nat.two_pos (by omega)
    have hlower : (4 * y.significand - y.gapBelow) * 2 ^ y.shift =
        (4 * y.significand - y.gapBelow) * 2 ^ (y.shift - x.shift) * 2 ^ x.shift := by
      rw [Nat.mul_assoc, ← Nat.pow_add, Nat.sub_add_cancel hs.le]
    have hmore := Nat.mul_le_mul_left (4 * y.significand - y.gapBelow) hdouble
    rw [hlower]
    refine ⟨Nat.mul_le_mul_right _ (by omega), fun heq => ?_⟩
    have hsame := Nat.eq_of_mul_eq_mul_right hpow heq
    omega
  · obtain ⟨hsig, hgap⟩ := h.of_shift_eq hs
    rw [hgap, ← hs]
    refine ⟨Nat.mul_le_mul_right _ (by omega), fun heq => ?_⟩
    have hsame := Nat.eq_of_mul_eq_mul_right hpow heq
    omega
  · unfold Below at h
    unfold shift at hs
    omega

/-- No point lies in the intervals of two magnitudes. -/
theorem Below.not_has (h : x.Below y) {q : ℚ} (hx : x.interval.Has q) : ¬ y.interval.Has q := by
  obtain ⟨hle, hmeet⟩ := h.upper_le_lower
  have hleq : (x.interval.upper : ℚ) ≤ y.interval.lower := by exact_mod_cast hle
  have hclosed : ∀ z : Binary64, z.interval.closed = decide (z.significand % 2 = 0) := fun _ => rfl
  intro hy
  unfold Interval.Has at hx hy
  rw [hclosed] at hx hy
  simp only [decide_eq_true_eq] at hx hy
  split at hx <;> split at hy
  next hxe hye =>
    have heq : (x.interval.upper : ℚ) = y.interval.lower := by linarith
    exact hmeet (by exact_mod_cast heq) ⟨hxe, hye⟩
  all_goals linarith

/-- Values with the same shortest decimal have the same magnitude. -/
theorem eq_of_value_shortest (h : x.shortest.value = y.shortest.value) :
    x.exponent = y.exponent ∧ x.fraction = y.fraction := by
  cases hx : x.isZero with
  | true =>
    cases hy : y.isZero with
    | true =>
      simp only [isZero, Bool.and_eq_true, decide_eq_true_eq] at hx hy
      exact ⟨Fin.ext (hx.1.trans hy.1.symm), Fin.ext (hx.2.trans hy.2.symm)⟩
    | false =>
      have hpos := value_shortest_pos hy
      rw [← h, value_shortest_of_isZero hx] at hpos
      exact absurd hpos (lt_irrefl 0)
  | false =>
    cases hy : y.isZero with
    | true =>
      have hpos := value_shortest_pos hx
      rw [h, value_shortest_of_isZero hy] at hpos
      exact absurd hpos (lt_irrefl 0)
    | false =>
      have hhasx := has_shortest hx
      have hhasy := has_shortest hy
      rw [← h] at hhasy
      have hxy : ¬ x.Below y := fun hlt => hlt.not_has hhasx hhasy
      have hyx : ¬ y.Below x := fun hlt => hlt.not_has hhasy hhasx
      unfold Below at hxy hyx
      exact ⟨Fin.ext (by omega), Fin.ext (by omega)⟩

end Below

end Binary64
end Restorable
