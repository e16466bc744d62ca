-- SUMMARY: A normal form of JSON values: two values are the same exactly when it is equal.
import Restorable.Json.Basic

/-!
# Normal forms of JSON values

Two values are the same when they differ at most in the signs of zeros. The normal form
drops these signs, so that being the same is an equality.
-/
namespace Restorable

/-! ## Numbers -/

/-- The value, without the sign of a zero. -/
def Binary64.normal (x : Binary64) : Binary64 := if x.isZero then .zero else x

theorem Binary64.same_iff_normal (x y : Binary64) : x.same y = true ↔ x.normal = y.normal := by
  have hzero : Binary64.zero.isZero = true := rfl
  simp only [same, Bool.or_eq_true, decide_eq_true_eq, Bool.and_eq_true, normal]
  cases hx : x.isZero with
  | true =>
    cases hy : y.isZero with
    | true => simp
    | false =>
      simp only [if_pos, Bool.false_eq_true, if_false, and_false, or_false]
      constructor
      · rintro rfl
        rw [hx] at hy
        cases hy
      · rintro rfl
        rw [hzero] at hy
        cases hy
  | false =>
    cases hy : y.isZero with
    | true =>
      simp only [if_pos, Bool.false_eq_true, if_false, false_and, or_false]
      constructor
      · rintro rfl
        rw [hx] at hy
        cases hy
      · rintro rfl
        rw [hzero] at hx
        cases hx
    | false => simp

def Number.normal : Number → Number
  | .int n => .int n
  | .float x => .float x.normal

theorem Number.same_iff_normal (m n : Number) : m.same n = true ↔ m.normal = n.normal := by
  cases m <;> cases n <;> simp [same, normal, Binary64.same_iff_normal]

/-! ## Values -/

namespace Json

mutual

/-- The value, without the signs of zeros. -/
def normal : Json → Json
  | .num n => .num n.normal
  | .arr xs => .arr (normalItems xs)
  | .obj es => .obj (normalEntries es)
  | v => v

def normalItems : List Json → List Json
  | [] => []
  | x :: xs => x.normal :: normalItems xs

def normalEntries : List (String × Json) → List (String × Json)
  | [] => []
  | (k, v) :: es => (k, v.normal) :: normalEntries es

end

mutual

theorem same_iff_normal : (v w : Json) → (v.same w = true ↔ v.normal = w.normal)
  | .null, w | .bool _, w | .str _, w => by cases w <;> simp [same, normal]
  | .num m, w => by cases w <;> simp [same, normal, Number.same_iff_normal]
  | .arr xs, w => by
    cases w with
    | arr ys => simpa [same, normal] using sameItems_iff_normal xs ys
    | _ => simp [same, normal]
  | .obj es, w => by
    cases w with
    | obj fs => simpa [same, normal] using sameEntries_iff_normal es fs
    | _ => simp [same, normal]

theorem sameItems_iff_normal : (xs ys : List Json) →
    (sameItems xs ys = true ↔ normalItems xs = normalItems ys)
  | [], ys => by cases ys <;> simp [sameItems, normalItems]
  | x :: xs, ys => by
    cases ys with
    | nil => simp [sameItems, normalItems]
    | cons y ys =>
      simp [sameItems, normalItems, same_iff_normal x y, sameItems_iff_normal xs ys]

theorem sameEntries_iff_normal : (es fs : List (String × Json)) →
    (sameEntries es fs = true ↔ normalEntries es = normalEntries fs)
  | [], fs => by cases fs <;> simp [sameEntries, normalEntries]
  | (k, v) :: es, fs => by
    cases fs with
    | nil => simp [sameEntries, normalEntries]
    | cons f fs =>
      obtain ⟨l, w⟩ := f
      simp [sameEntries, normalEntries, same_iff_normal v w, sameEntries_iff_normal es fs]

end

end Json
end Restorable
