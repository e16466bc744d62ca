-- SUMMARY: Decimal digits are read back as the number that they write.
import Mathlib.Algebra.Group.Nat.Defs
import Mathlib.Data.List.TakeWhile
import Restorable.Json.Reader

/-!
# Decimal digits

A number is written without leading zeros, or padded with zeros to a width. Either text is
read as the number, up to the first character that is no digit.
-/
namespace Restorable
namespace Json

/-! ## The value of digits -/

@[simp] theorem natOfDigits_toDigits (n : Nat) : natOfDigits (Nat.toDigits 10 n) = n :=
  Nat.ofDigitChars_toDigits (by decide) (by decide)

theorem isDigit_of_mem_toDigits {n : Nat} : ∀ c ∈ Nat.toDigits 10 n, c.isDigit = true :=
  fun _ hc => Nat.isDigit_of_mem_toDigits (by decide) (by decide) hc

/-- Zeros in front do not change the value. -/
@[simp] theorem natOfDigits_zeros (count : Nat) (ds : List Char) :
    natOfDigits (List.replicate count '0' ++ ds) = natOfDigits ds := by
  induction count with
  | zero => rfl
  | succ count ih =>
    rw [← ih]
    rfl

/-- Only zero is written with a zero in front. -/
theorem toDigits_eq_zero_cons {n : Nat} {ds : List Char} (h : Nat.toDigits 10 n = '0' :: ds) :
    n = 0 ∧ ds = [] := by
  induction n using Nat.strongRecOn generalizing ds with
  | _ n ih =>
    by_cases hn : n < 10
    · rw [Nat.toDigits_of_lt_base hn] at h
      obtain ⟨hd, rfl⟩ := List.cons.inj h
      have hvalue := congrArg Char.toNat hd
      rw [Nat.toNat_digitChar_of_lt_ten hn] at hvalue
      have hzero : '0'.toNat = 48 := rfl
      exact ⟨by omega, rfl⟩
    · rw [Nat.toDigits_of_base_le (by decide) (by omega)] at h
      cases hfront : Nat.toDigits 10 (n / 10) with
      | nil => exact absurd hfront Nat.toDigits_ne_nil
      | cons d front =>
        rw [hfront, List.cons_append] at h
        obtain ⟨rfl, -⟩ := List.cons.inj h
        have hsmall := (ih (n / 10) (by omega) hfront).1
        omega

/-! ## Runs of characters -/

section Runs

variable {p : Char → Bool} {run run' rest rest' : List Char}

private theorem takeWhile_run (hrun : ∀ c ∈ run, p c = true)
    (hrest : ∀ c ∈ rest.head?, p c = false) : (run ++ rest).takeWhile p = run := by
  rw [List.takeWhile_append_of_pos hrun]
  cases rest with
  | nil => simp
  | cons c rest => simp [hrest c rfl]

private theorem dropWhile_run (hrun : ∀ c ∈ run, p c = true)
    (hrest : ∀ c ∈ rest.head?, p c = false) : (run ++ rest).dropWhile p = rest := by
  rw [List.dropWhile_append_of_pos hrun]
  cases rest with
  | nil => rfl
  | cons c rest => simp [hrest c rfl]

/-- A run of characters of one kind shows where it ends. -/
theorem run_unique (hrun : ∀ c ∈ run, p c = true) (hrun' : ∀ c ∈ run', p c = true)
    (hrest : ∀ c ∈ rest.head?, p c = false) (hrest' : ∀ c ∈ rest'.head?, p c = false)
    (h : run ++ rest = run' ++ rest') : run = run' ∧ rest = rest' := by
  constructor
  · rw [← takeWhile_run hrun hrest, h, takeWhile_run hrun' hrest']
  · rw [← dropWhile_run hrun hrest, h, dropWhile_run hrun' hrest']

end Runs

/-! ## Reading digits -/

/-- The text does not go on with a digit. -/
def NoDigit (rest : List Char) : Prop := ∀ c ∈ rest.head?, c.isDigit = false

/-- The digits of a number show where they end, and tell the number. -/
theorem toDigits_unique {m n : Nat} {rest rest' : List Char} (hrest : NoDigit rest)
    (hrest' : NoDigit rest') (h : Nat.toDigits 10 m ++ rest = Nat.toDigits 10 n ++ rest') :
    m = n ∧ rest = rest' := by
  obtain ⟨hdigits, hafter⟩ :=
    run_unique isDigit_of_mem_toDigits isDigit_of_mem_toDigits hrest hrest' h
  refine ⟨?_, hafter⟩
  rw [← natOfDigits_toDigits m, hdigits, natOfDigits_toDigits]

/-- Digits are taken up to the first character that is none. -/
theorem digits_append {ds rest : List Char} (hne : ds ≠ []) (hd : ∀ c ∈ ds, c.isDigit = true)
    (hr : NoDigit rest) : digits (ds ++ rest) = some (ds, rest) := by
  unfold digits
  rw [takeWhile_run hd hr, dropWhile_run hd hr]
  cases ds with
  | nil => exact absurd rfl hne
  | cons d ds => rfl

/-- Whole digits are read where no zero stands in front of others. -/
theorem wholeDigits_append {ds rest : List Char} (hne : ds ≠ []) (hd : ∀ c ∈ ds, c.isDigit = true)
    (hzero : ∀ d ds', ds ≠ '0' :: d :: ds') (hr : NoDigit rest) :
    wholeDigits (ds ++ rest) = some (ds, rest) := by
  unfold wholeDigits
  rw [digits_append hne hd hr]
  simp only [Option.bind_eq_bind, Option.bind_some]
  split
  next heq => exact absurd (Prod.mk.inj heq).1 (hzero _ _)
  next => rfl

/-! ## Digits that were read -/

theorem isDigit_of_digits {cs ds rest : List Char} (h : digits cs = some (ds, rest)) :
    ∀ c ∈ ds, c.isDigit = true := by
  unfold digits at h
  split at h
  · cases h
  · obtain ⟨rfl, -⟩ := Prod.mk.inj (Option.some.inj h)
    intro c hc
    exact List.mem_takeWhile_imp hc

private theorem digitValue_le {c : Char} (h : c.isDigit = true) : digitValue c ≤ 9 := by
  have hrange : 48 ≤ c.toNat ∧ c.toNat ≤ 57 := by
    simpa [Char.isDigit, UInt32.le_iff_toNat_le] using h
  have hzero : '0'.toNat = 48 := rfl
  rw [digitValue, hzero]
  omega

/-- Digits read behind a number stay below the next number with zeros behind it. -/
private theorem foldl_digits_lt {ds : List Char} (h : ∀ c ∈ ds, c.isDigit = true) (n : Nat) :
    ds.foldl (fun n c => 10 * n + digitValue c) n < (n + 1) * 10 ^ ds.length := by
  induction ds generalizing n with
  | nil => simp
  | cons c ds ih =>
    obtain ⟨hc, hds⟩ := List.forall_mem_cons.1 h
    have hnext : 10 * n + digitValue c + 1 ≤ (n + 1) * 10 := by
      have hle := digitValue_le hc
      omega
    calc (c :: ds).foldl (fun n c => 10 * n + digitValue c) n
        < (10 * n + digitValue c + 1) * 10 ^ ds.length := ih hds _
      _ ≤ (n + 1) * 10 * 10 ^ ds.length := Nat.mul_le_mul_right _ hnext
      _ = (n + 1) * 10 ^ (c :: ds).length := by
        rw [List.length_cons, Nat.pow_succ, Nat.mul_assoc, Nat.mul_comm 10]

theorem natOfDigits_lt {ds : List Char} (h : ∀ c ∈ ds, c.isDigit = true) :
    natOfDigits ds < 10 ^ ds.length :=
  Nat.lt_of_lt_of_eq (foldl_digits_lt h 0) (Nat.one_mul _)

end Json
end Restorable
