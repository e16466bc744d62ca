-- SUMMARY: An instant is read back from the text that is written for it.
import Mathlib.Algebra.Group.Nat.Defs
import Restorable.Proofs.Json.Digits
import Restorable.Proofs.Time.Civil
import Restorable.Time.Instant

/-!
# Texts of instants

The parts of a text are numbers with a fixed number of digits, apart from the year and the
fraction of the second. Each part is read back up to the mark behind it, and the date and the
time of day make up the instant again.
-/
namespace Restorable
namespace Instant

/-! ## Padded numbers -/

/-- The digits of a number behind as many zeros as the width takes. -/
def paddedDigits (width n : Nat) : List Char :=
  List.replicate (width - (Nat.toDigits 10 n).length) '0' ++ Nat.toDigits 10 n

@[simp] theorem toList_padded (width n : Nat) : (padded width n).toList = paddedDigits width n := by
  have hlength : (Nat.repr n).length = (Nat.toDigits 10 n).length := by
    rw [← String.length_toList, Nat.toList_repr]
  simp only [padded, paddedDigits, String.toList_append, String.toList_ofList, Nat.toList_repr,
    hlength]

private theorem isDigit_paddedDigits {width n : Nat} :
    ∀ c ∈ paddedDigits width n, c.isDigit = true := by
  intro c hc
  rcases List.mem_append.1 hc with hc | hc
  · rw [(List.mem_replicate.1 hc).2]
    rfl
  · exact Json.isDigit_of_mem_toDigits c hc

private theorem paddedDigits_ne_nil {width n : Nat} : paddedDigits width n ≠ [] := by
  intro h
  exact Nat.toDigits_ne_nil (List.append_eq_nil_iff.1 h).2

private theorem exists_paddedDigits (width n : Nat) :
    ∃ d ds, paddedDigits width n = d :: ds ∧ d.isDigit = true := by
  cases hds : paddedDigits width n with
  | nil => exact absurd hds paddedDigits_ne_nil
  | cons d ds => exact ⟨d, ds, rfl, isDigit_paddedDigits d (hds ▸ List.mem_cons_self)⟩

@[simp] theorem natOfDigits_paddedDigits (width n : Nat) :
    Json.natOfDigits (paddedDigits width n) = n := by
  simp [paddedDigits]

/-- A number that fits its width has as many digits. -/
private theorem length_paddedDigits {width n : Nat} (hw : 0 < width) (h : n < 10 ^ width) :
    (paddedDigits width n).length = width := by
  have hle := (Nat.length_toDigits_le_iff (by decide) hw).2 h
  rw [paddedDigits, List.length_append, List.length_replicate]
  omega

private theorem isBlank_of_isDigit {c : Char} (h : c.isDigit = true) : isBlank c = false := by
  have hrange : 48 ≤ c.toNat ∧ c.toNat ≤ 57 := by
    simpa [Char.isDigit, UInt32.le_iff_toNat_le] using h
  simp only [isBlank, Bool.or_eq_false_iff, Bool.and_eq_false_iff, decide_eq_false_iff_not]
  omega

private theorem skipBlanks_cons {c : Char} (h : isBlank c = false) (cs : List Char) :
    skipBlanks (c :: cs) = c :: cs := by
  rw [skipBlanks, List.dropWhile_cons_of_neg (by simp [h])]

private theorem skipBlanks_paddedDigits (width n : Nat) (rest : List Char) :
    skipBlanks (paddedDigits width n ++ rest) = paddedDigits width n ++ rest := by
  obtain ⟨d, ds, hds, hd⟩ := exists_paddedDigits width n
  rw [hds]
  exact skipBlanks_cons (isBlank_of_isDigit hd) _

/-! ## Parts -/

/-- A number of a fixed width is read back, whatever follows. -/
private theorem number_padded {width n : Nat} (hw : 0 < width) (h : n < 10 ^ width)
    (rest : List Char) :
    number width (paddedDigits width n ++ rest) = some (n, rest) := by
  have hlength := length_paddedDigits hw h
  have htake : (paddedDigits width n ++ rest).take width = paddedDigits width n :=
    List.take_left' hlength
  have hdrop : (paddedDigits width n ++ rest).drop width = rest := List.drop_left' hlength
  have hdigits : (paddedDigits width n).takeWhile Char.isDigit = paddedDigits width n :=
    List.takeWhile_eq_self_iff.2 isDigit_paddedDigits
  have hne : (paddedDigits width n).isEmpty = false :=
    List.isEmpty_eq_false_iff.2 paddedDigits_ne_nil
  simp [number, skipBlanks_paddedDigits, htake, hdigits, hne, hlength, hdrop]

private theorem digits_padded (width n : Nat) {rest : List Char} (hr : Json.NoDigit rest) :
    Json.digits (paddedDigits width n ++ rest) = some (paddedDigits width n, rest) :=
  Json.digits_append paddedDigits_ne_nil isDigit_paddedDigits hr

private theorem longNumber_padded (width n : Nat) {rest : List Char} (hr : Json.NoDigit rest) :
    longNumber (paddedDigits width n ++ rest) = some (n, rest) := by
  simp [longNumber, digits_padded width n hr]

private theorem mark_cons {c : Char} (h : isBlank c = false) (rest : List Char) :
    mark c (c :: rest) = some rest := by
  unfold mark
  rw [skipBlanks_cons h]
  exact if_pos rfl

/-- A year has four digits, or a sign in front of them. -/
private theorem year_yearText (y : Int) {rest : List Char} (hr : Json.NoDigit rest) :
    year ((yearText y).toList ++ rest) = some (y, rest) := by
  unfold yearText
  by_cases hrange : 0 ≤ y ∧ y ≤ 9999
  · have hfour : y.toNat < 10 ^ 4 := by omega
    have hvalue : (y.toNat : Int) = y := Int.toNat_of_nonneg hrange.1
    have hnumber := number_padded (by decide) hfour rest
    obtain ⟨d, ds, hds, hd⟩ := exists_paddedDigits 4 y.toNat
    have hminus : d ≠ '-' := by
      rintro rfl
      exact absurd hd (by decide)
    have hplus : d ≠ '+' := by
      rintro rfl
      exact absurd hd (by decide)
    rw [hds, List.cons_append] at hnumber
    rw [if_pos hrange, toList_padded, hds, List.cons_append, year,
      skipBlanks_cons (isBlank_of_isDigit hd)]
    split
    · exact absurd (List.cons.inj ‹_›).1 hminus
    · exact absurd (List.cons.inj ‹_›).1 hplus
    · simp only [hnumber, Option.bind_eq_bind, Option.bind_some, hvalue]
  · have hlong := longNumber_padded 4 y.natAbs hr
    rw [if_neg hrange, String.toList_append, toList_padded]
    by_cases hneg : y < 0
    · have hvalue : -(y.natAbs : Int) = y := by omega
      rw [if_pos hneg]
      change (longNumber (paddedDigits 4 y.natAbs ++ rest)).bind _ = _
      simp only [hlong, Option.bind_some, hvalue]
    · have hvalue : (y.natAbs : Int) = y := by omega
      rw [if_neg hneg]
      change (longNumber (paddedDigits 4 y.natAbs ++ rest)).bind _ = _
      simp only [hlong, Option.bind_some, hvalue]

/-- Digits of a fraction count units of the place that they end at. -/
private theorem fraction_padded {width n : Nat} (hw : 0 < width) (h₉ : width ≤ 9)
    (h : n < 10 ^ width) {rest : List Char} (hr : Json.NoDigit rest) :
    fraction ('.' :: (paddedDigits width n ++ rest)) = some (n * 10 ^ (9 - width), rest) := by
  have hlength := length_paddedDigits hw h
  have htake : (paddedDigits width n).take 9 = paddedDigits width n :=
    List.take_of_length_le (by omega)
  simp only [fraction, digits_padded width n hr, Option.bind_eq_bind, Option.bind_some, htake,
    hlength, natOfDigits_paddedDigits]
  rfl

/-- The fewest groups of digits that hold the nanoseconds are read back, up to the `Z`. -/
private theorem fraction_fractionText {nano : Nat} (h : nano < 1000000000) (rest : List Char) :
    fraction ((fractionText nano).toList ++ 'Z' :: rest) = some (nano, 'Z' :: rest) := by
  have hr : Json.NoDigit ('Z' :: rest) := by
    rintro c ⟨⟩
    rfl
  have hpoint : ∀ width n, ("." ++ padded width n).toList = '.' :: paddedDigits width n := by
    intro width n
    rw [String.toList_append, toList_padded]
    rfl
  unfold fractionText
  by_cases hzero : nano = 0
  · rw [if_pos hzero, hzero]
    rfl
  rw [if_neg hzero]
  by_cases hmilli : nano % 1000000 = 0
  · rw [if_pos hmilli, hpoint, List.cons_append,
      fraction_padded (by decide) (by decide) (by omega) hr]
    congr 2
    omega
  rw [if_neg hmilli]
  by_cases hmicro : nano % 1000 = 0
  · rw [if_pos hmicro, hpoint, List.cons_append,
      fraction_padded (by decide) (by decide) (by omega) hr]
    congr 2
    omega
  · rw [if_neg hmicro, hpoint, List.cons_append,
      fraction_padded (by decide) (by decide) (by omega) hr]
    congr 2
    omega

/-! ## Instants -/

/-- An instant of a representable year: a second of the day, and nanoseconds that pass a full
second only in the last second of a minute. -/
structure Valid (t : Instant) : Prop where
  year : yearInRange (Date.ofDayNumber t.day).year = true
  second : t.second < 86400
  nano : t.nano < 1000000000 ∨ t.nano < 2000000000 ∧ t.second % 60 = 59

instance (t : Instant) : Decidable t.Valid :=
  decidable_of_iff (yearInRange (Date.ofDayNumber t.day).year = true ∧ t.second < 86400 ∧
    (t.nano < 1000000000 ∨ t.nano < 2000000000 ∧ t.second % 60 = 59))
    ⟨fun h => ⟨h.1, h.2.1, h.2.2⟩, fun h => ⟨h.year, h.second, h.nano⟩⟩

/-- The date and the time of day of an instant make up the instant. -/
private theorem ofLocal?_parts {t : Instant} (h : t.Valid) :
    ofLocal? (Date.ofDayNumber t.day) (t.second / 3600) (t.second / 60 % 60)
      (t.second % 60 + t.nano / 1000000000) (t.nano % 1000000000) 0 = some t := by
  obtain ⟨hyear, hsecond, hnano⟩ := h
  -- The second 60 stands for a second 59 with nanoseconds past a full second.
  have hleap : (t.second % 60 + t.nano / 1000000000) / 60 = t.nano / 1000000000 := by omega
  have hclock : ((t.second / 3600 : Nat) : Int) * 3600 + (t.second / 60 % 60 : Nat) * 60 +
      (t.second % 60 : Nat) = t.second := by omega
  have hseconds : (Date.ofDayNumber t.day).dayNumber * 86400 + (t.second / 3600 : Nat) * 3600 +
      (t.second / 60 % 60 : Nat) * 60 +
      (t.second % 60 + t.nano / 1000000000 - t.nano / 1000000000 : Nat) - 0 =
        t.day * 86400 + t.second := by
    rw [Date.dayNumber_ofDayNumber, Nat.add_sub_cancel]
    omega
  have hday : (t.day * 86400 + (t.second : Int)) / 86400 = t.day := by omega
  have hrest : ((t.day * 86400 + (t.second : Int)) % 86400).toNat = t.second := by omega
  have htime : (decide (t.second / 3600 ≤ 23) && decide (t.second / 60 % 60 ≤ 59) &&
      decide (t.second % 60 + t.nano / 1000000000 ≤ 60) && decide (-86400 < (0 : Int)) &&
      decide ((0 : Int) < 86400)) = true := by
    simp only [Bool.and_eq_true, decide_eq_true_eq]
    omega
  simp only [ofLocal?, hyear, Date.isValid_ofDayNumber, htime, hleap, hseconds, hday, hrest,
    Bool.and_self, if_true]
  congr 2
  omega

/-- The text of an instant by its parts. -/
theorem toList_text (t : Instant) :
    let d := Date.ofDayNumber t.day
    t.text.toList = (yearText d.year).toList ++ '-' :: (paddedDigits 2 d.month ++
      '-' :: (paddedDigits 2 d.day ++ 'T' :: (paddedDigits 2 (t.second / 3600) ++
      ':' :: (paddedDigits 2 (t.second / 60 % 60) ++
      ':' :: (paddedDigits 2 (t.second % 60 + t.nano / 1000000000) ++
      ((fractionText (t.nano % 1000000000)).toList ++ ['Z'])))))) := by
  simp [text, dateText, timeText]

/-- An instant is read back from its text. -/
theorem ofText?_text {t : Instant} (h : t.Valid) : ofText? t.text = some t := by
  obtain ⟨-, hsecond, hnano⟩ := id h
  have hdate := Date.isValid_ofDayNumber t.day
  simp only [Date.isValid, Bool.and_eq_true, decide_eq_true_eq] at hdate
  obtain ⟨⟨⟨-, hmonth⟩, -⟩, hday⟩ := hdate
  have hdays := Date.daysInMonth_le (Date.ofDayNumber t.day).year (Date.ofDayNumber t.day).month
  have hyear : ∀ rest, year ((yearText (Date.ofDayNumber t.day).year).toList ++ '-' :: rest) =
      some ((Date.ofDayNumber t.day).year, '-' :: rest) := by
    intro rest
    apply year_yearText
    rintro c ⟨⟩
    rfl
  have hpart : ∀ {n : Nat}, n < 100 → ∀ rest, number 2 (paddedDigits 2 n ++ rest) =
      some (n, rest) := fun hn rest => number_padded (by decide) hn rest
  have hfraction : fraction ((fractionText (t.nano % 1000000000)).toList ++ ['Z']) =
      some (t.nano % 1000000000, ['Z']) := fraction_fractionText (Nat.mod_lt _ (by decide)) []
  have hminus : ∀ rest, mark '-' ('-' :: rest) = some rest := mark_cons rfl
  have hcolon : ∀ rest, mark ':' (':' :: rest) = some rest := mark_cons rfl
  have hzone : offset (skipBlanks ['Z']) = some (0, []) := rfl
  have hend : (skipBlanks []).isEmpty = true := rfl
  unfold ofText?
  rw [toList_text]
  simp only [hyear, hminus, hcolon, hpart (show (Date.ofDayNumber t.day).month < 100 by omega),
    hpart (show (Date.ofDayNumber t.day).day < 100 by omega),
    hpart (show t.second / 3600 < 100 by omega), hpart (show t.second / 60 % 60 < 100 by omega),
    hpart (show t.second % 60 + t.nano / 1000000000 < 100 by omega), hfraction, hzone, hend,
    Option.bind_eq_bind, Option.bind_some, if_true]
  exact ofLocal?_parts h

end Instant
end Restorable
