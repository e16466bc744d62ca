-- SUMMARY: Whatever is read as an instant can be written.
import Restorable.Proofs.Time.Instant

/-!
# Instants that are read

The reader takes any offset, a second 60, and as many digits of a fraction as there are. The
fraction stays below a full second and offsets are whole minutes, so a leap second stays the
last one of its minute, and what is read is an instant that can be written and read back.
-/
namespace Restorable
namespace Instant

/-! ## Parts -/

/-- The fraction that is read is less than a full second. -/
private theorem fraction_lt {cs rest : List Char} {nano : Nat}
    (h : fraction cs = some (nano, rest)) : nano < 1000000000 := by
  unfold fraction at h
  split at h
  · obtain ⟨⟨ds, behind⟩, hds, h⟩ := Option.bind_eq_some_iff.1 h
    obtain ⟨rfl, -⟩ := Prod.mk.inj (Option.some.inj h)
    have hvalue : Json.natOfDigits (ds.take 9) < 10 ^ (ds.take 9).length :=
      Json.natOfDigits_lt fun c hc => Json.isDigit_of_digits hds c (List.mem_of_mem_take hc)
    have hlength : (ds.take 9).length + (9 - (ds.take 9).length) = 9 := by
      have hle := List.length_take_le 9 ds
      omega
    calc Json.natOfDigits (ds.take 9) * 10 ^ (9 - (ds.take 9).length)
        < 10 ^ (ds.take 9).length * 10 ^ (9 - (ds.take 9).length) :=
          Nat.mul_lt_mul_of_pos_right hvalue (Nat.pow_pos (by decide))
      _ = 10 ^ 9 := by rw [← Nat.pow_add, hlength]
  · obtain ⟨rfl, -⟩ := Prod.mk.inj (Option.some.inj h)
    decide

/-- An offset is a whole number of minutes. -/
private theorem offset_mod_sixty {cs rest : List Char} {o : Int} (h : offset cs = some (o, rest)) :
    o % 60 = 0 := by
  unfold offset at h
  dsimp only at h
  split at h
  · obtain ⟨rfl, -⟩ := Prod.mk.inj (Option.some.inj h)
    rfl
  · split at h
    case h_1 | h_2 =>
      obtain ⟨rfl, -⟩ := Prod.mk.inj (Option.some.inj h)
      rfl
    case h_6 => cases h
    all_goals
      -- Behind a sign stand hours and minutes.
      split at h
      · split at h
        · split at h
          · obtain ⟨rfl, -⟩ := Prod.mk.inj (Option.some.inj h)
            split <;> omega
          · cases h
        · cases h
      · cases h

/-! ## Instants -/

private theorem valid_of_ofLocal? {date : Date} {hour minute second nano : Nat} {o : Int}
    {t : Instant} (hnano : nano < 1000000000) (ho : o % 60 = 0)
    (h : ofLocal? date hour minute second nano o = some t) : t.Valid := by
  unfold ofLocal? at h
  dsimp only at h
  split at h
  next hrange =>
    split at h
    next hyear =>
      simp only [Bool.and_eq_true, decide_eq_true_eq] at hrange
      obtain rfl := Option.some.inj h
      refine ⟨hyear, by dsimp only; omega, ?_⟩
      dsimp only
      -- A second 60 is the second 59 of its minute, and whole minutes do not move it.
      by_cases hleap : second = 60
      · subst hleap
        right
        omega
      · left
        omega
    next => cases h
  next => cases h

/-- What is read as an instant is one that can be written. -/
theorem valid_of_ofText? {text : String} {t : Instant} (h : ofText? text = some t) : t.Valid := by
  -- The fraction and the offset decide; the other parts are passed over.
  have skip : ∀ {α : Type} {x : Option α} {f : α → Option Instant}, (x >>= f) = some t →
      ∃ a, f a = some t := fun h => (Option.bind_eq_some_iff.1 h).imp fun _ h => h.2
  unfold ofText? at h
  obtain ⟨⟨year, _⟩, h⟩ := skip h
  obtain ⟨_, h⟩ := skip h
  obtain ⟨⟨month, _⟩, h⟩ := skip h
  obtain ⟨_, h⟩ := skip h
  obtain ⟨⟨day, _⟩, h⟩ := skip h
  dsimp only at h
  split at h
  case h_4 => cases h
  all_goals
    obtain ⟨_, h⟩ := skip h
    obtain ⟨⟨hour, _⟩, h⟩ := skip h
    obtain ⟨_, h⟩ := skip h
    obtain ⟨⟨minute, _⟩, h⟩ := skip h
    obtain ⟨_, h⟩ := skip h
    obtain ⟨⟨second, _⟩, h⟩ := skip h
    obtain ⟨⟨nano, _⟩, hnano, h⟩ := Option.bind_eq_some_iff.1 h
    obtain ⟨⟨o, _⟩, ho, h⟩ := Option.bind_eq_some_iff.1 h
    dsimp only at h
    split at h
    · exact valid_of_ofLocal? (fraction_lt hnano) (offset_mod_sixty ho) h
    · cases h

end Instant
end Restorable
