-- SUMMARY: The order of object keys, by code points, and that it is a strict total order.

/-!
# The order of keys

Keys are compared character by character, and a key precedes any longer one that it
begins. This is also the order of the bytes of their UTF-8 forms.
-/
namespace Restorable

/-- Characters that come first decide; the end comes before any character. -/
def precedesChars : List Char → List Char → Bool
  | _, [] => false
  | [], _ :: _ => true
  | c :: cs, d :: ds => c.toNat < d.toNat || (c.toNat = d.toNat && precedesChars cs ds)

/-- Whether a key comes before another. -/
def Precedes (k l : String) : Prop := precedesChars k.toList l.toList = true

instance (k l : String) : Decidable (Precedes k l) :=
  inferInstanceAs (Decidable (precedesChars k.toList l.toList = true))

/-! ## A strict total order -/

@[simp] theorem precedesChars_irrefl (cs : List Char) : precedesChars cs cs = false := by
  induction cs with
  | nil => rfl
  | cons c cs ih => simp [precedesChars, ih]

theorem precedesChars_trans {cs ds es : List Char} (h : precedesChars cs ds = true)
    (h' : precedesChars ds es = true) : precedesChars cs es = true := by
  induction cs generalizing ds es with
  | nil =>
    cases es with
    | nil => cases ds <;> simp [precedesChars] at h'
    | cons => rfl
  | cons c cs ih =>
    cases ds with
    | nil => simp [precedesChars] at h
    | cons d ds =>
      cases es with
      | nil => simp [precedesChars] at h'
      | cons e es =>
        simp only [precedesChars, Bool.or_eq_true, decide_eq_true_eq, Bool.and_eq_true] at h h' ⊢
        rcases h with h | ⟨heq, h⟩
        · rcases h' with h' | ⟨heq', -⟩
          · exact .inl (Nat.lt_trans h h')
          · exact .inl (heq' ▸ h)
        · rcases h' with h' | ⟨heq', h'⟩
          · exact .inl (heq ▸ h')
          · exact .inr ⟨heq.trans heq', ih h h'⟩

theorem precedesChars_of_not {cs ds : List Char} (h : precedesChars cs ds = false)
    (hne : cs ≠ ds) : precedesChars ds cs = true := by
  induction cs generalizing ds with
  | nil =>
    cases ds with
    | nil => exact absurd rfl hne
    | cons => simp [precedesChars] at h
  | cons c cs ih =>
    cases ds with
    | nil => rfl
    | cons d ds =>
      simp only [precedesChars, Bool.or_eq_false_iff, decide_eq_false_iff_not,
        Bool.and_eq_false_iff] at h
      simp only [precedesChars, Bool.or_eq_true, decide_eq_true_eq, Bool.and_eq_true]
      by_cases heq : c.toNat = d.toNat
      · refine .inr ⟨heq.symm, ih (h.2.resolve_left (not_not_intro heq)) fun hcs => hne ?_⟩
        rw [hcs, Char.toNat_inj.1 heq]
      · exact .inl (by omega)

theorem precedes_irrefl (k : String) : ¬ Precedes k k := by
  simp [Precedes]

theorem Precedes.trans {j k l : String} (h : Precedes j k) (h' : Precedes k l) : Precedes j l :=
  precedesChars_trans h h'

/-- Of two different keys one comes before the other. -/
theorem precedes_of_not {k l : String} (h : ¬ Precedes k l) (hne : k ≠ l) : Precedes l k :=
  precedesChars_of_not (by simpa [Precedes] using h) fun heq => hne (String.toList_inj.1 heq)

end Restorable
