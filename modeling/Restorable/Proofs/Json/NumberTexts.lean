-- SUMMARY: The text of a number is read up to its end, and tells the number.
import Restorable.Proofs.Binary64.Shortest
import Restorable.Proofs.Json.Literals

/-!
# Texts of numbers

A float is written with a point or an exponent, an integer with neither, and the parts that the
reader finds in the text of a float have the value of its shortest decimal. So numbers with one
text are equal, the sign of a zero included.
-/
namespace Restorable
namespace Json

/-! ## Parts of a number -/

/-- The magnitude that the parts of a number have. -/
def NumberText.value (t : NumberText) : ℚ :=
  natOfDigits (t.whole ++ t.fraction.getD []) *
    10 ^ (t.exponent.getD 0 - ((t.fraction.getD []).length : Int))

/-- Whether the parts are those of a number as it is written. -/
def NumberText.Writes (t : NumberText) : Number → Prop
  | .int n => t.integer? = some n
  | .float x => t.integer? = none ∧ t.negative = x.negative ∧ t.value = x.shortest.value

/-- The parts of a number tell the number. -/
theorem NumberText.Writes.unique {t : NumberText} {m n : Number} (hm : t.Writes m)
    (hn : t.Writes n) : m = n := by
  cases m with
  | int m =>
    cases n with
    | int n => exact congrArg Number.int (Option.some.inj (hm.symm.trans hn))
    | float y => cases hm.symm.trans hn.1
  | float x =>
    cases n with
    | int n => cases hm.1.symm.trans hn
    | float y =>
      obtain ⟨-, hxneg, hxval⟩ := hm
      obtain ⟨-, hyneg, hyval⟩ := hn
      obtain ⟨hexp, hfrac⟩ := Binary64.eq_of_value_shortest (hxval.symm.trans hyval)
      obtain ⟨negative, exponent, fraction⟩ := x
      obtain ⟨negative', exponent', fraction'⟩ := y
      cases hexp
      cases hfrac
      cases hxneg.symm.trans hyneg
      rfl

private theorem natOfDigits_append_zeros (ds : List Char) (count : Nat) :
    natOfDigits (ds ++ List.replicate count '0') = natOfDigits ds * 10 ^ count := by
  have happend := Nat.ofDigitChars_append (b := 10) (l := ds) (m := List.replicate count '0') 0
  rw [Nat.ofDigitChars_replicate_zero, Nat.mul_comm] at happend
  exact happend

/-! ## Texts of floats -/

/-- The parts are those of a text that writes the number `q`, and is no integer. -/
structure NumberText.Spells (t : NumberText) (text : List Char) (q : ℚ) : Prop where
  legal : t.Legal
  chars : t.chars = text
  value : t.value = q
  float : t.integer? = none

/-- Digits with a point between them, and an exponent or none. -/
private theorem spells_point (front back : List Char) (e : Option Int) {text : List Char} {q : ℚ}
    (negative : Bool) (hfront : front ≠ []) (hback : back ≠ [])
    (hdigit : ∀ c ∈ front ++ back, c.isDigit = true) (hzero : ∀ d ds, front ≠ '0' :: d :: ds)
    (htext : front ++ '.' :: (back ++ exponentChars e) = text)
    (hq : natOfDigits (front ++ back) * 10 ^ (e.getD 0 - (back.length : Int)) = q) :
    (⟨negative, front, some back, e⟩ : NumberText).Spells text q := by
  obtain ⟨hdf, hdb⟩ := List.forall_mem_append.1 hdigit
  refine ⟨⟨⟨hfront, hdf⟩, hzero, ?_⟩, htext, hq, rfl⟩
  rintro ds ⟨⟩
  exact ⟨hback, hdb⟩

@[simp] theorem toList_digitText (d : Decimal) : d.digitText.toList = Nat.toDigits 10 d.digits :=
  Nat.toList_repr

private theorem length_repr (n : Nat) : (Nat.repr n).length = (Nat.toDigits 10 n).length := by
  rw [← String.length_toList, Nat.toList_repr]

@[simp] theorem toList_zeros (count : Nat) :
    (Decimal.zeros count).toList = List.replicate count '0' :=
  String.toList_ofList

private theorem isDigit_zeros (count : Nat) : ∀ c ∈ List.replicate count '0', c.isDigit = true := by
  intro c hc
  obtain rfl := (List.mem_replicate.1 hc).2
  rfl

/-- Zeros behind the digits of a number other than zero leave no zero in front. -/
private theorem toDigits_append_zeros_ne {n k : Nat} (hn : n = 0 → k = 0) (d : Char)
    (ds : List Char) :
    Nat.toDigits 10 n ++ List.replicate k '0' ≠ '0' :: d :: ds := by
  intro heq
  cases hfront : Nat.toDigits 10 n with
  | nil => exact Nat.toDigits_ne_nil hfront
  | cons c cs =>
    rw [hfront, List.cons_append] at heq
    obtain ⟨rfl, hrest⟩ := List.cons.inj heq
    obtain ⟨hzero, rfl⟩ := toDigits_eq_zero_cons hfront
    rw [hn hzero] at hrest
    cases hrest

/-- A decimal without a fractional part, with zeros behind its digits and one behind the point. -/
private theorem spells_whole {digits k : Nat} (hd : digits = 0 → k = 0) (negative : Bool) :
    (⟨negative, Nat.toDigits 10 digits ++ List.replicate k '0', some ['0'], none⟩ :
      NumberText).Spells ((⟨digits, .ofNat k⟩ : Decimal).positional ".0").toList
        (Decimal.value ⟨digits, .ofNat k⟩) := by
  apply spells_point
  · exact List.append_ne_nil_of_left_ne_nil Nat.toDigits_ne_nil _
  · exact List.cons_ne_nil _ _
  · exact List.forall_mem_append.2
      ⟨List.forall_mem_append.2 ⟨isDigit_of_mem_toDigits, isDigit_zeros k⟩, isDigit_zeros 1⟩
  · exact toDigits_append_zeros_ne hd
  · simp [exponentChars, Decimal.positional]
  · have hvalue : natOfDigits (Nat.toDigits 10 digits ++ List.replicate k '0' ++ ['0']) =
        digits * 10 ^ (k + 1) := by
      rw [List.append_assoc, ← List.replicate_succ', natOfDigits_append_zeros, natOfDigits_toDigits]
    rw [hvalue, Decimal.value, pow_succ]
    norm_num
    ring

/-- The digits of a number with a point between them. -/
private theorem spells_split {digits : Nat} {front back : List Char}
    (hsplit : front ++ back = Nat.toDigits 10 digits) (hfront : front ≠ []) (hback : back ≠ [])
    (negative : Bool) (e : Option Int) :
    (⟨negative, front, some back, e⟩ : NumberText).Spells
      (front ++ '.' :: (back ++ exponentChars e))
      (Decimal.value ⟨digits, e.getD 0 - (back.length : Int)⟩) := by
  refine spells_point front back e negative hfront hback ?_ ?_ rfl ?_
  · rw [hsplit]
    exact isDigit_of_mem_toDigits
  · rintro d ds rfl
    cases (toDigits_eq_zero_cons hsplit.symm).2
  · rw [hsplit, natOfDigits_toDigits]
    rfl

/-- A decimal below one, with zeros between the point and its digits. -/
private theorem spells_small (digits count : Nat) (negative : Bool) :
    (⟨negative, ['0'], some (List.replicate count '0' ++ Nat.toDigits 10 digits), none⟩ :
      NumberText).Spells ('0' :: '.' :: (List.replicate count '0' ++ Nat.toDigits 10 digits))
        (Decimal.value ⟨digits, -((count + (Nat.toDigits 10 digits).length : Nat) : Int)⟩) := by
  apply spells_point
  · exact List.cons_ne_nil _ _
  · exact List.append_ne_nil_of_right_ne_nil _ Nat.toDigits_ne_nil
  · exact List.forall_mem_append.2
      ⟨isDigit_zeros 1, List.forall_mem_append.2 ⟨isDigit_zeros count, isDigit_of_mem_toDigits⟩⟩
  · rintro d ds ⟨⟩
  · rw [exponentChars, List.append_nil]
    rfl
  · have hzeros : ['0'] ++ (List.replicate count '0' ++ Nat.toDigits 10 digits) =
        List.replicate (count + 1) '0' ++ Nat.toDigits 10 digits := rfl
    rw [hzeros, natOfDigits_zeros, natOfDigits_toDigits, Option.getD_none, zero_sub,
      List.length_append, List.length_replicate]
    rfl

private theorem toList_positional_split {digits k : Nat}
    (hp : k + 1 < (Nat.toDigits 10 digits).length) :
    (Decimal.positional ⟨digits, .negSucc k⟩ ".0").toList =
      (Nat.toDigits 10 digits).take ((Nat.toDigits 10 digits).length - (k + 1)) ++ '.' ::
        ((Nat.toDigits 10 digits).drop ((Nat.toDigits 10 digits).length - (k + 1)) ++
          exponentChars none) := by
  simp [exponentChars, Decimal.positional, Decimal.digitText, length_repr, Nat.toList_repr, hp]

private theorem toList_positional_small {digits k : Nat}
    (hp : ¬k + 1 < (Nat.toDigits 10 digits).length) :
    (Decimal.positional ⟨digits, .negSucc k⟩ ".0").toList =
      '0' :: '.' :: (List.replicate (k + 1 - (Nat.toDigits 10 digits).length) '0' ++
        Nat.toDigits 10 digits) := by
  simp [Decimal.positional, Decimal.digitText, length_repr, Nat.toList_repr, hp]

/-- Positional notation with a fractional part is read as the decimal. -/
private theorem exists_spells_positional {d : Decimal} (hd : d.digits = 0 → d.exponent ≤ 0)
    (negative : Bool) :
    ∃ t : NumberText, t.negative = negative ∧ t.Spells (d.positional ".0").toList d.value := by
  obtain ⟨digits, exponent⟩ := d
  cases exponent with
  | ofNat k =>
    have hzero : digits = 0 → k = 0 := by
      intro h
      have hle : (k : Int) ≤ 0 := hd h
      omega
    exact ⟨_, rfl, spells_whole hzero negative⟩
  | negSucc k =>
    by_cases hp : k + 1 < (Nat.toDigits 10 digits).length
    · have hsplit := List.take_append_drop ((Nat.toDigits 10 digits).length - (k + 1))
        (Nat.toDigits 10 digits)
      have hback : ((Nat.toDigits 10 digits).drop
          ((Nat.toDigits 10 digits).length - (k + 1))).length = k + 1 := by
        rw [List.length_drop]
        omega
      have hspells := spells_split hsplit
        (List.ne_nil_of_length_pos (by rw [List.length_take]; omega))
        (List.ne_nil_of_length_pos (by rw [hback]; exact Nat.succ_pos k)) negative none
      rw [← toList_positional_split hp, hback, Option.getD_none, zero_sub] at hspells
      exact ⟨_, rfl, hspells⟩
    · have hcount : k + 1 - (Nat.toDigits 10 digits).length + (Nat.toDigits 10 digits).length =
          k + 1 := by omega
      have hspells := spells_small digits (k + 1 - (Nat.toDigits 10 digits).length) negative
      rw [← toList_positional_small hp, hcount] at hspells
      exact ⟨_, rfl, hspells⟩

/-- The digits of an exponent stand behind its sign. -/
private theorem toList_exponent (e : Int) :
    ("e" ++ (if e < 0 then "-" else "+") ++ Nat.repr e.natAbs : String).toList =
      exponentChars (some e) := by
  by_cases h : e < 0 <;> simp [exponentChars, Nat.toList_repr, h]

/-- Scientific notation has its point behind the first digit, if there are more. -/
private theorem toList_scientific {d : Decimal} {c : Char} {ds : List Char}
    (hds : Nat.toDigits 10 d.digits = c :: ds) : d.scientific.toList =
      [c] ++ ((if ds.isEmpty then [] else '.' :: ds) ++ exponentChars (some d.leading)) := by
  rw [← toList_exponent]
  cases ds <;> simp [Decimal.scientific, hds]

/-- One digit and an exponent. -/
private theorem spells_digit {digits : Nat} {c : Char} (hds : Nat.toDigits 10 digits = [c])
    (negative : Bool) (e : Int) : (⟨negative, [c], none, some e⟩ : NumberText).Spells
      ([c] ++ exponentChars (some e)) (Decimal.value ⟨digits, e⟩) := by
  have hdigit : ∀ c' ∈ [c], c'.isDigit = true := hds ▸ isDigit_of_mem_toDigits
  have hvalue : natOfDigits [c] = digits := hds ▸ natOfDigits_toDigits digits
  refine ⟨⟨⟨List.cons_ne_nil _ _, hdigit⟩, fun _ _ h => ?_, fun _ h => ?_⟩, rfl, ?_, rfl⟩
  · cases h
  · cases h
  · simp [NumberText.value, Decimal.value, hvalue]

/-- Scientific notation is read as the decimal. -/
private theorem exists_spells_scientific (d : Decimal) (negative : Bool) :
    ∃ t : NumberText, t.negative = negative ∧ t.Spells d.scientific.toList d.value := by
  have hleading : d.leading = d.exponent + ((Nat.toDigits 10 d.digits).length : Int) - 1 := by
    rw [Decimal.leading, Decimal.digitText, length_repr]
  cases hds : Nat.toDigits 10 d.digits with
  | nil => exact absurd hds Nat.toDigits_ne_nil
  | cons c ds =>
    rw [hds, List.length_cons] at hleading
    rw [toList_scientific hds]
    cases ds with
    | nil =>
      have hexp : d.leading = d.exponent := by
        rw [hleading, List.length_nil]
        omega
      have hspells := spells_digit hds negative d.leading
      rw [hexp] at hspells ⊢
      exact ⟨_, rfl, hspells⟩
    | cons c' ds =>
      have hexp : d.leading - ((c' :: ds).length : Int) = d.exponent := by
        rw [hleading]
        omega
      have hspells := spells_split hds.symm (List.cons_ne_nil c []) (List.cons_ne_nil c' ds)
        negative (some d.leading)
      rw [Option.getD_some, hexp] at hspells
      exact ⟨_, rfl, hspells⟩

/-! ## Texts of numbers -/

/-- The text of a float is that of legal parts, and the parts tell the float. -/
private theorem exists_signed_float (x : Binary64) : ∃ t : NumberText, t.Legal ∧
    x.jsonText.toList = t.signed ∧ t.Writes (.float x) := by
  have hzero : x.shortest.digits = 0 → x.shortest.exponent ≤ 0 := by
    intro h
    cases hx : x.isZero with
    | true =>
      have hshortest : x.shortest = ⟨0, 0⟩ := if_pos hx
      rw [hshortest]
    | false =>
      have hpos := Binary64.value_shortest_pos hx
      rw [Decimal.value, h, Nat.cast_zero, zero_mul] at hpos
      exact absurd hpos (lt_irrefl 0)
  obtain ⟨t, hneg, ht⟩ : ∃ t : NumberText, t.negative = x.negative ∧ t.Spells
      (if -5 ≤ x.shortest.leading ∧ x.shortest.leading ≤ 15 then x.shortest.positional ".0"
        else x.shortest.scientific).toList x.shortest.value := by
    split
    · exact exists_spells_positional hzero x.negative
    · exact exists_spells_scientific x.shortest x.negative
  refine ⟨t, ht.legal, ?_, ht.float, hneg, ht.value⟩
  rw [Binary64.jsonText, String.toList_append, ← ht.chars, NumberText.signed, hneg,
    Binary64.signText]
  split <;> rfl

/-- The text of a number is that of legal parts, and the parts tell the number. -/
theorem exists_signed (n : Number) : ∃ t : NumberText, t.Legal ∧
    n.text.toList = t.signed ∧ t.Writes n := by
  cases n with
  | int n => exact n.exists_signed
  | float x => exact exists_signed_float x

theorem startsNumber_text (n : Number) : StartsNumber n.text.toList := by
  obtain ⟨t, ht, htext, -⟩ := exists_signed n
  exact htext ▸ startsNumber_signed ht

/-- Before the end of a number, the text tells the number. -/
theorem eq_of_text {m n : Number} {cs ds : List Char} (hc : Stops cs) (hd : Stops ds)
    (h : m.text.toList ++ cs = n.text.toList ++ ds) : m = n ∧ cs = ds := by
  obtain ⟨t, ht, htext, hm⟩ := exists_signed m
  obtain ⟨u, hu, hutext, hn⟩ := exists_signed n
  have hread := numberText_signed ht hc
  rw [← htext, h, hutext, numberText_signed hu hd] at hread
  obtain ⟨rfl, rfl⟩ := Prod.mk.inj (Option.some.inj hread)
  exact ⟨hm.unique hn, rfl⟩

end Json
end Restorable
