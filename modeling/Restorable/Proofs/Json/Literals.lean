-- SUMMARY: Strings and integers are read back from the text that is written for them.
import Restorable.Json.Writer
import Restorable.Proofs.Json.Digits

/-!
# Literals

Each character of a string is written as itself or as an escape, and either is read as the
character. An integer is read as itself where the text does not go on with more of a number.
-/
namespace Restorable

namespace Json

/-! ## Strings -/

@[simp] theorem hexDigit?_lowerHex (n : Nat) : hexDigit? (lowerHex n) = some (n % 16) := by
  have hall : ∀ m < 16, hexDigit? (Nat.digitChar m) = some m := by decide
  exact hall (n % 16) (Nat.mod_lt n (by decide))

/-- A control character is read from its four hexadecimal digits. -/
private theorem unicodeEscape_control {c : Char} (h : c.toNat < 0x20) (rest : List Char) :
    unicodeEscape ('0' :: '0' :: lowerHex (c.toNat / 16) :: lowerHex c.toNat :: rest) =
      some (c, rest) := by
  have hunit : codeUnit ('0' :: '0' :: lowerHex (c.toNat / 16) :: lowerHex c.toNat :: rest) =
      some (c.toNat, rest) := by
    have hzero : hexDigit? '0' = some 0 := rfl
    simp only [codeUnit, hzero, hexDigit?_lowerHex, Option.bind_eq_bind, Option.bind_some]
    congr 2
    omega
  have hlow : ¬ (0xDC00 ≤ c.toNat ∧ c.toNat ≤ 0xDFFF) := by omega
  have hhigh : ¬ (0xD800 ≤ c.toNat ∧ c.toNat ≤ 0xDBFF) := by omega
  unfold unicodeEscape
  simp only [hunit, Option.bind_eq_bind, Option.bind_some, if_neg hlow, if_neg hhigh,
    Char.ofNat_toNat]

/-- A character is written as an escape that is read as it, or as itself where that is no
quote, no backslash and no control character. -/
private theorem escaped_cases (c : Char) :
    (∃ es, escaped c = '\\' :: es ∧ ∀ rest, escape (es ++ rest) = some (c, rest)) ∨
      (escaped c = [c] ∧ c ≠ '"' ∧ c ≠ '\\' ∧ ¬ c.toNat < 0x20) := by
  by_cases hquote : c = '"'
  · exact .inl ⟨['"'], by rw [hquote]; rfl, fun rest => by rw [hquote]; rfl⟩
  by_cases hslash : c = '\\'
  · exact .inl ⟨['\\'], by rw [hslash]; rfl, fun rest => by rw [hslash]; rfl⟩
  by_cases hback : c = '\x08'
  · exact .inl ⟨['b'], by rw [hback]; rfl, fun rest => by rw [hback]; rfl⟩
  by_cases hfeed : c = '\x0c'
  · exact .inl ⟨['f'], by rw [hfeed]; rfl, fun rest => by rw [hfeed]; rfl⟩
  by_cases hline : c = '\n'
  · exact .inl ⟨['n'], by rw [hline]; rfl, fun rest => by rw [hline]; rfl⟩
  by_cases hreturn : c = '\r'
  · exact .inl ⟨['r'], by rw [hreturn]; rfl, fun rest => by rw [hreturn]; rfl⟩
  by_cases htab : c = '\t'
  · exact .inl ⟨['t'], by rw [htab]; rfl, fun rest => by rw [htab]; rfl⟩
  simp only [escaped, if_neg hquote, if_neg hslash, if_neg hback, if_neg hfeed, if_neg hline,
    if_neg hreturn, if_neg htab]
  by_cases hcontrol : c.toNat < 0x20
  · refine .inl ⟨_, if_pos hcontrol, ?_⟩
    intro rest
    exact unicodeEscape_control hcontrol rest
  · exact .inr ⟨if_neg hcontrol, hquote, hslash, hcontrol⟩

/-- The characters of a string are read from what is written for them. -/
theorem stringBody_escaped (cs rest : List Char) {fuel : Nat} (hf : cs.length < fuel) :
    stringBody fuel (cs.flatMap escaped ++ '"' :: rest) = some (cs, rest) := by
  induction cs generalizing fuel with
  | nil =>
    obtain ⟨fuel, rfl⟩ := Nat.exists_eq_succ_of_ne_zero (Nat.ne_of_gt hf)
    rfl
  | cons c cs ih =>
    obtain ⟨fuel, rfl⟩ := Nat.exists_eq_succ_of_ne_zero (Nat.ne_of_gt (Nat.zero_lt_of_lt hf))
    have hrest := ih (Nat.lt_of_succ_lt_succ hf)
    rw [List.flatMap_cons, List.append_assoc]
    rcases escaped_cases c with ⟨es, hes, hescape⟩ | ⟨hself, hquote, hslash, hcontrol⟩
    · rw [hes, List.cons_append, stringBody]
      simp only [hescape, hrest, Option.bind_eq_bind, Option.bind_some]
    · rw [hself, List.singleton_append, stringBody]
      · simp only [if_neg hcontrol, hrest, Option.bind_eq_bind, Option.bind_some]
      · exact fun h => hquote h
      · exact fun h => hslash h

theorem length_le_flatMap_escaped (cs : List Char) : cs.length ≤ (cs.flatMap escaped).length := by
  induction cs with
  | nil => exact Nat.le_refl 0
  | cons c cs ih =>
    have hc : 1 ≤ (escaped c).length := by
      rcases escaped_cases c with ⟨es, hes, -⟩ | ⟨hself, -⟩
      · rw [hes, List.length_cons]
        omega
      · rw [hself, List.length_singleton]
    rw [List.flatMap_cons, List.length_append, List.length_cons]
    omega

/-- The text of a string between its quotes. -/
@[simp] theorem toList_quoted (s : String) :
    (quoted s).toList = '"' :: (s.toList.flatMap escaped ++ ['"']) := by
  simp [quoted]

end Json

/-! ## Numbers -/

/-- The text does not go on with more of a number. -/
def Json.Stops (rest : List Char) : Prop :=
  ∀ c ∈ rest.head?, c.isDigit = false ∧ c ≠ '.' ∧ c ≠ 'e' ∧ c ≠ 'E'

/-- The characters that a number starts with. -/
def Json.StartsNumber (cs : List Char) : Prop :=
  ∃ c ds, cs = c :: ds ∧ (c = '-' ∨ c.isDigit = true)

/-- The text that is written for a number is read as the number. -/
structure Number.ReadsBack (n : Number) : Prop where
  starts : Json.StartsNumber n.text.toList
  reads : ∀ rest, Json.Stops rest →
    ∃ t, Json.numberText (n.text.toList ++ rest) = some (t, rest) ∧ t.number? = some n

namespace Json

/-! ## Parts of a number -/

def fractionChars : Option (List Char) → List Char
  | none => []
  | some ds => '.' :: ds

def exponentChars : Option Int → List Char
  | none => []
  | some e => 'e' :: (if e < 0 then '-' else '+') :: Nat.toDigits 10 e.natAbs

/-- The text of the parts without the sign. -/
def NumberText.chars (t : NumberText) : List Char :=
  t.whole ++ (fractionChars t.fraction ++ exponentChars t.exponent)

/-- The text of the parts, behind a minus sign where they are negative. -/
def NumberText.signed (t : NumberText) : List Char :=
  if t.negative then '-' :: t.chars else t.chars

/-- Whole digits without a zero in front of others, and a digit in a fraction. -/
structure NumberText.Legal (t : NumberText) : Prop where
  whole : t.whole ≠ [] ∧ ∀ c ∈ t.whole, c.isDigit = true
  zero : ∀ d ds, t.whole ≠ '0' :: d :: ds
  fraction : ∀ ds, t.fraction = some ds → ds ≠ [] ∧ ∀ c ∈ ds, c.isDigit = true

variable {rest : List Char} {t : NumberText}

private theorem noDigit_cons {c : Char} (hc : c.isDigit = false) (cs : List Char) :
    NoDigit (c :: cs) := by
  rintro d ⟨⟩
  exact hc

private theorem noDigit_exponentChars (e : Option Int) (hr : Stops rest) :
    NoDigit (exponentChars e ++ rest) := by
  cases e with
  | none => exact fun c hc => (hr c hc).1
  | some e => exact noDigit_cons rfl _

/-- What is read behind the whole digits is no digit. -/
private theorem noDigit_fractionChars (f : Option (List Char)) (e : Option Int) (hr : Stops rest) :
    NoDigit (fractionChars f ++ (exponentChars e ++ rest)) := by
  cases f with
  | none => exact noDigit_exponentChars e hr
  | some ds => exact noDigit_cons rfl _

private theorem exponentPart_exponentChars (e : Option Int) (hr : Stops rest) :
    exponentPart (exponentChars e ++ rest) = some (e, rest) := by
  cases e with
  | none =>
    rw [exponentChars, List.nil_append]
    unfold exponentPart
    split
    · exact absurd rfl (hr _ rfl).2.2.1
    · exact absurd rfl (hr _ rfl).2.2.2
    · rfl
  | some e =>
    have hdigits := digits_append Nat.toDigits_ne_nil
      (isDigit_of_mem_toDigits (n := e.natAbs)) (fun c hc => (hr c hc).1)
    by_cases hneg : e < 0
    · have habs : -(e.natAbs : Int) = e := by omega
      simp only [exponentChars, if_pos hneg, List.cons_append, exponentPart, signedDigits, hdigits,
        natOfDigits_toDigits, habs, Option.bind_eq_bind, Option.bind_some]
    · have habs : (e.natAbs : Int) = e := by omega
      simp only [exponentChars, if_neg hneg, List.cons_append, exponentPart, signedDigits, hdigits,
        natOfDigits_toDigits, habs, Option.bind_eq_bind, Option.bind_some]

private theorem fractionDigits_fractionChars {f : Option (List Char)} (e : Option Int)
    (hr : Stops rest) (hf : ∀ ds, f = some ds → ds ≠ [] ∧ ∀ c ∈ ds, c.isDigit = true) :
    fractionDigits (fractionChars f ++ (exponentChars e ++ rest)) =
      some (f, exponentChars e ++ rest) := by
  cases f with
  | none =>
    have hpoint : ∀ cs, exponentChars e ++ rest ≠ '.' :: cs := by
      intro cs heq
      cases e with
      | none => exact absurd rfl (hr '.' (congrArg List.head? heq)).2.1
      | some e => cases heq
    rw [fractionChars, List.nil_append]
    unfold fractionDigits
    split
    next heq => exact absurd heq (hpoint _)
    next => rfl
  | some ds =>
    obtain ⟨hne, hd⟩ := hf ds rfl
    rw [fractionChars, List.cons_append, fractionDigits,
      digits_append hne hd (noDigit_exponentChars e hr)]
    rfl

private theorem unsignedText_chars (ht : t.Legal) (hr : Stops rest) :
    unsignedText t.negative (t.chars ++ rest) = some (t, rest) := by
  have hwhole : wholeDigits (t.chars ++ rest) =
      some (t.whole, fractionChars t.fraction ++ (exponentChars t.exponent ++ rest)) := by
    rw [NumberText.chars, List.append_assoc, List.append_assoc]
    exact wholeDigits_append ht.whole.1 ht.whole.2 ht.zero
      (noDigit_fractionChars t.fraction t.exponent hr)
  simp only [unsignedText, hwhole, fractionDigits_fractionChars t.exponent hr ht.fraction,
    exponentPart_exponentChars t.exponent hr, Option.bind_eq_bind, Option.bind_some]

theorem NumberText.Legal.head (ht : t.Legal) : ∃ c cs, t.chars = c :: cs ∧ c.isDigit = true := by
  obtain ⟨hne, hd⟩ := ht.whole
  cases hw : t.whole with
  | nil => exact absurd hw hne
  | cons c cs =>
    rw [NumberText.chars, hw, List.cons_append]
    exact ⟨c, _, rfl, hd c (hw ▸ List.mem_cons_self)⟩

theorem startsNumber_signed (ht : t.Legal) : StartsNumber t.signed := by
  unfold NumberText.signed
  split
  · exact ⟨'-', t.chars, rfl, .inl rfl⟩
  · obtain ⟨c, cs, hcs, hc⟩ := ht.head
    exact ⟨c, cs, hcs, .inr hc⟩

/-- Legal parts are read from their text. -/
theorem numberText_signed (ht : t.Legal) (hr : Stops rest) :
    numberText (t.signed ++ rest) = some (t, rest) := by
  have hread := unsignedText_chars ht hr
  unfold NumberText.signed
  split
  next hneg =>
    rw [hneg] at hread
    exact hread
  next hneg =>
    obtain ⟨c, cs, hcs, hc⟩ := ht.head
    rw [Bool.not_eq_true] at hneg
    rw [hneg, hcs] at hread
    rw [hcs]
    unfold numberText
    split
    next heq =>
      obtain ⟨rfl, -⟩ := List.cons.inj heq
      cases hc
    next => exact hread

/-- The digits of a number are the parts of an integer. -/
private theorem legal_toDigits (negative : Bool) (n : Nat) :
    (⟨negative, Nat.toDigits 10 n, none, none⟩ : NumberText).Legal := by
  refine ⟨⟨Nat.toDigits_ne_nil, isDigit_of_mem_toDigits⟩, fun d ds heq => ?_, fun ds h => ?_⟩
  · cases (toDigits_eq_zero_cons heq).2
  · cases h

private theorem integer?_whole (ds : List Char) :
    NumberText.integer? ⟨false, ds, none, none⟩ = Integer.ofInt? (natOfDigits ds) := by
  unfold NumberText.integer?
  exact if_neg Bool.false_ne_true

private theorem integer?_negative {ds : List Char} (h : natOfDigits ds ≠ 0) :
    NumberText.integer? ⟨true, ds, none, none⟩ = Integer.ofInt? (-(natOfDigits ds : Int)) := by
  unfold NumberText.integer?
  exact (if_pos rfl).trans (if_neg h)

end Json

@[simp] theorem Integer.ofInt?_val (n : Integer) : Integer.ofInt? n.val = some n := by
  rw [Integer.ofInt?, dif_pos ⟨n.lower, n.upper⟩]

/-- The text of an integer is that of legal parts, and the parts tell the integer. -/
theorem Integer.exists_signed (n : Integer) : ∃ t : Json.NumberText, t.Legal ∧
    (Number.int n).text.toList = t.signed ∧ t.integer? = some n := by
  cases hval : n.val with
  | ofNat m =>
    refine ⟨⟨false, Nat.toDigits 10 m, none, none⟩, Json.legal_toDigits false m, ?_, ?_⟩
    · rw [Number.text, hval]
      change (Nat.repr m).toList = Nat.toDigits 10 m ++ ([] ++ [])
      rw [Nat.toList_repr, List.append_nil, List.append_nil]
    · rw [Json.integer?_whole, Json.natOfDigits_toDigits, ← Int.ofNat_eq_natCast, ← hval,
        n.ofInt?_val]
  | negSucc m =>
    refine ⟨⟨true, Nat.toDigits 10 (m + 1), none, none⟩, Json.legal_toDigits true (m + 1), ?_, ?_⟩
    · rw [Number.text, hval]
      change ("-" ++ Nat.repr (m + 1)).toList = '-' :: (Nat.toDigits 10 (m + 1) ++ ([] ++ []))
      rw [String.toList_append, Nat.toList_repr, List.append_nil, List.append_nil]
      rfl
    · have hvalue := Json.natOfDigits_toDigits (m + 1)
      have hne : Json.natOfDigits (Nat.toDigits 10 (m + 1)) ≠ 0 := by
        rw [hvalue]
        exact Nat.succ_ne_zero m
      rw [Json.integer?_negative hne, hvalue, Int.neg_ofNat_succ, ← hval, n.ofInt?_val]

/-- Integers are read back. -/
theorem Number.readsBack_int (n : Integer) : (Number.int n).ReadsBack := by
  obtain ⟨t, ht, htext, hn⟩ := n.exists_signed
  refine ⟨htext ▸ Json.startsNumber_signed ht, fun rest hr => ⟨t, ?_, ?_⟩⟩
  · rw [htext, Json.numberText_signed ht hr]
  · rw [Json.NumberText.number?, hn]

end Restorable
