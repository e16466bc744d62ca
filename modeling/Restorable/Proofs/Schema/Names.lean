-- SUMMARY: Dotted names are read back from their text, and longer last pieces keep the namespace.
import Mathlib.Data.List.TakeWhile
import Restorable.Proofs.Schema.NamePool
import Restorable.Schema.Reader

/-!
# Dotted names

Splitting a text at its last dot and joining it again gives the text. A name is valid
exactly when all pieces of its text are identifiers. Appending an underscore and more
name characters to a name changes its last piece only, and never gives the word of a
primitive type.
-/
namespace Restorable
namespace Name

/-! ## The last dot -/

private theorem exists_last_dot {cs : List Char} (h : '.' ∈ cs) :
    ∃ before last, cs = before ++ '.' :: last ∧ '.' ∉ last := by
  obtain ⟨as, bs, hcs, has⟩ := List.eq_append_cons_of_mem (List.mem_reverse.2 h)
  refine ⟨bs.reverse, as.reverse, ?_, by simpa using has⟩
  have := congrArg List.reverse hcs
  simpa using this

private theorem splitLastDot_dotted {before last : List Char} (h : '.' ∉ last) :
    splitLastDot (before ++ '.' :: last) = some (before, last) := by
  have hall : ∀ c ∈ last.reverse, decide (c ≠ '.') = true := by
    intro c hc
    simp only [decide_eq_true_eq]
    rintro rfl
    exact h (List.mem_reverse.1 hc)
  unfold splitLastDot
  simp only [List.reverse_append, List.reverse_cons, List.append_assoc, List.singleton_append,
    List.takeWhile_append_of_pos hall, List.dropWhile_append_of_pos hall]
  simp

private theorem splitLastDot_undotted {cs : List Char} (h : '.' ∉ cs) : splitLastDot cs = none := by
  have hall : ∀ c ∈ cs.reverse, decide (c ≠ '.') = true := by
    intro c hc
    simp only [decide_eq_true_eq]
    rintro rfl
    exact h (List.mem_reverse.1 hc)
  unfold splitLastDot
  simp only [List.dropWhile_eq_nil_iff.2 hall]

theorem ofFull_dotted {before last : List Char} (h : '.' ∉ last) :
    ofFull (String.ofList (before ++ '.' :: last)) =
      ⟨String.ofList last, some (String.ofList before)⟩ := by
  simp only [ofFull, String.toList_ofList, splitLastDot_dotted h]

theorem ofFull_undotted {full : String} (h : '.' ∉ full.toList) : ofFull full = ⟨full, none⟩ := by
  simp only [ofFull, splitLastDot_undotted h]

/-- A text is undotted, or it has a last dot. -/
private theorem dotted_or_not (full : String) : '.' ∉ full.toList ∨
    ∃ before last, full = String.ofList (before ++ '.' :: last) ∧ '.' ∉ last := by
  by_cases h : '.' ∈ full.toList
  · obtain ⟨before, last, hfull, hlast⟩ := exists_last_dot h
    exact .inr ⟨before, last, by rw [← hfull, String.ofList_toList], hlast⟩
  · exact .inl h

/-- The name that a text writes has this text as its full name. -/
@[simp] theorem full_ofFull (text : String) : (ofFull text).full = text := by
  rcases dotted_or_not text with h | ⟨before, last, rfl, h⟩
  · rw [ofFull_undotted h]
    rfl
  · rw [ofFull_dotted h]
    apply String.toList_injective
    simp [full]

/-- Appending to a text without a further dot changes the simple name only. -/
private theorem ofFull_append {text suffix : String} (h : '.' ∉ suffix.toList) :
    ofFull (text ++ suffix) = ⟨(ofFull text).name ++ suffix, (ofFull text).space⟩ := by
  rcases dotted_or_not text with ht | ⟨before, last, rfl, hlast⟩
  · rw [ofFull_undotted ht, ofFull_undotted (by simp [ht, h])]
  · have hlong : '.' ∉ last ++ suffix.toList := by simp [hlast, h]
    have htext : String.ofList (before ++ '.' :: last) ++ suffix =
        String.ofList (before ++ '.' :: (last ++ suffix.toList)) := by
      apply String.toList_injective
      simp
    rw [htext, ofFull_dotted hlong, ofFull_dotted hlast]
    congr 1
    apply String.toList_injective
    simp

/-! ## Validity -/

private theorem pieces_undotted {cs : List Char} (h : '.' ∉ cs) : Text.pieces '.' cs = [cs] := by
  induction cs with
  | nil => rfl
  | cons c cs ih =>
    have hc : c ≠ '.' := by
      rintro rfl
      simp at h
    rw [Text.pieces, ih (fun hmem => h (List.mem_cons_of_mem c hmem))]
    simp [hc]

private theorem pieces_ne_nil (cs : List Char) : Text.pieces '.' cs ≠ [] := by
  cases cs with
  | nil => simp [Text.pieces]
  | cons c cs =>
    rw [Text.pieces]
    split
    · split <;> simp
    · simp

private theorem pieces_dotted (before last : List Char) :
    Text.pieces '.' (before ++ '.' :: last) = Text.pieces '.' before ++ Text.pieces '.' last := by
  induction before with
  | nil =>
    simp only [List.nil_append, Text.pieces]
    cases hl : Text.pieces '.' last with
    | nil => exact absurd hl (pieces_ne_nil last)
    | cons p ps => simp
  | cons c cs ih =>
    simp only [List.cons_append, Text.pieces, ih]
    cases hcs : Text.pieces '.' cs with
    | nil => exact absurd hcs (pieces_ne_nil cs)
    | cons p ps =>
      simp only [List.cons_append]
      split <;> rfl

/-- The name that a text writes is valid when every piece of the text is an identifier. -/
theorem isValid_ofFull (text : String) :
    (ofFull text).isValid = (Text.pieces '.' text.toList).all isIdentifier := by
  rcases dotted_or_not text with h | ⟨before, last, rfl, h⟩
  · rw [ofFull_undotted h, pieces_undotted h]
    simp [isValid]
  · rw [ofFull_dotted h]
    simp [isValid, pieces_dotted, pieces_undotted h, Bool.and_comm]

private theorem isIdentifier_append {cs ds : List Char} (hcs : isIdentifier cs = true)
    (hds : ∀ c ∈ ds, isPart c = true) : isIdentifier (cs ++ ds) = true := by
  cases cs with
  | nil => cases hcs
  | cons c cs =>
    simp only [isIdentifier, Bool.and_eq_true, List.all_eq_true] at hcs
    simp only [List.cons_append, isIdentifier, Bool.and_eq_true, List.all_eq_true]
    refine ⟨hcs.1, fun d hd => ?_⟩
    rcases List.mem_append.1 hd with hd | hd
    · exact hcs.2 d hd
    · exact hds d hd

theorem isPart_of_isIdentifier {cs : List Char} (h : isIdentifier cs = true) :
    ∀ c ∈ cs, isPart c = true := by
  cases cs with
  | nil => cases h
  | cons c cs =>
    simp only [isIdentifier, Bool.and_eq_true, List.all_eq_true] at h
    intro d hd
    rcases List.mem_cons.1 hd with rfl | hd
    · simp [isPart, h.1]
    · exact h.2 d hd

private theorem isPart_of_isDigit {c : Char} (h : c.isDigit = true) : isPart c = true := by
  simp only [Char.isDigit, Bool.and_eq_true, decide_eq_true_eq] at h
  simp only [isPart, Bool.or_eq_true, Bool.and_eq_true, decide_eq_true_eq]
  exact .inr h

theorem not_mem_of_isPart {cs : List Char} (h : ∀ c ∈ cs, isPart c = true) : '.' ∉ cs :=
  fun hmem => absurd (h '.' hmem) (by decide)

/-! ## Names that a document can define -/

/-- The words of the primitive types, which no definition may take. -/
def primitives : List String :=
  ["null", "boolean", "int", "long", "float", "double", "bytes", "string"]

/-- Identifiers between dots, and not just the word of a primitive type. -/
def Definable (text : String) : Prop :=
  (∀ p ∈ Text.pieces '.' text.toList, isIdentifier p = true) ∧ text ∉ primitives

theorem primitive?_eq_none {text : String} {a : Option Refinement} (h : text ∉ primitives) :
    Schema.primitive? text a = none := by
  unfold Schema.primitive?
  split <;> first | rfl | exact absurd (by decide) h

theorem isValid_of_definable {text : String} (h : Definable text) :
    (ofFull text).isValid = true := by
  rw [isValid_ofFull, List.all_eq_true]
  exact h.1

/-- A definable name stays definable, in the same namespace, when an underscore and name
characters are appended. -/
theorem definable_append {text suffix : String} (h : Definable text)
    (hs : ∀ c ∈ suffix.toList, isPart c = true) :
    Definable (text ++ "_" ++ suffix) ∧
      (ofFull (text ++ "_" ++ suffix)).space = (ofFull text).space := by
  have hall : ∀ c ∈ ("_" ++ suffix).toList, isPart c = true := by
    intro c hc
    simp only [String.toList_append, List.mem_append] at hc
    rcases hc with hc | hc
    · obtain rfl : c = '_' := by simpa using hc
      decide
    · exact hs c hc
  have hname := @ofFull_append text _ (not_mem_of_isPart hall)
  rw [← String.append_assoc] at hname
  have hvalid := isValid_of_definable h
  refine ⟨⟨?_, ?_⟩, by rw [hname]⟩
  · rw [← List.all_eq_true, ← isValid_ofFull, hname]
    simp only [isValid, Bool.and_eq_true, String.toList_append] at hvalid ⊢
    refine ⟨?_, hvalid.2⟩
    rw [← String.toList_append]
    simpa using isIdentifier_append hvalid.1 hall
  · intro hmem
    have hunder : '_' ∈ (text ++ "_" ++ suffix).toList := by simp
    have hnone : ∀ word ∈ primitives, '_' ∉ word.toList := by decide
    exact hnone _ hmem hunder

end Name

/-- Claimed names are definable, in the namespace of the candidate, if the candidate is. -/
theorem NamePool.definable_claim {candidate : String} (pool : NamePool)
    (h : Name.Definable candidate) : Name.Definable (pool.claim candidate).1 ∧
      (Name.ofFull (pool.claim candidate).1).space = (Name.ofFull candidate).space := by
  rcases pool.claim_eq_or_suffix candidate with heq | ⟨n, heq⟩
  · rw [heq]
    exact ⟨h, rfl⟩
  · rw [heq]
    refine Name.definable_append h fun c hc => ?_
    rw [Nat.toList_repr] at hc
    exact Name.isPart_of_isDigit (Nat.isDigit_of_mem_toDigits (by decide) (by decide) hc)

/-- Names derived for fields are definable, in the namespace of the record. -/
theorem NamePool.definable_childName {parent field : String} (h : Name.Definable parent)
    (hf : Name.isIdentifier field.toList = true) :
    Name.Definable (NamePool.childName parent field) ∧
      (Name.ofFull (NamePool.childName parent field)).space = (Name.ofFull parent).space :=
  Name.definable_append h (Name.isPart_of_isIdentifier hf)

end Restorable
