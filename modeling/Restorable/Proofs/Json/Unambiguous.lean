-- SUMMARY: The compact text of a value is the text of no other value.
import Restorable.Proofs.Json.NumberTexts
import Restorable.Proofs.Json.Rendering

/-!
# Unambiguous texts

Where a value ends shows in its compact text, so a text that starts with a value starts with no
other one. The first character tells the kind of value, brackets and commas tell where the items
of containers end, and numbers end where the text goes on with no more of a number.
-/
namespace Restorable
namespace Json

/-! ## First characters -/

/-- The kind of a value by a character: the one its text starts with, and zero for any number. -/
def mark : Json → Char
  | .null => 'n'
  | .bool true => 't'
  | .bool false => 'f'
  | .num _ => '0'
  | .str _ => '"'
  | .arr _ => '['
  | .obj _ => '\x7b'

/-- The kind of value that starts with a character. -/
def markOf (c : Char) : Char := if c = '-' ∨ c.isDigit = true then '0' else c

/-- A text shows the kind of its value at once. -/
private theorem exists_mark (v : Json) :
    ∃ c cs, v.compact.toList = c :: cs ∧ markOf c = v.mark := by
  cases v with
  | num n =>
    obtain ⟨c, cs, hcs, hc⟩ := startsNumber_text n
    exact ⟨c, cs, hcs, if_pos hc⟩
  | str s => exact ⟨_, _, toList_quoted s, rfl⟩
  | bool b => cases b <;> exact ⟨_, _, rfl, rfl⟩
  | null => exact ⟨_, _, rfl, rfl⟩
  | arr xs => exact ⟨'[', (compactItems xs).toList ++ [']'], by simp [compact], rfl⟩
  | obj es => exact ⟨'\x7b', (compactEntries es).toList ++ ['\x7d'], by simp [compact], rfl⟩

variable {cs ds : List Char}

/-- Texts that go on alike start with values of one kind. -/
private theorem mark_eq {v w : Json} (h : v.compact.toList ++ cs = w.compact.toList ++ ds) :
    v.mark = w.mark := by
  obtain ⟨c, cs', hc, hv⟩ := exists_mark v
  obtain ⟨d, ds', hd, hw⟩ := exists_mark w
  rw [hc, hd, List.cons_append, List.cons_append] at h
  rw [← hv, ← hw, (List.cons.inj h).1]

/-- No value starts with the end of an array. -/
private theorem ne_bracket (v : Json) : v.compact.toList ++ cs ≠ ']' :: ds := by
  intro h
  obtain ⟨c, cs', hc, hv⟩ := exists_mark v
  rw [hc, List.cons_append] at h
  obtain ⟨rfl, -⟩ := List.cons.inj h
  cases v with
  | bool b => cases b <;> cases hv
  | _ => cases hv

/-! ## Strings and containers -/

/-- A quoted string shows where it ends. -/
theorem quoted_unique {s t : String} (h : (quoted s).toList ++ cs = (quoted t).toList ++ ds) :
    s = t ∧ cs = ds := by
  obtain ⟨body, hs, hbody⟩ := stringBody_quoted s cs
  obtain ⟨body', ht, hbody'⟩ := stringBody_quoted t ds
  rw [hs, ht] at h
  obtain ⟨-, rfl⟩ := List.cons.inj h
  rw [hbody] at hbody'
  obtain ⟨hlist, rfl⟩ := Prod.mk.inj (Option.some.inj hbody')
  exact ⟨String.toList_inj.1 hlist, rfl⟩

/-- What follows an item or an entry: the closing bracket, or a comma and what is left. -/
def tail {α : Type} (bracket : Char) (text : List α → String) : List α → List Char → List Char
  | [], cs => bracket :: cs
  | x :: xs, cs => ',' :: ((text (x :: xs)).toList ++ bracket :: cs)

private theorem toList_compactItems (x : Json) (xs : List Json) (cs : List Char) :
    (compactItems (x :: xs)).toList ++ ']' :: cs =
      x.compact.toList ++ tail ']' compactItems xs cs := by
  cases xs with
  | nil => rfl
  | cons y ys => simp [compactItems, tail]

private theorem toList_compactEntries (k : String) (v : Json) (es : List (String × Json))
    (cs : List Char) :
    (compactEntries ((k, v) :: es)).toList ++ '\x7d' :: cs =
      (quoted k).toList ++ ':' :: (v.compact.toList ++ tail '\x7d' compactEntries es cs) := by
  cases es with
  | nil => simp [compactEntries, tail]
  | cons e es => simp [compactEntries, tail]

section Tail

variable {α : Type} {bracket : Char} {text : List α → String}

private theorem stops_tail (hb : bracket = ']' ∨ bracket = '\x7d') (xs : List α) (cs : List Char) :
    Stops (tail bracket text xs cs) := by
  cases xs with
  | nil => exact stops_delimiter blank_nil (by rcases hb with rfl | rfl <;> decide) cs
  | cons x xs => exact stops_delimiter blank_nil (by decide) _

/-- What is left is the same, and ends at the same place, if that holds behind a comma. -/
private theorem tail_unique (hb : bracket = ']' ∨ bracket = '\x7d') {xs ys : List α}
    (h : tail bracket text xs cs = tail bracket text ys ds)
    (hrest : (text xs).toList ++ bracket :: cs = (text ys).toList ++ bracket :: ds →
      xs = ys ∧ cs = ds) : xs = ys ∧ cs = ds := by
  have hcomma : bracket ≠ ',' := by
    rcases hb with rfl | rfl <;> decide
  cases xs with
  | nil =>
    cases ys with
    | nil => exact ⟨rfl, (List.cons.inj h).2⟩
    | cons y ys => exact absurd (List.cons.inj h).1 hcomma
  | cons x xs =>
    cases ys with
    | nil => exact absurd (List.cons.inj h).1.symm hcomma
    | cons y ys => exact hrest (List.cons.inj h).2

end Tail

/-! ## Values -/

mutual

/-- A text starts with one value at most, and shows where it ends. -/
theorem compact_unique : (v w : Json) → (cs ds : List Char) → Stops cs → Stops ds →
    v.compact.toList ++ cs = w.compact.toList ++ ds → v = w ∧ cs = ds
  | .num m, w, cs, ds => by
    intro hc hd h
    cases w with
    | num n =>
      rw [compact, compact] at h
      obtain ⟨rfl, hrest⟩ := eq_of_text hc hd h
      exact ⟨rfl, hrest⟩
    | bool b => cases b <;> cases mark_eq h
    | _ => cases mark_eq h
  | .str s, w, cs, ds => by
    intro _ _ h
    cases w with
    | str t =>
      rw [compact, compact] at h
      obtain ⟨rfl, hrest⟩ := quoted_unique h
      exact ⟨rfl, hrest⟩
    | bool b => cases b <;> cases mark_eq h
    | _ => cases mark_eq h
  | .arr xs, w, cs, ds => by
    intro _ _ h
    cases w with
    | arr ys =>
      have hitems : (compactItems xs).toList ++ ']' :: cs =
          (compactItems ys).toList ++ ']' :: ds := by
        simpa [compact] using h
      obtain ⟨rfl, hrest⟩ := items_unique xs ys hitems
      exact ⟨rfl, hrest⟩
    | bool b => cases b <;> cases mark_eq h
    | _ => cases mark_eq h
  | .obj es, w, cs, ds => by
    intro _ _ h
    cases w with
    | obj fs =>
      have hentries : (compactEntries es).toList ++ '\x7d' :: cs =
          (compactEntries fs).toList ++ '\x7d' :: ds := by
        simpa [compact] using h
      obtain ⟨rfl, hrest⟩ := entries_unique es fs hentries
      exact ⟨rfl, hrest⟩
    | bool b => cases b <;> cases mark_eq h
    | _ => cases mark_eq h
  | .null, w, cs, ds => by
    intro _ _ h
    cases w with
    | null => exact ⟨rfl, List.append_cancel_left h⟩
    | bool b => cases b <;> cases mark_eq h
    | _ => cases mark_eq h
  | .bool a, w, cs, ds => by
    intro _ _ h
    cases w with
    | bool b =>
      cases a <;> cases b <;> first
        | exact ⟨rfl, List.append_cancel_left h⟩
        | cases mark_eq h
    | _ => cases a <;> cases mark_eq h

theorem items_unique : (xs ys : List Json) → {cs ds : List Char} →
    (compactItems xs).toList ++ ']' :: cs = (compactItems ys).toList ++ ']' :: ds →
    xs = ys ∧ cs = ds
  | [], [], _, _, h => ⟨rfl, (List.cons.inj h).2⟩
  | [], y :: ys, _, _, h => by
    rw [toList_compactItems] at h
    exact absurd h.symm (ne_bracket y)
  | x :: xs, [], _, _, h => by
    rw [toList_compactItems] at h
    exact absurd h (ne_bracket x)
  | x :: xs, y :: ys, cs, ds, h => by
    rw [toList_compactItems, toList_compactItems] at h
    obtain ⟨rfl, htail⟩ := compact_unique x y _ _ (stops_tail (.inl rfl) xs cs)
      (stops_tail (.inl rfl) ys ds) h
    obtain ⟨rfl, hrest⟩ := tail_unique (.inl rfl) htail (items_unique xs ys)
    exact ⟨rfl, hrest⟩

theorem entries_unique : (es fs : List (String × Json)) → {cs ds : List Char} →
    (compactEntries es).toList ++ '\x7d' :: cs = (compactEntries fs).toList ++ '\x7d' :: ds →
    es = fs ∧ cs = ds
  | [], [], _, _, h => ⟨rfl, (List.cons.inj h).2⟩
  | [], (l, w) :: fs, _, _, h => by
    rw [toList_compactEntries, toList_quoted] at h
    cases h
  | (k, v) :: es, [], _, _, h => by
    rw [toList_compactEntries, toList_quoted] at h
    cases h
  | (k, v) :: es, (l, w) :: fs, cs, ds, h => by
    rw [toList_compactEntries, toList_compactEntries] at h
    obtain ⟨rfl, hvalue⟩ := quoted_unique h
    obtain ⟨rfl, htail⟩ := compact_unique v w _ _ (stops_tail (.inr rfl) es cs)
      (stops_tail (.inr rfl) fs ds) (List.cons.inj hvalue).2
    obtain ⟨rfl, hrest⟩ := tail_unique (.inr rfl) htail (entries_unique es fs)
    exact ⟨rfl, hrest⟩

end

/-- Values with the same compact text are equal. -/
theorem compact_injective : Function.Injective compact := by
  intro v w h
  have hstops : Stops [] := fun c hc => by cases hc
  exact (compact_unique v w [] [] hstops hstops (congrArg (fun s => s.toList ++ []) h)).1

end Json
end Restorable
