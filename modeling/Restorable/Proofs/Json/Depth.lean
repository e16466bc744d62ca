-- SUMMARY: What is parsed nests no more containers than the parser opens.
import Restorable.Proofs.Json.Rendering

/-!
# Depth

The reader opens a container only while its depth allows one more, so a value that was read
nests at most as many. Sorting drops entries and moves them, and nests nothing deeper.
-/
namespace Restorable
namespace Json

/-! ## Parts of a value -/

private theorem itemsDepth_le_iff {xs : List Json} {n : Nat} :
    itemsDepth xs ≤ n ↔ ∀ x ∈ xs, x.depth ≤ n := by
  induction xs with
  | nil => simp [itemsDepth]
  | cons x xs ih => rw [itemsDepth, Nat.max_le, ih, List.forall_mem_cons]

/-- An item lies inside its array. -/
theorem depth_le_of_mem {x : Json} {xs : List Json} (h : x ∈ xs) : x.depth ≤ itemsDepth xs :=
  itemsDepth_le_iff.1 (Nat.le_refl _) x h

theorem entriesDepth_le_iff {es : List (String × Json)} {n : Nat} :
    entriesDepth es ≤ n ↔ ∀ e ∈ es, e.2.depth ≤ n := by
  induction es with
  | nil => simp [entriesDepth]
  | cons e es ih =>
    obtain ⟨k, v⟩ := e
    rw [entriesDepth, Nat.max_le, ih, List.forall_mem_cons]

/-- The value under a key lies inside the object. -/
theorem depth_le_of_find? {key : String} {es : List (String × Json)} {v : Json}
    (h : find? key es = some v) : v.depth ≤ entriesDepth es := by
  induction es with
  | nil => cases h
  | cons e es ih =>
    obtain ⟨k, w⟩ := e
    rw [find?] at h
    rw [entriesDepth]
    split at h
    · obtain rfl := Option.some.inj h
      exact Nat.le_max_left _ _
    · exact Nat.le_trans (ih h) (Nat.le_max_right _ _)

/-! ## Reading -/

mutual

/-- A value nests at most the containers that were left to open. -/
private theorem depth_le_of_value : {fuel depth : Nat} → {cs rest : List Char} → {v : Json} →
    value fuel depth cs = some (v, rest) → v.depth ≤ depth
  | 0, _, _, _, _, h => by cases h
  | fuel + 1, depth, cs, rest, v, h => by
    unfold value at h
    simp only [Option.bind_eq_bind] at h
    -- Only the brackets of arrays and objects take from the depth.
    split at h
    case h_3 =>
      cases depth with
      | zero => cases h
      | succ depth =>
        dsimp only at h
        split at h
        · obtain ⟨rfl, -⟩ := Prod.mk.inj (Option.some.inj h)
          exact Nat.succ_le_succ (Nat.zero_le depth)
        · obtain ⟨⟨xs, behind⟩, hxs, h⟩ := Option.bind_eq_some_iff.1 h
          obtain ⟨rfl, -⟩ := Prod.mk.inj (Option.some.inj h)
          exact Nat.succ_le_succ (itemsDepth_le_of_items hxs)
    case h_4 =>
      cases depth with
      | zero => cases h
      | succ depth =>
        dsimp only at h
        split at h
        · obtain ⟨rfl, -⟩ := Prod.mk.inj (Option.some.inj h)
          exact Nat.succ_le_succ (Nat.zero_le depth)
        · obtain ⟨⟨es, behind⟩, hes, h⟩ := Option.bind_eq_some_iff.1 h
          obtain ⟨rfl, -⟩ := Prod.mk.inj (Option.some.inj h)
          exact Nat.succ_le_succ (entriesDepth_le_of_entries hes)
    -- Every other value is no container.
    case h_1 => cases h
    all_goals
      simp only [Option.bind_eq_some_iff, Option.some.injEq, Prod.mk.injEq, Prod.exists] at h
    case h_2 =>
      obtain ⟨text, behind, -, rfl, -⟩ := h
      exact Nat.zero_le depth
    case h_8 =>
      obtain ⟨t, behind, -, n, -, rfl, -⟩ := h
      exact Nat.zero_le depth
    all_goals
      obtain ⟨behind, -, rfl, -⟩ := h
      exact Nat.zero_le depth

private theorem itemsDepth_le_of_items :
    {fuel depth : Nat} → {cs rest : List Char} → {xs : List Json} →
    items fuel depth cs = some (xs, rest) → itemsDepth xs ≤ depth
  | 0, _, _, _, _, h => by cases h
  | fuel + 1, depth, cs, rest, xs, h => by
    simp only [items, Option.bind_eq_bind, Option.bind_eq_some_iff, Prod.exists] at h
    obtain ⟨x, mid, hx, h⟩ := h
    have hhead : x.depth ≤ depth := depth_le_of_value hx
    split at h
    · simp only [Option.bind_eq_some_iff, Prod.exists] at h
      obtain ⟨ys, behind, hys, h⟩ := h
      obtain ⟨rfl, -⟩ := Prod.mk.inj (Option.some.inj h)
      exact Nat.max_le.2 ⟨hhead, itemsDepth_le_of_items hys⟩
    · obtain ⟨rfl, -⟩ := Prod.mk.inj (Option.some.inj h)
      exact Nat.max_le.2 ⟨hhead, Nat.zero_le depth⟩
    · cases h

private theorem entriesDepth_le_of_entries : {fuel depth : Nat} → {cs rest : List Char} →
    {es : List (String × Json)} → entries fuel depth cs = some (es, rest) → entriesDepth es ≤ depth
  | 0, _, _, _, _, h => by cases h
  | fuel + 1, depth, cs, rest, es, h => by
    simp only [entries, Option.bind_eq_bind] at h
    split at h
    · obtain ⟨⟨k, afterKey⟩, -, h⟩ := Option.bind_eq_some_iff.1 h
      dsimp only at h
      split at h
      · obtain ⟨⟨v, afterValue⟩, hv, h⟩ := Option.bind_eq_some_iff.1 h
        have hhead : v.depth ≤ depth := depth_le_of_value hv
        dsimp only at h
        split at h
        · obtain ⟨⟨fs, behind⟩, hfs, h⟩ := Option.bind_eq_some_iff.1 h
          obtain ⟨rfl, -⟩ := Prod.mk.inj (Option.some.inj h)
          exact Nat.max_le.2 ⟨hhead, entriesDepth_le_of_entries hfs⟩
        · obtain ⟨rfl, -⟩ := Prod.mk.inj (Option.some.inj h)
          exact Nat.max_le.2 ⟨hhead, Nat.zero_le depth⟩
        · cases h
      · cases h
    · cases h

end

/-! ## Sorting -/

private theorem entriesDepth_insertEntry_le {key : String} {value : Json}
    {es : List (String × Json)} {n : Nat} (hv : value.depth ≤ n) (hes : entriesDepth es ≤ n) :
    entriesDepth (insertEntry key value es) ≤ n := by
  rw [entriesDepth_le_iff] at hes ⊢
  rintro ⟨k, v⟩ hmem
  rcases mem_insertEntry hmem with heq | hmem
  · obtain ⟨-, rfl⟩ := Prod.mk.inj heq
    exact hv
  · exact hes _ hmem

mutual

theorem depth_sorted_le : (v : Json) → v.sorted.depth ≤ v.depth
  | .null | .bool _ | .num _ | .str _ => Nat.le_refl _
  | .arr xs => Nat.succ_le_succ (itemsDepth_sortedItems_le xs)
  | .obj es =>
    Nat.succ_le_succ (entriesDepth_sortedEntries_le es [] (Nat.le_refl _) (Nat.zero_le _))

theorem itemsDepth_sortedItems_le : (xs : List Json) → itemsDepth (sortedItems xs) ≤ itemsDepth xs
  | [] => Nat.le_refl _
  | x :: xs =>
    Nat.max_le.2 ⟨Nat.le_trans (depth_sorted_le x) (Nat.le_max_left _ _),
      Nat.le_trans (itemsDepth_sortedItems_le xs) (Nat.le_max_right _ _)⟩

theorem entriesDepth_sortedEntries_le : (es acc : List (String × Json)) → {n : Nat} →
    entriesDepth es ≤ n → entriesDepth acc ≤ n → entriesDepth (sortedEntries es acc) ≤ n
  | [], acc, n, _, hacc => hacc
  | (k, v) :: es, acc, n, hes, hacc => by
    obtain ⟨hv, hes⟩ := Nat.max_le.1 hes
    have hinsert : entriesDepth (insertEntry k v.sorted acc) ≤ n :=
      entriesDepth_insertEntry_le (Nat.le_trans (depth_sorted_le v) hv) hacc
    exact entriesDepth_sortedEntries_le es (insertEntry k v.sorted acc) hes hinsert

end

/-- What is parsed from a text nests at most the containers that the parser opens. -/
theorem depth_le_of_parse? {text : String} {v : Json} (h : parse? text = some v) :
    v.depth ≤ maxDepth := by
  obtain ⟨w, hw, rfl⟩ := Option.map_eq_some_iff.1 h
  obtain ⟨⟨w', rest⟩, hvalue, hend⟩ := Option.bind_eq_some_iff.1 hw
  have hdepth : w'.depth ≤ maxDepth := depth_le_of_value hvalue
  dsimp only at hend
  split at hend
  · obtain rfl := Option.some.inj hend
    exact Nat.le_trans (depth_sorted_le w') hdepth
  · cases hend

end Json
end Restorable
