-- SUMMARY: Reading back the numbers, lists and entries that JSON values are made of.
import Restorable.Json.Sorted

/-!
# Accessors of JSON values

An accessor gives back what a value was made of: numbers in the range of their type,
strings, and the entry last put under a key.
-/
namespace Restorable
namespace Json

/-! ## Numbers -/

@[simp] theorem uint64?_ofUInt32 (n : UInt32) : (ofUInt32 n).uint64? = some n.toUInt64 := by
  simp [ofUInt32, uint64?, Integer.ofUInt32, Integer.toUInt64?]

@[simp] theorem uint64?_ofUInt64 (n : UInt64) : (ofUInt64 n).uint64? = some n :=
  Integer.toUInt64?_ofUInt64 n

@[simp] theorem uint32?_ofUInt32 (n : UInt32) : (ofUInt32 n).uint32? = some n := by
  have hlt : n.toUInt64 < 4294967296 := by
    rw [UInt64.lt_iff_toNat_lt, UInt32.toNat_toUInt64]
    exact n.toNat_lt
  simp [uint32?, hlt]

theorem uint32?_ofUInt64 {n : UInt64} (h : n < 4294967296) :
    (ofUInt64 n).uint32? = some n.toUInt32 := by
  simp [uint32?, h]

theorem uint32?_ofUInt64_of_le {n : UInt64} (h : 4294967296 ≤ n) : (ofUInt64 n).uint32? = none := by
  have hlarge : ¬ n < 4294967296 := UInt64.not_lt.2 h
  simp [uint32?, hlarge]

/-- A 32-bit integer is also read as a 64-bit one. -/
theorem uint64?_of_uint32? {v : Json} {n : UInt32} (h : v.uint32? = some n) :
    v.uint64? = some n.toUInt64 := by
  obtain ⟨m, hm, h⟩ := Option.bind_eq_some_iff.1 h
  split at h
  next hlt =>
    obtain rfl := Option.some.inj h
    rw [hm, Option.some.injEq, ← UInt64.toNat_inj, UInt32.toNat_toUInt64, UInt64.toNat_toUInt32]
    exact (Nat.mod_eq_of_lt (UInt64.lt_iff_toNat_lt.1 hlt)).symm
  next => cases h

@[simp] theorem sorted_ofUInt32 (n : UInt32) : (ofUInt32 n).sorted = ofUInt32 n := rfl

@[simp] theorem sorted_ofUInt64 (n : UInt64) : (ofUInt64 n).sorted = ofUInt64 n := rfl

/-! ## Lists of strings -/

@[simp] theorem sortedItems_strings (ss : List String) :
    sortedItems (ss.map .str) = ss.map .str := by
  induction ss with
  | nil => rfl
  | cons s ss ih => simp only [List.map_cons, sortedItems, sorted, ih]

theorem filterMap_strings (ss : List String) : (ss.map .str).filterMap str? = ss := by
  induction ss with
  | nil => rfl
  | cons s ss ih => simp only [List.map_cons, List.filterMap_cons, str?, ih]

/-! ## Entries -/

@[simp] theorem find?_insertEntry_self (key : String) (value : Json) (es : List (String × Json)) :
    find? key (insertEntry key value es) = some value := by
  induction es with
  | nil => simp only [insertEntry, find?, if_pos]
  | cons e es ih =>
    obtain ⟨k, v⟩ := e
    unfold insertEntry
    by_cases hlt : Precedes key k
    · simp only [if_pos hlt, find?, if_pos]
    · rw [if_neg hlt]
      by_cases heq : key = k
      · simp only [if_pos heq, find?, if_pos]
      · simp only [if_neg heq, find?, if_neg (Ne.symm heq)]
        exact ih

@[simp] theorem find?_insertEntry_of_ne {key other : String} (value : Json)
    (es : List (String × Json)) (h : other ≠ key) :
    find? other (insertEntry key value es) = find? other es := by
  induction es with
  | nil => simp only [insertEntry, find?, if_neg (Ne.symm h)]
  | cons e es ih =>
    obtain ⟨k, v⟩ := e
    unfold insertEntry
    by_cases hlt : Precedes key k
    · simp only [if_pos hlt, find?, if_neg (Ne.symm h)]
    · rw [if_neg hlt]
      by_cases heq : key = k
      · subst heq
        simp only [if_pos, find?, if_neg (Ne.symm h)]
      · simp only [if_neg heq, find?, ih]

theorem find?_eq_none {key : String} {es : List (String × Json)} (h : key ∉ es.map Prod.fst) :
    find? key es = none := by
  induction es with
  | nil => rfl
  | cons e es ih =>
    obtain ⟨k, v⟩ := e
    obtain ⟨hk, hes⟩ := not_or.1 (fun hmem => h (List.mem_cons.2 hmem))
    rw [find?, if_neg (Ne.symm hk), ih hes]

/-- What is found among sorted values is sorted. -/
theorem map_sorted_find? {es : List (String × Json)} (h : ∀ e ∈ es, e.2.sorted = e.2)
    (key : String) : (find? key es).map sorted = find? key es := by
  induction es with
  | nil => rfl
  | cons e es ih =>
    obtain ⟨hhead, htail⟩ := List.forall_mem_cons.1 h
    rw [find?]
    split
    · exact congrArg some hhead
    · exact ih htail

/-! ## Sorted objects -/

/-- Entries with different keys keep their values, sorted, when they are put among others. -/
private theorem find?_sortedEntries {es : List (String × Json)} (h : (es.map Prod.fst).Nodup)
    (key : String) (acc : List (String × Json)) :
    find? key (sortedEntries es acc) = ((find? key es).map sorted).or (find? key acc) := by
  induction es generalizing acc with
  | nil => simp only [sortedEntries, find?, Option.map_none, Option.none_or]
  | cons e es ih =>
    obtain ⟨k, v⟩ := e
    obtain ⟨hk, hes⟩ := List.nodup_cons.1 h
    rw [sortedEntries, ih hes, find?]
    by_cases heq : k = key
    · subst heq
      simp [find?_eq_none hk]
    · simp [heq, Ne.symm heq]

theorem find?_sorted {es : List (String × Json)} (h : (es.map Prod.fst).Nodup) (key : String) :
    find? key (sortedEntries es []) = (find? key es).map sorted := by
  rw [find?_sortedEntries h]
  exact Option.or_none

end Json
end Restorable
