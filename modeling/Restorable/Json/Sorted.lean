-- SUMMARY: The sorted form of JSON objects: keys ascending, one entry for each key.
import Restorable.Json.Basic
import Restorable.Json.KeyOrder

/-!
# Sorted objects

Generic values keep the entries of objects by ascending key, and of several entries
with one key the last. `Json.sorted` brings a document into this form,
`Json.IsSorted` states it, and sorting a sorted value changes nothing.
-/
namespace Restorable
namespace Json

/-! ## Sorting -/

/-- Put an entry in its place among ascending keys, in place of one with its key. -/
def insertEntry (key : String) (value : Json) : List (String × Json) → List (String × Json)
  | [] => [(key, value)]
  | (k, v) :: es =>
    if Precedes key k then (key, value) :: (k, v) :: es
    else if key = k then (key, value) :: es
    else (k, v) :: insertEntry key value es

mutual

/-- Sort the entries of every object by key; of equal keys the last entry stays. -/
def sorted : Json → Json
  | .arr xs => .arr (sortedItems xs)
  | .obj es => .obj (sortedEntries es [])
  | v => v

def sortedItems : List Json → List Json
  | [] => []
  | x :: xs => x.sorted :: sortedItems xs

/-- The entries put one by one into an ascending list. -/
def sortedEntries : List (String × Json) → List (String × Json) → List (String × Json)
  | [], acc => acc
  | (k, v) :: es, acc => sortedEntries es (insertEntry k v.sorted acc)

end

mutual

/-- Keys ascend strictly in every object. -/
def IsSorted : Json → Prop
  | .arr xs => AllSorted xs
  | .obj es => (es.map Prod.fst).Pairwise Precedes ∧ EntriesSorted es
  | _ => True

def AllSorted : List Json → Prop
  | [] => True
  | x :: xs => x.IsSorted ∧ AllSorted xs

def EntriesSorted : List (String × Json) → Prop
  | [] => True
  | (_, v) :: es => v.IsSorted ∧ EntriesSorted es

end

/-! ## Sorting gives a sorted value -/

theorem mem_insertEntry {key k : String} {value v : Json} {es : List (String × Json)}
    (h : (k, v) ∈ insertEntry key value es) : (k, v) = (key, value) ∨ (k, v) ∈ es := by
  induction es with
  | nil => simpa [insertEntry] using h
  | cons e es ih =>
    obtain ⟨l, w⟩ := e
    simp only [insertEntry] at h
    split at h
    · simpa using h
    · split at h
      · rcases List.mem_cons.1 h with h | h
        · exact .inl h
        · exact .inr (List.mem_cons_of_mem _ h)
      · rcases List.mem_cons.1 h with h | h
        · exact .inr (h ▸ List.mem_cons_self)
        · exact (ih h).imp_right (List.mem_cons_of_mem _)

theorem pairwise_insertEntry {key : String} {value : Json} {es : List (String × Json)}
    (h : (es.map Prod.fst).Pairwise Precedes) :
    ((insertEntry key value es).map Prod.fst).Pairwise Precedes := by
  induction es with
  | nil => simp [insertEntry]
  | cons e es ih =>
    obtain ⟨k, v⟩ := e
    obtain ⟨hk, hes⟩ := List.pairwise_cons.1 h
    simp only [insertEntry]
    split
    next hlt =>
      refine List.pairwise_cons.2 ⟨?_, h⟩
      intro l hl
      rcases List.mem_cons.1 hl with hl | hl
      · exact hl ▸ hlt
      · exact hlt.trans (hk l hl)
    next hlt =>
      split
      next heq => exact List.pairwise_cons.2 ⟨fun l hl => heq ▸ hk l hl, hes⟩
      next hne =>
        refine List.pairwise_cons.2 ⟨?_, ih hes⟩
        intro l hl
        obtain ⟨⟨l', w⟩, hmem, rfl⟩ := List.mem_map.1 hl
        rcases mem_insertEntry hmem with heq | hmem
        · obtain ⟨rfl, -⟩ := Prod.mk.inj heq
          exact precedes_of_not hlt hne
        · exact hk l' (List.mem_map.2 ⟨_, hmem, rfl⟩)

theorem entriesSorted_iff {es : List (String × Json)} :
    EntriesSorted es ↔ ∀ e ∈ es, e.2.IsSorted := by
  induction es with
  | nil => simp [EntriesSorted]
  | cons e es ih => simp [EntriesSorted, ih]

theorem entriesSorted_insertEntry {key : String} {value : Json} {es : List (String × Json)}
    (hv : value.IsSorted) (h : EntriesSorted es) : EntriesSorted (insertEntry key value es) := by
  rw [entriesSorted_iff] at h ⊢
  rintro ⟨k, v⟩ hmem
  rcases mem_insertEntry hmem with heq | hmem
  · obtain ⟨-, rfl⟩ := Prod.mk.inj heq
    exact hv
  · exact h _ hmem

mutual

@[simp] theorem isSorted_sorted : (v : Json) → v.sorted.IsSorted
  | .null | .bool _ | .num _ | .str _ => by simp [sorted, IsSorted]
  | .arr xs => by simpa [sorted, IsSorted] using allSorted_sortedItems xs
  | .obj es => by
    simpa [sorted, IsSorted] using sorted_sortedEntries es [] (by simp) (by simp [EntriesSorted])

@[simp] theorem allSorted_sortedItems : (xs : List Json) → AllSorted (sortedItems xs)
  | [] => by simp [sortedItems, AllSorted]
  | x :: xs => by
    simpa [sortedItems, AllSorted] using ⟨isSorted_sorted x, allSorted_sortedItems xs⟩

theorem sorted_sortedEntries : (es acc : List (String × Json)) →
    (acc.map Prod.fst).Pairwise Precedes → EntriesSorted acc →
    ((sortedEntries es acc).map Prod.fst).Pairwise Precedes ∧ EntriesSorted (sortedEntries es acc)
  | [], acc, hk, hv => by simpa [sortedEntries] using ⟨hk, hv⟩
  | (k, v) :: es, acc, hk, hv => by
    simpa [sortedEntries] using sorted_sortedEntries es (insertEntry k v.sorted acc)
      (pairwise_insertEntry hk) (entriesSorted_insertEntry (isSorted_sorted v) hv)

end

/-! ## Sorting a sorted value -/

theorem insertEntry_of_precedes {key : String} {value : Json} {es : List (String × Json)}
    (h : ∀ k ∈ es.map Prod.fst, Precedes k key) :
    insertEntry key value es = es ++ [(key, value)] := by
  induction es with
  | nil => rfl
  | cons e es ih =>
    obtain ⟨k, v⟩ := e
    have hk : Precedes k key := h k (by simp)
    have hne : key ≠ k := fun heq => precedes_irrefl k (heq ▸ hk)
    have hnlt : ¬ Precedes key k := fun hlt => precedes_irrefl _ (hk.trans hlt)
    simp only [insertEntry, if_neg hnlt, if_neg hne, List.cons_append]
    rw [ih fun l hl => h l (by simp_all)]

mutual

theorem sorted_of_isSorted : (v : Json) → v.IsSorted → v.sorted = v
  | .null, _ | .bool _, _ | .num _, _ | .str _, _ => by simp [sorted]
  | .arr xs, h => by
    simp only [IsSorted] at h
    simp [sorted, sortedItems_of_allSorted xs h]
  | .obj es, h => by
    simp only [IsSorted] at h
    simp [sorted, sortedEntries_of_sorted es [] (by simpa using h.1) h.2]

theorem sortedItems_of_allSorted : (xs : List Json) → AllSorted xs → sortedItems xs = xs
  | [], _ => rfl
  | x :: xs, h => by
    simp only [AllSorted] at h
    simp [sortedItems, sorted_of_isSorted x h.1, sortedItems_of_allSorted xs h.2]

theorem sortedEntries_of_sorted : (es acc : List (String × Json)) →
    ((acc ++ es).map Prod.fst).Pairwise Precedes → EntriesSorted es →
    sortedEntries es acc = acc ++ es
  | [], acc, _, _ => by simp [sortedEntries]
  | (k, v) :: es, acc, hk, hv => by
    simp only [EntriesSorted] at hv
    have hlt : ∀ l ∈ acc.map Prod.fst, Precedes l k := by
      simp only [List.map_append, List.map_cons, List.pairwise_append] at hk
      exact fun l hl => hk.2.2 l hl k (by simp)
    rw [sortedEntries, sorted_of_isSorted v hv.1, insertEntry_of_precedes hlt,
      sortedEntries_of_sorted es _ (by simpa using hk) hv.2]
    simp

end

end Json
end Restorable
