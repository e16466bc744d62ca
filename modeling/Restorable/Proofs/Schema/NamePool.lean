-- SUMMARY: Claimed names are new, and how a claimed name is spelled.
import Mathlib.Data.List.Nodup
import Mathlib.Data.List.Perm.Subperm
import Restorable.Schema.NamePool

/-!
# Claimed names

Different suffixes give different names, so among one suffix more than there are taken
names one is free. The search therefore ends on a free name, the first one, and a pool
never hands out a name twice.
-/
namespace Restorable
namespace NamePool

/-! ## Suffixes -/

theorem withSuffix_injective {candidate : String} {m n : Nat}
    (h : withSuffix candidate m = withSuffix candidate n) : m = n := by
  have hlist := congrArg String.toList h
  simp only [withSuffix, String.toList_append, Nat.toList_repr] at hlist
  have hdigits := List.append_cancel_left hlist
  rw [← @Nat.ofDigitChars_ten_toDigits m, hdigits, Nat.ofDigitChars_ten_toDigits]

/-- As many taken names as there are suffixes in a range of taken ones. -/
theorem le_length_of_suffixes {taken : List String} {candidate : String} {n k : Nat}
    (h : ∀ i, n ≤ i → i < n + k → withSuffix candidate i ∈ taken) : k ≤ taken.length := by
  have hnodup : ((List.range' n k).map (withSuffix candidate)).Nodup :=
    List.Nodup.map (fun _ _ => withSuffix_injective) (List.nodup_range' ..)
  have hsub : (List.range' n k).map (withSuffix candidate) ⊆ taken := by
    intro name hname
    obtain ⟨i, hi, rfl⟩ := List.mem_map.1 hname
    obtain ⟨hle, hlt⟩ := List.mem_range'_1.1 hi
    exact h i hle hlt
  simpa using (hnodup.subperm hsub).length_le

/-! ## The search -/

theorem le_firstFree (taken : List String) (candidate : String) (n tries : Nat) :
    n ≤ firstFree taken candidate n tries ∧ firstFree taken candidate n tries ≤ n + tries := by
  induction tries generalizing n with
  | zero => simp [firstFree]
  | succ tries ih =>
    unfold firstFree
    split
    · have := ih (n + 1)
      omega
    · omega

/-- Every suffix that the search passed over is taken. -/
theorem mem_of_lt_firstFree {taken : List String} {candidate : String} {n tries i : Nat}
    (hn : n ≤ i) (hi : i < firstFree taken candidate n tries) :
    withSuffix candidate i ∈ taken := by
  induction tries generalizing n with
  | zero =>
    simp only [firstFree] at hi
    omega
  | succ tries ih =>
    unfold firstFree at hi
    split at hi
    · rename_i hmem
      rcases Nat.eq_or_lt_of_le hn with rfl | hlt
      · exact hmem
      · exact ih hlt hi
    · omega

/-- A search that stops before its last try has found a free name. -/
private theorem not_mem_of_firstFree_lt {taken : List String} {candidate : String} {n tries : Nat}
    (h : firstFree taken candidate n tries < n + tries) :
    withSuffix candidate (firstFree taken candidate n tries) ∉ taken := by
  induction tries generalizing n with
  | zero => simp [firstFree] at h
  | succ tries ih =>
    unfold firstFree at h ⊢
    split
    · rename_i hmem
      rw [if_pos hmem] at h
      exact ih (by omega)
    · assumption

/-- With as many tries as there are taken names, the search ends on a free one. -/
theorem firstFree_not_mem (taken : List String) (candidate : String) (n : Nat) :
    withSuffix candidate (firstFree taken candidate n taken.length) ∉ taken := by
  intro hmem
  have hlast : firstFree taken candidate n taken.length = n + taken.length := by
    have hle := le_firstFree taken candidate n taken.length
    by_contra hne
    exact not_mem_of_firstFree_lt (by omega) hmem
  -- Then every suffix tried is taken, one more than there are taken names.
  have hall : ∀ i, n ≤ i → i < n + (taken.length + 1) → withSuffix candidate i ∈ taken := by
    intro i hi hlt
    rcases Nat.lt_or_ge i (n + taken.length) with h | h
    · exact mem_of_lt_firstFree hi (hlast ▸ h)
    · rw [show i = firstFree taken candidate n taken.length by omega]
      exact hmem
  have := le_length_of_suffixes hall
  omega

/-! ## Claims -/

@[simp] theorem claim_taken (pool : NamePool) (candidate : String) :
    (pool.claim candidate).2.taken = (pool.claim candidate).1 :: pool.taken := by
  unfold claim
  split <;> rfl

theorem claim_not_mem (pool : NamePool) (candidate : String) :
    (pool.claim candidate).1 ∉ pool.taken := by
  unfold claim
  split
  · exact firstFree_not_mem pool.taken candidate 2
  · assumption

/-- A claimed name is the candidate or the candidate with a suffix. -/
theorem claim_eq_or_suffix (pool : NamePool) (candidate : String) :
    (pool.claim candidate).1 = candidate ∨
      ∃ n, (pool.claim candidate).1 = withSuffix candidate n := by
  unfold claim
  split
  · exact .inr ⟨_, rfl⟩
  · exact .inl rfl

theorem claim_nodup {pool : NamePool} (h : pool.taken.Nodup) (candidate : String) :
    (pool.claim candidate).2.taken.Nodup := by
  rw [claim_taken]
  exact List.nodup_cons.2 ⟨claim_not_mem pool candidate, h⟩

/-! ## Sequences of claims -/

/-- The names were handed out in this order, and none that had been taken before. -/
structure HandsOut (pool : NamePool) (names : List String) (p : NamePool) : Prop where
  taken : p.taken = names.reverse ++ pool.taken
  nodup : pool.taken.Nodup → p.taken.Nodup

theorem handsOut_nil (pool : NamePool) : pool.HandsOut [] pool :=
  ⟨rfl, id⟩

theorem handsOut_claim (pool : NamePool) (candidate : String) :
    pool.HandsOut [(pool.claim candidate).1] (pool.claim candidate).2 :=
  ⟨claim_taken pool candidate, fun h => claim_nodup h candidate⟩

theorem HandsOut.append {pool p q : NamePool} {names more : List String}
    (h : pool.HandsOut names p) (hmore : p.HandsOut more q) : pool.HandsOut (names ++ more) q := by
  refine ⟨?_, fun hnodup => hmore.nodup (h.nodup hnodup)⟩
  rw [hmore.taken, h.taken, List.reverse_append, List.append_assoc]

/-- What a new pool hands out has no name twice. -/
theorem HandsOut.nodup_of_empty {names : List String} {p : NamePool}
    (h : empty.HandsOut names p) : names.Nodup := by
  have hnodup := h.nodup List.nodup_nil
  rw [h.taken] at hnodup
  simpa [empty] using hnodup

end NamePool
end Restorable
