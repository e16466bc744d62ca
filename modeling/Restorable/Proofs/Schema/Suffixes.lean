-- SUMMARY: The search for a suffix ends, and what a new pool answers to claims one after another.
import Mathlib.Data.Nat.Init
import Restorable.Proofs.Schema.NamePool

/-!
# Suffixes of claimed names

A claim for a taken name tries one suffix after another and stops at the first that gives a new
name. Only taken names make it go on, each of them once, and the candidate itself never does. So
the search ends, with a suffix that is at most the number of earlier claims and one more.
-/
namespace Restorable
namespace NamePool

/-! ## The search without a bound -/

/-- Trying one suffix after another from the first number on, the search ends at the second. It
has no bound on its tries, so there is a derivation only if it ends. -/
inductive Search (taken : List String) (candidate : String) : Nat → Nat → Prop
  | found {n : Nat} (h : withSuffix candidate n ∉ taken) : Search taken candidate n n
  | next {m n : Nat} (h : withSuffix candidate m ∈ taken)
      (rest : Search taken candidate (m + 1) n) : Search taken candidate m n

variable {taken : List String} {candidate name : String}

/-- The search ends at the least suffix of a new name. -/
theorem search_iff {m n : Nat} : Search taken candidate m n ↔
    m ≤ n ∧ withSuffix candidate n ∉ taken ∧
      ∀ i, m ≤ i → i < n → withSuffix candidate i ∈ taken := by
  constructor
  · intro h
    induction h with
    | @found n hn => exact ⟨Nat.le_refl n, hn, fun i hi hlt => absurd hlt (Nat.not_lt.2 hi)⟩
    | @next m n hm _ ih =>
      obtain ⟨hle, hn, htaken⟩ := ih
      refine ⟨by omega, hn, fun i hi hlt => ?_⟩
      rcases Nat.eq_or_lt_of_le hi with rfl | hi
      · exact hm
      · exact htaken i hi hlt
  · rintro ⟨hle, hn, htaken⟩
    -- Each taken suffix in front of the last one is one more try.
    induction hle using Nat.decreasingInduction with
    | self => exact .found hn
    | of_succ m hlt ih =>
      exact .next (htaken m (Nat.le_refl m) hlt)
        (ih fun i hi => htaken i (Nat.le_of_succ_le hi))

private theorem search_firstFree (taken : List String) (candidate : String) (n : Nat) :
    Search taken candidate n (firstFree taken candidate n taken.length) :=
  search_iff.2 ⟨(le_firstFree taken candidate n taken.length).1,
    firstFree_not_mem taken candidate n, fun _ => mem_of_lt_firstFree⟩

private theorem withSuffix_ne (candidate : String) (n : Nat) :
    withSuffix candidate n ≠ candidate := by
  intro h
  have hlength := congrArg String.length h
  simp only [withSuffix, String.length_append] at hlength
  have hmark : "_".length = 1 := rfl
  omega

/-- Of the taken names, the candidate itself stops no suffix. -/
theorem Search.le_length {n : Nat} (h : Search taken candidate 2 n) (hmem : candidate ∈ taken) :
    n ≤ taken.length + 1 := by
  obtain ⟨hle, -, htaken⟩ := search_iff.1 h
  have hothers : ∀ i, 2 ≤ i → i < 2 + (n - 2) → withSuffix candidate i ∈ taken.erase candidate :=
    fun i hi hlt => (List.mem_erase_of_ne (withSuffix_ne candidate i)).2 (htaken i hi (by omega))
  have hcount := le_length_of_suffixes hothers
  rw [List.length_erase_of_mem hmem] at hcount
  have hpos := List.length_pos_of_mem hmem
  omega

/-! ## One claim -/

/-- What is answered to a claim after the names `taken` were handed out. -/
structure Answers (taken : List String) (candidate name : String) : Prop where
  new : name ∉ taken
  unchanged : name = candidate ↔ candidate ∉ taken
  suffixed : candidate ∈ taken → ∃ n, name = withSuffix candidate n ∧ 2 ≤ n ∧
    n ≤ taken.length + 1 ∧ (∀ i, 2 ≤ i → i < n → withSuffix candidate i ∈ taken) ∧
    Search taken candidate 2 n

/-- The order in which names were handed out does not matter. -/
private theorem Answers.of_perm {taken' : List String} (h : Answers taken candidate name)
    (hperm : taken.Perm taken') : Answers taken' candidate name := by
  refine ⟨mt hperm.mem_iff.2 h.new, h.unchanged.trans (not_congr hperm.mem_iff), fun hmem => ?_⟩
  obtain ⟨n, hname, hle, hbound, hleast, hsearch⟩ := h.suffixed (hperm.mem_iff.2 hmem)
  obtain ⟨-, hnew, -⟩ := search_iff.1 hsearch
  have hleast' : ∀ i, 2 ≤ i → i < n → withSuffix candidate i ∈ taken' :=
    fun i hi hlt => hperm.mem_iff.1 (hleast i hi hlt)
  exact ⟨n, hname, hle, hperm.length_eq ▸ hbound, hleast',
    search_iff.2 ⟨hle, mt hperm.mem_iff.2 hnew, hleast'⟩⟩

private theorem claim_fst (pool : NamePool) (candidate : String) : (pool.claim candidate).1 =
    if candidate ∈ pool.taken then
      withSuffix candidate (firstFree pool.taken candidate 2 pool.taken.length)
    else candidate := by
  unfold claim
  split <;> rfl

theorem claim_eq_iff (pool : NamePool) (candidate : String) :
    (pool.claim candidate).1 = candidate ↔ candidate ∉ pool.taken := by
  rw [claim_fst]
  split
  next hmem => exact iff_of_false (withSuffix_ne candidate _) (not_not_intro hmem)
  next hmem => exact iff_of_true rfl hmem

theorem answers_claim (pool : NamePool) (candidate : String) :
    Answers pool.taken candidate (pool.claim candidate).1 := by
  refine ⟨claim_not_mem pool candidate, claim_eq_iff pool candidate, fun hmem => ?_⟩
  have hsearch := search_firstFree pool.taken candidate 2
  obtain ⟨hle, -, hleast⟩ := search_iff.1 hsearch
  exact ⟨_, by rw [claim_fst, if_pos hmem], hle, hsearch.le_length hmem, hleast, hsearch⟩

private theorem claim_suffixed (pool : NamePool) (candidate : String) :
    (pool.claim candidate).2.suffixed =
    pool.suffixed + if (pool.claim candidate).1 = candidate then 0 else 1 := by
  by_cases hmem : candidate ∈ pool.taken
  · rw [if_neg (mt (claim_eq_iff pool candidate).1 (not_not_intro hmem)), claim, if_pos hmem]
  · rw [if_pos ((claim_eq_iff pool candidate).2 hmem), claim, if_neg hmem]
    rfl

/-! ## Claims one after another -/

/-- The names claimed for candidates one after another, and the pool after the last claim. -/
def claimEach (pool : NamePool) : List String → List String × NamePool
  | [] => ([], pool)
  | candidate :: candidates =>
    let rest := claimEach (pool.claim candidate).2 candidates
    ((pool.claim candidate).1 :: rest.1, rest.2)

@[simp] theorem length_claimEach (pool : NamePool) (candidates : List String) :
    (pool.claimEach candidates).1.length = candidates.length := by
  induction candidates generalizing pool with
  | nil => rfl
  | cons candidate candidates ih =>
    exact congrArg Nat.succ (ih (pool.claim candidate).2)

private theorem handsOut_claimEach (pool : NamePool) (candidates : List String) :
    pool.HandsOut (pool.claimEach candidates).1 (pool.claimEach candidates).2 := by
  induction candidates generalizing pool with
  | nil => exact handsOut_nil pool
  | cons candidate candidates ih =>
    exact (handsOut_claim pool candidate).append (ih (pool.claim candidate).2)

private theorem claimEach_append (pool : NamePool) (before after : List String) :
    (pool.claimEach (before ++ after)).1 = (pool.claimEach before).1 ++
      ((pool.claimEach before).2.claimEach after).1 := by
  induction before generalizing pool with
  | nil => rfl
  | cons candidate before ih =>
    exact congrArg ((pool.claim candidate).1 :: ·) (ih (pool.claim candidate).2)

/-- A pool counts the claims that were answered with another name. -/
private theorem suffixed_claimEach (pool : NamePool) (candidates : List String) :
    (pool.claimEach candidates).2.suffixed = pool.suffixed +
      (candidates.zip (pool.claimEach candidates).1).countP fun claim => claim.2 ≠ claim.1 := by
  induction candidates generalizing pool with
  | nil => rfl
  | cons candidate candidates ih =>
    rw [claimEach, ih, claim_suffixed, List.zip_cons_cons, List.countP_cons]
    simp only [ne_eq, decide_not, Bool.not_eq_true', decide_eq_false_iff_not, ite_not]
    omega

/-- Every claim of a new pool is answered. The `k`-th answer is none of the `k` earlier ones; it is
the candidate unless that was answered before, and otherwise has the least suffix from 2 on that
makes it new, at most `k + 1`. The pool counts the answers that are not their candidates. -/
theorem answers_claimEach_empty (candidates : List String) :
    (empty.claimEach candidates).1.length = candidates.length ∧
      (∀ before candidate after, candidates = before ++ candidate :: after →
        ∃ earlier name later, (empty.claimEach candidates).1 = earlier ++ name :: later ∧
          earlier.length = before.length ∧ Answers earlier candidate name) ∧
      (empty.claimEach candidates).2.suffixed =
        (candidates.zip (empty.claimEach candidates).1).countP fun claim => claim.2 ≠ claim.1 := by
  refine ⟨length_claimEach empty candidates, ?_, ?_⟩
  · rintro before candidate after rfl
    have hanswer := answers_claim (empty.claimEach before).2 candidate
    rw [(handsOut_claimEach empty before).taken, empty, List.append_nil] at hanswer
    exact ⟨_, _, _, claimEach_append empty before (candidate :: after),
      length_claimEach empty before, hanswer.of_perm (List.reverse_perm _)⟩
  · rw [suffixed_claimEach, empty, Nat.zero_add]

/-- A candidate that looks like a suffixed one takes its suffix away. -/
example : (empty.claimEach ["r_x_2", "r_x", "r_x", "r_x_2"]).1 =
    ["r_x_2", "r_x", "r_x_3", "r_x_2_2"] := by decide

end NamePool
end Restorable
