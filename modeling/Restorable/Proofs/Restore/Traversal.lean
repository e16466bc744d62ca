-- SUMMARY: The verdict on an envelope is the first failing check of a depth-first traversal.
import Restorable.Restore.Resolve

/-!
# The traversal behind a verdict

The traversal lists the checks of an envelope and an encoder in the order in which they
are due, each with the place of its node: at a node the version, the configuration and
the number of nested envelopes, then the checks of the children in order, and last the
assembly, where the node needs migration. It does not stop at failures; the verdict is
compared with its first failing check.
-/
namespace Restorable

variable {κ : Type}

/-! ## Checks -/

/-- A check that is due at a node. -/
inductive Check (κ : Type)
  | version (previous : Envelope) (current : Encoder κ)
  | config (previous : Envelope) (current : Encoder κ)
  | count (previous : Envelope) (current : Encoder κ)
  | assembly (current : Encoder κ) (nested : List (Encoder κ))

/-- A check at the place of its node, the root first. -/
structure Visit (κ : Type) where
  path : NestedPath
  check : Check κ

/-- The visit of a child, seen from its parent. -/
def Visit.under (index : Nat) (v : Visit κ) : Visit κ := { v with path := index :: v.path }

variable [CustomKind κ]

/-- Why a check fails, none if it passes. -/
def Check.failure : Check κ → Option Reason
  | .version previous current =>
    match current.readable previous.id with
    | some readable =>
      if readable < previous.version then
        some (.futureVersion previous.version previous.id readable)
      else none
    | none => none
  | .config previous current =>
    match current.resolveConfig previous with
    | .incompatible reason => some reason
    | _ => none
  | .count previous current =>
    if current.nested.length = previous.nested.length then none
    else some (.nestedCount previous.nested.length current.id current.nested.length)
  | .assembly current nested =>
    match current.rebuild nested with
    | .ok _ => none
    | .error failure => some (.cannotAssemble failure)

/-- Whether a configuration needs migration. -/
def ConfigVerdict.isMigrate : ConfigVerdict → Bool
  | .migrate => true
  | _ => false

/-- What the comparison of configurations answered, where a check is one. -/
def Check.answer : Check κ → Option ConfigVerdict
  | .config previous current => some (current.resolveConfig previous)
  | _ => none

/-- The first failing check, at its place. -/
def firstFailure (visits : List (Visit κ)) : Option Incompatibility :=
  visits.findSome? fun v => v.check.failure.map fun reason => ⟨v.path, reason⟩

/-- The visits run without a failure up to one that fails as given. -/
def FirstFails (visits : List (Visit κ)) (why : Incompatibility) : Prop :=
  ∃ before v after, visits = before ++ v :: after ∧ (∀ u ∈ before, u.check.failure = none) ∧
    v.path = why.path ∧ v.check.failure = some why.reason

/-! ## The traversal -/

mutual

/-- Whether the configuration of the node or of any node below needs migration. -/
def Envelope.migrates : Envelope → Encoder κ → Bool
  | .mk id version config stored, current =>
    (current.resolveConfig (.mk id version config stored)).isMigrate ||
      anyMigrates stored current.nested

def anyMigrates : List Envelope → List (Encoder κ) → Bool
  | s :: stored, c :: current => s.migrates c || anyMigrates stored current
  | _, _ => false

end

mutual

/-- The encoder that is to be used from then on: the current one, put together again from
its children where it needs migration. -/
def Envelope.successor : Envelope → Encoder κ → Encoder κ
  | .mk id version config stored, current =>
    if (Envelope.mk id version config stored).migrates current then
      match current.rebuild (successors stored current.nested) with
      | .ok e => e
      | .error _ => current
    else current

def successors : List Envelope → List (Encoder κ) → List (Encoder κ)
  | s :: stored, c :: current => s.successor c :: successors stored current
  | _, _ => []

end

mutual

/-- The checks that are due for an envelope, in order. -/
def Envelope.visits : Envelope → Encoder κ → List (Visit κ)
  | .mk id version config stored, current =>
    let previous := Envelope.mk id version config stored
    [⟨[], .version previous current⟩, ⟨[], .config previous current⟩,
      ⟨[], .count previous current⟩] ++ visitsBelow stored current.nested 0 ++
      if previous.migrates current then [⟨[], .assembly current (successors stored current.nested)⟩]
      else []

/-- The checks that are due for nested envelopes, the first of which has this index. -/
def visitsBelow : List Envelope → List (Encoder κ) → Nat → List (Visit κ)
  | s :: stored, c :: current, index =>
    (s.visits c).map (Visit.under index) ++ visitsBelow stored current (index + 1)
  | _, _, _ => []

end

/-! ## First failures -/

@[simp] theorem firstFailure_append (visits more : List (Visit κ)) :
    firstFailure (visits ++ more) = (firstFailure visits).or (firstFailure more) :=
  List.findSome?_append

/-- Seen from the parent, the first failure is the same one step further down. -/
private theorem firstFailure_under (index : Nat) (visits : List (Visit κ)) :
    firstFailure (visits.map (Visit.under index)) =
      (firstFailure visits).map (Incompatibility.under index) := by
  induction visits with
  | nil => rfl
  | cons v visits ih =>
    unfold firstFailure at ih ⊢
    rw [List.map_cons, List.findSome?_cons, List.findSome?_cons, ih]
    cases hv : v.check.failure with
    | none => simp [Visit.under, hv]
    | some reason => simp [Visit.under, hv, Incompatibility.under]

theorem firstFailure_eq_some {visits : List (Visit κ)} {why : Incompatibility} :
    firstFailure visits = some why ↔ FirstFails visits why := by
  unfold firstFailure FirstFails
  rw [List.findSome?_eq_some_iff]
  constructor
  · rintro ⟨before, v, after, hvisits, hv, hbefore⟩
    obtain ⟨reason, hreason, rfl⟩ := Option.map_eq_some_iff.1 hv
    refine ⟨before, v, after, hvisits, ?_, rfl, hreason⟩
    intro u hu
    exact Option.map_eq_none_iff.1 (hbefore u hu)
  · rintro ⟨before, v, after, hvisits, hbefore, hpath, hreason⟩
    refine ⟨before, v, after, hvisits, ?_, ?_⟩
    · rw [hreason, hpath]
      rfl
    · intro u hu
      rw [hbefore u hu]
      rfl

theorem firstFailure_eq_none {visits : List (Visit κ)} :
    firstFailure visits = none ↔ ∀ v ∈ visits, v.check.failure = none := by
  unfold firstFailure
  rw [List.findSome?_eq_none_iff]
  simp only [Option.map_eq_none_iff]

@[simp] theorem firstFailure_root (check : Check κ) :
    firstFailure [⟨[], check⟩] = check.failure.map .atRoot := by
  simp only [firstFailure, List.findSome?_cons, List.findSome?_nil]
  cases check.failure <;> rfl

/-! ## One node -/

/-- A failure as a failed step, or else the value. -/
def failOr {ε α : Type} (failure : Option ε) (a : α) : Except ε α :=
  match failure with
  | some e => .error e
  | none => .ok a

private theorem checkVersion_eq (previous : Envelope) (current : Encoder κ) :
    checkVersion previous current = failOr (Check.version previous current).failure () := by
  simp only [checkVersion, Check.failure]
  cases current.readable previous.id with
  | none => rfl
  | some readable =>
    by_cases h : readable < previous.version
    · simp only [if_pos h, failOr]
    · simp only [if_neg h, failOr]

private theorem checkConfig_eq (previous : Envelope) (current : Encoder κ) :
    checkConfig previous current =
      failOr (Check.config previous current).failure (current.resolveConfig previous).isMigrate := by
  simp only [checkConfig, Check.failure]
  cases current.resolveConfig previous <;> rfl

private theorem checkNested_eq (previous : Envelope) (current : Encoder κ) :
    checkNested previous current = failOr (Check.count previous current).failure () := by
  simp only [checkNested, Check.failure]
  by_cases h : current.nested.length = previous.nested.length
  · simp only [if_pos h, failOr]
  · simp only [if_neg h, failOr]

/-- The first failure among the checks of a node before its children. -/
def entryFailure (previous : Envelope) (current : Encoder κ) : Option Reason :=
  (Check.version previous current).failure.or
    ((Check.config previous current).failure.or (Check.count previous current).failure)

private theorem checkNode_eq (previous : Envelope) (current : Encoder κ) :
    checkNode previous current =
      failOr (entryFailure previous current) (current.resolveConfig previous).isMigrate := by
  unfold checkNode entryFailure
  rw [checkVersion_eq, checkConfig_eq, checkNested_eq]
  cases (Check.version previous current).failure with
  | some reason => rfl
  | none =>
    cases (Check.config previous current).failure with
    | some reason => rfl
    | none => cases (Check.count previous current).failure <;> rfl

/-- The first failure of a node is one of its own checks, of its children, or of its
assembly, in this order. -/
theorem firstFailure_visits (id : String) (version : UInt32) (config : Config)
    (stored : List Envelope) (current : Encoder κ) :
    let previous := Envelope.mk id version config stored
    firstFailure (previous.visits current) =
      ((entryFailure previous current).map .atRoot).or
        ((firstFailure (visitsBelow stored current.nested 0)).or
          (if previous.migrates current then
            (Check.assembly current (successors stored current.nested)).failure.map .atRoot
          else none)) := by
  intro previous
  have hentry : firstFailure [⟨[], .version previous current⟩, ⟨[], .config previous current⟩,
      ⟨[], .count previous current⟩] = (entryFailure previous current).map .atRoot := by
    unfold entryFailure firstFailure
    simp only [List.findSome?_cons, List.findSome?_nil]
    cases (Check.version previous current).failure with
    | some reason => rfl
    | none =>
      cases (Check.config previous current).failure with
      | some reason => rfl
      | none => cases (Check.count previous current).failure <;> rfl
  have hassembly : firstFailure (if previous.migrates current then
      [⟨[], .assembly current (successors stored current.nested)⟩] else []) =
      if previous.migrates current then
        (Check.assembly current (successors stored current.nested)).failure.map .atRoot
      else none := by
    split
    · exact firstFailure_root _
    · rfl
  rw [← hassembly, ← hentry, ← firstFailure_append, ← firstFailure_append, ← List.append_assoc]
  rfl

private theorem successor_of_not_migrates {previous : Envelope} {current : Encoder κ}
    (h : previous.migrates current = false) : previous.successor current = current := by
  obtain ⟨id, version, config, stored⟩ := previous
  unfold Envelope.successor
  rw [h]
  rfl

/-- Without a failure in its assembly, a node becomes its successor. -/
private theorem assemble_eq {id : String} {version : UInt32} {config : Config}
    {stored : List Envelope} {current : Encoder κ}
    (hm : (Envelope.mk id version config stored).migrates current = true) :
    assemble current true (successors stored current.nested) =
      match (Check.assembly current (successors stored current.nested)).failure with
      | some reason => .incompatible (.atRoot reason)
      | none => .migrate ((Envelope.mk id version config stored).successor current) := by
  simp only [assemble, if_pos, Check.failure, Envelope.successor, hm]
  cases current.rebuild (successors stored current.nested) <;> rfl

/-! ## Whole traversals -/

mutual

/-- The verdict is the first failure, or else whether a migration is needed. -/
theorem resolve_eq_visits : (previous : Envelope) → (current : Encoder κ) →
    previous.resolve current =
      match firstFailure (previous.visits current) with
      | some why => .incompatible why
      | none =>
        if previous.migrates current then .migrate (previous.successor current) else .asIs
  | .mk id version config stored, current => by
    have hbelow := resolveAll_eq_visits stored current.nested 0
    have hmigrates : (Envelope.mk id version config stored).migrates current =
        ((current.resolveConfig (.mk id version config stored)).isMigrate ||
          anyMigrates stored current.nested) := by
      simp only [Envelope.migrates]
    rw [firstFailure_visits]
    simp only [Envelope.resolve, checkNode_eq, hbelow]
    cases entryFailure (.mk id version config stored) current with
    | some reason => rfl
    | none =>
      cases firstFailure (visitsBelow stored current.nested 0) with
      | some why => rfl
      | none =>
        simp only [failOr, ← hmigrates]
        cases hm : (Envelope.mk id version config stored).migrates current with
        | false => rfl
        | true =>
          rw [assemble_eq hm]
          simp only [if_pos]
          cases (Check.assembly current (successors stored current.nested)).failure <;> rfl

theorem resolveAll_eq_visits : (stored : List Envelope) → (current : List (Encoder κ)) →
    (index : Nat) → resolveAll stored current index =
      failOr (firstFailure (visitsBelow stored current index))
        (anyMigrates stored current, successors stored current)
  | [], current, index => by
    cases current <;> rfl
  | s :: stored, [], index => rfl
  | s :: stored, c :: current, index => by
    have hs := resolve_eq_visits s c
    have hrest := resolveAll_eq_visits stored current (index + 1)
    simp only [resolveAll, visitsBelow, firstFailure_append, firstFailure_under, hs, hrest,
      anyMigrates, successors]
    cases firstFailure (s.visits c) with
    | some why => rfl
    | none =>
      cases hm : s.migrates c with
      | false =>
        rw [successor_of_not_migrates hm]
        cases firstFailure (visitsBelow stored current (index + 1)) <;> rfl
      | true => cases firstFailure (visitsBelow stored current (index + 1)) <;> rfl

end

/-! ## Migrations -/

mutual

/-- A migration is needed exactly when a configuration asks for one. -/
theorem migrates_iff : (previous : Envelope) → (current : Encoder κ) →
    (previous.migrates current = true ↔
      ∃ v ∈ previous.visits current, v.check.answer = some .migrate)
  | .mk id version config stored, current => by
    have hbelow := anyMigrates_iff stored current.nested 0
    have hown : (current.resolveConfig (.mk id version config stored)).isMigrate = true ↔
        some (current.resolveConfig (.mk id version config stored)) = some .migrate := by
      cases current.resolveConfig (.mk id version config stored) <;> simp [ConfigVerdict.isMigrate]
    have htail : ∀ v ∈ (if (Envelope.mk id version config stored).migrates current then
        [(⟨[], .assembly current (successors stored current.nested)⟩ : Visit κ)] else []),
        v.check.answer ≠ some .migrate := by
      intro v hv
      split at hv
      · obtain rfl := List.mem_singleton.1 hv
        exact Option.some_ne_none _ ∘ Eq.symm
      · cases hv
    constructor
    · intro h
      rw [Envelope.migrates, Bool.or_eq_true, hown, hbelow] at h
      rcases h with h | ⟨v, hv, h⟩
      · refine ⟨⟨[], .config (.mk id version config stored) current⟩, ?_, h⟩
        simp [Envelope.visits]
      · refine ⟨v, ?_, h⟩
        simp [Envelope.visits, hv]
    · rintro ⟨v, hv, h⟩
      rw [Envelope.migrates, Bool.or_eq_true, hown, hbelow]
      rw [Envelope.visits] at hv
      rcases List.mem_append.1 hv with hv | hv
      · rcases List.mem_append.1 hv with hv | hv
        · simp only [List.mem_cons, List.not_mem_nil, or_false] at hv
          rcases hv with rfl | rfl | rfl
          · cases h
          · exact .inl h
          · cases h
        · exact .inr ⟨v, hv, h⟩
      · exact absurd h (htail v hv)

theorem anyMigrates_iff : (stored : List Envelope) → (current : List (Encoder κ)) →
    (index : Nat) → (anyMigrates stored current = true ↔
      ∃ v ∈ visitsBelow stored current index, v.check.answer = some .migrate)
  | [], current, index => by cases current <;> simp [anyMigrates, visitsBelow]
  | s :: stored, [], index => by simp [anyMigrates, visitsBelow]
  | s :: stored, c :: current, index => by
    have hs := migrates_iff s c
    have hrest := anyMigrates_iff stored current (index + 1)
    rw [anyMigrates, Bool.or_eq_true, hs, hrest, visitsBelow]
    constructor
    · rintro (⟨v, hv, h⟩ | ⟨v, hv, h⟩)
      · exact ⟨v.under index, List.mem_append_left _ (List.mem_map_of_mem hv), h⟩
      · exact ⟨v, List.mem_append_right _ hv, h⟩
    · rintro ⟨v, hv, h⟩
      rcases List.mem_append.1 hv with hv | hv
      · obtain ⟨u, hu, rfl⟩ := List.mem_map.1 hv
        exact .inl ⟨u, hu, h⟩
      · exact .inr ⟨v, hv, h⟩

end

/-- Where no check fails, either a configuration asks for a migration or all answer that
the state can stay as it is. -/
private theorem all_asIs_iff {visits : List (Visit κ)} (h : ∀ v ∈ visits, v.check.failure = none) :
    (∀ v ∈ visits, ∀ a, v.check.answer = some a → a = .asIs) ↔
      ¬ ∃ v ∈ visits, v.check.answer = some .migrate := by
  constructor
  · rintro hall ⟨v, hv, hanswer⟩
    cases hall v hv _ hanswer
  · intro hnone v hv a hanswer
    have hpass := h v hv
    obtain ⟨path, check⟩ := v
    cases check with
    | config previous current =>
      cases a with
      | asIs => rfl
      | migrate => exact absurd ⟨_, hv, hanswer⟩ hnone
      | incompatible reason =>
        simp only [Check.failure, Option.some.inj hanswer] at hpass
        cases hpass
    | _ => cases hanswer

/-- The verdict is incompatible exactly when a check of the traversal fails, and then for
the first failure; else a migration is needed exactly when a configuration asks for one,
and the state can stay as it is when all of them say so. -/
theorem resolve_iff_traversal (previous : Envelope) (current : Encoder κ) :
    ((resolve false previous current).isIncompatible = true ↔
        ∃ v ∈ previous.visits current, v.check.failure ≠ none) ∧
      (∀ why, resolve false previous current = .incompatible why ↔
        FirstFails (previous.visits current) why) ∧
      (resolve false previous current = .asIs ↔
        (∀ v ∈ previous.visits current, v.check.failure = none) ∧
          ∀ v ∈ previous.visits current, ∀ a, v.check.answer = some a → a = .asIs) ∧
      ((∃ e, resolve false previous current = .migrate e) ↔
        (∀ v ∈ previous.visits current, v.check.failure = none) ∧
          ∃ v ∈ previous.visits current, v.check.answer = some .migrate) := by
  have hverdict : resolve false previous current = _ := resolve_eq_visits previous current
  cases hfirst : firstFailure (previous.visits current) with
  | some why =>
    have hfails : ∃ v ∈ previous.visits current, v.check.failure ≠ none := by
      obtain ⟨before, v, after, hvisits, -, -, hreason⟩ := firstFailure_eq_some.1 hfirst
      refine ⟨v, ?_, ?_⟩
      · rw [hvisits]
        exact List.mem_append_right before List.mem_cons_self
      · rw [hreason]
        exact Option.some_ne_none why.reason
    have hno : ¬ ∀ v ∈ previous.visits current, v.check.failure = none := by
      intro hall
      obtain ⟨v, hv, hne⟩ := hfails
      exact hne (hall v hv)
    simp only [hfirst] at hverdict
    rw [hverdict]
    refine ⟨iff_of_true rfl hfails, ?_, ?_, ?_⟩
    · intro other
      rw [← firstFailure_eq_some, hfirst]
      simp only [Verdict.incompatible.injEq, Option.some.injEq]
    · exact iff_of_false (fun h => nomatch h) fun h => hno h.1
    · exact iff_of_false (fun h => nomatch h) fun h => hno h.1
  | none =>
    have hall := firstFailure_eq_none.1 hfirst
    have hpass : ¬ ∃ v ∈ previous.visits current, v.check.failure ≠ none := by
      rintro ⟨v, hv, hne⟩
      exact hne (hall v hv)
    have hnever : ∀ why, ¬ FirstFails (previous.visits current) why := by
      intro why hwhy
      rw [firstFailure_eq_some.2 hwhy] at hfirst
      cases hfirst
    simp only [hfirst] at hverdict
    rw [all_asIs_iff hall, ← migrates_iff, hverdict, and_iff_right hall, and_iff_right hall]
    cases previous.migrates current with
    | true =>
      refine ⟨iff_of_false (fun h => nomatch h) hpass, ?_, ?_, ?_⟩
      · exact fun why => iff_of_false (fun h => nomatch h) (hnever why)
      · exact iff_of_false (fun h => nomatch h) fun h => h rfl
      · exact iff_of_true ⟨_, rfl⟩ rfl
    | false =>
      refine ⟨iff_of_false (fun h => nomatch h) hpass, ?_, ?_, ?_⟩
      · exact fun why => iff_of_false (fun h => nomatch h) (hnever why)
      · exact iff_of_true rfl fun h => nomatch h
      · exact iff_of_false (fun h => nomatch h) fun h => nomatch h

end Restorable
