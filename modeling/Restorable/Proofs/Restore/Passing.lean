-- SUMMARY: What a verdict that lets state be read went through, and what it migrates to.
import Restorable.Encoder.Table
import Restorable.Proofs.Encoder.Recorded
import Restorable.Proofs.Restore.Evolution
import Restorable.Proofs.Steps

/-!
# Verdicts that let state be read

A verdict other than incompatible has passed the checks of the node and of every child.
Built-in encoders are put together again from their own children, so a migration lands on
the current encoder; and one that passes reads its own snapshot as it is, since no length
of 2^32 or more passes.
-/
namespace Restorable

/-! ## Configurations that can be read -/

namespace ConfigVerdict

variable {own own' : Bool}

@[simp] theorem incompatible_ne_reads {reason : Reason} :
    incompatible reason ≠ if own then migrate else asIs := by
  cases own <;> exact ConfigVerdict.noConfusion

/-- The verdict on a configuration that can be read says whether it migrates. -/
theorem reads_inj (h : (if own then migrate else asIs) = if own' then migrate else asIs) :
    own = own' := by
  cases own <;> cases own' <;> first | rfl | cases h

end ConfigVerdict

variable {κ : Type}

/-- The state can be read, as it is or after a migration. -/
def Verdict.Passes (v : Verdict κ) : Prop := v.isIncompatible = false

variable [CustomKind κ]

/-! ## One node -/

private theorem checkConfig_eq_ok {previous : Envelope} {current : Encoder κ} {own : Bool} :
    checkConfig previous current = .ok own ↔
      current.resolveConfig previous = if own then .migrate else .asIs := by
  unfold checkConfig
  cases current.resolveConfig previous <;> cases own <;> simp

private theorem checkNested_eq_ok {previous : Envelope} {current : Encoder κ} {u : Unit} :
    checkNested previous current = .ok u ↔
      current.nested.length = previous.nested.length := by
  unfold checkNested
  split <;> simp_all

/-- The checks of a node that passes: its version, what its configuration said, and the counts. -/
theorem checkNode_eq_ok {previous : Envelope} {current : Encoder κ} {own : Bool} :
    checkNode previous current = .ok own ↔
      checkVersion previous current = .ok () ∧
      current.resolveConfig previous = (if own then .migrate else .asIs) ∧
      current.nested.length = previous.nested.length := by
  simp only [checkNode, Steps.exceptBind_eq_ok, checkConfig_eq_ok, checkNested_eq_ok]
  constructor
  · rintro ⟨_, hversion, _, hconfig, _, hcount, hown⟩
    cases hown
    exact ⟨hversion, hconfig, hcount⟩
  · rintro ⟨hversion, hconfig, hcount⟩
    exact ⟨(), hversion, own, hconfig, (), hcount, rfl⟩

/-- A node that passes went through its checks and its children, and was assembled. -/
theorem resolve_of_passes {previous : Envelope} {current : Encoder κ}
    (h : (previous.resolve current).Passes) :
    ∃ own below nested, checkNode previous current = .ok own ∧
      resolveAll previous.nested current.nested 0 = .ok (below, nested) ∧
      previous.resolve current = assemble current (own || below) nested := by
  obtain ⟨id, version, config, stored⟩ := previous
  unfold Envelope.resolve at h ⊢
  cases hnode : checkNode (.mk id version config stored) current with
  | error reason =>
    rw [hnode] at h
    cases h
  | ok own =>
    rw [hnode] at h
    simp only at h
    cases hbelow : resolveAll stored current.nested 0 with
    | error why =>
      rw [hbelow] at h
      cases h
    | ok r => exact ⟨own, r.1, r.2, rfl, hbelow, rfl⟩

/-! ## Children -/

/-- Where nested envelopes pass, each passes against the encoder in its place. -/
private theorem passes_of_resolveAll {stored : List Envelope} {current : List (Encoder κ)}
    {index : Nat} {r : Bool × List (Encoder κ)} (h : resolveAll stored current index = .ok r)
    (hlen : current.length = stored.length) :
    ∀ c ∈ current, ∃ s ∈ stored, (s.resolve c).Passes := by
  induction stored generalizing current index r with
  | nil =>
    rw [List.eq_nil_of_length_eq_zero hlen]
    exact fun c hc => nomatch hc
  | cons s stored ih =>
    cases current with
    | nil => cases hlen
    | cons c current =>
      have hlen' : current.length = stored.length := Nat.succ.inj hlen
      have hrest : (s.resolve c).Passes ∧ ∃ r', resolveAll stored current (index + 1) = .ok r' := by
        cases hv : s.resolve c with
        | incompatible why =>
          rw [Encoder.resolveAll_of_incompatible hv] at h
          cases h
        | asIs =>
          rw [Encoder.resolveAll_of_asIs hv] at h
          cases hr : resolveAll stored current (index + 1) with
          | error why =>
            rw [hr] at h
            cases h
          | ok r' => exact ⟨rfl, r', rfl⟩
        | migrate e =>
          rw [Encoder.resolveAll_of_migrate hv] at h
          cases hr : resolveAll stored current (index + 1) with
          | error why =>
            rw [hr] at h
            cases h
          | ok r' => exact ⟨rfl, r', rfl⟩
      obtain ⟨hs, r', hr⟩ := hrest
      intro d hd
      rcases List.mem_cons.1 hd with rfl | hd
      · exact ⟨s, List.mem_cons_self, hs⟩
      · obtain ⟨t, ht, hpass⟩ := ih hr hlen' d hd
        exact ⟨t, List.mem_cons_of_mem s ht, hpass⟩

/-- Where every migration lands on the encoder in its place, the children stay. -/
theorem nested_of_resolveAll {stored : List Envelope} {current nested : List (Encoder κ)}
    {index : Nat} {below : Bool} (h : resolveAll stored current index = .ok (below, nested))
    (hlen : current.length = stored.length)
    (hlands : ∀ c ∈ current, ∀ (s : Envelope) m, s.resolve c = .migrate m → m = c) : nested = current := by
  induction stored generalizing current nested index below with
  | nil =>
    rw [List.eq_nil_of_length_eq_zero hlen] at h ⊢
    cases h
    rfl
  | cons s stored ih =>
    cases current with
    | nil => cases hlen
    | cons c current =>
      have hlen' : current.length = stored.length := Nat.succ.inj hlen
      have hlands' : ∀ d ∈ current, ∀ (s : Envelope) m, s.resolve d = .migrate m → m = d :=
        fun d hd => hlands d (List.mem_cons_of_mem c hd)
      cases hv : s.resolve c with
      | incompatible why =>
        rw [Encoder.resolveAll_of_incompatible hv] at h
        cases h
      | asIs =>
        rw [Encoder.resolveAll_of_asIs hv] at h
        cases hr : resolveAll stored current (index + 1) with
        | error why =>
          rw [hr] at h
          cases h
        | ok r =>
          rw [hr] at h
          cases h
          rw [ih hr hlen' hlands']
      | migrate e =>
        rw [Encoder.resolveAll_of_migrate hv] at h
        cases hr : resolveAll stored current (index + 1) with
        | error why =>
          rw [hr] at h
          cases h
        | ok r =>
          rw [hr] at h
          cases h
          rw [ih hr hlen' hlands', hlands c List.mem_cons_self s e hv]

namespace Encoder

/-! ## Kinds that can be read -/

/-- What can be read is of the own kind, with a configuration that can be read, or of a kind
that is widened, which always migrates. -/
theorem resolveConfig_eq_reads {current : Encoder κ} {k : Kind} (hk : current.kind? = some k)
    {previous : Envelope} {own : Bool} :
    current.resolveConfig previous = (if own then .migrate else .asIs) ↔
      ∃ old, Kind.ofId? previous.id = some old ∧
        (old = k ∧ current.resolveSameKind previous = (if own then .migrate else .asIs) ∨
          k.widens old = true ∧ own = true) := by
  have hirrefl : k.widens k = false := by cases k <;> rfl
  cases hid : Kind.ofId? previous.id with
  | none =>
    have hconfig : current.resolveConfig previous =
        .incompatible (.kindChanged previous.id k.id) := by
      cases current with
      | custom kind es => cases hk
      | _ => simp only [resolveConfig, hk, hid]
    simp [hconfig]
  | some old =>
    have hconfig : current.resolveConfig previous =
        if old = k then current.resolveSameKind previous
        else if k.widens old then .migrate
        else .incompatible (.kindChanged previous.id k.id) := by
      cases current with
      | custom kind es => cases hk
      | _ => simp only [resolveConfig, hk, hid]
    rw [hconfig]
    by_cases hsame : old = k
    · subst hsame
      simp [hirrefl]
    · cases hwidens : k.widens old <;> cases own <;> simp [hsame, hwidens]

/-! ## Migrations -/

/-- A built-in encoder put together again from its own children is the same encoder. -/
private theorem rebuild_nested {e m : Encoder κ} {k : Kind} (hk : e.kind? = some k)
    (h : e.rebuild e.nested = .ok m) : m = e := by
  cases e with
  | custom kind es => cases hk
  | row names es =>
    change (if es.length = names.length then _ else _) = _ at h
    by_cases hlen : es.length = names.length
    · rw [if_pos hlen] at h
      cases h
      rfl
    · rw [if_neg hlen] at h
      cases h
  | _ =>
    cases h
    rfl

/-- A migration lands on the current encoder. -/
theorem migrate_eq_current {current : Encoder κ} (hc : current.BuiltIn) :
    ∀ (previous : Envelope) (m : Encoder κ), previous.resolve current = .migrate m →
      m = current := by
  induction hc with
  | @node current k hk _ ih =>
    intro previous m h
    have hpasses : (previous.resolve current).Passes := by
      rw [h]
      rfl
    obtain ⟨own, below, nested, hnode, hbelow, hverdict⟩ := resolve_of_passes hpasses
    have hnested : nested = current.nested :=
      nested_of_resolveAll hbelow (checkNode_eq_ok.1 hnode).2.2 ih
    rw [hverdict, hnested] at h
    unfold assemble at h
    split at h
    · cases hm : current.rebuild current.nested with
      | error failure =>
        rw [hm] at h
        cases h
      | ok e =>
        rw [hm] at h
        cases h
        exact rebuild_nested hk hm
    · cases h

/-! ## Lengths -/

/-- A fixed length that matches a configuration is one that configurations record. -/
theorem lt_of_resolve_bytes {length : UInt64} {version : UInt32} {old : Config} {own : Bool}
    (h : (Leaf.bytes (some length)).resolve version old = if own then .migrate else .asIs) :
    length < 4294967296 := by
  simp only [Leaf.resolve] at h
  split at h
  next heq =>
    obtain ⟨n, -, rfl⟩ := Option.map_eq_some_iff.1 heq
    rw [UInt64.lt_iff_toNat_lt, UInt32.toNat_toUInt64]
    exact n.toNat_lt
  next => exact absurd h ConfigVerdict.incompatible_ne_reads

private theorem lt_of_resolveConfig_bytes {length : UInt64} {previous : Envelope} {own : Bool}
    (h : (leaf (.bytes (some length)) : Encoder κ).resolveConfig previous =
      if own then .migrate else .asIs) : length < 4294967296 := by
  have hk : (leaf (.bytes (some length)) : Encoder κ).kind? = some .bytes := rfl
  obtain ⟨old, -, ⟨-, hsame⟩ | ⟨hwidens, -⟩⟩ := (resolveConfig_eq_reads hk).1 h
  · have hleaf : (Leaf.bytes (some length)).resolve previous.version previous.config =
        if own then .migrate else .asIs := hsame
    exact lt_of_resolve_bytes hleaf
  · -- Byte strings widen no other kind.
    cases old <;> cases hwidens

/-- What passes has no length that configurations do not record. -/
theorem short_of_passes {current : Encoder κ} (hc : current.BuiltIn) :
    ∀ previous : Envelope, (previous.resolve current).Passes → current.Short := by
  induction hc with
  | @node current k hk _ ih =>
    intro previous h
    obtain ⟨own, below, nested, hnode, hbelow, -⟩ := resolve_of_passes h
    obtain ⟨-, hconfig, hlen⟩ := checkNode_eq_ok.1 hnode
    refine .node ?_ ?_
    · rintro length rfl
      exact lt_of_resolveConfig_bytes hconfig
    · intro c hmem
      obtain ⟨s, -, hs⟩ := passes_of_resolveAll hbelow hlen c hmem
      exact ih c hmem s hs

/-! ## An encoder and its own snapshot -/

theorem resolveAll_snapshot_self {es : List (Encoder κ)} (index : Nat)
    (h : ∀ e ∈ es, e.snapshot.resolve e = .asIs) :
    resolveAll (es.map snapshot) es index = .ok (false, es) := by
  induction es generalizing index with
  | nil => rfl
  | cons e es ih =>
    obtain ⟨he, hes⟩ := List.forall_mem_cons.1 h
    rw [List.map_cons, resolveAll_of_asIs he, ih (index + 1) hes]
    rfl

/-- The own configuration of an encoder asks for nothing. -/
private theorem resolveSameKind_self {e : Encoder κ} {k : Kind} (hk : e.kind? = some k)
    (hs : e.Short) :
    e.resolveSameKind e.snapshot = .asIs := by
  cases e with
  | custom kind es => cases hk
  | row names es => rw [resolveSameKind_row, (firstRename_eq_none 0 rfl).2 rfl]
  | leaf l =>
    cases @Leaf.decides_resolve κ l l rfl (short_leaf.1 hs) with
    | same _ answer => exact answer
    | evolved hne => exact absurd rfl hne
    | apart hno => exact absurd (.same l) hno
  | _ => rfl

/-- A built-in encoder reads its own snapshot as it is, if its lengths are recorded. -/
theorem resolve_snapshot_self {e : Encoder κ} (he : e.BuiltIn) (hs : e.Short) :
    e.snapshot.resolve e = .asIs := by
  induction he with
  | @node e k hk _ ih =>
    have hown : checkConfig e.snapshot e = .ok false := by
      simp only [checkConfig, resolveConfig_snapshot hk hk, if_pos, resolveSameKind_self hk hs]
    have hbelow := resolveAll_snapshot_self 0 fun c hc => ih c hc (hs.nested c hc)
    rw [resolve_snapshot_eq hk hk, hown]
    simp only [if_pos, hbelow, assemble, Bool.or_self, Bool.false_eq_true, if_false]

/-- A migration lands on the current encoder, and the state written with it from then on
can be read as it is. -/
theorem resolve_migrate_current (previous : Envelope) (current m : Encoder κ)
    (hc : current.BuiltIn) (h : resolve false previous current = .migrate m) :
    m = current ∧ resolve false m.snapshot current = .asIs ∧
      resolve false m.snapshot m = .asIs := by
  have hverdict : previous.resolve current = .migrate m := h
  have hm : m = current := migrate_eq_current hc previous m hverdict
  have hpasses : (previous.resolve current).Passes := by
    rw [hverdict]
    rfl
  have hself : current.snapshot.resolve current = .asIs :=
    resolve_snapshot_self hc (short_of_passes hc previous hpasses)
  rw [hm]
  exact ⟨rfl, hself, hself⟩

/-- A row that was written before decimals recorded a scale migrates to wider fields. -/
theorem resolve_migrate_current_row :
    let previous : Envelope :=
      .mk "row" 1 (Config.empty.insert "field_names" (.ofStrings ["id", "price"]))
        [.mk "int" 1 .empty [],
          .mk "decimal" 1 (Config.empty.insert "precision" (.ofUInt32 10)) []]
    let current : Encoder TableKind := .row ["id", "price"] [.leaf .long, .leaf (.decimal 12 0)]
    current.BuiltIn ∧ resolve false previous current = .migrate current ∧
      current = current ∧ resolve false current.snapshot current = .asIs ∧
      resolve false current.snapshot current = .asIs := by
  intro previous current
  have hleaf : ∀ l : Leaf, (leaf l : Encoder TableKind).BuiltIn :=
    fun _ => .node rfl (fun _ hc => nomatch hc)
  have hc : current.BuiltIn :=
    .node rfl (List.forall_mem_cons.2 ⟨hleaf _, List.forall_mem_singleton.2 (hleaf _)⟩)
  have h : resolve false previous current = .migrate current := rfl
  exact ⟨hc, h, resolve_migrate_current previous current current hc h⟩

end Encoder
end Restorable
