-- SUMMARY: State that an encoder reads can be read by every encoder that reads its snapshot.
import Restorable.Proofs.Restore.Passing

/-!
# Composing evolutions

An encoder that reads an envelope, and another one that reads the snapshot of the first:
then the second reads the envelope too, and it migrates exactly when one of the two steps
does. Kinds, precisions and names compose at one node, whatever the envelope says there,
and the nodes of three trees of one shape compose to the trees.
-/
namespace Restorable

/-! ## Kinds -/

theorem Kind.widens_trans {k l m : Kind} (h : l.widens k = true) (h' : m.widens l = true) :
    m.widens k = true := by
  cases l <;> cases k <;> cases h
  all_goals cases m <;> first | rfl | cases h'

/-! ## Configurations -/

namespace ConfigVerdict

variable {own : Bool}

/-- A stored value that can be read is there. -/
private theorem ofKey_eq_reads {α : Type} {key : String} {stored : Option α}
    {verdict : α → ConfigVerdict} :
    ofKey key stored verdict = (if own then .migrate else .asIs) ↔
      ∃ x, stored = some x ∧ verdict x = if own then .migrate else .asIs := by
  cases stored with
  | none => simp [ofKey]
  | some x => simp [ofKey]

private theorem guard_eq_reads {guard : Prop} [Decidable guard] {verdict : ConfigVerdict}
    {reason : Reason} :
    (if guard then verdict else .incompatible reason) = (if own then .migrate else .asIs) ↔
      guard ∧ verdict = if own then .migrate else .asIs := by
  by_cases h : guard <;> simp [h]

/-- A precision that can be read migrates to every greater one. -/
private theorem ofPrecision_of_lt {kind : String} {old precision precision' : UInt32}
    (h : ofPrecision kind old precision = if own then .migrate else .asIs)
    (hlt : precision < precision') : ofPrecision kind old precision' = .migrate := by
  have hle : old ≤ precision := by
    cases decides_ofPrecision kind old precision with
    | same heq _ => exact heq ▸ UInt32.le_refl old
    | evolved _ hle _ => exact hle
    | apart _ answer =>
      obtain ⟨reason, answer⟩ := answer
      rw [answer] at h
      exact absurd h incompatible_ne_reads
  have hold : old < precision' := UInt32.lt_of_le_of_lt hle hlt
  have hne : old ≠ precision' := UInt32.ne_of_lt hold
  simp only [ofPrecision, if_neg hne, if_pos hold]

end ConfigVerdict

namespace Leaf

open ConfigVerdict

/-- A leaf of the same kind that is wider than one that reads a configuration migrates it. -/
private theorem resolve_of_evolves {l m : Leaf} (hk : l.kind = m.kind) (hne : l ≠ m)
    (hev : l.Evolves m) {version : UInt32} {old : Config} {own : Bool}
    (h : l.resolve version old = if own then .migrate else .asIs) :
    m.resolve version old = .migrate := by
  have hlt : ∀ {precision precision' : UInt32}, precision ≤ precision' → precision ≠ precision' →
      precision < precision' := fun hle hne => UInt32.lt_of_le_of_ne hle hne
  cases hev with
  | same => exact absurd rfl hne
  | decimal scale hle =>
    obtain ⟨oldPrecision, hprecision, h⟩ := ofKey_eq_reads.1 h
    obtain ⟨oldScale, hscale, h⟩ := ofKey_eq_reads.1 h
    obtain ⟨hsame, h⟩ := guard_eq_reads.1 h
    have hgrown := ofPrecision_of_lt h (hlt hle fun heq => hne (by rw [heq]))
    simp only [resolve, hprecision, hscale, ofKey, if_pos hsame, hgrown]
  | time hle =>
    obtain ⟨oldPrecision, hprecision, h⟩ := ofKey_eq_reads.1 h
    have hgrown := ofPrecision_of_lt h (hlt hle fun heq => hne (by rw [heq]))
    simp only [resolve, hprecision, ofKey, hgrown]
  | timestamp zoned hle =>
    obtain ⟨oldZoned, hzoned, h⟩ := ofKey_eq_reads.1 h
    obtain ⟨hsame, h⟩ := guard_eq_reads.1 h
    obtain ⟨oldPrecision, hprecision, h⟩ := ofKey_eq_reads.1 h
    have hgrown := ofPrecision_of_lt h (hlt hle fun heq => hne (by rw [heq]))
    simp only [resolve, hzoned, hprecision, ofKey, if_pos hsame, hgrown]
  | _ => cases hk

/-- A leaf that reads a configuration leaves one that records it. -/
private theorem regular_of_resolve {κ : Type} {l : Leaf} {version : UInt32} {old : Config}
    {own : Bool} (h : l.resolve version old = if own then .migrate else .asIs) :
    (Encoder.leaf l : Encoder κ).Regular := by
  cases l with
  | bytes length =>
    cases length with
    | none => trivial
    | some length => exact Encoder.lt_of_resolve_bytes h
  | _ => trivial

/-- Two leaves of one kind, of which the second reads the configuration of the first. -/
private theorem resolve_compose_leaf {l m : Leaf} (hk : l.kind = m.kind) {version : UInt32}
    {old : Config} {own own' : Bool} (h : l.resolve version old = if own then .migrate else .asIs)
    (h' : m.resolve l.kind.version l.config = if own' then .migrate else .asIs) :
    m.resolve version old = if own || own' then .migrate else .asIs := by
  have hregular : (Encoder.leaf l : Encoder Empty).Regular := regular_of_resolve h
  cases decides_resolve hk hregular with
  | same heq answer =>
    rw [answer] at h'
    obtain rfl : false = own' := reads_inj h'
    rw [← heq, h, Bool.or_false]
  | evolved hne hev answer =>
    rw [answer] at h'
    obtain rfl : true = own' := reads_inj h'
    rw [resolve_of_evolves hk hne hev h, Bool.or_true]
    rfl
  | apart _ answer =>
    obtain ⟨reason, answer⟩ := answer
    rw [answer] at h'
    exact absurd h' incompatible_ne_reads

end Leaf

namespace Encoder

variable {κ : Type}

/-! ## Rows with a name for every field -/

/-- Every row has as many names as fields, at any depth. -/
inductive Named : Encoder κ → Prop
  | node {e : Encoder κ}
    (own : ∀ names fields, e = .row names fields → names.length = fields.length)
    (nested : ∀ c ∈ e.nested, Named c) : Named e

theorem Named.nested {e : Encoder κ} (h : e.Named) : ∀ c ∈ e.nested, c.Named := by
  cases h with
  | node own nested => exact nested

variable [CustomKind κ]

/-- Around its own nested encoders, an encoder is put together again. -/
private theorem rebuild_of_named {e : Encoder κ} {k : Kind} (hk : e.kind? = some k) (hn : e.Named) :
    e.rebuild e.nested = .ok e := by
  cases e with
  | custom kind es => cases hk
  | row names es =>
    obtain ⟨own, -⟩ := hn
    have hlen : es.length = names.length := (own names es rfl).symm
    exact if_pos hlen
  | _ => rfl

/-! ## One node -/

/-- Two encoders of one kind, of which the second reads the configuration of the first. -/
private theorem resolveSameKind_compose {previous : Envelope} {b c : Encoder κ} {k : Kind}
    {own own' : Bool} (hb : b.kind? = some k) (hc : c.kind? = some k) (hbn : b.Named)
    (hcn : c.Named) (hlen : c.nested.length = b.nested.length)
    (h : b.resolveSameKind previous = if own then .migrate else .asIs)
    (h' : c.resolveSameKind b.snapshot = if own' then .migrate else .asIs) :
    c.resolveSameKind previous = if own || own' then .migrate else .asIs := by
  cases b with
  | leaf l =>
    cases c with
    | leaf m =>
      have hk : l.kind = m.kind := Option.some.inj (hb.trans hc.symm)
      exact Leaf.resolve_compose_leaf hk h h'
    | custom kind es => cases hc
    | _ => cases l <;> cases hb <;> cases hc
  | row names es =>
    cases c with
    | leaf m => cases m <;> cases hb <;> cases hc
    | row names' fs =>
      obtain ⟨hes, -⟩ := hbn
      obtain ⟨hfs, -⟩ := hcn
      have hsame : names.length = names'.length := by
        rw [hes names es rfl, hfs names' fs rfl]
        exact hlen.symm
      rw [resolveSameKind_row] at h'
      cases hrename : firstRename 0 names names' with
      | some rename =>
        rw [hrename] at h'
        exact absurd h' ConfigVerdict.incompatible_ne_reads
      | none =>
        rw [hrename] at h'
        obtain rfl : false = own' := ConfigVerdict.reads_inj h'
        rw [Bool.or_false, ← (firstRename_eq_none 0 hsame).1 hrename]
        exact h
    | _ =>
      cases hb
      cases hc
  | custom kind es => cases hb
  | _ =>
    cases c with
    | leaf m =>
      cases hb
      cases m <;> cases hc
    | row names' fs =>
      cases hb
      cases hc
    | custom kind es => cases hc
    | _ =>
      obtain rfl : false = own := ConfigVerdict.reads_inj h
      obtain rfl : false = own' := ConfigVerdict.reads_inj h'
      rfl

/-- A version is in the way of no kind that a node can read, if it is not newer. -/
private theorem checkVersion_eq_ok {previous : Envelope} {current : Encoder κ} {k old : Kind}
    (hk : current.kind? = some k) (hid : Kind.ofId? previous.id = some old)
    (hreads : old = k ∨ k.widens old = true) :
    checkVersion previous current = .ok () ↔ previous.version ≤ old.version := by
  have hreadable : current.readable previous.id = some old.version := by
    cases current with
    | custom kind nested => cases hk
    | _ => simp only [readable, hk, hid, if_pos hreads]
  rw [checkVersion, hreadable, ← UInt32.not_lt]
  by_cases h : old.version < previous.version <;> simp [h]

/-- The checks of a node compose, whatever kind, version and configuration were stored. -/
theorem checkNode_compose {previous : Envelope} {b c : Encoder κ} {kb kc : Kind} {own own' : Bool}
    (hb : b.kind? = some kb) (hc : c.kind? = some kc) (hbn : b.Named) (hcn : c.Named)
    (h : checkNode previous b = .ok own) (h' : checkNode b.snapshot c = .ok own') :
    checkNode previous c = .ok (own || own') := by
  obtain ⟨hversion, hconfig, hcount⟩ := checkNode_eq_ok.1 h
  obtain ⟨-, hconfig', hcount'⟩ := checkNode_eq_ok.1 h'
  have hlen : c.nested.length = b.nested.length := by
    simp [hcount']
  obtain ⟨old, hid, hold⟩ := (resolveConfig_eq_reads hb).1 hconfig
  have hmid : Kind.ofId? b.snapshot.id = some kb := by simp [id_of_kind hb]
  obtain ⟨mid, hmid', hnew⟩ := (resolveConfig_eq_reads hc).1 hconfig'
  obtain rfl : kb = mid := Option.some.inj (hmid.symm.trans hmid')
  have hfit : previous.version ≤ old.version :=
    (checkVersion_eq_ok hb hid (hold.imp And.left And.left)).1 hversion
  have hreads : old = kc ∧ c.resolveSameKind previous = (if own || own' then .migrate else .asIs) ∨
      kc.widens old = true ∧ (own || own') = true := by
    rcases hold with ⟨rfl, hown⟩ | ⟨hwidens, rfl⟩
    · rcases hnew with ⟨rfl, hown'⟩ | ⟨hwidens', rfl⟩
      · exact .inl ⟨rfl, resolveSameKind_compose hb hc hbn hcn hlen hown hown'⟩
      · exact .inr ⟨hwidens', Bool.or_true own⟩
    · rcases hnew with ⟨rfl, -⟩ | ⟨hwidens', -⟩
      · exact .inr ⟨hwidens, rfl⟩
      · exact .inr ⟨Kind.widens_trans hwidens hwidens', rfl⟩
  -- The version belongs to the kind that was stored, so it is as readable for `c` as for `b`.
  refine checkNode_eq_ok.2 ⟨?_, (resolveConfig_eq_reads hc).2 ⟨old, hid, hreads⟩, ?_⟩
  · exact (checkVersion_eq_ok hc hid (hreads.imp And.left And.left)).2 hfit
  · rw [hlen, hcount]

end Encoder

/-! ## Trees -/

section
variable {κ : Type} [CustomKind κ]

/-- The encoder reads the envelope, as it is or after a migration, which lands on this very
encoder. -/
def Envelope.ReadBy (previous : Envelope) (current : Encoder κ) (migrates : Bool) : Prop :=
  previous.resolve current = if migrates then .migrate current else .asIs

end

namespace Encoder

variable {κ : Type} [CustomKind κ]

/-- An encoder reads an envelope in one way. -/
private theorem readBy_inj {previous : Envelope} {current : Encoder κ} {m n : Bool}
    (h : previous.ReadBy current m) (h' : previous.ReadBy current n) : m = n := by
  have hverdict := h.symm.trans h'
  cases m <;> cases n <;> first | rfl | cases hverdict

theorem readBy_of_passes {previous : Envelope} {current : Encoder κ} (hc : current.BuiltIn)
    (h : (previous.resolve current).Passes) : ∃ migrates, previous.ReadBy current migrates := by
  cases hv : previous.resolve current with
  | asIs => exact ⟨false, hv⟩
  | migrate m => exact ⟨true, migrate_eq_current hc previous m hv ▸ hv⟩
  | incompatible why =>
    rw [hv] at h
    cases h

/-- Nested encoders are read one by one. -/
private theorem resolveAll_cons_eq_ok {s : Envelope} {c : Encoder κ} {stored : List Envelope}
    {current : List (Encoder κ)} {index : Nat} {migrates : Bool} :
    resolveAll (s :: stored) (c :: current) index = .ok (migrates, c :: current) ↔
      ∃ first rest, s.ReadBy c first ∧
        resolveAll stored current (index + 1) = .ok (rest, current) ∧
        (first || rest) = migrates := by
  unfold Envelope.ReadBy
  cases hv : s.resolve c with
  | asIs =>
    rw [resolveAll_of_asIs hv]
    cases resolveAll stored current (index + 1) with
    | error why => simp [Except.map]
    | ok r =>
      obtain ⟨below, es⟩ := r
      cases migrates <;> simp [Except.map, and_comm]
  | migrate e =>
    rw [resolveAll_of_migrate hv]
    cases resolveAll stored current (index + 1) with
    | error why => simp [Except.map]
    | ok r =>
      obtain ⟨below, es⟩ := r
      cases below <;> cases migrates <;> simp [Except.map]
  | incompatible why =>
    rw [resolveAll_of_incompatible hv]
    simp

/-- An encoder reads an envelope when its node and its nested encoders do. -/
theorem readBy_iff {previous : Envelope} {current : Encoder κ} {migrates : Bool}
    (hc : current.BuiltIn) (hn : current.Named) :
    previous.ReadBy current migrates ↔
      ∃ own below, checkNode previous current = .ok own ∧
        resolveAll previous.nested current.nested 0 = .ok (below, current.nested) ∧
        (own || below) = migrates := by
  obtain ⟨k, hk, hnested⟩ : ∃ k, current.kind? = some k ∧ ∀ c ∈ current.nested, c.BuiltIn := by
    obtain @⟨_, k, hk, hnested⟩ := hc
    exact ⟨k, hk, hnested⟩
  have hassemble : ∀ m, assemble current m current.nested =
      if m then .migrate current else .asIs := by
    intro m
    rw [assemble, rebuild_of_named hk hn]
  constructor
  · intro h
    have hpasses : (previous.resolve current).Passes := by
      rw [h]
      cases migrates <;> rfl
    obtain ⟨own, below, nested, hnode, hbelow, hverdict⟩ := resolve_of_passes hpasses
    have hsame : nested = current.nested :=
      nested_of_resolveAll hbelow (checkNode_eq_ok.1 hnode).2.2 fun c hc =>
        migrate_eq_current (hnested c hc)
    rw [hsame, hassemble] at hverdict
    exact ⟨own, below, hnode, hsame ▸ hbelow, readBy_inj hverdict h⟩
  · rintro ⟨own, below, hnode, hbelow, rfl⟩
    obtain ⟨id, version, config, stored⟩ := previous
    have hbelow : resolveAll stored current.nested 0 = .ok (below, current.nested) := hbelow
    rw [Envelope.ReadBy, Envelope.resolve, hnode]
    simp only [hbelow, hassemble]

/-- Nested encoders compose where each pair of them does. -/
private theorem resolveAll_compose {stored : List Envelope} {bs cs : List (Encoder κ)}
    {index index' : Nat} {m n : Bool} (hlen : bs.length = stored.length)
    (hlen' : cs.length = bs.length)
    (hcompose : ∀ b ∈ bs, ∀ c ∈ cs, ∀ (s : Envelope) (m n : Bool), s.ReadBy b m →
      b.snapshot.ReadBy c n → s.ReadBy c (m || n))
    (h : resolveAll stored bs index = .ok (m, bs))
    (h' : resolveAll (bs.map snapshot) cs index' = .ok (n, cs)) :
    resolveAll stored cs index = .ok (m || n, cs) := by
  induction stored generalizing bs cs index index' m n with
  | nil =>
    obtain rfl := List.eq_nil_of_length_eq_zero hlen
    obtain rfl := List.eq_nil_of_length_eq_zero hlen'
    cases h
    cases h'
    rfl
  | cons s stored ih =>
    cases bs with
    | nil => cases hlen
    | cons b bs =>
      cases cs with
      | nil => cases hlen'
      | cons c cs =>
        obtain ⟨m₁, m₂, hs, hstored, rfl⟩ := resolveAll_cons_eq_ok.1 h
        obtain ⟨n₁, n₂, hb, hbs, rfl⟩ := resolveAll_cons_eq_ok.1 h'
        have hfirst := hcompose b List.mem_cons_self c List.mem_cons_self s m₁ n₁ hs hb
        have hrest := ih (Nat.succ.inj hlen) (Nat.succ.inj hlen')
          (fun b hb c hc => hcompose b (List.mem_cons_of_mem _ hb) c (List.mem_cons_of_mem _ hc))
          hstored hbs
        exact resolveAll_cons_eq_ok.2 ⟨_, _, hfirst, hrest, by ac_rfl⟩

/-- Reading an envelope and reading the snapshot of the reader compose, for whole trees. -/
theorem readBy_compose {b : Encoder κ} (hb : b.BuiltIn) :
    ∀ c : Encoder κ, c.BuiltIn → b.Named → c.Named → ∀ (previous : Envelope) (m n : Bool),
      previous.ReadBy b m → b.snapshot.ReadBy c n → previous.ReadBy c (m || n) := by
  induction hb with
  | @node b kb hkb hnested ih =>
    intro c hc hbn hcn previous m n h h'
    obtain ⟨own, below, hnode, hbelow, rfl⟩ := (readBy_iff (.node hkb hnested) hbn).1 h
    obtain ⟨own', below', hnode', hbelow', rfl⟩ := (readBy_iff hc hcn).1 h'
    refine (readBy_iff hc hcn).2 ⟨own || own', below || below', ?_, ?_, by ac_rfl⟩
    · obtain @⟨_, kc, hkc, -⟩ := hc
      exact checkNode_compose hkb hkc hbn hcn hnode hnode'
    · obtain @⟨_, kc, hkc, hcnested⟩ := hc
      have hlen := (checkNode_eq_ok.1 hnode).2.2
      have hlen' := (checkNode_eq_ok.1 hnode').2.2
      rw [nested_snapshot] at hbelow' hlen'
      rw [List.length_map] at hlen'
      refine resolveAll_compose hlen hlen' ?_ hbelow hbelow'
      intro d hd e he
      exact ih d hd e (hcnested e he) (hbn.nested d hd) (hcn.nested e he)

/-- How bad a verdict is that lets state be read. -/
private theorem rank_of_readBy {previous : Envelope} {current : Encoder κ} {migrates : Bool}
    (h : previous.ReadBy current migrates) : (previous.resolve current).rank = migrates.toNat := by
  rw [h]
  cases migrates <;> rfl

/-- State that `b` reads can be read by every `c` that reads the snapshot of `b`: as it is
exactly when both steps leave it as it is, so with the worse verdict of the two. -/
theorem resolve_compose (previous : Envelope) (b c : Encoder κ) (hb : b.BuiltIn) (hc : c.BuiltIn)
    (hbn : b.Named) (hcn : c.Named) (h : (resolve false previous b).Passes)
    (h' : (resolve false b.snapshot c).Passes) :
    (resolve false previous c).Passes ∧
      (resolve false previous c = .asIs ↔
        resolve false previous b = .asIs ∧ resolve false b.snapshot c = .asIs) ∧
      (resolve false previous c).rank =
        max (resolve false previous b).rank (resolve false b.snapshot c).rank := by
  obtain ⟨m, hm⟩ := readBy_of_passes hb h
  obtain ⟨n, hn⟩ := readBy_of_passes hc h'
  have hmn : previous.ReadBy c (m || n) := readBy_compose hb c hc hbn hcn previous m n hm hn
  have hverdict : ∀ (s : Envelope) (e : Encoder κ), resolve false s e = s.resolve e := fun _ _ => rfl
  rw [hverdict, hverdict, hverdict, rank_of_readBy hm, rank_of_readBy hn, rank_of_readBy hmn, hm,
    hn, hmn]
  cases m <;> cases n <;> simp [Verdict.Passes, Verdict.isIncompatible]

/-- A row that was written before decimals recorded a scale, read by two later programs. -/
theorem resolve_compose_row :
    let previous : Envelope :=
      .mk "row" 1 (Config.empty.insert "field_names" (.ofStrings ["id", "price"]))
        [.mk "byte" 1 .empty [],
          .mk "decimal" 1 (Config.empty.insert "precision" (.ofUInt32 10)) []]
    let b : Encoder TableKind := .row ["id", "price"] [.leaf .int, .leaf (.decimal 10 0)]
    let c : Encoder TableKind := .row ["id", "price"] [.leaf .int, .leaf (.decimal 12 0)]
    b.BuiltIn ∧ c.BuiltIn ∧ b.Named ∧ c.Named ∧ (resolve false previous b).Passes ∧
      (resolve false b.snapshot c).Passes ∧ (resolve false previous c).Passes ∧
      (resolve false previous c).rank = 1 := by
  intro previous b c
  have hleaf : ∀ l : Leaf, (leaf l : Encoder TableKind).BuiltIn :=
    fun _ => .node rfl (fun _ hc => nomatch hc)
  have hnamed : ∀ l : Leaf, (leaf l : Encoder TableKind).Named :=
    fun _ => .node (fun _ _ h => nomatch h) (fun _ hc => nomatch hc)
  have hrow : ∀ l m : Leaf, (row ["id", "price"] [leaf l, leaf m] : Encoder TableKind).BuiltIn :=
    fun l m => .node rfl
      (List.forall_mem_cons.2 ⟨hleaf l, List.forall_mem_singleton.2 (hleaf m)⟩)
  have hrowNamed : ∀ l m : Leaf, (row ["id", "price"] [leaf l, leaf m] : Encoder TableKind).Named :=
    fun l m => .node (fun _ _ h => by cases h; rfl)
      (List.forall_mem_cons.2 ⟨hnamed l, List.forall_mem_singleton.2 (hnamed m)⟩)
  have h : (resolve false previous b).Passes := rfl
  have h' : (resolve false b.snapshot c).Passes := rfl
  obtain ⟨hpasses, -, hrank⟩ := resolve_compose previous b c (hrow _ _) (hrow _ _) (hrowNamed _ _)
    (hrowNamed _ _) h h'
  exact ⟨hrow _ _, hrow _ _, hrowNamed _ _, hrowNamed _ _, h, h', hpasses, hrank⟩

end Encoder
end Restorable
