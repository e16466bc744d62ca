-- SUMMARY: Which snapshots an encoder reads as they are: those that record this very encoder.
import Restorable.Proofs.Restore.Passing

/-!
# Snapshots that are read as they are

An encoder for a logical type reads the snapshot of another as it is exactly when that
snapshot records it. A snapshot records its own encoder as long as every length of a byte
string is below 2^32; a greater one is recorded as no length at all.
-/
namespace Restorable
namespace Encoder

variable {κ : Type} [CustomKind κ]

/-! ## Snapshots of recorded encoders -/

private theorem resolveAll_map_congr {es cs : List (Encoder κ)} {f g : Encoder κ → Envelope}
    (index : Nat) (h : ∀ e ∈ es, ∀ c ∈ cs, (f e).resolve c = (g e).resolve c) :
    resolveAll (es.map f) cs index = resolveAll (es.map g) cs index := by
  induction es generalizing cs index with
  | nil => rfl
  | cons e es ih =>
    cases cs with
    | nil => rfl
    | cons c cs =>
      have he := h e List.mem_cons_self c List.mem_cons_self
      have hes := ih (index + 1) fun d hd b hb =>
        h d (List.mem_cons_of_mem e hd) b (List.mem_cons_of_mem c hb)
      simp only [List.map_cons, resolveAll, he, hes]

private theorem resolveSameKind_recorded {a b : Encoder κ} {k : Kind} (ha : a.kind? = some k)
    (hb : b.kind? = some k) :
    b.resolveSameKind a.recorded.snapshot = b.resolveSameKind a.snapshot := by
  cases b with
  | leaf m =>
    cases a with
    | leaf l =>
      have hk : l.kind = m.kind := Option.some.inj (ha.trans hb.symm)
      exact Leaf.resolve_recorded hk
    | custom kind es => cases ha
    | _ =>
      -- A composite encoder has no configuration that a leaf could record.
      cases m <;> cases ha <;> cases hb
  | row names fs =>
    cases a with
    | leaf l => cases l <;> cases ha <;> cases hb
    | custom kind es => cases ha
    | _ => rfl
  | custom kind fs => cases hb
  | _ => rfl

/-- No verdict tells the recorded encoder from the encoder itself. -/
theorem resolve_recorded {a : Encoder κ} (ha : a.BuiltIn) :
    ∀ b : Encoder κ, b.BuiltIn → a.recorded.snapshot.resolve b = a.snapshot.resolve b := by
  induction ha with
  | @node a ka hka _ ih =>
    intro b hb
    obtain @⟨_, kb, hkb, hnested⟩ := hb
    have hkr : a.recorded.kind? = some ka := by simp [hka]
    have hconfig : checkConfig a.recorded.snapshot b = checkConfig a.snapshot b := by
      have hid : a.recorded.id = a.id := by rw [id_of_kind hkr, id_of_kind hka]
      simp only [checkConfig, resolveConfig_snapshot hkr hkb, resolveConfig_snapshot hka hkb, hid]
      by_cases heq : ka = kb
      · subst heq
        rw [if_pos rfl, if_pos rfl, resolveSameKind_recorded hka hkb]
      · rw [if_neg heq, if_neg heq]
    have hbelow : resolveAll (a.recorded.nested.map snapshot) b.nested 0 =
        resolveAll (a.nested.map snapshot) b.nested 0 := by
      rw [nested_recorded hka, List.map_map]
      exact resolveAll_map_congr 0 fun e he c hc => ih e he c (hnested c hc)
    have hlen : a.recorded.nested.length = a.nested.length := by
      rw [nested_recorded hka, List.length_map]
    rw [resolve_snapshot_eq hkr hkb, resolve_snapshot_eq hka hkb, hconfig, hbelow, hlen]

/-! ## Encoders for logical types -/

/-- An encoder for a runtime representation is read as it is where it is recorded. -/
theorem resolve_ofDescriptor_eq_asIs (c d : Descriptor) :
    (ofDescriptor c : Encoder κ).snapshot.resolve (ofDescriptor d : Encoder κ) = .asIs ↔
      (ofDescriptor c : Encoder κ).recorded = ofDescriptor d := by
  have hc : (ofDescriptor c : Encoder κ).BuiltIn := builtIn_ofDescriptor c
  have hd : (ofDescriptor d : Encoder κ).BuiltIn := builtIn_ofDescriptor d
  have hregular : (ofDescriptor c : Encoder κ).recorded.Regular := regular_recorded c
  rw [← resolve_recorded hc _ hd]
  constructor
  · intro h
    have hpasses : ((ofDescriptor c : Encoder κ).recorded.snapshot.resolve
        (ofDescriptor d : Encoder κ)).Passes := by
      rw [h]
      rfl
    -- What passes is recorded as it is, so it is regular and one of the three outcomes holds.
    have hsame : (ofDescriptor d : Encoder κ).recorded = ofDescriptor d :=
      (recorded_eq_self_iff hd).2 (short_of_passes hd _ hpasses)
    have hregular' : (ofDescriptor d : Encoder κ).Regular := hsame ▸ regular_recorded d
    cases decides_verdict _ _ hregular hregular' with
    | same heq _ => exact heq
    | evolved _ _ answer =>
      rw [h] at answer
      cases answer
    | apart _ answer =>
      obtain ⟨why, answer⟩ := answer
      rw [h] at answer
      cases answer
  · intro heq
    rw [← heq]
    cases decides_verdict _ _ hregular hregular with
    | same _ answer => exact answer
    | evolved hne => exact absurd rfl hne
    | apart hno => exact absurd (evolves_refl _ hregular) hno

/-- The snapshot of a logical type's encoder can be read as it is by the encoder that it
records and by no other. So equality of encoders decides, for every other type, exactly
when all lengths of byte strings are below 2^32. -/
theorem resolve_ofLogical_asIs_iff (a : LogicalType) :
    (∀ b : LogicalType,
        resolve false (ofLogical a : Encoder κ).snapshot (ofLogical b : Encoder κ) = .asIs ↔
          (ofLogical a : Encoder κ).recorded = ofLogical b) ∧
      ((∀ b : LogicalType,
          resolve false (ofLogical a : Encoder κ).snapshot (ofLogical b : Encoder κ) = .asIs ↔
            (ofLogical a : Encoder κ) = ofLogical b) ↔
        (ofLogical a : Encoder κ).Short) := by
  have hrecords : ∀ b : LogicalType,
      resolve false (ofLogical a : Encoder κ).snapshot (ofLogical b : Encoder κ) = .asIs ↔
        (ofLogical a : Encoder κ).recorded = ofLogical b :=
    fun b => resolve_ofDescriptor_eq_asIs (.ofLogical a) (.ofLogical b)
  have hshort : (ofLogical a : Encoder κ).recorded = ofLogical a ↔ (ofLogical a : Encoder κ).Short :=
    recorded_eq_self_iff (builtIn_ofDescriptor (.ofLogical a))
  refine ⟨hrecords, ?_, ?_⟩
  · intro hall
    exact hshort.1 ((hrecords a).1 ((hall a).2 rfl))
  · intro hs b
    rw [hrecords b, hshort.2 hs]

/-- A byte string of length 2^32 is refused by its own encoder, and read as it is by the
encoder for byte strings of any length. -/
theorem resolve_long_binary :
    let fixed : Encoder TableKind := ofLogical (.binary 4294967296)
    let any : Encoder TableKind := ofLogical .bytes
    resolve false fixed.snapshot fixed = .incompatible ⟨[], .lengthChanged none (some 4294967296)⟩ ∧
      resolve false fixed.snapshot any = .asIs ∧
      ¬ ∀ a b : LogicalType,
        resolve false (ofLogical a : Encoder TableKind).snapshot (ofLogical b : Encoder TableKind) =
            .asIs ↔
          (ofLogical a : Encoder TableKind) = ofLogical b := by
  intro fixed any
  refine ⟨rfl, rfl, ?_⟩
  intro h
  have hself := (h (.binary 4294967296) (.binary 4294967296)).2 rfl
  cases hself

end Encoder
end Restorable
