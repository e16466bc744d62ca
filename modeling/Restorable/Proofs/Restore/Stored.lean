-- SUMMARY: Snapshots of ingested schemas are restored from storage exactly down to the parser's depth.
import Restorable.Proofs.Encoder.Lengths
import Restorable.Proofs.Restore.Passing
import Restorable.Proofs.Snapshot.Persisted
import Restorable.Settings.Conversion

/-!
# Snapshots of ingested schemas

A schema document is ingested, and the encoder of its logical type leaves a snapshot that is
stored. What storage gives back is the same snapshot, which the encoder reads as it is, as long
as the stored document nests no more than 127 containers. The stored document nests two
containers for each level of the schema and one around them, the schema document only one, so
there are documents that are ingested and whose snapshot is stored and never restored.
-/
namespace Restorable

open Steps

/-! ## Snapshots of encoders -/

namespace Encoder

variable {κ : Type} [CustomKind κ]

/-- Configurations of built-in kinds hold integers, words and names. -/
private theorem legible_config {e : Encoder κ} {k : Kind} (h : e.kind? = some k) :
    e.config.toJson.Legible := by
  have hempty : Config.empty.toJson.Legible := trivial
  have hint : ∀ n : Integer, (Json.num (.int n)).sorted.Legible := Number.readsBack_int
  cases e with
  | leaf l =>
    cases l with
    | bytes length =>
      cases length with
      | none => exact hempty
      | some length => exact Config.legible_insert hempty (hint _)
    | decimal precision scale =>
      exact Config.legible_insert (Config.legible_insert hempty (hint _)) (hint _)
    | time precision => exact Config.legible_insert hempty (hint _)
    | timestamp precision zoned =>
      exact Config.legible_insert (Config.legible_insert hempty (hint _)) trivial
    | generic typeName => exact Config.legible_insert hempty trivial
    | _ => exact hempty
  | row names fields =>
    refine Config.legible_insert hempty ?_
    simpa [Json.ofStrings, Json.sorted] using Json.legible_ofStrings names
  | custom => cases h
  | _ => exact hempty

theorem legible_snapshot {e : Encoder κ} (h : e.BuiltIn) : e.snapshot.Legible := by
  induction h with
  | @node e k kind _ ih =>
    rw [snapshot_eq]
    exact ⟨legible_config kind, Envelope.allLegible_iff.2 (List.forall_mem_map.2 ih)⟩

end Encoder

/-! ## Ingested schemas -/

namespace ConversionSettings

variable {c : ConversionSettings} {text : String} {t : LogicalType}

theorem ingest_eq_ok : c.ingest text = .ok t ↔
    ∃ s, Schema.ofText? text = .ok s ∧ c.checkText text = .ok () ∧
      s.toLogical c.mapping = .ok t := by
  unfold ingest readSchema
  cases Schema.ofText? text with
  | error fault => simp [bind, Except.bind]
  | ok s => cases c.checkText text <;> simp [bind, Except.bind, pure, Except.pure]

/-- Lengths of byte strings in ingested types fit into 32 bits. -/
theorem short_of_ingest (h : c.ingest text = .ok t) : t.Short := by
  obtain ⟨s, hs, -, ht⟩ := ingest_eq_ok.1 h
  unfold Schema.ofText? at hs
  split at hs
  · cases hs
  · exact Schema.short_toLogical s (Schema.short_of_ofJson? hs) ht

end ConversionSettings

/-! ## Nested lists -/

/-- The schema of lists within lists, of integers, to a depth. -/
def Schema.lists : Nat → Schema
  | 0 => .int none
  | n + 1 => .array (lists n)

/-- The document of nested lists. -/
def Json.lists : Nat → Json
  | 0 => .str "int"
  | n + 1 => .obj [("items", lists n), ("type", .str "array")]

/-- The logical type of nested lists. -/
def LogicalType.lists : Nat → LogicalType
  | 0 => .int
  | n + 1 => .arrayOf (lists n)

namespace Json

private theorem depth_lists (n : Nat) : (lists n).depth = n := by
  induction n with
  | zero => rfl
  | succ n ih =>
    simp only [lists, depth, entriesDepth, ih, Nat.max_zero]

private theorem legible_lists (n : Nat) : (lists n).Legible := by
  induction n with
  | zero => trivial
  | succ n ih => exact ⟨ih, trivial, trivial⟩

private theorem isSorted_lists (n : Nat) : (lists n).IsSorted := by
  induction n with
  | zero => trivial
  | succ n ih =>
    refine ⟨?_, ih, trivial, trivial⟩
    simp only [List.map_cons, List.map_nil, List.pairwise_cons, List.mem_singleton, forall_eq]
    decide

/-- The document of nested lists is read from its text, down to the greatest depth. -/
private theorem parse?_lists {n : Nat} (h : n ≤ maxDepth) :
    parse? (lists n).compact = some (lists n) := by
  rw [parse?_compact (legible_lists n), depth_lists, if_pos h,
    sorted_of_isSorted _ (isSorted_lists n)]

end Json

namespace Schema

private theorem write_lists (n : Nat) (seen : List String) :
    (lists n).write.run seen = (Json.lists n, seen) := by
  induction n with
  | zero => rfl
  | succ n ih =>
    change (do return .obj [("items", ← (lists n).write), ("type", .str "array")] :
      Write Json).run seen = _
    simp only [StateT.run_bind, ih]
    rfl

private theorem read_lists (n : Nat) (space : Option String) (scope : Scope) :
    read (Json.lists n) space scope = .ok (lists n, scope) := by
  induction n with
  | zero => rfl
  | succ n ih =>
    rw [Json.lists, read_arrayJson, bind_of_ok ih]
    rfl

private theorem toLogical_lists (mapping : TimestampMapping) (n : Nat) :
    (lists n).toLogical mapping = .ok (.lists n) := by
  induction n with
  | zero => rfl
  | succ n ih =>
    rw [lists, toLogical, ih]
    rfl

end Schema

/-- The strict reading accepts lists too. -/
private theorem Avro.read_lists (n : Nat) (names : Names) :
    ∃ shape, (read (Json.lists n) none).run.run names = (.ok shape, names) := by
  induction n with
  | zero => exact ⟨_, rfl⟩
  | succ n ih =>
    obtain ⟨shape, hshape⟩ := ih
    have hstep : read (Json.lists (n + 1)) none =
        (do return .array (← read (Json.lists n) none) : Read Shape) := rfl
    refine ⟨.array shape, ?_⟩
    rw [hstep, ExceptT.run_bind, StateT.run_bind, hshape]
    rfl

private theorem Avro.accepts_lists (n : Nat) : accepts (Json.lists n) = true := by
  obtain ⟨shape, hshape⟩ := read_lists n ⟨[], []⟩
  change ((read (Json.lists n) none).run.run ⟨[], []⟩).1.isOk = true
  rw [hshape]
  rfl

/-- Nested lists are ingested under all settings, down to the depth of the parser. -/
private theorem ConversionSettings.ingest_lists (c : ConversionSettings) {n : Nat}
    (h : n ≤ Json.maxDepth) :
    c.ingest (Schema.lists n).text = .ok (.lists n) := by
  have htext : (Schema.lists n).text = (Json.lists n).compact :=
    congrArg (fun written => written.1.compact) (Schema.write_lists n [])
  have hparse := Json.parse?_lists h
  have hread : Schema.ofJson? (Json.lists n) = .ok (.lists n) :=
    Schema.ofJson?_eq_ok.2 ⟨_, Schema.read_lists n none .empty⟩
  have hschema : Schema.ofText? (Json.lists n).compact = .ok (.lists n) := by
    rw [Schema.ofText?, hparse]
    exact hread
  have hstrict : Avro.acceptsText (Json.lists n).compact = true := by
    rw [Avro.acceptsText, hparse]
    exact Avro.accepts_lists n
  have hcheck : c.checkText (Json.lists n).compact = .ok () := by
    rw [checkText, hstrict, Bool.not_true, Bool.and_false]
    rfl
  rw [htext]
  exact ingest_eq_ok.2 ⟨_, hschema, hcheck, Schema.toLogical_lists c.mapping n⟩

/-- The envelope nests two containers for each list. -/
private theorem Encoder.depth_snapshot_lists {κ : Type} [CustomKind κ] (n : Nat) :
    (ofLogical (.lists n) : Encoder κ).snapshot.toJson.depth = 2 * n + 1 := by
  induction n with
  | zero => rfl
  | succ n ih =>
    have hsnapshot : (ofLogical (.lists (n + 1)) : Encoder κ).snapshot.toJson =
        .obj [("encoder_id", .str Kind.array.id), ("format_version", .ofUInt32 1),
          ("nested", .arr [(ofLogical (.lists n) : Encoder κ).snapshot.toJson])] := rfl
    have hversion : (Json.ofUInt32 1).depth = 0 := rfl
    simp only [hsnapshot, Json.depth, Json.entriesDepth, Json.itemsDepth, hversion, ih,
      Nat.max_zero, Nat.zero_max]
    omega

private theorem Persisted.depth_toJson_lists {κ : Type} [CustomKind κ] (n : Nat) (now : Instant) :
    (ofEnvelope (Encoder.ofLogical (.lists n) : Encoder κ).snapshot now).toJson.depth =
      2 * n + 2 := by
  rw [depth_toJson]
  exact congrArg (· + 1) (Encoder.depth_snapshot_lists n)

/-! ## Restoring -/

section Restoring

variable {κ : Type} [CustomKind κ] {now : Instant}

/-- The snapshot of a logical type's encoder has all that reading back needs. -/
theorem Persisted.sound_ofLogical (t : LogicalType) (hnow : now.Valid) :
    (ofEnvelope (Encoder.ofLogical t : Encoder κ).snapshot now).Sound :=
  sound_ofEnvelope (Encoder.legible_snapshot (Encoder.builtIn_ofDescriptor _)) hnow

/-- The snapshot of an ingested schema comes back from storage if the stored document nests no
more containers than the parser opens, and is refused if it nests more; what comes back is read
as it is, under either resolution. -/
theorem ofBytes?_ingested {c : ConversionSettings} {text : String} {t : LogicalType}
    (h : c.ingest text = .ok t) (hnow : now.Valid) (format : OutputFormat) :
    let e : Encoder κ := .ofLogical t
    let p := Persisted.ofEnvelope e.snapshot now
    Persisted.ofBytes? (p.text format).toUTF8 true =
        (if p.toJson.depth ≤ Json.maxDepth then .ok p else .error (.json .malformed)) ∧
      p.envelope = e.snapshot ∧ ∀ strict, resolve strict p.envelope e = .asIs := by
  intro e p
  have hself : e.snapshot.resolve e = .asIs :=
    Encoder.resolve_snapshot_self (Encoder.builtIn_ofDescriptor _)
      (Encoder.short_ofLogical t (ConversionSettings.short_of_ingest h))
  refine ⟨Persisted.ofBytes?_text (Persisted.sound_ofLogical t hnow) format, rfl, ?_⟩
  intro strict
  change (if strict then (e.snapshot.resolve e).strict else e.snapshot.resolve e) = .asIs
  rw [hself]
  cases strict <;> rfl

/-- The snapshot of 62 lists within each other comes back and is read as it is. -/
theorem ofBytes?_ingested_lists :
    let e : Encoder TableKind := .ofLogical (.lists 62)
    let now : Instant := ⟨20454, 0, 0⟩
    let p := Persisted.ofEnvelope e.snapshot now
    ConversionSettings.default.ingest (Schema.lists 62).text = .ok (.lists 62) ∧ now.Valid ∧
      Persisted.ofBytes? (p.text .pretty).toUTF8 true = .ok p ∧
      p.envelope = e.snapshot ∧ ∀ strict, resolve strict p.envelope e = .asIs := by
  intro e now p
  have hingest : ConversionSettings.default.ingest (Schema.lists 62).text = .ok (.lists 62) :=
    ConversionSettings.ingest_lists _ (by decide)
  have hnow : now.Valid := by decide
  have hdepth : p.toJson.depth ≤ Json.maxDepth :=
    Nat.le_trans (Nat.le_of_eq (Persisted.depth_toJson_lists 62 now)) (by decide)
  obtain ⟨hbytes, henvelope, hresolve⟩ :=
    @ofBytes?_ingested TableKind _ _ _ _ _ hingest hnow .pretty
  exact ⟨hingest, hnow, hbytes.trans (if_pos hdepth), henvelope, hresolve⟩

/-- The snapshot of nested lists comes back up to 62 of them. -/
private theorem Persisted.ofBytes?_lists (n : Nat) (hnow : now.Valid) (format : OutputFormat) :
    let p := ofEnvelope (Encoder.ofLogical (.lists n) : Encoder κ).snapshot now
    ofBytes? (p.text format).toUTF8 true =
      if n ≤ 62 then .ok p else .error (.json .malformed) := by
  intro p
  have hdepth : p.toJson.depth ≤ Json.maxDepth ↔ n ≤ 62 := by
    have hlists : p.toJson.depth = 2 * n + 2 := depth_toJson_lists n now
    rw [hlists, Json.maxDepth]
    omega
  rw [ofBytes?_text (sound_ofLogical (.lists n) hnow) format, if_congr hdepth rfl rfl]

end Restoring

/-- The document of 63 lists within each other is ingested and its snapshot is written, and what
was written is refused, in either form. -/
theorem ofBytes?_deep_lists :
    let e : Encoder TableKind := .ofLogical (.lists 63)
    let p := Persisted.ofEnvelope e.snapshot ⟨20454, 0, 0⟩
    ConversionSettings.default.ingest (Schema.lists 63).text = .ok (.lists 63) ∧
      ∀ format, Persisted.ofBytes? (p.text format).toUTF8 true = .error (.json .malformed) := by
  intro e p
  refine ⟨ConversionSettings.ingest_lists _ (by decide), ?_⟩
  intro format
  exact Persisted.ofBytes?_lists 63 (by decide) format

end Restorable
