-- SUMMARY: A persisted snapshot is read back exactly when its document nests no more than 127 containers.
import Restorable.Proofs.Snapshot.Envelope
import Restorable.Proofs.Time.Instant
import Restorable.Snapshot.Persisted

/-!
# Persisted snapshots

The document of a persisted snapshot has four keys. Its text, of either form, is read back
whole, or refused by the parser for the number of containers that it nests.
-/
namespace Restorable

/-- The bytes of a text are the text again. -/
theorem fromUTF8?_toUTF8 (s : String) : String.fromUTF8? s.toUTF8 = some s := by
  unfold String.fromUTF8?
  rw [String.toUTF8_eq_toByteArray, dif_pos s.isValidUTF8]
  rfl

namespace Persisted

/-- What a snapshot needs to be read back: a known layout, a time that can be written, numbers
that keep their value, and the checksum of its envelope. -/
structure Sound (p : Persisted) : Prop where
  layout : p.layout ≤ layoutVersion
  writtenAt : p.writtenAt.Valid
  legible : p.envelope.Legible
  checksum : p.envelope.checksum = p.checksum

theorem sound_ofEnvelope {e : Envelope} {writtenAt : Instant} (he : e.Legible)
    (ht : writtenAt.Valid) : (ofEnvelope e writtenAt).Sound :=
  ⟨UInt32.le_refl _, ht, he, rfl⟩

/-! ## The document -/

theorem legible_toJson {p : Persisted} (h : p.envelope.Legible) : p.toJson.Legible := by
  have hlayout : (Json.ofUInt32 p.layout).Legible := Number.readsBack_int _
  exact ⟨hlayout, trivial, trivial, Envelope.legible_toJson _ h, trivial⟩

/-- The document nests one container more than that of its envelope. -/
@[simp] theorem depth_toJson (p : Persisted) : p.toJson.depth = p.envelope.toJson.depth + 1 := by
  have hlayout : (Json.ofUInt32 p.layout).depth = 0 := rfl
  simp only [toJson, Json.depth, Json.entriesDepth, hlayout, Nat.zero_max, Nat.max_zero]

/-- The values under the keys of the sorted document. -/
@[simp] theorem get?_sorted_toJson (p : Persisted) (key : String) :
    p.toJson.sorted.get? key = (p.toJson.get? key).map Json.sorted :=
  Json.find?_sorted (by simp) key

private theorem checkLayout_toJson {p : Persisted} (h : p.layout ≤ layoutVersion) :
    checkLayout p.toJson.sorted = .ok () := by
  have hlayout : p.toJson.sorted.get? "layout_version" = some (.ofUInt32 p.layout) :=
    get?_sorted_toJson p "layout_version"
  have hle : p.layout.toUInt64 ≤ layoutVersion.toUInt64 := by
    rw [UInt64.le_iff_toNat_le, UInt32.toNat_toUInt64, UInt32.toNat_toUInt64]
    exact UInt32.le_iff_toNat_le.1 h
  simp [checkLayout, hlayout, hle]

theorem ofJson?_toJson {p : Persisted} (ht : p.writtenAt.Valid) :
    ofJson? p.toJson.sorted = some p := by
  have hlayout : p.toJson.sorted.get? "layout_version" = some (.ofUInt32 p.layout) :=
    get?_sorted_toJson p "layout_version"
  have htime : p.toJson.sorted.get? "written_at" = some (.str p.writtenAt.text) :=
    get?_sorted_toJson p "written_at"
  have hchecksum : p.toJson.sorted.get? "checksum" = some (.str p.checksum) :=
    get?_sorted_toJson p "checksum"
  have henvelope : p.toJson.sorted.get? "envelope" = some p.envelope.toJson.sorted :=
    get?_sorted_toJson p "envelope"
  have hstr : ∀ s, (Json.str s).str? = some s := fun _ => rfl
  simp only [ofJson?, hlayout, htime, hchecksum, henvelope, hstr, Json.uint32?_ofUInt32,
    Instant.ofText?_text ht, Envelope.ofJson?_toJson, Option.bind_eq_bind, Option.bind_some]
  rfl

/-! ## The text -/

/-- The parser gives the sorted document back, unless it nests too many containers. -/
private theorem parse?_text {p : Persisted} (h : p.envelope.Legible) (format : OutputFormat) :
    Json.parse? (p.text format) =
      if p.toJson.depth ≤ Json.maxDepth then some p.toJson.sorted else none := by
  cases format with
  | pretty => exact Json.parse?_pretty (legible_toJson h)
  | compact => exact Json.parse?_compact (legible_toJson h)

/-- The bytes of a snapshot are read back as the snapshot, down to the greatest depth. -/
theorem ofBytes?_text {p : Persisted} (h : p.Sound) (format : OutputFormat) :
    ofBytes? (p.text format).toUTF8 true =
      if p.toJson.depth ≤ Json.maxDepth then .ok p else .error (.json .malformed) := by
  have hverify : p.envelope.verify p.checksum = .ok () := if_pos h.checksum
  unfold ofBytes? ofText?
  rw [fromUTF8?_toUTF8]
  dsimp only
  rw [parse?_text h.legible]
  by_cases hd : p.toJson.depth ≤ Json.maxDepth
  · rw [if_pos hd, if_pos hd]
    dsimp only
    rw [checkLayout_toJson h.layout, ofJson?_toJson h.writtenAt]
    dsimp only [bind, Except.bind]
    rw [if_pos rfl, hverify]
    rfl
  · rw [if_neg hd, if_neg hd]

end Persisted
end Restorable
