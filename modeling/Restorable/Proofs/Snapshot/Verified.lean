-- SUMMARY: A checksum is accepted for its own envelope, however that is formatted, and for no other.
import Restorable.Proofs.Json.Unambiguous
import Restorable.Proofs.Snapshot.Rewriting

/-!
# Verified snapshots

A checksum covers the envelope that was read. As an envelope is read back from its document and
a compact text is the text of one value, two envelopes with one canonical text are equal. So a
change to any part of an envelope is noticed unless the digests of two texts collide, and a
change to the text that leaves the envelope alone is not: keys in another order, blanks, unknown
attributes, and attributes that are empty in place of absent.
-/
namespace Restorable

open Json (find?)
open Steps

namespace Envelope

/-- Envelopes with one document are equal. -/
theorem toJson_injective : Function.Injective toJson := by
  intro e f h
  have he := ofJson?_toJson e
  rw [h, ofJson?_toJson f] at he
  exact (Option.some.inj he).symm

/-- Envelopes with one canonical text are equal. -/
theorem canonical_injective : Function.Injective canonical :=
  Json.compact_injective.comp toJson_injective

end Envelope

namespace Persisted

variable {p : Persisted} {text : String} {bytes : ByteArray}

/-! ## Reading with a check -/

theorem ofText?_unverified : ofText? text false = .ok p ↔
    ∃ v, Json.parse? text = some v ∧ checkLayout v = .ok () ∧ ofJson? v = some p := by
  simp only [ofText?_eq_ok_iff, Bool.false_eq_true, false_implies, and_true]

/-- A document that is read without a check is read with one if its checksum is right. -/
private theorem ofBytes?_verify (h : ofBytes? bytes false = .ok p) :
    ofBytes? bytes true =
      if p.envelope.checksum = p.checksum then .ok p
      else .error (.checksumMismatch p.checksum p.envelope.checksum) := by
  unfold ofBytes? at h ⊢
  split at h
  · cases h
  next text htext =>
    obtain ⟨v, hv, hlayout, hread⟩ := ofText?_unverified.1 h
    unfold ofText?
    rw [hv]
    dsimp only
    rw [hlayout, hread]
    dsimp only [bind, Except.bind]
    rw [if_pos rfl, Envelope.verify]
    by_cases hsum : p.envelope.checksum = p.checksum
    · rw [if_pos hsum, if_pos hsum]
      rfl
    · rw [if_neg hsum, if_neg hsum]

/-- What is read from a rendering has the envelope that the document spells. -/
private theorem envelope_of_renders {entries : List (String × Json)} {w : Json} {e : Envelope}
    (h : ofBytes? text.toUTF8 false = .ok p) (hrender : Json.Renders (.obj entries) text.toList)
    (hkeys : (entries.map Prod.fst).Nodup) (hw : find? "envelope" entries = some w)
    (he : e.SpelledBy w) : p.envelope = e := by
  rw [ofBytes?_toUTF8] at h
  obtain ⟨v, hv, -, hread⟩ := ofText?_unverified.1 h
  obtain ⟨-, -, w', hw', henvelope⟩ := parts_of_ofJson? hread
  rw [Json.parse?_of_renders hrender] at hv
  split at hv
  next =>
    obtain rfl := Option.some.inj hv
    have hfind : Json.get? (Json.obj entries).sorted "envelope" = some w.sorted :=
      (Json.find?_sorted hkeys "envelope").trans (congrArg (Option.map Json.sorted) hw)
    obtain rfl := Option.some.inj (hfind.symm.trans hw')
    exact Option.some.inj (henvelope.symm.trans (Envelope.ofJson?_of_spelledBy e he))
  next => cases hv

/-- A document under the checksum of an envelope is accepted exactly if its own envelope is that
one, part by part and as a JSON value, and refused with both checksums otherwise. How it is
formatted does not matter: it may have any blanks between its tokens, its keys in any order,
unknown attributes, and empty attributes where absent ones are written. Of the digest it is asked
that the canonical texts of the two envelopes do not collide. -/
theorem ofBytes?_of_checksum (e : Envelope) (bytes : ByteArray) (p : Persisted)
    (hread : ofBytes? bytes false = .ok p) (hsum : p.checksum = e.checksum)
    (hdigest : Sha256.hex p.envelope.canonical.toUTF8 = Sha256.hex e.canonical.toUTF8 →
      p.envelope.canonical = e.canonical) :
    ((∃ q, ofBytes? bytes true = .ok q) ↔ p.envelope.toJson = e.toJson) ∧
      (p.envelope.toJson = e.toJson ↔ p.envelope = e) ∧
      (p.envelope = e → ofBytes? bytes true = .ok p) ∧
      (p.envelope ≠ e →
        ofBytes? bytes true = .error (.checksumMismatch e.checksum p.envelope.checksum)) ∧
      ∀ (text : String) (entries : List (String × Json)) (w : Json), text.toUTF8 = bytes →
        Json.Renders (.obj entries) text.toList → (entries.map Prod.fst).Nodup →
        find? "envelope" entries = some w → e.SpelledBy w → ofBytes? bytes true = .ok p := by
  have hverify := ofBytes?_verify hread
  rw [hsum] at hverify
  have hsame : p.envelope = e → ofBytes? bytes true = .ok p := by
    intro heq
    rw [hverify, if_pos (congrArg Envelope.checksum heq)]
  have hother : p.envelope ≠ e →
      ofBytes? bytes true = .error (.checksumMismatch e.checksum p.envelope.checksum) := by
    intro hne
    have hdiffer : p.envelope.checksum ≠ e.checksum := fun heq =>
      hne (Envelope.canonical_injective (hdigest heq))
    rw [hverify, if_neg hdiffer]
  refine ⟨⟨fun ⟨q, hq⟩ => ?_, fun h => ⟨p, hsame (Envelope.toJson_injective h)⟩⟩,
    Envelope.toJson_injective.eq_iff, hsame, hother, ?_⟩
  · refine Classical.byContradiction fun hne => ?_
    rw [hother fun heq => hne (congrArg Envelope.toJson heq)] at hq
    cases hq
  · rintro text entries w rfl hrender hkeys hw he
    exact hsame (envelope_of_renders hread hrender hkeys hw he)

/-- The pretty document of an array, with its keys in another order, an unknown attribute, an empty
configuration and an empty list of nested envelopes, is accepted, and with another width of its
items it is refused. -/
theorem ofBytes?_of_checksum_array :
    let integer (width : UInt32) : Envelope :=
      .mk "integer" 1 (.ofEntries [("width", .ofUInt32 width)]) []
    let array (width : UInt32) : Envelope := .mk "array" 1 .empty [integer width]
    let item (width : UInt32) : Json := .obj [("nested", .arr []), ("format_version", .ofUInt32 1),
      ("encoder_id", .str "integer"), ("config", .obj [("width", .ofUInt32 width)])]
    let document (width : UInt32) : Json := .obj [
      ("written_at", .str "2024-05-01T00:00:00Z"), ("layout_version", .ofUInt32 1),
      ("envelope", .obj [("nested", .arr [item width]), ("format_version", .ofUInt32 1),
        ("origin", .null), ("encoder_id", .str "array"), ("config", .obj [])]),
      ("checksum", .str (array 32).checksum)]
    let read (width : UInt32) : Persisted :=
      ⟨1, ⟨19844, 0, 0⟩, (array 32).checksum, array width⟩
    ofBytes? (document 32).pretty.toUTF8 true = .ok (read 32) ∧
      ofBytes? (document 64).pretty.toUTF8 true =
        .error (.checksumMismatch (array 32).checksum (array 64).checksum) := by
  intro integer array item document read
  have hnumber : ∀ n, (Json.ofUInt32 n).Legible := fun _ => Number.readsBack_int _
  have hlegible : ∀ width, (document width).Legible := fun width => by
    simp [document, item, Json.Legible, Json.EntriesLegible, Json.ItemsLegible, hnumber]
  have hread : ∀ width, checkLayout (document width).sorted = .ok () →
      ofJson? (document width).sorted = some (read width) →
      ofBytes? (document width).pretty.toUTF8 false = .ok (read width) := by
    intro width hlayout hdocument
    rw [ofBytes?_toUTF8]
    exact ofText?_unverified.2 ⟨_, Json.parse?_pretty (hlegible width), hlayout, hdocument⟩
  have hspelled : (array 32).SpelledBy (.obj [("nested", .arr [item 32]),
      ("format_version", .ofUInt32 1), ("origin", .null), ("encoder_id", .str "array"),
      ("config", .obj [])]) := by
    have hitem : (integer 32).SpelledBy (item 32) := .obj (by decide) rfl rfl rfl (.items .nil)
    exact .obj (by decide) rfl rfl rfl (.items (.cons hitem .nil))
  have hdigest : Sha256.hex (array 64).canonical.toUTF8 = Sha256.hex (array 32).canonical.toUTF8 →
      (array 64).canonical = (array 32).canonical := fun h => absurd h (by decide +kernel)
  have hother : array 64 ≠ array 32 := fun h =>
    absurd (congrArg Envelope.canonical h) (by decide +kernel)
  obtain ⟨-, -, -, -, hformat⟩ :=
    ofBytes?_of_checksum (array 32) _ (read 32) (hread 32 rfl rfl) rfl fun _ => rfl
  obtain ⟨-, -, -, hchanged, -⟩ :=
    ofBytes?_of_checksum (array 32) _ (read 64) (hread 64 rfl rfl) rfl hdigest
  exact ⟨hformat _ _ _ rfl (Json.renders_prettyAt _ 0 (hlegible 32)) (by decide) rfl hspelled,
    hchanged hother⟩

end Persisted
end Restorable
