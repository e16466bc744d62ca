-- SUMMARY: A persisted snapshot that was read is written and read again unchanged.
import Restorable.Proofs.Json.Depth
import Restorable.Proofs.Snapshot.Persisted
import Restorable.Proofs.Steps
import Restorable.Proofs.Time.Reading

/-!
# Rewriting

Reading passes over unknown attributes and takes an empty configuration or an empty list for
an absent one, so the document that is written for a snapshot need not be the one that it was
read from. It never nests deeper, as each part of it stands in a part of the document read,
and the snapshot that it describes is the same: what is read can be rewritten any number of
times.
-/
namespace Restorable

open Json (entriesDepth itemsDepth find?)
open Steps

/-! ## Configurations -/

private theorem Config.depth_toJson_le {v : Json} {c : Config} (h : ofJson? v = some c) :
    c.toJson.depth ≤ v.depth := by
  cases v with
  | obj es =>
    obtain rfl := Option.some.inj h
    exact Json.depth_sorted_le (.obj es)
  | _ => cases h

namespace Envelope

/-! ## Attributes -/

section Attributes

variable {id : String} {version : UInt32} {config : Config} {nested : List Json}
  {attrs : List (String × Json)} {n : Nat}

private theorem depth_configAttr_le (h : config.toJson.depth ≤ n) :
    entriesDepth (configAttr config) ≤ n := by
  unfold configAttr
  split
  · exact Nat.zero_le n
  · exact Nat.max_le.2 ⟨h, Nat.zero_le n⟩

/-- The configuration that is written stands in the one that was read; none is written for an
absent one. -/
private theorem depth_configAttr_le_of_read (h : readConfig? (find? "config" attrs) = some config) :
    entriesDepth (configAttr config) ≤ entriesDepth attrs := by
  cases hfind : find? "config" attrs with
  | none =>
    rw [hfind] at h
    obtain rfl := Option.some.inj h
    exact Nat.zero_le _
  | some v =>
    rw [hfind] at h
    apply depth_configAttr_le
    exact Nat.le_trans (Config.depth_toJson_le h) (Json.depth_le_of_find? hfind)

private theorem depth_nestedAttr_le (h : itemsDepth nested + 1 ≤ n) :
    entriesDepth (nestedAttr nested) ≤ n := by
  unfold nestedAttr
  split
  · exact Nat.zero_le n
  · exact Nat.max_le.2 ⟨h, Nat.zero_le n⟩

private theorem depth_attrs_le (hconfig : entriesDepth (configAttr config) ≤ n)
    (hnested : entriesDepth (nestedAttr nested) ≤ n) :
    entriesDepth (Envelope.attrs id version config nested) ≤ n := by
  rw [Json.entriesDepth_le_iff] at hconfig hnested ⊢
  have hversion : (Json.ofUInt32 version).depth ≤ n := Nat.zero_le n
  have hid : (Json.str id).depth ≤ n := Nat.zero_le n
  refine List.forall_mem_cons.2 ⟨hid, List.forall_mem_cons.2 ⟨hversion, ?_⟩⟩
  exact List.forall_mem_append.2 ⟨hconfig, hnested⟩

end Attributes

/-! ## Documents -/

mutual

/-- What is written for an envelope nests no deeper than the value that it was read from. -/
theorem depth_toJson_le : (v : Json) → {e : Envelope} → ofJson? v = some e →
    e.toJson.depth ≤ v.depth
  | .obj attrs, e, h => by
    simp only [ofJson?, Option.bind_eq_bind, Option.bind_eq_some_iff] at h
    obtain ⟨_, -, id, -, _, -, version, -, config, hconfig, nested, hnested, h⟩ := h
    obtain rfl := Option.some.inj h
    exact Nat.succ_le_succ (depth_attrs_le (depth_configAttr_le_of_read hconfig)
      (depth_nestedAttr_le_of_read attrs hnested))
  -- By position the configuration and the nested envelopes may be left out from the end.
  | .arr [.str id, version], e, h => by
    obtain ⟨_, -, h⟩ := Option.bind_eq_some_iff.1 h
    obtain rfl := Option.some.inj h
    exact Nat.succ_le_succ (Nat.zero_le _)
  | .arr [.str id, version, config], e, h => by
    simp only [ofJson?, Option.bind_eq_bind, Option.bind_eq_some_iff] at h
    obtain ⟨_, -, c, hc, h⟩ := h
    obtain rfl := Option.some.inj h
    have hconfig : config.depth ≤ itemsDepth [.str id, version, config] :=
      Json.depth_le_of_mem (by simp)
    have hattr := depth_configAttr_le (Nat.le_trans (Config.depth_toJson_le hc) hconfig)
    exact Nat.succ_le_succ (depth_attrs_le hattr (Nat.zero_le _))
  | .arr [.str id, version, config, .arr items], e, h => by
    simp only [ofJson?, Option.bind_eq_bind, Option.bind_eq_some_iff] at h
    obtain ⟨_, -, c, hc, es, hes, h⟩ := h
    obtain rfl := Option.some.inj h
    have hconfig : config.depth ≤ itemsDepth [.str id, version, config, .arr items] :=
      Json.depth_le_of_mem (by simp)
    have hitems : (Json.arr items).depth ≤ itemsDepth [.str id, version, config, .arr items] :=
      Json.depth_le_of_mem (by simp)
    have hattr := depth_configAttr_le (Nat.le_trans (Config.depth_toJson_le hc) hconfig)
    have hnested := Nat.le_trans (Nat.succ_le_succ (depth_nestedToJson_le items hes)) hitems
    exact Nat.succ_le_succ (depth_attrs_le hattr (depth_nestedAttr_le hnested))
  | .null, _, h | .bool _, _, h | .num _, _, h | .str _, _, h | .arr [], _, h
  | .arr (.null :: _), _, h | .arr (.bool _ :: _), _, h | .arr (.num _ :: _), _, h
  | .arr (.arr _ :: _), _, h | .arr (.obj _ :: _), _, h | .arr [.str _], _, h
  | .arr (.str _ :: _ :: _ :: .null :: _), _, h | .arr (.str _ :: _ :: _ :: .bool _ :: _), _, h
  | .arr (.str _ :: _ :: _ :: .num _ :: _), _, h | .arr (.str _ :: _ :: _ :: .str _ :: _), _, h
  | .arr (.str _ :: _ :: _ :: .obj _ :: _), _, h
  | .arr (.str _ :: _ :: _ :: .arr _ :: _ :: _), _, h => by cases h

private theorem depth_nestedAttr_le_of_read :
    (attrs : List (String × Json)) → {es : List Envelope} →
    readNestedAttr? attrs = some es →
    entriesDepth (nestedAttr (nestedToJson es)) ≤ entriesDepth attrs
  | [], es, h => by
    obtain rfl := Option.some.inj h
    exact Nat.le_refl _
  | (k, v) :: attrs, es, h => by
    rw [entriesDepth]
    by_cases hk : k = "nested"
    · subst hk
      cases v with
      | arr items =>
        apply depth_nestedAttr_le
        exact Nat.le_trans (Nat.succ_le_succ (depth_nestedToJson_le items h)) (Nat.le_max_left _ _)
      | _ => cases h
    · rw [readNestedAttr?_cons_of_ne hk] at h
      exact Nat.le_trans (depth_nestedAttr_le_of_read attrs h) (Nat.le_max_right _ _)

theorem depth_nestedToJson_le : (vs : List Json) → {es : List Envelope} →
    readNested? vs = some es → itemsDepth (nestedToJson es) ≤ itemsDepth vs
  | [], es, h => by
    obtain rfl := Option.some.inj h
    exact Nat.le_refl _
  | v :: vs, es, h => by
    simp only [readNested?, Option.bind_eq_bind, Option.bind_eq_some_iff] at h
    obtain ⟨e, he, rest, hrest, h⟩ := h
    obtain rfl := Option.some.inj h
    rw [nestedToJson, itemsDepth, itemsDepth]
    exact Nat.max_le.2 ⟨Nat.le_trans (depth_toJson_le v he) (Nat.le_max_left _ _),
      Nat.le_trans (depth_nestedToJson_le vs hrest) (Nat.le_max_right _ _)⟩

end

end Envelope

namespace Persisted

/-! ## Documents that were read -/

variable {v : Json} {p : Persisted}

/-- Each part of a snapshot that is read stands under its key. -/
theorem parts_of_ofJson? (h : ofJson? v = some p) :
    (v.get? "layout_version").bind Json.uint32? = some p.layout ∧
      (∃ text, Instant.ofText? text = some p.writtenAt) ∧
      ∃ w, v.get? "envelope" = some w ∧ Envelope.ofJson? w = some p.envelope := by
  simp only [ofJson?, Option.bind_eq_bind, Option.bind_eq_some_iff] at h
  obtain ⟨w, hw, layout, hlayout, -, -, text, -, writtenAt, htime, -, -, checksum, -, w', hw',
    envelope, henvelope, h⟩ := h
  obtain rfl := Option.some.inj h
  exact ⟨Option.bind_eq_some_iff.2 ⟨w, hw, hlayout⟩, ⟨text, htime⟩, w', hw', henvelope⟩

/-- What is written for a snapshot nests no deeper than the document that it was read from. -/
theorem depth_toJson_le (h : ofJson? v = some p) : p.toJson.depth ≤ v.depth := by
  obtain ⟨-, -, w, hw, hread⟩ := parts_of_ofJson? h
  rw [depth_toJson]
  cases v with
  | obj es =>
    have henvelope := Envelope.depth_toJson_le w hread
    exact Nat.succ_le_succ (Nat.le_trans henvelope (Json.depth_le_of_find? hw))
  | _ => cases hw

private theorem layout_le_of_ofJson? (hlayout : checkLayout v = .ok ()) (h : ofJson? v = some p) :
    p.layout ≤ layoutVersion := by
  obtain ⟨hread, -⟩ := parts_of_ofJson? h
  obtain ⟨w, hw, hw32⟩ := Option.bind_eq_some_iff.1 hread
  have hfound : (v.get? "layout_version").bind Json.uint64? = some p.layout.toUInt64 := by
    rw [hw]
    exact Json.uint64?_of_uint32? hw32
  unfold checkLayout at hlayout
  rw [hfound] at hlayout
  dsimp only at hlayout
  split at hlayout
  next hle =>
    rw [UInt64.le_iff_toNat_le, UInt32.toNat_toUInt64, UInt32.toNat_toUInt64] at hle
    exact UInt32.le_iff_toNat_le.2 hle
  next => cases hlayout

/-- A text is accepted if it is parsed, and its document has a known layout, describes the
snapshot, and, where that is checked, holds the checksum of its envelope. -/
theorem ofText?_eq_ok_iff {text : String} {verify : Bool} : ofText? text verify = .ok p ↔
    ∃ v, Json.parse? text = some v ∧ checkLayout v = .ok () ∧ ofJson? v = some p ∧
      (verify = true → p.envelope.verify p.checksum = .ok ()) := by
  unfold ofText?
  constructor
  · intro h
    split at h
    · cases h
    next v hv =>
      obtain ⟨⟨⟩, hlayout, h⟩ := exceptBind_eq_ok.1 h
      split at h
      · cases h
      next q hq =>
        have hcheck : (verify = true → q.envelope.verify q.checksum = .ok ()) ∧ q = p := by
          cases verify with
          | false => exact ⟨nofun, Except.ok.inj h⟩
          | true =>
            obtain ⟨⟨⟩, hverify, h⟩ := exceptBind_eq_ok.1 h
            exact ⟨fun _ => hverify, Except.ok.inj h⟩
        obtain ⟨hverify, rfl⟩ := hcheck
        exact ⟨v, hv, hlayout, hq, hverify⟩
  · rintro ⟨v, hv, hlayout, hread, hverify⟩
    rw [hv]
    refine exceptBind_eq_ok.2 ⟨(), hlayout, ?_⟩
    rw [hread]
    cases verify with
    | false => rfl
    | true => exact exceptBind_eq_ok.2 ⟨(), hverify rfl, rfl⟩

theorem ofText?_eq_ok {text : String} : ofText? text true = .ok p ↔
    ∃ v, Json.parse? text = some v ∧ checkLayout v = .ok () ∧ ofJson? v = some p ∧
      p.envelope.verify p.checksum = .ok () := by
  simp only [ofText?_eq_ok_iff, forall_const]

private theorem ofText?_of_ofBytes? {bytes : ByteArray} (h : ofBytes? bytes true = .ok p) :
    ∃ text, ofText? text true = .ok p := by
  unfold ofBytes? at h
  split at h
  · cases h
  · exact ⟨_, h⟩

theorem ofBytes?_toUTF8 (text : String) (verify : Bool) :
    ofBytes? text.toUTF8 verify = ofText? text verify := by
  unfold ofBytes?
  rw [fromUTF8?_toUTF8]

/-- What passes the checks of reading is sound, and its document nests no deeper than the one
that was read. -/
theorem sound_of_ofBytes? {bytes : ByteArray} (h : ofBytes? bytes true = .ok p)
    (hp : p.envelope.Legible) : p.Sound ∧ p.toJson.depth ≤ Json.maxDepth := by
  obtain ⟨text, htext⟩ := ofText?_of_ofBytes? h
  obtain ⟨v, hv, hlayout, hread, hverify⟩ := ofText?_eq_ok.1 htext
  obtain ⟨-, ⟨time, htime⟩, -⟩ := parts_of_ofJson? hread
  have hchecksum : p.envelope.checksum = p.checksum := by
    unfold Envelope.verify at hverify
    split at hverify
    · assumption
    · cases hverify
  have hdepth := Nat.le_trans (depth_toJson_le hread) (Json.depth_le_of_parse? hv)
  exact ⟨⟨layout_le_of_ofJson? hlayout hread, Instant.valid_of_ofText? htime, hp, hchecksum⟩,
    hdepth⟩

/-- A snapshot is read back from its bytes, in either format, if its document nests at most 127
containers; and a snapshot that was read from any bytes is read back unchanged from what is
written for it, in either format. Of the numbers in the configurations it is asked that their
texts are read back. -/
theorem ofBytes?_rewritten :
    (∀ (e : Envelope) (now : Instant) (format : OutputFormat), e.Legible → now.Valid →
      (ofEnvelope e now).toJson.depth ≤ Json.maxDepth →
        ofBytes? ((ofEnvelope e now).text format).toUTF8 true = .ok (ofEnvelope e now)) ∧
    ∀ (bytes : ByteArray) (p : Persisted) (format : OutputFormat), ofBytes? bytes true = .ok p →
      p.envelope.Legible → ofBytes? (p.text format).toUTF8 true = .ok p := by
  refine ⟨fun e now format he hnow hdepth => ?_, fun bytes p format h hp => ?_⟩
  · rw [ofBytes?_text (sound_ofEnvelope he hnow) format, if_pos hdepth]
  · obtain ⟨hsound, hdepth⟩ := sound_of_ofBytes? h hp
    rw [ofBytes?_text hsound format, if_pos hdepth]

/-- A map is read from a document with unknown attributes, an empty configuration, an empty list
of nested envelopes, a part by position, and a leap second at an offset; it is read again from
what is written for it, and so is a new snapshot of its envelope. -/
theorem ofBytes?_rewritten_map :
    let e : Envelope := .mk "map" 1 .empty
      [.mk "string" 1 .empty [], .mk "integer" 1 (.ofEntries [("width", .ofUInt32 32)]) []]
    let p : Persisted := ⟨1, ⟨17166, 82799, 1500000000⟩, e.checksum, e⟩
    let v : Json := .obj [("checksum", .str e.checksum), ("comment", .arr []),
      ("envelope", .obj [("encoder_id", .str "map"), ("format_version", .ofUInt32 1),
        ("nested", .arr [.obj [("config", .obj []), ("encoder_id", .str "string"),
            ("format_version", .ofUInt32 1), ("nested", .arr [])],
          .arr [.str "integer", .ofUInt32 1, .obj [("width", .ofUInt32 32)]]]),
        ("origin", .null)]),
      ("layout_version", .ofUInt32 1), ("written_at", .str "2016-12-31 23:59:60.5 +01:00")]
    e.Legible ∧ p.writtenAt.Valid ∧ (ofEnvelope e p.writtenAt).toJson.depth ≤ Json.maxDepth ∧
      ofBytes? v.compact.toUTF8 true = .ok p ∧ ofBytes? (p.text .pretty).toUTF8 true = .ok p ∧
      ofBytes? ((ofEnvelope e p.writtenAt).text .compact).toUTF8 true =
        .ok (ofEnvelope e p.writtenAt) := by
  intro e p v
  have hnumber : ∀ n, (Json.ofUInt32 n).Legible := fun _ => Number.readsBack_int _
  have hlegible : e.Legible :=
    ⟨trivial, ⟨trivial, trivial⟩, ⟨⟨hnumber 32, trivial⟩, trivial⟩, trivial⟩
  have hvalid : p.writtenAt.Valid := by decide
  have hdepth : (ofEnvelope e p.writtenAt).toJson.depth ≤ Json.maxDepth := by decide
  have hread : ofBytes? v.compact.toUTF8 true = .ok p := by
    have hv : v.Legible := by
      simp [v, Json.Legible, Json.EntriesLegible, Json.ItemsLegible, hnumber]
    have hparse : Json.parse? v.compact = some v := Json.parse?_compact hv
    have hdocument : ofJson? v = some p := rfl
    have hverify : e.verify e.checksum = .ok () := if_pos rfl
    rw [ofBytes?_toUTF8]
    exact ofText?_eq_ok.2 ⟨v, hparse, rfl, hdocument, hverify⟩
  exact ⟨hlegible, hvalid, hdepth, hread,
    ofBytes?_rewritten.2 v.compact.toUTF8 p .pretty hread hlegible,
    ofBytes?_rewritten.1 e p.writtenAt .compact hlegible hvalid hdepth⟩

end Persisted
end Restorable
