-- SUMMARY: An envelope is read back from its sorted document.
import Restorable.Proofs.Json.Accessors
import Restorable.Proofs.Json.Rendering
import Restorable.Snapshot.Envelope

/-!
# Documents of envelopes

An envelope is written with two to four keys, and no attribute for an empty configuration or
an empty list of nested envelopes. The parser sorts the keys; an absent attribute is read as
the empty value that was left out. Its own document is one of many that are read as an envelope:
keys may stand in another order, unknown ones among them, and empty values may be written.
-/
namespace Restorable

/-! ## Configurations -/

namespace Config

theorem ext {c d : Config} (h : c.entries = d.entries) : c = d := by
  cases c
  cases d
  cases h
  rfl

private theorem eq_empty {c : Config} (h : c.isEmpty = true) : c = .empty :=
  ext (List.isEmpty_iff.1 h)

/-- The document of a configuration is sorted. -/
@[simp] theorem sorted_toJson (c : Config) : c.toJson.sorted = c.toJson :=
  Json.sorted_of_isSorted c.toJson c.sorted

@[simp] theorem ofJson?_toJson (c : Config) : ofJson? c.toJson = some c := by
  have hentries : Json.sortedEntries c.entries [] = c.entries := Json.obj.inj c.sorted_toJson
  exact congrArg some (ext hentries)

/-- The attribute has the entries of the configuration in some order, or is absent for none. -/
def SpelledBy (c : Config) : Option Json → Prop
  | none => c = .empty
  | some v => v.sorted = c.toJson

end Config

namespace Envelope

mutual

@[simp] theorem same_refl : (e : Envelope) → e.same e = true
  | .mk id version config nested => by
    have hconfig : config.same config = true := Json.sameEntries_refl config.entries
    simp [same, hconfig, sameAll_refl nested]

@[simp] theorem sameAll_refl : (es : List Envelope) → sameAll es es = true
  | [] => rfl
  | e :: es => by simp [sameAll, e.same_refl, sameAll_refl es]

end

/-! ## Nested envelopes by key -/

theorem readNestedAttr?_cons_of_ne {k : String} (hk : k ≠ "nested") (v : Json)
    (attrs : List (String × Json)) :
    readNestedAttr? ((k, v) :: attrs) = readNestedAttr? attrs := by
  cases v <;> simp only [readNestedAttr?, if_neg hk]

private theorem readNestedAttr?_of_none {attrs : List (String × Json)}
    (h : Json.find? "nested" attrs = none) : readNestedAttr? attrs = some [] := by
  induction attrs with
  | nil => rfl
  | cons attr attrs ih =>
    obtain ⟨k, v⟩ := attr
    rw [Json.find?] at h
    by_cases hk : k = "nested"
    · rw [if_pos hk] at h
      cases h
    · rw [if_neg hk] at h
      rw [readNestedAttr?_cons_of_ne hk, ih h]

private theorem readNestedAttr?_of_some {attrs : List (String × Json)} {nested : List Json}
    (h : Json.find? "nested" attrs = some (.arr nested)) :
    readNestedAttr? attrs = readNested? nested := by
  induction attrs with
  | nil => cases h
  | cons attr attrs ih =>
    obtain ⟨k, v⟩ := attr
    rw [Json.find?] at h
    by_cases hk : k = "nested"
    · rw [if_pos hk] at h
      obtain rfl := Option.some.inj h
      rw [readNestedAttr?, if_pos hk]
    · rw [if_neg hk] at h
      rw [readNestedAttr?_cons_of_ne hk, ih h]

/-! ## Spellings of an envelope -/

mutual

/-- The value is an object for the envelope, with its keys in any order and unknown ones among
them, at every depth. -/
inductive SpelledBy : Envelope → Json → Prop
  | obj {id version config nested attrs} (hkeys : (attrs.map Prod.fst).Nodup)
      (hid : Json.find? "encoder_id" attrs = some (.str id))
      (hversion : Json.find? "format_version" attrs = some (.ofUInt32 version))
      (hconfig : config.SpelledBy (Json.find? "config" attrs))
      (hnested : NestedSpelledBy nested (Json.find? "nested" attrs)) :
      SpelledBy (.mk id version config nested) (.obj attrs)

/-- The attribute has the nested envelopes in order, or is absent for none. -/
inductive NestedSpelledBy : List Envelope → Option Json → Prop
  | absent : NestedSpelledBy [] none
  | items {es vs} (h : AllSpelledBy es vs) : NestedSpelledBy es (some (.arr vs))

inductive AllSpelledBy : List Envelope → List Json → Prop
  | nil : AllSpelledBy [] []
  | cons {e es v vs} (h : SpelledBy e v) (hrest : AllSpelledBy es vs) :
      AllSpelledBy (e :: es) (v :: vs)

end

private theorem readConfig?_of_spelledBy {c : Config} {attr : Option Json} (h : c.SpelledBy attr) :
    readConfig? (attr.map Json.sorted) = some c := by
  cases attr with
  | none => exact congrArg some h.symm
  | some v =>
    have hsorted : v.sorted = c.toJson := h
    rw [Option.map_some, hsorted]
    exact Config.ofJson?_toJson c

/-- The nested envelopes are read from their attribute, or from the absence of one. -/
private theorem readNestedAttr?_of_spelledBy {es : List Envelope}
    {attrs attrs' : List (String × Json)} (h : NestedSpelledBy es (Json.find? "nested" attrs))
    (hfind : Json.find? "nested" attrs' = (Json.find? "nested" attrs).map Json.sorted)
    (hread : ∀ vs, AllSpelledBy es vs → readNested? (Json.sortedItems vs) = some es) :
    readNestedAttr? attrs' = some es := by
  generalize Json.find? "nested" attrs = attr at h hfind
  cases h with
  | absent => exact readNestedAttr?_of_none hfind
  | items h => exact (readNestedAttr?_of_some hfind).trans (hread _ h)

mutual

/-- Whatever spells an envelope is read as it. -/
theorem ofJson?_of_spelledBy : (e : Envelope) → {v : Json} → e.SpelledBy v →
    ofJson? v.sorted = some e
  | .mk id version config nested, v, h => by
    cases h with
    | @obj _ _ _ _ attrs hkeys hid hversion hconfig hnested =>
      have hfind := fun key => Json.find?_sorted hkeys key
      have hnumber : (Json.ofUInt32 version).sorted.uint32? = some version :=
        Json.uint32?_ofUInt32 version
      have hread := readNestedAttr?_of_spelledBy hnested (hfind "nested")
        fun _ h => readNested?_of_spelledBy nested h
      simp only [Json.sorted, ofJson?, hfind, hid, hversion, Option.map_some, hnumber,
        readConfig?_of_spelledBy hconfig, hread, Option.bind_eq_bind, Option.bind_some]
      rfl

private theorem readNested?_of_spelledBy : (es : List Envelope) → {vs : List Json} →
    AllSpelledBy es vs → readNested? (Json.sortedItems vs) = some es
  | [], _, h => by
    cases h
    rfl
  | e :: es, _, h => by
    cases h with
    | cons h hrest =>
      simp only [Json.sortedItems, readNested?, ofJson?_of_spelledBy e h,
        readNested?_of_spelledBy es hrest, Option.bind_eq_bind, Option.bind_some]
      rfl

end

/-! ## Attributes -/

/-- The attributes of an envelope, in the order of writing. -/
def attrs (id : String) (version : UInt32) (config : Config) (nested : List Json) :
    List (String × Json) :=
  ("encoder_id", .str id) :: ("format_version", .ofUInt32 version) ::
    configAttr config ++ nestedAttr nested

section Attributes

variable {id : String} {version : UInt32} {config : Config} {nested : List Json}

private theorem nodup_attrs : ((attrs id version config nested).map Prod.fst).Nodup := by
  unfold attrs configAttr nestedAttr
  split <;> split <;> simp

private theorem find?_attrs_config : Json.find? "config" (attrs id version config nested) =
    if config.isEmpty then none else some config.toJson := by
  unfold attrs configAttr nestedAttr
  split <;> split <;> simp [Json.find?]

private theorem find?_attrs_nested : Json.find? "nested" (attrs id version config nested) =
    if nested.isEmpty then none else some (.arr nested) := by
  unfold attrs configAttr nestedAttr
  split <;> split <;> simp [Json.find?]

/-- The attributes spell the configuration, which is left out when it is empty. -/
private theorem spelledBy_attrs :
    config.SpelledBy (Json.find? "config" (attrs id version config nested)) := by
  rw [find?_attrs_config]
  by_cases h : config.isEmpty
  · rw [if_pos h]
    exact Config.eq_empty h
  · rw [if_neg h]
    exact config.sorted_toJson

/-- The attributes spell the nested envelopes that their values spell. -/
private theorem nestedSpelledBy_attrs {es : List Envelope} (h : AllSpelledBy es nested) :
    NestedSpelledBy es (Json.find? "nested" (attrs id version config nested)) := by
  rw [find?_attrs_nested]
  cases h with
  | nil => exact .absent
  | cons h hrest => exact .items (.cons h hrest)

end Attributes

/-! ## Reading back -/

mutual

theorem spelledBy_toJson : (e : Envelope) → e.SpelledBy e.toJson
  | .mk _ _ _ nested =>
    .obj nodup_attrs rfl rfl spelledBy_attrs
      (nestedSpelledBy_attrs (allSpelledBy_nestedToJson nested))

theorem allSpelledBy_nestedToJson : (es : List Envelope) → AllSpelledBy es (nestedToJson es)
  | [] => .nil
  | e :: es => .cons e.spelledBy_toJson (allSpelledBy_nestedToJson es)

end

/-- An envelope is read back from its document, with the keys sorted. -/
@[simp] theorem ofJson?_toJson (e : Envelope) : ofJson? e.toJson.sorted = some e :=
  ofJson?_of_spelledBy e e.spelledBy_toJson

end Envelope

/-! ## Numbers of configurations -/

private theorem Json.entriesLegible_iff {es : List (String × Json)} :
    Json.EntriesLegible es ↔ ∀ e ∈ es, e.2.Legible := by
  induction es with
  | nil => simp [Json.EntriesLegible]
  | cons e es ih => simp [Json.EntriesLegible, ih]

/-- A key that is set to a legible value leaves a legible configuration. -/
theorem Config.legible_insert {c : Config} {key : String} {value : Json}
    (hc : c.toJson.Legible) (hv : value.sorted.Legible) : (c.insert key value).toJson.Legible := by
  have hentries : ∀ e ∈ c.entries, e.2.Legible := Json.entriesLegible_iff.1 hc
  refine Json.entriesLegible_iff.2 ?_
  rintro ⟨k, v⟩ hmem
  rcases Json.mem_insertEntry hmem with heq | hmem
  · obtain ⟨-, rfl⟩ := Prod.mk.inj heq
    exact hv
  · exact hentries _ hmem

namespace Envelope

mutual

/-- The numbers in the configurations are read back from their texts. -/
def Legible : Envelope → Prop
  | .mk _ _ config nested => config.toJson.Legible ∧ AllLegible nested

def AllLegible : List Envelope → Prop
  | [] => True
  | e :: es => e.Legible ∧ AllLegible es

end

theorem allLegible_iff {es : List Envelope} : AllLegible es ↔ ∀ e ∈ es, e.Legible := by
  induction es with
  | nil => simp [AllLegible]
  | cons e es ih => simp [AllLegible, ih]

private theorem legible_attrs {id : String} {version : UInt32} {config : Config}
    {nested : List Json} (hconfig : config.toJson.Legible) (hnested : Json.ItemsLegible nested) :
    Json.EntriesLegible (attrs id version config nested) := by
  have hversion : (Json.ofUInt32 version).Legible := Number.readsBack_int _
  unfold attrs configAttr nestedAttr
  split <;> split <;> simp [Json.EntriesLegible, Json.Legible, hversion, hconfig, hnested]

mutual

theorem legible_toJson : (e : Envelope) → e.Legible → e.toJson.Legible
  | .mk _ _ _ nested, h => legible_attrs h.1 (legible_nestedToJson nested h.2)

theorem legible_nestedToJson : (es : List Envelope) → AllLegible es →
    Json.ItemsLegible (nestedToJson es)
  | [], _ => trivial
  | e :: es, h => ⟨legible_toJson e h.1, legible_nestedToJson es h.2⟩

end

end Envelope
end Restorable
