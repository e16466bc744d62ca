-- SUMMARY: What the stored field names of a row look like when a row encoder can read it.
import Restorable.Proofs.Restore.Passing

/-!
# Stored names of rows

A row encoder compares its names with the stored ones as far as both go, after what is no
string has been passed over. The number of nested envelopes has to agree with the encoder,
but nothing ties it to the number of stored names. So the stored list is that of the encoder
exactly when it holds strings only, one for each nested envelope.
-/
namespace Restorable

/-! ## Names as far as both go -/

theorem firstRename_eq_none_iff (index : Nat) (olds news : List String) :
    firstRename index olds news = none ↔ olds <+: news ∨ news <+: olds := by
  induction olds generalizing news index with
  | nil => exact iff_of_true (by cases news <;> rfl) (.inl List.nil_prefix)
  | cons old olds ih =>
    cases news with
    | nil => exact iff_of_true rfl (.inr List.nil_prefix)
    | cons new news =>
      rw [firstRename, List.cons_prefix_cons, List.cons_prefix_cons]
      by_cases heq : old = new
      · simp [heq, ih]
      · simp [heq, Ne.symm heq]

/-! ## The stored list -/

theorem Config.strings?_eq_some {config : Config} {key : String} {texts : List String} :
    config.strings? key = some texts ↔
      ∃ items, config.get? key = some (.arr items) ∧ items.filterMap Json.str? = texts := by
  unfold strings?
  constructor
  · intro h
    obtain ⟨items, hitems, htexts⟩ := Option.map_eq_some_iff.1 h
    obtain ⟨v, hv, harr⟩ := Option.bind_eq_some_iff.1 hitems
    cases v <;> cases harr
    exact ⟨items, hv, htexts⟩
  · rintro ⟨items, hv, htexts⟩
    rw [hv]
    exact congrArg some htexts

/-- Names are refused where the stored list is no list, or differs within the shared length. -/
theorem resolveNames_eq_reads {names : List String} {old : Config} {own : Bool} :
    resolveNames names old = (if own then .migrate else .asIs) ↔
      own = false ∧ ∃ items, old.get? "field_names" = some (.arr items) ∧
        (items.filterMap Json.str? <+: names ∨ names <+: items.filterMap Json.str?) := by
  unfold resolveNames ConfigVerdict.ofKey
  cases hold : old.strings? "field_names" with
  | none =>
    have hnot : ¬ ∃ items, old.get? "field_names" = some (.arr items) := by
      rintro ⟨items, hitems⟩
      rw [Config.strings?_eq_some.2 ⟨items, hitems, rfl⟩] at hold
      cases hold
    refine iff_of_false ConfigVerdict.incompatible_ne_reads ?_
    rintro ⟨-, items, hitems, -⟩
    exact hnot ⟨items, hitems⟩
  | some texts =>
    obtain ⟨items, hitems, rfl⟩ := Config.strings?_eq_some.1 hold
    have hreads : (∃ stored, old.get? "field_names" = some (.arr stored) ∧
        (stored.filterMap Json.str? <+: names ∨ names <+: stored.filterMap Json.str?)) ↔
        firstRename 0 (items.filterMap Json.str?) names = none := by
      rw [firstRename_eq_none_iff, hitems]
      simp
    rw [hreads]
    cases hrename : firstRename 0 (items.filterMap Json.str?) names with
    | none => simp [hrename]
    | some rename => simp [hrename]

private theorem map_filterMap_str {items : List Json}
    (h : ∀ item ∈ items, ∃ text, item = .str text) :
    (items.filterMap Json.str?).map .str = items := by
  induction items with
  | nil => rfl
  | cons item items ih =>
    obtain ⟨⟨text, rfl⟩, hitems⟩ := List.forall_mem_cons.1 h
    rw [List.filterMap_cons, Json.str?, List.map_cons, ih hitems]

/-- A stored list that agrees with names as far as both go says the names when it is as long as
they are and nothing in it is passed over. -/
private theorem eq_map_str_iff {items : List Json} {names : List String}
    (h : items.filterMap Json.str? <+: names ∨ names <+: items.filterMap Json.str?) :
    items = names.map .str ↔
      items.length = names.length ∧ ∀ item ∈ items, ∃ text, item = .str text := by
  constructor
  · rintro rfl
    refine ⟨List.length_map .., fun item hitem => ?_⟩
    obtain ⟨text, -, rfl⟩ := List.mem_map.1 hitem
    exact ⟨text, rfl⟩
  · rintro ⟨hlength, hstrings⟩
    have hitems := map_filterMap_str hstrings
    have hsame : (items.filterMap Json.str?).length = names.length := by
      rw [← hlength, ← List.length_map (f := Json.str), hitems]
    have heq : items.filterMap Json.str? = names := by
      rcases h with h | h
      · exact h.eq_of_length hsame
      · exact (h.eq_of_length hsame.symm).symm
    rw [← hitems, heq]

/-! ## Rows that can be read -/

variable {κ : Type} [CustomKind κ]

/-- A strict verdict that lets state be read comes from one that is not strict. -/
private theorem passes_of_resolve {strict : Bool} {previous : Envelope} {current : Encoder κ}
    (h : (resolve strict previous current).Passes) : (previous.resolve current).Passes := by
  cases strict with
  | false => exact h
  | true =>
    have hstrict : (previous.resolve current).strict.Passes := h
    cases hverdict : previous.resolve current with
    | incompatible why =>
      rw [hverdict] at hstrict
      exact hstrict
    | _ => rfl

namespace Encoder

/-- Of a stored row that a row encoder can read, the names are in a list that agrees with those
of the encoder as far as both go; and the list says just these names exactly when it holds
strings only, one for each nested envelope. -/
theorem stored_names_of_resolve_row (strict : Bool) (previous : Envelope) (names : List String)
    (fields : List (Encoder κ)) (hid : previous.id = "row") (hlen : names.length = fields.length)
    (h : (resolve strict previous (row names fields)).isIncompatible = false) :
    ∃ items, previous.config.get? "field_names" = some (.arr items) ∧
      previous.nested.length = names.length ∧
      (items.filterMap Json.str? <+: names ∨ names <+: items.filterMap Json.str?) ∧
      (items = names.map .str ↔
        items.length = previous.nested.length ∧ ∀ item ∈ items, ∃ text, item = .str text) := by
  obtain ⟨own, below, nested, hnode, -, -⟩ := resolve_of_passes (passes_of_resolve h)
  obtain ⟨-, hconfig, hcount⟩ := checkNode_eq_ok.1 hnode
  have hkind : (row names fields).kind? = some .row := rfl
  have hnested : previous.nested.length = names.length := by
    rw [← hcount, hlen]
    rfl
  obtain ⟨old, hold, hreads⟩ := (resolveConfig_eq_reads hkind).1 hconfig
  rw [hid] at hold
  obtain rfl : Kind.row = old := Option.some.inj hold
  have hnames : resolveNames names previous.config = if own then .migrate else .asIs := by
    rcases hreads with ⟨-, hsame⟩ | ⟨hwidens, -⟩
    · exact hsame
    · cases hwidens
  obtain ⟨-, items, hitems, hagree⟩ := resolveNames_eq_reads.1 hnames
  exact ⟨items, hitems, hnested, hagree, hnested ▸ eq_map_str_iff hagree⟩

/-- A row with a wider second field. -/
theorem stored_names_of_resolve_row_wider :
    let stored : List Json := [.str "id", .str "amount"]
    let previous : Envelope := .mk "row" 1 (Config.empty.insert "field_names" (.arr stored))
      [.mk "string" 1 .empty [], .mk "int" 1 .empty []]
    let fields : List (Encoder TableKind) := [.leaf .string, .leaf .long]
    previous.id = "row" ∧ ["id", "amount"].length = fields.length ∧
      (resolve false previous (row ["id", "amount"] fields)).isIncompatible = false ∧
      previous.config.get? "field_names" = some (.arr (["id", "amount"].map .str)) := by
  intro stored previous fields
  have hid : previous.id = "row" := rfl
  have hlen : ["id", "amount"].length = fields.length := rfl
  have hreads : (resolve false previous (row ["id", "amount"] fields)).isIncompatible = false := rfl
  obtain ⟨items, hitems, -, -, hsays⟩ :=
    stored_names_of_resolve_row false previous ["id", "amount"] fields hid hlen hreads
  have hstored : items = stored := by
    cases hitems
    rfl
  subst hstored
  rw [hitems, hsays.2 ⟨rfl, by simp [stored]⟩]
  exact ⟨hid, hlen, hreads, rfl⟩

/-- A stored name that is no string is passed over, so a row is read as it is under a name that
was never stored. -/
theorem resolve_row_passed_over :
    let previous : Envelope :=
      .mk "row" 1 (Config.empty.insert "field_names" (.arr [.str "id", .ofUInt32 7]))
        [.mk "int" 1 .empty [], .mk "int" 1 .empty []]
    let fields : List (Encoder TableKind) := [.leaf .int, .leaf .int]
    resolve false previous (row ["id", "age"] fields) = .asIs ∧
      ¬ ∀ (previous : Envelope) (names : List String) (fields : List (Encoder TableKind)),
        previous.id = "row" → (row names fields).BuiltIn → names.length = fields.length →
          (resolve false previous (row names fields)).isIncompatible = false →
            previous.config.get? "field_names" = some (.arr (names.map .str)) := by
  intro previous fields
  refine ⟨rfl, fun hall => ?_⟩
  have hleaf : (leaf .int : Encoder TableKind).BuiltIn := .node rfl (fun _ hc => nomatch hc)
  have hbuiltIn : (row ["id", "age"] fields).BuiltIn :=
    .node rfl (List.forall_mem_cons.2 ⟨hleaf, List.forall_mem_singleton.2 hleaf⟩)
  have hnames := hall previous ["id", "age"] fields rfl hbuiltIn rfl rfl
  cases hnames

end Encoder
end Restorable
