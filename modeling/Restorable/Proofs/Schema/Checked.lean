-- SUMMARY: What the reader of schemas makes sure of: annotations, sizes, unions and field names.
import Restorable.Proofs.Schema.Drawn
import Restorable.Proofs.Schema.Reads

/-!
# Checked schemas

Every schema that was read has annotations that fit their types, fixed types of a size below
2^31, unions of different members that are no unions themselves, and records without a
repeated field name. This holds at every depth, also inside types that a name stands for.
-/
namespace Restorable
namespace Schema

/-- What the reader makes sure of, at any depth. -/
inductive Checked : Schema → Prop
  | primitive {s} (h : s.Primitive) : Checked s
  | ref (n) : Checked (.ref n)
  | enum (n symbols) : Checked (.enum n symbols)
  | fixed {n size a} (hfits : Refinement.Fits a .fixed) (hsize : size < 2147483648) :
      Checked (.fixed n size a)
  | array {s} (h : Checked s) : Checked (.array s)
  | map {s} (h : Checked s) : Checked (.map s)
  | union {ss} (hne : ss ≠ []) (hflat : ∀ s ∈ ss, s.isUnion = false)
      (hkeys : (ss.map memberKey).Nodup) (h : ∀ s ∈ ss, Checked s) : Checked (.union ss)
  | record {n doc fs} (hnames : (fs.map Field.name).Nodup) (h : ∀ f ∈ fs, Checked f.schema) :
      Checked (.record n doc fs)

/-! ## Names that stand for checked types -/

/-- Every completed type is checked. -/
def Scope.Checked (scope : Scope) : Prop := ∀ full s, scope.lookup full = some s → s.Checked

theorem Scope.checked_empty : Scope.empty.Checked := fun _ _ h => nomatch h

theorem Scope.Checked.complete {scope : Scope} {full : String} {s : Schema} (h : scope.Checked)
    (hs : s.Checked) : (scope.complete full s).Checked := by
  intro other t ht
  by_cases heq : other = full
  · subst heq
    rw [lookup_complete_self] at ht
    cases ht
    exact hs
  · rw [lookup_complete_of_ne scope s heq] at ht
    exact h other t ht

/-- What a name stands for is a completed type, or a reference. -/
theorem Scope.Checked.resolve {scope : Scope} {full : String} {s : Schema} (h : scope.Checked)
    (hs : scope.resolve full = some s) : s.Checked := by
  unfold Scope.resolve at hs
  split at hs
  · rename_i known hknown
    cases hs
    exact h full _ hknown
  · split at hs
    · cases hs
      exact .ref _
    · cases hs

/-! ## Readings -/

private theorem ReadsMembers.keys {seen : List String} {scope scope' : Scope} {ss : List Schema} :
    ReadsMembers seen scope ss scope' →
      (ss.map memberKey).Nodup ∧ ∀ key ∈ ss.map memberKey, key ∉ seen
  | .nil => ⟨List.nodup_nil, List.forall_mem_nil _⟩
  | .cons _ _ hkey hrest => nodup_unseen_cons.2 ⟨hkey, hrest.keys⟩

private theorem ReadsMembers.flat {seen : List String} {scope scope' : Scope} {ss : List Schema} :
    ReadsMembers seen scope ss scope' → ∀ s ∈ ss, s.isUnion = false
  | .nil => List.forall_mem_nil _
  | .cons _ hu _ hrest => List.forall_mem_cons.2 ⟨hu, hrest.flat⟩

private theorem ReadsFields.names {seen : List String} {scope scope' : Scope}
    {fs : List (Field Schema)} :
    ReadsFields seen scope fs scope' →
      (fs.map Field.name).Nodup ∧ ∀ name ∈ fs.map Field.name, name ∉ seen
  | .nil => ⟨List.nodup_nil, List.forall_mem_nil _⟩
  | .cons _ hname _ hrest => nodup_unseen_cons.2 ⟨hname, hrest.names⟩

mutual

/-- A reading of a schema among checked types gives a checked schema. -/
theorem Reads.checked {scope scope' : Scope} {s : Schema} : Reads scope s scope' →
    scope.Checked → s.Checked ∧ scope'.Checked
  | .primitive h, hscope => ⟨.primitive h, hscope⟩
  | .reference h, hscope => ⟨hscope.resolve h, hscope⟩
  | .enum _ _, hscope => ⟨.enum _ _, hscope.complete (.enum _ _)⟩
  | .fixed _ hfits hsize _ _, hscope => ⟨.fixed hfits hsize, hscope.complete (.fixed hfits hsize)⟩
  | .array h, hscope => (h.checked hscope).imp_left .array
  | .map h, hscope => (h.checked hscope).imp_left .map
  | .union hne h, hscope => by
    obtain ⟨hmembers, hscope'⟩ := h.checked hscope
    exact ⟨.union hne h.flat h.keys.1 hmembers, hscope'⟩
  | @Reads.record _ n doc fs _ _ h _, hscope => by
    obtain ⟨hfields, hscope'⟩ := h.checked hscope
    have hrecord : (Schema.record n doc fs).Checked := .record h.names.1 hfields
    exact ⟨hrecord, hscope'.complete hrecord⟩

theorem ReadsMembers.checked {seen : List String} {scope scope' : Scope} {ss : List Schema} :
    ReadsMembers seen scope ss scope' → scope.Checked → (∀ s ∈ ss, s.Checked) ∧ scope'.Checked
  | .nil, hscope => ⟨List.forall_mem_nil _, hscope⟩
  | .cons h _ _ hrest, hscope => by
    obtain ⟨hs, hscope'⟩ := h.checked hscope
    obtain ⟨hss, hscope''⟩ := hrest.checked hscope'
    exact ⟨List.forall_mem_cons.2 ⟨hs, hss⟩, hscope''⟩

theorem ReadsFields.checked {seen : List String} {scope scope' : Scope}
    {fs : List (Field Schema)} :
    ReadsFields seen scope fs scope' → scope.Checked →
      (∀ f ∈ fs, f.schema.Checked) ∧ scope'.Checked
  | .nil, hscope => ⟨List.forall_mem_nil _, hscope⟩
  | .cons _ _ h hrest, hscope => by
    obtain ⟨hs, hscope'⟩ := h.checked hscope
    obtain ⟨hfs, hscope''⟩ := hrest.checked hscope'
    exact ⟨List.forall_mem_cons.2 ⟨hs, hfs⟩, hscope''⟩

end

/-- Whatever document was read, its schema is checked. -/
theorem checked_of_ofJson? {v : Json} {s : Schema} (h : ofJson? v = .ok s) : s.Checked := by
  obtain ⟨scope, hreads⟩ := reads_of_ofJson? h
  exact (hreads.checked Scope.checked_empty).1

end Schema
end Restorable
