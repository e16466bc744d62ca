-- SUMMARY: In a parsed document every name has one meaning, and every reference has its record.
import Restorable.Proofs.Schema.Growth

/-!
# Names of parsed documents

A named type can stand in a document several times: defined again, or taken from its
definition. All its places hold the same type. A reference is left where a record is named
inside itself; the record is complete at the end of the document, and stands in it.
-/
namespace Restorable
namespace Schema

/-! ## References -/

mutual

/-- The names of the references that stand in the schema. -/
def refs : Schema → List Name
  | .ref n => [n]
  | .array s | .map s => s.refs
  | .union ss => memberRefs ss
  | .record _ _ fs => fieldRefs fs
  | _ => []

def memberRefs : List Schema → List Name
  | [] => []
  | s :: ss => s.refs ++ memberRefs ss

def fieldRefs : List (Field Schema) → List Name
  | [] => []
  | ⟨_, s, _⟩ :: fs => s.refs ++ fieldRefs fs

end

private theorem refs_of_primitive {s : Schema} (h : s.Primitive) : s.refs = [] := by
  cases s with
  | null | boolean | int | long | float | double | string | bytes => rfl
  | _ => exact h.elim

/-! ## Named types of the normal form -/

mutual

@[simp] theorem types_normal : (s : Schema) →
    s.normal.types = s.types.map fun d => (d.1, d.2.normal)
  | .null | .boolean | .int _ | .long _ | .float | .double | .string _ | .bytes _ | .ref _
  | .fixed .. | .enum .. => rfl
  | .array s | .map s => types_normal s
  | .union ss => memberTypes_normal ss
  | .record n doc fs => congrArg ((n.full, (Schema.record n doc fs).normal) :: ·)
      (fieldTypes_normal fs)

@[simp] theorem memberTypes_normal : (ss : List Schema) →
    memberTypes (normalMembers ss) = (memberTypes ss).map fun d => (d.1, d.2.normal)
  | [] => rfl
  | s :: ss => by
    rw [normalMembers, memberTypes, memberTypes, types_normal s, memberTypes_normal ss,
      List.map_append]

@[simp] theorem fieldTypes_normal : (fs : List (Field Schema)) →
    fieldTypes (normalFields fs) = (fieldTypes fs).map fun d => (d.1, d.2.normal)
  | [] => rfl
  | ⟨_, s, _⟩ :: fs => by
    rw [normalFields, fieldTypes, fieldTypes, types_normal s, fieldTypes_normal fs,
      List.map_append]

end

/-! ## Names that stand for records -/

variable {scope scope' : Scope}

/-- The name of a record that is open or complete. -/
structure Scope.Stands (scope : Scope) (n : Name) : Prop where
  spelled : Name.ofFull n.full = n
  known : n.full ∈ scope.pending ∨ ∃ doc fs, scope.meaning n.full = some (.record n doc fs)

namespace Scope.Stands

variable {n : Name}

/-- A record that is entered does not take the place of another one. -/
theorem enter (h : scope.Stands n) (full : String) : (scope.enter full).Stands n :=
  ⟨h.spelled, h.known.imp_left (List.mem_cons_of_mem full)⟩

/-- Completing a type of another name, or a definition that is accepted, changes nothing. -/
theorem complete {full : String} {s : Schema} (h : scope.Stands n) (hacc : scope.Accepts full s) :
    (scope.complete full s).Stands n := by
  refine ⟨h.spelled, h.known.imp_right ?_⟩
  rintro ⟨doc, fs, hknown⟩
  exact ⟨doc, fs, (Extends.complete hacc).keeps hknown⟩

/-- A record that is left is complete right after. -/
theorem leave {m : Name} {doc : Option String} {fs : List (Field Schema)} (h : scope.Stands n)
    (hm : m.Writable none) (hacc : (scope.leave m.full).Accepts m.full (.record m doc fs)) :
    ((scope.leave m.full).complete m.full (.record m doc fs)).Stands n := by
  refine ⟨h.spelled, ?_⟩
  by_cases heq : n.full = m.full
  · have hname : n = m := by rw [← h.spelled, heq, hm.spelled]
    subst hname
    exact .inr ⟨doc, normalFields fs, Scope.meaning_complete_self _ _⟩
  · rcases h.known with hopen | ⟨doc', fs', hknown⟩
    · exact .inl (List.mem_filter.2 ⟨hopen, decide_eq_true heq⟩)
    · exact .inr ⟨doc', fs', (Extends.complete hacc).keeps hknown⟩

end Scope.Stands

mutual

/-- A name that stands for a record goes on standing for one. -/
theorem Reads.stands {scope scope' : Scope} {s : Schema} {n : Name} :
    Reads scope s scope' → scope.Stands n → scope'.Stands n
  | .primitive _, hn | .reference _, hn => hn
  | .enum _ hacc, hn | .fixed _ _ _ _ hacc, hn => hn.complete hacc
  | .array h, hn | .map h, hn => h.stands hn
  | .union _ h, hn => h.stands hn
  | .record hm h hacc, hn => (h.stands (hn.enter _)).leave hm hacc

theorem ReadsMembers.stands {seen : List String} {scope scope' : Scope} {ss : List Schema}
    {n : Name} : ReadsMembers seen scope ss scope' → scope.Stands n → scope'.Stands n
  | .nil, hn => hn
  | .cons h _ _ hrest, hn => hrest.stands (h.stands hn)

theorem ReadsFields.stands {seen : List String} {scope scope' : Scope} {fs : List (Field Schema)}
    {n : Name} : ReadsFields seen scope fs scope' → scope.Stands n → scope'.Stands n
  | .nil, hn => hn
  | .cons _ _ h hrest, hn => hrest.stands (h.stands hn)

end

/-! ## References that were read -/

/-- Every reference inside a completed type stands for a record. -/
def Scope.Linked (scope : Scope) : Prop :=
  ∀ full s, scope.lookup full = some s → ∀ n ∈ s.refs, scope.Stands n

theorem Scope.linked_empty : Scope.empty.Linked := fun _ _ h => nomatch h

theorem Scope.Linked.enter (h : scope.Linked) (full : String) : (scope.enter full).Linked :=
  fun other s hs n hn => (h other s hs n hn).enter full

/-- A name that is found is a completed type, or the name of a record that is open. -/
theorem Scope.Linked.resolve {full : String} {s : Schema} (h : scope.Linked)
    (hs : scope.resolve full = some s) : ∀ n ∈ s.refs, scope.Stands n := by
  unfold Scope.resolve at hs
  split at hs
  · rename_i known hknown
    cases hs
    exact h full _ hknown
  · split at hs
    · rename_i hopen
      cases hs
      intro n hn
      obtain rfl := List.mem_singleton.1 hn
      have hfull : (Name.ofFull full).full = full := Name.full_ofFull full
      exact ⟨congrArg Name.ofFull hfull, .inl (hfull.symm ▸ hopen)⟩
    · cases hs

/-- Completing a type whose references stand for records, in a way that keeps all others. -/
theorem Scope.Linked.complete {full : String} {s : Schema} (h : scope.Linked)
    (hkeep : ∀ n, scope.Stands n → (scope'.complete full s).Stands n)
    (hnamed : scope'.named = scope.named) (hs : ∀ n ∈ s.refs, scope.Stands n) :
    (scope'.complete full s).Linked := by
  intro other t ht n hn
  apply hkeep
  by_cases heq : other = full
  · subst heq
    rw [lookup_complete_self, Option.some.injEq] at ht
    exact hs n (ht ▸ hn)
  · rw [lookup_complete_of_ne scope' s heq, Scope.lookup, hnamed] at ht
    exact h other t ht n hn

mutual

/-- After a reading every reference in the schema stands for a record. -/
theorem Reads.linked {scope scope' : Scope} {s : Schema} : Reads scope s scope' →
    scope.Linked → scope'.Linked ∧ ∀ n ∈ s.refs, scope'.Stands n
  | .primitive h, hs => by
    refine ⟨hs, ?_⟩
    rw [refs_of_primitive h]
    exact List.forall_mem_nil _
  | .reference h, hs => ⟨hs, hs.resolve h⟩
  | .enum _ hacc, hs | .fixed _ _ _ _ hacc, hs =>
    ⟨hs.complete (fun _ hn => hn.complete hacc) rfl (List.forall_mem_nil _), List.forall_mem_nil _⟩
  | .array h, hs | .map h, hs => h.linked hs
  | .union _ h, hs => h.linked hs
  | .record hm h hacc, hs => by
    obtain ⟨hinner, hfields⟩ := h.linked (hs.enter _)
    exact ⟨hinner.complete (fun _ hn => hn.leave hm hacc) rfl hfields,
      fun n hn => (hfields n hn).leave hm hacc⟩

theorem ReadsMembers.linked {seen : List String} {scope scope' : Scope} {ss : List Schema} :
    ReadsMembers seen scope ss scope' →
      scope.Linked → scope'.Linked ∧ ∀ n ∈ memberRefs ss, scope'.Stands n
  | .nil, hs => ⟨hs, List.forall_mem_nil _⟩
  | .cons h _ _ hrest, hs => by
    obtain ⟨hs', hfirst⟩ := h.linked hs
    obtain ⟨hs'', hrefs⟩ := hrest.linked hs'
    exact ⟨hs'', List.forall_mem_append.2 ⟨fun n hn => hrest.stands (hfirst n hn), hrefs⟩⟩

theorem ReadsFields.linked {seen : List String} {scope scope' : Scope}
    {fs : List (Field Schema)} : ReadsFields seen scope fs scope' →
      scope.Linked → scope'.Linked ∧ ∀ n ∈ fieldRefs fs, scope'.Stands n
  | .nil, hs => ⟨hs, List.forall_mem_nil _⟩
  | .cons _ _ h hrest, hs => by
    obtain ⟨hs', hfirst⟩ := h.linked hs
    obtain ⟨hs'', hrefs⟩ := hrest.linked hs'
    exact ⟨hs'', List.forall_mem_append.2 ⟨fun n hn => hrest.stands (hfirst n hn), hrefs⟩⟩

end

/-! ## Open records -/

mutual

/-- A reading opens no record for longer than its fields. -/
theorem Reads.pending {scope scope' : Scope} {s : Schema} :
    Reads scope s scope' → ∀ full ∈ scope'.pending, full ∈ scope.pending
  | .primitive _ | .reference _ | .enum .. | .fixed .. => fun _ hopen => hopen
  | .array h | .map h => h.pending
  | .union _ h => h.pending
  | .record _ h _ => by
    intro full hopen
    obtain ⟨hmem, hne⟩ := List.mem_filter.1 hopen
    exact (List.mem_cons.1 (h.pending full hmem)).resolve_left (of_decide_eq_true hne)

theorem ReadsMembers.pending {seen : List String} {scope scope' : Scope} {ss : List Schema} :
    ReadsMembers seen scope ss scope' → ∀ full ∈ scope'.pending, full ∈ scope.pending
  | .nil => fun _ hopen => hopen
  | .cons h _ _ hrest => fun full hopen => h.pending full (hrest.pending full hopen)

theorem ReadsFields.pending {seen : List String} {scope scope' : Scope}
    {fs : List (Field Schema)} :
    ReadsFields seen scope fs scope' → ∀ full ∈ scope'.pending, full ∈ scope.pending
  | .nil => fun _ hopen => hopen
  | .cons _ _ h hrest => fun full hopen => h.pending full (hrest.pending full hopen)

end

/-! ## Documents -/

/-- A type in the normal form of a schema is the normal form of a type in it. -/
private theorem exists_of_mem_types_normal {s : Schema} {d : String × Schema}
    (h : d ∈ s.normal.types) :
    ∃ t, (d.1, t) ∈ s.types ∧ t.normal = d.2 := by
  rw [types_normal] at h
  obtain ⟨⟨full, t⟩, hmem, rfl⟩ := List.mem_map.1 h
  exact ⟨t, hmem, rfl⟩

/-- In a parsed document any two records, enums or fixed types with one full name are the same,
and for every reference there is a record of its name. -/
theorem oneMeaning_of_ofJson? {v : Json} {s : Schema} (h : ofJson? v = .ok s) :
    (∀ d ∈ s.types, ∀ e ∈ s.types, d.1 = e.1 → d.2.same e.2 = true) ∧
      ∀ n ∈ s.refs, ∃ doc fs, (n.full, .record n doc fs) ∈ s.types := by
  obtain ⟨scope, hreads⟩ := reads_of_ofJson? h
  obtain ⟨-, hagrees⟩ := hreads.sound Scope.sound_empty
  obtain ⟨-, hrefs⟩ := hreads.linked Scope.linked_empty
  have hmeaning : ∀ d ∈ s.types, scope.meaning d.1 = some d.2.normal := by
    intro d hd
    apply hagrees (d.1, d.2.normal)
    rw [types_normal]
    exact List.mem_map_of_mem hd
  constructor
  · intro d hd e he hname
    have hnormal := (hmeaning d hd).symm.trans (hname ▸ hmeaning e he)
    exact (same_iff_normal d.2 e.2).2 (Option.some.inj hnormal)
  · intro n hn
    rcases (hrefs n hn).known with hopen | ⟨doc, fs, hknown⟩
    · exact absurd (hreads.pending _ hopen) List.not_mem_nil
    · rcases hreads.extends.adds hknown with hbefore | hmem
      · cases hbefore
      · obtain ⟨t, ht, hnormal⟩ := exists_of_mem_types_normal hmem
        cases t <;> cases hnormal
        exact ⟨_, _, ht⟩

/-- A record with an enum that is named again, and with a record that is defined twice and
refers to the one around it. -/
theorem oneMeaning_of_ofJson?_node :
    ∃ v s, ofJson? v = .ok s ∧
      s.types.map Prod.fst = ["a.Node", "a.Kind", "a.Kind", "a.Leaf", "a.Leaf"] ∧
      s.refs.map Name.full = ["a.Node", "a.Node", "a.Node"] ∧
      (∀ d ∈ s.types, ∀ e ∈ s.types, d.1 = e.1 → d.2.same e.2 = true) ∧
      ∀ n ∈ s.refs, ∃ doc fs, (n.full, .record n doc fs) ∈ s.types := by
  let node : Name := ⟨"Node", some "a"⟩
  let kind : Schema := .enum ⟨"Kind", some "a"⟩ ["INNER", "OUTER"]
  let leaf : Schema := .record ⟨"Leaf", some "a"⟩ none [⟨"up", .ref node, none⟩]
  let s : Schema := .record node none [⟨"kind", kind, none⟩, ⟨"next", .union [.null, .ref node], none⟩,
    ⟨"other", kind, none⟩, ⟨"left", leaf, none⟩, ⟨"right", leaf, none⟩]
  let v : Json := .obj [("type", .str "record"), ("name", .str "a.Node"), ("fields", .arr [
    .obj [("name", .str "kind"), ("type", .obj [("type", .str "enum"), ("name", .str "Kind"),
      ("symbols", .arr [.str "INNER", .str "OUTER"])])],
    .obj [("name", .str "next"), ("type", .arr [.str "null", .str "Node"])],
    .obj [("name", .str "other"), ("type", .str "Kind")],
    .obj [("name", .str "left"), ("type", .obj [("type", .str "record"), ("name", .str "Leaf"),
      ("fields", .arr [.obj [("name", .str "up"), ("type", .str "Node")]])])],
    .obj [("name", .str "right"), ("type", .obj [("type", .str "record"), ("name", .str "Leaf"),
      ("fields", .arr [.obj [("name", .str "up"), ("type", .str "Node")]])])]])]
  have hread : ofJson? v = .ok s := by rfl
  exact ⟨v, s, hread, rfl, rfl, oneMeaning_of_ofJson? hread⟩

end Schema
end Restorable
