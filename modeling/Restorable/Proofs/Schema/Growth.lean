-- SUMMARY: What a reading adds to the known names, and what stays true of them.
import Restorable.Proofs.Schema.Reads

/-!
# Growth of the known names

A reading adds names and takes none away: a completed name keeps its meaning, and every new
one stands for a type inside the schema that was read. Each completed name stands for a
type of that name whose own types are complete too.
-/
namespace Restorable
namespace Schema

variable {scope scope' scope'' : Scope}

/-! ## Meanings -/

/-- What a full name was completed with, in normal form. -/
def Scope.meaning (scope : Scope) (full : String) : Option Schema :=
  (scope.lookup full).map normal

theorem Scope.meaning_eq_none {full : String} :
    scope.meaning full = none ↔ scope.lookup full = none :=
  Option.map_eq_none_iff

theorem Scope.meaning_of_lookup {full : String} {s : Schema} (h : scope.lookup full = some s) :
    scope.meaning full = some s.normal := by
  rw [meaning, h, Option.map_some]

@[simp] theorem Scope.meaning_enter (full other : String) :
    (scope.enter full).meaning other = scope.meaning other := rfl

@[simp] theorem Scope.meaning_leave (full other : String) :
    (scope.leave full).meaning other = scope.meaning other := rfl

@[simp] theorem Scope.meaning_complete_self (full : String) (s : Schema) :
    (scope.complete full s).meaning full = some s.normal := by
  simp [meaning]

theorem Scope.meaning_complete_of_ne {full other : String} (s : Schema) (h : other ≠ full) :
    (scope.complete full s).meaning other = scope.meaning other := by
  rw [meaning, lookup_complete_of_ne scope s h, meaning]

/-- The name that was completed is complete. -/
theorem Scope.ne_of_meaning_complete {full other : String} {s : Schema}
    (h : (scope.complete full s).meaning other = none) : other ≠ full := by
  rintro rfl
  rw [meaning_complete_self] at h
  cases h

/-- An accepted definition says what an earlier one of its name says. -/
theorem Scope.Accepts.meaning {full : String} {s t : Schema} (h : scope.Accepts full s)
    (ht : scope.meaning full = some t) : t = s.normal := by
  obtain ⟨known, hknown, rfl⟩ := Option.map_eq_some_iff.1 ht
  exact h known hknown

/-! ## Growth -/

/-- The names of `scope'` are those of `scope` and perhaps some of the listed ones. -/
structure Extends (scope scope' : Scope) (ds : List (String × Schema)) : Prop where
  keeps : ∀ {full t}, scope.meaning full = some t → scope'.meaning full = some t
  adds : ∀ {full t}, scope'.meaning full = some t → scope.meaning full = some t ∨ (full, t) ∈ ds
  pending : ∀ {full}, scope'.meaning full = none → (full ∈ scope'.pending ↔ full ∈ scope.pending)

namespace Extends

variable {ds es : List (String × Schema)}

theorem refl (scope : Scope) (ds : List (String × Schema)) : Extends scope scope ds :=
  ⟨fun h => h, fun h => .inl h, fun _ => Iff.rfl⟩

/-- A name that is not complete later was not complete before. -/
theorem none_of_none (h : Extends scope scope' ds) {full : String}
    (hnone : scope'.meaning full = none) : scope.meaning full = none := by
  cases hknown : scope.meaning full with
  | none => rfl
  | some t =>
    rw [h.keeps hknown] at hnone
    cases hnone

theorem trans (h : Extends scope scope' ds) (h' : Extends scope' scope'' es) :
    Extends scope scope'' (ds ++ es) := by
  refine ⟨fun hknown => h'.keeps (h.keeps hknown), ?_, ?_⟩
  · intro full t hknown
    rcases h'.adds hknown with hknown | hmem
    · rcases h.adds hknown with hknown | hmem
      · exact .inl hknown
      · exact .inr (List.mem_append_left es hmem)
    · exact .inr (List.mem_append_right ds hmem)
  · intro full hnone
    exact (h'.pending hnone).trans (h.pending (h'.none_of_none hnone))

/-- Completing a type that is accepted adds its name at most. -/
theorem complete {full : String} {s : Schema} (hacc : scope.Accepts full s) :
    Extends scope (scope.complete full s) [(full, s.normal)] := by
  refine ⟨?_, ?_, fun _ => Iff.rfl⟩
  · intro other t hknown
    by_cases heq : other = full
    · subst heq
      simp [hacc.meaning hknown]
    · rw [Scope.meaning_complete_of_ne s heq, hknown]
  · intro other t hknown
    by_cases heq : other = full
    · subst heq
      rw [Scope.meaning_complete_self, Option.some.injEq] at hknown
      exact .inr (hknown ▸ List.mem_singleton_self _)
    · rw [Scope.meaning_complete_of_ne s heq] at hknown
      exact .inl hknown

/-- A record adds what its fields add, and its own name. -/
theorem record {full : String} {s : Schema} (h : Extends (scope.enter full) scope' ds)
    (hacc : (scope'.leave full).Accepts full s) :
    Extends scope ((scope'.leave full).complete full s) ((full, s.normal) :: ds) := by
  have hlast := complete hacc
  refine ⟨fun hknown => hlast.keeps (h.keeps hknown), ?_, ?_⟩
  · intro other t hknown
    rcases hlast.adds hknown with hknown | hmem
    · exact (h.adds hknown).imp_right (List.mem_cons_of_mem _)
    · exact .inr (List.mem_singleton.1 hmem ▸ List.mem_cons_self)
  · intro other hnone
    have hne := Scope.ne_of_meaning_complete hnone
    have hopen := h.pending (hlast.none_of_none hnone)
    simp only [Scope.enter, List.mem_cons, or_iff_right hne] at hopen
    simpa [Scope.complete, Scope.leave, hne] using hopen

end Extends

mutual

/-- A reading adds names of types that stand in the schema. -/
theorem Reads.extends {scope scope' : Scope} {s : Schema} :
    Reads scope s scope' → Extends scope scope' s.normal.types
  | .primitive _ | .reference _ => .refl _ _
  | .enum _ hacc | .fixed _ _ _ _ hacc => .complete hacc
  | .array h | .map h => h.extends
  | .union _ h => h.extends
  | .record _ h hacc => h.extends.record hacc

theorem ReadsMembers.extends {seen : List String} {scope scope' : Scope} {ss : List Schema} :
    ReadsMembers seen scope ss scope' → Extends scope scope' (memberTypes (normalMembers ss))
  | .nil => .refl _ _
  | .cons h _ _ hrest => h.extends.trans hrest.extends

theorem ReadsFields.extends {seen : List String} {scope scope' : Scope}
    {fs : List (Field Schema)} :
    ReadsFields seen scope fs scope' → Extends scope scope' (fieldTypes (normalFields fs))
  | .nil => .refl _ _
  | .cons _ _ h hrest => h.extends.trans hrest.extends

end

/-- The fields of a record do not complete a name that the record completes: a record with
its own name inside would be another one. -/
theorem ReadsFields.meaning_eq_none {seen : List String} {n : Name} {doc : Option String}
    {fs : List (Field Schema)} (h : ReadsFields seen (scope.enter n.full) fs scope')
    (hacc : (scope'.leave n.full).Accepts n.full (.record n doc fs))
    (hnew : scope.meaning n.full = none) : scope'.meaning n.full = none := by
  cases hknown : scope'.meaning n.full with
  | none => rfl
  | some t =>
    obtain rfl : t = _ := hacc.meaning hknown
    rcases h.extends.adds hknown with hold | hmem
    · rw [Scope.meaning_enter, hnew] at hold
      cases hold
    · have hsize := sizeOf_of_mem_fieldTypes _ hmem
      simp only [normal, record.sizeOf_spec] at hsize
      omega

/-! ## Soundness -/

/-- A name is complete with a type of that name, whose own types are complete, and open
with a definable text. -/
structure Scope.Sound (scope : Scope) : Prop where
  named : ∀ {full s}, scope.lookup full = some s →
    ∃ n, s.name? = some n ∧ n.full = full ∧ n.Writable none
  opened : ∀ {full}, full ∈ scope.pending → Name.Definable full
  closed : ∀ {full t}, scope.meaning full = some t → Agrees scope.meaning t.types

theorem Scope.sound_empty : Scope.empty.Sound := by
  refine ⟨?_, ?_, ?_⟩ <;> simp [Scope.empty, Scope.lookup, Scope.meaning]

/-- What a name stands for has that name. -/
theorem Scope.Sound.resolve {full : String} {s : Schema} (hs : scope.Sound)
    (h : scope.resolve full = some s) : ∃ n, s.name? = some n ∧ n.full = full ∧ n.Writable none := by
  unfold Scope.resolve at h
  split at h
  · rename_i t hknown
    cases h
    exact hs.named hknown
  · split at h
    · rename_i hopen
      cases h
      exact ⟨_, rfl, Name.full_ofFull full, Name.writable_ofFull (hs.opened hopen) fun _ => rfl⟩
    · cases h

theorem Scope.Sound.enter {n : Name} (hs : scope.Sound) (hn : n.Writable none) :
    (scope.enter n.full).Sound := by
  refine ⟨hs.named, ?_, hs.closed⟩
  intro full hopen
  rcases List.mem_cons.1 hopen with rfl | hopen
  · exact hn.definable
  · exact hs.opened hopen

theorem Scope.Sound.leave (hs : scope.Sound) (full : String) : (scope.leave full).Sound := by
  refine ⟨hs.named, ?_, hs.closed⟩
  intro other hopen
  exact hs.opened (List.mem_of_mem_filter hopen)

theorem Agrees.mono {table table' : String → Option Schema} {ds : List (String × Schema)}
    (h : Agrees table ds) (hle : ∀ {full t}, table full = some t → table' full = some t) :
    Agrees table' ds :=
  fun d hd => hle (h d hd)

theorem Scope.Sound.complete {n : Name} {s : Schema} (hs : scope.Sound)
    (hacc : scope.Accepts n.full s) (hname : s.name? = some n) (hn : n.Writable none)
    (htypes : Agrees (scope.complete n.full s).meaning s.normal.types) :
    (scope.complete n.full s).Sound := by
  have hlast := Extends.complete hacc
  refine ⟨?_, hs.opened, ?_⟩
  · intro full t hknown
    by_cases heq : full = n.full
    · subst heq
      rw [Scope.lookup_complete_self, Option.some.injEq] at hknown
      exact ⟨n, hknown ▸ hname, rfl, hn⟩
    · rw [Scope.lookup_complete_of_ne scope s heq] at hknown
      exact hs.named hknown
  · intro full t hknown
    by_cases heq : full = n.full
    · subst heq
      rw [Scope.meaning_complete_self, Option.some.injEq] at hknown
      exact hknown ▸ htypes
    · rw [Scope.meaning_complete_of_ne s heq] at hknown
      exact (hs.closed hknown).mono hlast.keeps

mutual

/-- A reading keeps the known names sound, and all types of the schema are then complete. -/
theorem Reads.sound {scope scope' : Scope} {s : Schema} :
    Reads scope s scope' → scope.Sound → scope'.Sound ∧ Agrees scope'.meaning s.normal.types
  | .primitive h, hs => by
    refine ⟨hs, ?_⟩
    cases s <;> first | exact h.elim | exact fun d hd => absurd hd List.not_mem_nil
  | .reference h, hs => by
    refine ⟨hs, ?_⟩
    unfold Scope.resolve at h
    split at h
    · rename_i t hknown
      cases h
      exact hs.closed (Scope.meaning_of_lookup hknown)
    · split at h
      · cases h
        exact fun d hd => absurd hd List.not_mem_nil
      · cases h
  | @Reads.enum scope n symbols hn hacc, hs => by
    have htypes : Agrees (scope.complete n.full (.enum n symbols)).meaning
        [(n.full, (Schema.enum n symbols).normal)] :=
      agrees_cons.2 ⟨Scope.meaning_complete_self _ _, fun d hd => absurd hd List.not_mem_nil⟩
    exact ⟨hs.complete hacc rfl hn htypes, htypes⟩
  | @Reads.fixed scope n size a hn _ _ _ hacc, hs => by
    have htypes : Agrees (scope.complete n.full (.fixed n size a)).meaning
        [(n.full, (Schema.fixed n size a).normal)] :=
      agrees_cons.2 ⟨Scope.meaning_complete_self _ _, fun d hd => absurd hd List.not_mem_nil⟩
    exact ⟨hs.complete hacc rfl hn htypes, htypes⟩
  | .array h, hs | .map h, hs => h.sound hs
  | .union _ h, hs => h.sound hs
  | @Reads.record scope n doc fs scope' hn h hacc, hs => by
    obtain ⟨hinner, hfields⟩ := h.sound (hs.enter hn)
    have hlast := Extends.complete hacc
    have htypes : Agrees ((scope'.leave n.full).complete n.full (.record n doc fs)).meaning
        ((n.full, (Schema.record n doc fs).normal) :: fieldTypes (normalFields fs)) :=
      agrees_cons.2 ⟨Scope.meaning_complete_self _ _, hfields.mono hlast.keeps⟩
    exact ⟨(hinner.leave _).complete hacc rfl hn htypes, htypes⟩

theorem ReadsMembers.sound {seen : List String} {scope scope' : Scope} {ss : List Schema} :
    ReadsMembers seen scope ss scope' → scope.Sound →
      scope'.Sound ∧ Agrees scope'.meaning (memberTypes (normalMembers ss))
  | .nil, hs => ⟨hs, fun d hd => absurd hd List.not_mem_nil⟩
  | .cons h _ _ hrest, hs => by
    obtain ⟨hs', htypes⟩ := h.sound hs
    obtain ⟨hs'', hrestTypes⟩ := hrest.sound hs'
    exact ⟨hs'', agrees_append.2 ⟨htypes.mono hrest.extends.keeps, hrestTypes⟩⟩

theorem ReadsFields.sound {seen : List String} {scope scope' : Scope} {fs : List (Field Schema)} :
    ReadsFields seen scope fs scope' → scope.Sound →
      scope'.Sound ∧ Agrees scope'.meaning (fieldTypes (normalFields fs))
  | .nil, hs => ⟨hs, fun d hd => absurd hd List.not_mem_nil⟩
  | .cons _ _ h hrest, hs => by
    obtain ⟨hs', htypes⟩ := h.sound hs
    obtain ⟨hs'', hrestTypes⟩ := hrest.sound hs'
    exact ⟨hs'', agrees_append.2 ⟨htypes.mono hrest.extends.keeps, hrestTypes⟩⟩

end

/-- Reading a definition again adds nothing. -/
theorem Reads.meaning_eq {s : Schema} {full : String} (h : Reads scope s scope')
    (hs : scope.Sound) (hknown : scope.meaning full = some s.normal) (other : String) :
    scope'.meaning other = scope.meaning other := by
  cases hnow : scope'.meaning other with
  | none => exact (h.extends.none_of_none hnow).symm
  | some t =>
    rcases h.extends.adds hnow with hold | hmem
    · exact hold.symm
    · exact (hs.closed hknown _ hmem).symm

end Schema
end Restorable
