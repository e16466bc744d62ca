-- SUMMARY: The names in a document: what reading it completes, and why a record around it changes nothing.
import Restorable.Proofs.Schema.Forms
import Restorable.Proofs.Schema.Growth

/-!
# Names in documents

A form mentions names where it defines types and where it refers to them. Reading it completes
exactly the names that it defines. A record around it stays open meanwhile, and is noticed by
no reference that is resolved without it.
-/
namespace Restorable
namespace Schema

open Steps

/-! ## The names in a document -/

/-- A place where a document has the name of a type. -/
inductive Mention
  | definition (full : String)
  /-- A name, and the namespace around it. -/
  | reference (text : String) (space : Option String)
  deriving DecidableEq

namespace Form

mutual

/-- The names in a form, in the order of reading; a record is defined at its end. -/
def mentions : Form → List Mention
  | .reference text space => [.reference text space]
  | .array f | .map f => f.mentions
  | .union fs => memberMentions fs
  | .definition n _ => [.definition n.full]
  | .record n _ fs => fieldMentions fs ++ [.definition n.full]
  | .fault _ | .plain _ => []

def memberMentions : List Form → List Mention
  | [] => []
  | f :: rest => f.mentions ++ memberMentions rest

def fieldMentions : List (Field Form) → List Mention
  | [] => []
  | ⟨_, f, _⟩ :: rest => f.mentions ++ fieldMentions rest

end

end Form

/-! ## What reading a form adds -/

variable {space : Option String} {scope scope' scope'' : Scope}

private theorem Form.readResolved_eq (text : String) (space : Option String) (scope : Scope) :
    readResolved text space scope = (resolve text space scope).elim
      (.error (.undefinedName text)) fun s => .ok (s, scope) := by
  have hget : (get : Read Scope) scope = .ok (scope, scope) := rfl
  rw [readResolved, bind_of_ok hget]
  cases resolve text space scope <;> rfl

theorem Form.readResolved_eq_ok {text : String} {s : Schema} :
    Form.readResolved text space scope = .ok (s, scope') ↔
      Form.resolve text space scope = some s ∧ scope = scope' := by
  rw [readResolved_eq]
  cases resolve text space scope with
  | none => exact iff_of_false (fun h => nomatch h) (fun h => nomatch h.1)
  | some t => rw [Option.elim_some, Except.ok.injEq, Prod.mk.injEq, Option.some.injEq]

/-- A record reads its fields while its name is open, and is registered after them. -/
theorem Form.read_record_eq_ok {n : Name} {doc : Option String} {fields : List (Field Form)}
    {s : Schema} : (Form.record n doc fields).read scope = .ok (s, scope'') ↔
      ∃ fs scope', readFields fields (scope.enter n.full) = .ok (fs, scope') ∧
        (scope'.leave n.full).Accepts n.full (.record n doc fs) ∧ .record n doc fs = s ∧
        (scope'.leave n.full).complete n.full (.record n doc fs) = scope'' := by
  change (do
    let fs ← readFields fields
    modify (·.leave n.full)
    register n (.record n doc fs) : Read Schema) (scope.enter n.full) = _ ↔ _
  rw [bind_eq_ok]
  exact exists_congr fun fs => exists_congr fun scope' => and_congr Iff.rfl register_eq_ok

theorem Form.readMembers_cons_eq_ok {f : Form} {rest : List Form} {seen : List String}
    {ss : List Schema} : readMembers (f :: rest) seen scope = .ok (ss, scope'') ↔
      ∃ s key tail scope', f.read scope = .ok (s, scope') ∧ checkMember s seen = .ok key ∧
        readMembers rest (key :: seen) scope' = .ok (tail, scope'') ∧ s :: tail = ss := by
  constructor
  · intro h
    obtain ⟨s, scope', hf, h⟩ := bind_eq_ok.1 h
    obtain ⟨key, _, hlift, h⟩ := bind_eq_ok.1 h
    obtain ⟨hkey, rfl⟩ := lift_eq_ok.1 hlift
    obtain ⟨tail, hrest, rfl⟩ := bind_pure_eq_ok.1 h
    exact ⟨s, key, tail, scope', hf, hkey, hrest, rfl⟩
  · rintro ⟨s, key, tail, scope', hf, hkey, hrest, rfl⟩
    refine (bind_of_ok hf).trans ((bind_of_ok (lift_of_ok hkey)).trans ?_)
    exact bind_pure_eq_ok.2 ⟨tail, hrest, rfl⟩

theorem Form.readFields_cons_eq_ok {name : String} {f : Form} {default : Option Json}
    {rest : List (Field Form)} {fs : List (Field Schema)} :
    readFields (⟨name, f, default⟩ :: rest) scope = .ok (fs, scope'') ↔
      ∃ s tail scope', f.read scope = .ok (s, scope') ∧
        readFields rest scope' = .ok (tail, scope'') ∧ ⟨name, s, default⟩ :: tail = fs := by
  constructor
  · intro h
    obtain ⟨s, scope', hf, h⟩ := bind_eq_ok.1 h
    obtain ⟨tail, hrest, rfl⟩ := bind_pure_eq_ok.1 h
    exact ⟨s, tail, scope', hf, hrest, rfl⟩
  · rintro ⟨s, tail, scope', hf, hrest, rfl⟩
    exact (bind_of_ok hf).trans (bind_pure_eq_ok.2 ⟨tail, hrest, rfl⟩)

/-- What a completed name means is kept. -/
def Scope.KeptIn (scope scope' : Scope) : Prop :=
  ∀ full t, scope.meaning full = some t → scope'.meaning full = some t

theorem Scope.KeptIn.trans (h : scope.KeptIn scope') (h' : scope'.KeptIn scope'') :
    scope.KeptIn scope'' :=
  fun full t hknown => h' full t (h full t hknown)

/-- Completing a type that is accepted keeps all names. -/
theorem Scope.Accepts.keptIn {full : String} {s : Schema} (hacc : scope.Accepts full s) :
    scope.KeptIn (scope.complete full s) :=
  fun _ _ hknown => (Extends.complete hacc).keeps hknown

/-- The names that are completed in between are the names that are defined there, what was
complete keeps its meaning, and no name is opened. -/
structure Grows (scope scope' : Scope) (ms : List Mention) : Prop where
  keeps : scope.KeptIn scope'
  known : ∀ full, (scope'.meaning full).isSome = true ↔
    (scope.meaning full).isSome = true ∨ .definition full ∈ ms
  pending : ∀ full ∈ scope'.pending, full ∈ scope.pending

namespace Grows

variable {ms ns : List Mention}

theorem refl (h : ∀ full, .definition full ∉ ms) : Grows scope scope ms :=
  ⟨fun _ _ => id, fun full => (or_iff_left (h full)).symm, fun _ => id⟩

theorem trans (h : Grows scope scope' ms) (h' : Grows scope' scope'' ns) :
    Grows scope scope'' (ms ++ ns) := by
  refine ⟨h.keeps.trans h'.keeps, fun full => ?_, fun full => h.pending full ∘ h'.pending full⟩
  rw [h'.known, h.known, List.mem_append, or_assoc]

/-- Completing a type that is accepted. -/
theorem complete {full : String} {s : Schema} (hacc : scope.Accepts full s) :
    Grows scope (scope.complete full s) [.definition full] := by
  refine ⟨hacc.keptIn, fun other => ?_, fun _ => id⟩
  by_cases heq : other = full
  · subst heq
    simp
  · simp [Scope.meaning_complete_of_ne s heq, heq]

/-- A record adds what its fields add, and its own name. -/
theorem record {full : String} {s : Schema} (h : Grows (scope.enter full) scope' ms)
    (hacc : (scope'.leave full).Accepts full s) :
    Grows scope ((scope'.leave full).complete full s) (ms ++ [.definition full]) := by
  have hlast := complete hacc
  refine ⟨h.keeps.trans hlast.keeps, fun other => ?_, fun other hopen => ?_⟩
  · rw [hlast.known, Scope.meaning_leave, h.known, Scope.meaning_enter, List.mem_append, or_assoc]
  · obtain ⟨hmem, hne⟩ := List.mem_filter.1 hopen
    exact (List.mem_cons.1 (h.pending other hmem)).resolve_left (of_decide_eq_true hne)

end Grows

namespace Form

mutual

theorem grows : (f : Form) → {scope scope' : Scope} → {s : Schema} →
    f.read scope = .ok (s, scope') → Grows scope scope' f.mentions
  | .fault _, _, _, _, h => (throw_eq_ok.1 h).elim
  | .plain _, _, _, _, h => by
    obtain ⟨-, rfl⟩ := pure_eq_ok.1 h
    exact .refl fun _ => List.not_mem_nil
  | .reference text space, _, _, _, h => by
    obtain ⟨-, rfl⟩ := readResolved_eq_ok.1 h
    exact .refl (by simp [mentions])
  | .array f, _, _, _, h | .map f, _, _, _, h => by
    obtain ⟨s, hf, -⟩ := bind_pure_eq_ok.1 h
    exact f.grows hf
  | .union fs, _, _, _, h => by
    obtain ⟨ss, hfs, -⟩ := bind_pure_eq_ok.1 h
    exact memberMentions_grows fs hfs
  | .definition n s, _, _, _, h => by
    obtain ⟨hacc, rfl, rfl⟩ := register_eq_ok.1 h
    exact .complete hacc
  | .record n doc fields, _, _, _, h => by
    obtain ⟨fs, scope₁, hfs, hacc, rfl, rfl⟩ := read_record_eq_ok.1 h
    exact (fieldMentions_grows fields hfs).record hacc

theorem memberMentions_grows : (fs : List Form) → {seen : List String} → {scope scope' : Scope} →
    {ss : List Schema} → readMembers fs seen scope = .ok (ss, scope') →
    Grows scope scope' (memberMentions fs)
  | [], _, _, _, _, h => by
    obtain ⟨-, rfl⟩ := pure_eq_ok.1 h
    exact .refl fun _ => List.not_mem_nil
  | f :: rest, _, _, _, _, h => by
    obtain ⟨s, key, tail, scope₁, hf, -, hrest, -⟩ := readMembers_cons_eq_ok.1 h
    exact (f.grows hf).trans (memberMentions_grows rest hrest)

theorem fieldMentions_grows : (fields : List (Field Form)) → {scope scope' : Scope} →
    {fs : List (Field Schema)} → readFields fields scope = .ok (fs, scope') →
    Grows scope scope' (fieldMentions fields)
  | [], _, _, _, h => by
    obtain ⟨-, rfl⟩ := pure_eq_ok.1 h
    exact .refl fun _ => List.not_mem_nil
  | ⟨name, f, default⟩ :: rest, _, _, _, h => by
    obtain ⟨s, tail, scope₁, hf, hrest, -⟩ := readFields_cons_eq_ok.1 h
    exact (f.grows hf).trans (fieldMentions_grows rest hrest)

end

end Form

/-- Reading a document completes the names that its form defines. -/
theorem grows_of_read {v : Json} {s : Schema} (h : read v space scope = .ok (s, scope')) :
    Grows scope scope' (form v space).mentions := by
  rw [read_eq_read_form] at h
  exact (form v space).grows h

/-! ## Another open record around -/

/-- The names inside one more record, which is around all others. -/
def Scope.under (scope : Scope) (owner : String) : Scope :=
  { scope with pending := scope.pending ++ [owner] }

variable {owner : String}

theorem Scope.resolve_under {full : String} (h : full ≠ owner) :
    (scope.under owner).resolve full = scope.resolve full := by
  simp [Scope.resolve, Scope.under, Scope.lookup, h]

theorem Scope.leave_under {full : String} (h : full ≠ owner) :
    (scope.under owner).leave full = (scope.leave full).under owner := by
  simp [Scope.leave, Scope.under, h.symm]

theorem Scope.resolve_eq_none {full : String} :
    scope.resolve full = none ↔ scope.meaning full = none ∧ full ∉ scope.pending := by
  rw [Scope.meaning_eq_none, Scope.resolve]
  cases scope.lookup full <;> simp

private theorem Grows.resolve_eq_none {ms : List Mention} (h : Grows scope scope' ms)
    (hnew : .definition owner ∉ ms) (hclosed : scope.resolve owner = none) :
    scope'.resolve owner = none := by
  obtain ⟨hmeaning, hopen⟩ := Scope.resolve_eq_none.1 hclosed
  refine Scope.resolve_eq_none.2 ⟨?_, fun hlater => hopen (h.pending owner hlater)⟩
  rw [← Option.not_isSome_iff_eq_none, h.known, hmeaning]
  simp [hnew]

/-- A text that is undotted within its namespace says the same outside. -/
theorem Form.eq_of_qualified {text : String} (h : qualified text space = owner)
    (howner : '.' ∉ owner.toList) : text = owner := by
  have hfull := Name.full_ofFull text
  unfold qualified Name.qualified at h
  cases hown : (Name.ofFull text).space with
  | some own =>
    simp only [hown] at h
    rw [← hfull, h]
  | none =>
    simp only [hown, Name.full] at h hfull
    cases haround : ((none : Option String).or space).filter (· ≠ "") with
    | none =>
      simp only [haround] at h
      rw [← hfull, h]
    | some around =>
      simp only [haround] at h
      exact absurd (by simp [← h]) howner

private theorem Form.resolve_under {text : String} {s : Schema} (howner : '.' ∉ owner.toList)
    (hclosed : scope.resolve owner = none) (h : resolve text space scope = some s) :
    resolve text space (scope.under owner) = some s := by
  have hne : ∀ {full}, scope.resolve full = some s → full ≠ owner := by
    rintro full hfull rfl
    rw [hclosed] at hfull
    cases hfull
  rcases Option.or_eq_some_iff.1 h with hqual | ⟨-, htext⟩
  · rw [resolve, Scope.resolve_under (hne hqual), hqual, Option.some_or]
  · have hqual : qualified text space ≠ owner := fun heq =>
      hne htext (eq_of_qualified heq howner)
    rw [resolve, Scope.resolve_under hqual, Scope.resolve_under (hne htext)]
    exact h

namespace Form

mutual

/-- A form that does not define the name of a record is read inside that record as it is read
outside. -/
theorem read_under (howner : '.' ∉ owner.toList) : (f : Form) → {scope scope' : Scope} →
    {s : Schema} → f.read scope = .ok (s, scope') → .definition owner ∉ f.mentions →
    scope.resolve owner = none → f.read (scope.under owner) = .ok (s, scope'.under owner)
  | .fault _, _, _, _, h, _, _ => (throw_eq_ok.1 h).elim
  | .plain _, _, _, _, h, _, _ => by
    obtain ⟨rfl, rfl⟩ := pure_eq_ok.1 h
    rfl
  | .reference text space, _, _, _, h, _, hclosed => by
    obtain ⟨hs, rfl⟩ := readResolved_eq_ok.1 h
    exact readResolved_eq_ok.2 ⟨resolve_under howner hclosed hs, rfl⟩
  | .array f, _, _, _, h, hnew, hclosed | .map f, _, _, _, h, hnew, hclosed => by
    obtain ⟨s, hf, rfl⟩ := bind_pure_eq_ok.1 h
    exact bind_pure_eq_ok.2 ⟨s, f.read_under howner hf hnew hclosed, rfl⟩
  | .union fs, _, _, _, h, hnew, hclosed => by
    obtain ⟨ss, hfs, rfl⟩ := bind_pure_eq_ok.1 h
    exact bind_pure_eq_ok.2 ⟨ss, readMembers_under howner fs hfs hnew hclosed, rfl⟩
  | .definition n s, _, _, _, h, _, _ => by
    obtain ⟨hacc, rfl, rfl⟩ := register_eq_ok.1 h
    exact register_eq_ok.2 ⟨hacc, rfl, rfl⟩
  | .record n doc fields, scope, _, _, h, hnew, hclosed => by
    obtain ⟨fs, scope₁, hfs, hacc, rfl, rfl⟩ := read_record_eq_ok.1 h
    obtain ⟨hfields, hname⟩ := not_or.1 (mt List.mem_append.2 hnew)
    have hne : n.full ≠ owner := by
      rintro rfl
      exact hname List.mem_cons_self
    have hclosed' : (scope.enter n.full).resolve owner = none := by
      obtain ⟨hmeaning, hopen⟩ := Scope.resolve_eq_none.1 hclosed
      exact Scope.resolve_eq_none.2 ⟨hmeaning, by simp [Scope.enter, hne.symm, hopen]⟩
    refine read_record_eq_ok.2 ⟨fs, scope₁.under owner, ?_, ?_, rfl, ?_⟩
    · exact readFields_under howner fields hfs hfields hclosed'
    · exact hacc
    · rw [Scope.leave_under hne]
      rfl

theorem readMembers_under (howner : '.' ∉ owner.toList) : (fs : List Form) →
    {seen : List String} → {scope scope' : Scope} → {ss : List Schema} →
    readMembers fs seen scope = .ok (ss, scope') → .definition owner ∉ memberMentions fs →
    scope.resolve owner = none →
    readMembers fs seen (scope.under owner) = .ok (ss, scope'.under owner)
  | [], _, _, _, _, h, _, _ => by
    obtain ⟨rfl, rfl⟩ := pure_eq_ok.1 h
    rfl
  | f :: rest, _, _, _, _, h, hnew, hclosed => by
    obtain ⟨s, key, tail, scope₁, hf, hkey, hrest, rfl⟩ := readMembers_cons_eq_ok.1 h
    obtain ⟨hnew₁, hnew₂⟩ := not_or.1 (mt List.mem_append.2 hnew)
    have hclosed' := (f.grows hf).resolve_eq_none hnew₁ hclosed
    exact readMembers_cons_eq_ok.2 ⟨s, key, tail, _, f.read_under howner hf hnew₁ hclosed, hkey,
      readMembers_under howner rest hrest hnew₂ hclosed', rfl⟩

theorem readFields_under (howner : '.' ∉ owner.toList) : (fields : List (Field Form)) →
    {scope scope' : Scope} → {fs : List (Field Schema)} →
    readFields fields scope = .ok (fs, scope') → .definition owner ∉ fieldMentions fields →
    scope.resolve owner = none →
    readFields fields (scope.under owner) = .ok (fs, scope'.under owner)
  | [], _, _, _, h, _, _ => by
    obtain ⟨rfl, rfl⟩ := pure_eq_ok.1 h
    rfl
  | ⟨name, f, default⟩ :: rest, _, _, _, h, hnew, hclosed => by
    obtain ⟨s, tail, scope₁, hf, hrest, rfl⟩ := readFields_cons_eq_ok.1 h
    obtain ⟨hnew₁, hnew₂⟩ := not_or.1 (mt List.mem_append.2 hnew)
    have hclosed' := (f.grows hf).resolve_eq_none hnew₁ hclosed
    exact readFields_cons_eq_ok.2 ⟨s, tail, _, f.read_under howner hf hnew₁ hclosed,
      readFields_under howner rest hrest hnew₂ hclosed', rfl⟩

end

end Form

end Schema
end Restorable
