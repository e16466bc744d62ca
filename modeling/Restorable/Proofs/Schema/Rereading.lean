-- SUMMARY: A parsed schema is read back from its document exactly when its undotted names say themselves.
import Restorable.Proofs.Schema.Growth

/-!
# Rereading parsed schemas

The writer drops namespaces, so an undotted name is qualified again by the record around it.
A name says itself when this does no harm: it is dotted, or no namespace is around, or it was
written before and the qualified text was not. The parsed schema and its document are read
side by side; both keep the same names, and the second reading gives the schema back exactly
when every name says itself.
-/
namespace Restorable

open Steps

/-! ## Names that say themselves -/

/-- The full name of `n` says `n` inside the namespace `space`, after the names `written`. -/
def Name.Said (n : Name) (space : Option String) (written : List String) : Prop :=
  n.space = none → ∀ around, space = some around →
    n.full ∈ written ∧ around ++ "." ++ n.full ∉ written

/-- A name is read from its full name, or the namespace around it takes it. -/
private theorem Name.writable_or_taken {n : Name} {space : Option String} (hn : n.Writable none)
    (hspace : space ≠ some "") :
    n.Writable space ∨ ∃ around, n.space = none ∧ space = some around ∧
      Name.qualified n.full none space = ⟨n.full, some around⟩ := by
  cases hown : n.space with
  | some own =>
    refine .inl ⟨hn.definable, hn.spelled, fun hnone => ?_⟩
    rw [hown] at hnone
    cases hnone
  | none =>
    cases space with
    | none => exact .inl hn
    | some around =>
      refine .inr ⟨around, rfl, rfl, ?_⟩
      have hne : around ≠ "" := fun heq => hspace (heq ▸ rfl)
      have hfull : n.full = n.name := by
        simp only [full, hown]
      unfold qualified
      rw [hn.spelled]
      simp [hown, Option.filter, hne, hfull]

private theorem Name.Writable.said {n : Name} {space : Option String} (hn : n.Writable space)
    (written : List String) : n.Said space written := by
  intro hown around haround
  rw [hn.undotted hown] at haround
  cases haround

namespace Schema

variable {space : Option String} {scope scope' copy : Scope} {written : List String}

mutual

/-- Every name says itself where the writer, which knows the names `written`, writes it. -/
def Spelled (space : Option String) (written : List String) : Schema → Prop
  | .fixed n _ _ | .enum n _ | .ref n => n.Said space written
  | .array s | .map s => s.Spelled space written
  | .union ss => MembersSpelled space written ss
  | .record n _ fs =>
    n.Said space written ∧ (n.full ∉ written → FieldsSpelled n.space (n.full :: written) fs)
  | _ => True

def MembersSpelled (space : Option String) (written : List String) : List Schema → Prop
  | [] => True
  | s :: ss => s.Spelled space written ∧ MembersSpelled space (s.write written).2 ss

def FieldsSpelled (space : Option String) (written : List String) : List (Field Schema) → Prop
  | [] => True
  | ⟨_, s, _⟩ :: fs => s.Spelled space written ∧ FieldsSpelled space (s.write written).2 fs

end

/-! ## Two readings and the writer, side by side -/

/-- The copy knows what the original knows, and the writer has written these names. -/
structure Follows (scope copy : Scope) (written : List String) : Prop where
  meaning : ∀ full, copy.meaning full = scope.meaning full
  pending : ∀ {full}, scope.meaning full = none → (full ∈ copy.pending ↔ full ∈ scope.pending)
  known : ∀ full, full ∈ written ↔ full ∈ scope.pending ∨ (scope.meaning full).isSome = true

namespace Follows

theorem empty : Follows .empty .empty [] := by
  refine ⟨fun _ => rfl, fun _ => Iff.rfl, ?_⟩
  simp [Scope.empty, Scope.meaning, Scope.lookup]

theorem map_resolve (scope : Scope) (full : String) :
    (scope.resolve full).map normal = (scope.meaning full).or
      (if full ∈ scope.pending then some (.ref (.ofFull full)) else none) := by
  unfold Scope.resolve Scope.meaning
  cases scope.lookup full with
  | some s => rfl
  | none =>
    by_cases hopen : full ∈ scope.pending
    · simp only [if_pos hopen]
      rfl
    · simp only [if_neg hopen]
      rfl

/-- A name stands for the same in both readings. -/
theorem resolve_eq (h : Follows scope copy written) (full : String) :
    (copy.resolve full).map normal = (scope.resolve full).map normal := by
  rw [map_resolve, map_resolve, h.meaning full]
  cases hknown : scope.meaning full with
  | some t => rfl
  | none => rw [Option.none_or, Option.none_or, if_congr (h.pending hknown) rfl rfl]

theorem isSome_resolve (h : Follows scope copy written) (full : String) :
    (copy.resolve full).isSome = (scope.resolve full).isSome := by
  have hmap := congrArg Option.isSome (h.resolve_eq full)
  simpa using hmap

theorem mem_written (h : Follows scope copy written) (full : String) :
    full ∈ written ↔ (scope.resolve full).isSome = true := by
  have hsome : (scope.resolve full).isSome = ((scope.resolve full).map normal).isSome := by simp
  rw [h.known full, hsome, map_resolve]
  cases scope.meaning full with
  | some t => simp
  | none => simp

theorem lookup_eq_none (h : Follows scope copy written) {full : String}
    (hnone : scope.meaning full = none) : copy.lookup full = none := by
  rw [← Scope.meaning_eq_none, h.meaning full, hnone]

theorem enter (h : Follows scope copy written) (full : String) :
    Follows (scope.enter full) (copy.enter full) (full :: written) := by
  refine ⟨h.meaning, ?_, ?_⟩
  · intro other hnone
    simp only [Scope.enter, List.mem_cons]
    exact or_congr Iff.rfl (h.pending hnone)
  · intro other
    simp only [Scope.enter, List.mem_cons, or_assoc]
    exact or_congr Iff.rfl (h.known other)

/-- Completing a name in both, with types of one normal form. -/
theorem meaning_complete (h : Follows scope copy written) {full : String} {s t : Schema}
    (heq : t.normal = s.normal) (other : String) :
    (copy.complete full t).meaning other = (scope.complete full s).meaning other := by
  by_cases hother : other = full
  · subst hother
    simp [heq]
  · rw [Scope.meaning_complete_of_ne t hother, Scope.meaning_complete_of_ne s hother,
      h.meaning other]

theorem complete (h : Follows scope copy written) {full : String} {s t : Schema}
    (heq : t.normal = s.normal) :
    Follows (scope.complete full s) (copy.complete full t) (full :: written) := by
  refine ⟨h.meaning_complete heq, ?_, ?_⟩
  · intro other hnone
    have hne := Scope.ne_of_meaning_complete hnone
    rw [Scope.meaning_complete_of_ne s hne] at hnone
    exact h.pending hnone
  · intro other
    by_cases hother : other = full
    · subst hother
      simp
    · rw [Scope.meaning_complete_of_ne s hother, List.mem_cons, or_iff_right hother]
      exact h.known other

/-- Leaving a record in both and completing it. -/
theorem leave (h : Follows scope copy written) {full : String} {s t : Schema}
    (heq : t.normal = s.normal) (hw : full ∈ written) :
    Follows ((scope.leave full).complete full s) ((copy.leave full).complete full t) written := by
  refine ⟨h.meaning_complete heq, ?_, ?_⟩
  · intro other hnone
    have hne := Scope.ne_of_meaning_complete hnone
    rw [Scope.meaning_complete_of_ne s hne] at hnone
    have hopen := h.pending hnone
    simpa [Scope.complete, Scope.leave, hne] using hopen
  · intro other
    by_cases hother : other = full
    · subst hother
      simp [hw]
    · rw [Scope.meaning_complete_of_ne s hother, Scope.meaning_leave, h.known other]
      simp [Scope.complete, Scope.leave, hother]

/-- Reading a definition again in the original only. -/
theorem again (h : Follows scope copy written) {s : Schema} (hreads : Reads scope s scope')
    (hmeaning : ∀ full, scope'.meaning full = scope.meaning full) :
    Follows scope' copy written := by
  have hopen : ∀ {full}, scope.meaning full = none →
      (full ∈ scope'.pending ↔ full ∈ scope.pending) := by
    intro full hnone
    exact hreads.extends.pending ((hmeaning full).trans hnone)
  refine ⟨fun full => (h.meaning full).trans (hmeaning full).symm, ?_, ?_⟩
  · intro full hnone
    rw [hmeaning full] at hnone
    exact (h.pending hnone).trans (hopen hnone).symm
  · intro full
    rw [h.known full, hmeaning full]
    cases hknown : scope.meaning full with
    | some t => simp
    | none => exact or_congr (hopen hknown).symm Iff.rfl

end Follows

/-! ## Steps that are read again -/

/-- A step gives `a` again, up to `norm`, exactly when its names are spelled. What holds
after it is known whenever it gives `a`. -/
structure Rereads {α β : Type} (norm : α → β) (step : Read α) (copy : Scope) (a : α)
    (spelled : Prop) (after : Scope → Prop) : Prop where
  reads : spelled → ∃ b copy', step copy = .ok (b, copy') ∧ norm b = norm a
  follows : ∀ {b copy'}, step copy = .ok (b, copy') → norm b = norm a → spelled ∧ after copy'

namespace Rereads

variable {α β γ δ : Type} {norm : α → β} {norm' : γ → δ} {step : Read α} {a : α} {c : γ}
  {spelled spelled' : Prop} {after after' : Scope → Prop}

/-- A step that is known to give `a`. -/
theorem of_ok {b : α} {copy' : Scope} (h : step copy = .ok (b, copy')) (heq : norm b = norm a)
    (hs : spelled) (hafter : after copy') : Rereads norm step copy a spelled after := by
  refine ⟨fun _ => ⟨b, copy', h, heq⟩, ?_⟩
  intro b' copy'' h' _
  rw [h] at h'
  cases h'
  exact ⟨hs, hafter⟩

/-- A step that is known to give something else. -/
theorem of_ne (hs : ¬ spelled) (h : ∀ {b copy'}, step copy = .ok (b, copy') → norm b ≠ norm a) :
    Rereads norm step copy a spelled after :=
  ⟨fun hspelled => absurd hspelled hs, fun hstep heq => absurd heq (h hstep)⟩

theorem congr {a' : α} (h : Rereads norm step copy a spelled after) (ha : norm a = norm a')
    (hs : spelled ↔ spelled') (hafter : ∀ {copy'}, after copy' → after' copy') :
    Rereads norm step copy a' spelled' after' := by
  constructor
  · intro hspelled
    obtain ⟨b, copy', hstep, heq⟩ := h.reads (hs.2 hspelled)
    exact ⟨b, copy', hstep, heq.trans ha⟩
  · intro b copy' hstep heq
    obtain ⟨hspelled, hb⟩ := h.follows hstep (heq.trans ha.symm)
    exact ⟨hs.1 hspelled, hafter hb⟩

/-- Another step that runs the same way. -/
theorem of_eq {step' : Read α} {copy' : Scope} (h : Rereads norm step' copy' a spelled after)
    (heq : step copy = step' copy') : Rereads norm step copy a spelled after :=
  ⟨fun hspelled => heq ▸ h.reads hspelled, fun hstep => h.follows (heq ▸ hstep)⟩

/-- A step and the step that goes on with its result. -/
theorem bind {next : α → Read γ} (h : Rereads norm step copy a spelled after)
    (hpart : ∀ {b copy' d copy''}, next b copy' = .ok (d, copy'') → norm' d = norm' c →
      norm b = norm a)
    (hnext : ∀ {b copy'}, norm b = norm a → after copy' →
      Rereads norm' (next b) copy' c spelled' after') :
    Rereads norm' (step >>= next) copy c (spelled ∧ spelled') after' := by
  constructor
  · rintro ⟨hs, hs'⟩
    obtain ⟨b, copy', hstep, heq⟩ := h.reads hs
    obtain ⟨d, copy'', hrest, heq'⟩ := (hnext heq (h.follows hstep heq).2).reads hs'
    exact ⟨d, copy'', (bind_of_ok hstep).trans hrest, heq'⟩
  · intro d copy'' hrun heq'
    obtain ⟨b, copy', hstep, hrest⟩ := bind_eq_ok.1 hrun
    have heq := hpart hrest heq'
    obtain ⟨hs, hafter⟩ := h.follows hstep heq
    obtain ⟨hs', hafter'⟩ := (hnext heq hafter).follows hrest heq'
    exact ⟨⟨hs, hs'⟩, hafter'⟩

/-- A step whose result is wrapped. -/
theorem map {f : α → γ} (h : Rereads norm step copy a spelled after)
    (hf : ∀ b, norm' (f b) = norm' (f a) ↔ norm b = norm a) :
    Rereads norm' (do return f (← step)) copy (f a) spelled after := by
  have hall : Rereads norm' (step >>= fun b => pure (f b)) copy (f a) (spelled ∧ True) after := by
    apply bind h
    · intro b copy' d copy'' hpure heq
      obtain ⟨rfl, rfl⟩ := pure_eq_ok.1 hpure
      exact (hf b).1 heq
    · intro b copy' heq hafter
      exact of_ok pure_run ((hf b).2 heq) trivial hafter
  exact hall.congr rfl (iff_of_eq (and_true spelled)) id

end Rereads

/-! ## Primitive types and references -/

private theorem rereads_primitive {s : Schema} (h : s.Primitive) (hf : Follows scope copy written) :
    Rereads normal (read (s.write written).1 space) copy s (s.Spelled space written)
      (Follows scope · (s.write written).2) := by
  have hread : s.Spelled space written ∧ (s.write written).2 = written ∧
      read (s.write written).1 space copy = .ok (s, copy) := by
    cases s with
    | null | boolean | float | double => exact ⟨trivial, rfl, read_word rfl⟩
    | int a | long a | string a | bytes a =>
      refine ⟨trivial, rfl, read_primitiveJson (fun r hr => (h r hr).2) (by decide) ?_⟩
      simp only [primitive?, Refinement.on_of_fits h]
    | _ => exact h.elim
  obtain ⟨hs, hwritten, hread⟩ := hread
  exact .of_ok hread rfl hs (hwritten.symm ▸ hf)

/-- A name inside a namespace where another type has the qualified name is read as that type;
anywhere else it is read as itself. -/
private theorem rereads_reference {n : Name} {s : Schema} (hs : scope.Sound)
    (hspace : space ≠ some "") (hname : s.name? = some n) (h : scope.resolve n.full = some s)
    (hf : Follows scope copy written) :
    Rereads normal (read (.str n.full) space) copy s (n.Said space written)
      (Follows scope · written) := by
  have hn : n.Writable none := by
    obtain ⟨m, hm, -, hwritable⟩ := hs.resolve h
    rw [hname, Option.some.injEq] at hm
    exact hm ▸ hwritable
  obtain ⟨t, ht, heq⟩ : ∃ t, copy.resolve n.full = some t ∧ t.normal = s.normal := by
    have hmap := hf.resolve_eq n.full
    rw [h] at hmap
    exact Option.map_eq_some_iff.1 hmap
  rcases Name.writable_or_taken hn hspace with hw | ⟨around, hown, rfl, hqual⟩
  · exact .of_ok (read_reference hw ht) heq (hw.said written) hf
  · have hread : read (.str n.full) (some around) copy =
        ((copy.resolve (around ++ "." ++ n.full)).or (copy.resolve n.full)).elim
          (.error (.undefinedName n.full)) fun s => .ok (s, copy) := by
      rw [read_str, readReference_eq, Name.primitive?_eq_none hn.definable.2, hqual]
      rfl
    have hw : n.full ∈ written := (hf.mem_written n.full).2 (by rw [h, Option.isSome_some])
    cases htaken : copy.resolve (around ++ "." ++ n.full) with
    | none =>
      rw [htaken, Option.none_or, ht] at hread
      refine .of_ok hread heq ?_ hf
      rintro - _ ⟨rfl⟩
      refine ⟨hw, ?_⟩
      rw [hf.mem_written, ← hf.isSome_resolve, htaken]
      exact Bool.noConfusion
    | some u =>
      rw [htaken, Option.some_or] at hread
      refine .of_ne ?_ ?_
      · intro hsaid
        apply (hsaid hown around rfl).2
        rw [hf.mem_written, ← hf.isSome_resolve, htaken, Option.isSome_some]
      · intro b copy' hstep hnormal
        rw [hread] at hstep
        cases hstep
        -- What has the qualified name is not what has the undotted one.
        obtain ⟨v, hv, hsame⟩ : ∃ v, scope.resolve (around ++ "." ++ n.full) = some v ∧
            v.normal = u.normal := by
          have hmap := hf.resolve_eq (around ++ "." ++ n.full)
          rw [htaken] at hmap
          exact Option.map_eq_some_iff.1 hmap.symm
        obtain ⟨m, hm, hfull, -⟩ := hs.resolve hv
        rw [name?_eq_of_normal (hsame.trans hnormal), hname, Option.some.injEq] at hm
        have hlength := congrArg String.length (hm ▸ hfull)
        simp only [String.length_append] at hlength
        have hdot : ".".length = 1 := rfl
        omega

/-! ## Definitions -/

/-- An object that defines a type by the full name of `n`, without a namespace beside it. -/
def Defines (v : Json) (n : Name) : Prop :=
  ∃ attrs, v = .obj attrs ∧
    (∃ word ∈ ["record", "enum", "fixed"], Json.find? "type" attrs = some (.str word)) ∧
    Json.find? "name" attrs = some (.str n.full) ∧ Json.find? "namespace" attrs = none

private theorem defines_enumJson (n : Name) (symbols : List String) :
    Defines (enumJson n symbols) n :=
  ⟨_, rfl, ⟨"enum", by simp, by simp [Json.find?]⟩, by simp [Json.find?], by simp [Json.find?]⟩

private theorem defines_fixedJson (n : Name) (size : UInt64) (a : Option Refinement) :
    Defines (fixedJson n size a) n := by
  refine ⟨_, rfl, ⟨"fixed", by simp, ?_⟩, ?_, ?_⟩
  all_goals cases a with
    | none => simp [Json.find?]
    | some r => cases r <;> simp [refinementAttr, decimalAttrs, Json.find?]

private theorem defines_recordJson (n : Name) (doc : Option String) (items : List Json) :
    Defines (recordJson n doc items) n := by
  refine ⟨_, rfl, ⟨"record", by simp, ?_⟩, ?_, ?_⟩ <;> cases doc <;> simp [Json.find?]

/-- A type that an object defines has its name as it is qualified around the object. -/
private theorem name?_of_defines {v : Json} {n : Name} {t : Schema} {copy' : Scope}
    (hv : Defines v n) (h : read v space copy = .ok (t, copy')) :
    t.name? = some (Name.qualified n.full none space) := by
  obtain ⟨attrs, rfl, ⟨word, hword, htype⟩, hname, hspace⟩ := hv
  have hread : ∀ {m}, readName attrs space = .ok m → m = Name.qualified n.full none space := by
    intro m hn
    simp only [readName, hname, hspace, Option.bind_some, Option.bind_none, Json.str?] at hn
    split at hn
    · cases hn
    · split at hn
      · cases hn
      · cases hn
        rfl
  rw [read_obj, htype] at h
  obtain ⟨a, copy₁, hlift, h⟩ := bind_eq_ok.1 h
  obtain ⟨-, rfl⟩ := lift_eq_ok.1 hlift
  simp only [List.mem_cons, List.not_mem_nil, or_false] at hword
  rcases hword with rfl | rfl | rfl
  · obtain ⟨m, doc, items, fs, copy₁, hn, -, -, h⟩ := readRecord_eq_ok h
    obtain ⟨-, rfl, -⟩ := register_eq_ok.1 h
    exact congrArg some (hread hn)
  · obtain ⟨m, symbols, hn, h⟩ := readEnum_eq_ok h
    obtain ⟨-, rfl, -⟩ := register_eq_ok.1 h
    exact congrArg some (hread hn)
  · obtain ⟨m, size, hn, -, -, h⟩ := readFixed_eq_ok h
    obtain ⟨-, rfl, -⟩ := register_eq_ok.1 h
    exact congrArg some (hread hn)

/-- A named type is read again as a reference where it was written, and as a definition where
it is new; a definition inside a namespace that takes the name is another type. -/
private theorem rereads_writeNamed {n : Name} {s : Schema} {body : Write Json} {inner : Prop}
    (hs : scope.Sound) (hspace : space ≠ some "") (hname : s.name? = some n)
    (hn : n.Writable none) (hreads : Reads scope s scope')
    (hself : scope'.meaning n.full = some s.normal)
    (hopen : n.full ∈ scope.pending → scope.meaning n.full ≠ none)
    (hf : Follows scope copy written)
    (hdef : scope.meaning n.full = none → n.Writable space →
      Rereads normal (read (body (n.full :: written)).1 space) copy s inner
        (Follows scope' · (body (n.full :: written)).2))
    (hdefines : Defines (body (n.full :: written)).1 n) :
    Rereads normal (read (writeNamed n body written).1 space) copy s
      (n.Said space written ∧ (n.full ∉ written → inner))
      (Follows scope' · (writeNamed n body written).2) := by
  by_cases hw : n.full ∈ written
  · have hknown : scope.meaning n.full = some s.normal := by
      cases hold : scope.meaning n.full with
      | none =>
        rcases (hf.known n.full).1 hw with hpending | hsome
        · exact absurd hold (hopen hpending)
        · rw [hold] at hsome
          cases hsome
      | some t => rw [← hreads.extends.keeps hold, hself]
    obtain ⟨known, hlookup, heq⟩ := Option.map_eq_some_iff.1 hknown
    have hresolve : scope.resolve n.full = some known := by
      simp only [Scope.resolve, hlookup]
    have hknownName : known.name? = some n := (name?_eq_of_normal heq).trans hname
    rw [writeNamed_known hw]
    refine (rereads_reference hs hspace hknownName hresolve hf).congr heq ?_ ?_
    · exact ⟨fun hsaid => ⟨hsaid, fun hnew => absurd hw hnew⟩, And.left⟩
    · intro copy' hf'
      exact hf'.again hreads (hreads.meaning_eq hs hknown)
  · have hnone : scope.meaning n.full = none := by
      rw [← Option.not_isSome_iff_eq_none]
      exact fun hsome => hw ((hf.known n.full).2 (.inr hsome))
    rw [writeNamed_new hw]
    rcases Name.writable_or_taken hn hspace with hwritable | ⟨around, hown, haround, hqual⟩
    · refine (hdef hnone hwritable).congr rfl ?_ id
      exact ⟨fun h => ⟨hwritable.said written, fun _ => h⟩, fun h => h.2 hw⟩
    · refine .of_ne ?_ ?_
      · rintro ⟨hsaid, -⟩
        exact hw (hsaid hown around haround).1
      · intro t copy' hstep heq
        have hother := name?_of_defines hdefines hstep
        rw [name?_eq_of_normal heq, hname, hqual, Option.some.injEq] at hother
        rw [hother] at hown
        cases hown

/-! ## Whole schemas -/

/-- The open records that are not complete before are not complete later. -/
def Stays (scope scope' : Scope) : Prop :=
  ∀ {full}, full ∈ scope.pending → scope.meaning full = none → scope'.meaning full = none

theorem Stays.first {scope₁ : Scope} {ds : List (String × Schema)} (h : Stays scope scope')
    (hrest : Extends scope₁ scope' ds) : Stays scope scope₁ :=
  fun hopen hnone => hrest.none_of_none (h hopen hnone)

theorem Stays.rest {scope₁ : Scope} {ds : List (String × Schema)} (h : Stays scope scope')
    (hfirst : Extends scope scope₁ ds) : Stays scope₁ scope' :=
  fun hopen hnone => h ((hfirst.pending hnone).1 hopen) (hfirst.none_of_none hnone)

/-- A name that is complete later was complete before, if it was open. -/
private theorem Stays.ne_none {full : String} {t : Schema} (h : Stays scope scope')
    (hlater : scope'.meaning full = some t) (hopen : full ∈ scope.pending) :
    scope.meaning full ≠ none := by
  intro hnone
  rw [h hopen hnone] at hlater
  cases hlater

/-- A named type that was written before is written by its name. -/
private theorem write_known {s : Schema} {n : Name} (hname : s.name? = some n)
    (hw : n.full ∈ written) :
    s.write written = (.str n.full, written) := by
  cases s <;> cases hname <;> first | rfl | exact writeNamed_known hw

private theorem spelled_known {s : Schema} {n : Name} (hname : s.name? = some n)
    (hw : n.full ∈ written) :
    s.Spelled space written ↔ n.Said space written := by
  cases s <;> cases hname <;> first | exact Iff.rfl | exact and_iff_left fun h => absurd hw h

/-- A definition without parts, which is read up to its registration. -/
private theorem rereads_definition {n : Name} {s : Schema} {json : Json} (hs : scope.Sound)
    (hspace : space ≠ some "") (hname : s.name? = some n) (hn : n.Writable none)
    (hreads : Reads scope s (scope.complete n.full s))
    (hstays : Stays scope (scope.complete n.full s)) (hf : Follows scope copy written)
    (hdef : n.Writable space → read json space copy = register n s copy)
    (hdefines : Defines json n) :
    Rereads normal (read (writeNamed n (return json) written).1 space) copy s
      (n.Said space written)
      (Follows (scope.complete n.full s) · (writeNamed n (return json) written).2) := by
  have hself : (scope.complete n.full s).meaning n.full = some s.normal :=
    Scope.meaning_complete_self n.full s
  have hnew : scope.meaning n.full = none → n.Writable space →
      Rereads normal (read json space) copy s True
        (Follows (scope.complete n.full s) · (n.full :: written)) := by
    intro hnone hw
    have hlookup := hf.lookup_eq_none hnone
    exact .of_ok ((hdef hw).trans (register_new hlookup)) rfl trivial (hf.complete rfl)
  refine (rereads_writeNamed hs hspace hname hn hreads hself (hstays.ne_none hself) hf
    hnew hdefines).congr rfl ?_ id
  exact and_iff_left fun _ => trivial

/-- A record whose fields are read again; its name was open while they were. -/
private theorem rereads_recordJson {n : Name} {doc : Option String} {items : List Json}
    {fs : List (Field Schema)} {spelled : Prop} (hw : n.Writable space)
    (hnone : scope'.meaning n.full = none) (hopen : n.full ∈ scope'.pending)
    (h : Rereads normalFields (readFields items n []) (copy.enter n.full) fs spelled
      (Follows scope' · written)) :
    Rereads normal (read (recordJson n doc items) space) copy (.record n doc fs) spelled
      (Follows ((scope'.leave n.full).complete n.full (.record n doc fs)) · written) := by
  have hbody : Rereads normal
      (do
        let fs' ← readFields items n []
        modify (·.leave n.full)
        register n (.record n doc fs'))
      (copy.enter n.full) (.record n doc fs) (spelled ∧ True)
      (Follows ((scope'.leave n.full).complete n.full (.record n doc fs)) · written) := by
    apply Rereads.bind h
    · intro fs' copy₁ t copy' hstep heq
      obtain ⟨-, rfl, -⟩ := register_eq_ok.1 hstep
      exact (Schema.record.inj heq).2.2
    · intro fs' copy₁ heq hf
      have hlookup : (copy₁.leave n.full).lookup n.full = none := hf.lookup_eq_none hnone
      have hnormal : (Schema.record n doc fs').normal = (Schema.record n doc fs).normal := by
        rw [normal, normal, heq]
      exact .of_ok (register_new hlookup) hnormal trivial
        (hf.leave hnormal ((hf.known n.full).2 (.inl hopen)))
  exact (hbody.congr rfl (iff_of_eq (and_true spelled)) id).of_eq (read_recordJson hw)

mutual

/-- What is written of a schema that was read is read again, side by side with the reading. -/
theorem Reads.rereads {scope scope' : Scope} {s : Schema} : Reads scope s scope' →
    {space : Option String} → {copy : Scope} → {written : List String} → scope.Sound →
    space ≠ some "" → Stays scope scope' → Follows scope copy written →
    Rereads normal (read (s.write written).1 space) copy s (s.Spelled space written)
      (Follows scope' · (s.write written).2)
  | .primitive h, _, _, _, _, _, _, hf => rereads_primitive h hf
  | @Reads.reference scope full s h, space, copy, written, hs, hspace, _, hf => by
    obtain ⟨n, hname, rfl, -⟩ := hs.resolve h
    have hw : n.full ∈ written := (hf.mem_written n.full).2 (by rw [h, Option.isSome_some])
    rw [write_known hname hw]
    exact (rereads_reference hs hspace hname h hf).congr rfl (spelled_known hname hw).symm id
  | @Reads.enum scope n symbols hn hacc, space, copy, written, hs, hspace, hstays, hf => by
    refine rereads_definition hs hspace rfl hn (.enum hn hacc) hstays hf ?_ ?_
    · exact read_enumJson
    · exact defines_enumJson n symbols
  | @Reads.fixed scope n size a hn hfits hsize hcheck hacc, space, copy, written, hs, hspace,
      hstays, hf => by
    refine rereads_definition hs hspace rfl hn (.fixed hn hfits hsize hcheck hacc) hstays hf ?_ ?_
    · intro hw
      exact read_fixedJson hw hfits hsize hcheck
    · exact defines_fixedJson n size a
  | .array h, space, copy, written, hs, hspace, hstays, hf => by
    refine .of_eq (.map (h.rereads hs hspace hstays hf) ?_) (read_arrayJson _ _ _)
    intro t
    simp only [normal, Schema.array.injEq]
  | .map h, space, copy, written, hs, hspace, hstays, hf => by
    refine .of_eq (.map (h.rereads hs hspace hstays hf) ?_) (read_mapJson _ _ _)
    intro t
    simp only [normal, Schema.map.injEq]
  | @Reads.union scope ss scope' hne h, space, copy, written, hs, hspace, hstays, hf => by
    have hitems : (writeMembers ss written).1 ≠ [] := by
      cases ss with
      | nil => exact absurd rfl hne
      | cons s ss => exact List.cons_ne_nil _ _
    refine .of_eq (.map (h.rereads hs hspace hstays hf) ?_) (read_unionJson hitems _ _)
    intro ts
    simp only [normal, Schema.union.injEq]
  | @Reads.record scope n doc fs scope' hn h hacc, space, copy, written, hs, hspace, hstays,
      hf => by
    have hreads : Reads scope (.record n doc fs) _ := .record hn h hacc
    have hself : ((scope'.leave n.full).complete n.full (.record n doc fs)).meaning n.full =
        some (Schema.record n doc fs).normal := Scope.meaning_complete_self n.full _
    refine rereads_writeNamed hs hspace rfl hn hreads hself (hstays.ne_none hself) hf ?_ ?_
    · intro hnone hw
      have hinner : scope'.meaning n.full = none := h.meaning_eq_none hacc hnone
      have hstays' : Stays (scope.enter n.full) scope' := by
        intro full hopen hnone'
        rcases List.mem_cons.1 hopen with rfl | hopen
        · exact hinner
        · exact (Extends.complete hacc).none_of_none (hstays hopen hnone')
      have hopen : n.full ∈ scope'.pending := (h.extends.pending hinner).2 List.mem_cons_self
      exact rereads_recordJson hw hinner hopen
        (h.rereads (hs.enter hn) hn.space_ne hstays' (hf.enter n.full))
    · exact defines_recordJson n doc _

theorem ReadsMembers.rereads {seen : List String} {scope scope' : Scope} {ss : List Schema} :
    ReadsMembers seen scope ss scope' → {space : Option String} → {copy : Scope} →
    {written : List String} → scope.Sound → space ≠ some "" → Stays scope scope' →
    Follows scope copy written →
    Rereads normalMembers (readMembers (writeMembers ss written).1 space seen) copy ss
      (MembersSpelled space written ss) (Follows scope' · (writeMembers ss written).2)
  | .nil, _, _, _, _, _, _, hf => .of_ok pure_run rfl trivial hf
  | @ReadsMembers.cons seen scope s scope₁ ss scope' h hu hkey hrest, space, copy, written, hs,
      hspace, hstays, hf => by
    have hhead := h.rereads hs hspace (hstays.first hrest.extends) hf
    rw [writeMembers_cons]
    refine .of_eq (.bind hhead ?_ ?_) (congrFun (readMembers_step _ _ _ _) copy)
    · intro t copy₁ ts copy' hstep heq
      obtain ⟨key, copy₂, -, hstep⟩ := bind_eq_ok.1 hstep
      obtain ⟨us, copy₃, -, hstep⟩ := bind_eq_ok.1 hstep
      obtain ⟨rfl, -⟩ := pure_eq_ok.1 hstep
      exact (List.cons.inj heq).1
    · intro t copy₁ heq hf₁
      have htail := hrest.rereads (h.sound hs).1 hspace (hstays.rest h.extends) hf₁
      have hcheck : checkMember t seen = .ok s.memberKey :=
        checkMember_eq_ok.2 ⟨isUnion_eq_of_normal heq ▸ hu, memberKey_eq_of_normal heq ▸ hkey,
          memberKey_eq_of_normal heq⟩
      refine .of_eq (.congr (.map htail ?_) ?_ Iff.rfl id) (bind_of_ok (lift_of_ok hcheck))
      · intro ts
        simp only [normalMembers, List.cons.injEq, true_and]
      · rw [normalMembers, normalMembers, heq]

theorem ReadsFields.rereads {seen : List String} {scope scope' : Scope}
    {fs : List (Field Schema)} : ReadsFields seen scope fs scope' → {owner : Name} →
    {copy : Scope} → {written : List String} → scope.Sound → owner.space ≠ some "" →
    Stays scope scope' → Follows scope copy written →
    Rereads normalFields (readFields (writeFields fs written).1 owner seen) copy fs
      (FieldsSpelled owner.space written fs) (Follows scope' · (writeFields fs written).2)
  | .nil, _, _, _, _, _, _, hf => .of_ok pure_run rfl trivial hf
  | @ReadsFields.cons seen scope name s default scope₁ fs scope' hident hname h hrest, owner,
      copy, written, hs, hspace, hstays, hf => by
    have hhead := h.rereads hs hspace (hstays.first hrest.extends) hf
    rw [writeFields_cons]
    refine .of_eq (.bind hhead ?_ ?_) (readFields_fieldJson hident hname)
    · intro t copy₁ gs copy' hstep heq
      obtain ⟨us, copy₂, -, hstep⟩ := bind_eq_ok.1 hstep
      obtain ⟨rfl, -⟩ := pure_eq_ok.1 hstep
      exact (Field.mk.inj (List.cons.inj heq).1).2.1
    · intro t copy₁ heq hf₁
      have htail := hrest.rereads (h.sound hs).1 hspace (hstays.rest h.extends) hf₁
      refine .congr (.map htail ?_) ?_ Iff.rfl id
      · intro gs
        simp only [normalFields, List.cons.injEq, true_and]
      · rw [normalFields, normalFields, heq]

end

/-- A parsed schema is read back from its document exactly when its names say themselves. -/
theorem ofJson?_toJson_iff_spelled {v : Json} {s : Schema} (h : ofJson? v = .ok s) :
    (∃ t, ofJson? s.toJson = .ok t ∧ s.same t = true) ↔ s.Spelled none [] := by
  obtain ⟨scope, hreads⟩ := reads_of_ofJson? h
  have hspace : (none : Option String) ≠ some "" := by
    intro heq
    cases heq
  have hstays : Stays .empty scope := fun hopen => absurd hopen List.not_mem_nil
  have hagain := hreads.rereads Scope.sound_empty hspace hstays Follows.empty
  constructor
  · rintro ⟨t, ht, hsame⟩
    obtain ⟨copy', hread⟩ := ofJson?_eq_ok.1 ht
    exact (hagain.follows hread ((same_iff_normal s t).1 hsame).symm).1
  · intro hspelled
    obtain ⟨t, copy', hread, heq⟩ := hagain.reads hspelled
    exact ⟨t, ofJson?_eq_ok.2 ⟨copy', hread⟩, (same_iff_normal s t).2 heq.symm⟩

/-- A record in a namespace whose fields have the type of an enum outside of namespaces, which
stands before it, and of the record itself. -/
theorem ofJson?_toJson_iff_spelled_list :
    ∃ v s, ofJson? v = .ok s ∧ ∃ t, ofJson? s.toJson = .ok t ∧ s.same t = true := by
  let colour : Schema := .enum ⟨"Colour", none⟩ ["RED"]
  let list : Schema := .record ⟨"List", some "a"⟩ none
    [⟨"head", colour, none⟩, ⟨"tail", .union [.null, .ref ⟨"List", some "a"⟩], none⟩]
  let v : Json := .arr [
    .obj [("type", .str "enum"), ("name", .str "Colour"), ("symbols", .arr [.str "RED"])],
    .obj [("type", .str "record"), ("name", .str "List"), ("namespace", .str "a"),
      ("fields", .arr [
        .obj [("name", .str "head"), ("type", .str "Colour")],
        .obj [("name", .str "tail"), ("type", .arr [.str "null", .str "List"])]])]]
  have hread : ofJson? v = .ok (.union [colour, list]) := by rfl
  have hcolour : Name.Said ⟨"Colour", none⟩ (some "a") ["a.List", "Colour"] := by
    rintro - _ ⟨rfl⟩
    decide
  have hlist : ∀ written, Name.Said ⟨"List", some "a"⟩ (some "a") written := by
    intro written hown
    cases hown
  have hspelled : (Schema.union [colour, list]).Spelled none [] := by
    refine ⟨?_, ⟨?_, fun _ => ⟨hcolour, ⟨trivial, hlist _, trivial⟩, trivial⟩⟩, trivial⟩
    · rintro - _ ⟨⟩
    · rintro ⟨⟩
  exact ⟨v, _, hread, (ofJson?_toJson_iff_spelled hread).2 hspelled⟩

/-- An enum that an empty namespace takes out of the namespace around it is written with the
same text as one inside it, and is read as that one. -/
theorem ofJson?_toJson_empty_namespace :
    ∃ v s, ofJson? v = .ok s ∧ ¬ ∃ t, ofJson? s.toJson = .ok t ∧ s.same t = true := by
  let outside : Schema := .record ⟨"R", some "a"⟩ none [⟨"x", .enum ⟨"E", none⟩ [], none⟩]
  let inside : Schema := .record ⟨"R", some "a"⟩ none [⟨"x", .enum ⟨"E", some "a"⟩ [], none⟩]
  let v : Json := .obj [("type", .str "record"), ("name", .str "a.R"), ("fields", .arr [
    .obj [("name", .str "x"), ("type", .obj [("type", .str "enum"), ("name", .str "E"),
      ("namespace", .str ""), ("symbols", .arr [])])]])]
  have hread : ofJson? v = .ok outside := by rfl
  have hagain : ofJson? outside.toJson = .ok inside := by rfl
  refine ⟨v, outside, hread, ?_⟩
  rintro ⟨t, ht, hsame⟩
  rw [hagain] at ht
  cases ht
  exact absurd hsame (by decide)

end Schema
end Restorable
