-- SUMMARY: A legal schema whose names have one meaning each is read back from its document.
import Restorable.Proofs.Schema.Attributes

/-!
# Reading schemas back

The writer knows the full names that it wrote; the reader knows completed types and open
records. The two match while a name is known to one exactly when it is known to the
other. A schema that is written and read again keeps them matching, so that a name which
the writer leaves out of a definition is one that the reader can resolve.
-/
namespace Restorable
namespace Schema

open Steps

variable {table : String → Option Schema}

/-! ## The writer and the reader side by side -/

/-- The names written so far are those known to the reader, which knows completed types
by their meaning and open records by their name alone. -/
structure Matches (table : String → Option Schema) (written : List String) (scope : Scope) :
    Prop where
  meaning : ∀ full s, scope.lookup full = some s → table full = some s
  known : ∀ full, full ∈ written ↔ full ∈ scope.pending ∨ (scope.lookup full).isSome = true
  incomplete : ∀ full ∈ scope.pending, scope.lookup full = none

private theorem matches_empty : Matches table [] .empty := by
  refine ⟨?_, ?_, ?_⟩ <;> simp [Scope.empty, Scope.lookup]

/-- A step reads `a` and keeps the open records, and the reader then knows `written`. -/
def Recovers {α : Type} (table : String → Option Schema) (step : Read α) (scope : Scope) (a : α)
    (written : List String) : Prop :=
  ∃ scope', step scope = .ok (a, scope') ∧ Matches table written scope' ∧
    scope'.pending = scope.pending

private theorem recovers_pure {α : Type} {step : Read α} {scope : Scope} {a : α}
    {written : List String} (h : step scope = .ok (a, scope)) (hm : Matches table written scope) :
    Recovers table step scope a written :=
  ⟨scope, h, hm, rfl⟩

/-! ## Names -/

/-- A reference inside its record is read as a reference. -/
private theorem resolve_pending {n : Name} {space : Option String} {written : List String}
    {scope : Scope} (hm : Matches table written scope) (hn : n.Writable space)
    (ho : n.full ∈ scope.pending) :
    scope.resolve n.full = some (.ref n) := by
  simp only [Scope.resolve, hm.incomplete _ ho, if_pos ho, hn.spelled]

/-- A name that was written and is not open stands for its meaning. -/
private theorem resolve_written {full : String} {s : Schema} {written : List String} {scope : Scope}
    (hm : Matches table written scope) (hs : table full = some s) (hw : full ∈ written)
    (ho : full ∉ scope.pending) : scope.resolve full = some s := by
  have hsome := ((hm.known full).1 hw).resolve_left ho
  obtain ⟨s', hs'⟩ := Option.isSome_iff_exists.1 hsome
  have hmean := hm.meaning full s' hs'
  rw [hs] at hmean
  cases hmean
  simp only [Scope.resolve, hs']

private theorem lookup_eq_none {full : String} {written : List String} {scope : Scope}
    (hm : Matches table written scope) (hw : full ∉ written) : scope.lookup full = none := by
  rw [← Option.not_isSome_iff_eq_none]
  exact fun h => hw ((hm.known full).2 (.inr h))

/-! ## Definitions -/

/-- Add a completed type. -/
def Scope.complete (scope : Scope) (full : String) (s : Schema) : Scope :=
  { scope with named := (full, s) :: scope.named }

@[simp] theorem Scope.lookup_complete_self (scope : Scope) (full : String) (s : Schema) :
    (scope.complete full s).lookup full = some s := by
  simp only [Scope.complete, Scope.lookup, List.lookup_cons_self]

theorem Scope.lookup_complete_of_ne (scope : Scope) {full other : String} (s : Schema)
    (h : other ≠ full) : (scope.complete full s).lookup other = scope.lookup other := by
  simp only [Scope.complete, Scope.lookup, List.lookup_cons, beq_eq_false_iff_ne.2 h]

/-- Completing a type keeps the meanings of names. -/
private theorem meaning_complete {full : String} {s : Schema} {scope : Scope}
    (hm : ∀ full s, scope.lookup full = some s → table full = some s)
    (hs : table full = some s) {other : String} {t : Schema}
    (h : (scope.complete full s).lookup other = some t) : table other = some t := by
  by_cases heq : other = full
  · subst heq
    rw [Scope.lookup_complete_self] at h
    rw [hs, h]
  · rw [Scope.lookup_complete_of_ne scope s heq] at h
    exact hm other t h

/-- Completing a type outside the open records. -/
private theorem matches_complete {full : String} {s : Schema} {written : List String}
    {scope : Scope} (hm : Matches table written scope) (hs : table full = some s)
    (ho : full ∉ scope.pending) :
    Matches table (full :: written) (scope.complete full s) := by
  refine ⟨fun other t => meaning_complete hm.meaning hs, ?_, ?_⟩
  · intro other
    have hk := hm.known other
    by_cases heq : other = full
    · subst heq
      simp
    · rw [Scope.lookup_complete_of_ne scope s heq, List.mem_cons, or_iff_right heq]
      exact hk
  · intro other hopen
    have hne : other ≠ full := by
      rintro rfl
      exact ho hopen
    rw [Scope.lookup_complete_of_ne scope s hne]
    exact hm.incomplete other hopen

/-- Entering a record that is new. -/
private theorem matches_enter {full : String} {written : List String} {scope : Scope}
    (hm : Matches table written scope) (hw : full ∉ written) :
    Matches table (full :: written) (scope.enter full) := by
  refine ⟨hm.meaning, ?_, ?_⟩
  · intro other
    have hk := hm.known other
    simp only [Scope.enter, List.mem_cons, or_assoc]
    exact or_congr Iff.rfl hk
  · intro other hopen
    rcases List.mem_cons.1 hopen with rfl | hopen
    · change scope.lookup other = none
      exact lookup_eq_none hm hw
    · exact hm.incomplete other hopen

private theorem pending_leave {full : String} {scope : Scope} {around : List String}
    (ho : scope.pending = full :: around) (hnew : full ∉ around) :
    (scope.leave full).pending = around := by
  have hkeep : ∀ other ∈ around, decide (other ≠ full) = true := by
    intro other hmem
    simp only [decide_eq_true_eq]
    rintro rfl
    exact hnew hmem
  simp only [Scope.leave, ho, List.filter_cons]
  simpa using List.filter_eq_self.2 hkeep

/-- Leaving the innermost open record and completing it. -/
private theorem matches_leave {full : String} {s : Schema} {written : List String} {scope : Scope}
    {around : List String} (hm : Matches table written scope) (hs : table full = some s)
    (ho : scope.pending = full :: around) (hnew : full ∉ around) :
    Matches table written ((scope.leave full).complete full s) := by
  have hpending : ((scope.leave full).complete full s).pending = around := pending_leave ho hnew
  have hlookup : ∀ other, other ≠ full →
      ((scope.leave full).complete full s).lookup other = scope.lookup other :=
    fun other hne => Scope.lookup_complete_of_ne (scope.leave full) s hne
  have hmeaning : ∀ other t, (scope.leave full).lookup other = some t → table other = some t :=
    hm.meaning
  refine ⟨fun other t => meaning_complete hmeaning hs, ?_, ?_⟩
  · intro other
    have hk := hm.known other
    rw [ho, List.mem_cons] at hk
    rw [hpending]
    by_cases heq : other = full
    · subst heq
      simp only [Scope.lookup_complete_self, Option.isSome_some, or_true, iff_true]
      exact hk.2 (.inl (.inl rfl))
    · rw [hlookup other heq, hk, or_iff_right heq]
  · intro other hopen
    rw [hpending] at hopen
    have hne : other ≠ full := by
      rintro rfl
      exact hnew hopen
    rw [hlookup other hne]
    apply hm.incomplete
    rw [ho]
    exact List.mem_cons_of_mem full hopen

/-- A definition recovers where its body is read up to its registration. -/
private theorem recovers_register {n : Name} {s : Schema} {scope : Scope} {written : List String}
    {step : Read Schema} {scope₁ : Scope} (h : step scope = register n s scope₁)
    (hnew : scope₁.lookup n.full = none)
    (hm : Matches table written (scope₁.complete n.full s))
    (ho : scope₁.pending = scope.pending) : Recovers table step scope s written :=
  ⟨scope₁.complete n.full s, h.trans (register_new hnew), hm, ho⟩

/-! ## Named types -/

theorem writeNamed_known {n : Name} {body : Write Json} {written : List String}
    (h : n.full ∈ written) : writeNamed n body written = (.str n.full, written) := by
  change (if n.full ∈ written then _ else _ : Write Json) written = _
  rw [if_pos h]
  rfl

theorem writeNamed_new {n : Name} {body : Write Json} {written : List String}
    (h : n.full ∉ written) : writeNamed n body written = body (n.full :: written) := by
  change (if n.full ∈ written then _ else _ : Write Json) written = _
  rw [if_neg h]
  rfl

/-- A named type recovers when its definition does: an earlier one is resolved. -/
private theorem recovers_writeNamed {n : Name} {s : Schema} {space : Option String} {scope : Scope}
    {written : List String} {body : Write Json} (hn : n.Writable space)
    (hs : table n.full = some s) (ho : n.full ∉ scope.pending)
    (hm : Matches table written scope)
    (hbody : n.full ∉ written → Recovers table (read (body (n.full :: written)).1 space) scope s
      (body (n.full :: written)).2) :
    Recovers table (read (writeNamed n body written).1 space) scope s
      (writeNamed n body written).2 := by
  by_cases hw : n.full ∈ written
  · rw [writeNamed_known hw]
    exact recovers_pure (read_reference hn (resolve_written hm hs hw ho)) hm
  · rw [writeNamed_new hw]
    exact hbody hw

/-- A named type without parts recovers when its object is read up to its registration. -/
private theorem recovers_definition {n : Name} {s : Schema} {space : Option String} {scope : Scope}
    {written : List String} {json : Json} (hn : n.Writable space) (hs : table n.full = some s)
    (ho : n.full ∉ scope.pending) (hm : Matches table written scope)
    (h : read json space scope = register n s scope) :
    Recovers table (read (writeNamed n (return json) written).1 space) scope s
      (writeNamed n (return json) written).2 := by
  apply recovers_writeNamed hn hs ho hm
  intro hw
  exact recovers_register h (lookup_eq_none hm hw) (matches_complete hm hs ho) rfl

/-- A primitive type recovers when its annotation fits. -/
private theorem recovers_primitive {word : String} {a : Option Refinement} {p : Physical}
    {s : Schema} {space : Option String} {scope : Scope} {written : List String}
    (ha : Refinement.Fits a p) (hw : word ∉ ["record", "error", "enum", "fixed", "array", "map"])
    (h : primitive? word a = some s) (hm : Matches table written scope) :
    Recovers table (read (primitiveJson word a) space) scope s written :=
  recovers_pure (read_primitiveJson (fun r hr => (ha r hr).2) hw h) hm

/-! ## Whole schemas -/

theorem writeMembers_cons (s : Schema) (ss : List Schema) (written : List String) :
    writeMembers (s :: ss) written =
      ((s.write written).1 :: (writeMembers ss (s.write written).2).1,
        (writeMembers ss (s.write written).2).2) := rfl

theorem writeFields_cons (name : String) (s : Schema) (default : Option Json)
    (fs : List (Field Schema)) (written : List String) :
    writeFields (⟨name, s, default⟩ :: fs) written =
      (fieldJson name (s.write written).1 default :: (writeFields fs (s.write written).2).1,
        (writeFields fs (s.write written).2).2) := rfl

mutual

/-- What is written of a legal schema is read as the schema. -/
theorem recovers_write (table : String → Option Schema) : (s : Schema) →
    (space : Option String) → (scope : Scope) → (written : List String) →
    s.Legal space scope.pending → Agrees table s.types → (∀ d ∈ s.types, d.1 ∉ scope.pending) →
    Matches table written scope →
    Recovers table (read (s.write written).1 space) scope s (s.write written).2
  | .null, _, _, _, _, _, _, hm | .boolean, _, _, _, _, _, _, hm
  | .float, _, _, _, _, _, _, hm | .double, _, _, _, _, _, _, hm =>
    recovers_pure (read_word rfl) hm
  | .int a, _, _, _, hl, _, _, hm => by
    refine recovers_primitive hl (by decide) ?_ hm
    simp only [primitive?, Refinement.on_of_fits hl]
  | .long a, _, _, _, hl, _, _, hm => by
    refine recovers_primitive hl (by decide) ?_ hm
    simp only [primitive?, Refinement.on_of_fits hl]
  | .string a, _, _, _, hl, _, _, hm => by
    refine recovers_primitive hl (by decide) ?_ hm
    simp only [primitive?, Refinement.on_of_fits hl]
  | .bytes a, _, _, _, hl, _, _, hm => by
    refine recovers_primitive hl (by decide) ?_ hm
    simp only [primitive?, Refinement.on_of_fits hl]
  | .ref n, space, scope, written, hl, _, _, hm => by
    obtain ⟨hn, ho⟩ := hl
    exact recovers_pure (read_reference hn (resolve_pending hm hn ho)) hm
  | .enum n symbols, space, scope, written, hl, ht, ha, hm => by
    have hs := (agrees_cons.1 ht).1
    have ho := ha _ (List.mem_singleton_self _)
    exact recovers_definition hl hs ho hm (read_enumJson hl)
  | .fixed n size a, space, scope, written, hl, ht, ha, hm => by
    obtain ⟨hn, hfits, hsize, hcheck⟩ := hl
    have hs := (agrees_cons.1 ht).1
    have ho := ha _ (List.mem_singleton_self _)
    exact recovers_definition hn hs ho hm (read_fixedJson hn hfits hsize hcheck)
  | .array s, space, scope, written, hl, ht, ha, hm => by
    obtain ⟨scope', h, hm', ho⟩ := recovers_write table s space scope written hl ht ha hm
    exact ⟨scope', (read_arrayJson _ _ _).trans (bind_of_ok h), hm', ho⟩
  | .map s, space, scope, written, hl, ht, ha, hm => by
    obtain ⟨scope', h, hm', ho⟩ := recovers_write table s space scope written hl ht ha hm
    exact ⟨scope', (read_mapJson _ _ _).trans (bind_of_ok h), hm', ho⟩
  | .union ss, space, scope, written, hl, ht, ha, hm => by
    obtain ⟨hne, hmember, hkeys, hall⟩ := hl
    obtain ⟨scope', h, hm', ho⟩ := recovers_writeMembers table ss space scope written [] hall
      hmember hkeys (fun s _ => List.not_mem_nil) ht ha hm
    refine ⟨scope', (read_unionJson ?_ _ _).trans (bind_of_ok h), hm', ho⟩
    cases ss with
    | nil => exact absurd rfl hne
    | cons s ss => exact List.cons_ne_nil _ _
  | .record n doc fields, space, scope, written, hl, ht, ha, hm => by
    obtain ⟨hn, hident, hnames, hfields⟩ := hl
    have hs := (agrees_cons.1 ht).1
    have ho : n.full ∉ scope.pending := ha _ List.mem_cons_self
    apply recovers_writeNamed hn hs ho hm
    intro hw
    -- The record does not contain its own name, so its types stay apart from the open records.
    have hinner : ∀ d ∈ fieldTypes fields, d.1 ∉ (scope.enter n.full).pending := by
      intro d hd hmem
      rcases List.mem_cons.1 hmem with heq | hmem
      · exact ne_of_mem_fieldTypes ht hd heq
      · exact ha d (List.mem_cons_of_mem _ hd) hmem
    obtain ⟨scope', h, hm', hopen⟩ := recovers_writeFields table fields n (scope.enter n.full)
      (n.full :: written) [] hfields hident hnames (fun f _ => List.not_mem_nil)
      (agrees_cons.1 ht).2 hinner (matches_enter hm hw)
    have hpending : scope'.pending = n.full :: scope.pending := hopen
    refine recovers_register ((read_recordJson hn).trans (bind_of_ok h)) ?_ (matches_leave hm' hs hpending ho)
      (pending_leave hpending ho)
    apply hm'.incomplete
    rw [hpending]
    exact List.mem_cons_self

theorem recovers_writeMembers (table : String → Option Schema) : (ss : List Schema) →
    (space : Option String) → (scope : Scope) → (written seen : List String) →
    AllLegal space scope.pending ss → (∀ s ∈ ss, s.isUnion = false) →
    (ss.map memberKey).Nodup → (∀ s ∈ ss, s.memberKey ∉ seen) →
    Agrees table (memberTypes ss) → (∀ d ∈ memberTypes ss, d.1 ∉ scope.pending) →
    Matches table written scope →
    Recovers table (readMembers (writeMembers ss written).1 space seen) scope ss
      (writeMembers ss written).2
  | [], _, _, _, _, _, _, _, _, _, _, hm => recovers_pure pure_run hm
  | s :: ss, space, scope, written, seen, hl, hu, hk, hnew, ht, ha, hm => by
    obtain ⟨hs, hss⟩ := hl
    obtain ⟨hts, htss⟩ := agrees_append.1 ht
    obtain ⟨hkey, hkeys⟩ := List.nodup_cons.1 hk
    obtain ⟨scope₁, h, hm₁, ho₁⟩ := recovers_write table s space scope written hs hts
      (fun d hd => ha d (List.mem_append_left _ hd)) hm
    have hlater : ∀ t ∈ ss, t.memberKey ∉ s.memberKey :: seen := by
      intro t ht hmem
      rcases List.mem_cons.1 hmem with heq | hmem
      · exact hkey (List.mem_map.2 ⟨t, ht, heq⟩)
      · exact hnew t (List.mem_cons_of_mem s ht) hmem
    rw [← ho₁] at hss
    obtain ⟨scope', hrest, hm', ho'⟩ := recovers_writeMembers table ss space scope₁
      (s.write written).2 (s.memberKey :: seen) hss (fun t ht => hu t (List.mem_cons_of_mem s ht))
      hkeys hlater htss (fun d hd => ho₁ ▸ ha d (List.mem_append_right _ hd)) hm₁
    refine ⟨scope', ?_, hm', ho'.trans ho₁⟩
    exact readMembers_cons h (hu s List.mem_cons_self) (hnew s List.mem_cons_self) hrest

theorem recovers_writeFields (table : String → Option Schema) : (fs : List (Field Schema)) →
    (owner : Name) → (scope : Scope) → (written seen : List String) →
    FieldsLegal owner.space scope.pending fs →
    (∀ f ∈ fs, Name.isIdentifier f.name.toList = true) →
    (fs.map Field.name).Nodup → (∀ f ∈ fs, f.name ∉ seen) →
    Agrees table (fieldTypes fs) → (∀ d ∈ fieldTypes fs, d.1 ∉ scope.pending) →
    Matches table written scope →
    Recovers table (readFields (writeFields fs written).1 owner seen) scope fs
      (writeFields fs written).2
  | [], _, _, _, _, _, _, _, _, _, _, hm => recovers_pure pure_run hm
  | ⟨name, s, default⟩ :: fs, owner, scope, written, seen, hl, hi, hk, hnew, ht, ha, hm => by
    obtain ⟨hs, hfs⟩ := hl
    obtain ⟨hts, htfs⟩ := agrees_append.1 ht
    obtain ⟨hname, hnames⟩ := List.nodup_cons.1 hk
    obtain ⟨scope₁, h, hm₁, ho₁⟩ := recovers_write table s owner.space scope written hs hts
      (fun d hd => ha d (List.mem_append_left _ hd)) hm
    have hlater : ∀ f ∈ fs, f.name ∉ name :: seen := by
      intro f hf hmem
      rcases List.mem_cons.1 hmem with heq | hmem
      · exact hname (List.mem_map.2 ⟨f, hf, heq⟩)
      · exact hnew f (List.mem_cons_of_mem _ hf) hmem
    rw [← ho₁] at hfs
    obtain ⟨scope', hrest, hm', ho'⟩ := recovers_writeFields table fs owner scope₁
      (s.write written).2 (name :: seen) hfs (fun f hf => hi f (List.mem_cons_of_mem _ hf))
      hnames hlater htfs (fun d hd => ho₁ ▸ ha d (List.mem_append_right _ hd)) hm₁
    refine ⟨scope', ?_, hm', ho'.trans ho₁⟩
    have hhead := hi _ List.mem_cons_self
    rw [writeFields_cons, readFields_fieldJson hhead (hnew _ List.mem_cons_self)]
    rw [bind_of_ok h, bind_of_ok hrest]
    exact pure_run

end

/-- A legal schema in which every name has one meaning is read back from its document. -/
theorem ofJson?_toJson {s : Schema} (hl : s.Legal none []) (ht : ∃ table, Agrees table s.types) :
    ofJson? s.toJson = .ok s := by
  obtain ⟨table, ht⟩ := ht
  obtain ⟨scope', h, -⟩ := recovers_write table s none .empty [] hl ht
    (fun d _ => List.not_mem_nil) matches_empty
  change Prod.fst <$> read (s.write []).1 none .empty = .ok s
  rw [h]
  rfl

end Schema
end Restorable
