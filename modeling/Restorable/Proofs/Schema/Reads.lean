-- SUMMARY: What the reader makes of documents, as a relation on schemas and tables of names.
import Restorable.Proofs.Schema.Normal
import Restorable.Proofs.Schema.ReadBack

/-!
# Readings

A reading relates the names known before a schema, the schema and the names known after it.
It follows the tree that is built and forgets how the document said it: which attribute
gave a name its namespace, and whether a type was defined or taken from an earlier
definition. Every successful run of the reader is a reading.
-/
namespace Restorable

open Steps

/-! ## Attributes that were read -/

/-- An attribute is smaller than the object that it stands in. -/
private theorem Json.sizeOf_of_find? {key : String} {attrs : List (String × Json)} {v : Json}
    (h : Json.find? key attrs = some v) : sizeOf v < sizeOf attrs := by
  induction attrs with
  | nil => cases h
  | cons attr attrs ih =>
    obtain ⟨k, w⟩ := attr
    simp only [List.cons.sizeOf_spec, Prod.mk.sizeOf_spec]
    by_cases hk : k = key
    · simp only [Json.find?, if_pos hk, Option.some.injEq] at h
      subst h
      omega
    · simp only [Json.find?, if_neg hk] at h
      have := ih h
      omega

private theorem Refinement.fits_on {a : Option Refinement} (h : ∀ r, a = some r → r.Sound)
    (p : Physical) : Refinement.Fits (Refinement.on a p) p := by
  intro r hr
  obtain ⟨ha, happlies⟩ := Option.filter_eq_some_iff.1 hr
  exact ⟨happlies, h r ha⟩

/-! ## Names that were read -/

/-- The full name of a valid name says it. -/
theorem Name.ofFull_full {n : Name} (h : n.isValid = true) : Name.ofFull n.full = n := by
  obtain ⟨name, own⟩ := n
  simp only [isValid, Bool.and_eq_true] at h
  have hname : '.' ∉ name.toList := not_mem_of_isPart (isPart_of_isIdentifier h.1)
  cases own with
  | none => exact ofFull_undotted hname
  | some own =>
    have hfull : own ++ "." ++ name = String.ofList (own.toList ++ '.' :: name.toList) := by
      apply String.toList_injective
      simp
    simp only [full, hfull, ofFull_dotted hname, String.ofList_toList]

theorem Name.writable_of_isValid {n : Name} (h : n.isValid = true)
    (hfree : ¬ (n.space = none ∧ (Schema.primitive? n.name none).isSome = true)) :
    n.Writable none := by
  refine ⟨⟨?_, ?_⟩, ofFull_full h, fun _ => rfl⟩
  · rw [← List.all_eq_true, ← isValid_ofFull, ofFull_full h]
    exact h
  · intro hword
    obtain ⟨name, own⟩ := n
    cases own with
    | none =>
      have hsome : ∀ word ∈ primitives, (Schema.primitive? word none).isSome = true := by decide
      exact hfree ⟨rfl, hsome _ hword⟩
    | some own =>
      have hdot : '.' ∈ (Name.full ⟨name, some own⟩).toList := by simp [full]
      have hnone : ∀ word ∈ primitives, '.' ∉ word.toList := by decide
      exact hnone _ hword hdot

/-- The namespace of a definable name is not the empty text. -/
theorem Name.Writable.space_ne {n : Name} {space : Option String} (h : n.Writable space) :
    n.space ≠ some "" := by
  intro hempty
  have hvalid := isValid_of_definable h.definable
  rw [h.spelled, isValid, hempty] at hvalid
  simp [Text.pieces, isIdentifier] at hvalid

namespace Schema

variable {space : Option String} {scope scope' : Scope}

private theorem sound_of_readRefinement {attrs : List (String × Json)} {a : Option Refinement}
    (h : readRefinement attrs = .ok a) : ∀ r, a = some r → r.Sound := by
  unfold readRefinement at h
  split at h
  · split at h
    · cases h
    · rename_i precision _
      dsimp only at h
      split at h
      · cases h
      · rename_i hpos
        split at h
        · cases h
        · rename_i hle
          split at h
          · rename_i hrange
            intro r hr
            cases h
            cases hr
            rw [UInt64.lt_iff_toNat_lt] at hle hrange
            have hpos : 0 < precision.toNat :=
              Nat.pos_of_ne_zero fun hzero => hpos (UInt64.toNat_inj.1 hzero)
            change precision.toNat < 4294967296 at hrange
            constructor
            · rw [UInt32.lt_iff_toNat_lt, UInt64.toNat_toUInt32, UInt32.toNat_zero]
              omega
            · rw [UInt32.le_iff_toNat_le, UInt64.toNat_toUInt32, UInt64.toNat_toUInt32]
              omega
          · cases h
  all_goals
    intro r hr
    cases h
    cases hr <;> trivial

/-- A name that was read is definable, and its full name says it. -/
theorem writable_of_readName {attrs : List (String × Json)} {n : Name}
    (h : readName attrs space = .ok n) : n.Writable none := by
  unfold readName at h
  split at h
  · cases h
  · dsimp only at h
    split at h
    · cases h
    · rename_i text _ hvalid
      split at h
      · cases h
      · rename_i hfree
        cases h
        simp only [Bool.not_eq_true', Bool.not_eq_false] at hvalid
        exact Name.writable_of_isValid hvalid hfree

theorem readFieldName_eq_ok {owner : Name} {attrs : List (String × Json)} {seen : List String}
    {name : String} (h : readFieldName owner attrs seen = .ok name) :
    Name.isIdentifier name.toList = true ∧ name ∉ seen := by
  unfold readFieldName at h
  split at h
  · cases h
  · split at h
    · cases h
    · rename_i hident
      split at h
      · cases h
      · rename_i hseen
        cases h
        simp only [Bool.not_eq_true', Bool.not_eq_false] at hident
        exact ⟨hident, hseen⟩

/-- A reference is a primitive word, or a name within the namespace, or a name as it stands. -/
theorem readReference_eq (text : String) (space : Option String) (scope : Scope) :
    readReference text space scope =
      ((primitive? text none).or ((scope.resolve (Name.qualified text none space).full).or
        (scope.resolve text))).elim (.error (.undefinedName text)) fun s => .ok (s, scope) := by
  have hget : (get : Read Scope) scope = .ok (scope, scope) := rfl
  unfold readReference
  cases primitive? text none with
  | some s => rfl
  | none =>
    refine (bind_of_ok hget).trans ?_
    cases scope.resolve (Name.qualified text none space).full with
    | some s => rfl
    | none => cases scope.resolve text <;> rfl

/-! ## Definitions that were accepted -/

/-- A definition of the name would not conflict with an earlier one. -/
def Scope.Accepts (scope : Scope) (full : String) (s : Schema) : Prop :=
  ∀ known, scope.lookup full = some known → known.normal = s.normal

theorem register_eq_ok {n : Name} {s t : Schema} :
    register n s scope = .ok (t, scope') ↔
      scope.Accepts n.full s ∧ s = t ∧ scope.complete n.full s = scope' := by
  have hget : (get : Read Scope) scope = .ok (scope, scope) := rfl
  have hset : (set (scope.complete n.full s) : Read Unit) scope =
    .ok ((), scope.complete n.full s) := rfl
  unfold register Scope.Accepts
  rw [bind_of_ok hget]
  cases hknown : scope.lookup n.full with
  | none =>
    change (Except.ok (s, scope.complete n.full s) : Except SchemaFault _) = _ ↔ _
    simp
  | some known =>
    by_cases hsame : known.same s = true
    · simp only [if_pos hsame]
      change (Except.ok (s, scope.complete n.full s) : Except SchemaFault _) = _ ↔ _
      simp [(same_iff_normal known s).1 hsame]
    · simp only [if_neg hsame]
      rw [throw_eq_ok]
      simp [← same_iff_normal, hsame]

/-! ## Readings -/

/-- A primitive type whose annotation fits. -/
def Primitive : Schema → Prop
  | .null | .boolean | .float | .double => True
  | .int a => Refinement.Fits a .int
  | .long a => Refinement.Fits a .long
  | .string a => Refinement.Fits a .string
  | .bytes a => Refinement.Fits a .bytes
  | _ => False

private theorem primitive_of_primitive? {word : String} {a : Option Refinement} {s : Schema}
    (ha : ∀ r, a = some r → r.Sound) (h : primitive? word a = some s) : s.Primitive := by
  unfold primitive? at h
  split at h
  all_goals
    cases h <;> first | trivial | exact Refinement.fits_on ha _

mutual

/-- The names known before a schema, the schema, and the names known after it. -/
inductive Reads : Scope → Schema → Scope → Prop
  | primitive {scope s} (h : s.Primitive) : Reads scope s scope
  | reference {scope full s} (h : scope.resolve full = some s) : Reads scope s scope
  | enum {scope n symbols} (hn : n.Writable none)
      (hacc : scope.Accepts n.full (.enum n symbols)) :
      Reads scope (.enum n symbols) (scope.complete n.full (.enum n symbols))
  | fixed {scope n size a} (hn : n.Writable none) (hfits : Refinement.Fits a .fixed)
      (hsize : size < 2147483648) (hcheck : checkFixed size a = .ok ())
      (hacc : scope.Accepts n.full (.fixed n size a)) :
      Reads scope (.fixed n size a) (scope.complete n.full (.fixed n size a))
  | array {scope s scope'} (h : Reads scope s scope') : Reads scope (.array s) scope'
  | map {scope s scope'} (h : Reads scope s scope') : Reads scope (.map s) scope'
  | union {scope ss scope'} (hne : ss ≠ []) (h : ReadsMembers [] scope ss scope') :
      Reads scope (.union ss) scope'
  | record {scope n doc fs scope'} (hn : n.Writable none)
      (h : ReadsFields [] (scope.enter n.full) fs scope')
      (hacc : (scope'.leave n.full).Accepts n.full (.record n doc fs)) :
      Reads scope (.record n doc fs)
        ((scope'.leave n.full).complete n.full (.record n doc fs))

/-- Members of a union, after members with the keys `seen`. -/
inductive ReadsMembers : List String → Scope → List Schema → Scope → Prop
  | nil {seen scope} : ReadsMembers seen scope [] scope
  | cons {seen scope s scope' ss scope''} (h : Reads scope s scope') (hu : s.isUnion = false)
      (hkey : s.memberKey ∉ seen) (hrest : ReadsMembers (s.memberKey :: seen) scope' ss scope'') :
      ReadsMembers seen scope (s :: ss) scope''

/-- Fields of a record, after fields with the names `seen`. -/
inductive ReadsFields : List String → Scope → List (Field Schema) → Scope → Prop
  | nil {seen scope} : ReadsFields seen scope [] scope
  | cons {seen scope name s default scope' fs scope''}
      (hident : Name.isIdentifier name.toList = true) (hname : name ∉ seen)
      (h : Reads scope s scope') (hrest : ReadsFields (name :: seen) scope' fs scope'') :
      ReadsFields seen scope (⟨name, s, default⟩ :: fs) scope''

end

private theorem reads_readReference {text : String} {s : Schema}
    (h : readReference text space scope = .ok (s, scope')) : Reads scope s scope' := by
  rw [readReference_eq] at h
  cases hfound : (primitive? text none).or
    ((scope.resolve (Name.qualified text none space).full).or (scope.resolve text)) with
  | none =>
    rw [hfound] at h
    cases h
  | some t =>
    rw [hfound] at h
    cases h
    rcases Option.or_eq_some_iff.1 hfound with hprim | ⟨-, hfound⟩
    · exact .primitive (primitive_of_primitive? (fun r hr => by cases hr) hprim)
    · rcases Option.or_eq_some_iff.1 hfound with hknown | ⟨-, hknown⟩
      · exact .reference hknown
      · exact .reference hknown

theorem readEnum_eq_ok {attrs : List (String × Json)} {s : Schema}
    (h : readEnum attrs space scope = .ok (s, scope')) :
    ∃ n symbols, readName attrs space = .ok n ∧
      register n (.enum n symbols) scope = .ok (s, scope') := by
  unfold readEnum at h
  obtain ⟨n, scope₁, hlift, h⟩ := bind_eq_ok.1 h
  obtain ⟨hname, rfl⟩ := lift_eq_ok.1 hlift
  cases hsymbols : (Json.find? "symbols" attrs).bind Json.arr? with
  | none =>
    rw [hsymbols] at h
    exact (throw_eq_ok.1 h).elim
  | some items =>
    rw [hsymbols] at h
    obtain ⟨symbols, scope₂, hlift, h⟩ := bind_eq_ok.1 h
    obtain ⟨-, rfl⟩ := lift_eq_ok.1 hlift
    exact ⟨n, symbols, hname, h⟩

private theorem lt_of_readSize {n : Name} {attrs : List (String × Json)} {size : UInt64}
    (h : readSize n attrs = .ok size) : size < 2147483648 := by
  unfold readSize at h
  split at h
  · cases h
  · split at h
    · cases h
      assumption
    · cases h

theorem readFixed_eq_ok {attrs : List (String × Json)} {a : Option Refinement} {s : Schema}
    (h : readFixed attrs space a scope = .ok (s, scope')) :
    ∃ n size, readName attrs space = .ok n ∧ size < 2147483648 ∧
      checkFixed size (Refinement.on a .fixed) = .ok () ∧
      register n (.fixed n size (Refinement.on a .fixed)) scope = .ok (s, scope') := by
  obtain ⟨n, scope₁, hlift, h⟩ := bind_eq_ok.1 h
  obtain ⟨hname, rfl⟩ := lift_eq_ok.1 hlift
  obtain ⟨size, scope₂, hlift, h⟩ := bind_eq_ok.1 h
  obtain ⟨hsize, rfl⟩ := lift_eq_ok.1 hlift
  obtain ⟨_, scope₃, hlift, h⟩ := bind_eq_ok.1 h
  obtain ⟨hcheck, rfl⟩ := lift_eq_ok.1 hlift
  exact ⟨n, size, hname, lt_of_readSize hsize, hcheck, h⟩

/-- A record that was read has a name, and its fields were read inside it. -/
theorem readRecord_eq_ok {attrs : List (String × Json)} {a : Option Refinement} {s : Schema}
    (h : readTyped "record" a attrs space scope = .ok (s, scope')) :
    ∃ n doc items fs scope₁, readName attrs space = .ok n ∧
      Json.find? "fields" attrs = some (.arr items) ∧
      readFields items n [] (scope.enter n.full) = .ok (fs, scope₁) ∧
      register n (.record n doc fs) (scope₁.leave n.full) = .ok (s, scope') := by
  obtain ⟨n, scope₁, hlift, h⟩ := bind_eq_ok.1 h
  obtain ⟨hname, rfl⟩ := lift_eq_ok.1 hlift
  cases hfields : Json.find? "fields" attrs with
  | none =>
    rw [hfields] at h
    exact (throw_eq_ok.1 h).elim
  | some v =>
    rw [hfields] at h
    cases v with
    | arr items =>
      obtain ⟨_, _, henter, h⟩ := bind_eq_ok.1 h
      cases henter
      obtain ⟨fs, scope₂, hfs, h⟩ := bind_eq_ok.1 h
      obtain ⟨_, _, hleave, h⟩ := bind_eq_ok.1 h
      cases hleave
      exact ⟨n, _, items, fs, scope₂, hname, rfl, hfs, h⟩
    | _ => exact (throw_eq_ok.1 h).elim

mutual

/-- What the reader makes of a value is a reading. -/
theorem reads_of_read : (v : Json) → {space : Option String} → {scope scope' : Scope} →
    {s : Schema} → read v space scope = .ok (s, scope') → Reads scope s scope'
  | .str _, _, _, _, _, h => reads_readReference h
  | .arr [], _, _, _, _, h | .null, _, _, _, _, h | .bool _, _, _, _, _, h
  | .num _, _, _, _, _, h => (throw_eq_ok.1 h).elim
  | .arr (v :: rest), space, scope, scope', s, h => by
    rw [read_arr] at h
    obtain ⟨ss, scope₁, hss, h⟩ := bind_eq_ok.1 h
    obtain ⟨rfl, rfl⟩ := pure_eq_ok.1 h
    obtain ⟨hne, hreads⟩ := readsMembers_of_read (v :: rest) hss
    exact .union (hne (List.cons_ne_nil _ _)) hreads
  | .obj attrs, space, scope, scope', s, h => by
    rw [read_obj] at h
    split at h
    · exact (throw_eq_ok.1 h).elim
    · obtain ⟨a, scope₁, hlift, h⟩ := bind_eq_ok.1 h
      obtain ⟨ha, rfl⟩ := lift_eq_ok.1 hlift
      exact reads_of_readTyped attrs (sound_of_readRefinement ha) h
    · rename_i v _ htype
      have := Json.sizeOf_of_find? htype
      exact reads_of_read v h
  termination_by v => sizeOf v

private theorem reads_of_readTyped : (attrs : List (String × Json)) → {word : String} →
    {a : Option Refinement} → {space : Option String} → {scope scope' : Scope} → {s : Schema} →
    (∀ r, a = some r → r.Sound) → readTyped word a attrs space scope = .ok (s, scope') →
    Reads scope s scope'
  | attrs, word, a, space, scope, scope', s, ha, h => by
    have hrecord : word = "record" ∨ word = "error" → Reads scope s scope' := by
      intro hword
      have h : readTyped "record" a attrs space scope = .ok (s, scope') := by
        rcases hword with rfl | rfl <;> exact h
      obtain ⟨n, doc, items, fs, scope₁, hname, hfields, hfs, h⟩ := readRecord_eq_ok h
      have hsmall := Json.sizeOf_of_find? hfields
      have : sizeOf items < sizeOf attrs := by
        rw [Json.arr.sizeOf_spec] at hsmall
        omega
      obtain ⟨hacc, rfl, rfl⟩ := register_eq_ok.1 h
      exact .record (writable_of_readName hname) (readsFields_of_read items hfs) hacc
    unfold readTyped at h
    split at h
    · exact hrecord (.inl rfl)
    · exact hrecord (.inr rfl)
    · obtain ⟨n, symbols, hname, h⟩ := readEnum_eq_ok h
      obtain ⟨hacc, rfl, rfl⟩ := register_eq_ok.1 h
      exact .enum (writable_of_readName hname) hacc
    · obtain ⟨n, size, hname, hsize, hcheck, h⟩ := readFixed_eq_ok h
      obtain ⟨hacc, rfl, rfl⟩ := register_eq_ok.1 h
      exact .fixed (writable_of_readName hname) (Refinement.fits_on ha .fixed) hsize hcheck hacc
    · cases hitems : Json.find? "items" attrs with
      | none =>
        rw [hitems] at h
        exact (throw_eq_ok.1 h).elim
      | some items =>
        rw [hitems] at h
        have := Json.sizeOf_of_find? hitems
        obtain ⟨t, scope₁, ht, h⟩ := bind_eq_ok.1 h
        obtain ⟨rfl, rfl⟩ := pure_eq_ok.1 h
        exact .array (reads_of_read items ht)
    · cases hvalues : Json.find? "values" attrs with
      | none =>
        rw [hvalues] at h
        exact (throw_eq_ok.1 h).elim
      | some values =>
        rw [hvalues] at h
        have := Json.sizeOf_of_find? hvalues
        obtain ⟨t, scope₁, ht, h⟩ := bind_eq_ok.1 h
        obtain ⟨rfl, rfl⟩ := pure_eq_ok.1 h
        exact .map (reads_of_read values ht)
    · cases ht : primitive? word a with
      | none =>
        rw [ht] at h
        exact reads_readReference h
      | some t =>
        rw [ht] at h
        obtain ⟨rfl, rfl⟩ := pure_eq_ok.1 h
        exact .primitive (primitive_of_primitive? ha ht)
  termination_by attrs => sizeOf attrs

theorem readsMembers_of_read : (items : List Json) → {space : Option String} →
    {seen : List String} → {scope scope' : Scope} → {ss : List Schema} →
    readMembers items space seen scope = .ok (ss, scope') →
    (items ≠ [] → ss ≠ []) ∧ ReadsMembers seen scope ss scope'
  | [], _, _, _, _, _, h => by
    obtain ⟨rfl, rfl⟩ := pure_eq_ok.1 h
    exact ⟨fun hne => absurd rfl hne, .nil⟩
  | v :: rest, space, seen, scope, scope', ss, h => by
    rw [readMembers_step] at h
    obtain ⟨s, scope₁, hs, h⟩ := bind_eq_ok.1 h
    obtain ⟨key, scope₂, hlift, h⟩ := bind_eq_ok.1 h
    obtain ⟨hkey, rfl⟩ := lift_eq_ok.1 hlift
    obtain ⟨hu, hnew, rfl⟩ := checkMember_eq_ok.1 hkey
    obtain ⟨ss, scope₃, hss, h⟩ := bind_eq_ok.1 h
    obtain ⟨rfl, rfl⟩ := pure_eq_ok.1 h
    exact ⟨fun _ => List.cons_ne_nil _ _,
      .cons (reads_of_read v hs) hu hnew (readsMembers_of_read rest hss).2⟩
  termination_by items => sizeOf items

theorem readsFields_of_read : (items : List Json) → {owner : Name} → {seen : List String} →
    {scope scope' : Scope} → {fs : List (Field Schema)} →
    readFields items owner seen scope = .ok (fs, scope') → ReadsFields seen scope fs scope'
  | [], _, _, _, _, _, h => by
    obtain ⟨rfl, rfl⟩ := pure_eq_ok.1 h
    exact .nil
  | .null :: _, _, _, _, _, _, h | .bool _ :: _, _, _, _, _, _, h
  | .num _ :: _, _, _, _, _, _, h | .str _ :: _, _, _, _, _, _, h
  | .arr _ :: _, _, _, _, _, _, h => (throw_eq_ok.1 h).elim
  | .obj attrs :: rest, owner, seen, scope, scope', fs, h => by
    rw [readFields_obj] at h
    obtain ⟨name, scope₁, hlift, h⟩ := bind_eq_ok.1 h
    obtain ⟨hname, rfl⟩ := lift_eq_ok.1 hlift
    obtain ⟨hident, hnew⟩ := readFieldName_eq_ok hname
    cases htype : Json.find? "type" attrs with
    | none =>
      rw [htype] at h
      exact (throw_eq_ok.1 h).elim
    | some v =>
      rw [htype] at h
      have := Json.sizeOf_of_find? htype
      obtain ⟨s, scope₂, hs, h⟩ := bind_eq_ok.1 h
      obtain ⟨fs, scope₃, hfs, h⟩ := bind_eq_ok.1 h
      obtain ⟨rfl, rfl⟩ := pure_eq_ok.1 h
      exact .cons hident hnew (reads_of_read v hs) (readsFields_of_read rest hfs)
  termination_by items => sizeOf items

end

theorem ofJson?_eq_ok {v : Json} {s : Schema} :
    ofJson? v = .ok s ↔ ∃ scope, read v none .empty = .ok (s, scope) := by
  change Prod.fst <$> read v none .empty = .ok s ↔ _
  cases read v none .empty with
  | error e => simp [Functor.map, Except.map]
  | ok r => simp [Functor.map, Except.map, Prod.ext_iff]

/-- Every parsed document is a reading that starts without names. -/
theorem reads_of_ofJson? {v : Json} {s : Schema} (h : ofJson? v = .ok s) :
    ∃ scope, Reads .empty s scope := by
  obtain ⟨scope, hread⟩ := ofJson?_eq_ok.1 h
  exact ⟨scope, reads_of_read v hread⟩

end Schema
end Restorable
