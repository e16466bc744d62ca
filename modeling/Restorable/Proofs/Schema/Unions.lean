-- SUMMARY: Which lists of members the reader accepts as a union, in every state that it goes through.
import Restorable.Proofs.Schema.Drawn
import Restorable.Proofs.Schema.Growth

/-!
# Members of unions

Members are told apart by their keys: the full name of a named type or of a reference, the type
word of any other. No definition may take the word of a primitive type, so a key stands for two
different things in one case only: a type can be named `array` or `map` without a namespace.
-/
namespace Restorable
namespace Schema

open Steps

/-! ## Duplicates -/

/-- Two members that a union may not have side by side: unnamed ones of one kind, whatever their
annotations and parts, or named ones with one full name. -/
inductive Duplicates : Schema → Schema → Prop
  | null : Duplicates .null .null
  | boolean : Duplicates .boolean .boolean
  | int (a b) : Duplicates (.int a) (.int b)
  | long (a b) : Duplicates (.long a) (.long b)
  | float : Duplicates .float .float
  | double : Duplicates .double .double
  | string (a b) : Duplicates (.string a) (.string b)
  | bytes (a b) : Duplicates (.bytes a) (.bytes b)
  | array (s t) : Duplicates (.array s) (.array t)
  | map (s t) : Duplicates (.map s) (.map t)
  | named {s t n m} (hs : s.name? = some n) (ht : t.name? = some m) (h : n.full = m.full) :
      Duplicates s t

/-- A named type has the word of an unnamed one as its full name. -/
inductive TakesWord : Schema → Schema → Prop
  | array {s n} (t) (hs : s.name? = some n) (hn : n.full = "array") : TakesWord s (.array t)
  | map {s n} (t) (hs : s.name? = some n) (hn : n.full = "map") : TakesWord s (.map t)

/-- An array or a map beside a type that is named by its word. -/
def Homonyms (s t : Schema) : Prop := TakesWord s t ∨ TakesWord t s

/-! ## Keys -/

variable {s t : Schema} {n : Name}

theorem memberKey_of_named (h : s.name? = some n) : s.memberKey = n.full := by
  rw [memberKey, h]

theorem memberKey_of_unnamed (h : s.name? = none) : s.memberKey = s.typeName := by
  rw [memberKey, h]

/-- Unnamed types of one word are of one kind. -/
private theorem typeName_eq_iff (hs : s.name? = none) (ht : t.name? = none)
    (hus : s.isUnion = false) (hut : t.isUnion = false) :
    s.typeName = t.typeName ↔ Duplicates s t := by
  constructor
  · intro h
    cases s <;> first | (cases hs; done) | (cases hus; done) | skip
    all_goals
      cases t <;> first
        | (cases ht; done)
        | (cases hut; done)
        | (simp [typeName] at h; done)
        | constructor
  · rintro (_ | _ | _ | _ | _ | _ | _ | _ | _ | _ | ⟨hn, -, -⟩)
    all_goals first | rfl | exact absurd (hs.symm.trans hn) nofun

/-- The word of an unnamed type is a definable name only if it is `array` or `map`. -/
private theorem full_eq_typeName_iff (hs : s.name? = some n) (hn : Name.Definable n.full)
    (ht : t.name? = none) (hut : t.isUnion = false) : n.full = t.typeName ↔ TakesWord s t := by
  constructor
  · intro h
    have hword : t.typeName ∉ Name.primitives := h ▸ hn.2
    cases t with
    | array t => exact .array t hs h
    | map t => exact .map t hs h
    | union => cases hut
    | fixed | enum | record | ref => cases ht
    | _ => exact absurd (by simp [typeName, Name.primitives]) hword
  · rintro (⟨_, hs', hword⟩ | ⟨_, hs', hword⟩)
    all_goals
      obtain rfl := Option.some.inj (hs.symm.trans hs')
      exact hword

theorem Duplicates.symm (h : Duplicates s t) : Duplicates t s := by
  cases h with
  | named hs ht h => exact .named ht hs h.symm
  | _ => constructor

/-- A named and an unnamed type are no duplicates. -/
private theorem not_duplicates_of_named (hs : s.name? = some n) (ht : t.name? = none) :
    ¬ Duplicates s t := by
  intro h
  cases h with
  | named _ ht' _ => cases ht.symm.trans ht'
  | _ => cases hs

private theorem not_takesWord_of_named (ht : t.name? = some n) : ¬ TakesWord s t := by
  rintro (_ | _) <;> cases ht

private theorem not_takesWord_of_unnamed (hs : s.name? = none) : ¬ TakesWord s t := by
  rintro (⟨_, hs', -⟩ | ⟨_, hs', -⟩) <;> cases hs.symm.trans hs'

/-- Two members have one key when they are duplicates, or one is named by the word of the
other. -/
theorem memberKey_eq_iff (hs : ∀ n, s.name? = some n → Name.Definable n.full)
    (ht : ∀ n, t.name? = some n → Name.Definable n.full) (hus : s.isUnion = false)
    (hut : t.isUnion = false) : s.memberKey = t.memberKey ↔ Duplicates s t ∨ Homonyms s t := by
  cases hsn : s.name? with
  | none =>
    rw [memberKey_of_unnamed hsn]
    cases htn : t.name? with
    | none =>
      have hs' : ¬ TakesWord s t := not_takesWord_of_unnamed hsn
      have ht' : ¬ TakesWord t s := not_takesWord_of_unnamed htn
      rw [memberKey_of_unnamed htn, typeName_eq_iff hsn htn hus hut]
      simp [Homonyms, hs', ht']
    | some m =>
      have hdup : ¬ Duplicates s t := fun h => not_duplicates_of_named htn hsn h.symm
      have hs' : ¬ TakesWord s t := not_takesWord_of_unnamed hsn
      rw [memberKey_of_named htn, eq_comm, full_eq_typeName_iff htn (ht m htn) hsn hus]
      simp [Homonyms, hdup, hs']
  | some n =>
    rw [memberKey_of_named hsn]
    cases htn : t.name? with
    | none =>
      have hdup : ¬ Duplicates s t := not_duplicates_of_named hsn htn
      have ht' : ¬ TakesWord t s := not_takesWord_of_unnamed htn
      rw [memberKey_of_unnamed htn, full_eq_typeName_iff hsn (hs n hsn) htn hut]
      simp [Homonyms, hdup, ht']
    | some m =>
      have hs' : ¬ TakesWord s t := not_takesWord_of_named htn
      have ht' : ¬ TakesWord t s := not_takesWord_of_named hsn
      have hdup : Duplicates s t ↔ n.full = m.full := by
        constructor
        · intro h
          cases h with
          | named hsn' htn' h =>
            obtain rfl := Option.some.inj (hsn.symm.trans hsn')
            obtain rfl := Option.some.inj (htn.symm.trans htn')
            exact h
          | _ => cases hsn
        · exact .named hsn htn
      rw [memberKey_of_named htn, hdup]
      simp [Homonyms, hs', ht']

/-! ## States of the reader -/

/-- The states that the reader goes through: the first one, the one after a value was read, and
the one inside a record whose name was read. -/
inductive Scope.Reached : Scope → Prop
  | empty : Reached .empty
  | read {scope v space s scope'} (h : Reached scope)
      (hread : Schema.read v space scope = .ok (s, scope')) : Reached scope'
  | enter {scope attrs space n} (h : Reached scope) (hname : readName attrs space = .ok n) :
      Reached (scope.enter n.full)

variable {scope scope' : Scope} {space : Option String}

theorem Scope.Reached.sound (h : scope.Reached) : scope.Sound := by
  induction h with
  | empty => exact sound_empty
  | read _ hread ih => exact ((reads_of_read _ hread).sound ih).1
  | enter _ hname ih => exact ih.enter (writable_of_readName hname)

/-- The named types that are read have names that a document can define. -/
private theorem Reads.definable (h : Reads scope s scope') (hscope : scope.Sound)
    (hn : s.name? = some n) :
    Name.Definable n.full := by
  cases h with
  | primitive h => cases s <;> first | exact h.elim | cases hn
  | reference h =>
    obtain ⟨m, hm, -, hwritable⟩ := hscope.resolve h
    obtain rfl := Option.some.inj (hn.symm.trans hm)
    exact hwritable.definable
  | array | map | union => cases hn
  | enum hwritable | fixed hwritable | record hwritable =>
    cases hn
    exact hwritable.definable

/-! ## Members in a row -/

/-- The values are read as these schemas, one after the other. -/
def ReadsEach (space : Option String) (members : List Json) (scope : Scope) (ss : List Schema)
    (scope' : Scope) : Prop :=
  members.mapM (read · space) scope = .ok (ss, scope')

theorem readsEach_nil {ss : List Schema} :
    ReadsEach space [] scope ss scope' ↔ [] = ss ∧ scope = scope' := by
  simp [ReadsEach]

theorem readsEach_cons {v : Json} {members : List Json} {ss : List Schema} :
    ReadsEach space (v :: members) scope ss scope' ↔
      ∃ s scope₁ rest, read v space scope = .ok (s, scope₁) ∧
        ReadsEach space members scope₁ rest scope' ∧ s :: rest = ss := by
  simp only [ReadsEach, List.mapM_cons, bind_eq_ok, pure_eq_ok]
  constructor
  · rintro ⟨s, scope₁, hs, rest, _, hrest, hss, rfl⟩
    exact ⟨s, scope₁, rest, hs, hrest, hss⟩
  · rintro ⟨s, scope₁, rest, hs, hrest, hss⟩
    exact ⟨s, scope₁, hs, rest, scope', hrest, hss, rfl⟩

private theorem ReadsEach.definable {members : List Json} {ss : List Schema}
    (h : ReadsEach space members scope ss scope') (hscope : scope.Sound) :
    ∀ s ∈ ss, ∀ n, s.name? = some n → Name.Definable n.full := by
  induction members generalizing scope ss with
  | nil =>
    obtain ⟨rfl, -⟩ := readsEach_nil.1 h
    exact List.forall_mem_nil _
  | cons v members ih =>
    obtain ⟨s, scope₁, rest, hs, hrest, rfl⟩ := readsEach_cons.1 h
    have hreads : Reads scope s scope₁ := reads_of_read v hs
    refine List.forall_mem_cons.2 ⟨fun n hn => hreads.definable hscope hn, ?_⟩
    exact ih hrest (hreads.sound hscope).1

/-- Members that are no unions are accepted as far as their keys differ; the first one that
repeats a key is refused. -/
private theorem ReadsEach.readMembers_eq {members : List Json} {ss : List Schema}
    (h : ReadsEach space members scope ss scope') (hflat : ∀ s ∈ ss, s.isUnion = false)
    (seen : List String) :
    readMembers members space seen scope =
      (firstRepeat seen (ss.map memberKey)).elim (.ok (ss, scope'))
        fun key => .error (.duplicateMember key) := by
  induction members generalizing scope ss seen with
  | nil =>
    obtain ⟨rfl, rfl⟩ := readsEach_nil.1 h
    rfl
  | cons v members ih =>
    obtain ⟨s, scope₁, rest, hs, hrest, rfl⟩ := readsEach_cons.1 h
    obtain ⟨hu, hflat⟩ := List.forall_mem_cons.1 hflat
    rw [readMembers_step, bind_of_ok hs, List.map_cons, firstRepeat]
    by_cases hseen : s.memberKey ∈ seen
    · have hkey : checkMember s seen = .error (.duplicateMember s.memberKey) := by
        unfold checkMember
        split
        · cases hu
        · rw [if_pos hseen]
      rw [hkey, if_pos hseen]
      rfl
    · have hkey : checkMember s seen = .ok s.memberKey := checkMember_eq_ok.2 ⟨hu, hseen, rfl⟩
      rw [bind_of_ok (lift_of_ok hkey), if_neg hseen]
      change StateT.bind (readMembers members space (s.memberKey :: seen)) _ scope₁ = _
      unfold StateT.bind
      rw [ih hrest hflat]
      cases firstRepeat (s.memberKey :: seen) (rest.map memberKey) <;> rfl

/-! ## Unions -/

/-- In every state of the reader, values that are read in order as schemas other than unions make
up a union exactly if no two of them are duplicates, and none is an array or a map beside a type
that is named `array` or `map`. The union has these members, and the state is the one after
them; otherwise the first key that is repeated is refused. -/
theorem read_union_iff (space : Option String) (scope scope' : Scope) (members : List Json)
    (ss : List Schema) (hscope : scope.Reached) (hne : members ≠ [])
    (hread : ReadsEach space members scope ss scope') (hflat : ∀ s ∈ ss, s.isUnion = false) :
    ((∃ r, read (.arr members) space scope = .ok r) ↔
      ss.Pairwise fun s t => ¬ Duplicates s t ∧ ¬ Homonyms s t) ∧
      (∀ r, read (.arr members) space scope = .ok r → r = (.union ss, scope')) ∧
      ∀ fault, read (.arr members) space scope = .error fault →
        ∃ key, firstRepeat [] (ss.map memberKey) = some key ∧ fault = .duplicateMember key := by
  have hdefinable := hread.definable hscope.sound
  have hkeys : (ss.map memberKey).Nodup ↔
      ss.Pairwise fun s t => ¬ Duplicates s t ∧ ¬ Homonyms s t := by
    rw [List.Nodup, List.pairwise_map]
    apply List.Pairwise.iff_of_mem
    intro s t hs ht
    rw [ne_eq, memberKey_eq_iff (hdefinable s hs) (hdefinable t ht) (hflat s hs) (hflat t ht),
      not_or]
  have hnodup : firstRepeat [] (ss.map memberKey) = none ↔ (ss.map memberKey).Nodup := by
    simp [firstRepeat_eq_none]
  have heq : read (.arr members) space scope =
      (firstRepeat [] (ss.map memberKey)).elim (.ok (.union ss, scope'))
        fun key => .error (.duplicateMember key) := by
    rw [read_unionJson hne]
    change StateT.bind (readMembers members space []) _ scope = _
    unfold StateT.bind
    rw [hread.readMembers_eq hflat []]
    cases firstRepeat [] (ss.map memberKey) <;> rfl
  rw [heq, ← hkeys, ← hnodup]
  cases firstRepeat [] (ss.map memberKey) with
  | none => exact ⟨iff_of_true ⟨_, rfl⟩ rfl, fun r hr => (Except.ok.inj hr).symm, nofun⟩
  | some key =>
    refine ⟨iff_of_false nofun nofun, nofun, fun fault hfault => ⟨key, rfl, ?_⟩⟩
    exact (Except.error.inj hfault).symm

/-- Inside a record, a reference to it and an enum named `array` stand beside a map, null and a
date. -/
theorem read_union_iff_node :
    let scope : Scope := Scope.empty.enter "Node"
    let enum : Schema := .enum ⟨"array", none⟩ []
    let members : List Json := [.str "null", .str "Node",
      .obj [("type", .str "enum"), ("name", .str "array"), ("symbols", .arr [])],
      .obj [("type", .str "map"), ("values", .str "int")],
      .obj [("type", .str "int"), ("logicalType", .str "date")]]
    let ss : List Schema :=
      [.null, .ref ⟨"Node", none⟩, enum, .map (.int none), .int (some .date)]
    scope.Reached ∧ members ≠ [] ∧ ReadsEach none members scope ss (scope.complete "array" enum) ∧
      (∀ s ∈ ss, s.isUnion = false) ∧ (ss.Pairwise fun s t => ¬ Duplicates s t ∧ ¬ Homonyms s t) ∧
      read (.arr members) none scope = .ok (.union ss, scope.complete "array" enum) := by
  intro scope enum members ss
  have hname : readName [("name", .str "Node")] none = .ok ⟨"Node", none⟩ := rfl
  have hscope : scope.Reached := .enter .empty hname
  have hread : ReadsEach none members scope ss (scope.complete "array" enum) := rfl
  have hflat : ∀ s ∈ ss, s.isUnion = false := by decide
  have hunion : read (.arr members) none scope =
      .ok (.union ss, scope.complete "array" enum) := rfl
  have hiff := read_union_iff none scope _ members ss hscope (List.cons_ne_nil _ _) hread hflat
  exact ⟨hscope, List.cons_ne_nil _ _, hread, hflat, hiff.1.1 ⟨_, hunion⟩, hunion⟩

/-- A record named `array` and an array of integers are no duplicates, and the reader refuses them
side by side. -/
theorem read_union_array_record :
    let members : List Json := [
      .obj [("type", .str "record"), ("name", .str "array"), ("fields", .arr [])],
      .obj [("type", .str "array"), ("items", .str "int")]]
    let record : Schema := .record ⟨"array", none⟩ none []
    ReadsEach none members .empty [record, .array (.int none)]
        (Scope.empty.complete "array" record) ∧
      ([record, .array (.int none)].Pairwise fun s t => ¬ Duplicates s t) ∧
      ofJson? (.arr members) = .error (.duplicateMember "array") := by
  intro members record
  have hdup : ¬ Duplicates record (.array (.int none)) := not_duplicates_of_named rfl rfl
  exact ⟨rfl, List.pairwise_pair.2 hdup, rfl⟩

end Schema
end Restorable
