-- SUMMARY: Which documents have a logical type, and how the conversion of the others fails.
import Restorable.Proofs.Logical.Converted
import Restorable.Proofs.Schema.Checked

/-!
# Convertible schemas

The conversion to a logical type visits a schema down to its mixed unions, which become raw
types whatever is inside them. In a checked schema only two things can stand in the way: a
reference to a record around it, and a decimal with more digits than logical types have. The
first of them in document order decides how the conversion fails.
-/
namespace Restorable

open Steps

/-! ## Obstacles -/

/-- Why a logical type cannot say an annotation: a decimal with too many digits. -/
def Refinement.obstacle : Refinement → Option Failure
  | .decimal precision _ =>
    if maxDecimalPrecision < precision then
      some (.precisionRange .decimal precision maxDecimalPrecision)
    else none
  | _ => none

private theorem Refinement.obstacle_eq_some {r : Refinement} {failure : Failure} :
    r.obstacle = some failure ↔ ∃ precision scale, r = .decimal precision scale ∧
      maxDecimalPrecision < precision ∧
      failure = .precisionRange .decimal precision maxDecimalPrecision := by
  cases r with
  | decimal precision scale =>
    by_cases h : maxDecimalPrecision < precision
    · simp [obstacle, h, eq_comm]
    · simp [obstacle, h]
  | _ => simp [obstacle]

namespace Schema

/-- The annotation of a schema, where there is one. -/
def refinement? : Schema → Option Refinement
  | .int a | .long a | .string a | .bytes a | .fixed _ _ a => a
  | _ => none

/-- Why a schema has no logical type, whatever is inside it. -/
def obstacle (s : Schema) : Option Failure :=
  match s with
  | .ref n => some (.unsupported (.recursiveReference n))
  | s => s.refinement?.bind Refinement.obstacle

/-- An obstacle is a reference or a decimal with too many digits, and nothing else. -/
private theorem obstacle_eq_some {s : Schema} {failure : Failure} :
    s.obstacle = some failure ↔
      (∃ n, s = .ref n ∧ failure = .unsupported (.recursiveReference n)) ∨
        ∃ precision scale, s.refinement? = some (.decimal precision scale) ∧
          maxDecimalPrecision < precision ∧
          failure = .precisionRange .decimal precision maxDecimalPrecision := by
  cases s with
  | ref n => simp [obstacle, refinement?, eq_comm]
  | _ => simp [obstacle, Option.bind_eq_some_iff, Refinement.obstacle_eq_some]

private theorem obstacle_eq_none {s : Schema} :
    s.obstacle = none ↔ (∀ n, s ≠ .ref n) ∧ ∀ precision scale,
      s.refinement? = some (.decimal precision scale) → precision ≤ maxDecimalPrecision := by
  constructor
  · intro hnone
    refine ⟨fun n href => ?_, fun precision scale hdecimal => UInt32.not_lt.1 fun hlt => ?_⟩
    · have hsome := obstacle_eq_some.2 (.inl ⟨n, href, rfl⟩)
      rw [hnone] at hsome
      cases hsome
    · have hsome := obstacle_eq_some.2 (.inr ⟨precision, scale, hdecimal, hlt, rfl⟩)
      rw [hnone] at hsome
      cases hsome
  · rintro ⟨href, hdecimal⟩
    rw [Option.eq_none_iff_forall_ne_some]
    intro failure hsome
    rcases obstacle_eq_some.1 hsome with ⟨n, hn, -⟩ | ⟨precision, scale, ha, hlt, -⟩
    · exact href n hn
    · exact UInt32.not_lt.2 (hdecimal precision scale ha) hlt

variable {mapping : TimestampMapping}

/-- Annotations of other types than byte strings are no decimals. -/
private theorem ends_of_fits {a : Option Refinement} {p : Physical} (h : Refinement.Fits a p)
    (hp : p ≠ .bytes ∧ p ≠ .fixed) (t : LogicalType) :
    Ends (.ok t) (a.bind Refinement.obstacle) := by
  cases a with
  | none => exact .ok t
  | some r =>
    obtain ⟨happlies, -⟩ := Refinement.fits_some.1 h
    cases r with
    | decimal precision scale =>
      cases p with
      | bytes => exact absurd rfl hp.1
      | fixed => exact absurd rfl hp.2
      | _ => cases happlies
    | _ => exact .ok t

/-- Byte strings have a logical type, except for decimals with too many digits. -/
private theorem ends_bytesType {a : Option Refinement} {p : Physical} (h : Refinement.Fits a p)
    (plain : LogicalType) : Ends (bytesType a plain) (a.bind Refinement.obstacle) := by
  cases a with
  | none => exact .ok plain
  | some r =>
    cases r with
    | decimal precision scale =>
      obtain ⟨-, hpos, hscale⟩ := Refinement.fits_some.1 h
      simp only [bytesType, Option.bind_some, Refinement.obstacle]
      by_cases hmax : maxDecimalPrecision < precision
      · rw [decimalType, if_pos hmax, if_pos hmax]
        exact .error _
      · have hone : 1 ≤ precision := by
          rw [UInt32.le_iff_toNat_le]
          exact UInt32.lt_iff_toNat_lt.1 hpos
        have hcheck : checkDecimal precision scale = .ok () :=
          checkDecimal_eq_ok.2 ⟨hone, UInt32.not_lt.1 hmax, hscale⟩
        rw [if_neg hmax, decimalType_eq_ok.2 ⟨hcheck, rfl⟩]
        exact .ok _
    | _ => exact .ok plain

/-! ## Visited schemas -/

/-- A union of three or more members, or of two that are not null. -/
def IsMixed (members : List Schema) : Prop :=
  3 ≤ members.length ∨ 2 ≤ (members.filter fun s => !s.isNull).length

instance (members : List Schema) : Decidable (IsMixed members) :=
  inferInstanceAs (Decidable (_ ∨ _))

mutual

/-- The schema and all schemas in it in document order, those inside mixed unions apart. -/
def visited : Schema → List Schema
  | .array items => .array items :: items.visited
  | .map values => .map values :: values.visited
  | .union members =>
    .union members :: if IsMixed members then [] else visitedMembers members
  | .record n doc fields => .record n doc fields :: visitedFields fields
  | s => [s]

def visitedMembers : List Schema → List Schema
  | [] => []
  | s :: ss => s.visited ++ visitedMembers ss

def visitedFields : List (Field Schema) → List Schema
  | [] => []
  | ⟨_, s, _⟩ :: fs => s.visited ++ visitedFields fs

end

/-! ## First obstacles -/

/-- The first obstacle in document order. -/
def firstObstacle (s : Schema) : Option Failure := s.visited.findSome? obstacle

/-- A schema without parts has its own obstacle at most. -/
private theorem ends_of_visited {s : Schema} (hvisited : s.visited = [s])
    (h : Ends (s.toLogical mapping) s.obstacle) : Ends (s.toLogical mapping) s.firstObstacle := by
  rw [firstObstacle, hvisited, findSome?_cons_eq_or, List.findSome?_nil, Option.or_none]
  exact h

private theorem firstObstacle_of_isNull {s : Schema} (h : s.isNull = true) :
    s.firstObstacle = none := by
  cases s <;> first | rfl | cases h

private theorem firstObstacle_of_mixed {members : List Schema} (h : IsMixed members) :
    (union members).firstObstacle = none := by
  rw [firstObstacle, visited, if_pos h]
  rfl

private theorem firstObstacle_of_not_mixed {members : List Schema} (h : ¬ IsMixed members) :
    (union members).firstObstacle = (visitedMembers members).findSome? obstacle := by
  rw [firstObstacle, visited, if_neg h]
  rfl

private theorem findSome?_visitedMembers_cons (s : Schema) (ss : List Schema) :
    (visitedMembers (s :: ss)).findSome? obstacle =
      s.firstObstacle.or ((visitedMembers ss).findSome? obstacle) := by
  rw [visitedMembers, List.findSome?_append, firstObstacle]

theorem ends_fieldsToLogical {fields : List (Field Schema)}
    (h : ∀ f ∈ fields, Ends (f.schema.toLogical mapping) f.schema.firstObstacle) :
    Ends (fieldsToLogical mapping fields) ((visitedFields fields).findSome? obstacle) := by
  induction fields with
  | nil => exact .ok []
  | cons f fields ih =>
    obtain ⟨hfirst, hrest⟩ := List.forall_mem_cons.1 h
    rw [visitedFields, List.findSome?_append]
    exact hfirst.exceptBind fun t _ => (ih hrest).exceptBind_ok fun rest _ => ⟨_, rfl⟩

private theorem not_isMixed_single (only : Schema) : ¬ IsMixed [only] := by
  have hle := List.length_filter_le (fun s : Schema => !s.isNull) [only]
  simp only [List.length_singleton] at hle
  simp only [IsMixed, List.length_singleton]
  omega

@[simp] theorem isMixed_pair (a b : Schema) :
    IsMixed [a, b] ↔ a.isNull = false ∧ b.isNull = false := by
  cases ha : a.isNull <;> cases hb : b.isNull <;> simp [IsMixed, ha, hb]

private theorem firstObstacle_pair {a b : Schema} (h : ¬ IsMixed [a, b]) :
    (union [a, b]).firstObstacle = a.firstObstacle.or b.firstObstacle := by
  rw [firstObstacle_of_not_mixed h, findSome?_visitedMembers_cons, findSome?_visitedMembers_cons,
    visitedMembers, List.findSome?_nil, Option.or_none]

/-- One null can be told from the other member, as different members have different keys. -/
private theorem not_isNull_pair {a b : Schema} (h : ([a, b].map memberKey).Nodup) :
    ¬ (a.isNull = true ∧ b.isNull = true) := by
  rintro ⟨ha, hb⟩
  cases a <;> cases ha
  cases b <;> cases hb
  simp at h

/-- A union ends as its members do, unless it is mixed. -/
private theorem ends_union {members : List Schema} (hne : members ≠ [])
    (hkeys : (members.map memberKey).Nodup)
    (h : ∀ s ∈ members, Ends (s.toLogical mapping) s.firstObstacle) :
    Ends ((union members).toLogical mapping) (union members).firstObstacle := by
  match members with
  | [] => exact absurd rfl hne
  | [only] =>
    have honly := h only List.mem_cons_self
    rw [firstObstacle_of_not_mixed (not_isMixed_single only), findSome?_visitedMembers_cons,
      visitedMembers, List.findSome?_nil, Option.or_none, toLogical]
    exact honly
  | [a, b] =>
    have ha := h a List.mem_cons_self
    have hb := h b (List.mem_cons_of_mem a List.mem_cons_self)
    cases hnullA : a.isNull with
    | false =>
      cases hnullB : b.isNull with
      | false =>
        rw [firstObstacle_of_mixed ((isMixed_pair a b).2 ⟨hnullA, hnullB⟩)]
        simp only [toLogical, hnullA, hnullB]
        exact .ok _
      | true =>
        have hmixed : ¬ IsMixed [a, b] := by simp [hnullB]
        rw [firstObstacle_pair hmixed, firstObstacle_of_isNull hnullB, Option.or_none]
        simp only [toLogical, hnullA, hnullB]
        exact ha.exceptBind_ok fun t _ => ⟨_, rfl⟩
    | true =>
      have hmixed : ¬ IsMixed [a, b] := by simp [hnullA]
      cases hnullB : b.isNull with
      | false =>
        rw [firstObstacle_pair hmixed, firstObstacle_of_isNull hnullA, Option.none_or]
        simp only [toLogical, hnullA, hnullB]
        exact hb.exceptBind_ok fun t _ => ⟨_, rfl⟩
      | true => exact absurd ⟨hnullA, hnullB⟩ (not_isNull_pair hkeys)
  | a :: b :: c :: rest =>
    -- A mixed union becomes a raw type, so its members have no say in how it ends.
    have hmixed : IsMixed (a :: b :: c :: rest) := .inl (by simp)
    rw [firstObstacle_of_mixed hmixed]
    simp only [toLogical]
    exact .ok _

/-- The conversion of a checked schema ends with its first obstacle. -/
theorem ends_toLogical {s : Schema} (h : s.Checked) :
    Ends (s.toLogical mapping) s.firstObstacle := by
  induction h with
  | @primitive s h =>
    cases s with
    | int a => exact ends_of_visited rfl (ends_of_fits h (by decide) (intType a))
    | long a => exact ends_of_visited rfl (ends_of_fits h (by decide) (longType mapping a))
    | string a => exact ends_of_visited rfl (ends_of_fits h (by decide) .string)
    | bytes a => exact ends_of_visited rfl (ends_bytesType h .bytes)
    | null => exact .ok _
    | boolean => exact .ok _
    | float => exact .ok _
    | double => exact .ok _
    | _ => exact h.elim
  | ref n => exact .error _
  | enum n symbols => exact .ok _
  | @fixed n size a hfits _ => exact ends_of_visited rfl (ends_bytesType hfits (.binary size))
  | array _ ih => exact ih.exceptBind_ok fun t _ => ⟨_, rfl⟩
  | map _ ih => exact ih.exceptBind_ok fun t _ => ⟨_, rfl⟩
  | union hne _ hkeys _ ih => exact ends_union hne hkeys ih
  | @record n doc fs hnames _ ih =>
    refine (ends_fieldsToLogical ih).exceptBind_ok fun ts hts => ?_
    have hcheck : checkFields ts = .ok () := by
      simpa [map_name_fieldsToLogical hts] using hnames
    exact ⟨_, rowType_eq_ok.2 ⟨hcheck, rfl⟩⟩

/-! ## Documents -/

/-- A document that was read has a logical type exactly when no reference and no decimal with
more than 38 digits is visited; otherwise it fails with the first of them. It never fails
because of a type that breaks a rule or because of a union without a meaning. -/
theorem toLogical_of_ofJson? (mapping : TimestampMapping) (v : Json) (s : Schema)
    (h : ofJson? v = .ok s) :
    ((∃ t, s.toLogical mapping = .ok t) ↔
      ∀ u ∈ s.visited, (∀ n, u ≠ .ref n) ∧ ∀ precision scale,
        u.refinement? = some (.decimal precision scale) → precision ≤ maxDecimalPrecision) ∧
      (∀ failure, s.toLogical mapping = .error failure ↔
        s.visited.findSome? obstacle = some failure) ∧
      (∀ fault, s.toLogical mapping ≠ .error (.invalidType fault)) ∧
      ∀ fault, s.toLogical mapping ≠ .error (.unsupported (.union fault)) := by
  have hends : Ends (s.toLogical mapping) s.firstObstacle := ends_toLogical (checked_of_ofJson? h)
  have hobstacle : ∀ failure, s.toLogical mapping = .error failure →
      ∃ u ∈ s.visited, u.obstacle = some failure :=
    fun failure hfail => List.exists_of_findSome?_eq_some (hends.eq_error_iff.1 hfail)
  refine ⟨?_, fun failure => hends.eq_error_iff, ?_, ?_⟩
  · rw [hends.exists_ok_iff, firstObstacle, List.findSome?_eq_none_iff]
    simp only [obstacle_eq_none]
  · intro fault hfail
    obtain ⟨u, -, hu⟩ := hobstacle _ hfail
    rcases obstacle_eq_some.1 hu with ⟨n, -, hsame⟩ | ⟨precision, scale, -, -, hsame⟩
    all_goals cases hsame
  · intro fault hfail
    obtain ⟨u, -, hu⟩ := hobstacle _ hfail
    rcases obstacle_eq_some.1 hu with ⟨n, -, hsame⟩ | ⟨precision, scale, -, -, hsame⟩
    all_goals cases hsame

/-- A record whose first field hides a large decimal in a mixed union, before another large
decimal and a reference to the record. -/
theorem toLogical_of_ofJson?_node :
    let v : Json := .obj [("type", .str "record"), ("name", .str "Node"), ("fields", .arr [
      .obj [("name", .str "choice"), ("type", .arr [.str "int", .str "string",
        .obj [("type", .str "bytes"), ("logicalType", .str "decimal"),
          ("precision", .ofUInt32 50)]])],
      .obj [("name", .str "amount"), ("type", .arr [.str "null",
        .obj [("type", .str "bytes"), ("logicalType", .str "decimal"),
          ("precision", .ofUInt32 40)]])],
      .obj [("name", .str "next"), ("type", .arr [.str "null", .str "Node"])]])]
    ∃ s, ofJson? v = .ok s ∧ s.toLogical .modern = .error (.precisionRange .decimal 40 38) := by
  intro v
  let s : Schema := .record ⟨"Node", none⟩ none [
    ⟨"choice", .union [.int none, .string none, .bytes (some (.decimal 50 0))], none⟩,
    ⟨"amount", .union [.null, .bytes (some (.decimal 40 0))], none⟩,
    ⟨"next", .union [.null, .ref ⟨"Node", none⟩], none⟩]
  have hs : ofJson? v = .ok s := by rfl
  obtain ⟨-, hfirst, -, -⟩ := toLogical_of_ofJson? .modern v s hs
  exact ⟨s, hs, (hfirst _).2 rfl⟩

end Schema
end Restorable
