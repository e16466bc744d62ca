-- SUMMARY: A normal form of schemas: two schemas are the same exactly when it is equal.
import Restorable.Proofs.Json.Normal
import Restorable.Proofs.Schema.Legal

/-!
# Normal forms of schemas

Two schemas are the same when they differ at most in the signs of zeros inside defaults.
The normal form drops these signs. It keeps everything that the reader looks at.
-/
namespace Restorable
namespace Schema

mutual

/-- The schema with the normal forms of its defaults. -/
def normal : Schema → Schema
  | .array s => .array s.normal
  | .map s => .map s.normal
  | .union ss => .union (normalMembers ss)
  | .record n doc fs => .record n doc (normalFields fs)
  | s => s

def normalMembers : List Schema → List Schema
  | [] => []
  | s :: ss => s.normal :: normalMembers ss

def normalFields : List (Field Schema) → List (Field Schema)
  | [] => []
  | ⟨name, s, default⟩ :: fs => ⟨name, s.normal, default.map Json.normal⟩ :: normalFields fs

end

theorem sameDefault_iff_normal (d e : Option Json) :
    sameDefault d e = true ↔ d.map Json.normal = e.map Json.normal := by
  cases d <;> cases e <;> simp [sameDefault, Json.same_iff_normal]

mutual

theorem same_iff_normal : (s t : Schema) → (s.same t = true ↔ s.normal = t.normal)
  | .null, t | .boolean, t | .int _, t | .long _, t | .float, t | .double, t | .string _, t
  | .bytes _, t | .ref _, t => by cases t <;> simp [same, normal]
  | .fixed n size a, t => by cases t <;> simp [same, normal, and_assoc]
  | .enum n symbols, t => by cases t <;> simp [same, normal]
  | .array s, t => by
    cases t with
    | array t => simpa [same, normal] using same_iff_normal s t
    | _ => simp [same, normal]
  | .map s, t => by
    cases t with
    | map t => simpa [same, normal] using same_iff_normal s t
    | _ => simp [same, normal]
  | .union ss, t => by
    cases t with
    | union ts => simpa [same, normal] using sameMembers_iff_normal ss ts
    | _ => simp [same, normal]
  | .record n doc fs, t => by
    cases t with
    | record m e gs => simp [same, normal, sameFields_iff_normal fs gs, and_assoc]
    | _ => simp [same, normal]

theorem sameMembers_iff_normal : (ss ts : List Schema) →
    (sameMembers ss ts = true ↔ normalMembers ss = normalMembers ts)
  | [], ts => by cases ts <;> simp [sameMembers, normalMembers]
  | s :: ss, ts => by
    cases ts with
    | nil => simp [sameMembers, normalMembers]
    | cons t ts =>
      simp [sameMembers, normalMembers, same_iff_normal s t, sameMembers_iff_normal ss ts]

theorem sameFields_iff_normal : (fs gs : List (Field Schema)) →
    (sameFields fs gs = true ↔ normalFields fs = normalFields gs)
  | [], gs => by cases gs <;> simp [sameFields, normalFields]
  | ⟨name, s, d⟩ :: fs, gs => by
    cases gs with
    | nil => simp [sameFields, normalFields]
    | cons g gs =>
      obtain ⟨other, t, e⟩ := g
      simp [sameFields, normalFields, same_iff_normal s t, sameDefault_iff_normal d e,
        sameFields_iff_normal fs gs, and_assoc]

end

/-! ## What the normal form keeps -/

@[simp] theorem name?_normal (s : Schema) : s.normal.name? = s.name? := by
  cases s <;> rfl

@[simp] theorem memberKey_normal (s : Schema) : s.normal.memberKey = s.memberKey := by
  cases s <;> rfl

@[simp] theorem isUnion_normal (s : Schema) : s.normal.isUnion = s.isUnion := by
  cases s <;> rfl

/-- Schemas with one normal form have one name. -/
theorem name?_eq_of_normal {s t : Schema} (h : s.normal = t.normal) : s.name? = t.name? := by
  rw [← name?_normal s, h, name?_normal t]

theorem memberKey_eq_of_normal {s t : Schema} (h : s.normal = t.normal) :
    s.memberKey = t.memberKey := by
  rw [← memberKey_normal s, h, memberKey_normal t]

theorem isUnion_eq_of_normal {s t : Schema} (h : s.normal = t.normal) : s.isUnion = t.isUnion := by
  rw [← isUnion_normal s, h, isUnion_normal t]

end Schema
end Restorable
