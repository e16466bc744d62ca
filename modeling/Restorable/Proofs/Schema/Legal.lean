-- SUMMARY: Which schemas a document can say: legal names, annotations, unions and records.
import Restorable.Proofs.Schema.Names

/-!
# Legal schemas

A schema is legal inside a namespace when a document there can say it: annotations fit
their types, names are spelled without a namespace beside them, unions have different
members, and a reference stands inside the record that it refers to. Its named types are
listed in document order; a table of meanings agrees with them when it gives each name
the type that stands under it.
-/
namespace Restorable

/-! ## Annotations and names -/

/-- A decimal has a digit, and no more digits behind the point than it has. -/
def Refinement.Sound : Refinement → Prop
  | .decimal precision scale => 0 < precision ∧ scale ≤ precision
  | _ => True

/-- No annotation, or a sound one that applies. -/
def Refinement.Fits (a : Option Refinement) (p : Physical) : Prop :=
  ∀ r, a = some r → r.appliesTo p = true ∧ r.Sound

@[simp] theorem Refinement.fits_none (p : Physical) : Refinement.Fits none p := by
  intro r h
  cases h

theorem Refinement.fits_some {r : Refinement} {p : Physical} :
    Refinement.Fits (some r) p ↔ r.appliesTo p = true ∧ r.Sound := by
  constructor
  · intro h
    exact h r rfl
  · intro h r' heq
    cases heq
    exact h

theorem Refinement.on_of_fits {a : Option Refinement} {p : Physical} (h : Refinement.Fits a p) :
    Refinement.on a p = a := by
  cases a with
  | none => rfl
  | some r => simp [Refinement.on, Option.filter, (Refinement.fits_some.1 h).1]

/-- The full name of `n` alone says `n` inside the namespace `space`. -/
structure Name.Writable (n : Name) (space : Option String) : Prop where
  definable : Name.Definable n.full
  spelled : Name.ofFull n.full = n
  undotted : n.space = none → space = none

/-- Inside a namespace where its full name says it, a name is read from its full name. -/
theorem Name.qualified_full {n : Name} {space : Option String} (h : n.Writable space) :
    Name.qualified n.full none space = n := by
  unfold Name.qualified
  rw [h.spelled]
  obtain ⟨name, own⟩ := n
  cases own with
  | some own => rfl
  | none =>
    have hspace : space = none := h.undotted rfl
    simp [hspace, Option.filter]

/-- A definable text writes a name, where an undotted one stands in no namespace. -/
theorem Name.writable_ofFull {text : String} {space : Option String} (h : Name.Definable text)
    (hs : (Name.ofFull text).space = none → space = none) : (Name.ofFull text).Writable space := by
  refine ⟨?_, ?_, hs⟩
  · simpa using h
  · rw [Name.full_ofFull]

namespace Schema

/-! ## Legal schemas -/

def isUnion : Schema → Bool
  | .union _ => true
  | _ => false

mutual

/-- Whether a document can say the schema inside the namespace `space`, where the records
with the full names `around` stand around it. -/
def Legal (space : Option String) (around : List String) : Schema → Prop
  | .null | .boolean | .float | .double => True
  | .int a => Refinement.Fits a .int
  | .long a => Refinement.Fits a .long
  | .string a => Refinement.Fits a .string
  | .bytes a => Refinement.Fits a .bytes
  | .fixed n size a =>
    n.Writable space ∧ Refinement.Fits a .fixed ∧ size < 2147483648 ∧ checkFixed size a = .ok ()
  | .enum n _ => n.Writable space
  | .array s | .map s => s.Legal space around
  | .union ss =>
    ss ≠ [] ∧ (∀ s ∈ ss, s.isUnion = false) ∧ (ss.map memberKey).Nodup ∧ AllLegal space around ss
  | .record n _ fs =>
    n.Writable space ∧ (∀ f ∈ fs, Name.isIdentifier f.name.toList = true) ∧
      (fs.map Field.name).Nodup ∧ FieldsLegal n.space (n.full :: around) fs
  | .ref n => n.Writable space ∧ n.full ∈ around

def AllLegal (space : Option String) (around : List String) : List Schema → Prop
  | [] => True
  | s :: ss => s.Legal space around ∧ AllLegal space around ss

def FieldsLegal (space : Option String) (around : List String) : List (Field Schema) → Prop
  | [] => True
  | ⟨_, s, _⟩ :: fs => s.Legal space around ∧ FieldsLegal space around fs

end

/-! ## Named types in document order -/

mutual

/-- The named types that stand in the schema, each under its full name. -/
def types : Schema → List (String × Schema)
  | .fixed n size a => [(n.full, .fixed n size a)]
  | .enum n symbols => [(n.full, .enum n symbols)]
  | .array s | .map s => s.types
  | .union ss => memberTypes ss
  | .record n doc fs => (n.full, .record n doc fs) :: fieldTypes fs
  | _ => []

def memberTypes : List Schema → List (String × Schema)
  | [] => []
  | s :: ss => s.types ++ memberTypes ss

def fieldTypes : List (Field Schema) → List (String × Schema)
  | [] => []
  | ⟨_, s, _⟩ :: fs => s.types ++ fieldTypes fs

end

mutual

/-- A named type is no larger than the schema that it stands in. -/
private theorem sizeOf_of_mem_types : (s : Schema) → {d : String × Schema} → d ∈ s.types →
    sizeOf d.2 ≤ sizeOf s
  | .fixed .., d, h | .enum .., d, h => by
    obtain rfl : d = _ := by simpa only [types, List.mem_singleton] using h
    exact Nat.le_refl _
  | .array s, d, h | .map s, d, h => by
    have := sizeOf_of_mem_types s (by simpa only [types] using h)
    simp only [array.sizeOf_spec, map.sizeOf_spec]
    omega
  | .union ss, d, h => by
    have := sizeOf_of_mem_memberTypes ss (by simpa only [types] using h)
    simp only [union.sizeOf_spec]
    omega
  | .record _ _ fs, d, h => by
    simp only [types, List.mem_cons] at h
    rcases h with rfl | h
    · exact Nat.le_refl _
    · have := sizeOf_of_mem_fieldTypes fs h
      simp only [record.sizeOf_spec]
      omega
  | .null, d, h | .boolean, d, h | .int _, d, h | .long _, d, h | .float, d, h
  | .double, d, h | .string _, d, h | .bytes _, d, h | .ref _, d, h => by
    simp only [types, List.not_mem_nil] at h

private theorem sizeOf_of_mem_memberTypes : (ss : List Schema) → {d : String × Schema} →
    d ∈ memberTypes ss → sizeOf d.2 ≤ sizeOf ss
  | [], d, h => by simp only [memberTypes, List.not_mem_nil] at h
  | s :: ss, d, h => by
    simp only [memberTypes, List.mem_append] at h
    simp only [List.cons.sizeOf_spec]
    rcases h with h | h
    · have := sizeOf_of_mem_types s h
      omega
    · have := sizeOf_of_mem_memberTypes ss h
      omega

theorem sizeOf_of_mem_fieldTypes : (fs : List (Field Schema)) → {d : String × Schema} →
    d ∈ fieldTypes fs → sizeOf d.2 ≤ sizeOf fs
  | [], d, h => by simp only [fieldTypes, List.not_mem_nil] at h
  | ⟨_, s, _⟩ :: fs, d, h => by
    simp only [fieldTypes, List.mem_append] at h
    simp only [List.cons.sizeOf_spec, Field.mk.sizeOf_spec]
    rcases h with h | h
    · have := sizeOf_of_mem_types s h
      omega
    · have := sizeOf_of_mem_fieldTypes fs h
      omega

end

/-! ## Tables of meanings -/

/-- The table gives every listed name the type listed under it. -/
def Agrees (table : String → Option Schema) (ds : List (String × Schema)) : Prop :=
  ∀ d ∈ ds, table d.1 = some d.2

theorem agrees_cons {table : String → Option Schema} {d : String × Schema}
    {ds : List (String × Schema)} :
    Agrees table (d :: ds) ↔ table d.1 = some d.2 ∧ Agrees table ds := by
  unfold Agrees
  exact List.forall_mem_cons

theorem agrees_append {table : String → Option Schema} {ds es : List (String × Schema)} :
    Agrees table (ds ++ es) ↔ Agrees table ds ∧ Agrees table es := by
  unfold Agrees
  exact List.forall_mem_append

/-- Lists without a repeated name have a table: their own lookup. -/
theorem agrees_lookup {ds : List (String × Schema)} (h : (ds.map Prod.fst).Nodup) :
    Agrees (ds.lookup ·) ds := by
  induction ds with
  | nil => simp [Agrees]
  | cons d ds ih =>
    obtain ⟨full, s⟩ := d
    obtain ⟨hnew, hds⟩ := List.nodup_cons.1 h
    refine agrees_cons.2 ⟨by simp, ?_⟩
    intro e he
    have hne : e.1 ≠ full := by
      intro heq
      exact hnew (List.mem_map.2 ⟨e, he, heq⟩)
    simp only [List.lookup_cons, beq_eq_false_iff_ne.2 hne]
    exact ih hds e he

/-- Inside a record no type has the name of the record, as one name has one meaning and a
type does not contain itself. -/
theorem ne_of_mem_fieldTypes {table : String → Option Schema} {n : Name} {doc : Option String}
    {fs : List (Field Schema)} (h : Agrees table (types (.record n doc fs)))
    {d : String × Schema} (hd : d ∈ fieldTypes fs) : d.1 ≠ n.full := by
  intro heq
  simp only [types, agrees_cons] at h
  have hsame : some (Schema.record n doc fs) = some d.2 := by
    rw [← h.1, ← heq]
    exact h.2 d hd
  have hsize := sizeOf_of_mem_fieldTypes fs hd
  rw [← Option.some.inj hsame, record.sizeOf_spec] at hsize
  omega

end Schema
end Restorable
