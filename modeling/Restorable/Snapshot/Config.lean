-- SUMMARY: The configuration of an encoder: sorted keys with JSON values.
import Restorable.Json.Sorted

/-!
# Configurations

A configuration is a sorted JSON object. The accessors read a value only when it has
the type they ask for; a list of strings leaves out what is no string.
-/
namespace Restorable

/-- The configuration of an encoder. -/
structure Config where
  entries : List (String × Json)
  sorted : (Json.obj entries).IsSorted

namespace Config

def empty : Config := ⟨[], by simp [Json.IsSorted, Json.EntriesSorted]⟩

instance : Inhabited Config := ⟨empty⟩

/-- The entries of an object, sorted. -/
def ofEntries (es : List (String × Json)) : Config :=
  ⟨Json.sortedEntries es [], by
    simpa [Json.IsSorted] using
      Json.sorted_sortedEntries es [] (by simp) (by simp [Json.EntriesSorted])⟩

/-- The configuration that a JSON object describes. -/
def ofJson? : Json → Option Config
  | .obj es => some (ofEntries es)
  | _ => none

def toJson (c : Config) : Json := .obj c.entries

/-- Set a key, in place of the value that it has. -/
def insert (c : Config) (key : String) (value : Json) : Config :=
  ⟨Json.insertEntry key value.sorted c.entries, by
    have h := c.sorted
    simp only [Json.IsSorted] at h ⊢
    exact ⟨Json.pairwise_insertEntry h.1,
      Json.entriesSorted_insertEntry (Json.isSorted_sorted value) h.2⟩⟩

/-! ## Accessors -/

def get? (c : Config) (key : String) : Option Json := Json.find? key c.entries

/-- A non-negative integer below 2^32. -/
def uint32? (c : Config) (key : String) : Option UInt32 := (c.get? key).bind Json.uint32?

def bool? (c : Config) (key : String) : Option Bool := (c.get? key).bind Json.bool?

def str? (c : Config) (key : String) : Option String := (c.get? key).bind Json.str?

/-- The strings of an array; its other items are passed over. -/
def strings? (c : Config) (key : String) : Option (List String) :=
  ((c.get? key).bind Json.arr?).map (·.filterMap Json.str?)

def isEmpty (c : Config) : Bool := c.entries.isEmpty

/-- Equality of the entries as JSON values. -/
def same (c d : Config) : Bool := Json.sameEntries c.entries d.entries

end Config
end Restorable
