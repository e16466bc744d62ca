-- SUMMARY: Reading a configuration at the keys that were set.
import Restorable.Proofs.Json.Accessors
import Restorable.Snapshot.Config

/-!
# Keys of configurations

Setting a key changes what is read at that key and nothing else, and every accessor
reads back a value of its own type.
-/
namespace Restorable

namespace Config

/-! ## Accessors -/

@[simp] theorem get?_insert_self (c : Config) (key : String) (value : Json) :
    (c.insert key value).get? key = some value.sorted :=
  Json.find?_insertEntry_self key value.sorted c.entries

@[simp] theorem get?_insert_of_ne {key other : String} (c : Config) (value : Json)
    (h : other ≠ key) : (c.insert key value).get? other = c.get? other :=
  Json.find?_insertEntry_of_ne value.sorted c.entries h

@[simp] theorem uint32?_insert_self (c : Config) (key : String) (n : UInt32) :
    (c.insert key (.ofUInt32 n)).uint32? key = some n := by
  simp [uint32?]

@[simp] theorem uint32?_insert_of_ne {key other : String} (c : Config) (value : Json)
    (h : other ≠ key) : (c.insert key value).uint32? other = c.uint32? other := by
  simp [uint32?, h]

@[simp] theorem bool?_insert_self (c : Config) (key : String) (b : Bool) :
    (c.insert key (.bool b)).bool? key = some b := by
  simp [bool?, Json.sorted, Json.bool?]

@[simp] theorem str?_insert_self (c : Config) (key : String) (s : String) :
    (c.insert key (.str s)).str? key = some s := by
  simp [str?, Json.sorted, Json.str?]

/-- A list of strings is read back whole. -/
@[simp] theorem strings?_insert_self (c : Config) (key : String) (ss : List String) :
    (c.insert key (.ofStrings ss)).strings? key = some ss := by
  unfold strings?
  rw [get?_insert_self]
  simp only [Json.ofStrings, Json.sorted, Json.sortedItems_strings, Option.bind_some, Json.arr?,
    Option.map_some, Json.filterMap_strings]

end Config
end Restorable
