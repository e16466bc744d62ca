-- SUMMARY: A pool of type names in which every claimed name is new.

/-!
# Pools of names

The named types of one document share a name space. A pool remembers every name that
it handed out; a candidate that is taken gets the least numeric suffix from 2 on that
makes it new.
-/
namespace Restorable

/-- The names handed out so far, and how many of them needed a suffix. -/
structure NamePool where
  taken : List String
  suffixed : Nat

namespace NamePool

def empty : NamePool := ⟨[], 0⟩

/-- The candidate for a type inside a field of a record. -/
def childName (parent field : String) : String := parent ++ "_" ++ field

/-- A candidate with a numeric suffix. -/
def withSuffix (candidate : String) (n : Nat) : String := candidate ++ "_" ++ Nat.repr n

/-- The first suffix from `n` on that gives a name outside the pool, among `tries + 1`. -/
def firstFree (taken : List String) (candidate : String) (n : Nat) : Nat → Nat
  | 0 => n
  | tries + 1 =>
    if withSuffix candidate n ∈ taken then firstFree taken candidate (n + 1) tries else n

/-- The name claimed for a candidate, and the pool that has it. One of as many suffixes
as names are taken is free. -/
def claim (pool : NamePool) (candidate : String) : String × NamePool :=
  if candidate ∈ pool.taken then
    let name := withSuffix candidate (firstFree pool.taken candidate 2 pool.taken.length)
    (name, ⟨name :: pool.taken, pool.suffixed + 1⟩)
  else (candidate, ⟨candidate :: pool.taken, pool.suffixed⟩)

end NamePool
end Restorable
