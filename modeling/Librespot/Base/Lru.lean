import Mathlib.Data.Option.Basic

/-!
# A cache of limited size

The operations of a cache that may forget entries, and what its user relies on: which entries an
addition drops is left open.
-/

namespace Base

structure Lru (κ α : Type) : Type 1 where
  State : Type
  new : State
  get : κ → State → Option α × State
  add : κ → α → State → State
  remove : κ → State → State

namespace Lru

variable {κ α : Type}

def found (L : Lru κ α) (key : κ) (s : L.State) : Option α := (L.get key s).1

/-- A new cache is empty, a lookup changes no entry, an addition changes no other one, and what is
removed is not found. -/
structure Lawful (L : Lru κ α) : Prop where
  found_new : ∀ key, L.found key L.new = none
  found_get : ∀ key other s, L.found key (L.get other s).2 = L.found key s
  found_add : ∀ key other a s b, L.found key (L.add other a s) = some b →
    key = other ∧ b = a ∨ L.found key s = some b
  found_remove : ∀ key other s b, L.found key (L.remove other s) = some b →
    key ≠ other ∧ L.found key s = some b

end Lru

end Base
