import TypeAtlas.Registry.LoadError

/-!
# Demands on memory

What a step asks of the memory it works on, beyond its outcome: slices and elements that must
be there, numbers that a word must hold, room that is reserved at once. An audited step keeps
the demands it has made, in order, also when it fails.
-/

namespace TypeAtlas

inductive Demand where
  /-- The part of a slice from `start` up to `stop`. -/
  | slice (start stop length : Nat)
  | element (position length : Nat)
  /-- A slice that is copied over an array. -/
  | copy (length width : Nat)
  /-- A sum or product of machine words. -/
  | number (value : Nat)
  /-- The elements that room is reserved for at once. -/
  | room (capacity : Nat)
  /-- A member that is pushed, and whether its record takes it. -/
  | push (taken : Bool)
  /-- A walk along a chain that is not over after as many nodes as there are. -/
  | endless
  deriving DecidableEq, Repr

/-- The demand is safe to make, when room may be reserved for `limit` elements. -/
def Demand.Met (limit : Nat) : Demand → Prop
  | slice start stop length => start ≤ stop ∧ stop ≤ length
  | element position length => position < length
  | copy length width => length = width
  | number value => value < UInt64.size
  | room capacity => capacity ≤ limit
  | push taken => taken = true
  | endless => False

structure Audited (α : Type) where
  demands : List Demand
  outcome : Except LoadError α

namespace Audited

instance : Monad Audited where
  pure value := ⟨[], .ok value⟩
  bind step next :=
    match step.outcome with
    | .error fault => ⟨step.demands, .error fault⟩
    | .ok value => ⟨step.demands ++ (next value).demands, (next value).outcome⟩

def demand (demands : List Demand) : Audited Unit := ⟨demands, .ok ()⟩

def plain (step : Except LoadError α) : Audited α := ⟨[], step⟩

def fail (fault : LoadError) : Audited α := plain (.error fault)

end Audited

end TypeAtlas
