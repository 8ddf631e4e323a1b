/-!
# Error strategies

What a fault of grammar or meaning does to a run is chosen before the run starts.
-/

namespace SinglePass

/-- What a fault of grammar or meaning does to a run. -/
inductive Strategy where
  /-- The first one ends the run. -/
  | failFast
  /-- The run skips what it cannot make sense of. -/
  | recovering
deriving DecidableEq

end SinglePass
