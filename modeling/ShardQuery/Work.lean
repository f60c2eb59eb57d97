import ShardQuery.Error
/-!
# Work

Work that may fail and that changes a state, also where it fails.
-/

namespace ShardQuery

abbrev Work (σ α : Type) := ExceptT EngineError (StateM σ) α

namespace Work

variable {σ α : Type}

def ofExcept (result : Except EngineError α) : Work σ α := ExceptT.mk (pure result)

/-- Does the work and goes on even if it fails. -/
def attempt (work : Work σ α) : Work σ (Except EngineError α) :=
  ExceptT.mk (do return .ok (← work.run))

def within (work : Work σ α) (state : σ) : Except EngineError α × σ := StateT.run work.run state

end Work

end ShardQuery
