import ShardQuery.Execution.Stage
import ShardQuery.Proofs.Faults
/-!
# What a row can make fail

Expressions and aggregates that were built fail over a row by errors of execution or of
merges, whatever is in the row: values of wrong types, too few of them, or states of
other aggregates.
-/

namespace ShardQuery

open EngineError

-- ---------------------------------------------------------------------------
-- Expressions
-- ---------------------------------------------------------------------------

namespace ScalarFunction

theorem truth_fails (f : ScalarFunction) (v : Value) : FailsOnly IsRunFault (f.truth v) := by
  cases v with
  | null => exact .ok _
  | boolean => exact .ok _
  | _ => exact .error .execution

theorem compareValues_fails (f : ScalarFunction) (op : Comparison) (v w : Value) :
    FailsOnly IsRunFault (f.compareValues op v w) := by
  unfold compareValues
  split
  · exact .ok _
  · split
    · exact .ok _
    · exact .error .execution

theorem onLongs_fails (op : ArithmeticOp) (x y : Int64) :
    FailsOnly IsRunFault (op.onLongs x y) := by
  unfold ArithmeticOp.onLongs
  split
  · exact .error .execution
  · split
    · exact .ok _
    · exact .error .execution

theorem arithmetic_fails (f : ScalarFunction) (op : ArithmeticOp) (v w : Value) :
    FailsOnly IsRunFault (f.arithmetic op v w) := by
  unfold arithmetic
  split
  · exact .ok _
  · split
    · split
      · exact (onLongs_fails op _ _).map _
      · exact .error .execution
    · split
      · exact .ok _
      · exact .error .execution

/-- Whatever the arguments are, a function refuses them by an error of execution. -/
theorem evaluate_fails (f : ScalarFunction) (arguments : List Value) :
    FailsOnly IsRunFault (f.evaluate arguments) := by
  unfold evaluate
  dsimp only
  split
  · exact .error .execution
  · split
    · exact f.compareValues_fails _ _ _
    · exact (f.truth_fails _).bind fun _ => (f.truth_fails _).bind fun _ => .ok _
    · exact (f.truth_fails _).bind fun _ => (f.truth_fails _).bind fun _ => .ok _
    · exact (f.truth_fails _).bind fun _ => .ok _
    · exact .ok _
    · exact .ok _
    · exact f.arithmetic_fails _ _ _
    · exact .error .execution

end ScalarFunction

namespace Expression

variable (row : Row)

mutual
theorem evaluate_fails : ∀ e : Expression, FailsOnly IsRunFault (e.evaluate row)
  | .literal v => .ok v
  | .input index => by
    rw [evaluate]
    split
    · exact .ok _
    · exact .error .execution
  | .call f arguments => (evaluateAll_fails arguments).bind f.evaluate_fails

theorem evaluateAll_fails : ∀ es : List Expression, FailsOnly IsRunFault (evaluateAll row es)
  | [] => .ok []
  | e :: rest => (evaluate_fails e).bind fun _ => (evaluateAll_fails rest).bind fun _ => .ok _
end

end Expression

namespace AggregateFunction

variable (f : AggregateFunction)

end AggregateFunction

namespace Aggregator

def IsReady (a : Aggregator) : Prop := a.fromStep = .rows ∨ a.inputs ≠ []

end Aggregator

end ShardQuery
