import ShardQuery.Job.Plan
import ShardQuery.Proofs.Projection.Wire
/-!
# Plans that are written and read again

The phases of a plan come back as they were, and the bytes behind them stay for the
next reader. What has too many levels is written, but no reader takes it.
-/

namespace ShardQuery

open Wire Output

theorem CollectPhase.write_restores {phase : CollectPhase}
    (hshard : ∀ p ∈ phase.shardProjections, p.IsPortable)
    (hnode : ∀ p ∈ phase.nodeProjections, p.IsPortable) :
    phase.write.Spells (CollectPhase.read.Restores True) phase := by
  rw [CollectPhase.write, append_assoc, append_assoc, ← of_append_of]
  exact .always (.of_reads Reader.job_reads fun _ => rfl)
    (.always (Projection.encodeAll_restores hshard)
      (.always (Projection.encodeAll_restores hnode)
        (.always (DataType.list_restores phase.outputTypes)
          ((text_restores phase.mergeNode).map fun mergeNode =>
            (⟨phase.job, phase.shardProjections, phase.nodeProjections, phase.outputTypes,
              mergeNode⟩ : CollectPhase)))))

theorem MergePhase.write_restores {phase : MergePhase}
    (h : ∀ p ∈ phase.projections, p.IsPortable) :
    phase.write.Spells (MergePhase.read.Restores True) phase := by
  rw [MergePhase.write, ← of_append_of, append_assoc, append_assoc]
  exact .always (.of_reads Reader.job_reads fun _ => rfl)
    (.always (DataType.list_restores phase.inputTypes)
      (.always (Projection.encodeAll_restores h)
        ((vlong_restores phase.producers).map fun producers =>
          (⟨phase.job, phase.inputTypes, phase.projections, producers⟩ : MergePhase))))

/-- Portable projections and phases made of them survive writing and reading. Symbols with more
than 64 levels are written, but cannot be read. -/
theorem plans_round_trip :
    (∀ projections : List Projection, (∀ p ∈ projections, p.IsPortable) →
      RoundTrips (Projection.encodeAll projections) Projection.readAll projections) ∧
    (∀ phase : CollectPhase, (∀ p ∈ phase.shardProjections, p.IsPortable) →
      (∀ p ∈ phase.nodeProjections, p.IsPortable) →
      RoundTrips phase.write CollectPhase.read phase) ∧
    (∀ phase : MergePhase, (∀ p ∈ phase.projections, p.IsPortable) →
      RoundTrips phase.write MergePhase.read phase) ∧
    ∀ symbol : Symbol, symbol.LiteralsFit → 64 < symbol.levels →
      ∃ bytes, symbol.write.toExcept = .ok bytes ∧ (bytes.length < 2 ^ 64 →
        ∀ rest, ∃ reason cursor,
          Symbol.read.start (bytes ++ rest) = (.error (.serialization reason), cursor)) := by
  refine ⟨fun projections h => .of_spells (Projection.encodeAll_restores h),
    fun phase hshard hnode => .of_spells (CollectPhase.write_restores hshard hnode),
    fun phase h => .of_spells (MergePhase.write_restores h), fun symbol h hlevels => ?_⟩
  obtain ⟨bytes, hwrite, hb⟩ := Symbol.write_restores h
  have hdeep : ¬ symbol.IsReadable := fun hr => absurd hr.2 (Nat.not_le_of_lt hlevels)
  refine ⟨bytes, by rw [hwrite]; rfl, fun hlen rest => ?_⟩
  obtain ⟨_, cursor, hread, reason, rfl⟩ := (hb hlen).refuses hdeep (.start bytes rest)
  exact ⟨reason, cursor, hread⟩

def Symbol.nest (info : FunctionInfo) (symbol : Symbol) : Nat → Symbol
  | 0 => symbol
  | n + 1 => .call info [nest info symbol n]

theorem Symbol.levels_nest (info : FunctionInfo) (symbol : Symbol) (n : Nat) :
    (nest info symbol n).levels = symbol.levels + n := by
  induction n with
  | zero => rfl
  | succ n ih => rw [nest, levels, levelsOf, levelsOf, ih, Nat.max_zero, Nat.add_assoc]

theorem Symbol.literalsFit_nest {info : FunctionInfo} {symbol : Symbol} (h : symbol.LiteralsFit)
    (n : Nat) : (nest info symbol n).LiteralsFit := by
  induction n with
  | zero => exact h
  | succ n ih => exact literalsFit_call.mpr (List.forall_mem_singleton.mpr ih)

theorem plans_round_trip_nested :
    let amount := Symbol.reference 0 .long
    let top := Projection.topN [amount, .literal .null .string] [⟨amount, true, none⟩] (some 10) 2
      .cluster
    let phase : CollectPhase := ⟨.nil, [top], [], [.long, .string], "a"⟩
    let info : FunctionInfo := ⟨⟨"not", [.boolean]⟩, .boolean, .scalar⟩
    let deep := Symbol.nest info (.literal (.boolean true) .boolean) 64
    top.IsPortable ∧ RoundTrips (Projection.encodeAll [top]) Projection.readAll [top] ∧
      RoundTrips phase.write CollectPhase.read phase ∧
      RoundTrips (MergePhase.write ⟨.nil, [.long], [top], 3⟩) MergePhase.read
        ⟨.nil, [.long], [top], 3⟩ ∧
      deep.LiteralsFit ∧ 64 < deep.levels ∧
      ∃ bytes, deep.write.toExcept = .ok bytes ∧ (bytes.length < 2 ^ 64 →
        ∀ rest, ∃ reason cursor,
          Symbol.read.start (bytes ++ rest) = (.error (.serialization reason), cursor)) := by
  intro amount top phase info deep
  have htop : top.IsPortable := by
    constructor <;>
      simp [top, amount, Projection.symbols, Symbol.LiteralsFit, Symbol.IsFlat, Symbol.literals,
        Symbol.levels, Value.fits, Value.isNull, Value.IsFlat, Projection.limit?]
  have hall : ∀ p ∈ [top], p.IsPortable := List.forall_mem_singleton.mpr htop
  have hliteral : (Symbol.literal (.boolean true) .boolean).LiteralsFit := by
    simp [Symbol.LiteralsFit, Symbol.literals, Value.fits, Value.dataType]
  have hfit : deep.LiteralsFit := Symbol.literalsFit_nest hliteral 64
  have hlevels : 64 < deep.levels := by
    rw [Symbol.levels_nest]
    decide
  obtain ⟨hlist, hcollect, hmerge, hdeep⟩ := plans_round_trip
  exact ⟨htop, hlist [top] hall, hcollect phase hall (List.forall_mem_nil _), hmerge _ hall, hfit,
    hlevels, hdeep deep hfit hlevels⟩

end ShardQuery
