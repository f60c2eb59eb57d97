import ShardQuery.Job.Node
import ShardQuery.Proofs.Aggregate.Columns
import ShardQuery.Proofs.Projection.Typing
import ShardQuery.Proofs.Request.Encode
/-!
# Rows that nodes collect

A chain of projections fits together if each one reads columns of the types that the
one before it declares, and no minimum or maximum takes the states of one of another
type. Then the rows that a node collects have the declared types, and can be sent.
-/

namespace ShardQuery

open Wire

-- ---------------------------------------------------------------------------
-- Chains that fit together
-- ---------------------------------------------------------------------------

namespace Projection

def Follows (types : List DataType) (p : Projection) : Prop :=
  ∀ s ∈ p.symbols, ∀ r ∈ s.references, types[r.1.toNat]? = some r.2

/-- Every state that a call combines, from a column or from a literal, matches it. -/
def Merges (known : List Takers) (p : Projection) : Prop :=
  ∀ call ∈ p.calls, call.fromStep = .states → ∀ f,
    Registry.builtin.verifyAggregate call.info = .ok f →
    ∀ input ∈ call.inputs, (input.column known).takers f

def takersOver (known : List Takers) (p : Projection) : List Takers :=
  (p.columnsOver known).map Column.takers

def chainTakers (known : List Takers) (projections : List Projection) : List Takers :=
  projections.foldl takersOver known

/-- Each projection agrees with the outputs of the one before it and combines states that match. -/
def Linked (known : List Takers) : List Projection → Prop
  | [] => True
  | p :: rest =>
    p.Merges known ∧ (∀ next ∈ rest.head?, next.Follows p.outputTypes) ∧
      Linked (p.takersOver known) rest

theorem chainTypes_cons (types : List DataType) (p : Projection) (rest : List Projection) :
    chainTypes types (p :: rest) = chainTypes p.outputTypes rest := by
  unfold chainTypes
  rw [List.getLast?_cons]
  cases rest.getLast? <;> rfl

theorem Linked.append {known : List Takers} {first rest : List Projection}
    (h : Linked known (first ++ rest)) : Linked (chainTakers known first) rest := by
  induction first generalizing known with
  | nil => exact h
  | cons p first ih => exact ih h.2.2

end Projection

namespace Row

/-- The row is as the first of the projections declares it, or of the types if there are none. -/
def Starts (types : List DataType) (projections : List Projection) (row : Row) : Prop :=
  match projections with
  | [] => row.Fits types
  | first :: _ => ∀ s ∈ first.symbols, row.Suits s.references

variable {row : Row} {types : List DataType} {known : List Takers}

theorem Matches.given {symbol : Symbol} {v : Value} {f : AggregateFunction} (h : row.Matches known)
    (hv : symbol.given? row = some v) (hf : (symbol.column known).takers f) : v.Matches f := by
  cases symbol with
  | literal value type =>
    cases hv
    exact hf
  | reference index type =>
    obtain ⟨takers, htakers, hf⟩ := hf
    exact h _ v takers hv htakers f hf
  | call info arguments => cases hv

theorem feeds_of_merges {p : Projection} (hsuits : ∀ s ∈ p.symbols, row.Suits s.references)
    (hknown : row.Matches known) (hmerges : p.Merges known) : row.Feeds p :=
  ⟨hsuits, fun call hcall hfrom f hf input hinput _ hv =>
    hknown.given hv (hmerges call hcall hfrom f hf input hinput)⟩

theorem Fits.starts {projections : List Projection} (h : row.Fits types)
    (hfollows : ∀ next ∈ projections.head?, next.Follows types) : row.Starts types projections := by
  cases projections with
  | nil => exact h
  | cons next rest =>
    intro s hs r hr
    have htype := hfollows next rfl s hs r hr
    obtain ⟨hi, ht⟩ := List.getElem?_eq_some_iff.mp htype
    have hlength : r.1.toNat < row.length := h.length_eq ▸ hi
    refine ⟨row[r.1.toNat], List.getElem?_eq_getElem hlength, ?_⟩
    rw [← ht]
    exact h.get hlength hi

end Row

-- ---------------------------------------------------------------------------
-- Runs of chains
-- ---------------------------------------------------------------------------

variable {factory : Factory} {known : List Takers} {types : List DataType}
  {projections rest : List Projection}

def Row.Between (types : List DataType) (known : List Takers) (rest : List Projection) (row : Row) :
    Prop :=
  row.Starts types rest ∧ row.Matches known

theorem Chain.run_all {stages : List Stage} {level : Granularity} {flow out : Flow}
    {session after : Session} (hregistry : factory.registry = .builtin)
    (hstages : List.Forall₂ (fun p stage => factory.stage p = .ok stage) projections stages)
    (hlinked : Projection.Linked known (projections ++ rest))
    (hflow : flow.All (Row.Between types known (projections ++ rest)))
    (hrun : (stages.foldlM (fun flow stage => stage.execute level flow) flow : Run Flow).within
      session = (.ok out, after)) :
    out.All (Row.Between (Projection.chainTypes types projections)
      (Projection.chainTakers known projections) rest) := by
  -- on the stages; a row between two of them is one that the projections to come can take
  induction hstages generalizing types known flow session with
  | nil =>
    cases hrun
    exact hflow
  | @cons p stage projections stages hstage _ ih =>
    obtain ⟨hmerges, hfollows, hlinked⟩ := hlinked
    rw [List.foldlM_cons] at hrun
    obtain ⟨middle, _, hmiddle, hrun⟩ := Work.bind_within_ok.mp hrun
    have hfeeds : flow.All fun row => row.Feeds p ∧ row.Matches known :=
      hflow.mono fun row hrow => ⟨Row.feeds_of_merges hrow.1 hrow.2 hmerges, hrow.2⟩
    have hknown := Factory.stage_all hregistry hstage hfeeds hmiddle
    rw [Projection.chainTypes_cons]
    refine ih hlinked (hknown.mono fun row hrow => ⟨?_, hrow.matches⟩) hrun
    have hfits := hrow.fits
    rw [Projection.columnsOver_types] at hfits
    exact hfits.starts hfollows

theorem Chain.execute_all {chain : Chain} {level : Granularity} {cancelled : Bool} {input : Bucket}
    {sink : Sink} {rows : List Row} (hregistry : factory.registry = .builtin)
    (hbuild : Chain.build factory projections = .ok chain)
    (hlinked : Projection.Linked known (projections ++ rest))
    (hinput : ∀ row, .ok row ∈ input.items → row.Between types known (projections ++ rest))
    (hrun : (chain.execute level cancelled input sink).1 = .ok rows) :
    ∀ row ∈ rows, row.Between (Projection.chainTypes types projections)
      (Projection.chainTakers known projections) rest := by
  obtain ⟨_, -, hbuild⟩ := bind_eq_ok.mp hbuild
  obtain ⟨stages, hstages, hbuild⟩ := bind_eq_ok.mp hbuild
  cases hbuild
  have hrows : (runRows ⟨stages⟩ level input).within (.start cancelled sink) =
      (.ok rows, ((runRows ⟨stages⟩ level input).within (.start cancelled sink)).2) :=
    Prod.ext hrun rfl
  obtain ⟨flow, _, hflow, hrows⟩ := Work.bind_within_ok.mp hrows
  exact Flow.rows_all
    (run_all hregistry (mapM_eq_ok.mp hstages) hlinked (.ofBucket hinput) hflow) hrows

-- ---------------------------------------------------------------------------
-- Nodes
-- ---------------------------------------------------------------------------

namespace Node

variable {cancelled : Bool} {state after : NodeState} {rows : List Row}

theorem runChain_ok {chain : Chain} {level : Granularity} {input : Bucket}
    (h : ((runChain chain level cancelled input).within state).1 = .ok rows) :
    (chain.execute level cancelled input state.sink).1 = .ok rows := h

theorem runShards_all {chain : Chain} {p : Row → Prop} {shards : List Bucket}
    {results : List (Except EngineError (List Row))}
    (hchain : ∀ shard ∈ shards, ∀ sink rows,
      (chain.execute .shard cancelled shard sink).1 = .ok rows → ∀ row ∈ rows, p row)
    (h : (runShards chain cancelled shards).within state = (.ok results, after)) :
    ∀ result ∈ results, ∀ rows, result = .ok rows → ∀ row ∈ rows, p row := by
  induction shards generalizing results state after with
  | nil =>
    cases h
    exact List.forall_mem_nil _
  | cons shard rest ih =>
    obtain ⟨hshard, hrest⟩ := List.forall_mem_cons.mp hchain
    obtain ⟨result, _, hresult, h⟩ := Work.bind_within_ok.mp h
    obtain ⟨others, _, hothers, h⟩ := Work.bind_within_ok.mp h
    cases h
    rw [Work.within_attempt] at hresult
    refine List.forall_mem_cons.mpr ⟨fun rows hrows => ?_, ih hrest hothers⟩
    have hran : ((runChain chain .shard cancelled shard).within state).1 = result :=
      Except.ok.inj (congrArg Prod.fst hresult)
    exact hshard state.sink rows (runChain_ok (hran.trans hrows))

def mergeShards (node : Node) (phase : CollectPhase) (cancelled : Bool)
    (results : List (Except EngineError (List Row))) : NodeRun (List Row) := do
  let rows ← Work.ofExcept (results.mapM fun result => result)
  let chain ← Work.ofExcept (Chain.build node.factory phase.nodeProjections)
  runChain chain .node cancelled (Bucket.concat (rows.map .materialized))

theorem collect_ok {node : Node} {phase : CollectPhase} {shards : List Bucket}
    (hregistry : node.factory.registry = .builtin)
    (hlinked : Projection.Linked known (phase.shardProjections ++ rest))
    (hshards : ∀ shard ∈ shards, ∀ row, .ok row ∈ shard.items →
      row.Between types known (phase.shardProjections ++ rest))
    (h : (node.collect phase cancelled shards).within state = (.ok rows, after)) :
    ∃ results middle, (mergeShards node phase cancelled results).within middle = (.ok rows, after) ∧
      ∀ result ∈ results, ∀ rows, result = .ok rows → ∀ row ∈ rows,
        row.Between (Projection.chainTypes types phase.shardProjections)
          (Projection.chainTakers known phase.shardProjections) rest := by
  unfold collect at h
  dsimp only at h
  split at h
  · obtain ⟨results, middle, hresults, h⟩ := Work.bind_within_ok.mp h
    cases hresults
    exact ⟨[], _, h, List.forall_mem_nil _⟩
  · obtain ⟨chain, _, hchain, h⟩ := Work.bind_within_ok.mp h
    obtain ⟨results, middle, hresults, h⟩ := Work.bind_within_ok.mp h
    rw [Work.within_ofExcept] at hchain
    refine ⟨results, middle, h, runShards_all (fun shard hshard sink rows hrun => ?_) hresults⟩
    exact Chain.execute_all hregistry (congrArg Prod.fst hchain) hlinked (hshards shard hshard) hrun

/-- The rows that come out of both chains have the types that the phase declares. -/
theorem collect_fits {node : Node} (phase : CollectPhase) {shards : List Bucket}
    (hregistry : node.factory.registry = .builtin)
    (hlinked : Projection.Linked known (phase.shardProjections ++ phase.nodeProjections))
    (hshards : ∀ shard ∈ shards, ∀ row, .ok row ∈ shard.items →
      row.Between types known (phase.shardProjections ++ phase.nodeProjections))
    (h : (node.collect phase cancelled shards).within state = (.ok rows, after)) :
    ∀ row ∈ rows, row.Fits (Projection.chainTypes
      (Projection.chainTypes types phase.shardProjections) phase.nodeProjections) := by
  obtain ⟨results, _, h, hresults⟩ := collect_ok hregistry hlinked hshards h
  obtain ⟨rowss, _, hrowss, h⟩ := Work.bind_within_ok.mp h
  obtain ⟨chain, _, hchain, h⟩ := Work.bind_within_ok.mp h
  rw [Work.within_ofExcept] at hrowss hchain
  -- nothing follows the node chain, so the rows that come out of it must fit its types
  have hlinked := hlinked.append
  rw [← List.append_nil phase.nodeProjections] at hresults hlinked
  have hinput : ∀ row, .ok row ∈ (Bucket.concat (rowss.map .materialized)).items →
      row.Between (Projection.chainTypes types phase.shardProjections)
        (Projection.chainTakers known phase.shardProjections) (phase.nodeProjections ++ []) := by
    intro row hrow
    rw [Bucket.items_concat] at hrow
    obtain ⟨_, hbucket, hrow⟩ := List.mem_flatMap.mp hrow
    obtain ⟨own, hown, rfl⟩ := List.mem_map.mp hbucket
    obtain ⟨_, hrow, he⟩ := List.mem_map.mp hrow
    cases he
    obtain ⟨result, hresult, hok⟩ :=
      forall₂_mem_right (mapM_eq_ok.mp (congrArg Prod.fst hrowss)) hown
    exact hresults result hresult own hok row hrow
  intro row hrow
  exact (Chain.execute_all hregistry (congrArg Prod.fst hchain) hlinked hinput
    (runChain_ok (congrArg Prod.fst h)) row hrow).1

end Node

-- ---------------------------------------------------------------------------
-- Sending
-- ---------------------------------------------------------------------------

theorem Request.writeRow_ok {row : Row} (h : row.Fits types) :
    ∃ bytes, (writeRow types row).toExcept = .ok bytes := by
  have hcells : ∀ cell ∈ row.zip types,
      (writeCell cell.1 cell.2).Spells (fun _ _ => True) cell := by
    intro ⟨v, t⟩ hcell
    have hv := (List.forall₂_iff_zip.mp h).2 hcell
    unfold writeCell
    split
    · exact .of fun _ => trivial
    · rename_i hnull
      exact (Value.writeBody_restores hv (Bool.eq_false_iff.mpr hnull)).mono fun _ _ => trivial
  obtain ⟨bytes, hbytes, -⟩ := Output.Spells.each hcells
  rw [writeRow_eq, if_neg (not_not.mpr h.length_eq)]
  exact ⟨_, by rw [hbytes]; rfl⟩

-- ---------------------------------------------------------------------------
-- Columns of states
-- ---------------------------------------------------------------------------

def Bucket.ofStates (states : List PartialState) : Bucket :=
  .materialized (states.map fun s => [.state s])

theorem Bucket.mem_ofStates {states : List PartialState} {row : Row} :
    .ok row ∈ (ofStates states).items ↔ ∃ s ∈ states, row = [.state s] := by
  simp [ofStates, items, eq_comm]

namespace Projection

/-- The results of an aggregate over a column of states. -/
def finishing (info : FunctionInfo) (granularity : Granularity) : Projection :=
  .aggregation [⟨info, [.reference 0 .aggregationState], .states, .results⟩] granularity

variable {info : FunctionInfo} {f : AggregateFunction} {granularity : Granularity}

theorem stage_finishing {stage : Stage} (hregistry : factory.registry = .builtin)
    (hf : Registry.builtin.verifyAggregate info = .ok f)
    (h : factory.stage (finishing info granularity) = .ok stage) :
    stage = ⟨granularity, .aggregation [f.overColumn]⟩ := by
  obtain ⟨action, haction, h⟩ := bind_eq_ok.mp h
  cases h
  cases Factory.builds haction with
  | aggregation haggregators =>
    have haggregators := mapM_eq_ok.mp haggregators
    obtain ⟨a, _, ha, hnone, rfl⟩ := List.forall₂_cons_left_iff.mp haggregators
    cases hnone
    rw [Factory.aggregator_eq] at ha
    obtain ⟨_, -, ha⟩ := bind_eq_ok.mp ha
    obtain ⟨_, -, ha⟩ := bind_eq_ok.mp ha
    obtain ⟨g, hg, ha⟩ := bind_eq_ok.mp ha
    rw [hregistry, hf] at hg
    cases hg
    cases ha
    rfl

theorem within_finishing {session : Session} {isMax : Bool} {v : Value}
    (hf : f.summary = .extreme isMax) (hcancelled : session.cancelled = false) :
    ((Stage.execute ⟨granularity, .aggregation [f.overColumn]⟩ granularity
        (.ofBucket (.ofStates [.extreme isMax v])) >>= Flow.rows).within session).1 =
      .ok [[v]] := by
  obtain ⟨cancelled, pulled, cancelAt, sink⟩ := session
  obtain ⟨info, summary⟩ := f
  cases hf
  cases hcancelled
  rw [Work.within_bind, Stage.within_execute (Nat.le_refl _)]
  cases isMax <;> cases v <;> rfl

theorem finishing_feeds {v : Value} (hf : Registry.builtin.verifyAggregate info = .ok f)
    (hfits : v.fits .aggregationState = true) (hmatches : v.Matches f) :
    Row.Feeds [v] (finishing info granularity) := by
  refine ⟨fun s hs => ?_, fun call hcall _ g hg input hinput w hw => ?_⟩
  · cases List.mem_singleton.mp hs
    exact List.forall_mem_singleton.mpr ⟨v, rfl, hfits⟩
  · cases List.mem_singleton.mp hcall
    cases List.mem_singleton.mp hinput
    cases hf.symm.trans hg
    cases hw
    exact hmatches

end Projection

-- ---------------------------------------------------------------------------
-- Greatest values
-- ---------------------------------------------------------------------------

theorem Registry.verifyAggregate_max {t : DataType}
    (h : (t.isComparable && t != .undefined) = true) :
    Registry.builtin.verifyAggregate ⟨⟨"max", [t]⟩, t, .aggregate⟩ =
      .ok ⟨⟨⟨"max", [t]⟩, t, .aggregate⟩, .extreme true⟩ := by
  rw [Registry.verifyAggregate, Registry.resolveAggregate_max h]
  simp only [Registry.expectKind, Registry.expectReturnType, ↓reduceIte, ok_bind]
  rfl

theorem Projection.follows_column {info : FunctionInfo} {i : UInt32} {t : DataType}
    {fromStep toStep : AggregateStep} {granularity : Granularity} (h : types[i.toNat]? = some t) :
    (aggregation [⟨info, [.reference i t], fromStep, toStep⟩] granularity).Follows types := by
  intro s hs r hr
  cases List.mem_singleton.mp hs
  cases List.mem_singleton.mp hr
  exact h

-- ---------------------------------------------------------------------------
-- Declared types
-- ---------------------------------------------------------------------------

theorem Factory.stage_fits {p : Projection} {stage : Stage} {level : Granularity} {bucket : Bucket}
    {session : Session} {rows : List Row} (hregistry : factory.registry = .builtin)
    (hstage : factory.stage p = .ok stage) (hfeeds : ∀ row, .ok row ∈ bucket.items → row.Feeds p)
    (hrun : ((stage.execute level (.ofBucket bucket) >>= Flow.rows).within session).1 = .ok rows) :
    ∀ row ∈ rows, row.Fits p.outputTypes := by
  have hinput : (Flow.ofBucket bucket).All fun row => row.Feeds p ∧ row.Matches [] :=
    .ofBucket fun row hrow => ⟨hfeeds row hrow, fun _ _ _ _ htakers => nomatch htakers⟩
  obtain ⟨out, _, hout, hrows⟩ := Work.bind_within_ok.mp (Prod.ext hrun rfl)
  intro row hrow
  have hfits := (Flow.rows_all (stage_all hregistry hstage hinput hout) hrows row hrow).fits
  rwa [Projection.columnsOver_types] at hfits

/-- Rows that come out of a projection have the types of its outputs, and the rows that a node
collects over chains that fit together have the types under which they are sent, if no minimum or
maximum takes a state that does not match it. The states that an aggregate makes itself match it,
and so do exactly those over which it returns what it declares, whichever of them it is given. -/
theorem rows_have_declared_types {factory : Factory} (hregistry : factory.registry = .builtin) :
    (∀ {p : Projection} {stage : Stage} {level : Granularity} {bucket : Bucket}
      {session : Session} {rows : List Row}, factory.stage p = .ok stage →
      (∀ row, .ok row ∈ bucket.items → row.Feeds p) →
      ((stage.execute level (.ofBucket bucket) >>= Flow.rows).within session).1 = .ok rows →
      ∀ row ∈ rows, row.Fits p.outputTypes) ∧
    (∀ {node : Node} {plan : ExecutionPlan} {job : JobId} {mergeNode : String}
      {known : List Takers} {shards : List Bucket} {cancelled : Bool} {state : NodeState}
      {rows : List Row}, node.factory = factory →
      Projection.Linked known (plan.shardProjections ++ plan.nodeProjections) →
      (∀ shard ∈ shards, ∀ row, .ok row ∈ shard.items →
        row.Starts plan.inputTypes (plan.shardProjections ++ plan.nodeProjections) ∧
          row.Matches known) →
      ((node.collect (plan.collectPhase job mergeNode) cancelled shards).within state).1 =
        .ok rows →
      ∀ row ∈ rows, ∃ bytes,
        (Request.writeRow (plan.collectPhase job mergeNode).outputTypes row).toExcept =
          .ok bytes) ∧
    ∀ {info : FunctionInfo} {f : AggregateFunction} {granularity : Granularity} {stage : Stage}
      {session : Session}, Registry.builtin.verifyAggregate info = .ok f →
      factory.stage (.finishing info granularity) = .ok stage → session.cancelled = false →
      (∀ s, f.Produces s → f.Matches s) ∧ ∀ states,
        (∀ chosen, chosen ⊆ states → ∀ rows,
          ((stage.execute granularity (.ofBucket (.ofStates chosen)) >>= Flow.rows).within
            session).1 = .ok rows →
          ∀ row ∈ rows, row.Fits (Projection.finishing info granularity).outputTypes) ↔
        ∀ s ∈ states, f.Matches s := by
  refine ⟨Factory.stage_fits hregistry, ?_, ?_⟩
  · intro node plan job mergeNode known shards cancelled state rows hfactory hlinked hshards hrun
      row hrow
    have hfits := Node.collect_fits (plan.collectPhase job mergeNode) (hfactory ▸ hregistry)
      hlinked hshards (Prod.ext hrun rfl)
    exact Request.writeRow_ok (hfits row hrow)
  · intro info f granularity stage session hf hstage hcancelled
    obtain ⟨hwell, -, hreturn⟩ := Registry.verifyAggregate_wellTyped hf
    refine ⟨fun s hs => (hs.keeps hwell).sound, fun states => ⟨?_, ?_⟩⟩
    · rintro hfits s hs isMax v hsummary rfl
      obtain rfl := Projection.stage_finishing hregistry hf hstage
      have hrow := hfits [.extreme isMax v] (List.cons_subset.mpr ⟨hs, List.nil_subset _⟩) _
        (Projection.within_finishing hsummary hcancelled) _ List.mem_cons_self
      cases hrow with
      | cons hv _ => exact hreturn ▸ hv
    · intro hmatches chosen hchosen rows hrun
      refine Factory.stage_fits hregistry hstage (fun row hrow => ?_) hrun
      obtain ⟨s, hs, rfl⟩ := Bucket.mem_ofStates.mp hrow
      exact Projection.finishing_feeds hf rfl fun _ he =>
        Value.state.inj he ▸ hmatches s (hchosen hs)

theorem rows_have_declared_types_max :
    let info : FunctionInfo := ⟨⟨"max", [.long]⟩, .long, .aggregate⟩
    let make : Projection := .aggregation [⟨info, [.reference 0 .long], .rows, .states⟩] .shard
    let finish : Projection := .finishing info .node
    let f : AggregateFunction := ⟨info, .extreme true⟩
    let stage : Stage := ⟨.node, .aggregation [f.overColumn]⟩
    let states : List PartialState := [.extreme true (.long 5), .extreme true .null]
    let bucket : Bucket := .streamed [.ok [.state (.extreme true (.long 5))], .ok [.null]]
    let session : Session := .start false .empty
    let plan : ExecutionPlan := ⟨[.long], [make], [finish], []⟩
    let shards : List Bucket := [.materialized [[.long 5], [.null]], .streamed [.ok [.long 7]]]
    let node : Node := ⟨"n", .standard, 100⟩
    let state : NodeState := ⟨.empty, .start .error, .empty⟩
    (Factory.standard.stage finish = .ok stage ∧
      (∀ row, .ok row ∈ bucket.items → row.Feeds finish) ∧
      ((stage.execute .node (.ofBucket bucket) >>= Flow.rows).within session).1 =
        .ok [[.long 5]] ∧ ∀ row ∈ ([[.long 5]] : List Row), row.Fits finish.outputTypes) ∧
    (Projection.Linked [fun _ => False] (plan.shardProjections ++ plan.nodeProjections) ∧
      (∀ shard ∈ shards, ∀ row, .ok row ∈ shard.items →
        row.Starts plan.inputTypes (plan.shardProjections ++ plan.nodeProjections) ∧
          row.Matches [fun _ => False]) ∧
      ((node.collect (plan.collectPhase .nil "m") false shards).within state).1 =
        .ok [[.long 7]] ∧
      ∀ row ∈ ([[.long 7]] : List Row), ∃ bytes,
        (Request.writeRow (plan.collectPhase .nil "m").outputTypes row).toExcept = .ok bytes) ∧
    Registry.builtin.verifyAggregate info = .ok f ∧ (∀ s ∈ states, f.Matches s) ∧
      ∀ chosen, chosen ⊆ states → ∀ rows,
        ((stage.execute .node (.ofBucket (.ofStates chosen)) >>= Flow.rows).within session).1 =
          .ok rows → ∀ row ∈ rows, row.Fits finish.outputTypes := by
  intro info make finish f stage states bucket session plan shards node state
  have hverify : Registry.builtin.verifyAggregate info = .ok f :=
    Registry.verifyAggregate_max rfl
  have hstage : Factory.standard.stage finish = .ok stage := by
    simp only [finish, Projection.finishing, Factory.stage, Factory.action, Factory.aggregator,
      Factory.standard, List.mapM_cons, List.mapM_nil, hverify]
    rfl
  have hmatches {v : Value} (hv : v.fits .long = true) : f.Matches (.extreme true v) :=
    fun _ _ _ h => (PartialState.extreme.inj h).2 ▸ hv
  have hfeeds : ∀ row, .ok row ∈ bucket.items → row.Feeds finish := by
    intro row hrow
    rcases List.mem_cons.mp hrow with he | hrow
    · cases he
      refine Projection.finishing_feeds hverify rfl fun s hs => ?_
      cases hs
      exact hmatches rfl
    · cases List.mem_singleton.mp hrow
      exact Projection.finishing_feeds hverify rfl fun s hs => Value.noConfusion hs
  have hlinked :
      Projection.Linked [fun _ => False] (plan.shardProjections ++ plan.nodeProjections) := by
    refine ⟨?_, ?_, ?_, ?_, trivial⟩
    · intro call hcall hfrom
      cases List.mem_singleton.mp hcall
      cases hfrom
    · intro next hnext
      cases hnext
      exact Projection.follows_column rfl
    · intro call hcall _ g hg input hinput
      cases List.mem_singleton.mp hcall
      cases List.mem_singleton.mp hinput
      refine ⟨_, rfl, rfl, fun own hown _ _ _ => ?_⟩
      cases hown.symm.trans hg
      rfl
    · intro next hnext
      cases hnext
  have hshards : ∀ shard ∈ shards, ∀ row, .ok row ∈ shard.items →
      row.Starts plan.inputTypes (plan.shardProjections ++ plan.nodeProjections) ∧
        row.Matches [fun _ => False] := by
    have hrow {v : Value} (hfits : v.fits .long = true) : Row.Between plan.inputTypes
        [fun _ => False] (plan.shardProjections ++ plan.nodeProjections) [v] := by
      refine ⟨fun s hs => ?_, fun i w takers _ htakers g hg => ?_⟩
      · cases List.mem_singleton.mp hs
        exact List.forall_mem_singleton.mpr ⟨v, rfl, hfits⟩
      · obtain rfl := List.mem_singleton.mp (List.mem_of_getElem? htakers)
        exact hg.elim
    intro shard hshard row hmem
    rcases List.mem_cons.mp hshard with rfl | hshard
    · rcases List.mem_cons.mp hmem with he | hmem
      · cases he
        exact hrow rfl
      · cases List.mem_singleton.mp hmem
        exact hrow rfl
    · cases List.mem_singleton.mp hshard
      cases List.mem_singleton.mp hmem
      exact hrow rfl
  have hstates : ∀ s ∈ states, f.Matches s :=
    List.forall_mem_cons.mpr ⟨hmatches rfl, List.forall_mem_singleton.mpr (hmatches rfl)⟩
  have hrun : ((stage.execute .node (.ofBucket bucket) >>= Flow.rows).within session).1 =
      .ok [[.long 5]] := by decide +kernel
  have hcollect : ((node.collect (plan.collectPhase .nil "m") false shards).within state).1 =
      .ok [[.long 7]] := by decide +kernel
  have hregistry : Factory.standard.registry = .builtin := rfl
  obtain ⟨hrows, hcollected, hcolumn⟩ := rows_have_declared_types hregistry
  exact ⟨⟨hstage, hfeeds, hrun, hrows hstage hfeeds hrun⟩,
    ⟨hlinked, hshards, hcollect, hcollected rfl hlinked hshards hcollect⟩, hverify, hstates,
    ((hcolumn hverify hstage rfl).2 states).mpr hstates⟩

/-- Types alone do not tell the states of aggregates apart. A literal, or the stage before, may
give the greatest number the state of a greatest text; the text then comes out as a number, and
cannot be sent. -/
theorem rows_of_other_types :
    let max (t : DataType) : FunctionInfo := ⟨⟨"max", [t]⟩, t, .aggregate⟩
    let held : Value := .state (.extreme true (.string "x"))
    let finish (input : Symbol) : Projection :=
      .aggregation [⟨max .long, [input], .states, .results⟩] .node
    let constant : Projection := finish (.literal held .aggregationState)
    let stage : Stage :=
      ⟨.node, .aggregation [⟨⟨max .long, .extreme true⟩, [.literal held], .states, .results⟩]⟩
    let make : Projection :=
      .aggregation [⟨max .string, [.reference 0 .string], .rows, .states⟩] .shard
    let combine : Projection := finish (.reference 0 .aggregationState)
    let plan : ExecutionPlan := ⟨[.string], [make], [combine], []⟩
    let shards : List Bucket := [.materialized [[.string "x"]]]
    let node : Node := ⟨"n", .standard, 100⟩
    let state : NodeState := ⟨.empty, .start .error, .empty⟩
    (Factory.standard.stage constant = .ok stage ∧
      (∀ s ∈ constant.symbols, s.references = []) ∧
      ((stage.execute .node (.ofBucket (.materialized [[.long 1]])) >>= Flow.rows).within
        (.start false .empty)).1 = .ok [[.string "x"]] ∧
      ¬ Row.Fits [.string "x"] constant.outputTypes) ∧
    make.Follows plan.inputTypes ∧ combine.Follows make.outputTypes ∧
    Row.Fits [.string "x"] plan.inputTypes ∧
    ((node.collect (plan.collectPhase .nil "m") false shards).within state).1 =
      .ok [[.string "x"]] ∧
    ∃ reason, (Request.writeRow (plan.collectPhase .nil "m").outputTypes [.string "x"]).toExcept =
      .error (.serialization reason) := by
  intro max held finish constant stage make combine plan shards node state
  have hverify : Registry.builtin.verifyAggregate (max .long) = .ok ⟨max .long, .extreme true⟩ :=
    Registry.verifyAggregate_max rfl
  have hstage : Factory.standard.stage constant = .ok stage := by
    simp only [constant, finish, Factory.stage, Factory.action, Factory.aggregator,
      Factory.standard, List.mapM_cons, List.mapM_nil, hverify]
    rfl
  have hreferences : ∀ s ∈ constant.symbols, s.references = [] := by
    intro s hs
    cases List.mem_singleton.mp hs
    rfl
  have hfits : ¬ Row.Fits [.string "x"] constant.outputTypes := by
    rintro (_ | ⟨hv, -⟩)
    cases hv
  have hmake : make.Follows plan.inputTypes := Projection.follows_column rfl
  have hcombine : combine.Follows make.outputTypes := Projection.follows_column rfl
  exact ⟨⟨hstage, hreferences, by decide +kernel, hfits⟩, hmake, hcombine, .cons rfl .nil,
    by decide +kernel, _, rfl⟩

end ShardQuery
