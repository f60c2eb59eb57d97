import ShardQuery.Execution.Chain
import ShardQuery.Proofs.Aggregate.Typing
import ShardQuery.Proofs.Execution.Building
import ShardQuery.Proofs.Execution.Images
import ShardQuery.Proofs.Expression.Typing
import ShardQuery.Proofs.Projection.Wire
import ShardQuery.Proofs.Request.Rows
/-!
# Typed projections

The columns that a projection declares and the rows that its stage makes. Types
alone do not carry over from stage to stage: all states have one type, so of a column
of states one must know which aggregates they match.
-/

namespace ShardQuery

-- ---------------------------------------------------------------------------
-- What is known of columns
-- ---------------------------------------------------------------------------

def Value.Matches (v : Value) (f : AggregateFunction) : Prop := ∀ s, v = .state s → f.Matches s

/-- The aggregates that all states in a column match. -/
abbrev Takers := AggregateFunction → Prop

structure Column where
  type : DataType
  takers : Takers

/-- The value is null or of the type of the column, and the takers of the column can take it. -/
def Column.Holds (c : Column) (v : Value) : Prop :=
  v.fits c.type = true ∧ ∀ f, c.takers f → v.Matches f

def Row.Matches (row : Row) (known : List Takers) : Prop :=
  ∀ (i : Nat) (v : Value) (takers : Takers), row[i]? = some v → known[i]? = some takers →
    ∀ f, takers f → v.Matches f

/-- The column of the values of a symbol over rows with these takers. Functions make no states. -/
def Symbol.column (known : List Takers) : Symbol → Column
  | literal v t => ⟨t, v.Matches⟩
  | reference i t => ⟨t, fun f => ∃ takers, known[i.toNat]? = some takers ∧ takers f⟩
  | call info _ => ⟨info.returnType, fun _ => True⟩

def AggregateCall.column (call : AggregateCall) : Column :=
  ⟨call.valueType, fun g => call.toStep = .states ∧
    ∀ f, Registry.builtin.verifyAggregate call.info = .ok f → f.Agrees g⟩

def Projection.columnsOver (known : List Takers) : Projection → List Column
  | filter _ outputs _ | topN outputs _ _ _ _ | order outputs _ _ =>
    outputs.map (Symbol.column known)
  | aggregation calls _ => calls.map AggregateCall.column
  | group keys calls _ => keys.map (Symbol.column known) ++ calls.map AggregateCall.column
  | write .. => [⟨.long, fun _ => False⟩]

abbrev Row.Holds (row : Row) (columns : List Column) : Prop :=
  List.Forall₂ (fun (v : Value) c => c.Holds v) row columns

theorem Symbol.column_type (known : List Takers) (symbol : Symbol) :
    (symbol.column known).type = symbol.valueType := by
  cases symbol <;> rfl

theorem Projection.map_columns (types : List DataType) :
    (columns types).map Symbol.valueType = types := by
  rw [columns, List.map_map]
  change types.zipIdx.map Prod.fst = types
  exact List.zipIdx_map_fst 0 types

theorem Projection.columnsOver_types (known : List Takers) (p : Projection) :
    (p.columnsOver known).map Column.type = p.outputTypes := by
  have hsymbols (symbols : List Symbol) : (symbols.map (Symbol.column known)).map Column.type =
      symbols.map Symbol.valueType := by
    rw [List.map_map]
    exact List.map_congr_left fun s _ => s.column_type known
  have hcalls (calls : List AggregateCall) : (calls.map AggregateCall.column).map Column.type =
      calls.map AggregateCall.valueType := by
    rw [List.map_map]
    rfl
  unfold outputTypes outputs
  cases p with
  | filter query outputs => exact hsymbols outputs
  | topN outputs => exact hsymbols outputs
  | order outputs => exact hsymbols outputs
  | aggregation calls => exact (hcalls calls).trans (map_columns _).symm
  | group keys calls =>
    rw [columnsOver, List.map_append, hsymbols, hcalls, map_columns]
  | write => rfl

theorem Row.Holds.fits {row : Row} {columns : List Column} (h : row.Holds columns) :
    row.Fits (columns.map Column.type) :=
  List.forall₂_map_right_iff.mpr (h.imp fun _ _ hv => hv.1)

theorem Row.Holds.matches {row : Row} {columns : List Column} (h : row.Holds columns) :
    row.Matches (columns.map Column.takers) := by
  intro i v takers hv htakers f hf
  rw [List.getElem?_map, Option.map_eq_some_iff] at htakers
  obtain ⟨c, hc, rfl⟩ := htakers
  obtain ⟨hi, rfl⟩ := List.getElem?_eq_some_iff.mp hv
  obtain ⟨hj, rfl⟩ := List.getElem?_eq_some_iff.mp hc
  exact (h.get hi hj).2 f hf

-- ---------------------------------------------------------------------------
-- Rows for a projection
-- ---------------------------------------------------------------------------

/-- What a symbol gives that takes no function to compute. -/
def Symbol.given? (row : Row) : Symbol → Option Value
  | literal v _ => some v
  | reference i _ => row[i.toNat]?
  | call .. => none

/-- A call that combines states gets none from the row or from a literal that does not match it. -/
def Row.Merges (row : Row) (call : AggregateCall) : Prop :=
  call.fromStep = .states → ∀ f, Registry.builtin.verifyAggregate call.info = .ok f →
    ∀ input ∈ call.inputs, ∀ v, input.given? row = some v → v.Matches f

def Projection.calls : Projection → List AggregateCall
  | aggregation calls _ => calls
  | group _ calls _ => calls
  | _ => []

/-- The row holds nulls and values of the declared types where the projection refers to it, and
gives each call that combines states nothing but states that match it. -/
structure Row.Feeds (row : Row) (p : Projection) : Prop where
  suits : ∀ s ∈ p.symbols, row.Suits s.references
  merges : ∀ call ∈ p.calls, row.Merges call

theorem Row.suits_referencesOf {row : Row} {symbols : List Symbol}
    (h : ∀ s ∈ symbols, row.Suits s.references) : row.Suits (Symbol.referencesOf symbols) := by
  induction symbols with
  | nil => exact List.forall_mem_nil _
  | cons symbol rest ih =>
    obtain ⟨hsymbol, hrest⟩ := List.forall_mem_cons.mp h
    exact List.forall_mem_append.mpr ⟨hsymbol, ih hrest⟩

-- ---------------------------------------------------------------------------
-- Expressions
-- ---------------------------------------------------------------------------

namespace Expression

theorem compileAll_ok {registry : Registry} {symbols : List Symbol} {es : List Expression}
    (h : compileAll registry symbols = .ok es) :
    List.Forall₂ (fun s e => compile registry s = .ok e) symbols es := by
  induction symbols generalizing es with
  | nil =>
    cases h
    exact .nil
  | cons symbol rest ih =>
    obtain ⟨e, he, h⟩ := bind_eq_ok.mp h
    obtain ⟨others, hothers, h⟩ := bind_eq_ok.mp h
    cases h
    exact .cons he (ih hothers)

variable {row : Row} {symbol : Symbol} {e : Expression} {v : Value} {known : List Takers}

theorem compile_fits (hc : compile .builtin symbol = .ok e) (hrow : row.Suits symbol.references)
    (hv : e.evaluate row = .ok v) : v.fits symbol.valueType = true := by
  have hyields := (compile_typed hc hrow).yields
  rw [hv] at hyields
  cases hyields with
  | ok hfits => exact hfits

theorem returnType_ne_state {f : ScalarFunction} (hf : f.WellTyped) :
    f.info.returnType ≠ .aggregationState := by
  obtain ⟨⟨⟨name, types⟩, t, kind⟩, operator⟩ := f
  simp only [ScalarFunction.WellTyped] at hf
  cases hf with
  | arithmetic =>
    dsimp only
    split <;> simp
  | _ => simp

/-- No function makes a state, so a state comes from a column or from a literal. -/
theorem compile_state {s : PartialState} (hc : compile .builtin symbol = .ok e)
    (hrow : row.Suits symbol.references) (hv : e.evaluate row = .ok (.state s)) :
    symbol.given? row = some (.state s) := by
  cases symbol with
  | literal value type =>
    simp only [compile] at hc
    split at hc
    · cases hc
      cases hv
      rfl
    · cases hc
  | reference index type =>
    cases hc
    simp only [evaluate] at hv
    split at hv
    · rename_i value hvalue
      cases hv
      exact hvalue
    · cases hv
  | call info arguments =>
    have hfits := compile_fits hc hrow hv
    obtain ⟨f, es, -, hf, -⟩ := compile_call hc
    obtain ⟨hwell, -, hreturn⟩ := verifyScalar_wellTyped hf
    have htype : DataType.aggregationState = info.returnType :=
      Value.dataType_of_fits hfits Value.noConfusion
    exact absurd (hreturn.trans htype.symm) (returnType_ne_state hwell)

theorem compile_column (hc : compile .builtin symbol = .ok e) (hrow : row.Suits symbol.references)
    (hknown : row.Matches known) (hv : e.evaluate row = .ok v) : (symbol.column known).Holds v := by
  refine ⟨?_, fun f hf s hs => ?_⟩
  · rw [Symbol.column_type]
    exact compile_fits hc hrow hv
  · subst hs
    have hgiven := compile_state hc hrow hv
    cases symbol with
    | literal value type =>
      cases hgiven
      exact hf s rfl
    | reference index type =>
      obtain ⟨takers, htakers, hf⟩ := hf
      exact hknown _ _ takers hgiven htakers f hf s rfl
    | call info arguments => cases hgiven

theorem project_holds {symbols : List Symbol} {es : List Expression} {out : Row}
    (hc : compileAll .builtin symbols = .ok es) (hrow : ∀ s ∈ symbols, row.Suits s.references)
    (hknown : row.Matches known) (h : project es row = .ok out) :
    out.Holds (symbols.map (Symbol.column known)) := by
  induction symbols generalizing es out with
  | nil =>
    cases hc
    cases h
    exact .nil
  | cons symbol rest ih =>
    obtain ⟨e, he, hc⟩ := bind_eq_ok.mp hc
    obtain ⟨others, hothers, hc⟩ := bind_eq_ok.mp hc
    cases hc
    obtain ⟨v, hv, h⟩ := bind_eq_ok.mp h
    obtain ⟨vs, hvs, h⟩ := bind_eq_ok.mp h
    cases h
    obtain ⟨hsymbol, hrest⟩ := List.forall_mem_cons.mp hrow
    exact .cons (compile_column he hsymbol hknown hv) (ih hothers hrest hvs)

end Expression

-- ---------------------------------------------------------------------------
-- Aggregators
-- ---------------------------------------------------------------------------

theorem checkArguments_of_checkInputs {name : String} {position : Nat} (info : FunctionInfo)
    {symbols : List Symbol} {types : List DataType}
    (h : Factory.checkInputs name position symbols types = .ok ()) :
    Expression.checkArguments info symbols types = .ok () := by
  induction symbols generalizing position types with
  | nil => rfl
  | cons symbol rest ih =>
    cases types with
    | nil => rfl
    | cons t types =>
      simp only [Factory.checkInputs] at h
      simp only [Expression.checkArguments]
      split at h
      · cases h
      · rename_i hfits
        rw [if_neg hfits]
        exact ih h

variable {factory : Factory} {call : AggregateCall} {a : Aggregator} {row : Row}

structure Aggregator.Implements (a : Aggregator) (call : AggregateCall) : Prop where
  verified : Registry.builtin.verifyAggregate call.info = .ok a.function
  inputs : Expression.compileAll .builtin call.inputs = .ok a.inputs
  fromStep : a.fromStep = call.fromStep
  toStep : a.toStep = call.toStep
  fromStep_ne : call.fromStep ≠ .results
  rows : call.fromStep = .rows → Factory.checkRows call = .ok ()

theorem Factory.aggregator_implements (hregistry : factory.registry = .builtin)
    (h : factory.aggregator call = .ok a) : a.Implements call := by
  rw [aggregator_eq] at h
  obtain ⟨_, hvalid, h⟩ := bind_eq_ok.mp h
  obtain ⟨_, hchecked, h⟩ := bind_eq_ok.mp h
  obtain ⟨f, hf, h⟩ := bind_eq_ok.mp h
  obtain ⟨es, hes, h⟩ := bind_eq_ok.mp h
  cases h
  rw [hregistry] at hf hes
  refine ⟨hf, hes, rfl, rfl, fun hfrom => ?_, fun hrows => ?_⟩
  · simp only [AggregateCall.validate, hfrom] at hvalid
    split at hvalid <;> cases hvalid
  · rwa [checkCall, hrows] at hchecked

namespace Aggregator

variable {s t : PartialState} {v : Value}

theorem Implements.wellTyped (h : a.Implements call) : a.function.WellTyped :=
  (Registry.verifyAggregate_wellTyped h.verified).1

theorem Implements.arguments_fit {arguments : List Value} (h : a.Implements call)
    (hrows : call.fromStep = .rows) (hsuits : ∀ s ∈ call.inputs, row.Suits s.references)
    (harguments : Expression.project a.inputs row = .ok arguments) :
    ScalarFunction.Fit arguments a.function.info.argumentTypes := by
  have hchecked := h.rows hrows
  unfold Factory.checkRows at hchecked
  dsimp only at hchecked
  split at hchecked
  · cases hchecked
  · rename_i hlength
    have hyields := (Expression.compileAll_typed h.inputs
      (checkArguments_of_checkInputs call.info hchecked) (not_not.mp hlength).symm
      (Row.suits_referencesOf hsuits)).yields
    rw [Expression.project] at harguments
    rw [harguments] at hyields
    rw [(Registry.verifyAggregate_wellTyped h.verified).2.1]
    cases hyields with
    | ok hfit => exact hfit

theorem Implements.accumulate (h : a.Implements call)
    (hsuits : ∀ s ∈ call.inputs, row.Suits s.references) (hmerges : row.Merges call)
    (hs : a.function.Keeps s) (hacc : a.accumulate s row = .ok t) : a.function.Keeps t := by
  rw [Aggregator.accumulate, h.fromStep] at hacc
  cases hfrom : call.fromStep with
  | results => exact absurd hfrom h.fromStep_ne
  | rows =>
    rw [if_pos hfrom] at hacc
    obtain ⟨arguments, harguments, hacc⟩ := bind_eq_ok.mp hacc
    have hargs := h.arguments_fit hfrom hsuits harguments
    exact hs.iterate h.wellTyped hargs (Halt.reported_eq_ok.mp hacc)
  | states =>
    rw [hfrom, if_neg AggregateStep.noConfusion] at hacc
    have hinputs := Expression.compileAll_ok h.inputs
    split at hacc
    · cases hacc
    · rename_i input rest hinput
      rw [hinput] at hinputs
      obtain ⟨symbol, symbols, hc, -, hsymbols⟩ := List.forall₂_cons_right_iff.mp hinputs
      have hmem : symbol ∈ call.inputs := hsymbols ▸ List.mem_cons_self
      obtain ⟨v, hv, hacc⟩ := bind_eq_ok.mp hacc
      split at hacc
      · rename_i incoming
        -- the types would let any state through here, and merging does not look at its value
        have hgiven := Expression.compile_state hc (hsuits symbol hmem) hv
        have hincoming := hmerges hfrom a.function h.verified symbol hmem _ hgiven incoming rfl
        exact hs.merge hincoming (Halt.reported_eq_ok.mp hacc)
      · cases hacc
        exact hs
      · cases hacc

theorem Implements.emit (h : a.Implements call) (hs : a.function.Keeps s)
    (hv : a.emit s = .ok v) : call.column.Holds v := by
  obtain ⟨hwell, -, hreturn⟩ := Registry.verifyAggregate_wellTyped h.verified
  rw [Aggregator.emit, h.toStep] at hv
  unfold AggregateCall.column AggregateCall.valueType
  split at hv
  · rename_i hstates
    cases hv
    refine ⟨?_, ?_⟩
    · rw [if_pos hstates]
      rfl
    · rintro g ⟨-, hagrees⟩ _ hstate
      cases hstate
      exact hs.matches_of_agrees (hagrees _ h.verified)
  · rename_i hresults
    refine ⟨?_, fun f hf => absurd hf.1 hresults⟩
    rw [if_neg hresults, ← hreturn]
    exact hs.finalize hwell hv

-- ---------------------------------------------------------------------------
-- Lists of aggregators
-- ---------------------------------------------------------------------------

variable {calls : List AggregateCall} {aggregators : List Aggregator} {p : Row → Prop}
  {states next : List PartialState}

abbrev Keep (aggregators : List Aggregator) (states : List PartialState) : Prop :=
  List.Forall₂ (fun a s => a.function.Keeps s) aggregators states

theorem accumulateAll_keep
    (hcalls : List.Forall₂ (fun call a => a.Implements call) calls aggregators)
    (hsuits : ∀ call ∈ calls, ∀ s ∈ call.inputs, row.Suits s.references)
    (hmerges : ∀ call ∈ calls, row.Merges call) (hstates : Keep aggregators states)
    (h : accumulateAll aggregators states row = .ok next) : Keep aggregators next := by
  induction hcalls generalizing states next with
  | nil =>
    cases hstates
    cases h
    exact .nil
  | cons ha _ ih =>
    cases hstates with
    | cons hs hstates =>
      obtain ⟨t, ht, h⟩ := bind_eq_ok.mp h
      obtain ⟨others, hothers, h⟩ := bind_eq_ok.mp h
      cases h
      obtain ⟨hsuits, hsuitsRest⟩ := List.forall_mem_cons.mp hsuits
      obtain ⟨hmerges, hmergesRest⟩ := List.forall_mem_cons.mp hmerges
      exact .cons (ha.accumulate hsuits hmerges hs ht) (ih hsuitsRest hmergesRest hstates hothers)

theorem Folds.keep
    (hcalls : List.Forall₂ (fun call a => a.Implements call) calls aggregators)
    (hsuits : ∀ row, p row → ∀ call ∈ calls, ∀ s ∈ call.inputs, row.Suits s.references)
    (hmerges : ∀ row, p row → ∀ call ∈ calls, row.Merges call)
    (h : Folds aggregators p states) : Keep aggregators states := by
  induction h with
  | initial =>
    rw [Keep, List.forall₂_map_right_iff, List.forall₂_same]
    intro a ha
    obtain ⟨_, -, ha⟩ := forall₂_mem_right hcalls ha
    exact .initial ha.wellTyped
  | row _ hrow hnext ih =>
    exact accumulateAll_keep hcalls (hsuits _ hrow) (hmerges _ hrow) ih hnext

theorem emitAll_holds {out : Row}
    (hcalls : List.Forall₂ (fun call a => a.Implements call) calls aggregators)
    (hstates : Keep aggregators states) (h : emitAll aggregators states = .ok out) :
    out.Holds (calls.map AggregateCall.column) := by
  induction hcalls generalizing states out with
  | nil =>
    cases hstates
    cases h
    exact .nil
  | cons ha _ ih =>
    cases hstates with
    | cons hs hstates =>
      obtain ⟨v, hv, h⟩ := bind_eq_ok.mp h
      obtain ⟨others, hothers, h⟩ := bind_eq_ok.mp h
      cases h
      exact .cons (ha.emit hs hv) (ih hstates hothers)

end Aggregator

-- ---------------------------------------------------------------------------
-- Stages
-- ---------------------------------------------------------------------------

variable {p : Projection} {action : Action} {known : List Takers}

theorem Factory.aggregators_implement {calls : List AggregateCall} {aggregators : List Aggregator}
    (hregistry : factory.registry = .builtin)
    (h : calls.mapM factory.aggregator = .ok aggregators) :
    List.Forall₂ (fun call a => a.Implements call) calls aggregators :=
  (mapM_eq_ok.mp h).imp fun _ _ ha => aggregator_implements hregistry ha

theorem Factory.outputs_send {outputs : List Symbol} {es : List Expression}
    (hc : Expression.compileAll .builtin outputs = .ok es) (houtputs : outputs ⊆ p.symbols) :
    ∀ ⦃row out⦄, row.Feeds p ∧ row.Matches known → Expression.project es row = .ok out →
      out.Holds (outputs.map (Symbol.column known)) :=
  fun _ _ hrow hout =>
    Expression.project_holds hc (fun s hs => hrow.1.suits s (houtputs hs)) hrow.2 hout

theorem Factory.calls_keep {aggregators : List Aggregator} {states : List PartialState}
    (hregistry : factory.registry = .builtin)
    (h : p.calls.mapM factory.aggregator = .ok aggregators)
    (hinputs : p.calls.flatMap AggregateCall.inputs ⊆ p.symbols)
    (hfolds : Aggregator.Folds aggregators (fun row => row.Feeds p ∧ row.Matches known) states) :
    Aggregator.Keep aggregators states := by
  refine hfolds.keep (aggregators_implement hregistry h) ?_ fun row hrow => hrow.1.merges
  intro row hrow call hcall s hs
  exact hrow.1.suits s (hinputs (List.mem_flatMap_of_mem hcall hs))

/-- Over rows that feed the projection its action makes rows of the declared columns. -/
theorem Factory.action_sends (hregistry : factory.registry = .builtin)
    (h : factory.action p = .ok action) :
    action.Sends (fun row => row.Feeds p ∧ row.Matches known)
      (Row.Holds · (p.columnsOver known)) := by
  cases Factory.builds h with
  | filter _ hes =>
    rw [hregistry] at hes
    exact outputs_send hes (List.subset_cons_self _ _)
  | @aggregation calls granularity aggregators haggregators =>
    intro states out hfolds hout
    exact Aggregator.emitAll_holds (aggregators_implement hregistry haggregators)
      (calls_keep (p := .aggregation calls granularity) hregistry haggregators
        (List.Subset.refl _) hfolds) hout
  | @group keys calls granularity es aggregators hes haggregators =>
    rw [hregistry] at hes
    intro row key states out hrow hkey hfolds hout
    exact List.rel_append (outputs_send hes (List.subset_append_left _ _) hrow hkey)
      (Aggregator.emitAll_holds (aggregators_implement hregistry haggregators)
        (calls_keep (p := .group keys calls granularity) hregistry haggregators
          (List.subset_append_right _ _) hfolds) hout)
  | topN hes =>
    rw [hregistry] at hes
    exact outputs_send hes (List.subset_append_left _ _)
  | order hes =>
    rw [hregistry] at hes
    exact outputs_send hes (List.subset_append_left _ _)
  | write =>
    intro n
    exact .cons ⟨rfl, fun f hf => hf.elim⟩ .nil

theorem Factory.stage_all {stage : Stage} {level : Granularity} {input out : Flow}
    {session after : Session} (hregistry : factory.registry = .builtin)
    (h : factory.stage p = .ok stage)
    (hinput : input.All fun row => row.Feeds p ∧ row.Matches known)
    (hrun : (stage.execute level input).within session = (.ok out, after)) :
    out.All (Row.Holds · (p.columnsOver known)) := by
  obtain ⟨action, haction, h⟩ := bind_eq_ok.mp h
  cases h
  exact Stage.execute_all (action_sends hregistry haction) hinput hrun

end ShardQuery
