import Mathlib.Data.List.Basic
import ShardQuery.Proofs.Context.Streams
/-!
# Calls on a merge context

Many calls work on one context at the same time. A call is a sequence of steps, each
of which happens as a whole; between two steps of a call others may take theirs.
Completing takes the buckets and the chain in two steps, and runs the chain outside
of the context; failing raises the flag before it publishes.

`calls_latch`: however the calls interleave, the merge becomes ready once, its chain
runs once, and the owner of the job gets one outcome, the first that is published.
After either of the two no request is taken.
-/

namespace ShardQuery

namespace MergeContext

inductive Call where
  | accepting (request : Request)
  | completing
  | merging (buckets : List Bucket)
  /-- The chain was taken out and is about to run. -/
  | running (chain : Chain) (buckets : List Bucket)
  | failing (error : EngineError)
  | publishing (outcome : JobOutcome)
  | ended

inductive Entry where
  | answered (answer : Answer)
  | gathered (buckets : Except EngineError (List Bucket))
  | taken (chain : Except EngineError Chain)
  | ran (outcome : JobOutcome)
  | raised
  /-- An outcome was published, and sent unless one was sent before. -/
  | published (outcome : JobOutcome) (isSent : Bool)

abbrev History := List Entry

namespace Call

def cancelling : Call := .failing .cancelled

inductive IsNew : Call → Prop where
  | accept (request : Request) : IsNew (.accepting request)
  | complete : IsNew .completing
  | merge (buckets : List Bucket) : IsNew (.merging buckets)
  | fail (error : EngineError) : IsNew (.failing error)
  | publish (outcome : JobOutcome) : IsNew (.publishing outcome)

/-- A step of a call. The flag may be raised and rows may be written while the chain runs, so that
its outcome is left open. -/
inductive Steps : Call → MergeContext → Entry → Call → MergeContext → Prop where
  | accept {context : MergeContext} (request : Request) :
      Steps (.accepting request) context (.answered (context.accept request).1) .ended
        (context.accept request).2
  | gather {context next : MergeContext} {buckets : List Bucket} :
      context.takeBuckets = (.ok buckets, next) →
      Steps .completing context (.gathered (.ok buckets)) (.merging buckets) next
  | gatherNone {context next : MergeContext} {error : EngineError} :
      context.takeBuckets = (.error error, next) →
      Steps .completing context (.gathered (.error error)) .ended next
  | take {context next : MergeContext} {chain : Chain} {buckets : List Bucket} :
      context.takeChain = (.ok chain, next) →
      Steps (.merging buckets) context (.taken (.ok chain)) (.running chain buckets) next
  | takeNone {context next : MergeContext} {error : EngineError} {buckets : List Bucket} :
      context.takeChain = (.error error, next) →
      Steps (.merging buckets) context (.taken (.error error)) .ended next
  | run {context : MergeContext} {chain : Chain} {buckets : List Bucket} (outcome : JobOutcome) :
      Steps (.running chain buckets) context (.ran outcome) .ended context
  | raise {context : MergeContext} {error : EngineError} :
      Steps (.failing error) context .raised (.publishing (.error error)) context.raiseCancel
  | publish {context : MergeContext} {outcome : JobOutcome} :
      Steps (.publishing outcome) context (.published outcome (!context.closed)) .ended
        (context.publish outcome)

def isRunning : Call → Bool
  | .running .. => true
  | _ => false

end Call

namespace Entry

def isReady : Entry → Bool
  | .answered (.ok .ready) => true
  | _ => false

def isRun : Entry → Bool
  | .ran _ => true
  | _ => false

def published? : Entry → Option JobOutcome
  | .published outcome _ => some outcome
  | _ => none

def sent? : Entry → Option JobOutcome
  | .published outcome true => some outcome
  | _ => none

def merged? : Entry → Option JobOutcome
  | .ran outcome => some outcome
  | .gathered (.error error) | .taken (.error error) => some (.error error)
  | _ => none

def shuts (entry : Entry) : Bool := entry.isReady || entry.published?.isSome

def Refuses (entry : Entry) : Prop := ∀ answer, entry = .answered answer → answer = .ok .closed

end Entry

/-- The runs in which each of the calls takes its steps in order, between those of the others:
what the steps came to, the context afterwards, and where the calls stand. -/
inductive Interleaving (context : MergeContext) (calls : List Call) :
    History → MergeContext → List Call → Prop where
  | start : Interleaving context calls [] context calls
  | next {t : History} {current after : MergeContext} {standing : List Call} {call next : Call}
      {entry : Entry} (i : Nat) : Interleaving context calls t current standing →
      standing[i]? = some call → call.Steps current entry next after →
      Interleaving context calls (t ++ [entry]) after (standing.set i next)

-- ---------------------------------------------------------------------------
-- Calls that are alone
-- ---------------------------------------------------------------------------

variable {context current next : MergeContext} {calls standing : List Call} {t : History}
  {request : Request} {entry : Entry}

theorem interleaving_fail (context : MergeContext) (error : EngineError) :
    Interleaving context [.failing error] [.raised, .published (.error error) (!context.closed)]
      (context.fail error) [.ended] :=
  .next (t := [_]) 0 (.next (t := []) 0 .start rfl .raise) rfl .publish

theorem interleaving_complete (context : MergeContext) (sink : Sink) :
    ∃ t, Interleaving context [.completing] t (context.complete sink).2.1 [.ended] ∧
      t.filterMap Entry.merged? = [(context.complete sink).1] := by
  cases hb : context.takeBuckets with
  | mk buckets after =>
    cases buckets with
    | error error =>
      simp only [complete, hb]
      exact ⟨_, .next 0 .start rfl (.gatherNone hb), rfl⟩
    | ok buckets =>
      have hgather : Interleaving context [.completing] [.gathered (.ok buckets)] after
          [.merging buckets] := .next (t := []) 0 .start rfl (.gather hb)
      cases hc : after.takeChain with
      | mk chain last =>
        cases chain with
        | error error =>
          simp only [complete, hb, merge, hc]
          exact ⟨_, .next 0 hgather rfl (.takeNone hc), rfl⟩
        | ok chain =>
          simp only [complete, hb, merge, hc]
          exact ⟨_, .next 0 (.next 0 hgather rfl (.take hc)) rfl (.run _), rfl⟩

-- ---------------------------------------------------------------------------
-- Any request
-- ---------------------------------------------------------------------------

theorem accept_shut (h : ¬ context.IsOpen) (request : Request) :
    context.accept request = (.ok .closed, context) := by
  have hshut : (context.closed || context.merging) = true := by
    cases hc : context.closed <;> cases hm : context.merging <;> simp
    exact h ⟨hc, hm⟩
  simp [accept, hshut]

theorem accept_failure {message : String} (h : context.IsOpen)
    (hp : request.payload = .failure message) :
    context.accept request = (.error (.remote message), context) := by
  simp [accept, h.not_closed, h.not_merging, hp]

theorem untouched_accept (context : MergeContext) (request : Request) :
    Untouched context (context.accept request).2 := by
  by_cases h : context.IsOpen
  · cases hp : request.payload with
    | rows bucket => exact (accept_rows context hp).untouched
    | failure message =>
      rw [accept_failure h hp]
      exact .refl context
  · rw [accept_shut h]
    exact .refl context

theorem accept_merging (context : MergeContext) (request : Request) :
    (context.accept request).2.merging = true ↔
      context.merging = true ∨ (context.accept request).1 = .ok .ready := by
  by_cases h : context.IsOpen
  case neg => simp [accept_shut h]
  cases hp : request.payload with
  | failure message => simp [accept_failure h hp]
  | rows bucket =>
    have ha := accept_rows context hp
    generalize (context.accept request).1 = answer at ha ⊢
    generalize (context.accept request).2 = next at ha ⊢
    cases ha with
    | shut => simp
    | stranger => simp
    | late => simp
    | secondEnd => simp [setProgress]
    | surplus => simp [setProgress]
    | taken =>
      rw [addBucket_fst _ _ _ (show (context.setProgress ..).merging = false from h.not_merging)]
      simp [h.not_merging]

-- ---------------------------------------------------------------------------
-- Taking the buckets and the chain
-- ---------------------------------------------------------------------------

theorem takeBuckets_ok {buckets : List Bucket} (h : context.takeBuckets = (.ok buckets, next)) :
    context.closed = false ∧ next = { context with buckets := [] } := by
  unfold takeBuckets at h
  split at h <;> simp_all

theorem takeBuckets_error {error : EngineError} (h : context.takeBuckets = (.error error, next)) :
    context.closed = true ∧ next = context := by
  unfold takeBuckets at h
  split at h <;> simp_all

theorem takeChain_ok {chain : Chain} (h : context.takeChain = (.ok chain, next)) :
    context.chain = some chain ∧ next = { context with chain := none } := by
  unfold takeChain at h
  split at h <;> simp_all

theorem takeChain_error {error : EngineError} (h : context.takeChain = (.error error, next)) :
    context.chain = none ∧ next = context := by
  unfold takeChain at h
  split at h <;> simp_all

-- ---------------------------------------------------------------------------
-- The latches
-- ---------------------------------------------------------------------------

/-- How often the chain is still to run, runs, and has run. -/
def chainUses (context : MergeContext) (calls : List Call) (t : History) : Nat :=
  (if context.chain.isSome then 1 else 0) + calls.countP Call.isRunning + t.countP Entry.isRun

structure Latches (context : MergeContext) (calls : List Call) (t : History) : Prop where
  merging : context.merging = true ↔ ∃ entry ∈ t, entry.isReady = true
  closed : context.closed = context.outcome.isSome
  outcome : context.outcome = (t.filterMap Entry.published?).head?
  sent : t.filterMap Entry.sent? = (t.filterMap Entry.published?).head?.toList
  emptied : context.closed = true → context.buckets = []
  shut : t.Pairwise fun earlier later => earlier.shuts = true → later.Refuses
  chainUses_le : chainUses context calls t ≤ 1

theorem latches_create {phase : MergePhase} {chain : Chain}
    (h : create phase chain = .ok context) (hnew : ∀ call ∈ calls, call.IsNew) :
    Latches context calls [] := by
  rw [eq_fresh h]
  have hidle : calls.countP Call.isRunning = 0 := by
    refine List.countP_eq_zero.mpr fun call hm => ?_
    cases hnew call hm <;> simp [Call.isRunning]
  exact ⟨by simp [fresh], rfl, rfl, rfl, fun _ => rfl, .nil, by simp [chainUses, fresh, hidle]⟩

theorem Latches.not_open (h : Latches context calls t) {earlier : Entry} (hm : earlier ∈ t)
    (hs : earlier.shuts = true) : ¬ context.IsOpen := by
  rintro ⟨hclosed, hmerging⟩
  rcases Bool.or_eq_true_iff.mp hs with hready | hpublished
  · simp [h.merging.mpr ⟨earlier, hm, hready⟩] at hmerging
  · have hnone : ∀ entry ∈ t, entry.published? = none := by
      simpa [h.closed, h.outcome] using hclosed
    simp [hnone earlier hm] at hpublished

theorem isReady_answered (answer : Answer) :
    Entry.isReady (.answered answer) = true ↔ answer = .ok .ready := by
  unfold Entry.isReady
  split <;> simp_all

theorem Latches.shut_snoc (h : Latches context calls t)
    (hentry : ∀ earlier ∈ t, earlier.shuts = true → entry.Refuses) :
    (t ++ [entry]).Pairwise fun earlier later => earlier.shuts = true → later.Refuses := by
  refine List.pairwise_append.mpr ⟨h.shut, List.pairwise_singleton .., ?_⟩
  intro earlier hm later hl
  rw [List.mem_singleton.mp hl]
  exact hentry earlier hm

theorem Latches.quiet {standing : List Call} (h : Latches context calls t)
    (hanswer : ∀ answer, entry ≠ .answered answer) (hpublished : entry.published? = none)
    (hmerging : next.merging = context.merging) (hclosed : next.closed = context.closed)
    (houtcome : next.outcome = context.outcome)
    (hbuckets : context.buckets = [] → next.buckets = [])
    (huses : chainUses next standing (t ++ [entry]) = chainUses context calls t) :
    Latches next standing (t ++ [entry]) := by
  have hready : entry.isReady = false := by
    cases entry <;> simp_all [Entry.isReady]
  have hsent : entry.sent? = none := by
    cases entry <;> simp_all [Entry.sent?, Entry.published?]
  refine ⟨?_, ?_, ?_, ?_, ?_, ?_, huses ▸ h.chainUses_le⟩
  · simpa [hmerging, or_and_right, exists_or, hready] using h.merging
  · rw [hclosed, houtcome, h.closed]
  · simp [houtcome, h.outcome, hpublished]
  · simp [h.sent, hpublished, hsent]
  · rw [hclosed]
    exact hbuckets ∘ h.emptied
  · exact h.shut_snoc fun _ _ _ answer ha => absurd ha (hanswer answer)

/-- A request: an open context has nothing behind it that would shut it, a shut one refuses. -/
theorem Latches.accept {standing : List Call} (h : Latches context calls t)
    (huses : chainUses (context.accept request).2 standing
      (t ++ [.answered (context.accept request).1]) = chainUses context calls t) :
    Latches (context.accept request).2 standing (t ++ [.answered (context.accept request).1]) := by
  have hun := untouched_accept context request
  refine ⟨?_, ?_, ?_, ?_, ?_, ?_, huses ▸ h.chainUses_le⟩
  · simp [accept_merging, h.merging, isReady_answered, or_and_right, exists_or]
  · rw [hun.closed, hun.outcome, h.closed]
  · simp [hun.outcome, h.outcome, Entry.published?]
  · simp [h.sent, Entry.published?, Entry.sent?]
  · intro hclosed
    rw [hun.closed] at hclosed
    rw [accept_shut fun hopen => by simp [hopen.not_closed] at hclosed]
    exact h.emptied hclosed
  · refine h.shut_snoc fun earlier hm hs answer ha => ?_
    rw [accept_shut (h.not_open hm hs)] at ha
    exact (Entry.answered.inj ha).symm

theorem Latches.publish {standing : List Call} {outcome : JobOutcome} (h : Latches context calls t)
    (huses : chainUses (context.publish outcome) standing
      (t ++ [.published outcome (!context.closed)]) = chainUses context calls t) :
    Latches (context.publish outcome) standing (t ++ [.published outcome (!context.closed)]) := by
  have hshut : (t ++ [Entry.published outcome (!context.closed)]).Pairwise
      fun earlier later => earlier.shuts = true → later.Refuses :=
    h.shut_snoc fun _ _ _ answer ha => nomatch ha
  cases hclosed : context.closed with
  | true =>
    -- an outcome was published before, so that the first one stays the first
    have hsame : context.publish outcome = context := by simp [MergeContext.publish, hclosed]
    rw [hclosed] at huses hshut
    rw [hsame] at huses ⊢
    obtain ⟨first, ho⟩ := Option.isSome_iff_exists.mp (h.closed ▸ hclosed)
    refine ⟨?_, h.closed, ?_, ?_, h.emptied, hshut, huses ▸ h.chainUses_le⟩
    · simpa [or_and_right, exists_or, Entry.isReady] using h.merging
    · simp [List.head?_append, ← h.outcome, ho]
    · simp [h.sent, Entry.sent?, List.head?_append, ← h.outcome, ho]
  | false =>
    have hnone : context.outcome = none := by simpa [h.closed] using hclosed
    have hempty : (t.filterMap Entry.published?) = [] := by
      rw [← List.head?_eq_none_iff, ← h.outcome, hnone]
    rw [hclosed] at huses hshut
    have hnext : context.publish outcome =
        { context with closed := true, buckets := [], outcome := some outcome } := by
      simp [MergeContext.publish, hclosed]
    rw [hnext] at huses ⊢
    refine ⟨?_, rfl, ?_, ?_, fun _ => rfl, hshut, huses ▸ h.chainUses_le⟩
    · simpa [or_and_right, exists_or, Entry.isReady] using h.merging
    · simp [hempty, Entry.published?]
    · simp [h.sent, hempty, Entry.published?, Entry.sent?]

theorem countP_set_add {α : Type} {p : α → Bool} {xs : List α} {i : Nat} {x y : α}
    (h : xs[i]? = some x) :
    (xs.set i y).countP p + (if p x then 1 else 0) = xs.countP p + if p y then 1 else 0 := by
  obtain ⟨hi, rfl⟩ := List.getElem?_eq_some_iff.mp h
  rw [List.countP_set hi]
  have hpos : p xs[i] = true → 0 < xs.countP p :=
    fun hp => List.countP_pos_iff.mpr ⟨_, List.getElem_mem hi, hp⟩
  split <;> rename_i hp
  · have := hpos hp
    omega
  · omega

/-- A step uses the chain no more often than it could be used before. -/
theorem chainUses_step {i : Nat} {call : Call} {nextCall : Call} (hi : calls[i]? = some call)
    (hs : call.Steps context entry nextCall next) :
    chainUses next (calls.set i nextCall) (t ++ [entry]) = chainUses context calls t := by
  have hcount := countP_set_add (p := Call.isRunning) (y := nextCall) hi
  cases hs with
  | accept request =>
    simpa [chainUses, Call.isRunning, Entry.isRun, (untouched_accept ..).chain] using hcount
  | gather hb =>
    obtain ⟨-, rfl⟩ := takeBuckets_ok hb
    simpa [chainUses, Call.isRunning, Entry.isRun] using hcount
  | gatherNone hb =>
    obtain ⟨-, rfl⟩ := takeBuckets_error hb
    simpa [chainUses, Call.isRunning, Entry.isRun] using hcount
  | take hc =>
    obtain ⟨hchain, rfl⟩ := takeChain_ok hc
    simp only [Call.isRunning, Bool.false_eq_true, ↓reduceIte, Nat.add_zero] at hcount
    simp [chainUses, Entry.isRun, hchain, hcount, Nat.add_comm]
  | takeNone hc =>
    obtain ⟨-, rfl⟩ := takeChain_error hc
    simpa [chainUses, Call.isRunning, Entry.isRun] using hcount
  | run outcome =>
    simp only [Call.isRunning, Bool.false_eq_true, ↓reduceIte] at hcount
    simp only [chainUses, List.countP_append, List.countP_singleton, Entry.isRun, ↓reduceIte]
    omega
  | raise =>
    simp only [Call.isRunning, Bool.false_eq_true, ↓reduceIte, Nat.add_zero] at hcount
    simp only [chainUses, List.countP_append, hcount]
    rfl
  | publish =>
    have hchain (outcome : JobOutcome) : (context.publish outcome).chain = context.chain := by
      unfold publish
      split <;> rfl
    simpa [chainUses, Call.isRunning, Entry.isRun, hchain] using hcount

theorem Latches.step {i : Nat} {call nextCall : Call} (h : Latches context calls t)
    (hi : calls[i]? = some call) (hs : call.Steps context entry nextCall next) :
    Latches next (calls.set i nextCall) (t ++ [entry]) := by
  have huses := chainUses_step (t := t) hi hs
  cases hs with
  | accept request => exact h.accept huses
  | gather hb =>
    obtain ⟨-, rfl⟩ := takeBuckets_ok hb
    exact h.quiet (fun _ => nofun) rfl rfl rfl rfl (fun _ => rfl) huses
  | gatherNone hb =>
    obtain ⟨-, rfl⟩ := takeBuckets_error hb
    exact h.quiet (fun _ => nofun) rfl rfl rfl rfl id huses
  | take hc =>
    obtain ⟨-, rfl⟩ := takeChain_ok hc
    exact h.quiet (fun _ => nofun) rfl rfl rfl rfl id huses
  | takeNone hc =>
    obtain ⟨-, rfl⟩ := takeChain_error hc
    exact h.quiet (fun _ => nofun) rfl rfl rfl rfl id huses
  | run outcome => exact h.quiet (fun _ => nofun) rfl rfl rfl rfl id huses
  | raise => exact h.quiet (fun _ => nofun) rfl rfl rfl rfl id huses
  | publish => exact h.publish huses

theorem Latches.run (h : Latches context calls [])
    (hrun : Interleaving context calls t current standing) : Latches current standing t := by
  induction hrun with
  | start => exact h
  | next i _ hi hs ih => exact ih.step hi hs

theorem countP_isReady_le
    (h : t.Pairwise fun earlier later => earlier.shuts = true → later.Refuses) :
    t.countP Entry.isReady ≤ 1 := by
  induction t with
  | nil => simp
  | cons entry rest ih =>
    obtain ⟨hentry, hrest⟩ := List.pairwise_cons.mp h
    cases hready : entry.isReady with
    | false => simpa [hready] using ih hrest
    | true =>
      have hnone : rest.countP Entry.isReady = 0 := by
        refine List.countP_eq_zero.mpr fun later hm hlater => ?_
        have hrefuses := hentry later hm (by simp [Entry.shuts, hready])
        unfold Entry.isReady at hlater
        split at hlater
        · cases hrefuses _ rfl
        · cases hlater
      simp [hready, hnone]

/-- However calls on a new context interleave: one request at most begins the merge, and its chain
runs once at most. Of the outcomes that are published the first one is sent, and no other. After
the merge began, or an outcome was published, every request comes too late; and once an outcome was
sent the context is closed and holds no buckets. -/
theorem calls_latch {phase : MergePhase} {chain : Chain}
    (hcreate : create phase chain = .ok context) (hnew : ∀ call ∈ calls, call.IsNew)
    (hrun : Interleaving context calls t current standing) :
    t.countP Entry.isReady ≤ 1 ∧ t.countP Entry.isRun ≤ 1 ∧
    t.filterMap Entry.sent? = (t.filterMap Entry.published?).head?.toList ∧
    current.outcome = (t.filterMap Entry.sent?).head? ∧
    (t.Pairwise fun earlier later => earlier.shuts = true → later.Refuses) ∧
    ((t.filterMap Entry.sent?) ≠ [] → current.closed = true ∧ current.buckets = []) := by
  have h := (latches_create hcreate hnew).run hrun
  have houtcome : current.outcome = (t.filterMap Entry.sent?).head? := by
    rw [h.sent, h.outcome]
    cases (t.filterMap Entry.published?).head? <;> rfl
  refine ⟨countP_isReady_le h.shut, ?_, h.sent, houtcome, h.shut, fun hsent => ?_⟩
  · have hle := h.chainUses_le
    simp only [chainUses] at hle
    omega
  · have hclosed : current.closed = true := by
      rw [h.closed, houtcome, List.isSome_head?]
      simpa using hsent
    exact ⟨hclosed, h.emptied hclosed⟩

/-- The job is cancelled while its merge is under way, and another request comes at the end. -/
theorem calls_latch_cancelled :
    let request : Request := ⟨.nil, 0, 0, true, .rows (.materialized [[.long 1]])⟩
    let calls : List Call :=
      [.accepting request, .completing, .cancelling, .publishing (.ok []), .accepting request]
    let t : History := [.answered (.ok .ready), .gathered (.ok [.materialized [[.long 1]]]),
      .raised, .taken (.ok ⟨[]⟩), .published (.error .cancelled) true, .ran (.error .cancelled),
      .published (.ok []) false, .answered (.ok .closed)]
    ∃ current standing, Interleaving (fresh ⟨.nil, [.long], [], 1⟩ ⟨[]⟩) calls t current standing ∧
      t.countP Entry.isReady ≤ 1 ∧ t.countP Entry.isRun ≤ 1 ∧
      t.filterMap Entry.sent? = (t.filterMap Entry.published?).head?.toList ∧
      current.outcome = (t.filterMap Entry.sent?).head? ∧
      (t.Pairwise fun earlier later => earlier.shuts = true → later.Refuses) ∧
      ((t.filterMap Entry.sent?) ≠ [] → current.closed = true ∧ current.buckets = []) := by
  intro request calls t
  have hrun : Interleaving (fresh ⟨.nil, [.long], [], 1⟩ ⟨[]⟩) calls t _ _ :=
    .next (t := [_, _, _, _, _, _, _]) 4 (.next (t := [_, _, _, _, _, _]) 3
      (.next (t := [_, _, _, _, _]) 1 (.next (t := [_, _, _, _]) 2 (.next (t := [_, _, _]) 1
        (.next (t := [_, _]) 2 (.next (t := [_]) 1 (.next (t := []) 0 .start rfl (.accept request))
          rfl (.gather rfl)) rfl .raise) rfl (.take rfl)) rfl .publish) rfl (.run _)) rfl .publish)
      rfl (.accept request)
  refine ⟨_, _, hrun, calls_latch (create_eq _ (by decide)) ?_ hrun⟩
  simp only [calls, List.forall_mem_cons]
  exact ⟨.accept _, .complete, .fail _, .publish _, .accept _, nofun⟩

end MergeContext

end ShardQuery
