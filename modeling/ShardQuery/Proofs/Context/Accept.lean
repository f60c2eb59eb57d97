import ShardQuery.Job.Context
import ShardQuery.Proofs.Lookup
/-!
# Taking one request

What a request of rows does to a merge context. In most cases the context stays
as it was; a request that is counted changes the progress of its own producer
only, and one that is taken adds its bucket.
-/

namespace ShardQuery

namespace MergeContext

variable {context : MergeContext} {request : Request} {bucket : Bucket}

-- ---------------------------------------------------------------------------
-- The errors of refused requests
-- ---------------------------------------------------------------------------

def refusal (job : JobId) (reason : String) : EngineError :=
  .execution s!"job {job} received {reason}"

def strangerError (job : JobId) (producers : Nat) (request : Request) : EngineError :=
  refusal job s!"rows from producer {request.producer} of {producers}"

def lateError (job : JobId) (request : Request) : EngineError :=
  refusal job s!"request {request.sequence} after producer {request.producer} finished"

def secondEndError (job : JobId) (request : Request) : EngineError :=
  refusal job s!"a second end of stream from producer {request.producer}"

def surplusError (job : JobId) (request : Request) : EngineError :=
  refusal job s!"more requests from producer {request.producer} than it announced"

theorem refusal_inj {job : JobId} {reason other : String} :
    refusal job reason = refusal job other ↔ reason = other := by
  simp [refusal, String.append_right_inj, toString]

theorem refusal_ne_secondEndError {job : JobId} {reason : String} {request : Request}
    (h : reason.toList.head? ≠ some 'a') : refusal job reason ≠ secondEndError job request := by
  intro he
  apply h
  rw [refusal_inj.mp he]
  simp [toString]

theorem strangerError_ne_secondEndError (job : JobId) (producers : Nat) (request : Request) :
    strangerError job producers request ≠ secondEndError job request :=
  refusal_ne_secondEndError (by simp [toString])

theorem lateError_ne_secondEndError (job : JobId) (request : Request) :
    lateError job request ≠ secondEndError job request :=
  refusal_ne_secondEndError (by simp [toString])

-- ---------------------------------------------------------------------------
-- The progress of producers
-- ---------------------------------------------------------------------------

@[simp] theorem progressOf_setProgress (context : MergeContext) (p q : UInt32)
    (progress : Progress) :
    (context.setProgress p progress).progressOf q =
      if q = p then progress else context.progressOf q := by
  by_cases h : q = p
  · simp [setProgress, progressOf, h]
  · have hq : (q == p) = false := by simpa using h
    simp [setProgress, progressOf, List.lookup_cons, h, hq, lookup_filter_ne _ h]

def expectedAfter (request : Request) (progress : Progress) : Option Nat :=
  if request.isLast then some (announced request.sequence) else progress.expected

variable {job : JobId} {progress : Progress}

theorem advance_secondEnd (hl : request.isLast = true) (he : progress.expected.isSome = true) :
    advance job request progress =
      (⟨progress.received + 1, progress.expected⟩, some (secondEndError job request)) := by
  simp only [advance, hl, he, and_self, ↓reduceIte]
  rfl

/-- All but a second end of stream: one more has come, and it is a surplus one if that makes more
than were announced. -/
theorem advance_first (hfirst : request.isLast = true → progress.expected = none) :
    advance job request progress =
      (⟨progress.received + 1, expectedAfter request progress⟩,
        if (expectedAfter request progress).any (· < progress.received + 1) then
          some (surplusError job request)
        else none) := by
  have hend : ¬ (request.isLast = true ∧ progress.expected.isSome = true) := by
    rintro ⟨hl, he⟩
    simp [hfirst hl] at he
  simp only [advance, hend, ↓reduceIte, expectedAfter]
  by_cases hl : request.isLast = true
  · simp only [hl, ↓reduceIte]
    split <;> rfl
  · simp only [hl, ↓reduceIte, Bool.false_eq_true]
    split <;> rfl

-- ---------------------------------------------------------------------------
-- Adding a bucket
-- ---------------------------------------------------------------------------

theorem addBucket_snd (context : MergeContext) (bucket : Bucket) (progress : Progress) :
    (context.addBucket bucket progress).2 =
      if progress.isComplete then
        { context with
          buckets := context.buckets ++ [bucket]
          finishedProducers := context.finishedProducers + 1
          merging := context.finishedProducers + 1 == context.expectedProducers }
      else { context with buckets := context.buckets ++ [bucket] } := by
  unfold addBucket
  split <;> rfl

@[simp] theorem progressOf_addBucket (context : MergeContext) (bucket : Bucket)
    (progress : Progress) (p : UInt32) :
    (context.addBucket bucket progress).2.progressOf p = context.progressOf p := by
  rw [addBucket_snd]
  split <;> rfl

theorem buckets_addBucket (context : MergeContext) (bucket : Bucket) (progress : Progress) :
    (context.addBucket bucket progress).2.buckets = context.buckets ++ [bucket] := by
  rw [addBucket_snd]
  split <;> rfl

theorem addBucket_fst (context : MergeContext) (bucket : Bucket) (progress : Progress)
    (h : context.merging = false) :
    (context.addBucket bucket progress).1 =
      if (context.addBucket bucket progress).2.merging then .ready else .pending := by
  unfold addBucket
  split
  · rfl
  · simp [h]

-- ---------------------------------------------------------------------------
-- The cases of a request
-- ---------------------------------------------------------------------------

structure IsOpen (context : MergeContext) : Prop where
  not_closed : context.closed = false
  not_merging : context.merging = false

/-- The request is counted: the context is open, and the producer is expected and has not
finished. -/
structure Counts (context : MergeContext) (request : Request) : Prop where
  isOpen : context.IsOpen
  known : request.producer.toNat < context.expectedProducers
  unfinished : (context.progressOf request.producer).isComplete = false

def counted (context : MergeContext) (request : Request) (expected : Option Nat) : Progress :=
  ⟨(context.progressOf request.producer).received + 1, expected⟩

/-- What taking requests leaves alone. -/
structure Untouched (before after : MergeContext) : Prop where
  job : after.job = before.job
  inputTypes : after.inputTypes = before.inputTypes
  expectedProducers : after.expectedProducers = before.expectedProducers
  chain : after.chain = before.chain
  cancelled : after.cancelled = before.cancelled
  closed : after.closed = before.closed
  outcome : after.outcome = before.outcome

theorem Untouched.refl (context : MergeContext) : Untouched context context :=
  ⟨rfl, rfl, rfl, rfl, rfl, rfl, rfl⟩

theorem Untouched.trans {a b c : MergeContext} (h : Untouched a b) (k : Untouched b c) :
    Untouched a c :=
  ⟨k.job.trans h.job, k.inputTypes.trans h.inputTypes,
    k.expectedProducers.trans h.expectedProducers, k.chain.trans h.chain,
    k.cancelled.trans h.cancelled, k.closed.trans h.closed, k.outcome.trans h.outcome⟩

theorem untouched_setProgress (context : MergeContext) (p : UInt32) (progress : Progress) :
    Untouched context (context.setProgress p progress) :=
  ⟨rfl, rfl, rfl, rfl, rfl, rfl, rfl⟩

theorem untouched_addBucket (context : MergeContext) (bucket : Bucket) (progress : Progress) :
    Untouched context (context.addBucket bucket progress).2 := by
  rw [addBucket_snd]
  split <;> exact ⟨rfl, rfl, rfl, rfl, rfl, rfl, rfl⟩

inductive Accepts (context : MergeContext) (request : Request) (bucket : Bucket) :
    Except EngineError Acceptance → MergeContext → Prop where
  | shut : ¬ context.IsOpen → Accepts context request bucket (.ok .closed) context
  | stranger : context.IsOpen → context.expectedProducers ≤ request.producer.toNat →
      Accepts context request bucket
        (.error (strangerError context.job context.expectedProducers request)) context
  | late : context.IsOpen → request.producer.toNat < context.expectedProducers →
      (context.progressOf request.producer).isComplete = true →
      Accepts context request bucket (.error (lateError context.job request)) context
  | secondEnd : context.Counts request → request.isLast = true →
      (context.progressOf request.producer).expected.isSome = true →
      Accepts context request bucket (.error (secondEndError context.job request))
        (context.setProgress request.producer
          (context.counted request (context.progressOf request.producer).expected))
  | surplus (n : Nat) : context.Counts request →
      expectedAfter request (context.progressOf request.producer) = some n →
      n ≤ (context.progressOf request.producer).received →
      Accepts context request bucket (.error (surplusError context.job request))
        (context.setProgress request.producer (context.counted request (some n)))
  | taken (expected : Option Nat) : context.Counts request →
      expectedAfter request (context.progressOf request.producer) = expected →
      (request.isLast = true → (context.progressOf request.producer).expected = none) →
      (∀ n, expected = some n → (context.progressOf request.producer).received < n) →
      Accepts context request bucket
        (.ok ((context.setProgress request.producer (context.counted request expected)).addBucket
          bucket (context.counted request expected)).1)
        ((context.setProgress request.producer (context.counted request expected)).addBucket
          bucket (context.counted request expected)).2

theorem accept_rows (context : MergeContext) (hp : request.payload = .rows bucket) :
    context.Accepts request bucket (context.accept request).1 (context.accept request).2 := by
  by_cases hopen : context.IsOpen
  case neg =>
    have hshut : (context.closed || context.merging) = true := by
      cases hc : context.closed <;> cases hm : context.merging <;> simp
      exact hopen ⟨hc, hm⟩
    simp only [accept, hshut, ↓reduceIte]
    exact .shut hopen
  have hnot : (context.closed || context.merging) = false := by
    simp [hopen.not_closed, hopen.not_merging]
  by_cases hknown : context.expectedProducers ≤ request.producer.toNat
  case pos =>
    simp only [accept, hnot, hp, hknown, ↓reduceIte, Bool.false_eq_true]
    exact .stranger hopen hknown
  have hlt := Nat.lt_of_not_le hknown
  cases hdone : (context.progressOf request.producer).isComplete with
  | true =>
    simp only [accept, hnot, hp, hknown, hdone, ↓reduceIte, Bool.false_eq_true]
    exact .late hopen hlt hdone
  | false =>
    have hcounts : context.Counts request := ⟨hopen, hlt, hdone⟩
    simp only [accept, hnot, hp, hknown, hdone, ↓reduceIte, Bool.false_eq_true]
    by_cases hend : request.isLast = true ∧
        (context.progressOf request.producer).expected.isSome = true
    · rw [advance_secondEnd hend.1 hend.2]
      exact .secondEnd hcounts hend.1 hend.2
    · have hfirst : request.isLast = true →
          (context.progressOf request.producer).expected = none := by
        intro hl
        simpa [hl] using hend
      rw [advance_first hfirst]
      cases hn : expectedAfter request (context.progressOf request.producer) with
      | none => exact .taken none hcounts hn hfirst (by simp)
      | some n =>
        by_cases hlate : n ≤ (context.progressOf request.producer).received
        · rw [if_pos (by simp; omega)]
          exact .surplus n hcounts hn hlate
        · rw [if_neg (by simp; omega)]
          exact .taken (some n) hcounts hn hfirst (by simp; omega)

theorem Accepts.untouched {answer : Except EngineError Acceptance} {next : MergeContext}
    (h : context.Accepts request bucket answer next) : Untouched context next := by
  cases h with
  | shut => exact .refl _
  | stranger => exact .refl _
  | late => exact .refl _
  | secondEnd => exact untouched_setProgress ..
  | surplus => exact untouched_setProgress ..
  | taken => exact (untouched_setProgress ..).trans (untouched_addBucket ..)

end MergeContext

end ShardQuery
