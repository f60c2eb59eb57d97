import Mathlib.Data.List.Perm.Subperm
import Mathlib.Data.List.Nodup
import ShardQuery.Proofs.Context.Accept
/-!
# The books of a merge context

A run hands requests to a context one after the other. The context keeps numbers,
not requests; what these numbers say about the requests of the run so far is
`Tally`, and every request of rows keeps it.
-/

namespace ShardQuery

namespace MergeContext

abbrev Answer := Except EngineError Acceptance

abbrev Transcript := List (Request × Answer)

def acceptAll (context : MergeContext) : List Request → List Answer × MergeContext
  | [] => ([], context)
  | request :: rest =>
    let (answer, next) := context.accept request
    let (answers, last) := next.acceptAll rest
    (answer :: answers, last)

def transcript (context : MergeContext) (requests : List Request) : Transcript :=
  requests.zip (context.acceptAll requests).1

def isTaken : Answer → Bool
  | .ok .pending | .ok .ready => true
  | _ => false

def isSecondEnd (job : JobId) (request : Request) : Answer → Bool
  | .error error => error == secondEndError job request
  | .ok _ => false

namespace Transcript

def taken (t : Transcript) : List Request := (t.filter fun e => isTaken e.2).map Prod.fst

end Transcript

end MergeContext

namespace Request

def ofProducer (p : Nat) (requests : List Request) : List Request :=
  requests.filter (·.producer.toNat == p)

end Request

namespace MergeContext

open Request (ofProducer)

def secondEnds (job : JobId) (p : Nat) (t : Transcript) : Nat :=
  t.countP fun e => e.1.producer.toNat == p && isSecondEnd job e.1 e.2

-- ---------------------------------------------------------------------------
-- Runs, one request longer
-- ---------------------------------------------------------------------------

variable {context next : MergeContext} {request : Request} {bucket : Bucket} {answer : Answer}
  {t : Transcript}

theorem taken_append (t : Transcript) (request : Request) (answer : Answer) :
    (t ++ [(request, answer)]).taken =
      t.taken ++ if isTaken answer then [request] else [] := by
  cases h : isTaken answer <;> simp [Transcript.taken, h]

theorem ofProducer_append (p : Nat) (a b : List Request) :
    ofProducer p (a ++ b) = ofProducer p a ++ ofProducer p b :=
  List.filter_append ..

theorem ofProducer_cons_self (request : Request) (rest : List Request) :
    ofProducer request.producer.toNat (request :: rest) =
      request :: ofProducer request.producer.toNat rest := by
  simp [ofProducer]

theorem secondEnds_append (job : JobId) (p : Nat) (t : Transcript) (request : Request)
    (answer : Answer) :
    secondEnds job p (t ++ [(request, answer)]) = secondEnds job p t +
      if request.producer.toNat = p ∧ isSecondEnd job request answer = true then 1 else 0 := by
  simp [secondEnds, List.countP_append, List.countP_cons]

-- ---------------------------------------------------------------------------
-- The books
-- ---------------------------------------------------------------------------

/-- More requests of a producer were counted than it announced, so that it never finishes; one of
them was refused. -/
structure Overrun (progress : Progress) (t : Transcript) : Prop where
  beyond : ∃ n, progress.expected = some n ∧ n < progress.received
  refused : ∃ e ∈ t, e.2.isOk = false

/-- What the progress of a producer says about its requests: how many were taken, together with
those that ended the stream once more, and which place in the sequence the last one has. -/
structure Records (progress : Progress) (taken : List Request) (ends : Nat) : Prop where
  received : progress.received = taken.length + ends
  expected : progress.expected = (taken.find? (·.isLast)).map (announced ·.sequence)
  unique : taken.countP (·.isLast) ≤ 1

/-- The producers that were counted as finished: each of them has finished, and as long as no
request was refused there are no others. -/
structure Finished (context : MergeContext) (t : Transcript) (done : List UInt32) : Prop where
  nodup : done.Nodup
  length : done.length = context.finishedProducers
  known : ∀ p ∈ done, p.toNat < context.expectedProducers
  complete : ∀ p ∈ done, (context.progressOf p).isComplete = true
  all : (∀ e ∈ t, e.2.isOk = true) → ∀ p, (context.progressOf p).isComplete = true → p ∈ done

structure Tally (context : MergeContext) (t : Transcript) : Prop where
  not_closed : context.closed = false
  progress : ∀ p : UInt32, Overrun (context.progressOf p) t ∨
    Records (context.progressOf p) (ofProducer p.toNat t.taken) (secondEnds context.job p.toNat t)
  finished : ∃ done, Finished context t done
  merging : context.merging = true ↔ context.finishedProducers = context.expectedProducers
  ready : ∀ e ∈ t, e.2 = .ok .ready → context.merging = true
  buckets : t.taken.map Request.payload = context.buckets.map Payload.rows

theorem tally_create {phase : MergePhase} {chain : Chain}
    (h : create phase chain = .ok context) : Tally context [] := by
  simp only [create, MergePhase.validate] at h
  split at h
  · cases h
  · rename_i hp
    cases h
    have hp : phase.producers.toNat ≠ 0 := by
      intro hz
      exact hp (UInt64.toNat_inj.mp hz)
    refine ⟨rfl, fun p => .inr ⟨rfl, rfl, Nat.zero_le _⟩, ⟨[], ?_⟩, ?_, by simp, rfl⟩
    · refine ⟨List.nodup_nil, rfl, by simp, by simp, ?_⟩
      intro _ p hc
      simp [progressOf, Progress.none, Progress.isComplete] at hc
    · simp [hp.symm]

-- ---------------------------------------------------------------------------
-- Every request of rows keeps the books
-- ---------------------------------------------------------------------------

variable {progress : Progress} {requests : List Request} {ends : Nat}

theorem Overrun.counted (h : Overrun progress t) :
    Overrun ⟨progress.received + 1, progress.expected⟩ t := by
  obtain ⟨n, he, hn⟩ := h.beyond
  exact ⟨⟨n, he, Nat.lt_succ_of_lt hn⟩, h.refused⟩

theorem Overrun.append (h : Overrun progress t) (rest : Transcript) :
    Overrun progress (t ++ rest) := by
  obtain ⟨e, hm, he⟩ := h.refused
  exact ⟨h.beyond, e, List.mem_append_left _ hm, he⟩

theorem Records.secondEnd (h : Records progress requests ends) :
    Records ⟨progress.received + 1, progress.expected⟩ requests (ends + 1) :=
  ⟨by simp [h.received, Nat.add_assoc], h.expected, h.unique⟩

theorem Records.take (h : Records progress requests ends)
    (hfirst : request.isLast = true → progress.expected = none) :
    Records ⟨progress.received + 1, expectedAfter request progress⟩ (requests ++ [request])
      ends := by
  refine ⟨?_, ?_, ?_⟩
  · simp only [h.received, List.length_append, List.length_singleton]
    omega
  · by_cases hl : request.isLast = true
    · have hnone : requests.find? (·.isLast) = none := by
        simpa [h.expected] using hfirst hl
      simp [expectedAfter, hl, List.find?_append, hnone]
    · simp [expectedAfter, hl, List.find?_append, h.expected]
  · by_cases hl : request.isLast = true
    · have hnone : requests.find? (·.isLast) = none := by
        simpa [h.expected] using hfirst hl
      have hzero : requests.countP (·.isLast) = 0 :=
        List.countP_eq_zero.mpr (List.find?_eq_none.mp hnone)
      simp [List.countP_append, hzero, hl]
    · simpa [List.countP_append, hl] using h.unique

theorem Overrun.unfinished (h : Overrun progress t) : progress.isComplete = false := by
  obtain ⟨n, he, hn⟩ := h.beyond
  simp only [Progress.isComplete, he, beq_eq_false_iff_ne, ne_eq, Option.some.injEq]
  omega

theorem Overrun.no_room (h : Overrun progress t)
    (hfirst : request.isLast = true → progress.expected = none) :
    ∃ n, expectedAfter request progress = some n ∧ n < progress.received := by
  obtain ⟨n, he, hn⟩ := h.beyond
  have hl : request.isLast = false := by
    cases hl : request.isLast with
    | false => rfl
    | true => simp [hfirst hl] at he
  refine ⟨n, ?_, hn⟩
  simpa [expectedAfter, hl] using he

theorem Records.exists_last (h : Records progress requests ends) {n : Nat}
    (he : progress.expected = some n) :
    ∃ last ∈ requests, last.isLast = true ∧ announced last.sequence = n := by
  rw [h.expected] at he
  obtain ⟨last, hf, hn⟩ := Option.map_eq_some_iff.mp he
  have hl : last.isLast = true := by simpa using List.find?_some hf
  exact ⟨last, List.mem_of_find?_eq_some hf, hl, hn⟩

theorem Records.eq_of_isLast (h : Records progress requests ends) {r s : Request}
    (hr : r ∈ requests) (hs : s ∈ requests) (hrl : r.isLast = true) (hsl : s.isLast = true) :
    r = s := by
  have hlength := h.unique
  have hr := List.mem_filter.mpr ⟨hr, hrl⟩
  have hs := List.mem_filter.mpr ⟨hs, hsl⟩
  rw [List.countP_eq_length_filter] at hlength
  rcases hends : requests.filter (·.isLast) with _ | ⟨last, _ | ⟨other, rest⟩⟩
  · simp [hends] at hr
  · rw [hends, List.mem_singleton] at hr hs
    exact hr.trans hs.symm
  · simp [hends] at hlength

theorem Tally.ready_snoc (h : Tally context t) (ha : answer ≠ .ok .ready) :
    ∀ e ∈ t ++ [(request, answer)], e.2 = .ok .ready → context.merging = true := by
  intro e hm hr
  rcases List.mem_append.mp hm with hm | hm
  · exact h.ready e hm hr
  · rw [List.mem_singleton.mp hm] at hr
    exact absurd hr ha

theorem Tally.silent (h : Tally context t) (ht : isTaken answer = false)
    (he : isSecondEnd context.job request answer = false) :
    Tally context (t ++ [(request, answer)]) := by
  have htaken : (t ++ [(request, answer)]).taken = t.taken := by simp [taken_append, ht]
  have hready : answer ≠ .ok .ready := by
    rintro rfl
    cases ht
  refine ⟨h.not_closed, ?_, ?_, h.merging, h.ready_snoc hready, htaken ▸ h.buckets⟩
  · intro p
    refine (h.progress p).imp (·.append _) fun hr => ?_
    simpa [htaken, secondEnds_append, he] using hr
  · obtain ⟨done, hd⟩ := h.finished
    refine ⟨done, hd.nodup, hd.length, hd.known, hd.complete, ?_⟩
    intro hok
    exact hd.all fun e hm => hok e (List.mem_append_left _ hm)

theorem Finished.not_mem {done : List UInt32} (hd : Finished context t done)
    (hc : context.Counts request) : request.producer ∉ done := by
  intro hm
  simpa [hd.complete _ hm] using hc.unfinished

theorem Finished.still_complete {done : List UInt32} (hd : Finished context t done)
    (hc : context.Counts request) (progress : Progress) :
    ∀ p ∈ done, ((context.setProgress request.producer progress).progressOf p).isComplete =
      true := by
  intro p hm
  have hq : p ≠ request.producer := fun h => hd.not_mem hc (h ▸ hm)
  simpa [hq] using hd.complete p hm

theorem Tally.refused {error : EngineError} {progress : Progress} (h : Tally context t)
    (hc : context.Counts request) (ha : answer = .error error)
    (hp : Overrun progress (t ++ [(request, answer)]) ∨
      Records progress (ofProducer request.producer.toNat t.taken)
        (secondEnds context.job request.producer.toNat (t ++ [(request, answer)]))) :
    Tally (context.setProgress request.producer progress) (t ++ [(request, answer)]) := by
  have htaken : (t ++ [(request, answer)]).taken = t.taken := by
    simp [taken_append, ha, isTaken]
  have hready : answer ≠ .ok .ready := by
    rw [ha]
    rintro ⟨⟩
  refine ⟨h.not_closed, ?_, ?_, h.merging, h.ready_snoc hready, htaken ▸ h.buckets⟩
  · intro p
    rw [progressOf_setProgress, htaken, (untouched_setProgress ..).job]
    by_cases hq : p = request.producer
    · subst hq
      simpa using hp
    · have hne : request.producer.toNat ≠ p.toNat := fun hn => hq (UInt32.toNat_inj.mp hn).symm
      simp only [hq, ↓reduceIte]
      refine (h.progress p).imp (·.append _) fun hr => ?_
      simpa [secondEnds_append, hne] using hr
  · obtain ⟨done, hd⟩ := h.finished
    refine ⟨done, hd.nodup, hd.length, hd.known, hd.still_complete hc progress, ?_⟩
    intro hok
    have hok := hok (request, answer) (by simp)
    rw [ha] at hok
    cases hok

theorem Finished.take {done : List UInt32} (hd : Finished context t done)
    (hc : context.Counts request) :
    ∃ done, Finished ((context.setProgress request.producer progress).addBucket bucket progress).2
      (t ++ [(request, answer)]) done := by
  have hstill := hd.still_complete hc progress
  have hold : (∀ e ∈ t ++ [(request, answer)], e.2.isOk = true) →
      ∀ p, (context.progressOf p).isComplete = true → p ∈ done :=
    fun hok => hd.all fun e hm => hok e (List.mem_append_left _ hm)
  by_cases hdone : progress.isComplete = true
  · refine ⟨request.producer :: done, ?_, ?_, ?_, ?_, ?_⟩
    · exact List.nodup_cons.mpr ⟨hd.not_mem hc, hd.nodup⟩
    · simp [addBucket_snd, hdone, hd.length, setProgress]
    · rw [(untouched_addBucket ..).expectedProducers, (untouched_setProgress ..).expectedProducers]
      intro p hm
      rcases List.mem_cons.mp hm with rfl | hm
      · exact hc.known
      · exact hd.known p hm
    · intro p hm
      rcases List.mem_cons.mp hm with rfl | hm
      · simpa using hdone
      · rw [progressOf_addBucket]
        exact hstill p hm
    · intro hok p hcomplete
      by_cases hq : p = request.producer
      · simp [hq]
      · simp only [progressOf_addBucket, progressOf_setProgress, hq, ↓reduceIte] at hcomplete
        exact List.mem_cons_of_mem _ (hold hok p hcomplete)
  · refine ⟨done, hd.nodup, ?_, ?_, ?_, ?_⟩
    · simp [addBucket_snd, hdone, hd.length, setProgress]
    · rw [(untouched_addBucket ..).expectedProducers, (untouched_setProgress ..).expectedProducers]
      exact hd.known
    · intro p hm
      rw [progressOf_addBucket]
      exact hstill p hm
    · intro hok p hcomplete
      by_cases hq : p = request.producer
      · simp [hq, hdone] at hcomplete
      · simp only [progressOf_addBucket, progressOf_setProgress, hq, ↓reduceIte] at hcomplete
        exact hold hok p hcomplete

/-- A request that is taken adds to the requests of its producer, and finishes it if it was the
last one to come. -/
theorem Tally.take (h : Tally context t) (hp : request.payload = .rows bucket)
    (hc : context.Counts request)
    (hprogress : progress = context.counted request
      (expectedAfter request (context.progressOf request.producer)))
    (hfirst : request.isLast = true → (context.progressOf request.producer).expected = none)
    (hroom : ∀ n, progress.expected = some n → progress.received ≤ n)
    (ha : answer = .ok ((context.setProgress request.producer progress).addBucket
      bucket progress).1) :
    Tally ((context.setProgress request.producer progress).addBucket bucket progress).2
      (t ++ [(request, answer)]) := by
  have hmerging : (context.setProgress request.producer progress).merging = false :=
    hc.isOpen.not_merging
  rw [addBucket_fst _ _ _ hmerging] at ha
  have hisTaken : isTaken answer = true := by
    rw [ha]
    split <;> rfl
  have htaken : (t ++ [(request, answer)]).taken = t.taken ++ [request] := by
    simp [taken_append, hisTaken]
  have hnoEnd (job : JobId) : isSecondEnd job request answer = false := by
    rw [ha]
    rfl
  have hun := (untouched_setProgress context request.producer progress).trans
    (untouched_addBucket _ bucket progress)
  refine ⟨hun.closed.trans h.not_closed, ?_, ?_, ?_, ?_, ?_⟩
  · intro p
    rw [hun.job, progressOf_addBucket, progressOf_setProgress, htaken, ofProducer_append]
    have hends : secondEnds context.job p.toNat (t ++ [(request, answer)]) =
        secondEnds context.job p.toNat t := by
      simp [secondEnds_append, hnoEnd]
    rw [hends]
    by_cases hq : p = request.producer
    · subst hq
      rcases h.progress request.producer with ho | hr
      · obtain ⟨n, he, hn⟩ := ho.no_room hfirst
        have hle := hroom n (by rw [hprogress]; exact he)
        simp only [hprogress, counted] at hle
        omega
      · refine .inr ?_
        simpa [hprogress, counted, ofProducer] using hr.take hfirst
    · have hne : request.producer.toNat ≠ p.toNat := fun hn => hq (UInt32.toNat_inj.mp hn).symm
      simp only [hq, ↓reduceIte]
      refine (h.progress p).imp (·.append _) fun hr => ?_
      simpa [ofProducer, hne] using hr
  · obtain ⟨done, hd⟩ := h.finished
    exact hd.take hc
  · rw [addBucket_snd]
    split
    · simp [setProgress]
    · have hno := h.merging
      rw [hc.isOpen.not_merging] at hno
      simpa [setProgress, hc.isOpen.not_merging] using hno
  · intro e hm hr
    rcases List.mem_append.mp hm with hm | hm
    · have := h.ready e hm hr
      simp [hc.isOpen.not_merging] at this
    · rw [List.mem_singleton.mp hm, ha] at hr
      by_contra hno
      simp [hno] at hr
  · rw [htaken, buckets_addBucket]
    simp [h.buckets, hp, setProgress]

theorem Tally.step (h : Tally context t) (hp : request.payload = .rows bucket)
    (ha : context.Accepts request bucket answer next) : Tally next (t ++ [(request, answer)]) := by
  cases ha with
  | shut => exact h.silent rfl rfl
  | stranger =>
    exact h.silent rfl (beq_eq_false_iff_ne.mpr (strangerError_ne_secondEndError _ _ _))
  | late => exact h.silent rfl (beq_eq_false_iff_ne.mpr (lateError_ne_secondEndError _ _))
  | secondEnd hc hl he =>
    refine h.refused hc rfl ?_
    rcases h.progress request.producer with ho | hr
    · exact .inl (ho.counted.append _)
    · have hends : secondEnds context.job request.producer.toNat
          (t ++ [(request, .error (secondEndError context.job request))]) =
          secondEnds context.job request.producer.toNat t + 1 := by
        simp [secondEnds_append, isSecondEnd]
      rw [hends]
      exact .inr hr.secondEnd
  | surplus n hc he hn =>
    exact h.refused hc rfl
      (.inl ⟨⟨n, rfl, Nat.lt_succ_of_le hn⟩, _,
        List.mem_append_right _ (List.mem_singleton.mpr rfl), rfl⟩)
  | taken expected hc he hfirst hroom =>
    subst he
    exact h.take hp hc rfl hfirst hroom rfl

/-- Every run of requests of rows keeps the books. -/
theorem Tally.run {requests : List Request} (h : Tally context t)
    (hrows : ∀ r ∈ requests, ∃ bucket, r.payload = .rows bucket) :
    Tally (context.acceptAll requests).2 (t ++ context.transcript requests) := by
  induction requests generalizing context t with
  | nil => simpa [transcript, acceptAll] using h
  | cons request rest ih =>
    obtain ⟨bucket, hp⟩ := hrows request (by simp)
    have hstep := h.step hp (accept_rows _ hp)
    have hrest := ih hstep fun r hr => hrows r (List.mem_cons_of_mem _ hr)
    simpa [transcript, acceptAll] using hrest

end MergeContext

end ShardQuery
