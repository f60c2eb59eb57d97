import ShardQuery.Proofs.Context.Tally
/-!
# Streams that come in any order

`accept_streams`: when every producer sends one whole stream, whatever the order
in which the requests arrive, none is refused, the last one to arrive begins the
merge, and the merge gets every bucket once.

Without that premise the counters cannot tell a missing request from one that
came twice. `ready_stream_iff` says for which runs the streams are whole once the
merge begins.
-/

namespace ShardQuery

open Request (ofProducer)

/-- The requests of a stream of `n` requests, in any order: they are numbered from zero, and only
the one with the last number ends the stream. -/
structure IsStream (n : Nat) (requests : List Request) : Prop where
  numbered : (requests.map (·.sequence.toNat)).Perm (List.range n)
  ends : ∀ r ∈ requests, r.isLast = true ↔ r.sequence.toNat + 1 = n

namespace IsStream

variable {n : Nat} {requests : List Request}

theorem length (h : IsStream n requests) : requests.length = n := by
  simpa using h.numbered.length_eq

theorem nodup (h : IsStream n requests) : (requests.map (·.sequence.toNat)).Nodup :=
  h.numbered.nodup_iff.mpr List.nodup_range

theorem lt (h : IsStream n requests) {r : Request} (hr : r ∈ requests) : r.sequence.toNat < n :=
  List.mem_range.mp (h.numbered.mem_iff.mp (List.mem_map.mpr ⟨r, hr, rfl⟩))

theorem eq_of_isLast (h : IsStream n requests) {r s : Request} (hr : r ∈ requests)
    (hs : s ∈ requests) (hrl : r.isLast = true) (hsl : s.isLast = true) : r = s := by
  have hr' := (h.ends r hr).mp hrl
  have hs' := (h.ends s hs).mp hsl
  exact List.inj_on_of_nodup_map h.nodup hr hs (by omega)

theorem exists_last (h : IsStream n requests) (hn : 0 < n) :
    ∃ r ∈ requests, r.isLast = true := by
  have hm : n - 1 ∈ requests.map (·.sequence.toNat) :=
    h.numbered.mem_iff.mpr (List.mem_range.mpr (by omega))
  obtain ⟨r, hr, he⟩ := List.mem_map.mp hm
  exact ⟨r, hr, (h.ends r hr).mpr (by omega)⟩

end IsStream

namespace MergeContext

variable {context : MergeContext} {request : Request} {before requests : List Request}
  {t : Transcript}

theorem announced_eq {sequence : UInt64} {n : Nat} (h : sequence.toNat + 1 = n)
    (hn : n ≤ 0xffffffffffffffff) : announced sequence = n := by
  simp only [announced, h]
  exact Nat.min_eq_left hn

theorem toNat_pos {n : UInt64} (h : n ≠ 0) : 0 < n.toNat :=
  UInt64.lt_iff_toNat_lt.mp (UInt64.pos_iff_ne_zero.mpr h)

theorem announced_last {n : UInt64} (hs : IsStream n.toNat requests) {r : Request}
    (hr : r ∈ requests) (hl : r.isLast = true) : announced r.sequence = n.toNat :=
  announced_eq ((hs.ends r hr).mp hl) (Nat.le_of_lt_succ n.toNat_lt)

-- ---------------------------------------------------------------------------
-- Whole streams
-- ---------------------------------------------------------------------------

structure Smooth (t : Transcript) (before : List Request) : Prop where
  taken : t.taken = before
  ok : ∀ e ∈ t, e.2.isOk = true

theorem Smooth.snoc {answer : Answer} (h : Smooth t before) (request : Request)
    (htaken : isTaken answer = true) :
    Smooth (t ++ [(request, answer)]) (before ++ [request]) := by
  refine ⟨by simp [taken_append, htaken, h.taken], fun e hm => ?_⟩
  rcases List.mem_append.mp hm with hm | hm
  · exact h.ok e hm
  · rw [List.mem_singleton.mp hm]
    rcases answer with error | acceptance
    · cases htaken
    · rfl

theorem Smooth.secondEnds (h : Smooth t before) (job : JobId) (p : Nat) :
    secondEnds job p t = 0 := by
  refine List.countP_eq_zero.mpr fun e he => ?_
  have hok := h.ok e he
  cases ha : e.2 with
  | ok => simp [isSecondEnd]
  | error => simp [ha, Except.isOk, Except.toBool] at hok

theorem Smooth.records (h : Smooth t before) (ht : Tally context t) (p : UInt32) :
    Records (context.progressOf p) (ofProducer p.toNat before) 0 := by
  rcases ht.progress p with ho | hr
  · obtain ⟨e, hm, he⟩ := ho.refused
    simp [h.ok e hm] at he
  · simpa [h.taken, h.secondEnds] using hr

/-- The requests of the whole run: every producer sends a stream whose length is a number of
sixty-four bits, as its places in the sequence are. -/
def Streams (producers : Nat) (requests : List Request) : Prop :=
  ∀ p < producers, ∃ n : UInt64, n ≠ 0 ∧ IsStream n.toNat (ofProducer p requests)

/-- A producer whose stream is whole and of which `before` came has finished exactly if all of it
came. -/
theorem Records.isComplete_iff {progress : Progress} {n : UInt64} {came : List Request}
    (hr : Records progress came 0) (hs : IsStream n.toNat requests) (hsub : came ⊆ requests) :
    progress.isComplete = true ↔ (∃ r ∈ came, r.isLast = true) ∧ came.length = n.toNat := by
  have hreceived := hr.received
  simp only [Progress.isComplete, beq_iff_eq]
  constructor
  · intro hc
    obtain ⟨last, hm, hl, ha⟩ := hr.exists_last hc
    rw [announced_last hs (hsub hm) hl] at ha
    exact ⟨⟨last, hm, hl⟩, by omega⟩
  · rintro ⟨⟨last, hm, hl⟩, hlength⟩
    cases he : progress.expected with
    | none =>
      have hno := List.find?_eq_none.mp (Option.map_eq_none_iff.mp (hr.expected ▸ he))
      exact absurd hl (hno last hm)
    | some n' =>
      obtain ⟨r, hrm, hrl, ha⟩ := hr.exists_last he
      rw [announced_last hs (hsub hrm) hrl] at ha
      rw [hreceived, hlength, ha, Nat.add_zero]

theorem Smooth.awaited (h : Smooth t before) (ht : Tally context t)
    (hs : Streams context.expectedProducers (before ++ request :: after))
    (hp : request.producer.toNat < context.expectedProducers) :
    (context.progressOf request.producer).isComplete = false := by
  obtain ⟨n, -, hs⟩ := hs _ hp
  rw [ofProducer_append] at hs
  have hlen := hs.length
  rw [ofProducer_cons_self, List.length_append, List.length_cons] at hlen
  refine Bool.eq_false_iff.mpr fun hc => ?_
  have hfull := ((h.records ht _).isComplete_iff hs (List.subset_append_left ..)).mp hc
  omega

theorem Finished.subperm {done : List UInt32} (hd : Finished context t done) :
    (done.map UInt32.toNat).Subperm (List.range context.expectedProducers) := by
  refine List.subperm_of_subset (hd.nodup.map fun _ _ => UInt32.toNat_inj.mp) fun k hk => ?_
  obtain ⟨q, hq, rfl⟩ := List.mem_map.mp hk
  exact List.mem_range.mpr (hd.known q hq)

theorem Tally.all_finished (h : Tally context t) (hm : context.merging = true) {p : Nat}
    (hp : p < context.expectedProducers) :
    ∃ q : UInt32, q.toNat = p ∧ (context.progressOf q).isComplete = true := by
  obtain ⟨done, hd⟩ := h.finished
  have hperm := hd.subperm.perm_of_length_le (by simp [hd.length, h.merging.mp hm])
  obtain ⟨q, hq, hqp⟩ := List.mem_map.mp (hperm.mem_iff.mpr (List.mem_range.mpr hp))
  exact ⟨q, hqp, hd.complete q hq⟩

theorem Smooth.not_merging (h : Smooth t before) (ht : Tally context t)
    (hs : Streams context.expectedProducers (before ++ request :: after))
    (hp : request.producer.toNat < context.expectedProducers) : context.merging = false := by
  refine Bool.eq_false_iff.mpr fun hm => ?_
  obtain ⟨q, hq, hc⟩ := ht.all_finished hm hp
  rw [UInt32.toNat_inj.mp hq] at hc
  simp [h.awaited ht hs hp] at hc

theorem Smooth.merging (h : Smooth t before) (ht : Tally context t)
    (hs : Streams context.expectedProducers before) : context.merging = true := by
  -- every expected producer is counted as finished, and no producer is counted twice
  obtain ⟨done, hd⟩ := ht.finished
  have hall : List.range context.expectedProducers ⊆ done.map UInt32.toNat := by
    intro p hp
    obtain ⟨n, hn, hs⟩ := hs p (List.mem_range.mp hp)
    obtain ⟨r, hr, hl⟩ := hs.exists_last (toNat_pos hn)
    have hrp : r.producer.toNat = p := by simpa using (List.mem_filter.mp hr).2
    subst hrp
    refine List.mem_map.mpr ⟨r.producer, hd.all h.ok _ ?_, rfl⟩
    exact ((h.records ht _).isComplete_iff hs (List.Subset.refl _)).mpr ⟨⟨r, hr, hl⟩, hs.length⟩
  refine ht.merging.mpr (Nat.le_antisymm ?_ ?_)
  · simpa [hd.length] using hd.subperm.length_le
  · simpa [hd.length] using (List.subperm_of_subset List.nodup_range hall).length_le

theorem Smooth.accept (h : Smooth t before) (ht : Tally context t)
    (hs : Streams context.expectedProducers (before ++ request :: after))
    (hp : request.producer.toNat < context.expectedProducers)
    (hrows : request.payload = .rows bucket) :
    (context.accept request).1 =
      .ok (if (context.accept request).2.merging then .ready else .pending) := by
  have hopen : context.IsOpen := ⟨ht.not_closed, h.not_merging ht hs hp⟩
  have hunfinished := h.awaited ht hs hp
  have hr := h.records ht request.producer
  obtain ⟨n, -, hs⟩ := hs _ hp
  rw [ofProducer_append, ofProducer_cons_self] at hs
  have hlen := hs.length
  rw [List.length_append, List.length_cons] at hlen
  have hfound {e : Nat} (he : (context.progressOf request.producer).expected = some e) :
      ∃ r ∈ ofProducer request.producer.toNat before, r.isLast = true ∧ e = n.toNat := by
    obtain ⟨r, hm, hl, rfl⟩ := hr.exists_last he
    exact ⟨r, hm, hl, announced_last hs (List.mem_append_left _ hm) hl⟩
  have ha := accept_rows context hrows
  generalize (context.accept request).1 = answer at ha ⊢
  generalize (context.accept request).2 = next at ha ⊢
  cases ha with
  | shut hno => exact absurd hopen hno
  | stranger _ hno => omega
  | late _ _ hdone => simp [hunfinished] at hdone
  | secondEnd _ hl he =>
    -- two ends of one stream have the same number
    obtain ⟨e, he⟩ := Option.isSome_iff_exists.mp he
    obtain ⟨r, hm, hrl, -⟩ := hfound he
    have hn := List.nodup_append.mp (List.map_append .. ▸ hs.nodup)
    have heq := hs.eq_of_isLast (List.mem_append_left _ hm) (by simp) hrl hl
    exact absurd (heq ▸ rfl) (hn.2.2 _ (List.mem_map.mpr ⟨r, hm, rfl⟩) request.sequence.toNat
      (by simp))
  | surplus m _ he hle =>
    have hm : m = n.toNat := by
      by_cases hl : request.isLast = true
      · simp only [expectedAfter, hl, ↓reduceIte, Option.some.injEq] at he
        exact he ▸ announced_last hs (by simp) hl
      · simp only [expectedAfter, hl] at he
        obtain ⟨-, -, -, hm⟩ := hfound he
        exact hm
    rw [hr.received] at hle
    omega
  | taken => exact congrArg Except.ok (addBucket_fst _ _ _ hopen.not_merging)

theorem Smooth.answers (h : Smooth t before) (ht : Tally context t) (hne : rest ≠ [])
    (hs : Streams context.expectedProducers (before ++ rest))
    (hknown : ∀ r ∈ rest, r.producer.toNat < context.expectedProducers)
    (hrows : ∀ r ∈ rest, ∃ bucket, r.payload = .rows bucket) :
    (context.acceptAll rest).1 =
      List.replicate (rest.length - 1) (.ok .pending) ++ [.ok .ready] := by
  -- as long as some request is to come its producer is unfinished, so that nothing merges
  induction rest generalizing context before t with
  | nil => exact absurd rfl hne
  | cons request after ih =>
    obtain ⟨bucket, hp⟩ := hrows request (by simp)
    have hanswer := h.accept ht hs (hknown request (by simp)) hp
    have hun := (accept_rows context hp).untouched
    have hstep := ht.step hp (accept_rows _ hp)
    have htaken : isTaken (context.accept request).1 = true := by
      rw [hanswer]
      split <;> rfl
    have hsmooth := h.snoc request htaken
    have hs' : Streams (context.accept request).2.expectedProducers
        ((before ++ [request]) ++ after) := by
      rw [hun.expectedProducers]
      simpa using hs
    cases after with
    | nil =>
      rw [List.append_nil] at hs'
      have hready := hanswer
      rw [hsmooth.merging hstep hs'] at hready
      simp [acceptAll, hready]
    | cons request' after =>
      have hknown' : ∀ r ∈ request' :: after,
          r.producer.toNat < (context.accept request).2.expectedProducers := by
        rw [hun.expectedProducers]
        exact fun r hr => hknown r (List.mem_cons_of_mem _ hr)
      have hpending := hanswer
      rw [hsmooth.not_merging hstep hs' (hknown' request' (by simp))] at hpending
      have hrest := ih hsmooth hstep (by simp) hs' hknown'
        fun r hr => hrows r (List.mem_cons_of_mem _ hr)
      rw [acceptAll]
      simp [hrest, hpending, List.replicate_succ]

theorem length_acceptAll (context : MergeContext) (requests : List Request) :
    (context.acceptAll requests).1.length = requests.length := by
  induction requests generalizing context with
  | nil => rfl
  | cons request rest ih => simp [acceptAll, ih]

theorem taken_transcript (h : ∀ answer ∈ (context.acceptAll requests).1, isTaken answer = true) :
    (context.transcript requests).taken = requests := by
  have hall : (context.transcript requests).filter (fun e => isTaken e.2) =
      context.transcript requests :=
    List.filter_eq_self.mpr fun e he => h e.2 (List.of_mem_zip he).2
  rw [Transcript.taken, hall]
  exact List.map_fst_zip (by simp [length_acceptAll])

theorem untouched_acceptAll (context : MergeContext)
    (hrows : ∀ r ∈ requests, ∃ bucket, r.payload = .rows bucket) :
    Untouched context (context.acceptAll requests).2 := by
  induction requests generalizing context with
  | nil => exact .refl _
  | cons request rest ih =>
    obtain ⟨bucket, hp⟩ := hrows request (by simp)
    exact (accept_rows _ hp).untouched.trans (ih _ fun r hr => hrows r (List.mem_cons_of_mem _ hr))

/-- The merge of an open context runs the chain over all buckets that were taken. -/
theorem complete_open {chain : Chain} (hclosed : context.closed = false)
    (hchain : context.chain = some chain) (sink : Sink) :
    context.complete sink =
      let merged := chain.execute .cluster context.cancelled (Bucket.concat context.buckets) sink
      (merged.1, { context with buckets := [], chain := none }, merged.2) := by
  simp [complete, takeBuckets, hclosed, merge, takeChain, hchain]

def fresh (phase : MergePhase) (chain : Chain) : MergeContext :=
  ⟨phase.job, phase.inputTypes, phase.producers.toNat, [], [], 0, some chain, false, false, false,
    none⟩

theorem create_eq {phase : MergePhase} (chain : Chain) (h : phase.producers ≠ 0) :
    create phase chain = .ok (fresh phase chain) := by
  simp only [create, MergePhase.validate, h, ↓reduceIte]
  rfl

/-- Whole streams of all expected producers, in any order: no request is refused, the last one to
come begins the merge, and the merge runs over the items of all buckets in the order in which they
came. -/
theorem accept_streams {phase : MergePhase} {chain : Chain} {requests : List Request}
    {buckets : List Bucket} (hproducers : phase.producers ≠ 0)
    (hrows : requests.map Request.payload = buckets.map Payload.rows)
    (hknown : ∀ r ∈ requests, r.producer.toNat < phase.producers.toNat)
    (hstreams : Streams phase.producers.toNat requests) :
    ∃ context, create phase chain = .ok context ∧
      (context.acceptAll requests).1 =
        List.replicate (requests.length - 1) (.ok .pending) ++ [.ok .ready] ∧
      (context.acceptAll requests).2.takeBuckets.1 = .ok buckets ∧
      (Bucket.concat buckets).items = buckets.flatMap Bucket.items ∧
      ∀ sink, ∃ after, (context.acceptAll requests).2.complete sink =
        let merged := chain.execute .cluster false (Bucket.concat buckets) sink
        (merged.1, after, merged.2) := by
  have hcreate := create_eq chain hproducers
  refine ⟨fresh phase chain, hcreate, ?_⟩
  have ht := tally_create hcreate
  have hpayload : ∀ r ∈ requests, ∃ bucket, r.payload = .rows bucket := by
    intro r hr
    have hm : r.payload ∈ buckets.map Payload.rows := hrows ▸ List.mem_map.mpr ⟨r, hr, rfl⟩
    obtain ⟨bucket, -, he⟩ := List.mem_map.mp hm
    exact ⟨bucket, he.symm⟩
  have hne : requests ≠ [] := by
    rintro rfl
    obtain ⟨n, hn, hs⟩ := hstreams 0 (toNat_pos hproducers)
    exact hn (UInt64.toNat_inj.mp hs.length.symm)
  have hsmooth : Smooth [] [] := ⟨rfl, by simp⟩
  have hanswers := hsmooth.answers ht hne hstreams hknown hpayload
  have hun := untouched_acceptAll (fresh phase chain) hpayload
  have hopen := hun.closed.trans ht.not_closed
  have hbuckets : ((fresh phase chain).acceptAll requests).2.buckets = buckets := by
    have hrun := (ht.run hpayload).buckets
    rw [List.nil_append, taken_transcript, hrows] at hrun
    · exact (List.map_inj_right fun _ _ => Payload.rows.inj).mp hrun.symm
    · rw [hanswers]
      intro answer hm
      rcases List.mem_append.mp hm with hm | hm
      · rw [(List.mem_replicate.mp hm).2]
        rfl
      · rw [List.mem_singleton.mp hm]
        rfl
  refine ⟨hanswers, ?_, Bucket.items_concat buckets, ?_⟩
  · simp [takeBuckets, hopen, hbuckets]
  · intro sink
    have hcomplete := complete_open hopen hun.chain sink
    rw [hun.cancelled, hbuckets] at hcomplete
    exact ⟨_, hcomplete⟩

theorem accept_streams_two :
    let request (producer : UInt32) (sequence : UInt64) (isLast : Bool) (n : Int64) : Request :=
      ⟨.nil, producer, sequence, isLast, .rows (.materialized [[.long n]])⟩
    let requests :=
      [request 1 2 true 5, request 0 0 true 7, request 1 0 false 3, request 1 1 false 4]
    let buckets := [5, 7, 3, 4].map fun n => Bucket.materialized [[.long n]]
    ∃ context, create ⟨.nil, [.long], [], 2⟩ ⟨[]⟩ = .ok context ∧
      (context.acceptAll requests).1 =
        List.replicate 3 (.ok .pending) ++ [.ok .ready] ∧
      (context.acceptAll requests).2.takeBuckets.1 = .ok buckets ∧
      (Bucket.concat buckets).items = buckets.flatMap Bucket.items ∧
      ∀ sink, ∃ after, (context.acceptAll requests).2.complete sink =
        let merged := Chain.execute ⟨[]⟩ .cluster false (Bucket.concat buckets) sink
        (merged.1, after, merged.2) := by
  intro request requests buckets
  have hproducers : (⟨.nil, [.long], [], 2⟩ : MergePhase).producers ≠ 0 := by decide
  refine accept_streams hproducers rfl (by decide) ?_
  intro p hp
  have hcases : p = 0 ∨ p = 1 := by
    change p < 2 at hp
    omega
  rcases hcases with rfl | rfl
  · exact ⟨1, by decide, by decide, by decide⟩
  · exact ⟨3, by decide, by decide, by decide⟩

-- ---------------------------------------------------------------------------
-- Any requests
-- ---------------------------------------------------------------------------

theorem Records.ended {progress : Progress} {ends : Nat} (h : Records progress requests ends)
    (hc : progress.isComplete = true) :
    ∃ last ∈ requests, last.isLast = true ∧ (∀ r ∈ requests, r.isLast = true → r = last) ∧
      requests.length + ends = announced last.sequence := by
  rw [Progress.isComplete, beq_iff_eq] at hc
  obtain ⟨last, hm, hl, ha⟩ := h.exists_last hc
  exact ⟨last, hm, hl, fun r hr hrl => h.eq_of_isLast hr hm hrl hl, by rw [ha, h.received]⟩

/-- Of the requests of a producer that has finished it is enough to know that no place comes twice,
that none lies behind the end, and that no second end was counted. -/
theorem Records.isStream_iff {progress : Progress} {ends : Nat} (h : Records progress requests ends)
    (hc : progress.isComplete = true) :
    (∃ n, 0 < n ∧ IsStream n requests) ↔
      (requests.map (·.sequence.toNat)).Nodup ∧
      (∀ last ∈ requests, last.isLast = true → last.sequence.toNat < 0xffffffffffffffff ∧
        ∀ r ∈ requests, r.sequence.toNat ≤ last.sequence.toNat) ∧ ends = 0 := by
  obtain ⟨last, hm, hl, hunique, hcount⟩ := h.ended hc
  constructor
  · rintro ⟨n, hn, hs⟩
    have hlast := (hs.ends last hm).mp hl
    have hlength := hs.length
    have hle : announced last.sequence ≤ 0xffffffffffffffff := Nat.min_le_right ..
    have hle' : announced last.sequence ≤ last.sequence.toNat + 1 := Nat.min_le_left ..
    refine ⟨hs.nodup, fun r hr hrl => ?_, by omega⟩
    rw [hunique r hr hrl]
    refine ⟨by omega, fun r hr => ?_⟩
    have hlt := hs.lt hr
    omega
  · rintro ⟨hnodup, hends, rfl⟩
    obtain ⟨hbound, hwithin⟩ := hends last hm hl
    rw [announced_eq rfl hbound] at hcount
    refine ⟨last.sequence.toNat + 1, Nat.succ_pos _, ?_, fun r hr => ⟨fun hrl => ?_, fun heq => ?_⟩⟩
    -- there are as many places as numbers up to the last one
    · have hsub : requests.map (·.sequence.toNat) ⊆ List.range (last.sequence.toNat + 1) := by
        intro k hk
        obtain ⟨r, hr, rfl⟩ := List.mem_map.mp hk
        exact List.mem_range.mpr (Nat.lt_succ_of_le (hwithin r hr))
      refine (List.subperm_of_subset hnodup hsub).perm_of_length_le ?_
      simp only [List.length_range, List.length_map]
      omega
    · rw [hunique r hr hrl]
    · rw [List.inj_on_of_nodup_map hnodup hr hm (Nat.succ.inj heq)]
      exact hl

/-- The runs in which counting the requests of a producer is as good as looking at their places in
the sequence: no place comes twice or lies behind the end, and no second end was counted. The
greatest place announces one request too few. -/
structure Countable (job : JobId) (p : Nat) (t : Transcript) : Prop where
  distinct : ((ofProducer p t.taken).map (·.sequence.toNat)).Nodup
  within : ∀ last ∈ ofProducer p t.taken, last.isLast = true →
    last.sequence.toNat < 0xffffffffffffffff ∧
      ∀ r ∈ ofProducer p t.taken, r.sequence.toNat ≤ last.sequence.toNat
  endedOnce : ∀ e ∈ t, e.1.producer.toNat = p → e.2 ≠ .error (secondEndError job e.1)

theorem secondEnds_eq_zero {job : JobId} {p : Nat} :
    secondEnds job p t = 0 ↔
      ∀ e ∈ t, e.1.producer.toNat = p → e.2 ≠ .error (secondEndError job e.1) := by
  simp only [secondEnds, List.countP_eq_zero, Bool.and_eq_true, beq_iff_eq, not_and]
  refine forall₃_congr fun e _ _ => ?_
  cases e.2 <;> simp [isSecondEnd]

theorem eq_fresh {phase : MergePhase} {chain : Chain} (h : create phase chain = .ok context) :
    context = fresh phase chain := by
  by_cases hproducers : phase.producers = 0
  · simp [create, MergePhase.validate, hproducers, bind, Except.bind] at h
  · rw [create_eq chain hproducers] at h
    exact (Except.ok.inj h).symm

theorem Tally.records (h : Tally context t) {p : UInt32}
    (hc : (context.progressOf p).isComplete = true) :
    Records (context.progressOf p) (ofProducer p.toNat t.taken)
      (secondEnds context.job p.toNat t) := by
  refine (h.progress p).resolve_left fun ho => ?_
  simp [ho.unfinished] at hc

theorem Tally.merging_of_ready
    (h : Tally (context.acceptAll requests).2 (context.transcript requests))
    (hready : .ok .ready ∈ (context.acceptAll requests).1) :
    (context.acceptAll requests).2.merging = true := by
  obtain ⟨i, hi, he⟩ := List.mem_iff_getElem.mp hready
  have hlen := length_acceptAll context requests
  refine h.ready (requests[i], _) ?_ he
  exact List.mem_iff_getElem.mpr ⟨i, by simp [transcript]; omega, by simp [transcript]⟩

/-- Once the merge begins, every expected producer has ended its stream exactly once and as many
of its requests were counted as it announced. They are the whole stream exactly if the run is
countable for the producer. -/
theorem ready_stream_iff {phase : MergePhase} {chain : Chain} {p : Nat}
    (hcreate : create phase chain = .ok context)
    (hrows : ∀ r ∈ requests, ∃ bucket, r.payload = .rows bucket)
    (hready : .ok .ready ∈ (context.acceptAll requests).1) (hp : p < phase.producers.toNat) :
    (∃ last ∈ ofProducer p (context.transcript requests).taken, last.isLast = true ∧
      (∀ r ∈ ofProducer p (context.transcript requests).taken, r.isLast = true → r = last) ∧
      (ofProducer p (context.transcript requests).taken).length +
        secondEnds phase.job p (context.transcript requests) = announced last.sequence) ∧
    ((∃ n, 0 < n ∧ IsStream n (ofProducer p (context.transcript requests).taken)) ↔
      Countable phase.job p (context.transcript requests)) := by
  have ht := (tally_create hcreate).run hrows
  rw [List.nil_append] at ht
  have hun := untouched_acceptAll context hrows
  have hexpected : (context.acceptAll requests).2.expectedProducers = phase.producers.toNat :=
    hun.expectedProducers.trans (congrArg expectedProducers (eq_fresh hcreate))
  have hjob : (context.acceptAll requests).2.job = phase.job :=
    hun.job.trans (congrArg job (eq_fresh hcreate))
  obtain ⟨q, rfl, hc⟩ := ht.all_finished (ht.merging_of_ready hready) (hexpected ▸ hp)
  have hrecords := ht.records hc
  rw [hjob] at hrecords
  refine ⟨hrecords.ended hc, (hrecords.isStream_iff hc).trans ?_⟩
  constructor
  · rintro ⟨hnodup, hends, hzero⟩
    exact ⟨hnodup, hends, secondEnds_eq_zero.mp hzero⟩
  · rintro ⟨hnodup, hends, hzero⟩
    exact ⟨hnodup, hends, secondEnds_eq_zero.mpr hzero⟩

theorem ready_stream_iff_reversed :
    let request (sequence : UInt64) (isLast : Bool) : Request :=
      ⟨.nil, 0, sequence, isLast, .rows (.materialized [[.long 1]])⟩
    let phase : MergePhase := ⟨.nil, [.long], [], 1⟩
    let taken := ofProducer 0
      ((fresh phase ⟨[]⟩).transcript [request 1 true, request 0 false]).taken
    taken = [request 1 true, request 0 false] ∧ ∃ n, 0 < n ∧ IsStream n taken := by
  intro request phase taken
  have htaken : taken = [request 1 true, request 0 false] := rfl
  have hcreate : create phase ⟨[]⟩ = .ok (fresh phase ⟨[]⟩) := rfl
  refine ⟨htaken, (ready_stream_iff (p := 0) hcreate ?_ (by decide) (by decide)).2.mpr ?_⟩
  · simp [request]
  · exact ⟨by decide, by decide, by decide⟩

/-- A request that comes twice stands in for the one that is missing, and a second end of stream
that was refused stands in for a request. -/
theorem ready_without_stream :
    let request (sequence : UInt64) (isLast : Bool) : Request :=
      ⟨.nil, 0, sequence, isLast, .rows (.materialized [[.long 1]])⟩
    let run requests := (fresh ⟨.nil, [.long], [], 1⟩ ⟨[]⟩).transcript requests
    let repeated := [request 0 false, request 0 false, request 2 true]
    let endedTwice := [request 2 true, request 2 true, request 0 false]
    (run repeated).map Prod.snd = [.ok .pending, .ok .pending, .ok .ready] ∧
      (¬ ∃ n, IsStream n (ofProducer 0 (run repeated).taken)) ∧
      .ok .ready ∈ (run endedTwice).map Prod.snd ∧
      ¬ ∃ n, IsStream n (ofProducer 0 (run endedTwice).taken) := by
  intro request run repeated endedTwice
  refine ⟨by decide, ?_, by decide, ?_⟩
  · rintro ⟨n, hs⟩
    exact absurd hs.nodup (by decide)
  · rintro ⟨n, hs⟩
    have hlength : n = 2 := hs.length.symm
    exact absurd (hlength ▸ hs.lt (r := request 2 true) (.head _)) (by decide)

end MergeContext

end ShardQuery
