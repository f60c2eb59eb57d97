import ShardQuery.Proofs.Context.Latches
/-!
# Producers that report a failure

A producer whose work failed sends one request that says so, and no rows. It ends no
stream that the books of the context know of, so that the producer is never counted as
finished: as long as nothing but whole streams and reports comes, in any order, the merge
does not begin.
-/

namespace ShardQuery

open Request (ofProducer)

theorem IsStream.perm {n : Nat} {requests other : List Request} (h : IsStream n requests)
    (hperm : requests.Perm other) : IsStream n other :=
  ⟨(hperm.symm.map _).trans h.numbered, fun r hr => h.ends r (hperm.mem_iff.mpr hr)⟩

/-- The report of a failure, taken by itself, is a stream of one request. -/
theorem isStream_ofFailure (job : JobId) (producer : UInt32) (message : String) :
    IsStream 1 [.ofFailure job producer message] :=
  ⟨.refl _, fun r hr => by
    rw [List.mem_singleton.mp hr]
    exact iff_of_true rfl rfl⟩

/-- The producers send their rows as whole streams, except for those that report a failure. -/
structure Request.Honest (producers : Nat) (requests : List Request) : Prop where
  known : ∀ r ∈ requests, r.producer.toNat < producers
  each : ∀ p < producers,
    (∃ n : UInt64, n ≠ 0 ∧ IsStream n.toNat (ofProducer p requests) ∧
        ∀ r ∈ ofProducer p requests, r.isFailure = false) ∨
      ∃ job producer message, ofProducer p requests = [.ofFailure job producer message]

namespace MergeContext

variable {context : MergeContext} {request : Request} {before rest other requests : List Request}
  {t : Transcript} {message : String}

theorem Streams.perm {producers : Nat} (h : Streams producers requests)
    (hperm : requests.Perm other) : Streams producers other := by
  intro p hp
  obtain ⟨n, hn, hs⟩ := h p hp
  exact ⟨n, hn, hs.perm (hperm.filter _)⟩

theorem streams_of_honest {producers : Nat} (h : Request.Honest producers requests) :
    Streams producers requests := by
  intro p hp
  rcases h.each p hp with ⟨n, hn, hs, -⟩ | ⟨job, producer, message, hone⟩
  · exact ⟨n, hn, hs⟩
  · exact ⟨1, by decide, hone ▸ isStream_ofFailure job producer message⟩

theorem Tally.raiseCancel (h : Tally context t) : Tally context.raiseCancel t := by
  obtain ⟨done, hd⟩ := h.finished
  exact ⟨h.not_closed, h.progress, ⟨done, hd.nodup, hd.length, hd.known, hd.complete, hd.all⟩,
    h.merging, h.ready, h.buckets⟩

/-- The context has taken requests of rows, and `rest` makes up the streams of all producers with
them. A failure is in `rest`, where it stays. -/
structure Awaits (context : MergeContext) (rest : List Request) : Prop where
  books : ∃ t before, Tally context t ∧ Smooth t before ∧
    Streams context.expectedProducers (before ++ rest)
  known : ∀ r ∈ rest, r.producer.toNat < context.expectedProducers
  failure : ∃ r ∈ rest, r.isFailure = true

theorem awaits_fresh {phase : MergePhase} {chain : Chain} (hproducers : phase.producers ≠ 0)
    (h : Request.Honest phase.producers.toNat requests)
    (hfailure : ∃ r ∈ requests, r.isFailure = true) : (fresh phase chain).Awaits requests where
  books := ⟨[], [], tally_create (create_eq chain hproducers), ⟨rfl, by simp⟩, streams_of_honest h⟩
  known := h.known
  failure := hfailure

namespace Awaits

theorem perm (h : context.Awaits rest) (hperm : rest.Perm other) : context.Awaits other := by
  obtain ⟨t, before, ht, hsmooth, hs⟩ := h.books
  obtain ⟨r, hr, hfailure⟩ := h.failure
  exact ⟨⟨t, before, ht, hsmooth, hs.perm (hperm.append_left before)⟩,
    fun r hr => h.known r (hperm.mem_iff.mpr hr), r, hperm.mem_iff.mp hr, hfailure⟩

theorem raiseCancel (h : context.Awaits rest) : context.raiseCancel.Awaits rest := by
  obtain ⟨t, before, ht, hsmooth, hs⟩ := h.books
  exact ⟨⟨t, before, ht.raiseCancel, hsmooth, hs⟩, h.known, h.failure⟩

theorem not_merging (h : context.Awaits rest) : context.merging = false := by
  obtain ⟨t, before, ht, hsmooth, hs⟩ := h.books
  obtain ⟨r, hr, -⟩ := h.failure
  obtain ⟨front, back, rfl⟩ := List.append_of_mem hr
  exact hsmooth.not_merging ht (hs.perm (List.perm_middle.append_left before))
    (h.known r hr)

theorem isOpen (h : context.Awaits rest) : context.IsOpen := by
  obtain ⟨t, before, ht, -⟩ := h.books
  exact ⟨ht.not_closed, h.not_merging⟩

theorem accept_rows (h : context.Awaits (request :: rest)) (hrows : request.isFailure = false) :
    (context.accept request).1 = .ok .pending ∧ (context.accept request).2.Awaits rest := by
  obtain ⟨t, before, ht, hsmooth, hs⟩ := h.books
  obtain ⟨bucket, hp⟩ : ∃ bucket, request.payload = .rows bucket := by
    cases hp : request.payload with
    | rows bucket => exact ⟨bucket, rfl⟩
    | failure message => simp [Request.isFailure, hp] at hrows
  have hanswer := hsmooth.accept ht hs (h.known request List.mem_cons_self) hp
  have htaken : isTaken (context.accept request).1 = true := by
    rw [hanswer]
    split <;> rfl
  have hproducers := (MergeContext.accept_rows context hp).untouched.expectedProducers
  have hnext : (context.accept request).2.Awaits rest := by
    have hstep := ht.step hp (MergeContext.accept_rows context hp)
    refine ⟨⟨_, _, hstep, hsmooth.snoc request htaken, ?_⟩, ?_, ?_⟩
    · rw [hproducers, List.append_assoc]
      exact hs
    · rw [hproducers]
      exact fun r hr => h.known r (List.mem_cons_of_mem _ hr)
    · obtain ⟨r, hr, hfailure⟩ := h.failure
      rcases List.mem_cons.mp hr with rfl | hr
      · simp [hrows] at hfailure
      · exact ⟨r, hr, hfailure⟩
  rw [hnext.not_merging] at hanswer
  exact ⟨hanswer, hnext⟩

theorem accept_failure (h : context.Awaits rest) (hp : request.payload = .failure message) :
    context.accept request = (.error (.remote message), context) :=
  MergeContext.accept_failure h.isOpen hp

end Awaits

end MergeContext

end ShardQuery
