import ShardQuery.Job.Node
import ShardQuery.Proofs.Request.Encode
import ShardQuery.Proofs.Work
/-!
# What a node sends

A node sets out to send its rows in numbered requests, the last of which ends the
stream, or one report where it could not collect them. Of these requests it sends those
in front of the first one that cannot be written.

`execute_reports_iff`: the merge node gets a whole stream, or a report of the error,
exactly if all of these requests can be written. `execute_unreported` is a node whose
second request cannot.
-/

namespace ShardQuery

open Wire

namespace Request

variable {types : List DataType} {request : Request} {requests : List Request}
  {payload : List UInt8} {payloads : List (List UInt8)} {outcome : Except EngineError Unit}

-- ---------------------------------------------------------------------------
-- Headers
-- ---------------------------------------------------------------------------

def header (types : List DataType) (request : Request) : Header :=
  ⟨request.job, request.isLast, request.isFailure, request.producer, request.sequence,
    UInt32.ofNat types.length⟩

theorem writeBody_front {body : List UInt8} (h : (writeBody types request).toExcept = .ok body) :
    ∃ back, body = version :: Wire.job request.job ++
      byteOfBits [request.isLast, request.isFailure] :: vint request.producer ++
      vlong request.sequence ++ varint types.length ++ back := by
  rw [writeBody, Output.of_append, Output.toExcept] at h
  dsimp only at h
  split at h
  · cases h
  · cases h
    exact ⟨_, rfl⟩

theorem peek_encode (h : request.encode types = .ok payload) :
    Header.peek payload = .ok (request.header types) := by
  unfold encode at h
  split at h
  · cases h
  · rename_i hcolumns
    obtain ⟨body, hbody, hpayload⟩ := bind_eq_ok.mp h
    cases hpayload
    have hlen : (request.header types).columns.toNat = types.length :=
      UInt32.toNat_ofNat_of_lt' (Nat.lt_of_not_le hcolumns)
    have hfront := Header.Body.written (request.header types)
    rw [hlen] at hfront
    obtain ⟨back, rfl⟩ := writeBody_front hbody
    rw [Header.peek, verifiedBody_eq_ok.mpr rfl]
    exact congrArg Prod.fst ((Header.read_reads _).complete hfront (.start _ back))

-- ---------------------------------------------------------------------------
-- One request after the other
-- ---------------------------------------------------------------------------

/-- The payloads of requests that are written one after the other. The first one that cannot be
written ends this with its error. -/
inductive Written (types : List DataType) :
    List Request → List (List UInt8) → Except EngineError Unit → Prop
  | done : Written types [] [] (.ok ())
  | refused {request rest error} : request.encode types = .error error →
      Written types (request :: rest) [] (.error error)
  | sent {request rest payload payloads outcome} : request.encode types = .ok payload →
      Written types rest payloads outcome →
      Written types (request :: rest) (payload :: payloads) outcome

def AllWritable (types : List DataType) (requests : List Request) : Prop :=
  ∀ request ∈ requests, ∃ payload, request.encode types = .ok payload

namespace Written

theorem ok_iff (h : Written types requests payloads outcome) :
    outcome = .ok () ↔ AllWritable types requests := by
  induction h with
  | done => exact ⟨fun _ => List.forall_mem_nil _, fun _ => rfl⟩
  | refused hencode =>
    refine ⟨(nomatch ·), fun h => ?_⟩
    obtain ⟨payload, hpayload⟩ := h _ List.mem_cons_self
    cases hencode.symm.trans hpayload
  | sent hencode _ ih =>
    rw [ih, AllWritable, AllWritable, List.forall_mem_cons]
    exact (and_iff_right ⟨_, hencode⟩).symm

theorem exists_request (h : Written types requests payloads outcome) :
    ∀ payload ∈ payloads, ∃ request ∈ requests, request.encode types = .ok payload := by
  induction h with
  | done => exact List.forall_mem_nil _
  | refused => exact List.forall_mem_nil _
  | sent hencode _ ih =>
    refine List.forall_mem_cons.mpr ⟨⟨_, List.mem_cons_self, hencode⟩, fun payload h => ?_⟩
    obtain ⟨request, hrequest, hencode⟩ := ih payload h
    exact ⟨request, List.mem_cons_of_mem _ hrequest, hencode⟩

theorem last (h : Written types requests payloads (.ok ())) (hlast : request ∈ requests.getLast?) :
    ∃ payload ∈ payloads.getLast?, request.encode types = .ok payload := by
  generalize houtcome : Except.ok () = outcome at h
  induction h with
  | done => cases hlast
  | refused => cases houtcome
  | @sent _ rest _ _ _ hencode hrest ih =>
    cases hrest with
    | done =>
      cases hlast
      exact ⟨_, rfl, hencode⟩
    | refused => cases houtcome
    | sent =>
      obtain ⟨payload, hpayload, hencode⟩ := ih (by rwa [List.getLast?_cons_cons] at hlast) houtcome
      exact ⟨payload, by rwa [List.getLast?_cons_cons], hencode⟩

end Written

end Request

namespace Node

open Request

variable {node : Node} {phase : CollectPhase} {producer : UInt32} {cancelled : Bool}
  {shards : List Bucket} {state : NodeState}

def stream (phase : CollectPhase) (producer : UInt32) (sequence : Nat) :
    List (List Row) → List Request
  | [] => []
  | piece :: rest =>
    ⟨phase.job, producer, UInt64.ofNat sequence, rest.isEmpty, .rows (.materialized piece)⟩ ::
      stream phase producer (sequence + 1) rest

/-- What the node sets out to send once it has collected these rows, or could not. -/
def requests (node : Node) (phase : CollectPhase) (producer : UInt32) :
    Except EngineError (List Row) → List Request
  | .ok rows => stream phase producer 0 (pieces node.rowsPerRequest rows)
  | .error error => [.ofFailure phase.job producer error.message]

def started (node : Node) (phase : CollectPhase) (shards : List Bucket) (state : NodeState) :
    NodeState :=
  ((node.note phase .collectStart "shards" (toString shards.length)).within state).2

def collected (node : Node) (phase : CollectPhase) (cancelled : Bool) (shards : List Bucket)
    (state : NodeState) : Except EngineError (List Row) :=
  ((node.collect phase cancelled shards).within (node.started phase shards state)).1

-- ---------------------------------------------------------------------------
-- Work that sends nothing
-- ---------------------------------------------------------------------------

def Silent {α : Type} (work : NodeRun α) : Prop :=
  ∀ state, (work.within state).2.outbox = state.outbox

theorem Silent.ofExcept {α : Type} (result : Except EngineError α) :
    Silent (Work.ofExcept result) := fun _ => rfl

theorem Silent.bind {α β : Type} {work : NodeRun α} {next : α → NodeRun β} (h : Silent work)
    (hnext : ∀ a, Silent (next a)) : Silent (work >>= next) := by
  intro state
  have hwork := h state
  rw [Work.within_bind]
  rcases hrun : work.within state with ⟨error | a, middle⟩ <;> rw [hrun] at hwork
  · exact hwork
  · exact (hnext a middle).trans hwork

theorem Silent.attempt {α : Type} {work : NodeRun α} (h : Silent work) : Silent work.attempt := by
  intro state
  rw [Work.within_attempt]
  exact h state

theorem Silent.note (event : Event) (field value : String) :
    Silent (node.note phase event field value) := fun _ => rfl

theorem Silent.runChain (chain : Chain) (level : Granularity) (input : Bucket) :
    Silent (Node.runChain chain level cancelled input) := by
  intro state
  rw [Node.runChain, Work.within_bind, Work.within_get]
  rfl

theorem Silent.runShards (chain : Chain) : Silent (Node.runShards chain cancelled shards) := by
  induction shards with
  | nil => exact fun _ => rfl
  | cons shard rest ih =>
    exact (runChain chain .shard shard).attempt.bind fun _ => ih.bind fun _ _ => rfl

theorem Silent.collect : Silent (node.collect phase cancelled shards) := by
  have hrest (results : List (Except EngineError (List Row))) : Silent (do
      let rows ← Work.ofExcept (results.mapM fun result => result)
      let chain ← Work.ofExcept (Chain.build node.factory phase.nodeProjections)
      Node.runChain chain .node cancelled (Bucket.concat (rows.map .materialized))) :=
    .bind (.ofExcept _) fun _ => .bind (.ofExcept _) fun chain => runChain chain .node _
  unfold Node.collect
  dsimp only
  split
  · exact .bind (fun _ => rfl) hrest
  · exact .bind (.ofExcept _) fun chain => .bind (.runShards chain) hrest

-- ---------------------------------------------------------------------------
-- Work that sends requests
-- ---------------------------------------------------------------------------

def Adds (phase : CollectPhase) (payloads : List (List UInt8)) (before after : NodeState) : Prop :=
  after.outbox =
    { before.outbox with sent := before.outbox.sent ++ payloads.map (phase.mergeNode, ·) }

/-- Over a transport that accepts every payload the work sends the requests one after the other
until one cannot be written. -/
def Sends (phase : CollectPhase) (requests : List Request) (work : NodeRun Unit) : Prop :=
  ∀ state, state.outbox.capacity = none → ∃ payloads,
    Written phase.outputTypes requests payloads (work.within state).1 ∧
      Adds phase payloads state (work.within state).2

theorem Adds.append {payloads more : List (List UInt8)} {before middle after : NodeState}
    (h : Adds phase payloads before middle) (hmore : Adds phase more middle after) :
    Adds phase (payloads ++ more) before after := by
  rw [Adds, hmore, h, List.map_append, List.append_assoc]

theorem Adds.nothing (state : NodeState) : Adds phase [] state state := by
  rw [Adds, List.map_nil, List.append_nil]

def afterSend (phase : CollectPhase) (payload : List UInt8) (state : NodeState) : NodeState :=
  { state with
    outbox := { state.outbox with sent := state.outbox.sent ++ [(phase.mergeNode, payload)] }
    telemetry := state.telemetry.increment .requestsSent }

theorem send_within {request : Request} (hopen : state.outbox.capacity = none) :
    (send phase request).within state = match request.encode phase.outputTypes with
      | .error error => (.error error, state)
      | .ok payload => (.ok (), afterSend phase payload state) := by
  rw [send, Work.within_bind, Work.within_ofExcept]
  cases request.encode phase.outputTypes with
  | error error => rfl
  | ok payload =>
    dsimp only
    rw [Work.within_bind, Work.within_get]
    dsimp only
    rw [Work.within_bind, Work.within_ofExcept, Outbox.send, if_neg (by simp [hopen])]
    rfl

theorem Adds.of_outbox {payloads : List (List UInt8)} {before middle after : NodeState}
    (h : Adds phase payloads middle after) (houtbox : middle.outbox = before.outbox) :
    Adds phase payloads before after := by
  rwa [Adds, houtbox] at h

theorem Sends.cons {request : Request} {rest : List Request} {work : NodeRun Unit}
    (h : Sends phase rest work) : Sends phase (request :: rest) (do send phase request; work) := by
  intro state hopen
  rw [Work.within_bind, send_within hopen]
  cases hencode : request.encode phase.outputTypes with
  | error error => exact ⟨[], .refused hencode, .nothing state⟩
  | ok payload =>
    obtain ⟨payloads, hwritten, hadds⟩ := h (afterSend phase payload state) hopen
    have hfirst : Adds phase [payload] state (afterSend phase payload state) := rfl
    exact ⟨payload :: payloads, .sent hencode hwritten, hfirst.append hadds⟩

theorem Sends.nothing : Sends phase [] (pure ()) := fun state _ => ⟨[], .done, .nothing state⟩

theorem Sends.pieces (pieces : List (List Row)) (sequence : Nat) :
    Sends phase (stream phase producer sequence pieces)
      (sendPieces phase producer sequence pieces) := by
  induction pieces generalizing sequence with
  | nil => exact .nothing
  | cons piece rest ih => exact (ih (sequence + 1)).cons

theorem Sends.single (request : Request) : Sends phase [request] (send phase request) := by
  have h : Sends phase [request] (do send phase request; pure ()) := Sends.nothing.cons
  rwa [bind_pure_unit] at h

theorem Sends.andThen {α : Type} {requests : List Request} {work : NodeRun Unit}
    {next : NodeRun α} {result : Except EngineError α} (h : Sends phase requests work)
    (hnext : Silent next) (hresult : ∀ state, (next.within state).1 = result)
    (hopen : state.outbox.capacity = none) :
    ∃ payloads outcome, Written phase.outputTypes requests payloads outcome ∧
      Adds phase payloads state ((do work; next).within state).2 ∧
      ((do work; next).within state).1 = (do outcome; result) := by
  obtain ⟨payloads, hwritten, hadds⟩ := h state hopen
  refine ⟨payloads, _, hwritten, ?_⟩
  rw [Work.within_bind]
  rcases hrun : work.within state with ⟨error | u, after⟩ <;> rw [hrun] at hadds
  · exact ⟨hadds, rfl⟩
  · exact ⟨(hnext after).trans hadds, hresult after⟩

-- ---------------------------------------------------------------------------
-- The whole work
-- ---------------------------------------------------------------------------

def answer (node : Node) (phase : CollectPhase) (producer : UInt32) :
    Except EngineError (List Row) → NodeRun Nat
  | .ok rows => do
    node.sendRows phase producer rows
    node.note phase .collectComplete "rows" (toString rows.length)
    return rows.length
  | .error error => do
    node.note phase .collectFailed "reason" error.message
    send phase (.ofFailure phase.job producer error.message)
    throw error

theorem answer_sends (node : Node) (phase : CollectPhase) (producer : UInt32)
    (rows : Except EngineError (List Row)) (hopen : state.outbox.capacity = none) :
    let run := (node.answer phase producer rows).within state
    ∃ payloads outcome,
      Written phase.outputTypes (node.requests phase producer rows) payloads outcome ∧
        Adds phase payloads state run.2 ∧ run.1 = (do outcome; return (← rows).length) := by
  cases rows with
  | ok rows =>
    exact (Sends.pieces (pieces node.rowsPerRequest rows) 0).andThen
      (.bind (Silent.note _ _ _) fun _ _ => rfl) (fun _ => rfl) hopen
  | error error =>
    have hthrow : Silent (throw error : NodeRun Nat) := fun _ => rfl
    have hnoted : ((node.note phase .collectFailed "reason" error.message).within
        state).2.outbox.capacity = none := hopen
    exact (Sends.single (.ofFailure phase.job producer error.message)).andThen hthrow
      (fun _ => rfl) hnoted

/-- The node sends its requests up to the first one that cannot be written. It comes to the
number of rows, to the error of its chains, or to that of the request. -/
theorem execute_sends (node : Node) (phase : CollectPhase) (producer : UInt32) (cancelled : Bool)
    (shards : List Bucket) (hopen : state.outbox.capacity = none) :
    let rows := node.collected phase cancelled shards state
    let run := (node.execute phase producer cancelled shards).within state
    ∃ payloads outcome,
      Written phase.outputTypes (node.requests phase producer rows) payloads outcome ∧
        Adds phase payloads state run.2 ∧ run.1 = (do outcome; return (← rows).length) := by
  have hcollect : Silent (node.collect phase cancelled shards) := Silent.collect
  have hsilent := hcollect (node.started phase shards state)
  have hrun : (node.execute phase producer cancelled shards).within state =
      (node.answer phase producer (node.collected phase cancelled shards state)).within
        ((node.collect phase cancelled shards).within (node.started phase shards state)).2 := by
    have hnote : (node.note phase .collectStart "shards" (toString shards.length)).within state =
        (.ok (), node.started phase shards state) := rfl
    rw [execute, Work.within_bind, hnote]
    dsimp only
    rw [Work.within_bind, Work.within_attempt]
    rfl
  intro rows run
  obtain ⟨payloads, outcome, hwritten, hadds, hresult⟩ := answer_sends node phase producer
    rows ((congrArg Outbox.capacity hsilent).trans hopen)
  rw [← hrun] at hadds hresult
  exact ⟨payloads, outcome, hwritten, hadds.of_outbox hsilent, hresult⟩

-- ---------------------------------------------------------------------------
-- What the merge node is told
-- ---------------------------------------------------------------------------

/-- The payloads tell the merge node how the work ended: a stream of rows up to its end if it
succeeded, and a report of the error, with nothing behind it, if it failed. -/
def Reports (phase : CollectPhase) (producer : UInt32) (payloads : List (List UInt8)) :
    Except EngineError Nat → Prop
  | .ok _ =>
    (∀ payload ∈ payloads, ∃ header, Header.peek payload = .ok header ∧ header.job = phase.job ∧
      header.producer = producer ∧ ¬ header.isFailure) ∧
    ∃ payload ∈ payloads.getLast?, ∃ header, Header.peek payload = .ok header ∧ header.isLast
  | .error error => ∃ payload ∈ payloads.getLast?,
    (Request.ofFailure phase.job producer error.message).encode phase.outputTypes = .ok payload

theorem mem_stream {pieces : List (List Row)} {sequence : Nat} {request : Request}
    (h : request ∈ stream phase producer sequence pieces) :
    request.job = phase.job ∧ request.producer = producer ∧ ¬ request.isFailure := by
  induction pieces generalizing sequence with
  | nil => cases h
  | cons piece rest ih =>
    rcases List.mem_cons.mp h with rfl | h
    · exact ⟨rfl, rfl, Bool.false_ne_true⟩
    · exact ih h

theorem payload_stream {pieces : List (List Row)} {sequence : Nat} {request : Request}
    (h : request ∈ stream phase producer sequence pieces) :
    ∃ piece ∈ pieces, request.payload = .rows (.materialized piece) := by
  induction pieces generalizing sequence with
  | nil => cases h
  | cons piece rest ih =>
    rcases List.mem_cons.mp h with rfl | h
    · exact ⟨piece, List.mem_cons_self, rfl⟩
    · obtain ⟨other, hother, hpayload⟩ := ih h
      exact ⟨other, List.mem_cons_of_mem _ hother, hpayload⟩

theorem length_piece_le {size : Nat} {rows piece : List Row} (hsize : 1 ≤ size)
    (h : piece ∈ pieces size rows) : piece.length ≤ size := by
  fun_induction pieces size rows with
  | case1 rows hfew =>
    cases List.mem_singleton.mp h
    exact hfew.resolve_right (Nat.ne_of_gt hsize)
  | case2 rows hmany ih =>
    rcases List.mem_cons.mp h with rfl | h
    · exact List.length_take_le size rows
    · exact ih h

theorem length_request_le {rows : Except EngineError (List Row)} {request : Request}
    {piece : List Row} (hsize : 1 ≤ node.rowsPerRequest)
    (h : request ∈ node.requests phase producer rows)
    (hpiece : request.payload = .rows (.materialized piece)) :
    piece.length ≤ node.rowsPerRequest := by
  cases rows with
  | ok rows =>
    obtain ⟨other, hother, hpayload⟩ := payload_stream h
    cases hpayload.symm.trans hpiece
    exact length_piece_le hsize hother
  | error error =>
    cases List.mem_singleton.mp h
    cases hpiece

theorem stream_last (phase : CollectPhase) (producer : UInt32) {pieces : List (List Row)}
    (h : pieces ≠ []) (sequence : Nat) :
    ∃ request ∈ (stream phase producer sequence pieces).getLast?, request.isLast := by
  induction pieces generalizing sequence with
  | nil => exact absurd rfl h
  | cons piece rest ih =>
    cases rest with
    | nil => exact ⟨_, rfl, rfl⟩
    | cons next rest =>
      obtain ⟨request, hrequest, hlast⟩ := ih (List.cons_ne_nil _ _) (sequence + 1)
      refine ⟨request, ?_, hlast⟩
      rw [stream, List.getLast?_cons, Option.mem_def.mp hrequest]
      rfl

theorem pieces_ne_nil (size : Nat) (rows : List Row) : pieces size rows ≠ [] := by
  unfold pieces
  split <;> exact List.cons_ne_nil _ _

theorem reports_of_written {rows : Except EngineError (List Row)} {payloads : List (List UInt8)}
    (h : Written phase.outputTypes (node.requests phase producer rows) payloads (.ok ())) :
    Reports phase producer payloads (do return (← rows).length) := by
  cases rows with
  | error error => exact h.last rfl
  | ok rows =>
    constructor
    · intro payload hpayload
      obtain ⟨request, hrequest, hencode⟩ := h.exists_request payload hpayload
      exact ⟨_, peek_encode hencode, mem_stream hrequest⟩
    · obtain ⟨request, hrequest, hlast⟩ := stream_last phase producer
        (pieces_ne_nil node.rowsPerRequest rows) 0
      obtain ⟨payload, hpayload, hencode⟩ := h.last hrequest
      exact ⟨payload, hpayload, _, peek_encode hencode, hlast⟩

/-- A request that could not be written is not reported: behind rows no report follows, and
nothing follows a report that cannot be written itself. -/
theorem not_reports_of_written {rows : Except EngineError (List Row)}
    {payloads : List (List UInt8)} {error : EngineError}
    (h : Written phase.outputTypes (node.requests phase producer rows) payloads (.error error)) :
    ¬ Reports phase producer payloads (.error error) := by
  rintro ⟨payload, hpayload, hreport⟩
  obtain ⟨request, hrequest, hencode⟩ := h.exists_request payload (List.mem_of_getLast? hpayload)
  cases rows with
  | ok rows =>
    have hheader := (peek_encode hencode).symm.trans (peek_encode hreport)
    have hfailure : request.isFailure = true := congrArg Header.isFailure (Except.ok.inj hheader)
    exact (mem_stream hrequest).2.2 hfailure
  | error error =>
    cases h with
    | refused => cases hpayload
    | sent _ hrest => cases hrest

/-- Over a transport that accepts every payload, a node whose requests have room for rows sends
them up to the first one that cannot be written. The merge node is told how the work ended exactly
if every request that the node set out to send can be written. A node whose rows do not fit the
declared types fails unreported, in the middle of a stream. -/
theorem execute_reports_iff (hsize : 1 ≤ node.rowsPerRequest)
    (hopen : state.outbox.capacity = none) :
    let rows := node.collected phase cancelled shards state
    let requests := node.requests phase producer rows
    let run := (node.execute phase producer cancelled shards).within state
    (∀ request ∈ requests, ∀ piece, request.payload = .rows (.materialized piece) →
      piece.length ≤ node.rowsPerRequest) ∧
    ∃ payloads outcome, Written phase.outputTypes requests payloads outcome ∧
      run.2.outbox.sent = state.outbox.sent ++ payloads.map (phase.mergeNode, ·) ∧
      run.1 = (do outcome; return (← rows).length) ∧
      (Reports phase producer payloads run.1 ↔ AllWritable phase.outputTypes requests) := by
  intro rows requests run
  obtain ⟨payloads, outcome, hwritten, hadds, hresult⟩ := execute_sends node phase producer
    cancelled shards hopen
  refine ⟨fun request hrequest piece => length_request_le hsize hrequest, payloads, outcome,
    hwritten, congrArg Outbox.sent hadds, hresult, ?_⟩
  rw [← hwritten.ok_iff, show run.1 = _ from hresult]
  cases outcome with
  | ok u => exact iff_of_true (reports_of_written hwritten) rfl
  | error error => exact iff_of_false (not_reports_of_written hwritten) (nomatch ·)

theorem execute_reports_iff_two :
    let node : Node := ⟨"n", .standard, 1⟩
    let phase : CollectPhase := ⟨.nil, [], [], [.long], "m"⟩
    let shards : List Bucket := [.materialized [[.long 1]], .materialized [[.long 2]]]
    let state : NodeState := ⟨.empty, .start .error, .empty⟩
    let rows := node.collected phase false shards state
    let requests := node.requests phase 0 rows
    let run := (node.execute phase 0 false shards).within state
    1 ≤ node.rowsPerRequest ∧ state.outbox.capacity = none ∧
    (∀ request ∈ requests, ∀ piece, request.payload = .rows (.materialized piece) →
      piece.length ≤ node.rowsPerRequest) ∧
    ∃ payloads outcome, Written phase.outputTypes requests payloads outcome ∧
      run.2.outbox.sent = state.outbox.sent ++ payloads.map (phase.mergeNode, ·) ∧
      run.1 = (do outcome; return (← rows).length) ∧
      (Reports phase 0 payloads run.1 ↔ AllWritable phase.outputTypes requests) :=
  ⟨le_refl 1, rfl, execute_reports_iff (le_refl 1) rfl⟩

/-- A text among numbers: the first request has been sent when the second one turns out not to
be writable. The work fails, and the merge node has neither the end of a stream nor a report. -/
theorem execute_unreported :
    let node : Node := ⟨"n", .standard, 1⟩
    let phase : CollectPhase := ⟨.nil, [], [], [.long], "m"⟩
    let shards : List Bucket := [.materialized [[.long 1]], .materialized [[.string "x"]]]
    let state : NodeState := ⟨.empty, .start .error, .empty⟩
    let run := (node.execute phase 0 false shards).within state
    let error : EngineError := .serialization "long streamer cannot write a string value"
    state.outbox.capacity = none ∧ run.1 = .error error ∧
    ∃ payload header, run.2.outbox.sent = [(phase.mergeNode, payload)] ∧
      Header.peek payload = .ok header ∧ ¬ header.isLast ∧ ¬ header.isFailure ∧
      (Request.ofFailure phase.job 0 error.message).encode phase.outputTypes ≠ .ok payload := by
  intro node phase shards state run error
  have hrun : run.1 = .error error := by decide +kernel
  let request : Request := ⟨phase.job, 0, 0, false, .rows (.materialized [[.long 1]])⟩
  have hsent : ∃ payload, request.encode phase.outputTypes = .ok payload ∧
      run.2.outbox.sent = [(phase.mergeNode, payload)] := ⟨_, rfl, by decide +kernel⟩
  obtain ⟨payload, hencode, hsent⟩ := hsent
  refine ⟨rfl, hrun, payload, _, hsent, peek_encode hencode, Bool.false_ne_true,
    Bool.false_ne_true, fun hreport => ?_⟩
  have hheader := (peek_encode hencode).symm.trans (peek_encode hreport)
  exact Bool.false_ne_true (congrArg Header.isFailure (Except.ok.inj hheader))

end Node

end ShardQuery
