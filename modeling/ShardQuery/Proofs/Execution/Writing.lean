import ShardQuery.Proofs.Execution.Run
/-!
# Rows that are written

A row that has reached the sink stays there, so what is in the sink has to be right
whenever a write ends. Rows are taken one by one: the flag is looked at, the row is
projected, the sink takes it. Anything of this may fail, and others may raise the flag
between any two rows.

`write_delivers`: a write has put into the sink the projections of all rows in front of
the first one that failed, each of them once and in their order, and nothing else. If
none failed it comes to their number.
-/

namespace ShardQuery

-- ---------------------------------------------------------------------------
-- The sink and the flag
-- ---------------------------------------------------------------------------

namespace Sink

variable {sink : Sink} {row : Row}

def IsFull (sink : Sink) : Prop := ∃ capacity ∈ sink.capacity, capacity ≤ sink.rows.length

def add (sink : Sink) (rows : List Row) : Sink := { sink with rows := sink.rows ++ rows }

@[simp] theorem add_capacity (sink : Sink) (rows : List Row) :
    (sink.add rows).capacity = sink.capacity := rfl

@[simp] theorem add_rows (sink : Sink) (rows : List Row) :
    (sink.add rows).rows = sink.rows ++ rows := rfl

@[simp] theorem add_nil (sink : Sink) : sink.add [] = sink := by simp [add]

@[simp] theorem add_add (sink : Sink) (rows more : List Row) :
    (sink.add rows).add more = sink.add (rows ++ more) := by simp [add]

theorem put_full (h : sink.IsFull) : sink.put row = .error sink.refusal := by
  obtain ⟨capacity, hcapacity, hle⟩ := h
  simp [put, Option.mem_def.mp hcapacity, Nat.not_lt_of_le hle]

theorem put_add (h : ¬ sink.IsFull) : sink.put row = .ok (sink.add [row]) := by
  rcases hcapacity : sink.capacity with _ | capacity
  · simp [put, hcapacity, add]
  · have hlt : sink.rows.length < capacity :=
      Nat.lt_of_not_le fun hle => h ⟨capacity, hcapacity, hle⟩
    simp [put, hcapacity, hlt, add]

end Sink

namespace Session

def raise (up : Bool) (session : Session) : Session :=
  { session with cancelled := session.cancelled || up }

/-- The flag is up when row `i` is looked at: from the start, as others raised it before this row or
an earlier one, or as the source raised it when it gave one of them away. -/
def IsUpAt (session : Session) (raised : Nat → Bool) (isStreamed : Bool) (i : Nat) : Prop :=
  session.cancelled ∨ (∃ j ≤ i, raised j) ∨
    isStreamed ∧ ∃ k ∈ session.cancelAt, session.pulled < k ∧ k ≤ session.pulled + i + 1

def take (isStreamed : Bool) (session : Session) : Session :=
  if isStreamed then session.pull else session

@[simp] theorem take_sink (isStreamed : Bool) (session : Session) :
    (session.take isStreamed).sink = session.sink := by
  cases isStreamed <;> rfl

variable {session : Session} {raised : Nat → Bool} {isStreamed : Bool}

def look (isStreamed up : Bool) (session : Session) : Session := (session.take isStreamed).raise up

theorem look_cancelled (first : Nat) : (session.look isStreamed (raised first)).cancelled ↔
    session.IsUpAt (fun j => raised (first + j)) isStreamed 0 := by
  cases isStreamed with
  | false => simp [look, take, raise, IsUpAt]
  | true =>
    have hk (k : Nat) : k = session.pulled + 1 ↔
        session.pulled < k ∧ k ≤ session.pulled + 1 := by omega
    simp [look, take, raise, IsUpAt, pull, ← hk]
    grind

theorem isUpAt_look (first : Nat) (sink : Sink) :
    { session.look isStreamed (raised first) with sink }.IsUpAt
      (fun j => raised (first + 1 + j)) isStreamed =
    fun i => session.IsUpAt (fun j => raised (first + j)) isStreamed (i + 1) := by
  funext i
  have hraised : (∃ j ≤ i + 1, raised (first + j)) ↔
      raised first ∨ ∃ j ≤ i, raised (first + 1 + j) := by
    constructor
    · rintro ⟨_ | j, hj, h⟩
      · exact .inl h
      · exact .inr ⟨j, Nat.le_of_succ_le_succ hj, by rwa [Nat.add_assoc, Nat.add_comm 1]⟩
    · rintro (h | ⟨j, hj, h⟩)
      · exact ⟨0, Nat.zero_le _, h⟩
      · exact ⟨j + 1, Nat.succ_le_succ hj, by rwa [Nat.add_assoc, Nat.add_comm 1] at h⟩
  have hk (k : Nat) : session.pulled < k ∧ k ≤ session.pulled + (i + 1) + 1 ↔
      k = session.pulled + 1 ∨ session.pulled + 1 < k ∧ k ≤ session.pulled + 1 + i + 1 := by
    omega
  apply propext
  cases isStreamed with
  | false => simp [look, take, raise, IsUpAt, hraised, or_assoc]
  | true =>
    simp only [look, take, raise, IsUpAt, hraised, pull, hk, ↓reduceIte, Bool.or_eq_true,
      beq_iff_eq, true_and, Option.mem_def]
    grind

end Session

-- ---------------------------------------------------------------------------
-- One item after the other
-- ---------------------------------------------------------------------------

namespace Flow

variable {α : Type} {step : α → Item → Run α}

def foldItems (step : α → Item → Run α) (isStreamed : Bool) (state : α) :
    List Item → Session → (α × Option EngineError) × Session
  | [], session => ((state, none), session)
  | item :: rest, session =>
    match (step state item).within (session.take isStreamed) with
    | (.ok next, after) => foldItems step isStreamed next rest after
    | (.error e, after) => ((state, some e), after)

theorem fold_ofBucket (step : α → Item → Run α) (state : α) (bucket : Bucket) (session : Session) :
    ((ofBucket bucket).fold step state).run session =
      foldItems step bucket.isStreamed state bucket.items session := by
  cases bucket with
  | materialized rows =>
    change (foldRows step state rows).run session =
      foldItems step false state (rows.map .ok) session
    induction rows generalizing state session with
    | nil => rfl
    | cons row rest ih =>
      rw [foldRows_cons, List.map_cons, foldItems]
      simp only [ih]
      rfl
  | streamed items =>
    change (foldSource step state [] items).run session = foldItems step true state items session
    induction items generalizing state session with
    | nil => rfl
    | cons item rest ih =>
      rw [foldSource_cons, foldItems]
      simp only [ih]
      rfl

end Flow

-- ---------------------------------------------------------------------------
-- One row
-- ---------------------------------------------------------------------------

namespace Action

def writeRow (inputs : List Expression) (written : Nat) (row : Row) : Run Nat := do
  Run.put (← Work.ofExcept (Expression.project inputs row))
  return written + 1

def writeItem (raised : Nat → Bool) (inputs : List Expression) (written : Nat) (item : Item) :
    Run Nat := do
  modify (Session.raise (raised written))
  Flow.guarded (writeRow inputs) written item

/-- A write while others may raise the flag before any row; the first one is row 0. -/
def writeAmong (raised : Nat → Bool) (inputs : List Expression) (input : Flow) : Run Flow := do
  match ← (input.fold (writeItem raised inputs) 0 : StateM Session _) with
  | (written, none) => return .materialized [[.long (Int64.ofNat written)]]
  | (_, some e) => throw e

/-- Why an item ends a write: the flag is up, the source has an error in the place of a row, an
output fails, or the sink takes no more rows. -/
inductive Stops (inputs : List Expression) (isUp : Prop) (sink : Sink) :
    Item → EngineError → Prop
  | cancelled {item} : isUp → Stops inputs isUp sink item .cancelled
  | source {e} : ¬ isUp → Stops inputs isUp sink (.error e) e
  | outputs {row e} : ¬ isUp → Expression.project inputs row = .error e →
      Stops inputs isUp sink (.ok row) e
  | full {row out} : ¬ isUp → Expression.project inputs row = .ok out → sink.IsFull →
      Stops inputs isUp sink (.ok row) sink.refusal

section

variable {inputs : List Expression} {isUp : Prop} {sink : Sink} {item : Item} {e : EngineError}

theorem stops_or (inputs : List Expression) (isUp : Prop) (sink : Sink) (item : Item) :
    (∃ e, Stops inputs isUp sink item e) ∨ (¬ isUp ∧ ¬ sink.IsFull ∧
      ∃ row out, item = .ok row ∧ Expression.project inputs row = .ok out) := by
  by_cases hup : isUp
  · exact .inl ⟨_, .cancelled hup⟩
  rcases item with e | row
  · exact .inl ⟨e, .source hup⟩
  rcases hout : Expression.project inputs row with e | out
  · exact .inl ⟨e, .outputs hup hout⟩
  by_cases hfull : sink.IsFull
  · exact .inl ⟨_, .full hup hout hfull⟩
  · exact .inr ⟨hup, hfull, row, out, rfl, hout⟩

variable {raised : Nat → Bool} {written : Nat} {session : Session}

theorem writeItem_within (raised : Nat → Bool) (inputs : List Expression) (written : Nat)
    (item : Item) (session : Session) :
    (writeItem raised inputs written item).within session =
      (Flow.guarded (writeRow inputs) written item).within (session.raise (raised written)) := by
  rw [writeItem, Work.within_bind]
  rfl

theorem guarded_stops (h : Stops inputs session.cancelled session.sink item e) :
    (Flow.guarded (writeRow inputs) written item).within session = (.error e, session) := by
  cases h with
  | cancelled hup => exact Flow.guarded_cancelled _ _ _ hup
  | source hup =>
    rw [Flow.guarded, Work.within_bind, Run.within_checkCancelled, if_neg hup]
    rfl
  | outputs hup hout =>
    rw [Flow.guarded, Work.within_bind, Run.within_checkCancelled, if_neg hup]
    simp only [Work.within_bind, Work.within_ofExcept, writeRow, hout]
  | full hup hout hfull =>
    rw [Flow.guarded, Work.within_bind, Run.within_checkCancelled, if_neg hup]
    simp only [Work.within_bind, Work.within_ofExcept, writeRow, hout, Run.put, Work.within_get,
      Sink.put_full hfull]

theorem guarded_writes {row out : Row} (hup : ¬ session.cancelled) (hfull : ¬ session.sink.IsFull)
    (hout : Expression.project inputs row = .ok out) :
    (Flow.guarded (writeRow inputs) written (.ok row)).within session =
      (.ok (written + 1), { session with sink := session.sink.add [out] }) := by
  rw [Flow.guarded, Work.within_bind, Run.within_checkCancelled, if_neg hup]
  simp only [Work.within_bind, Work.within_ofExcept, writeRow, hout, Run.put, Work.within_get,
    Sink.put_add hfull]
  rfl

end

-- ---------------------------------------------------------------------------
-- All rows
-- ---------------------------------------------------------------------------

/-- These rows have been written: none of them met the flag or a full sink, and the projection of
each was put behind those of the rows before it. -/
structure Delivers (inputs : List Expression) (isUp : Nat → Prop) (rows : List Row)
    (before after : Sink) : Prop where
  outputs : ∃ outs, rows.mapM (Expression.project inputs) = .ok outs ∧ after = before.add outs
  unflagged : ∀ i < rows.length, ¬ isUp i
  room : ∀ i < rows.length, ∀ capacity ∈ before.capacity, before.rows.length + i < capacity

section

variable {inputs : List Expression} {isUp : Nat → Prop} {rows : List Row} {before after : Sink}

theorem Delivers.nil (inputs : List Expression) (isUp : Nat → Prop) (sink : Sink) :
    Delivers inputs isUp [] sink sink :=
  ⟨⟨[], rfl, sink.add_nil.symm⟩, nofun, nofun⟩

theorem Delivers.cons {row out : Row} (hup : ¬ isUp 0) (hfull : ¬ before.IsFull)
    (hout : Expression.project inputs row = .ok out)
    (h : Delivers inputs (fun i => isUp (i + 1)) rows (before.add [out]) after) :
    Delivers inputs isUp (row :: rows) before after where
  outputs := by
    obtain ⟨outs, houts, hafter⟩ := h.outputs
    refine ⟨out :: outs, ?_, by simpa using hafter⟩
    rw [List.mapM_cons, hout, houts]
    rfl
  unflagged i hi := by
    cases i with
    | zero => exact hup
    | succ i => exact h.unflagged i (Nat.lt_of_succ_lt_succ hi)
  room i hi capacity hcapacity := by
    cases i with
    | zero => exact Nat.lt_of_not_le fun hle => hfull ⟨capacity, hcapacity, hle⟩
    | succ i =>
      have hroom := h.room i (Nat.lt_of_succ_lt_succ hi) capacity hcapacity
      simp only [Sink.add_rows, List.length_append, List.length_singleton] at hroom
      omega

end

/-- What a write has behind it when it ends: all items, or those in front of the one that stops it.
The counter is in step with the sink. -/
theorem foldItems_delivers (raised : Nat → Bool) (inputs : List Expression) (isStreamed : Bool)
    (written : Nat) (items : List Item) (session : Session) :
    let run := Flow.foldItems (writeItem raised inputs) isStreamed written items session
    let isUp := session.IsUpAt (fun j => raised (written + j)) isStreamed
    ∃ rows, Delivers inputs isUp rows session.sink run.2.sink ∧
      run.1.1 = written + rows.length ∧
      match run.1.2 with
      | none => items = rows.map .ok
      | some e => ∃ item rest, items = rows.map .ok ++ item :: rest ∧
          Stops inputs (isUp rows.length) run.2.sink item e := by
  induction items generalizing written session with
  | nil => exact ⟨[], .nil _ _ _, rfl, rfl⟩
  | cons item rest ih =>
    let looked := session.look isStreamed (raised written)
    have hstep : (writeItem raised inputs written item).within (session.take isStreamed) =
        (Flow.guarded (writeRow inputs) written item).within looked :=
      writeItem_within raised inputs written item _
    have hsink : looked.sink = session.sink := session.take_sink isStreamed
    have hlook : looked.cancelled ↔
        session.IsUpAt (fun j => raised (written + j)) isStreamed 0 :=
      Session.look_cancelled written
    rcases stops_or inputs looked.cancelled looked.sink item with
      ⟨e, hstops⟩ | ⟨hup, hfull, row, out, rfl, hout⟩
    · rw [Flow.foldItems, hstep, guarded_stops hstops]
      rw [hlook, hsink] at hstops
      dsimp only
      rw [hsink]
      exact ⟨[], .nil _ _ _, rfl, item, rest, rfl, hstops⟩
    · rw [Flow.foldItems, hstep, guarded_writes hup hfull hout, hsink]
      obtain ⟨rows, hdelivers, hcount, hend⟩ :=
        ih (written + 1) { looked with sink := session.sink.add [out] }
      rw [Session.isUpAt_look] at hdelivers hend
      rw [hlook] at hup
      rw [hsink] at hfull
      refine ⟨row :: rows, hdelivers.cons hup hfull hout, ?_, ?_⟩
      · dsimp only
        rw [hcount, List.length_cons, Nat.add_right_comm, Nat.add_assoc]
      · dsimp only
        split <;> rename_i hnone
        · rw [hnone] at hend
          exact congrArg (.ok row :: ·) hend
        · rw [hnone] at hend
          obtain ⟨item, more, rfl, hstops⟩ := hend
          exact ⟨item, more, rfl, hstops⟩

theorem writeAmong_within (raised : Nat → Bool) (inputs : List Expression) (bucket : Bucket)
    (session : Session) :
    (writeAmong raised inputs (.ofBucket bucket)).within session =
      match Flow.foldItems (writeItem raised inputs) bucket.isStreamed 0 bucket.items session with
      | ((written, none), after) => (.ok (.materialized [[.long (Int64.ofNat written)]]), after)
      | ((_, some e), after) => (.error e, after) := by
  rw [writeAmong, Work.within_bind, Work.within_lift, Flow.fold_ofBucket]
  rcases Flow.foldItems (writeItem raised inputs) bucket.isStreamed 0 bucket.items session with
    ⟨⟨written, _ | e⟩, after⟩ <;> rfl

theorem apply_write (inputs : List Expression) (input : Flow) :
    (write inputs).apply input = writeAmong (fun _ => false) inputs input := by
  have hitem : writeItem (fun _ => false) inputs = Flow.guarded (writeRow inputs) := by
    funext written item
    have hraise : Session.raise false = id := by
      funext session
      simp [Session.raise]
    rw [writeItem, hraise]
    rfl
  rw [writeAmong, hitem, apply, Flow.consume, bind_assoc]
  congr 1
  funext result
  rcases result with ⟨written, _ | e⟩ <;> rfl

/-- A write over any bucket while others may raise the flag before any row. If it succeeds, the
sink has received the projections of all rows and the result is their number. If it fails, the sink
has received the projections of the rows in front of the first item that failed. In both cases they
came in the order of the rows, each of them once, and nothing else came. The stage is the write in
which the flag is left to the source. -/
theorem write_delivers (raised : Nat → Bool) (inputs : List Expression) (bucket : Bucket)
    (session : Session) :
    let run := (writeAmong raised inputs (.ofBucket bucket)).within session
    let isUp := session.IsUpAt raised bucket.isStreamed
    (match run.1 with
    | .ok flow => ∃ rows, bucket.items = rows.map .ok ∧
        Delivers inputs isUp rows session.sink run.2.sink ∧
        flow = .materialized [[.long (Int64.ofNat rows.length)]]
    | .error e => ∃ rows item rest, bucket.items = rows.map .ok ++ item :: rest ∧
        Delivers inputs isUp rows session.sink run.2.sink ∧
        Stops inputs (isUp rows.length) run.2.sink item e) ∧
    (write inputs).apply (.ofBucket bucket) =
      writeAmong (fun _ => false) inputs (.ofBucket bucket) := by
  intro run isUp
  refine ⟨?_, apply_write inputs _⟩
  have hrun : run = _ := writeAmong_within raised inputs bucket session
  have hfold := foldItems_delivers raised inputs bucket.isStreamed 0 bucket.items session
  simp only [Nat.zero_add] at hfold
  obtain ⟨rows, hdelivers, hcount, hend⟩ := hfold
  rcases hall : Flow.foldItems (writeItem raised inputs) bucket.isStreamed 0 bucket.items session
    with ⟨⟨written, _ | e⟩, after⟩ <;> rw [hall] at hrun hdelivers hcount hend <;> rw [hrun]
  · cases hcount
    exact ⟨rows, hend, hdelivers, rfl⟩
  · obtain ⟨item, rest, hitems, hstops⟩ := hend
    exact ⟨rows, item, rest, hitems, hdelivers, hstops⟩

end Action

end ShardQuery
