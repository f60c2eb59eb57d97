import ShardQuery.Proofs.Manager.Bystanders
/-!
# Requests on their way

A task that is a request has its payload, and so the request that it will hand to the
context, until it is answered. A turn changes one task, so that what is brought after it is
what was brought before, less at most one request.

`Moves.delivery?`: a request is not changed on its way. `perm_filterMap_set`: what a
turn changes about all that is brought.
-/

namespace ShardQuery

theorem perm_filterMap_set {α β : Type} {xs : List α} {i : Nat} {x : α} (h : xs[i]? = some x)
    (y : α) (f : α → Option β) :
    ((xs.set i y).filterMap f ++ (f x).toList).Perm (xs.filterMap f ++ (f y).toList) := by
  induction xs generalizing i with
  | nil => cases h
  | cons z zs ih =>
    cases i with
    | zero =>
      obtain rfl : z = x := Option.some.inj h
      rw [List.set_cons_zero]
      cases hz : f z with
      | none =>
        cases hy : f y with
        | none => simp [hz, hy]
        | some b => simpa [hz, hy] using (List.perm_append_singleton b _).symm
      | some a =>
        cases hy : f y with
        | none => simp [hz, hy]
        | some b =>
          simp only [List.filterMap_cons_some hz, List.filterMap_cons_some hy,
            Option.toList_some]
          exact (List.perm_append_singleton a _).trans
            ((List.perm_append_singleton b _).symm.cons a)
    | succ i =>
      have ih := ih (i := i) h
      rw [List.set_cons_succ]
      cases hz : f z with
      | none => simpa [hz] using ih
      | some b => simpa [hz] using ih

namespace Task

variable {manager : Manager} {task next : Task} {record : Option Record}
  {contexts : List MergeContext} {table : JobTable} {job : JobId} {types : List DataType}
  {request : Request} {payload : List UInt8}

def delivery? : Task → Option (JobId × List UInt8)
  | arrived payload =>
    (Request.Header.peek payload).toOption.map fun header => (header.job, payload)
  | looking payload job _ _ _ | waiting payload job _ _ | expired payload job
  | handing payload job _ => some (job, payload)
  | _ => none

def brings? (types : List DataType) (job : JobId) (task : Task) : Option Request :=
  task.delivery?.bind fun delivery =>
    if delivery.1 = job then (Request.decode types delivery.2).toOption else none

theorem delivery?_eq_some : task.delivery? = some (job, payload) ↔
    task.payload? = some payload ∧ task.job? manager = some job := by
  cases task with
  | arrived own =>
    simp only [delivery?, payload?, job?]
    cases Request.Header.peek own <;> simp [Except.toOption, and_comm]
  | looking | waiting | expired | handing => simp [delivery?, payload?, job?, and_comm]
  | _ => simp [delivery?, payload?]

theorem brings?_eq_some : task.brings? types job = some request ↔
    ∃ payload, task.delivery? = some (job, payload) ∧
      Request.decode types payload = .ok request := by
  unfold brings?
  constructor
  · intro h
    obtain ⟨⟨own, payload⟩, hdelivery, hrequest⟩ := Option.bind_eq_some_iff.mp h
    split at hrequest
    · rename_i hown
      subst hown
      refine ⟨payload, hdelivery, ?_⟩
      cases hd : Request.decode types payload with
      | error error => simp [hd, Except.toOption] at hrequest
      | ok found => simpa [hd, Except.toOption] using hrequest
    · cases hrequest
  · rintro ⟨payload, hdelivery, hd⟩
    simp [hdelivery, hd, Except.toOption]

def registers : Task → Bool
  | registering _ | announcing .. | registered _ => true
  | _ => false

theorem plain_replied (job : JobId) (id : ContextId) (answer : Except EngineError Acceptance) :
    (replied job id answer).delivery? = none ∧ (replied job id answer).registers = false := by
  rcases answer with error | acceptance
  · cases error <;> exact ⟨rfl, rfl⟩
  · cases acceptance <;> exact ⟨rfl, rfl⟩

theorem Moves.delivery? (h : Moves manager task record next contexts table) :
    next.delivery? = task.delivery? ∨ next.delivery? = none := by
  cases h with
  | seeks hseeks =>
    cases hseeks with
    | arrives _ _ hp => exact .inl (by simp [Task.delivery?, hp, Except.toOption])
    | malformed | late => exact .inr rfl
    | _ => exact .inl rfl
  | finds hl hp => cases hl <;> cases hp <;> exact .inl rfl
  | works _ _ hw =>
    right
    cases hw with
    | answers => exact (plain_replied ..).1
    | _ => rfl
  | _ => exact .inr rfl

theorem Moves.registers (h : Moves manager task record next contexts table) :
    next.registers = task.registers := by
  cases h with
  | seeks hseeks =>
    cases hseeks with
    | late hl => cases hl <;> rfl
    | _ => rfl
  | finds hl => cases hl <;> rfl
  | misses _ hr => cases hr <;> rfl
  | works _ _ hw =>
    cases hw with
    | answers => exact (plain_replied ..).2
    | _ => rfl
  | _ => rfl

end Task

namespace System

variable {s s' : System} {i : Nat} {task next : Task}

abbrev incoming (types : List DataType) (job : JobId) (s : System) : List Request :=
  s.tasks.filterMap (·.brings? types job)

theorem mem_turn {other : Task} (hi : s.tasks[i]? = some task)
    (htasks : s'.tasks = s.tasks.set i next) (h : other ∈ s.tasks) :
    other = task ∨ other ∈ s'.tasks := by
  obtain ⟨j, hj⟩ := List.mem_iff_getElem?.mp h
  by_cases hij : i = j
  · subst hij
    exact .inl (Option.some.inj (hj.symm.trans hi))
  · rw [htasks]
    exact .inr (List.mem_of_getElem? ((List.getElem?_set_ne hij).trans hj))

theorem mem_next (hi : s.tasks[i]? = some task) (htasks : s'.tasks = s.tasks.set i next) :
    next ∈ s'.tasks := by
  rw [htasks]
  exact List.mem_of_getElem? (List.getElem?_set_self (List.getElem?_eq_some_iff.mp hi).1)

theorem tasks_turn {P : Task → Prop} {job : JobId} (hs : s.Sound) (hact : s.Acts i s')
    (htasks : s'.tasks = s.tasks.set i next)
    (h : ∀ task ∈ s.tasks, task.job? s.manager = some job → P task)
    (hnext : next.job? s'.manager = some job → P next) :
    ∀ task ∈ s'.tasks, task.job? s'.manager = some job → P task := by
  intro other hmem hjob
  rw [htasks] at hmem
  rcases List.mem_or_eq_of_mem_set hmem with hmem | rfl
  · obtain ⟨_, _, -, hturn, -⟩ := hact.exists_turn
    exact h other hmem (hturn.effect.job?_of_knows (hs.tasks other hmem) hjob)
  · exact hnext hjob

theorem Reaches.registers (h : s.Reaches s') (hs : s.Sound) (hi : s'.tasks[i]? = some next) :
    ∃ call, s.tasks[i]? = some call ∧ call.registers = next.registers := by
  induction h generalizing next with
  | refl => exact ⟨next, hi, rfl⟩
  | @tail a b hrun hstep ih =>
    cases hstep with
    | tick => exact ih hi
    | act j hact =>
      by_cases hj : i = j
      · subst hj
        obtain ⟨task, _, htask, -⟩ := hact.exists_turn
        obtain ⟨after, -, hm, htasks⟩ := hact.moves (Reaches.sound hrun hs) htask
        rw [htasks, List.getElem?_set_self (List.getElem?_eq_some_iff.mp htask).1] at hi
        cases hi
        obtain ⟨call, hcall, hsame⟩ := ih htask
        exact ⟨call, hcall, hsame.trans hm.registers.symm⟩
      · rw [hact.other hj] at hi
        exact ih hi

end System

end ShardQuery
