import ShardQuery.Job.Timeline
import ShardQuery.Proofs.Manager.Runs
/-!
# Timelines are runs

A timeline serves its tasks in one of the orders that a run may take, so that all that
holds of runs holds of timelines.
-/

namespace ShardQuery

/-- Registering without interruption is what the two steps of a registration make together. -/
theorem Task.registering_uninterrupted (context : MergeContext) (manager : Manager) :
    let (task, after) := (registering context).step manager
    task.step after =
      (registered (manager.register context).1, (manager.register context).2) := by
  rcases registering_or context manager with hr | ⟨failure, hr⟩
  · simp only [registering_refused hr]
    simp only [step, Manager.register, Manager.enter, hr]
  · simp only [registering_entered failure hr]
    cases failure <;> simp only [step, Manager.register, Manager.enter, hr, Option.elim]

namespace Timeline

def system (timeline : Timeline) : System := ⟨timeline.manager, timeline.tasks⟩

theorem reaches_step (task : Task) (manager : Manager) (before after : List Task) :
    System.Reaches ⟨manager, before ++ task :: after⟩
      ⟨(task.step manager).2, before ++ (task.step manager).1 :: after⟩ := by
  have hi : (before ++ task :: after)[before.length]? = some task := by simp
  have hact := System.Acts.turn (s := ⟨manager, before ++ task :: after⟩) hi (.step rfl)
  rw [List.set_append_right _ _ (Nat.le_refl _), Nat.sub_self, List.set_cons_zero] at hact
  exact .single (.act _ hact)

theorem reaches_settleTask (holdsMerges : Bool) (fuel : Nat) (task : Task) (manager : Manager)
    (before after : List Task) :
    System.Reaches ⟨manager, before ++ task :: after⟩
      ⟨(settleTask holdsMerges fuel task manager).2,
        before ++ (settleTask holdsMerges fuel task manager).1 :: after⟩ := by
  induction fuel generalizing task manager with
  | zero => exact .refl
  | succ fuel ih =>
    unfold settleTask
    split
    · exact .refl
    · exact (reaches_step task manager before after).trans (ih ..)

theorem reaches_settleTasks (holdsMerges : Bool) (tasks : List Task) (manager : Manager)
    (before : List Task) :
    System.Reaches ⟨manager, before ++ tasks⟩
      ⟨(settleTasks holdsMerges tasks manager).2,
        before ++ (settleTasks holdsMerges tasks manager).1⟩ := by
  induction tasks generalizing manager before with
  | nil => exact .refl
  | cons task rest ih =>
    have hfirst := reaches_settleTask holdsMerges maxSteps task manager before rest
    have hrest := ih (settleTask holdsMerges maxSteps task manager).2
      (before ++ [(settleTask holdsMerges maxSteps task manager).1])
    simp only [List.append_assoc, List.cons_append, List.nil_append] at hrest
    exact hfirst.trans hrest

theorem reaches_settle (timeline : Timeline) : timeline.system.Reaches timeline.settle.system :=
  (reaches_settleTasks true timeline.tasks timeline.manager []).trans
    (reaches_settleTasks false _ _ [])

theorem reaches_setClock (timeline : Timeline) (now : Nat) :
    timeline.system.Reaches (timeline.setClock now).system :=
  .single (.tick _ (Nat.le_max_right ..))

/-- Whatever a timeline comes to while time passes is reached by a run. -/
theorem reaches_passDeadlines (stop : Timeline → Bool) (limit fuel : Nat) (timeline : Timeline) :
    timeline.system.Reaches (passDeadlines stop limit fuel timeline).system := by
  induction fuel generalizing timeline with
  | zero => exact .refl
  | succ fuel ih =>
    unfold passDeadlines
    split
    · exact .refl
    · split
      · split
        · exact ((reaches_setClock ..).trans (reaches_settle _)).trans (ih _)
        · exact .refl
      · exact .refl

theorem reaches_advance (millis : Nat) (timeline : Timeline) :
    timeline.system.Reaches (timeline.advance millis).system :=
  ((reaches_settle timeline).trans (reaches_passDeadlines ..)).trans (reaches_setClock ..)

end Timeline

end ShardQuery
