import ServerCore.Interleaving.Projection
import ServerCore.JobQueue.Order
import ServerCore.JobTimer.Deadline
import ServerCore.JobTimer.Delivery
import ServerCore.TimedJobs.Basic

/-!
# The two parts of a run

Seen through the timer, a run of the whole is a run of the timer; seen through the job
queues it is a run of the job queues, in which the `Push` of `Distribute` is one more call
of client code. So everything that holds of the parts alone holds of them together
(`timer_reachable`, `queues_reachable`).
-/

namespace ServerCore

open Interleaving

namespace TimedJobs

variable {Tid Q Job : Type} {H : PriorityQueue TimerItem TimerItem.less}
variable [DecidableEq Tid] [DecidableEq Q]

omit [DecidableEq Tid] [DecidableEq Q] in
/-- Client code pushes and serves the global queue, no counter wraps, and no batch is too
large for one. -/
def QueueStep (s : JobQueue.State Tid Q Job) (e : JobQueue.Event Tid Q Job) : Prop :=
  JobQueue.Serves s e ∧ JobQueue.NoWrap s e ∧ JobQueue.SmallBatches s e

instance (s : JobQueue.State Tid Q Job) (e : JobQueue.Event Tid Q Job) :
    Decidable (QueueStep s e) :=
  inferInstanceAs (Decidable (_ ∧ _ ∧ _))

/-- What the results on the two parts ask of their steps; an item has a `JobData` of its
own. -/
def Admitted (s : State H Tid Q Job) : Event Tid Q Job → Prop
  | .timer e => JobTimer.OwnItem s.timer e
  | .queue e => QueueStep s.queues e

instance (s : State H Tid Q Job) : ∀ e : Event Tid Q Job, Decidable (Admitted s e)
  | .timer e => inferInstanceAs (Decidable (JobTimer.OwnItem s.timer e))
  | .queue e => inferInstanceAs (Decidable (QueueStep s.queues e))

section Deliver

variable (s : State H Tid Q Job) (call : Option (Tid × Q × Job))

omit [DecidableEq Q] in
@[simp] theorem deliver_timer : (s.deliver call).timer = s.timer := by
  cases call <;> rfl

omit [DecidableEq Q] in
@[simp] theorem deliver_direct : (s.deliver call).direct = s.direct := by
  cases call <;> rfl

omit [DecidableEq Q] in
@[simp] theorem deliver_shared : (s.deliver call).queues.shared = s.queues.shared := by
  cases call <;> rfl

/-- For the job queues a delivery is a call of `Push`. -/
theorem deliver_some (t : Tid) (q : Q) (job : Job) :
    (s.deliver (some (t, q, job))).queues = s.queues.enter t (.push q job true) := rfl

end Deliver

variable {s s' : State H Tid Q Job}

omit [DecidableEq Tid] [DecidableEq Q] in
/-- A delivery is the step of a thread in the loop of `Distribute`, to an owner that has
not expired. -/
theorem delivery_cases {e : JobTimer.Event Tid Q Job} {t : Tid} {q : Q} {job : Job}
    (h : s.delivery e = some (t, q, job)) :
    ∃ item tempItems data, e = .step t ∧ s.timer.threads t = .distribute (item :: tempItems) ∧
      item.jobData.bind s.timer.pool = some data ∧
      JobTimer.lock s.timer.expired data.owner = some q ∧ data.job = job := by
  unfold State.delivery at h
  split at h
  · next u =>
      split at h
      · next item tempItems here =>
          obtain ⟨data, hdata, hlock⟩ := Option.bind_eq_some_iff.mp h
          obtain ⟨q', hq, heq⟩ := Option.map_eq_some_iff.mp hlock
          cases heq
          exact ⟨item, tempItems, data, rfl, here, hdata, hq, rfl⟩
      · cases h
  · cases h

omit [DecidableEq Tid] [DecidableEq Q] in
theorem delivery_alive {e : JobTimer.Event Tid Q Job} {t : Tid} {q : Q} {job : Job}
    (h : s.delivery e = some (t, q, job)) : s.timer.expired q = false := by
  obtain ⟨item, tempItems, data, -, -, -, hlock, -⟩ := delivery_cases h
  have hfilter := (Option.filter_eq_some_iff.mp hlock).2
  simpa using hfilter

variable [Fintype Tid]

/-- The steps of the whole. -/
theorem next_cases {e : Event Tid Q Job} (h : s.next e = some s') :
    (∃ e' timer, e = .timer e' ∧ s.TimerReady e' ∧ s.timer.next e' = some timer ∧
      s' = { s.deliver (s.delivery e') with timer }) ∨
    (∃ e' queues, e = .queue e' ∧ s.QueueReady e' ∧ s.queues.next e' = some queues ∧
      s' = { s with queues, direct := State.recordDirect s.direct e' }) := by
  cases e with
  | timer e =>
      simp only [State.next] at h
      split at h
      · next hready =>
          obtain ⟨timer, hnext, rfl⟩ := Option.map_eq_some_iff.mp h
          exact .inl ⟨e, timer, rfl, hready, hnext, rfl⟩
      · cases h
  | queue e =>
      simp only [State.next] at h
      split at h
      · next hready =>
          obtain ⟨queues, hnext, rfl⟩ := Option.map_eq_some_iff.mp h
          exact .inr ⟨e, queues, rfl, hready, hnext, rfl⟩
      · cases h

omit [DecidableEq Tid] [DecidableEq Q] [Fintype Tid] in
/-- The call of `Push` that a delivery is. -/
theorem queueStep_push (s : JobQueue.State Tid Q Job) (t : Tid) (q : Q) (job : Job) :
    QueueStep s (.call t (.push q job true)) := by
  refine ⟨?_, fun q hcounts => hcounts.elim, ?_⟩
  · rintro _ _ ⟨⟩
    rfl
  · rintro _ _ _ _ ⟨⟩

theorem projects_timer : System.Projects
    (system H : System (State H Tid Q Job) (Event Tid Q Job)) (JobTimer.system H)
    Admitted JobTimer.OwnItem State.timer where
  init := fun _ h => h.1
  next := by
    intro s e s' hok hnext
    obtain ⟨e', timer, rfl, -, htimer, rfl⟩ | ⟨e', queues, rfl, -, -, rfl⟩ := next_cases hnext
    · exact System.exists_run_single htimer hok
    · exact System.exists_run_nil rfl

theorem projects_queues : System.Projects
    (system H : System (State H Tid Q Job) (Event Tid Q Job)) JobQueue.system
    Admitted QueueStep State.queues where
  init := fun _ h => h.2.1
  next := by
    intro s e s' hok hnext
    obtain ⟨e', timer, rfl, hready, htimer, rfl⟩ | ⟨e', queues, rfl, -, hqueues, rfl⟩ :=
      next_cases hnext
    · cases hcall : s.delivery e' with
      | none => exact System.exists_run_nil rfl
      | some call =>
          obtain ⟨t, q, job⟩ := call
          obtain ⟨item, tempItems, data, rfl, -⟩ := delivery_cases hcall
          have hclient : (s.queues.threads t).inClient = true := hready.1 t rfl
          have hpush : JobQueue.system.next s.queues (.call t (.push q job true)) =
              some (s.deliver (some (t, q, job))).queues := by
            change (if _ then some _ else none) = _
            rw [if_pos hclient, deliver_some]
          exact System.exists_run_single hpush (queueStep_push s.queues t q job)
    · exact System.exists_run_single hqueues hok

/-- A run of the whole is a run of the timer. -/
theorem timer_reachable (h : (system H).Reachable Admitted s) :
    (JobTimer.system H).Reachable JobTimer.OwnItem s.timer :=
  projects_timer.reachable h

/-- A run of the whole is a run of the job queues. -/
theorem queues_reachable (h : (system H).Reachable Admitted s) :
    JobQueue.system.Reachable QueueStep s.queues :=
  projects_queues.reachable h

end TimedJobs

end ServerCore
