import ServerCore.TimedJobs.Delivery

/-!
# Every reserved job, from `Reserve` to its body

An item carries the job and the owner that its `JobData` was made with. `Distribute` passes
the job to the owner when the owner still exists, and expiry is final; so what an existing
queue got from the timer are the jobs of the items that were handled for it
(`timed_perm_handled`). With the timer's own account of its items this follows a job through
both components: it is in the timer, in a call of `Push`, in the job queue, in the batch of
the executor, or was started, and in one of these places only.

An item is handled in a round whose clock has passed its `executeTick`, so a job is started
no more often than items of it fell due (`timed_subperm_due`).
-/

namespace ServerCore

open Interleaving

namespace JobTimer

variable {Tid Q Job : Type} {H : PriorityQueue TimerItem TimerItem.less}

/-- What the rounds did with their items, in the order in which they did it. -/
def State.outcomes (s : State H Tid Q Job) : List (Outcome Q Job) :=
  s.rounds.reverse.flatMap Round.outcomes

theorem outcomes_items (s : State H Tid Q Job) : (s.outcomes.map Outcome.item).Perm s.handled := by
  rw [State.outcomes, List.map_flatMap]
  exact (List.reverse_perm s.rounds).flatMap_right _

theorem mem_outcomes {s : State H Tid Q Job} {outcome : Outcome Q Job} :
    outcome ∈ s.outcomes ↔ ∃ round ∈ s.rounds, outcome ∈ round.outcomes := by
  rw [State.outcomes, List.mem_flatMap]
  simp only [List.mem_reverse]

variable [DecidableEq Tid] [DecidableEq Q] {s s' : State H Tid Q Job}

/-- A queue that has expired stays so, and a step enters at most what it read. -/
theorem outcomes_next [Fintype Tid] {e : Event Tid Q Job} (h : s.next e = some s')
    (tracks : Tracks s) : (∀ q, s.expired q = true → s'.expired q = true) ∧
      ∀ outcome ∈ s'.outcomes, outcome ∈ s.outcomes ∨ outcome.expired = s.expired := by
  obtain ⟨-, hstep⟩ := step_of_next h
  cases hstep with
  | @collect t now here =>
      obtain ⟨items, round, heq, -, -, -, hhandled, -⟩ := collect_exact s now
      have hempty : round.outcomes = [] := List.map_eq_nil_iff.mp hhandled
      rw [heq]
      refine ⟨fun q hq => hq, fun outcome houtcome => .inl ?_⟩
      obtain ⟨r, hr, hmem⟩ := mem_outcomes.mp houtcome
      obtain rfl | hr := List.mem_cons.mp hr
      · rw [hempty] at hmem
        cases hmem
      · exact mem_outcomes.mpr ⟨r, hr, hmem⟩
  | @deliver t item tempItems data here found =>
      obtain ⟨round, rounds, hrounds, -⟩ := tracks.current t (by rw [here]; trivial)
      rw [Tracks.deliver_eq hrounds]
      refine ⟨fun q hq => hq, fun outcome houtcome => ?_⟩
      obtain ⟨r, hr, hmem⟩ := mem_outcomes.mp houtcome
      obtain rfl | hr := List.mem_cons.mp hr
      · obtain hmem | hmem := List.mem_append.mp hmem
        · exact .inl (mem_outcomes.mpr ⟨round, hrounds ▸ List.mem_cons_self, hmem⟩)
        · obtain rfl := List.mem_singleton.mp hmem
          exact .inr rfl
      · exact .inl (mem_outcomes.mpr ⟨r, hrounds ▸ List.mem_cons_of_mem _ hr, hmem⟩)
  | @recycle t item tempItems here =>
      obtain ⟨pool, returned, crashed, heq⟩ := pushJobData_eq s item.jobData
      rw [heq]
      exact ⟨fun q hq => hq, fun outcome houtcome => .inl houtcome⟩
  | clear =>
      obtain ⟨items, pool, returned, crashed, popped, heq, -⟩ := clear_eq s
      rw [heq]
      exact ⟨fun q hq => hq, fun outcome houtcome => .inl houtcome⟩
  | @expire q' =>
      refine ⟨fun q hq => ?_, fun outcome houtcome => .inl houtcome⟩
      change Function.update s.expired q' true q = true
      by_cases hqq : q = q'
      · rw [hqq, Function.update_self]
      · rw [Function.update_of_ne hqq, hq]
  | _ => exact ⟨fun q hq => hq, fun outcome houtcome => .inl houtcome⟩

/-- A queue that had expired when its item was handled has expired. -/
theorem expired_of_outcome [Fintype Tid] {ok : State H Tid Q Job → Event Tid Q Job → Prop}
    (h : (system H).Reachable ok s) : ∀ outcome ∈ s.outcomes, ∀ q,
      outcome.expired q = true → s.expired q = true := by
  induction h with
  | start hs =>
      cases hs
      intro outcome houtcome
      cases houtcome
  | step hreach _ hnext ih =>
      obtain ⟨hstays, hentered⟩ := outcomes_next hnext (tracks_of_reachable hreach)
      intro outcome houtcome q hq
      obtain hold | hnew := hentered outcome houtcome
      · exact hstays q (ih outcome hold q hq)
      · rw [hnew] at hq
        exact hstays q hq

end JobTimer

namespace TimedJobs

variable {Tid Q Job : Type} {H : PriorityQueue TimerItem TimerItem.less} [DecidableEq Q]

namespace State

variable (s : State H Tid Q Job) (q : Q)

/-- The job that the `JobData` of an item was made with, if `q` is its owner. -/
def jobFor (item : TimerItem) : Option Job :=
  (item.jobData.bind s.timer.made).bind fun data =>
    if data.owner = some q then some data.job else none

/-- The jobs that the items carry for `q`. -/
def jobsFor (items : List TimerItem) : List Job := items.filterMap (s.jobFor q)

/-- The items whose time some round has reached. -/
def due : List TimerItem :=
  s.timer.reserved.filter fun item => ∃ round ∈ s.timer.rounds, item.executeTick ≤ round.now

/-- The job with which an outcome was pushed to `q`. -/
def pushedFor (outcome : JobTimer.Outcome Q Job) : Option Job :=
  if outcome.ownerJobQueue = some q then some outcome.data.job else none

end State

/-- A function that answers less often yields a sublist. -/
theorem filterMap_sublist {α β : Type} {f g : α → Option β} {l : List α}
    (h : ∀ a ∈ l, ∀ b, f a = some b → g a = some b) : (l.filterMap f).Sublist (l.filterMap g) := by
  induction l with
  | nil => exact List.Sublist.refl _
  | cons a l ih =>
      have hrest := ih fun a' ha' => h a' (List.mem_cons_of_mem _ ha')
      cases hf : f a with
      | none =>
          rw [List.filterMap_cons_none hf]
          exact hrest.trans (List.Sublist.filterMap g (List.sublist_cons_self a l))
      | some b =>
          rw [List.filterMap_cons_some hf,
            List.filterMap_cons_some (h a List.mem_cons_self b hf)]
          exact hrest.cons_cons b

variable {s : State H Tid Q Job} {q : Q}

theorem jobsFor_append (items items' : List TimerItem) :
    s.jobsFor q (items ++ items') = s.jobsFor q items ++ s.jobsFor q items' :=
  List.filterMap_append

theorem jobsFor_outcomes (q : Q) : s.jobsFor q (s.timer.outcomes.map JobTimer.Outcome.item) =
    s.timer.outcomes.filterMap fun outcome => s.jobFor q outcome.item :=
  List.filterMap_map

variable [Fintype Tid]

/-- The calls of `Push` for a queue are those of the outcomes. -/
theorem timed_eq (tracks : JobTimer.Tracks s.timer) (q : Q) :
    s.timed q = s.timer.outcomes.filterMap (State.pushedFor q) := by
  have hpushes : s.timer.pushes = s.timer.outcomes.filterMap JobTimer.Outcome.pushCall := by
    rw [tracks.pushes, JobTimer.State.outcomes, List.filterMap_flatMap]
    rfl
  rw [State.timed, hpushes]
  induction s.timer.outcomes with
  | nil => rfl
  | cons outcome outcomes ih =>
      cases howner : outcome.ownerJobQueue with
      | none =>
          rw [List.filterMap_cons_none, List.filterMap_cons_none, ih]
          · simp [State.pushedFor, howner]
          · simp [JobTimer.Outcome.pushCall, howner]
      | some queue =>
          by_cases hq : queue = q
          · simp [State.pushedFor, JobTimer.Outcome.pushCall, howner, hq, ih]
          · simp [State.pushedFor, JobTimer.Outcome.pushCall, howner, hq, ih]

section Outcomes

variable (tracks : JobTimer.Tracks s.timer) (owned : JobTimer.Owned s.timer)
  {outcome : JobTimer.Outcome Q Job} (here : outcome ∈ s.timer.outcomes)

include tracks owned here

/-- What was pushed to a queue is what the item carries for it. -/
theorem jobFor_of_pushedFor {job : Job} (h : State.pushedFor q outcome = some job) :
    s.jobFor q outcome.item = some job := by
  obtain ⟨round, hround, hmem⟩ := JobTimer.mem_outcomes.mp here
  obtain ⟨id, hid, hmade⟩ := owned.read round hround outcome hmem
  have hlocked := (tracks.exact round hround).locked outcome hmem
  unfold State.pushedFor at h
  split at h
  · next howner =>
      rw [hlocked] at howner
      have hdata := (Option.filter_eq_some_iff.mp howner).1
      rw [State.jobFor, hid, Option.bind_some, hmade, Option.bind_some, if_pos hdata, h]
  · cases h

/-- If the queue existed, nothing that the item carries for it was dropped. -/
theorem pushedFor_of_alive (alive : outcome.expired q = false) :
    State.pushedFor q outcome = s.jobFor q outcome.item := by
  obtain ⟨round, hround, hmem⟩ := JobTimer.mem_outcomes.mp here
  obtain ⟨id, hid, hmade⟩ := owned.read round hround outcome hmem
  have hlocked := (tracks.exact round hround).locked outcome hmem
  rw [State.jobFor, hid, Option.bind_some, hmade, Option.bind_some, State.pushedFor, hlocked]
  by_cases howner : outcome.data.owner = some q
  · have hlock : JobTimer.lock outcome.expired outcome.data.owner = some q := by
      simp [JobTimer.lock, howner, alive]
    rw [if_pos hlock, if_pos howner]
  · have hlock : JobTimer.lock outcome.expired outcome.data.owner ≠ some q := by
      intro hlock
      exact howner (Option.filter_eq_some_iff.mp hlock).1
    rw [if_neg hlock, if_neg howner]

end Outcomes

variable [DecidableEq Tid]

/-- A queue that exists got the jobs of the items that were handled for it. -/
theorem timed_perm_handled (h : (system H).Reachable Admitted s)
    (alive : s.timer.expired q = false) : (s.timed q).Perm (s.jobsFor q s.timer.handled) := by
  have htimer := timer_reachable h
  have tracks := JobTimer.tracks_of_reachable htimer
  have hsame : s.timer.outcomes.filterMap (State.pushedFor q) =
      s.jobsFor q (s.timer.outcomes.map JobTimer.Outcome.item) := by
    rw [jobsFor_outcomes]
    apply List.filterMap_congr
    intro outcome here
    refine pushedFor_of_alive tracks (JobTimer.owned_of_reachable htimer) here ?_
    by_contra hexpired
    have hgone := JobTimer.expired_of_outcome htimer outcome here q (Bool.eq_true_of_not_eq_false
      hexpired)
    rw [alive] at hgone
    cases hgone
  rw [timed_eq tracks, hsame]
  exact (JobTimer.outcomes_items s.timer).filterMap _

/-- No queue gets a job more often from the timer than items of it fell due. -/
theorem timed_subperm_due (h : (system H).Reachable Admitted s) (q : Q) :
    (s.timed q).Subperm (s.jobsFor q s.due) := by
  have htimer := timer_reachable h
  have tracks := JobTimer.tracks_of_reachable htimer
  have owned := JobTimer.owned_of_reachable htimer
  have hsub : (s.timed q).Sublist (s.jobsFor q (s.timer.outcomes.map JobTimer.Outcome.item)) := by
    rw [timed_eq tracks, jobsFor_outcomes]
    exact filterMap_sublist fun outcome here job => jobFor_of_pushedFor tracks owned here
  have hreserved : (s.timer.outcomes.map JobTimer.Outcome.item).Subperm s.timer.reserved := by
    refine (JobTimer.outcomes_items s.timer).subperm.trans ?_
    refine List.Subperm.trans ?_ tracks.places.symm.subperm
    refine List.Sublist.subperm (List.Sublist.trans ?_ (List.sublist_append_right _ _))
    exact (List.sublist_append_left _ _).trans (List.sublist_append_right _ _)
  have hdue : (s.timer.outcomes.map JobTimer.Outcome.item).filter
      (fun item => ∃ round ∈ s.timer.rounds, item.executeTick ≤ round.now) =
        s.timer.outcomes.map JobTimer.Outcome.item := by
    rw [List.filter_eq_self]
    intro item hitem
    obtain ⟨outcome, houtcome, rfl⟩ := List.mem_map.mp hitem
    obtain ⟨round, hround, hmem⟩ := JobTimer.mem_outcomes.mp houtcome
    exact decide_eq_true ⟨round, hround, (tracks.due hround hmem).2⟩
  have hitems := hreserved.filter
    fun item => ∃ round ∈ s.timer.rounds, item.executeTick ≤ round.now
  rw [hdue] at hitems
  obtain ⟨items, hperm, hsublist⟩ := hitems
  exact hsub.subperm.trans ⟨items.filterMap (s.jobFor q), hperm.filterMap _, hsublist.filterMap _⟩

variable [DecidableEq Job]

/-- The places where a job waits to be started by `q`: the timer's queue and the vector of
`Distribute`, a call of `Push`, the job queue and the batch of its executor. -/
noncomputable def State.waiting (s : State H Tid Q Job) (q : Q) (job : Job) : ℕ :=
  (s.jobsFor q (H.toList s.timer.items ++ s.timer.batch)).count job +
    s.queues.total (JobQueue.Frame.announces q job) +
    (s.queues.shared.queues q).jobs.items.count (some job) + (s.queues.unexecuted q).count job

/-- No call is under way, and neither the global queue nor the timer has anything left. -/
structure AtRest (s : State H Tid Q Job) : Prop where
  frames : ∀ t, (s.queues.threads t).stack = []
  outside : ∀ t, s.timer.threads t = .idle
  globalQueue : s.queues.shared.globalQueue.items = []
  items : H.toList s.timer.items = []

/-- Every job that was pushed or reserved for an existing queue waits in one place, was
started, or was cleared; at rest nothing waits. A queue that expired had started everything
it got. Each queue starts its jobs in the order in which it got them, one at a time. -/
structure Conserved (s : State H Tid Q Job) : Prop where
  jobs : ∀ q job, s.timer.expired q = false →
    (s.direct q).count job + (s.jobsFor q s.timer.reserved).count job =
      (s.queues.shared.executed q).count job + s.waiting q job +
        (s.jobsFor q s.timer.cleared).count job
  rest : AtRest s → s.timer.cleared = [] → ∀ q, s.timer.expired q = false →
    (s.queues.shared.executed q).Perm (s.direct q ++ s.jobsFor q s.timer.reserved)
  expired : ∀ q, s.timer.expired q = true →
    (s.queues.shared.executed q).Perm (s.direct q ++ s.timed q)
  order : ∀ q, s.queues.shared.InOrder q (s.queues.unexecuted q)
  single : ∀ q, s.queues.total (JobQueue.Frame.executes q) ≤ 1

omit [Fintype Tid] [DecidableEq Tid] [DecidableEq Job] in
theorem announces_of_queue [DecidableEq Job] {frame : JobQueue.Frame Q Job}
    (h : frame.queue ≠ some q) (job : Job) : frame.announces q job = 0 := by
  cases frame <;> simp_all [JobQueue.Frame.queue]

omit [DecidableEq Tid] in
theorem total_announces_of_unreferenced (h : s.queues.Unreferenced q) (job : Job) :
    s.queues.total (JobQueue.Frame.announces q job) = 0 := by
  rw [JobQueue.State.total]
  apply Finset.sum_eq_zero
  intro t _
  rw [weigh, List.sum_eq_zero_iff]
  intro n hn
  obtain ⟨frame, hframe, rfl⟩ := List.mem_map.mp hn
  exact announces_of_queue (h.2 t frame hframe) job

omit [DecidableEq Tid] in
/-- What was pushed was started, is in the batch of the executor or in the queue. -/
theorem count_pushed (h : JobQueue.Ordered s.queues) (q : Q) (job : Job) :
    (s.queues.shared.pushed q).count job = (s.queues.shared.executed q).count job +
      (s.queues.unexecuted q).count job +
      (s.queues.shared.queues q).jobs.items.count (some job) := by
  have horder := congrArg (List.count (some job)) (h.order q)
  have hsome : Function.Injective (some : Job → Option Job) := Option.some_injective Job
  rw [List.count_append, List.count_map_of_injective _ _ hsome,
    List.count_map_of_injective _ _ hsome, List.count_append] at horder
  omega

theorem conserved_jobs (h : (system H).Reachable Admitted s) (alive : s.timer.expired q = false)
    (job : Job) : (s.direct q).count job + (s.jobsFor q s.timer.reserved).count job =
      (s.queues.shared.executed q).count job + s.waiting q job +
        (s.jobsFor q s.timer.cleared).count job := by
  have tracks := JobTimer.tracks_of_reachable (timer_reachable h)
  have htimed := (timed_perm_handled h alive).count_eq job
  have hplaces := (tracks.places.filterMap (s.jobFor q)).count_eq job
  have happended := (passed_of_reachable h).appended q job
  have hcount := count_pushed (ordered_of_reachable h) q job
  change (s.jobsFor q s.timer.reserved).count job = (s.jobsFor q (_ ++ (_ ++ (_ ++ _)))).count job
    at hplaces
  rw [jobsFor_append, jobsFor_append, jobsFor_append, List.count_append, List.count_append,
    List.count_append] at hplaces
  rw [State.waiting, jobsFor_append, List.count_append]
  omega

omit [DecidableEq Tid] in
/-- At rest no job waits. -/
theorem AtRest.waiting (rest : AtRest s) (ordered : JobQueue.Ordered s.queues) (q : Q)
    (job : Job) : s.waiting q job = 0 := by
  have hbatch : s.timer.batch = [] := by
    rw [JobTimer.State.batch, gather, List.flatMap_eq_nil_iff]
    intro t _
    rw [rest.outside t]
    rfl
  have hannounces : s.queues.total (JobQueue.Frame.announces q job) = 0 := by
    rw [JobQueue.State.total]
    apply Finset.sum_eq_zero
    intro t _
    rw [rest.frames t, weigh_nil]
  have hunexecuted := JobQueue.unexecuted_of_idle rest.frames q
  have hitems : (s.queues.shared.queues q).jobs.items = [] := by
    have hsettled := (ordered.settled rest.frames rest.globalQueue q).2
    have horder := ordered.order q
    rw [hunexecuted, JobQueue.Shared.InOrder, List.append_nil, hsettled] at horder
    exact List.append_right_eq_self.mp horder
  rw [State.waiting, rest.items, hbatch, hannounces, hunexecuted, hitems]
  rfl

theorem timedJobs_conserved (h : (system H).Reachable Admitted s) : Conserved s := by
  have hordered := ordered_of_reachable h
  have hpassed := passed_of_reachable h
  constructor
  case jobs => exact fun q job alive => conserved_jobs h alive job
  case rest =>
    intro rest kept q alive
    rw [List.perm_iff_count]
    intro job
    have hjobs := conserved_jobs h alive job
    rw [rest.waiting hordered, kept] at hjobs
    rw [List.count_append]
    exact hjobs.symm
  case expired =>
    intro q hexpired
    have hquiet := hpassed.expired q hexpired
    rw [hordered.settled_of_unreferenced hquiet, List.perm_iff_count]
    intro job
    have happended := hpassed.appended q job
    rw [total_announces_of_unreferenced hquiet] at happended
    rw [List.count_append]
    omega
  case order => exact hordered.order
  case single =>
    intro q
    have hle := hordered.token.le_one q
    have hexecutes : s.queues.total (JobQueue.Frame.executes q) ≤
        s.queues.total (JobQueue.Frame.owns q) :=
      Finset.sum_le_sum fun t _ => weigh_mono fun frame _ => JobQueue.executes_le_owns q frame
    rw [JobQueue.State.tokens] at hle
    omega

/-- Two threads with a job queue 7. One pushes a job, and before it has found that it has to
execute the queue, the other distributes a job that it reserved. Then both jobs are in the
queue, and are started in one batch. -/
def deliveryEvents : List (Event (Fin 2) ℕ ℕ) :=
  [.queue (.call 0 (.push 7 1 false)), .timer (.reserve 1 100 50 (some 7) 2), .timer (.step 1),
    .queue (.step 0 120), .timer (.distribute 1 160), .timer (.step 1), .timer (.step 1),
    .queue (.step 1 160), .queue (.step 0 165), .queue (.step 1 170), .queue (.step 1 175),
    .timer (.step 1), .timer (.step 1), .queue (.step 0 180), .queue (.step 0 180),
    .queue (.step 0 180), .queue (.step 0 180), .queue (.endJob 0), .queue (.step 0 200),
    .queue (.endJob 0), .queue (.step 0 210)]

theorem exists_delivered : ∃ s : State timerItems (Fin 2) ℕ ℕ,
    (system timerItems).Reachable Admitted s ∧
    (s.queues.shared.executed 7 = [1, 2] ∧ s.direct 7 = [1] ∧
      s.jobsFor 7 s.timer.reserved = [2] ∧ s.jobsFor 7 s.due = [2] ∧
      s.timer.cleared = [] ∧ s.timer.expired 7 = false) := by
  have hany : ((system timerItems).run deliveryEvents {}).any (fun s => decide
      (s.queues.shared.executed 7 = [1, 2] ∧ s.direct 7 = [1] ∧
        s.jobsFor 7 s.timer.reserved = [2] ∧ s.jobsFor 7 s.due = [2] ∧
        s.timer.cleared = [] ∧ s.timer.expired 7 = false)) = true := by
    decide +kernel
  obtain ⟨s, hrun, hs⟩ := System.exists_of_run hany
  have hadmitted : (system timerItems).Along Admitted deliveryEvents {} :=
    System.along_of_check (by decide +kernel)
  have hinit : (system timerItems).init ({} : State timerItems (Fin 2) ℕ ℕ) :=
    ⟨rfl, ⟨rfl, fun _ => ⟨rfl, rfl⟩⟩, rfl⟩
  exact ⟨s, (System.Reachable.start hinit).run hadmitted hrun, hs⟩

/-- The run of both threads. -/
theorem timedJobs_conserved_delivered : ∃ s : State timerItems (Fin 2) ℕ ℕ,
    (system timerItems).Reachable Admitted s ∧ s.queues.shared.executed 7 = [1, 2] ∧
      Conserved s := by
  obtain ⟨s, hreach, hexecuted, -⟩ := exists_delivered
  exact ⟨s, hreach, hexecuted, timedJobs_conserved hreach⟩

omit [DecidableEq Job] in
/-- The deadline of an item is the sum that its `Reserve` made. -/
theorem executeTick_of_call (h : (system H).Reachable Admitted s)
    {item : TimerItem} (hitem : item ∈ s.timer.reserved) {id : ℕ} (hid : item.jobData = some id)
    {clock tickAfter : UInt64} (hcall : s.timer.calls id = some (clock, tickAfter)) :
    item.executeTick = clock + tickAfter :=
  ((JobTimer.timed_of_reachable (timer_reachable h)).items item hitem id hid).2 _ hcall

/-- A job is started no more often than client code pushed it and items of it fell due, and
an item falls due when the clock of a round has reached the sum that its `Reserve` made. -/
theorem timedJobs_due (h : (system H).Reachable Admitted s) (q : Q) :
    (s.queues.shared.executed q).Subperm (s.direct q ++ s.jobsFor q s.due) ∧
      ∀ item ∈ s.due, ∀ id clock tickAfter, item.jobData = some id →
        s.timer.calls id = some (clock, tickAfter) →
          ∃ round ∈ s.timer.rounds, clock + tickAfter ≤ round.now := by
  constructor
  · rw [List.subperm_ext_iff]
    intro job _
    have happended := (passed_of_reachable h).appended q job
    have hpushed := count_pushed (ordered_of_reachable h) q job
    have hdue := (timed_subperm_due h q).count_le job
    rw [List.count_append]
    omega
  · intro item hitem id clock tickAfter hid hcall
    obtain ⟨hreserved, hdue⟩ := List.mem_filter.mp hitem
    rw [← executeTick_of_call h hreserved hid hcall]
    exact of_decide_eq_true hdue

theorem timedJobs_due_delivered : ∃ s : State timerItems (Fin 2) ℕ ℕ,
    s.queues.shared.executed 7 = [1, 2] ∧ s.jobsFor 7 s.due = [2] ∧
      (s.queues.shared.executed 7).Subperm (s.direct 7 ++ s.jobsFor 7 s.due) := by
  obtain ⟨s, hreach, hexecuted, -, -, hdue, -⟩ := exists_delivered
  exact ⟨s, hexecuted, hdue, (timedJobs_due hreach 7).1⟩

end TimedJobs

end ServerCore
