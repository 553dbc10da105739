import ServerCore.TimedJobs.Parts

/-!
# What becomes of the jobs

A job that is passed to `Push`, by client code or by `Distribute`, is announced by the
frames of that call until its `jobs.Push` step, and pushed from then on; nothing else is
pushed (`passed_of_reachable`). From there the job queue takes over: it starts what was
pushed in that order.

A queue expires when neither the global queue nor a call refers to it. Nobody is then
responsible for it, so its counter is zero and all its jobs were started: no job is lost
with a queue (`Lives.settled`).
-/

namespace ServerCore

open Interleaving

namespace JobQueue

variable {Tid Q Job : Type} [DecidableEq Q] [DecidableEq Job]

/-- The frame is a `Push` of the job that has not appended it. -/
@[simp] def Frame.announces (q : Q) (job : Job) : Frame Q Job → ℕ
  | .push q' job' _ => if q' = q ∧ job' = job then 1 else 0
  | .pushItem q' job' _ _ => if q' = q ∧ job' = job then 1 else 0
  | _ => 0

/-- Client code passes the job to `Push`. -/
def Event.pushes (q : Q) (job : Job) : Event Tid Q Job → ℕ
  | .call _ (.push q' job' _) => if q' = q ∧ job' = job then 1 else 0
  | _ => 0

theorem step_announces {now end' : UInt64} {sh sh' : Shared Q Job} {tls tls' : Option Q}
    {frame : Frame Q Job} {frames : List (Frame Q Job)}
    (h : frame.Step now end' sh tls sh' tls' frames) (q : Q) (job : Job) :
    (sh'.pushed q).count job + weigh (Frame.announces q job) frames =
      (sh.pushed q).count job + frame.announces q job := by
  cases h with
  | pushItem q' job' pushOnly prevCount =>
      by_cases hq : q' = q
      · subst hq
        simp [Shared.pushJob, List.count_singleton]
      · simp [Shared.pushJob, Function.update_of_ne (Ne.symm hq), hq, Shared.setJobs]
  | push q' job' pushOnly => simp [Shared.setCount]
  -- The other steps announce nothing and append nothing.
  | _ => simp [Shared.setCount, Shared.setJobs, Shared.startJob, Shared.pushGlobal]

variable [DecidableEq Tid] [Fintype Tid] {s s' : State Tid Q Job} {e : Event Tid Q Job}

/-- What was announced or pushed grows by what client code passes to `Push`. -/
theorem next_announces (h : s.next e = some s') (q : Q) (job : Job) :
    (s'.shared.pushed q).count job + s'.total (Frame.announces q job) =
      (s.shared.pushed q).count job + s.total (Frame.announces q job) + e.pushes q job := by
  obtain ⟨t, c, frame, rfl, -, hentry, rfl⟩ | ⟨t, q', rfl, rfl⟩ |
    ⟨t, now, frame, rest, sh, tls, frames, rfl, hstack, hstep, rfl⟩ |
    ⟨t, q', tempJobs, i, rest, rfl, hstack, rfl⟩ := next_cases h
  · have htotal := total_setThread (s := s) (Frame.announces q job) t
      { s.threads t with stack := frame :: (s.threads t).stack }
    have hframe : frame.announces q job = (Event.call t c).pushes q job := by
      cases c <;> cases hentry <;> rfl
    rw [weigh_cons, hframe] at htotal
    rw [setThread_shared]
    omega
  · rfl
  · have hframe := step_announces hstep q job
    have htotal := total_setShared (s := s) (Frame.announces q job) sh t
      { s.threads t with stack := frames ++ rest, tlsCurrentJobQueue := tls }
    rw [hstack, weigh_cons, weigh_append] at htotal
    change (sh.pushed q).count job + _ = _ + _ + 0
    omega
  · have htotal := total_setThread (s := s) (Frame.announces q job) t
      { s.threads t with stack := .runJobs q' tempJobs (i + 1) :: rest }
    rw [hstack, weigh_cons, weigh_cons] at htotal
    rw [setThread_shared]
    change _ = _ + _ + 0
    change _ + (0 + _) = _ + (0 + _) at htotal
    omega

omit [DecidableEq Job] [Fintype Tid] [DecidableEq Tid] in
/-- A step on other queues does not bring up this one. -/
theorem step_unreferenced {now end' : UInt64} {sh sh' : Shared Q Job} {tls tls' : Option Q}
    {frame : Frame Q Job} {frames : List (Frame Q Job)}
    (h : frame.Step now end' sh tls sh' tls' frames) {q : Q} (hframe : frame.queue ≠ some q)
    (hglobal : some q ∉ sh.globalQueue.items) :
    some q ∉ sh'.globalQueue.items ∧ ∀ f ∈ frames, f.queue ≠ some q := by
  cases h with
  | pushGlobal q' | requeue q' =>
      refine ⟨fun hmem => ?_, fun f hf => (List.not_mem_nil hf).elim⟩
      obtain hmem | hmem := List.mem_append.mp hmem
      · exact hglobal hmem
      · exact hframe (List.mem_singleton.mp hmem).symm
  | @popNothing globalQueue hpop =>
      refine ⟨fun hmem => ?_, fun f hf => (List.not_mem_nil hf).elim⟩
      have hcount := LockQueue.count_pop hpop q
      have hzero : sh.globalQueue.items.count (some q) = 0 := List.count_eq_zero.mpr hglobal
      have hpos : 0 < globalQueue.items.count (some q) := List.count_pos_iff.mpr hmem
      omega
  | @popQueue q' globalQueue hpop =>
      have hcount := LockQueue.count_pop hpop q
      have hzero : sh.globalQueue.items.count (some q) = 0 := List.count_eq_zero.mpr hglobal
      have hne : (some q' : Option Q) ≠ some q := by
        intro heq
        rw [if_pos heq] at hcount
        omega
      refine ⟨fun hmem => ?_, fun f hf => ?_⟩
      · have hpos : 0 < globalQueue.items.count (some q) := List.count_pos_iff.mpr hmem
        omega
      · obtain rfl | hf := List.mem_cons.mp hf
        · exact hne
        · obtain rfl := List.mem_singleton.mp hf
          exact nofun
  | workLeft =>
      refine ⟨hglobal, fun f hf => ?_⟩
      obtain rfl := List.mem_singleton.mp hf
      exact nofun
  -- The other frames are about the same queue, and leave the global queue alone.
  | pushCounted | runLast | workOver =>
      exact ⟨hglobal, fun f hf => (List.not_mem_nil hf).elim⟩
  | _ =>
      refine ⟨hglobal, fun f hf => ?_⟩
      obtain rfl := List.mem_singleton.mp hf
      exact hframe

omit [DecidableEq Job] [Fintype Tid] in
/-- A queue that nothing refers to stays so until client code calls it. -/
theorem unreferenced_next (h : s.next e = some s') {q : Q} (hcallee : e.callee ≠ some q)
    (hq : s.Unreferenced q) : s'.Unreferenced q := by
  obtain ⟨hglobal, hframes⟩ := hq
  obtain ⟨t, c, frame, rfl, -, hentry, rfl⟩ | ⟨t, q', rfl, rfl⟩ |
    ⟨t, now, frame, rest, sh, tls, frames, rfl, hstack, hstep, rfl⟩ |
    ⟨t, q', tempJobs, i, rest, rfl, hstack, rfl⟩ := next_cases h
  · have hframe : frame.queue ≠ some q := by
      cases c <;> cases hentry <;> exact hcallee
    refine ⟨hglobal, fun u f hf => ?_⟩
    obtain rfl | hu := eq_or_ne u t
    · rw [setThread_self] at hf
      obtain rfl | hf := List.mem_cons.mp hf
      · exact hframe
      · exact hframes _ f hf
    · rw [setThread_other _ _ _ _ hu] at hf
      exact hframes u f hf
  · exact ⟨hglobal, hframes⟩
  · have hframe := hframes t frame (by rw [hstack]; exact List.mem_cons_self)
    obtain ⟨hglobal', hnew⟩ := step_unreferenced hstep hframe hglobal
    refine ⟨hglobal', fun u f hf => ?_⟩
    obtain rfl | hu := eq_or_ne u t
    · rw [setThread_self] at hf
      obtain hf | hf := List.mem_append.mp hf
      · exact hnew f hf
      · exact hframes _ f (by rw [hstack]; exact List.mem_cons_of_mem _ hf)
    · rw [setThread_other _ _ _ _ hu] at hf
      exact hframes u f hf
  · refine ⟨hglobal, fun u f hf => ?_⟩
    obtain rfl | hu := eq_or_ne u t
    · rw [setThread_self] at hf
      obtain rfl | hf := List.mem_cons.mp hf
      · exact hframes _ (.inJob q' tempJobs i) (by rw [hstack]; exact List.mem_cons_self)
      · exact hframes _ f (by rw [hstack]; exact List.mem_cons_of_mem _ hf)
    · rw [setThread_other _ _ _ _ hu] at hf
      exact hframes u f hf

omit [DecidableEq Job] [Fintype Tid] [DecidableEq Tid] in
theorem owns_of_queue {frame : Frame Q Job} {q : Q} (h : frame.queue ≠ some q) :
    frame.owns q = 0 := by
  cases frame <;> simp_all [Frame.queue]

omit [DecidableEq Job] [DecidableEq Tid] in
/-- All jobs of a queue that nothing refers to were started. -/
theorem Ordered.settled_of_unreferenced (h : Ordered s) {q : Q} (hq : s.Unreferenced q) :
    s.shared.executed q = s.shared.pushed q := by
  obtain ⟨hglobal, hframes⟩ := hq
  have hstacks : ∀ t, weigh (Frame.owns q) (s.threads t).stack = 0 := by
    intro t
    rw [weigh, List.sum_eq_zero_iff]
    intro n hn
    obtain ⟨frame, hframe, rfl⟩ := List.mem_map.mp hn
    exact owns_of_queue (hframes t frame hframe)
  have hzero : (s.shared.queues q).jobCount = 0 := by
    have htoken := h.token q
    rw [State.tokens, Shared.occurrences, List.count_eq_zero.mpr hglobal, State.total,
      Finset.sum_eq_zero fun t _ => hstacks t] at htoken
    by_contra hne
    rw [if_neg hne] at htoken
    cases htoken
  have hout : s.outstanding q = 0 := by
    have hcount := h.count q
    rw [hzero] at hcount
    exact (Word.ofNat_inj (by decide) (h.bound q) hcount).symm
  have hempty : (s.shared.queues q).jobs.items = [] := by
    apply List.eq_nil_of_length_eq_zero
    rw [State.outstanding, State.queued] at hout
    omega
  have hnone : s.unexecuted q = [] := by
    rw [State.unexecuted, gather, List.flatMap_eq_nil_iff]
    intro t _
    exact flatMap_unexecuted_of_weigh (hstacks t)
  have horder := h.order q
  rw [hnone, Shared.InOrder, hempty, List.append_nil, List.append_nil] at horder
  exact List.map_injective_iff.mpr (Option.some_injective Job) horder

end JobQueue

namespace TimedJobs

variable {Tid Q Job : Type} {H : PriorityQueue TimerItem TimerItem.less}
variable [DecidableEq Q]

/-- The jobs that `Distribute` passed to a queue, in the order of its calls of `Push`. -/
def State.timed (s : State H Tid Q Job) (q : Q) : List Job :=
  (s.timer.pushes.filter fun call => call.queue = q).map JobTimer.PushCall.job

variable [DecidableEq Tid] {s s' : State H Tid Q Job}

omit [DecidableEq Tid] [DecidableEq Q] in
theorem record_pushes (s : JobTimer.State H Tid Q Job) (outcome : JobTimer.Outcome Q Job) :
    (s.record outcome).pushes = s.pushes := by
  unfold JobTimer.State.record
  split <;> rfl

/-- The calls of `Push` that the timer made grow by the delivery of each step. -/
theorem pushes_next {e : JobTimer.Event Tid Q Job} {timer : JobTimer.State H Tid Q Job}
    (h : s.timer.next e = some timer) :
    timer.pushes = s.timer.pushes ++ (s.delivery e).toList.map fun call =>
      { queue := call.2.1, job := call.2.2, pushOnly := true } := by
  obtain ⟨-, hstep⟩ := JobTimer.step_of_next h
  cases hstep with
  | @deliver t item tempItems data here found =>
      have hpushes : ((s.timer.deliver item data).setPc t (.recycle item tempItems)).pushes =
          (s.timer.pushJob (JobTimer.lock s.timer.expired data.owner) data.job).pushes :=
        record_pushes _ _
      rw [hpushes]
      simp only [State.delivery, here, found, Option.bind_some]
      cases JobTimer.lock s.timer.expired data.owner with
      | none => exact (List.append_nil _).symm
      | some q => rfl
  | @dangling t item tempItems here lost =>
      simp only [State.delivery, here, lost, Option.bind_none]
      exact (List.append_nil _).symm
  | @recycle t item tempItems here =>
      obtain ⟨pool, returned, crashed, heq⟩ := JobTimer.pushJobData_eq s.timer item.jobData
      rw [heq]
      simp only [State.delivery, here]
      exact (List.append_nil _).symm
  | clear =>
      obtain ⟨items, pool, returned, crashed, popped, heq, -⟩ := JobTimer.clear_eq s.timer
      rw [heq]
      exact (List.append_nil _).symm
  | pushItem here | collect here | leave here =>
      simp only [State.delivery, here]
      exact (List.append_nil _).symm
  | _ => exact (List.append_nil _).symm

/-- The delivery passes the job to the queue. -/
def passes (q : Q) (job : Job) [DecidableEq Job] : Option (Tid × Q × Job) → ℕ
  | none => 0
  | some (_, q', job') => if q' = q ∧ job' = job then 1 else 0

variable [DecidableEq Job]

theorem count_timed_next {e : JobTimer.Event Tid Q Job} {timer : JobTimer.State H Tid Q Job}
    (h : s.timer.next e = some timer) (hs' : s'.timer = timer) (q : Q) (job : Job) :
    (s'.timed q).count job = (s.timed q).count job + passes q job (s.delivery e) := by
  rw [State.timed, hs', pushes_next h, List.filter_append, List.map_append, List.count_append]
  congr 1
  obtain _ | ⟨t, q', job'⟩ := s.delivery e
  · rfl
  · by_cases hq : q' = q
    · subst hq
      simp [passes, List.count_singleton]
    · simp [passes, hq]

variable [Fintype Tid]

/-- What was passed to `Push` was appended, or its call is about to. -/
structure Passed (s : State H Tid Q Job) : Prop where
  appended : ∀ q job, (s.queues.shared.pushed q).count job +
    s.queues.total (JobQueue.Frame.announces q job) =
      (s.direct q).count job + (s.timed q).count job
  expired : ∀ q, s.timer.expired q = true → s.queues.Unreferenced q

theorem Passed.start (h : (system H).init s) : Passed s := by
  obtain ⟨htimer, ⟨hshared, hthreads⟩, hdirect⟩ := h
  refine ⟨fun q job => ?_, fun q hexpired => ?_⟩
  · rw [JobQueue.State.total, State.timed, hshared, htimer, hdirect]
    simp [hthreads]
  · rw [htimer] at hexpired
    cases hexpired

omit [DecidableEq Tid] [Fintype Tid] in
theorem count_recordDirect (direct : Q → List Job) (e : JobQueue.Event Tid Q Job) (q : Q)
    (job : Job) : (State.recordDirect direct e q).count job =
      (direct q).count job + e.pushes q job := by
  cases e with
  | call t c =>
      cases c with
      | push q' job' pushOnly =>
          change (Function.update direct q' (direct q' ++ [job']) q).count job = _
          by_cases hq : q' = q
          · subst hq
            simp [JobQueue.Event.pushes, List.count_singleton]
          · simp [JobQueue.Event.pushes, Function.update_of_ne (Ne.symm hq), hq]
      | _ => rfl
  | _ => rfl

omit [DecidableEq Job] [Fintype Tid] in
theorem expired_next {e : JobTimer.Event Tid Q Job} {timer : JobTimer.State H Tid Q Job}
    (h : s.timer.next e = some timer) {q : Q} (hexpired : timer.expired q = true) :
    s.timer.expired q = true ∨ e = .expire q := by
  obtain ⟨-, hstep⟩ := JobTimer.step_of_next h
  cases hstep with
  | @expire q' =>
      change Function.update s.timer.expired q' true q = true at hexpired
      by_cases hq : q = q'
      · exact .inr (by rw [hq])
      · rw [Function.update_of_ne hq] at hexpired
        exact .inl hexpired
  | @deliver t item tempItems data =>
      refine .inl (Eq.trans (congrFun ?_ q).symm hexpired)
      unfold JobTimer.State.deliver JobTimer.State.record JobTimer.State.pushJob
      split <;> split <;> rfl
  | @recycle t item tempItems =>
      obtain ⟨pool, returned, crashed, heq⟩ := JobTimer.pushJobData_eq s.timer item.jobData
      rw [heq] at hexpired
      exact .inl hexpired
  | clear =>
      obtain ⟨items, pool, returned, crashed, popped, heq, -⟩ := JobTimer.clear_eq s.timer
      rw [heq] at hexpired
      exact .inl hexpired
  | _ => exact .inl hexpired

omit [DecidableEq Job] [Fintype Tid] in
/-- For the job queues a delivery is a call of `Push` by a thread in client code. -/
theorem deliver_next {e : JobTimer.Event Tid Q Job} (hready : s.TimerReady e) {t : Tid} {q : Q}
    {job : Job} (hcall : s.delivery e = some (t, q, job)) :
    s.queues.next (.call t (.push q job true)) = some (s.deliver (s.delivery e)).queues := by
  obtain ⟨item, tempItems, data, rfl, -⟩ := delivery_cases hcall
  have hclient : (s.queues.threads t).inClient = true := hready.1 t rfl
  change (if _ then some _ else none) = _
  rw [if_pos hclient, hcall, deliver_some]

theorem Passed.next {e : Event Tid Q Job} (h : Passed s) (hnext : s.next e = some s') :
    Passed s' := by
  obtain ⟨e', timer, rfl, hready, htimer, rfl⟩ | ⟨e', queues, rfl, hready, hqueues, rfl⟩ :=
    next_cases hnext
  · constructor
    case appended =>
      intro q job
      have happended := h.appended q job
      have htimed : (State.timed { s.deliver (s.delivery e') with timer } q).count job = _ :=
        count_timed_next htimer rfl q job
      rw [htimed, ← Nat.add_assoc, deliver_direct, ← happended]
      cases hcall : s.delivery e' with
      | none => rfl
      | some call =>
          obtain ⟨t, q', job'⟩ := call
          have hpush := deliver_next hready hcall
          rw [hcall] at hpush
          exact JobQueue.next_announces hpush q job
    case expired =>
      intro q hexpired
      change (s.deliver (s.delivery e')).queues.Unreferenced q
      obtain hexpired | rfl := expired_next htimer hexpired
      · have hq := h.expired q hexpired
        cases hcall : s.delivery e' with
        | none => exact hq
        | some call =>
            obtain ⟨t, q', job'⟩ := call
            have hpush := deliver_next hready hcall
            rw [hcall] at hpush
            refine JobQueue.unreferenced_next hpush ?_ hq
            rintro ⟨⟩
            rw [delivery_alive hcall] at hexpired
            cases hexpired
      · exact hready.2
  · constructor
    case appended =>
      intro q job
      have happended := h.appended q job
      change _ = (State.recordDirect s.direct e' q).count job + (s.timed q).count job
      rw [JobQueue.next_announces hqueues, count_recordDirect, happended]
      omega
    case expired =>
      intro q hexpired
      refine JobQueue.unreferenced_next hqueues ?_ (h.expired q hexpired)
      intro hcallee
      rw [hready.2 q hcallee] at hexpired
      cases hexpired

theorem passed_of_reachable (h : (system H).Reachable Admitted s) : Passed s := by
  apply h.invariant (I := Passed)
  · exact fun s hs => Passed.start hs
  · exact fun s e s' hs _ hnext => hs.next hnext

omit [DecidableEq Job] in
theorem ordered_of_reachable (h : (system H).Reachable Admitted s) :
    JobQueue.Ordered s.queues := by
  apply (queues_reachable h).invariant (I := JobQueue.Ordered)
  · exact fun s hs => JobQueue.Ordered.initial hs
  · exact fun s e s' hs hok hnext => hs.next hok.1 hok.2.1 hok.2.2 hnext

end TimedJobs

end ServerCore
