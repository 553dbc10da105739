import ServerCore.JobTimer.Rounds

/-!
# When a reserved job is delivered

`Reserve` computes the deadline as a sum of 64-bit words. An item keeps this sum
(`Timed`), and a round takes only items whose sum has passed, so a job is never early
while the sum does not wrap. When it wraps, a `Distribute` whose clock reads the wrapped
sum delivers the job.
-/

namespace ServerCore

namespace JobTimer

open Interleaving

variable {Tid Q Job : Type} {H : PriorityQueue TimerItem TimerItem.less}

/-- No job that was reserved at `clock` with `tickAfter` was pushed before their sum. -/
def State.NotEarly (s : State H Tid Q Job) (clock tickAfter : UInt64) : Prop :=
  ∀ round ∈ s.rounds, ∀ outcome ∈ round.outcomes, ∀ id queue,
    outcome.item.jobData = some id → s.calls id = some (clock, tickAfter) →
    outcome.ownerJobQueue = some queue → clock.toNat + tickAfter.toNat ≤ round.now.toNat

/-- The `JobData` of a `Reserve` call is on an item with the sum of its two words. -/
structure Timed (s : State H Tid Q Job) : Prop where
  fresh : ∀ id, s.popped ≤ id → s.calls id = none ∧ s.handed id = false
  own : ∀ id call, s.calls id = some call → s.handed id = false
  waiting : ∀ t executeTick id, s.threads t = .reserve executeTick id →
    id < s.popped ∧ ∃ call, s.calls id = some call ∧ executeTick = call.1 + call.2
  items : ∀ item ∈ s.reserved, ∀ id, item.jobData = some id →
    id < s.popped ∧ ∀ call, s.calls id = some call → item.executeTick = call.1 + call.2

namespace Timed

variable {s s' : State H Tid Q Job}

/-- Nothing that the deadlines depend on has changed. -/
theorem frame (h : Timed s) (popped : s'.popped = s.popped) (handed : s'.handed = s.handed)
    (calls : s'.calls = s.calls) (reserved : s'.reserved = s.reserved)
    (threads : ∀ t executeTick id, s'.threads t = .reserve executeTick id →
      s.threads t = .reserve executeTick id) : Timed s' := by
  constructor
  · rw [popped, calls, handed]
    exact h.fresh
  · rw [calls, handed]
    exact h.own
  · intro t executeTick id here
    rw [popped, calls]
    exact h.waiting t executeTick id (threads t executeTick id here)
  · rw [popped, calls, reserved]
    exact h.items

variable [DecidableEq Tid] {t : Tid} {pc : Pc}

omit [DecidableEq Tid] in
theorem start : Timed ({} : State H Tid Q Job) := by
  refine ⟨fun id _ => ⟨rfl, rfl⟩, fun id call hcall => ?_, fun t executeTick id here => ?_,
    fun item hitem => ?_⟩
  · cases hcall
  · cases here
  · cases hitem

/-- A thread that moves to a place outside `Reserve`. -/
theorem setPc (h : Timed s) (outside : ∀ executeTick id, pc ≠ .reserve executeTick id) :
    Timed (s.setPc t pc) := by
  refine h.frame rfl rfl rfl rfl ?_
  intro u executeTick id here
  by_cases hu : u = t
  · subst hu
    simp only [State.setPc, Function.update_self] at here
    exact absurd here (outside executeTick id)
  · simpa [State.setPc, hu] using here

omit [DecidableEq Tid] in
theorem pushItem (h : Timed s) {timerItem : TimerItem}
    (hitem : ∀ id, timerItem.jobData = some id →
      id < s.popped ∧ ∀ call, s.calls id = some call → timerItem.executeTick = call.1 + call.2) :
    Timed (s.pushItem timerItem) := by
  refine ⟨h.fresh, h.own, h.waiting, fun item hmem => ?_⟩
  obtain hmem | hmem := List.mem_append.mp hmem
  · exact h.items item hmem
  · obtain rfl := List.mem_singleton.mp hmem
    exact hitem

/-- `Reserve` enters the sum of the clock and the delay. -/
theorem reserve (h : Timed s) (clock tickAfter : UInt64) (owner : Option Q) (job : Job) :
    Timed ((s.popForReserve clock tickAfter owner job).setPc t
      (.reserve (clock + tickAfter) s.popped)) := by
  have hold : ∀ id, id < s.popped →
      Function.update s.calls s.popped (some (clock, tickAfter)) id = s.calls id := by
    intro id hid
    exact Function.update_of_ne (Nat.ne_of_lt hid) _ _
  have hself : Function.update s.calls s.popped (some (clock, tickAfter)) s.popped =
      some (clock, tickAfter) := Function.update_self ..
  constructor
  case fresh =>
    intro id hid
    change s.popped + 1 ≤ id at hid
    refine ⟨?_, (h.fresh id (by omega)).2⟩
    change Function.update s.calls s.popped (some (clock, tickAfter)) id = none
    rw [Function.update_of_ne (by omega)]
    exact (h.fresh id (by omega)).1
  case own =>
    intro id call hcall
    change Function.update s.calls s.popped (some (clock, tickAfter)) id = some call at hcall
    by_cases hid : id = s.popped
    · subst hid
      exact (h.fresh s.popped (le_refl _)).2
    · rw [Function.update_of_ne hid] at hcall
      exact h.own id call hcall
  case waiting =>
    intro u executeTick id here
    change id < s.popped + 1 ∧ ∃ call,
      Function.update s.calls s.popped (some (clock, tickAfter)) id = some call ∧ _
    by_cases hu : u = t
    · subst hu
      simp only [State.setPc, Function.update_self, Pc.reserve.injEq] at here
      obtain ⟨rfl, rfl⟩ := here
      exact ⟨Nat.lt_succ_self _, _, hself, rfl⟩
    · simp only [State.setPc, Function.update_of_ne hu] at here
      obtain ⟨hlt, call, hcall, hsum⟩ := h.waiting u executeTick id here
      exact ⟨Nat.lt_succ_of_lt hlt, call, (hold id hlt).trans hcall, hsum⟩
  case items =>
    intro item hitem id hid
    obtain ⟨hlt, hsum⟩ := h.items item hitem id hid
    refine ⟨Nat.lt_succ_of_lt hlt, fun call hcall => hsum call ?_⟩
    exact (hold id hlt).symm.trans hcall

omit [DecidableEq Tid] in
theorem popForClient (h : Timed s) (owner : Option Q) (job : Job) :
    Timed (s.popForClient owner job) := by
  have hnew := (h.fresh s.popped (le_refl _)).1
  constructor
  case fresh =>
    intro id hid
    change s.popped + 1 ≤ id at hid
    refine ⟨(h.fresh id (by omega)).1, ?_⟩
    change Function.update s.handed s.popped true id = false
    rw [Function.update_of_ne (by omega)]
    exact (h.fresh id (by omega)).2
  case own =>
    intro id call hcall
    change s.calls id = some call at hcall
    change Function.update s.handed s.popped true id = false
    rw [Function.update_of_ne]
    · exact h.own id call hcall
    · rintro rfl
      rw [hnew] at hcall
      cases hcall
  case waiting =>
    intro u executeTick id here
    obtain ⟨hlt, hcall⟩ := h.waiting u executeTick id here
    exact ⟨Nat.lt_succ_of_lt hlt, hcall⟩
  case items =>
    intro item hitem id hid
    obtain ⟨hlt, hsum⟩ := h.items item hitem id hid
    exact ⟨Nat.lt_succ_of_lt hlt, hsum⟩

variable [Fintype Tid] [DecidableEq Q] {e : Event Tid Q Job}

theorem step (h : Timed s) (tracks : Tracks s) (hstep : Step s e s') : Timed s' := by
  cases hstep with
  | reserve => exact h.reserve _ _ _ _
  | popJobData => exact h.popForClient _ _
  | reserveItem handed =>
      apply h.pushItem
      intro id hid
      rw [hid, Option.all_some] at handed
      refine ⟨?_, fun call hcall => ?_⟩
      · by_contra hnew
        have hfresh := (h.fresh id (Nat.not_lt.mp hnew)).2
        rw [hfresh] at handed
        cases handed
      · rw [h.own id call hcall] at handed
        cases handed
  | pushItem here =>
      refine Timed.setPc (h.pushItem fun id hid => ?_) fun _ _ heq => (by cases heq)
      cases hid
      obtain ⟨hlt, call, hcall, hsum⟩ := h.waiting _ _ _ here
      refine ⟨hlt, fun call' hcall' => ?_⟩
      rw [hcall] at hcall'
      cases hcall'
      exact hsum
  | refused => exact h
  | enter =>
      refine Timed.setPc (h.frame rfl rfl rfl rfl fun _ _ _ here => here) fun _ _ heq => ?_
      cases heq
  | collect =>
      refine Timed.setPc (h.frame rfl rfl rfl rfl fun _ _ _ here => here) fun _ _ heq => ?_
      cases heq
  | @deliver t item tempItems data here =>
      obtain ⟨round, rounds, hrounds, -, -⟩ := tracks.current t (by rw [here]; trivial)
      rw [Tracks.deliver_eq hrounds]
      refine Timed.setPc (h.frame rfl rfl rfl rfl fun _ _ _ here => here) fun _ _ heq => ?_
      cases heq
  | dangling => exact h.frame rfl rfl rfl rfl fun _ _ _ here => here
  | @recycle t item tempItems here =>
      obtain ⟨pool, returned, crashed, heq⟩ := pushJobData_eq s item.jobData
      rw [heq]
      refine Timed.setPc (h.frame rfl rfl rfl rfl fun _ _ _ here => here) fun _ _ heq => ?_
      cases heq
  | leave =>
      refine Timed.setPc (h.frame rfl rfl rfl rfl fun _ _ _ here => here) fun _ _ heq => ?_
      cases heq
  | clear =>
      obtain ⟨items, pool, returned, crashed, popped, heq, -, -⟩ := clear_eq s
      rw [heq]
      exact h.frame rfl rfl rfl rfl fun _ _ _ here => here
  | expire => exact h.frame rfl rfl rfl rfl fun _ _ _ here => here

end Timed

section Runs

variable [Fintype Tid] [DecidableEq Tid] [DecidableEq Q]

theorem timed_of_reachable {ok : State H Tid Q Job → Event Tid Q Job → Prop}
    {s : State H Tid Q Job} (h : (system H).Reachable ok s) : Timed s := by
  induction h with
  | start hs =>
      cases hs
      exact Timed.start
  | step hreach _ hnext ih => exact ih.step (tracks_of_reachable hreach) (step_of_next hnext).2

omit [DecidableEq Tid] [DecidableEq Q] in
/-- An item that a round dealt with was reserved, and its deadline had passed. -/
theorem Tracks.due {s : State H Tid Q Job} (h : Tracks s) {round : Round Q Job}
    (hround : round ∈ s.rounds) {outcome : Outcome Q Job} (houtcome : outcome ∈ round.outcomes) :
    outcome.item ∈ s.reserved ∧ outcome.item.executeTick ≤ round.now := by
  have hhandled : outcome.item ∈ round.handled := List.mem_map_of_mem houtcome
  constructor
  · apply h.places.mem_iff.mpr
    refine List.mem_append_right _ (List.mem_append_right _ (List.mem_append_left _ ?_))
    exact List.mem_flatMap.mpr ⟨round, hround, hhandled⟩
  · have hexact := h.exact round hround
    have htaken := hexact.taken.mem_iff.mp (hexact.inOrder.subset hhandled)
    exact of_decide_eq_true (List.mem_filter.mp htaken).2

/-- A job was reserved and its item is alone in the queue. -/
structure Waiting (s : State H Tid Q Job) (t : Tid) (data : JobData Q Job)
    (clock tickAfter : UInt64) : Prop where
  reachable : (system H).Reachable System.anyStep s
  items : (H.toList s.items).Perm [{ executeTick := clock + tickAfter, jobData := some 0 }]
  found : s.pool 0 = some data
  call : s.calls 0 = some (clock, tickAfter)
  expired : s.expired = fun _ => false
  idle : s.threads t = .idle
  opened : s.distributing = false
  running : s.crashed = false

omit [Fintype Tid] in
theorem exists_waiting (t : Tid) (data : JobData Q Job) (clock tickAfter : UInt64) :
    ∃ s : State H Tid Q Job, Waiting s t data clock tickAfter := by
  have hreserve : Step ({} : State H Tid Q Job) (.reserve t clock tickAfter data.owner data.job) _ :=
    .reserve rfl
  have hstart : (system H).Reachable System.anyStep ({} : State H Tid Q Job) := .start rfl
  have hreach := hstart.step trivial (next_of_step hreserve rfl)
  have hpush := Step.pushItem (setPc_self
    (State.popForReserve ({} : State H Tid Q Job) clock tickAfter data.owner data.job) t
    (.reserve (clock + tickAfter) 0))
  refine ⟨_, hreach.step trivial (next_of_step hpush rfl), ?_, ?_, ?_, rfl, setPc_self .., rfl, rfl⟩
  · have hpushed := H.toList_push H.empty
      { executeTick := clock + tickAfter, jobData := some 0 }
    rwa [H.toList_empty] at hpushed
  · change Function.update (fun _ : ℕ => none) 0 (some data) 0 = some data
    exact Function.update_self ..
  · change Function.update (fun _ : ℕ => none) 0 (some (clock, tickAfter)) 0 = some (clock, tickAfter)
    exact Function.update_self ..

omit [Fintype Tid] in
/-- The block of `Distribute` takes an item that is alone in the queue and due. -/
theorem reachable_collect {s : State H Tid Q Job} (h : (system H).Reachable System.anyStep s)
    {t : Tid} {now : UInt64} {item : TimerItem} (here : s.threads t = .collect now)
    (running : s.crashed = false) (hitems : (H.toList s.items).Perm [item])
    (hdue : item.executeTick ≤ now) : ∃ items round, round.now = now ∧
      (system H).Reachable System.anyStep
        (({ s with items, rounds := round :: s.rounds } : State H Tid Q Job).setPc t
          (.distribute [item])) := by
  obtain ⟨items, round, hcollect, hnow, hpresent, -, -, -, hexact⟩ := collect_exact s now
  have htaken : round.taken = [item] := by
    have hfilter := hitems.filter fun item => item.executeTick ≤ now
    have hall : [item].filter (fun item => item.executeTick ≤ now) = [item] := by
      simp [hdue]
    rw [hall] at hfilter
    have hperm := hexact.taken
    rw [hpresent, hnow] at hperm
    exact List.perm_singleton.mp (hperm.trans hfilter)
  have hstep := next_of_step (Step.collect here) running
  rw [hcollect, htaken] at hstep
  exact ⟨items, round, hnow, h.step trivial hstep⟩

omit [Fintype Tid] in
/-- A run in which one job is reserved and distributed at the sum of the words. -/
theorem exists_delivery (t : Tid) (queue : Q) (job : Job) (clock tickAfter : UInt64) :
    ∃ s : State H Tid Q Job, (system H).Reachable System.anyStep s ∧
      ∃ round ∈ s.rounds, round.now = clock + tickAfter ∧ ∃ outcome ∈ round.outcomes,
        outcome.item.jobData = some 0 ∧ s.calls 0 = some (clock, tickAfter) ∧
          outcome.ownerJobQueue = some queue := by
  obtain ⟨s, hs⟩ := exists_waiting (H := H) t ⟨some queue, job⟩ clock tickAfter
  have henter : Step s (.distribute t (clock + tickAfter)) _ := .enter hs.idle hs.opened
  have hentered := hs.reachable.step trivial (next_of_step henter hs.running)
  obtain ⟨items, round, hnow, hcollected⟩ := reachable_collect hentered (setPc_self ..) hs.running
    hs.items (UInt64.le_refl _)
  have hlast := hcollected.step trivial
    (next_of_step (Step.deliver (setPc_self ..) hs.found) hs.running)
  rw [Tracks.deliver_eq rfl] at hlast
  refine ⟨_, hlast, _, List.mem_cons_self, hnow, _, List.mem_append_right _
    (List.mem_singleton_self _), rfl, hs.call, ?_⟩
  have hexpired := hs.expired
  change lock s.expired (some queue) = some queue
  simp [lock, hexpired]

/-- A job is never early exactly when the sum of the clock and the delay fits. -/
theorem timerJob_notEarly_iff [Inhabited Tid] [Inhabited Q] [Inhabited Job]
    (clock tickAfter : UInt64) :
    (∀ s : State H Tid Q Job, (system H).Reachable System.anyStep s →
      s.NotEarly clock tickAfter) ↔ clock.toNat + tickAfter.toNat < 2 ^ 64 := by
  constructor
  · intro hall
    by_contra hwraps
    obtain ⟨s, hreach, round, hround, hnow, outcome, houtcome, hid, hcall, howner⟩ :=
      exists_delivery (default : Tid) (default : Q) (default : Job) clock tickAfter
    have hle := hall s hreach round hround outcome houtcome 0 default hid hcall howner
    have hsum := UInt64.toNat_add clock tickAfter
    have := clock.toNat_lt
    rw [hnow] at hle
    omega
  · intro hfits s hreach round hround outcome houtcome id queue hid hcall _
    obtain ⟨hreserved, hdue⟩ := (tracks_of_reachable hreach).due hround houtcome
    have hsum := ((timed_of_reachable hreach).items _ hreserved id hid).2 _ hcall
    rw [hsum, UInt64.le_iff_toNat_le, UInt64.toNat_add, Nat.mod_eq_of_lt hfits] at hdue
    exact hdue

/-- A delay of 2^64 - 1, reserved at clock 1, is delivered at clock 0. -/
theorem timerJob_early :
    ¬∀ s : State timerItems (Fin 1) Unit Unit, (system timerItems).Reachable System.anyStep s →
      ∀ clock tickAfter, s.NotEarly clock tickAfter := by
  intro hall
  obtain ⟨s, hreach, round, hround, hnow, outcome, houtcome, hid, hcall, howner⟩ :=
    exists_delivery (H := timerItems) (0 : Fin 1) () () 1 0xFFFFFFFFFFFFFFFF
  have hle := hall s hreach 1 0xFFFFFFFFFFFFFFFF round hround outcome houtcome 0 () hid hcall
    howner
  rw [hnow] at hle
  revert hle
  decide

end Runs

end JobTimer

end ServerCore
