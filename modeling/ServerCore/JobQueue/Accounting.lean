import ServerCore.Interleaving.Threads
import ServerCore.JobQueue.Basic

/-!
# What `jobCount` counts

A job is counted from its `fetch_add` until the `fetch_sub` of the batch it was
popped into. In between it is announced by a push that has not appended it yet,
lies in the queue, or belongs to a popped batch. `outstanding` adds these up.

Every step except a `ClearJob` of a non-empty queue changes the counter and
`outstanding` by the same amounts (`next_ledger`), so they agree modulo the word
size. `ClearJob` discards jobs without touching the counter, and from then on the
counter stays too high.
-/

namespace ServerCore

namespace JobQueue

open Interleaving

variable {Tid Q Job : Type} [DecidableEq Q]

/-- A push that has counted its job but not appended it. -/
@[simp] def Frame.pending (q : Q) : Frame Q Job → ℕ
  | .pushItem q' _ _ _ => if q' = q then 1 else 0
  | _ => 0

/-- The jobs of a popped batch that is not yet subtracted. -/
@[simp] def Frame.batch (q : Q) : Frame Q Job → ℕ
  | .runJobs q' tempJobs _ => if q' = q then tempJobs.length else 0
  | .inJob q' tempJobs _ => if q' = q then tempJobs.length else 0
  | _ => 0

@[simp] def Frame.claims (q : Q) (frame : Frame Q Job) : ℕ := frame.pending q + frame.batch q

namespace State

variable [Fintype Tid]

/-- The weight of all frames of all threads. -/
def total (weight : Frame Q Job → ℕ) (s : State Tid Q Job) : ℕ :=
  ∑ t, weigh weight (s.threads t).stack

def queued (q : Q) (s : State Tid Q Job) : ℕ := (s.shared.queues q).jobs.items.length

def outstanding (q : Q) (s : State Tid Q Job) : ℕ :=
  s.total (Frame.pending q) + s.queued q + s.total (Frame.batch q)

end State

section Totals

variable [Fintype Tid] {s : State Tid Q Job}

omit [DecidableEq Q] in
/-- Replacing a thread's stack trades its weight. -/
theorem total_setThread [DecidableEq Tid] (weight : Frame Q Job → ℕ) (t : Tid)
    (th : Thread Q Job) :
    (s.setThread t th).total weight + weigh weight (s.threads t).stack =
      s.total weight + weigh weight th.stack :=
  sum_update (fun th : Thread Q Job => weigh weight th.stack) s.threads t th

omit [DecidableEq Q] in
theorem total_setShared [DecidableEq Tid] (weight : Frame Q Job → ℕ) (sh : Shared Q Job)
    (t : Tid) (th : Thread Q Job) :
    ({ s with shared := sh }.setThread t th).total weight + weigh weight (s.threads t).stack =
      s.total weight + weigh weight th.stack :=
  total_setThread weight t th

omit [Fintype Tid] [DecidableEq Q] in
theorem queued_setThread [DecidableEq Tid] (sh : Shared Q Job) (t : Tid) (th : Thread Q Job)
    (q : Q) : ({ s with shared := sh }.setThread t th).queued q =
      (sh.queues q).jobs.items.length := rfl

omit [DecidableEq Q] in
theorem weigh_le_total (weight : Frame Q Job → ℕ) (t : Tid) :
    weigh weight (s.threads t).stack ≤ s.total weight :=
  weight_le_sum (fun t => weigh weight (s.threads t).stack) t

omit [DecidableEq Q] in
theorem total_of_idle (hidle : ∀ t, (s.threads t).stack = []) (weight : Frame Q Job → ℕ) :
    s.total weight = 0 := by
  apply Finset.sum_eq_zero
  intro t _
  rw [hidle t]
  rfl

omit [DecidableEq Q] in
theorem total_initial (hs : s.Initial) (weight : Frame Q Job → ℕ) : s.total weight = 0 :=
  total_of_idle (fun t => (hs.2 t).1) weight

theorem outstanding_initial (hs : s.Initial) (q : Q) : s.outstanding q = 0 := by
  rw [State.outstanding, total_initial hs, total_initial hs, State.queued, hs.1]
  rfl

theorem outstanding_eq (q : Q) :
    s.outstanding q = s.queued q + s.total (Frame.claims q) := by
  have hsum : s.total (Frame.claims q) = s.total (Frame.pending q) + s.total (Frame.batch q) := by
    rw [State.total, State.total, State.total, ← Finset.sum_add_distrib]
    exact Finset.sum_congr rfl fun t _ => weigh_add _ _ _
  rw [State.outstanding, hsum]
  omega

end Totals

/-- No queue of jobs holds a null pointer. -/
def Shared.NonNull (sh : Shared Q Job) : Prop := ∀ q, (sh.queues q).jobs.NonNull

theorem add_zero_sub_zero (n : Int32) : n = n + Int32.ofNat 0 - Int32.ofNat 0 := by
  change n = n + 0 - 0
  rw [Int32.add_zero, Int32.sub_zero]

theorem sub_eq_add_zero_sub (n m : Int32) : n - m = n + Int32.ofNat 0 - m := by
  change n - m = n + 0 - m
  rw [Int32.add_zero]

/-- How a frame's step moves the counter of `q` and the jobs it accounts for. Only
`fetch_add` adds, and only `fetch_sub` takes away. -/
theorem step_ledger {now end' : UInt64} {sh sh' : Shared Q Job} {tls tls' : Option Q}
    {frame : Frame Q Job} {frames : List (Frame Q Job)} (nonNull : sh.NonNull)
    (h : frame.Step now end' sh tls sh' tls' frames) (q : Q) :
    ∃ plus minus : ℕ,
      (sh'.queues q).jobCount =
        (sh.queues q).jobCount + Int32.ofNat plus - Int32.ofNat minus ∧
      weigh (Frame.claims q) frames + (sh'.queues q).jobs.items.length + minus =
        frame.claims q + (sh.queues q).jobs.items.length + plus ∧
      (plus = 0 ∨ plus = 1 ∧ ∃ job pushOnly, frame = .push q job pushOnly) := by
  cases h with
  | push q' job pushOnly =>
      by_cases hq : q = q'
      · subst hq
        refine ⟨1, 0, ?_, ?_, .inr ⟨rfl, job, pushOnly, rfl⟩⟩
        · rw [setCount_self]
          exact (Int32.sub_zero _).symm
        · simp
          omega
      · refine ⟨0, 0, ?_, ?_, .inl rfl⟩
        · rw [setCount_other _ _ _ _ hq]
          exact add_zero_sub_zero _
        · simp [setCount_other _ _ _ _ hq, Ne.symm hq]
  | pushItem q' job pushOnly prevCount =>
      refine ⟨0, 0, ?_, ?_, .inl rfl⟩
      · rw [pushJob_queues, setJobs_jobCount]
        exact add_zero_sub_zero _
      · by_cases hq : q = q'
        · subst hq
          simp [LockQueue.push]
          omega
        · simp [setJobs_other _ _ _ _ hq, Ne.symm hq]
  | popAll q' popped =>
      obtain ⟨contents, hitems⟩ := nonNull q'
      rw [LockQueue.popAll_of_items hitems] at popped
      cases popped
      refine ⟨0, 0, ?_, ?_, .inl rfl⟩
      · rw [setJobs_jobCount]
        exact add_zero_sub_zero _
      · by_cases hq : q = q'
        · subst hq
          simp [hitems]
        · simp [setJobs_other _ _ _ _ hq, Ne.symm hq]
  | @runLast q' tempJobs i _ _ | @runMore q' tempJobs i _ _ =>
      by_cases hq : q = q'
      · subst hq
        refine ⟨0, tempJobs.length, ?_, ?_, .inl rfl⟩
        · rw [setCount_self]
          exact sub_eq_add_zero_sub _ _
        · simp
          omega
      · refine ⟨0, 0, ?_, ?_, .inl rfl⟩
        · rw [setCount_other _ _ _ _ hq]
          exact add_zero_sub_zero _
        · simp [setCount_other _ _ _ _ hq, Ne.symm hq]
  -- The other steps touch no job queue.
  | _ => exact ⟨0, 0, add_zero_sub_zero _, by simp, .inl rfl⟩

omit [DecidableEq Q] in
theorem NonNull.initial {s : State Tid Q Job} (hs : s.Initial) : s.shared.NonNull := by
  rw [hs.1]
  exact fun q => LockQueue.nonNull_empty

theorem NonNull.setCount {sh : Shared Q Job} (h : sh.NonNull) (q : Q) (n : Int32) :
    (sh.setCount q n).NonNull := by
  intro q'
  rw [setCount_jobs]
  exact h q'

theorem NonNull.setJobs {sh : Shared Q Job} (h : sh.NonNull) (q : Q) {l : LockQueue Job}
    (hl : l.NonNull) : (sh.setJobs q l).NonNull := by
  intro q'
  by_cases hq : q' = q
  · subst hq
    rw [setJobs_self]
    exact hl
  · rw [setJobs_other _ _ _ _ hq]
    exact h q'

theorem NonNull.step {now end' : UInt64} {sh sh' : Shared Q Job} {tls tls' : Option Q}
    {frame : Frame Q Job} {frames : List (Frame Q Job)} (nonNull : sh.NonNull)
    (h : frame.Step now end' sh tls sh' tls' frames) : sh'.NonNull := by
  cases h with
  | push q | runLast q | runMore q => exact NonNull.setCount nonNull q _
  | pushItem q job => exact NonNull.setJobs nonNull q ((nonNull q).push job)
  | popAll q popped =>
      obtain ⟨contents, hitems⟩ := nonNull q
      rw [LockQueue.popAll_of_items hitems] at popped
      cases popped
      exact NonNull.setJobs nonNull q LockQueue.nonNull_empty
  | _ => exact nonNull

section Steps

variable [DecidableEq Tid] {s s' : State Tid Q Job} {e : Event Tid Q Job}

/-- Queues stay free of null pointers: `Push` appends jobs only. -/
theorem NonNull.next (nonNull : s.shared.NonNull) (h : s.next e = some s') :
    s'.shared.NonNull := by
  obtain ⟨t, c, frame, rfl, -, -, rfl⟩ | ⟨t, q, rfl, rfl⟩ |
    ⟨t, now, frame, rest, sh, tls, frames, rfl, -, hstep, rfl⟩ |
    ⟨t, q, tempJobs, i, rest, rfl, -, rfl⟩ := next_cases h
  · exact nonNull
  · exact NonNull.setJobs nonNull q LockQueue.nonNull_empty
  · exact NonNull.step nonNull hstep
  · exact nonNull

/-- The next step of some thread is a `fetch_add` of `Push` on `q`. -/
def CountsPush (s : State Tid Q Job) (q : Q) : Event Tid Q Job → Prop
  | .step t _ => ∃ job pushOnly rest, (s.threads t).stack = .push q job pushOnly :: rest
  | _ => False

/-- Client code discards a queue that is not empty. -/
def Discards (s : State Tid Q Job) (q : Q) : Event Tid Q Job → Prop
  | .call _ (.clearJob q') => q' = q ∧ (s.shared.queues q).jobs.items ≠ []
  | _ => False

variable [Fintype Tid]

theorem entry_claims {c : Call Q Job} {frame : Frame Q Job} (h : c.entry = [frame]) (q : Q) :
    frame.claims q = 0 := by
  cases c <;> cases h <;> rfl

/-- The counter of a queue and the jobs it accounts for move together in every step
that does not discard jobs. -/
theorem next_ledger (nonNull : s.shared.NonNull) (h : s.next e = some s') (q : Q)
    (keeps : ¬Discards s q e) :
    ∃ plus minus : ℕ,
      (s'.shared.queues q).jobCount =
        (s.shared.queues q).jobCount + Int32.ofNat plus - Int32.ofNat minus ∧
      s'.outstanding q + minus = s.outstanding q + plus ∧
      (plus = 0 ∨ plus = 1 ∧ CountsPush s q e) := by
  rw [outstanding_eq, outstanding_eq]
  obtain ⟨t, c, frame, rfl, -, hentry, rfl⟩ | ⟨t, q', rfl, rfl⟩ |
    ⟨t, now, frame, rest, sh, tls, frames, rfl, hstack, hstep, rfl⟩ |
    ⟨t, q', tempJobs, i, rest, rfl, hstack, rfl⟩ := next_cases h
  · have htotal := total_setThread (s := s) (Frame.claims q) t
      { s.threads t with stack := frame :: (s.threads t).stack }
    rw [weigh_cons, entry_claims hentry] at htotal
    refine ⟨0, 0, add_zero_sub_zero _, ?_, .inl rfl⟩
    change s.queued q + _ + 0 = _
    omega
  · refine ⟨0, 0, ?_, ?_, .inl rfl⟩
    · rw [setJobs_jobCount]
      exact add_zero_sub_zero _
    · by_cases hq : q = q'
      · subst hq
        have hempty : (s.shared.queues q).jobs.items = [] := by
          by_contra hne
          exact keeps ⟨rfl, hne⟩
        simp only [State.queued, setJobs_self, hempty]
        rfl
      · simp only [State.queued, setJobs_other _ _ _ _ hq]
        rfl
  · obtain ⟨plus, minus, hcount, hledger, hplus⟩ := step_ledger nonNull hstep q
    have htotal := total_setShared (s := s) (Frame.claims q) sh t
      { s.threads t with stack := frames ++ rest, tlsCurrentJobQueue := tls }
    rw [hstack, weigh_cons, weigh_append] at htotal
    refine ⟨plus, minus, hcount, ?_, ?_⟩
    · rw [queued_setThread]
      rw [State.queued]
      omega
    · obtain hzero | ⟨hone, job, pushOnly, rfl⟩ := hplus
      · exact .inl hzero
      · exact .inr ⟨hone, job, pushOnly, rest, hstack⟩
  · have htotal := total_setThread (s := s) (Frame.claims q) t
      { s.threads t with stack := .runJobs q' tempJobs (i + 1) :: rest }
    rw [hstack, weigh_cons, weigh_cons] at htotal
    have hsame : (Frame.runJobs q' tempJobs (i + 1)).claims q =
        (Frame.inJob q' tempJobs i).claims q := rfl
    refine ⟨0, 0, add_zero_sub_zero _, ?_, .inl rfl⟩
    change s.queued q + _ + 0 = _
    omega

end Steps

end JobQueue

end ServerCore
