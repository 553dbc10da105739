import ServerCore.JobQueue.Accounting
import ServerCore.Word

/-!
# Job accounting and `ClearJob`

`jobCount` is meant to be the number of outstanding jobs of its queue. When it is,
an `Execute` that finds nothing outstanding returns at its `fetch_sub`, and a queue
without outstanding jobs leaves the global queue for good unless somebody pushes
to it.

`ClearJob` empties the queue and leaves the counter alone. A run keeps the account
exactly when every `ClearJob` meets an empty queue and no `fetch_add` meets a full
counter (`jobCount_accounted_iff`). After one that discards a job, `Execute` never
sees its counter reach zero again and keeps requeueing an empty queue.
-/

namespace ServerCore

namespace JobQueue

open Interleaving

variable {Tid Q Job : Type} [DecidableEq Q]

/-- A frame that can hand `q` to the global queue without a further `fetch_sub`. -/
@[simp] def Frame.reentry (q : Q) : Frame Q Job → ℕ
  | .pushTest q' _ _ => if q' = q then 1 else 0
  | .pushGlobal q' => if q' = q then 1 else 0
  | .clock q' => if q' = q then 1 else 0
  | .requeue q' => if q' = q then 1 else 0
  | _ => 0

/-- The innermost call is `DoGlobalQueueWork`, about to pop `q`. -/
def Frame.popsGlobal (q : Q) (sh : Shared Q Job) : Frame Q Job → Bool
  | .globalPop => sh.globalQueue.items.head? = some (some q)
  | _ => false

/-- The step takes `q` out of the global queue. -/
def popsGlobal (s : State Tid Q Job) (q : Q) : Event Tid Q Job → Bool
  | .step t _ =>
      match (s.threads t).stack with
      | [] => false
      | frame :: _ => frame.popsGlobal q s.shared
  | _ => false

/-- How often a run takes `q` out of the global queue. -/
def popCount [DecidableEq Tid] (q : Q) : List (Event Tid Q Job) → State Tid Q Job → ℕ
  | [], _ => 0
  | e :: es, s => (popsGlobal s q e).toNat + ((s.next e).map (popCount q es)).getD 0

/-- With a zero counter and nothing outstanding, a frame's step does not add to the
occurrences of `q` and the frames that can queue it again. -/
theorem step_reentry {now end' : UInt64} {sh sh' : Shared Q Job} {tls tls' : Option Q}
    {frame : Frame Q Job} {frames : List (Frame Q Job)} (q : Q)
    (hcount : (sh.queues q).jobCount = 0) (hclaims : frame.claims q = 0)
    (h : frame.Step now end' sh tls sh' tls' frames) :
    (frame.popsGlobal q sh).toNat + weigh (Frame.reentry q) frames +
        sh'.globalQueue.items.count (some q) ≤
      frame.reentry q + sh.globalQueue.items.count (some q) := by
  cases h with
  | pushItem q' job pushOnly prevCount =>
      have hne : q' ≠ q := by
        intro heq
        simp [heq] at hclaims
      simp [Frame.popsGlobal, Shared.pushJob, Shared.setJobs, hne]
  | pushGlobal q' | requeue q' =>
      rw [Shared.pushGlobal, LockQueue.count_push]
      simp [Frame.popsGlobal]
      omega
  | @runMore q' tempJobs i finished more =>
      have hne : q' ≠ q := by
        -- The batch would be empty, and the counter equal to its size.
        rintro rfl
        have hbatch : tempJobs = [] := by
          simpa using hclaims
        subst hbatch
        exact more hcount
      simp [Frame.popsGlobal, Shared.setCount, hne]
  | popNothing popped =>
      simp [Frame.popsGlobal, LockQueue.head?_of_pop popped, LockQueue.count_pop popped]
  | @popQueue q' _ popped =>
      by_cases hq : q' = q <;>
        simp [Frame.popsGlobal, LockQueue.head?_of_pop popped, LockQueue.count_pop popped, hq]
      omega
  | _ => simp [Frame.popsGlobal, Shared.setCount, Shared.setJobs, Shared.startJob]

variable [Fintype Tid]

namespace State

/-- No push of `q` has counted a job it did not append, its queue is empty and no
batch of it is being processed. -/
def Quiet (q : Q) (s : State Tid Q Job) : Prop :=
  s.total (Frame.pending q) = 0 ∧ s.queued q = 0 ∧ s.total (Frame.batch q) = 0

/-- The occurrences of `q` in the global queue and the frames that can add one. -/
def circulating (q : Q) (s : State Tid Q Job) : ℕ :=
  s.shared.globalQueue.items.count (some q) + s.total (Frame.reentry q)

end State

variable [DecidableEq Tid] {s s' : State Tid Q Job} {e : Event Tid Q Job}

omit [DecidableEq Tid] in
theorem State.Quiet.outstanding {q : Q} (h : s.Quiet q) : s.outstanding q = 0 := by
  obtain ⟨hpending, hqueued, hbatch⟩ := h
  rw [State.outstanding, hpending, hqueued, hbatch]

omit [Fintype Tid] [DecidableEq Tid] in
theorem entry_reentry {c : Call Q Job} {frame : Frame Q Job} (h : c.entry = [frame]) (q : Q) :
    frame.reentry q = 0 := by
  cases c <;> cases h <;> rfl

/-- With a zero counter and nothing outstanding, every pop of `q` from the global
queue is one occurrence fewer. -/
theorem circulating_next {q : Q} (hcount : (s.shared.queues q).jobCount = 0)
    (hout : s.outstanding q = 0) (h : s.next e = some s') :
    (popsGlobal s q e).toNat + s'.circulating q ≤ s.circulating q := by
  obtain ⟨t, c, frame, rfl, -, hentry, rfl⟩ | ⟨t, q', rfl, rfl⟩ |
    ⟨t, now, frame, rest, sh, tls, frames, rfl, hstack, hstep, rfl⟩ |
    ⟨t, q', tempJobs, i, rest, rfl, hstack, rfl⟩ := next_cases h
  · have htotal := total_setThread (s := s) (Frame.reentry q) t
      { s.threads t with stack := frame :: (s.threads t).stack }
    rw [weigh_cons, entry_reentry hentry] at htotal
    rw [State.circulating, State.circulating]
    change 0 + (s.shared.globalQueue.items.count (some q) + _) ≤ _
    omega
  · simp [State.circulating, popsGlobal, Shared.setJobs, State.total]
  · have hclaims : frame.claims q = 0 := by
      have hle := weigh_le_total (s := s) (Frame.claims q) t
      rw [outstanding_eq] at hout
      rw [hstack, weigh_cons] at hle
      omega
    have hreentry := step_reentry q hcount hclaims hstep
    have htotal := total_setShared (s := s) (Frame.reentry q) sh t
      { s.threads t with stack := frames ++ rest, tlsCurrentJobQueue := tls }
    rw [hstack, weigh_cons, weigh_append] at htotal
    have hpops : popsGlobal s q (.step t now) = frame.popsGlobal q s.shared := by
      simp only [popsGlobal, hstack]
    rw [hpops, State.circulating, State.circulating]
    change _ + (sh.globalQueue.items.count (some q) + _) ≤ _
    omega
  · have htotal := total_setThread (s := s) (Frame.reentry q) t
      { s.threads t with stack := .runJobs q' tempJobs (i + 1) :: rest }
    rw [hstack, weigh_cons, weigh_cons] at htotal
    have hsame : (Frame.runJobs q' tempJobs (i + 1)).reentry q =
        (Frame.inJob q' tempJobs i).reentry q := rfl
    rw [State.circulating, State.circulating]
    change 0 + (s.shared.globalQueue.items.count (some q) + _) ≤ _
    omega

/-- Only a `fetch_add` makes a job outstanding. -/
theorem quiet_next {q : Q} (nonNull : s.shared.NonNull)
    (hcount : (s.shared.queues q).jobCount = 0) (hout : s.outstanding q = 0)
    (hpush : ¬CountsPush s q e) (h : s.next e = some s') :
    (s'.shared.queues q).jobCount = 0 ∧ s'.outstanding q = 0 := by
  have hkeeps : ¬Discards s q e := by
    intro hdiscards
    cases e with
    | call t c =>
        cases c with
        | clearJob q' =>
            have hempty : s.queued q = 0 := by
              rw [State.outstanding] at hout
              omega
            exact hdiscards.2 (List.eq_nil_of_length_eq_zero hempty)
        | _ => exact hdiscards
    | _ => exact hdiscards
  obtain ⟨plus, minus, hcount', hledger, hplus⟩ := next_ledger nonNull h q hkeeps
  obtain rfl | ⟨-, hcounts⟩ := hplus
  · obtain rfl : minus = 0 := by omega
    refine ⟨?_, by omega⟩
    rw [hcount', hcount]
    rfl
  · exact absurd hcounts hpush

/-- While nobody pushes to a settled queue, the global queue hands it out no more
often than it is already on its way. -/
theorem popCount_le {q : Q} (nonNull : s.shared.NonNull)
    (hcount : (s.shared.queues q).jobCount = 0) (hout : s.outstanding q = 0)
    {es : List (Event Tid Q Job)} (along : system.Along (fun s e => ¬CountsPush s q e) es s)
    (hrun : system.run es s = some s') :
    popCount q es s + s'.circulating q ≤ s.circulating q := by
  induction es generalizing s with
  | nil =>
      cases hrun
      simp [popCount]
  | cons e es ih =>
      rw [System.run_cons, Option.bind_eq_some_iff] at hrun
      obtain ⟨u, hnext, hrest⟩ := hrun
      obtain ⟨hpush, hrestAlong⟩ := along u hnext
      obtain ⟨hcount', hout'⟩ := quiet_next nonNull hcount hout hpush hnext
      have hstep := circulating_next hcount hout hnext
      have hlater := ih (NonNull.next nonNull hnext) hcount' hout' hrestAlong hrest
      have hunfold : popCount q (e :: es) s = (popsGlobal s q e).toNat + popCount q es u := by
        have hsome : s.next e = some u := hnext
        simp only [popCount, hsome, Option.map_some, Option.getD_some]
      omega

/-- `jobCount` is the number of outstanding jobs. Where nothing is outstanding it is
zero, and in every continuation without a `fetch_add` the global queue hands the
queue out a bounded number of times. -/
structure Accounted (s : State Tid Q Job) : Prop where
  count : ∀ q, (s.shared.queues q).jobCount.toInt =
    (s.total (Frame.pending q) + s.queued q + s.total (Frame.batch q) : ℕ)
  settled : ∀ q, s.Quiet q → (s.shared.queues q).jobCount = 0 ∧
    ∀ es s', system.Along (fun s e => ¬CountsPush s q e) es s → system.run es s = some s' →
      popCount q es s ≤ s.circulating q

/-- No `ClearJob` discards a job and no `fetch_add` overflows the counter. -/
def Careful (s : State Tid Q Job) (e : Event Tid Q Job) : Prop :=
  ∀ q, ¬Discards s q e ∧ (CountsPush s q e → (s.shared.queues q).jobCount ≠ Int32.maxValue)

theorem accounted_of_count (nonNull : s.shared.NonNull)
    (h : ∀ q, (s.shared.queues q).jobCount.toInt = s.outstanding q) : Accounted s where
  count := h
  settled := by
    intro q hquiet
    have hzero : (s.shared.queues q).jobCount = 0 := by
      apply Int32.toInt_inj.mp
      rw [h q, hquiet.outstanding]
      rfl
    refine ⟨hzero, fun es s' along hrun => ?_⟩
    have hbound := popCount_le nonNull hzero hquiet.outstanding along hrun
    omega

/-- Careful steps keep the counters exact. -/
theorem count_next (nonNull : s.shared.NonNull)
    (hcount : ∀ q, (s.shared.queues q).jobCount.toInt = s.outstanding q) (hok : Careful s e)
    (h : s.next e = some s') (q : Q) :
    (s'.shared.queues q).jobCount.toInt = s'.outstanding q := by
  obtain ⟨hkeeps, hroom⟩ := hok q
  obtain ⟨plus, minus, hcount', hledger, hplus⟩ := next_ledger nonNull h q hkeeps
  rw [hcount']
  refine Word.toInt_ledger (hcount q) hledger ?_
  have hlt := (s.shared.queues q).jobCount.toInt_lt
  rw [hcount q] at hlt
  obtain rfl | ⟨rfl, hcounts⟩ := hplus
  · omega
  · have hsmall := Word.toInt_lt_of_ne_maxValue (hroom hcounts)
    rw [hcount q] at hsmall
    omega

/-- A step into a state with exact counters was careful. -/
theorem careful_of_count
    (hcount : ∀ q, (s.shared.queues q).jobCount.toInt = s.outstanding q)
    (hcount' : ∀ q, (s'.shared.queues q).jobCount.toInt = s'.outstanding q)
    (h : s.next e = some s') : Careful s e := by
  intro q
  constructor
  · intro hdiscards
    obtain ⟨t, q', rfl⟩ : ∃ t q', e = .call t (.clearJob q') := by
      cases e with
      | call t c =>
          cases c with
          | clearJob q' => exact ⟨t, q', rfl⟩
          | _ => exact hdiscards.elim
      | _ => exact hdiscards.elim
    obtain ⟨rfl, hitems⟩ := hdiscards
    have hqueued : 0 < s.queued q' := List.length_pos_of_ne_nil hitems
    obtain ⟨_, _, _, heq, -, hentry, -⟩ | ⟨_, _, heq, rfl⟩ | ⟨_, _, _, _, _, _, _, heq, -⟩ |
      ⟨_, _, _, _, _, heq, -⟩ := next_cases h
    · cases heq
      cases hentry
    · cases heq
      have hbefore := hcount q'
      have hafter := hcount' q'
      rw [outstanding_eq] at hbefore hafter
      -- The counter and the frames are as before, the queue is empty.
      have hempty : ({ s with shared := s.shared.setJobs q' {} } : State Tid Q Job).queued q' = 0 := by
        rw [State.queued, setJobs_self]
        rfl
      rw [hempty, setJobs_self] at hafter
      change (s.shared.queues q').jobCount.toInt = (0 + s.total (Frame.claims q') : ℕ) at hafter
      omega
    · cases heq
    · cases heq
  · rintro hcounts hfull
    obtain ⟨t, now, rfl⟩ : ∃ t now, e = .step t now := by
      cases e with
      | step t now => exact ⟨t, now, rfl⟩
      | _ => exact hcounts.elim
    obtain ⟨job, pushOnly, rest, hstack⟩ := hcounts
    have hnext : s.next (.step t now) = some ({ s with
        shared := s.shared.setCount q ((s.shared.queues q).jobCount + 1) }.setThread t
        { s.threads t with
          stack := .pushItem q job pushOnly (s.shared.queues q).jobCount :: rest }) := by
      simp only [State.next, hstack]
      rfl
    rw [hnext] at h
    cases h
    have hafter := hcount' q
    rw [setThread_shared, setCount_self, hfull] at hafter
    -- The largest value wraps to the smallest.
    change (-2147483648 : ℤ) = _ at hafter
    omega

/-- What the counter accounts for. A run has exact counters throughout, and settles
its idle queues, exactly when all its steps are careful. -/
theorem jobCount_accounted_iff {s : State Tid Q Job} (hs : s.Initial)
    (es : List (Event Tid Q Job)) :
    system.Throughout Accounted es s ↔ system.Along Careful es s := by
  apply System.throughout_iff_along
    (I := fun s => s.shared.NonNull ∧ ∀ q, (s.shared.queues q).jobCount.toInt = s.outstanding q)
  · intro s h
    exact accounted_of_count h.1 h.2
  · intro s e s' h hok hnext
    exact ⟨NonNull.next h.1 hnext, count_next h.1 h.2 hok hnext⟩
  · intro s e s' h hnext haccounted
    exact careful_of_count h.2 haccounted.count hnext
  · refine ⟨NonNull.initial hs, fun q => ?_⟩
    rw [outstanding_initial hs, hs.1]
    rfl

section OneThread

/-- One job pushed to the global queue, and cleared before anybody ran it: the queue
is idle and its counter is one. -/
theorem clearJob_not_accounted :
    ¬∀ s : State (Fin 1) Unit Unit, system.Reachable System.anyStep s → Accounted s := by
  intro haccounted
  have hrun : system.run [.call 0 (.push () () true), .step 0 0, .step 0 0, .step 0 0, .step 0 0,
      .call 0 (.clearJob ())] ({} : State (Fin 1) Unit Unit) = some _ := rfl
  have hreach := System.reachable_of_run initial_empty hrun
  have hcount := ((haccounted _ hreach).settled () ⟨rfl, rfl, rfl⟩).1
  exact absurd hcount (by decide)

/-- A job that is counted and queued, and a `ClearJob` of another, empty queue. -/
theorem jobCount_accounted_emptyClear :
    system.Throughout Accounted [.call 0 (.push true () true), .step 0 0, .step 0 0,
      .call 1 (.clearJob false)] ({} : State (Fin 2) Bool Unit) := by
  apply (jobCount_accounted_iff initial_empty _).mpr
  refine System.along_cons rfl ?_ (System.along_cons rfl ?_ (System.along_cons rfl ?_
    (System.along_cons rfl ?_ trivial)))
  · exact fun q => ⟨fun h => h, fun h => h.elim⟩
  · exact fun q => ⟨fun h => h, fun _ => by cases q <;> decide⟩
  · exact fun q => ⟨fun h => h, fun _ => by cases q <;> decide⟩
  · exact fun q => ⟨fun h => h.2 (by obtain ⟨rfl, -⟩ := h; rfl), fun h => h.elim⟩

end OneThread

end JobQueue

end ServerCore
