import ServerCore.JobQueue.Order

/-!
# What becomes of a queue that is handed to the global queue

`DoGlobalQueueWork` returns before it pops anything once the clock is past
`tls_EndTickCount`. Nothing sets this variable, so it keeps its initial 0, and a thread whose
clock reads more than 0 is always past the end of its time slice (`Overdue`).

A queue in the global queue then stays there. It has its token there, so no thread starts
a job of it, and every later `Push` finds a counter that is not zero and leaves its job
behind (`globalQueue_starves`).
-/

namespace ServerCore

namespace JobQueue

open Interleaving

variable {Tid Q Job : Type}

/-- `DoGlobalQueueWork` finds the time slice over. -/
def Overdue (s : State Tid Q Job) (e : Event Tid Q Job) : Prop :=
  ∀ t now rest, e = .step t now → (s.threads t).stack = .globalWork :: rest →
    (s.threads t).tlsEndTickCount < now

/-- No thread is about to pop from the global queue. -/
def NoPop (s : State Tid Q Job) : Prop := ∀ t, .globalPop ∉ (s.threads t).stack

variable [DecidableEq Q]

/-- A frame that is not responsible for `q` starts none of its jobs, and only a pop takes
`q` out of the global queue. -/
theorem step_starves {now end' : UInt64} {sh sh' : Shared Q Job} {tls tls' : Option Q}
    {frame : Frame Q Job} {frames : List (Frame Q Job)}
    (h : frame.Step now end' sh tls sh' tls' frames) {q : Q} (howns : frame.owns q = 0)
    (hpop : frame ≠ .globalPop) (hglobal : some q ∈ sh.globalQueue.items) :
    some q ∈ sh'.globalQueue.items ∧ sh'.executed q = sh.executed q := by
  cases h with
  | pushGlobal | requeue => exact ⟨List.mem_append_left _ hglobal, rfl⟩
  | @startJob q' tempJobs i job here =>
      have hq : q ≠ q' := by
        rintro rfl
        simp at howns
      exact ⟨hglobal, Function.update_of_ne hq _ _⟩
  | popNothing | popQueue => exact absurd rfl hpop
  | _ => exact ⟨hglobal, rfl⟩

/-- Only the time test of `DoGlobalQueueWork` leads to a pop. -/
theorem step_noPop {now end' : UInt64} {sh sh' : Shared Q Job} {tls tls' : Option Q}
    {frame : Frame Q Job} {frames : List (Frame Q Job)}
    (h : frame.exec now end' sh tls = some (sh', tls', frames))
    (late : frame = .globalWork → end' < now) : .globalPop ∉ frames := by
  have hstep := Frame.step_of_exec h
  cases hstep with
  | workLeft =>
      have hlate := late rfl
      simp only [Frame.exec, gt_iff_lt, if_pos hlate] at h
      cases h
  | _ => simp

variable [DecidableEq Tid] {s s' : State Tid Q Job} {e : Event Tid Q Job}

omit [DecidableEq Q] in
theorem NoPop.setThread (h : NoPop s) (sh : Shared Q Job) {t : Tid} {th : Thread Q Job}
    (hth : .globalPop ∉ th.stack) : NoPop ({ s with shared := sh }.setThread t th) := by
  intro u
  by_cases hu : u = t
  · rw [hu, setThread_self]
    exact hth
  · rw [setThread_other _ _ _ _ hu]
    exact h u

/-- The innermost frame of a stepping thread executes. -/
theorem next_step {t : Tid} {now : UInt64} (h : s.next (.step t now) = some s') :
    ∃ frame rest shared tls frames, (s.threads t).stack = frame :: rest ∧
      frame.exec now (s.threads t).tlsEndTickCount s.shared (s.threads t).tlsCurrentJobQueue =
        some (shared, tls, frames) ∧
      s' = { s with shared }.setThread t
        { s.threads t with stack := frames ++ rest, tlsCurrentJobQueue := tls } := by
  simp only [State.next] at h
  split at h
  · cases h
  · next frame rest hstack =>
      split at h
      · cases h
      · next shared tls frames hexec =>
          cases h
          exact ⟨frame, rest, shared, tls, frames, hstack, hexec, rfl⟩

theorem NoPop.next (h : NoPop s) (overdue : Overdue s e) (hnext : s.next e = some s') :
    NoPop s' := by
  cases e with
  | step t now =>
      obtain ⟨frame, rest, sh, tls, frames, hstack, hexec, rfl⟩ := next_step hnext
      have ht := h t
      rw [hstack, List.mem_cons, not_or] at ht
      apply h.setThread sh
      rw [List.mem_append, not_or]
      refine ⟨step_noPop hexec ?_, ht.2⟩
      rintro rfl
      exact overdue t now rest rfl hstack
  | call t c =>
      obtain ⟨_, _, frame, ⟨⟩, -, hentry, rfl⟩ | ⟨_, q, ⟨⟩, rfl⟩ |
        ⟨_, _, _, _, _, _, _, ⟨⟩, -⟩ | ⟨_, _, _, _, _, ⟨⟩, -⟩ := next_cases hnext
      · apply h.setThread s.shared
        rw [List.mem_cons, not_or]
        refine ⟨?_, h t⟩
        rintro rfl
        cases c <;> cases hentry
      · exact h
  | endJob t =>
      obtain ⟨_, _, _, ⟨⟩, -⟩ | ⟨_, _, ⟨⟩, -⟩ | ⟨_, _, _, _, _, _, _, ⟨⟩, -⟩ |
        ⟨_, q, tempJobs, i, rest, ⟨⟩, hstack, rfl⟩ := next_cases hnext
      have ht := h t
      rw [hstack, List.mem_cons, not_or] at ht
      apply h.setThread s.shared
      rw [List.mem_cons, not_or]
      exact ⟨nofun, ht.2⟩

section Run

variable [Fintype Tid]

/-- The programs of the result, on a machine whose clock is past `tls_EndTickCount`. -/
def Late (s : State Tid Q Job) (e : Event Tid Q Job) : Prop :=
  Serves s e ∧ NoWrap s e ∧ Overdue s e

/-- No thread can pop, and the queues have their tokens. -/
def Stuck (s : State Tid Q Job) : Prop := NoPop s ∧ OneToken s

theorem Stuck.next (h : Stuck s) (hlate : Late s e) (hnext : s.next e = some s') : Stuck s' :=
  ⟨h.1.next hlate.2.2 hnext, h.2.next hlate.1 hlate.2.1 hnext⟩

omit [DecidableEq Tid] in
theorem Stuck.initial (hs : s.Initial) : Stuck s := by
  refine ⟨fun t => ?_, OneToken.initial hs⟩
  rw [(hs.2 t).1]
  exact List.not_mem_nil

omit [DecidableEq Tid] in
/-- A queue that waits in the global queue has its token there. -/
theorem OneToken.unowned (h : OneToken s) {q : Q} (hglobal : some q ∈ s.shared.globalQueue.items)
    {t : Tid} {frame : Frame Q Job} (hframe : frame ∈ (s.threads t).stack) :
    frame.owns q = 0 := by
  have hle := h.le_one q
  have hcount : 0 < s.shared.occurrences q := List.count_pos_iff.mpr hglobal
  have hstack := weigh_le_total (s := s) (Frame.owns q) t
  have hframe := le_weigh (Frame.owns q) hframe
  rw [State.tokens] at hle
  omega

theorem Stuck.starves (h : Stuck s) (hlate : Late s e) (hnext : s.next e = some s') {q : Q}
    (hglobal : some q ∈ s.shared.globalQueue.items) :
    some q ∈ s'.shared.globalQueue.items ∧ s'.shared.executed q = s.shared.executed q := by
  obtain ⟨t, c, frame, rfl, -, -, rfl⟩ | ⟨t, q', rfl, -⟩ |
    ⟨t, now, frame, rest, sh, tls, frames, rfl, hstack, hstep, rfl⟩ |
    ⟨t, q', tempJobs, i, rest, rfl, -, rfl⟩ := next_cases hnext
  · exact ⟨hglobal, rfl⟩
  · cases hlate.1 t _ rfl
  · have hframe : frame ∈ (s.threads t).stack := by
      rw [hstack]
      exact List.mem_cons_self
    have hpop : frame ≠ .globalPop := by
      rintro rfl
      exact h.1 t hframe
    exact step_starves hstep (h.2.unowned hglobal hframe) hpop hglobal
  · exact ⟨hglobal, rfl⟩

/-- Once the clock is past `tls_EndTickCount`, a queue that was handed to the global queue
stays there for good, and none of its jobs is started any more. -/
theorem globalQueue_starves (h : system.Reachable Late s) {es : List (Event Tid Q Job)}
    (along : system.Along Late es s) (hrun : system.run es s = some s') {q : Q}
    (hglobal : some q ∈ s.shared.globalQueue.items) :
    some q ∈ s'.shared.globalQueue.items ∧ s'.shared.executed q = s.shared.executed q := by
  have hstuck : Stuck s := by
    apply h.invariant (I := Stuck)
    · exact fun s hs => Stuck.initial hs
    · exact fun s e s' h hlate hnext => h.next hlate hnext
  clear h
  induction es generalizing s with
  | nil =>
      cases hrun
      exact ⟨hglobal, rfl⟩
  | cons e es ih =>
      rw [System.run_cons, Option.bind_eq_some_iff] at hrun
      obtain ⟨u, hnext, hrest⟩ := hrun
      obtain ⟨hlate, halong⟩ := along u hnext
      obtain ⟨hkept, hsame⟩ := hstuck.starves hlate hnext hglobal
      obtain ⟨hlast, hexecuted⟩ := ih halong hrest hkept (hstuck.next hlate hnext)
      exact ⟨hlast, hexecuted.trans hsame⟩

end Run

section Checks

omit [DecidableEq Q] [DecidableEq Tid]

/-- The next step of the thread is the time test of `DoGlobalQueueWork`. -/
def Thread.testing (th : Thread Q Job) : Bool :=
  match th.stack with
  | .globalWork :: _ => true
  | _ => false

theorem overdue_step_iff (s : State Tid Q Job) (t : Tid) (now : UInt64) :
    Overdue s (.step t now) ↔
      ((s.threads t).testing = true → (s.threads t).tlsEndTickCount < now) := by
  constructor
  · intro h htesting
    unfold Thread.testing at htesting
    split at htesting
    · next rest hstack => exact h t now rest rfl hstack
    · cases htesting
  · rintro h _ _ rest ⟨⟩ hstack
    apply h
    rw [Thread.testing, hstack]

instance (s : State Tid Q Job) : ∀ e : Event Tid Q Job, Decidable (Overdue s e)
  | .call _ _ => .isTrue fun _ _ _ heq => nomatch heq
  | .step t now => decidable_of_iff' _ (overdue_step_iff s t now)
  | .endJob _ => .isTrue fun _ _ _ heq => nomatch heq

instance (s : State Tid Q Job) (e : Event Tid Q Job) : Decidable (Late s e) :=
  inferInstanceAs (Decidable (_ ∧ _ ∧ _))

end Checks

/-- A push that must not execute hands its queue to the global queue. -/
def handOver : List (Event (Fin 1) Unit Bool) :=
  .call 0 (.push () true true) :: List.replicate 4 (.step 0 1)

/-- A thread that serves the global queue, and a second push. -/
def serveAndPush : List (Event (Fin 1) Unit Bool) :=
  [.call 0 .doGlobalQueueWork, .step 0 1, .call 0 (.push () false false), .step 0 1, .step 0 1,
    .step 0 1]

/-- The server thread starts neither the job that it was handed nor the next one. -/
theorem globalQueue_starves_handOver :
    ∃ s s' : State (Fin 1) Unit Bool, system.run handOver {} = some s ∧
      system.run serveAndPush s = some s' ∧ s'.shared.pushed () = [true, false] ∧
      some () ∈ s'.shared.globalQueue.items ∧ s'.shared.executed () = s.shared.executed () := by
  have hrun : system.run handOver ({} : State (Fin 1) Unit Bool) = some _ := rfl
  have hreached : system.Reachable Late _ :=
    (System.Reachable.start initial_empty).run (System.along_of_check (by decide +kernel)) hrun
  refine ⟨_, _, hrun, rfl, rfl, globalQueue_starves hreached
    (System.along_of_check (by decide +kernel)) (rfl : system.run serveAndPush _ = _) ?_⟩
  exact List.mem_singleton.mpr rfl

end JobQueue

end ServerCore
