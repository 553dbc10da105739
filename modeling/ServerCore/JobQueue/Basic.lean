import Mathlib.Data.Int.Notation
import Mathlib.Logic.Function.Basic
import ServerCore.Interleaving.System
import ServerCore.LockQueue

/-!
# Job queues, their executors and the global queue

A `JobQueue` is a `LockQueue` of jobs and an `int32` counter that `Push` increments
before it appends. Whoever moves the counter away from zero runs the queue, or hands
it to the global queue when a job queue is already running on the thread.

Each thread has a stack of `Frame`s, innermost first, one for each member function
it is inside. A frame names the next atomic step of its function and its live
locals: `jobCount.fetch_add`, one operation of a `LockQueue`, the start or the end
of a job body, `jobCount.fetch_sub`, one operation of the global queue. A running
job body is client code: it may call everything a thread outside may call.

`pushed` and `executed` record, for each queue, the jobs in the order of their
`jobs.Push` steps and of the starts of their bodies. No step reads them.
-/

namespace ServerCore

open Interleaving

/-- The data members of `JobQueue`. -/
structure JobQueue (Job : Type) where
  jobs : LockQueue Job := {}
  jobCount : Int32 := 0

namespace JobQueue

/-- The next step of a call of `Push`, `Execute` or `DoGlobalQueueWork`. -/
inductive Frame (Q Job : Type) where
  | push (q : Q) (job : Job) (pushOnly : Bool)
  | pushItem (q : Q) (job : Job) (pushOnly : Bool) (prevCount : Int32)
  | pushTest (q : Q) (pushOnly : Bool) (prevCount : Int32)
  | pushGlobal (q : Q)
  | execute (q : Q)
  | popAll (q : Q)
  | runJobs (q : Q) (tempJobs : List Job) (i : ℕ)
  | inJob (q : Q) (tempJobs : List Job) (i : ℕ)
  | clock (q : Q)
  | requeue (q : Q)
  | globalWork
  | globalPop
  deriving DecidableEq, Repr

/-- What client code can call. `DoAsync` is `push` of a fresh job with
`pushOnly = false`; jobs are never null. -/
inductive Call (Q Job : Type) where
  | push (q : Q) (job : Job) (pushOnly : Bool)
  | execute (q : Q)
  | clearJob (q : Q)
  | doGlobalQueueWork

/-- `JobQueue::DoAsync`, whose `Push` takes the default `_pushOnly`. -/
def doAsync {Q Job : Type} (q : Q) (job : Job) : Call Q Job := .push q job false

/-- The state all threads share, with the two histories. -/
structure Shared (Q Job : Type) where
  queues : Q → JobQueue Job := fun _ => {}
  globalQueue : LockQueue Q := {}
  pushed : Q → List Job := fun _ => []
  executed : Q → List Job := fun _ => []

/-- A thread's calls and its thread-local variables. -/
structure Thread (Q Job : Type) where
  stack : List (Frame Q Job) := []
  tlsCurrentJobQueue : Option Q := none
  tlsEndTickCount : UInt64 := 0

variable {Tid Q Job : Type} [DecidableEq Tid] [DecidableEq Q]

namespace Shared

variable (sh : Shared Q Job)

def setCount (q : Q) (jobCount : Int32) : Shared Q Job :=
  { sh with queues := Function.update sh.queues q { sh.queues q with jobCount } }

def setJobs (q : Q) (jobs : LockQueue Job) : Shared Q Job :=
  { sh with queues := Function.update sh.queues q { sh.queues q with jobs } }

/-- `jobs.Push(_job)`. -/
def pushJob (q : Q) (job : Job) : Shared Q Job :=
  { sh.setJobs q ((sh.queues q).jobs.push (some job)) with
    pushed := Function.update sh.pushed q (sh.pushed q ++ [job]) }

/-- `tempJobs[i]->Execute()` enters the body of the job. -/
def startJob (q : Q) (job : Job) : Shared Q Job :=
  { sh with executed := Function.update sh.executed q (sh.executed q ++ [job]) }

def pushGlobal (q : Q) : Shared Q Job :=
  { sh with globalQueue := sh.globalQueue.push (some q) }

end Shared

/-- `static_cast<int32>(tempJobs.size())`. -/
def tempJobCount (tempJobs : List Job) : Int32 := Int32.ofNat tempJobs.length

/-- One step of the innermost frame: the new shared state, the new value of
`tls_CurrentJobQueue` and the frames that replace this one. A job body has no step
of its own. -/
def Frame.exec (now tlsEndTickCount : UInt64) (sh : Shared Q Job) (tls : Option Q) :
    Frame Q Job → Option (Shared Q Job × Option Q × List (Frame Q Job))
  | .push q job pushOnly =>
      let prevCount := (sh.queues q).jobCount
      some (sh.setCount q (prevCount + 1), tls, [.pushItem q job pushOnly prevCount])
  | .pushItem q job pushOnly prevCount =>
      some (sh.pushJob q job, tls, [.pushTest q pushOnly prevCount])
  | .pushTest q pushOnly prevCount =>
      if prevCount = 0 then
        if tls = none ∧ pushOnly = false then some (sh, tls, [.execute q])
        else some (sh, tls, [.pushGlobal q])
      else some (sh, tls, [])
  | .pushGlobal q => some (sh.pushGlobal q, tls, [])
  | .execute q => some (sh, some q, [.popAll q])
  | .popAll q =>
      let (tempJobs, jobs) := (sh.queues q).jobs.popAll []
      some (sh.setJobs q jobs, tls, [.runJobs q tempJobs 0])
  | .runJobs q tempJobs i =>
      if (i : ℤ) < (tempJobCount tempJobs).toInt then
        match tempJobs[i]? with
        | some job => some (sh.startJob q job, tls, [.inJob q tempJobs i])
        | none => none
      else
        let prevCount := (sh.queues q).jobCount
        let sh := sh.setCount q (prevCount - tempJobCount tempJobs)
        if prevCount = tempJobCount tempJobs then some (sh, none, [])
        else some (sh, tls, [.clock q])
  | .inJob _ _ _ => none
  | .clock q =>
      if now ≥ tlsEndTickCount then some (sh, none, [.requeue q])
      else some (sh, tls, [.popAll q])
  | .requeue q => some (sh.pushGlobal q, tls, [])
  | .globalWork =>
      if now > tlsEndTickCount then some (sh, tls, []) else some (sh, tls, [.globalPop])
  | .globalPop =>
      match sh.globalQueue.pop with
      | (none, globalQueue) => some ({ sh with globalQueue }, tls, [])
      | (some q, globalQueue) => some ({ sh with globalQueue }, tls, [.execute q, .globalWork])

structure State (Tid Q Job : Type) where
  shared : Shared Q Job := {}
  threads : Tid → Thread Q Job := fun _ => {}

/-- Client code makes a call, the innermost call makes its next step, or the
innermost job body ends. `now` is what `GetTickCount64` answers. -/
inductive Event (Tid Q Job : Type) where
  | call (t : Tid) (c : Call Q Job)
  | step (t : Tid) (now : UInt64)
  | endJob (t : Tid)

/-- The thread runs client code: it is outside every call, or inside a job body. -/
def Thread.inClient (th : Thread Q Job) : Bool :=
  match th.stack with
  | [] => true
  | .inJob _ _ _ :: _ => true
  | _ => false

def State.setThread (s : State Tid Q Job) (t : Tid) (th : Thread Q Job) : State Tid Q Job :=
  { s with threads := Function.update s.threads t th }

/-- Begin a call. `ClearJob` is a single step, the others get a frame. -/
def State.enter (s : State Tid Q Job) (t : Tid) : Call Q Job → State Tid Q Job
  | .push q job pushOnly => s.setThread t
      { s.threads t with stack := .push q job pushOnly :: (s.threads t).stack }
  | .execute q => s.setThread t { s.threads t with stack := .execute q :: (s.threads t).stack }
  | .clearJob q => { s with shared := s.shared.setJobs q (s.shared.queues q).jobs.clear }
  | .doGlobalQueueWork => s.setThread t
      { s.threads t with stack := .globalWork :: (s.threads t).stack }

def State.next (s : State Tid Q Job) : Event Tid Q Job → Option (State Tid Q Job)
  | .call t c => if (s.threads t).inClient then some (s.enter t c) else none
  | .step t now =>
      match (s.threads t).stack with
      | [] => none
      | frame :: rest =>
          match frame.exec now (s.threads t).tlsEndTickCount s.shared
            (s.threads t).tlsCurrentJobQueue with
          | none => none
          | some (shared, tls, frames) =>
              some ({ s with shared }.setThread t { s.threads t with
                stack := frames ++ rest, tlsCurrentJobQueue := tls })
  | .endJob t =>
      match (s.threads t).stack with
      | .inJob q tempJobs i :: rest => some (s.setThread t
          { s.threads t with stack := .runJobs q tempJobs (i + 1) :: rest })
      | _ => none

/-- Nothing is queued, counted or running; the time slices are arbitrary. -/
def State.Initial (s : State Tid Q Job) : Prop :=
  s.shared = {} ∧ ∀ t, (s.threads t).stack = [] ∧ (s.threads t).tlsCurrentJobQueue = none

omit [DecidableEq Tid] [DecidableEq Q] in
theorem initial_empty : ({} : State Tid Q Job).Initial := ⟨rfl, fun _ => ⟨rfl, rfl⟩⟩

/-- All interleavings of threads over any family of job queues. -/
def system : System (State Tid Q Job) (Event Tid Q Job) where
  init := State.Initial
  next := State.next

section Simp

omit [DecidableEq Q]

variable (s : State Tid Q Job) (t u : Tid) (th : Thread Q Job)

@[simp] theorem setThread_shared : (s.setThread t th).shared = s.shared := rfl

@[simp] theorem setThread_self : (s.setThread t th).threads t = th := by
  simp [State.setThread]

theorem setThread_other (h : u ≠ t) : (s.setThread t th).threads u = s.threads u := by
  simp [State.setThread, h]

end Simp

section SharedSimp

variable (sh : Shared Q Job) (q r : Q) (job : Job) (n : Int32) (l : LockQueue Job)

@[simp] theorem setCount_self : (sh.setCount q n).queues q = { sh.queues q with jobCount := n } := by
  simp [Shared.setCount]

theorem setCount_other (h : r ≠ q) : (sh.setCount q n).queues r = sh.queues r := by
  simp [Shared.setCount, h]

@[simp] theorem setJobs_self : (sh.setJobs q l).queues q = { sh.queues q with jobs := l } := by
  simp [Shared.setJobs]

theorem setJobs_other (h : r ≠ q) : (sh.setJobs q l).queues r = sh.queues r := by
  simp [Shared.setJobs, h]

@[simp] theorem setCount_jobs : ((sh.setCount q n).queues r).jobs = (sh.queues r).jobs := by
  by_cases h : r = q
  · subst h
    rw [setCount_self]
  · rw [setCount_other _ _ _ _ h]

@[simp] theorem setJobs_jobCount :
    ((sh.setJobs q l).queues r).jobCount = (sh.queues r).jobCount := by
  by_cases h : r = q
  · subst h
    rw [setJobs_self]
  · rw [setJobs_other _ _ _ _ h]

@[simp] theorem pushJob_queues : (sh.pushJob q job).queues =
    (sh.setJobs q ((sh.queues q).jobs.push (some job))).queues := rfl

@[simp] theorem startJob_queues : (sh.startJob q job).queues = sh.queues := rfl

omit [DecidableEq Q] in
@[simp] theorem pushGlobal_queues : (sh.pushGlobal q).queues = sh.queues := rfl

end SharedSimp

/-- The steps of a frame as a relation, one constructor for each way that it can go on. -/
inductive Frame.Step (now tlsEndTickCount : UInt64) (sh : Shared Q Job) (tls : Option Q) :
    Frame Q Job → Shared Q Job → Option Q → List (Frame Q Job) → Prop
  | push (q job pushOnly) : Frame.Step now tlsEndTickCount sh tls (.push q job pushOnly)
      (sh.setCount q ((sh.queues q).jobCount + 1)) tls
      [.pushItem q job pushOnly (sh.queues q).jobCount]
  | pushItem (q job pushOnly prevCount) : Frame.Step now tlsEndTickCount sh tls
      (.pushItem q job pushOnly prevCount) (sh.pushJob q job) tls [.pushTest q pushOnly prevCount]
  | pushExecute (q) (free : tls = none) : Frame.Step now tlsEndTickCount sh tls
      (.pushTest q false 0) sh tls [.execute q]
  | pushHandOver (q pushOnly) : Frame.Step now tlsEndTickCount sh tls
      (.pushTest q pushOnly 0) sh tls [.pushGlobal q]
  | pushCounted (q pushOnly) {prevCount} (counted : prevCount ≠ 0) :
      Frame.Step now tlsEndTickCount sh tls (.pushTest q pushOnly prevCount) sh tls []
  | pushGlobal (q) : Frame.Step now tlsEndTickCount sh tls
      (.pushGlobal q) (sh.pushGlobal q) tls []
  | execute (q) : Frame.Step now tlsEndTickCount sh tls (.execute q) sh (some q) [.popAll q]
  | popAll (q) {tempJobs jobs} (popped : (sh.queues q).jobs.popAll [] = (tempJobs, jobs)) :
      Frame.Step now tlsEndTickCount sh tls
        (.popAll q) (sh.setJobs q jobs) tls [.runJobs q tempJobs 0]
  | startJob (q) {tempJobs i job} (here : tempJobs[i]? = some job) :
      Frame.Step now tlsEndTickCount sh tls
        (.runJobs q tempJobs i) (sh.startJob q job) tls [.inJob q tempJobs i]
  | runLast (q) {tempJobs} {i : ℕ} (finished : ¬(i : ℤ) < (tempJobCount tempJobs).toInt)
      (last : (sh.queues q).jobCount = tempJobCount tempJobs) :
      Frame.Step now tlsEndTickCount sh tls (.runJobs q tempJobs i)
        (sh.setCount q ((sh.queues q).jobCount - tempJobCount tempJobs)) none []
  | runMore (q) {tempJobs} {i : ℕ} (finished : ¬(i : ℤ) < (tempJobCount tempJobs).toInt)
      (more : (sh.queues q).jobCount ≠ tempJobCount tempJobs) :
      Frame.Step now tlsEndTickCount sh tls (.runJobs q tempJobs i)
        (sh.setCount q ((sh.queues q).jobCount - tempJobCount tempJobs)) tls [.clock q]
  | clockOver (q) : Frame.Step now tlsEndTickCount sh tls (.clock q) sh none [.requeue q]
  | clockLeft (q) : Frame.Step now tlsEndTickCount sh tls (.clock q) sh tls [.popAll q]
  | requeue (q) : Frame.Step now tlsEndTickCount sh tls (.requeue q) (sh.pushGlobal q) tls []
  | workOver : Frame.Step now tlsEndTickCount sh tls .globalWork sh tls []
  | workLeft : Frame.Step now tlsEndTickCount sh tls .globalWork sh tls [.globalPop]
  | popNothing {globalQueue} (popped : sh.globalQueue.pop = (none, globalQueue)) :
      Frame.Step now tlsEndTickCount sh tls .globalPop { sh with globalQueue } tls []
  | popQueue {q globalQueue} (popped : sh.globalQueue.pop = (some q, globalQueue)) :
      Frame.Step now tlsEndTickCount sh tls
        .globalPop { sh with globalQueue } tls [.execute q, .globalWork]

theorem Frame.step_of_exec {now end' : UInt64} {sh sh' : Shared Q Job} {tls tls' : Option Q}
    {frame : Frame Q Job} {frames : List (Frame Q Job)}
    (h : frame.exec now end' sh tls = some (sh', tls', frames)) :
    frame.Step now end' sh tls sh' tls' frames := by
  cases frame with
  | push q job pushOnly =>
      cases h
      exact .push q job pushOnly
  | pushItem q job pushOnly prevCount =>
      cases h
      exact .pushItem q job pushOnly prevCount
  | pushTest q pushOnly prevCount =>
      simp only [Frame.exec] at h
      split at h
      · next hzero =>
          subst hzero
          split at h
          · next hdirect =>
              obtain ⟨hfree, rfl⟩ := hdirect
              cases h
              exact .pushExecute q hfree
          · cases h
            exact .pushHandOver q pushOnly
      · next hcounted =>
          cases h
          exact .pushCounted q pushOnly hcounted
  | pushGlobal q =>
      cases h
      exact .pushGlobal q
  | execute q =>
      cases h
      exact .execute q
  | popAll q =>
      cases h
      exact .popAll q rfl
  | runJobs q tempJobs i =>
      simp only [Frame.exec] at h
      split at h
      · split at h
        · next job hjob =>
            cases h
            exact .startJob q hjob
        · cases h
      · next hfinished =>
          split at h
          · next hlast =>
              cases h
              exact .runLast q hfinished hlast
          · next hmore =>
              cases h
              exact .runMore q hfinished hmore
  | inJob q tempJobs i => cases h
  | clock q =>
      simp only [Frame.exec] at h
      split at h <;> cases h
      · exact .clockOver q
      · exact .clockLeft q
  | requeue q =>
      cases h
      exact .requeue q
  | globalWork =>
      simp only [Frame.exec] at h
      split at h <;> cases h
      · exact .workOver
      · exact .workLeft
  | globalPop =>
      simp only [Frame.exec] at h
      split at h
      · next globalQueue hpop =>
          cases h
          exact .popNothing hpop
      · next q globalQueue hpop =>
          cases h
          exact .popQueue hpop

/-- The frames that a call starts with; `ClearJob` has none. -/
def Call.entry : Call Q Job → List (Frame Q Job)
  | .push q job pushOnly => [.push q job pushOnly]
  | .execute q => [.execute q]
  | .clearJob _ => []
  | .doGlobalQueueWork => [.globalWork]

/-- What a step can do: client code enters a call or clears a queue, the innermost
frame moves, or a job body ends. -/
theorem next_cases {s s' : State Tid Q Job} {e : Event Tid Q Job} (h : s.next e = some s') :
    (∃ t c frame, e = .call t c ∧ (s.threads t).inClient = true ∧ c.entry = [frame] ∧
      s' = s.setThread t { s.threads t with stack := frame :: (s.threads t).stack }) ∨
    (∃ t q, e = .call t (.clearJob q) ∧
      s' = { s with shared := s.shared.setJobs q {} }) ∨
    (∃ t now frame rest shared tls frames, e = .step t now ∧
      (s.threads t).stack = frame :: rest ∧
      frame.Step now (s.threads t).tlsEndTickCount s.shared (s.threads t).tlsCurrentJobQueue
        shared tls frames ∧
      s' = { s with shared }.setThread t
        { s.threads t with stack := frames ++ rest, tlsCurrentJobQueue := tls }) ∨
    (∃ t q tempJobs i rest, e = .endJob t ∧
      (s.threads t).stack = .inJob q tempJobs i :: rest ∧
      s' = s.setThread t { s.threads t with stack := .runJobs q tempJobs (i + 1) :: rest }) := by
  cases e with
  | call t c =>
      simp only [State.next] at h
      split at h
      · next hclient =>
          cases h
          cases c with
          | clearJob q => exact .inr (.inl ⟨t, q, rfl, rfl⟩)
          | push q job pushOnly => exact .inl ⟨t, _, _, rfl, hclient, rfl, rfl⟩
          | execute q => exact .inl ⟨t, _, _, rfl, hclient, rfl, rfl⟩
          | doGlobalQueueWork => exact .inl ⟨t, _, _, rfl, hclient, rfl, rfl⟩
      · cases h
  | step t now =>
      simp only [State.next] at h
      split at h
      · cases h
      · next frame rest hstack =>
          split at h
          · cases h
          · next shared tls frames hexec =>
              cases h
              exact .inr (.inr (.inl ⟨t, now, frame, rest, _, _, _, rfl, hstack,
                Frame.step_of_exec hexec, rfl⟩))
  | endJob t =>
      simp only [State.next] at h
      split at h
      · next q tempJobs i rest hstack =>
          cases h
          exact .inr (.inr (.inr ⟨t, q, tempJobs, i, rest, rfl, hstack, rfl⟩))
      · cases h

end JobQueue

end ServerCore
