import Mathlib.Data.Fintype.Basic
import ServerCore.JobQueue.Basic
import ServerCore.JobTimer.Basic

/-!
# Timers and job queues together

`JobQueue::DoTimer` reserves a job with the job timer, and `JobTimer::Distribute` passes
it to the `JobQueue::Push` of its owner. A thread that calls `Reserve`, `Distribute` or
`Clear` is outside every call or inside a job body, and is in the timer until that call
returns; the `Push` that `Distribute` makes puts its frames on the thread's stack, and the
loop goes on when they are gone.

The timer holds a weak pointer to the owner. A queue is kept alive by its entry in the
global queue and by the calls that run on it, the local `ownerJobQueue` of `Distribute`
among them. It expires when none of these is left, and then nobody calls it.

`direct` records, for each queue, the jobs that client code passed to `Push` itself. No step
reads it.
-/

namespace ServerCore

open Interleaving

namespace JobTimer

variable {Tid Q Job : Type}

/-- The thread whose call begins or goes on. The other events take one step. -/
def Event.thread : Event Tid Q Job → Option Tid
  | .reserve t _ _ _ _ => some t
  | .distribute t _ => some t
  | .step t => some t
  | .popJobData _ _ => none
  | .reserveItem _ => none
  | .clear => none
  | .expire _ => none

/-- The thread is inside no call of the timer. -/
def Pc.outside : Pc → Bool
  | .idle => true
  | _ => false

end JobTimer

namespace JobQueue

variable {Tid Q Job : Type}

/-- The queue whose member function the frame is in. -/
def Frame.queue : Frame Q Job → Option Q
  | .push q _ _ => some q
  | .pushItem q _ _ _ => some q
  | .pushTest q _ _ => some q
  | .pushGlobal q => some q
  | .execute q => some q
  | .popAll q => some q
  | .runJobs q _ _ => some q
  | .inJob q _ _ => some q
  | .clock q => some q
  | .requeue q => some q
  | .globalWork => none
  | .globalPop => none

def Call.queue : Call Q Job → Option Q
  | .push q _ _ => some q
  | .execute q => some q
  | .clearJob q => some q
  | .doGlobalQueueWork => none

/-- The thread in whose client code a call begins or a job body ends. -/
def Event.client : Event Tid Q Job → Option Tid
  | .call t _ => some t
  | .endJob t => some t
  | .step _ _ => none

/-- The queue that client code calls. -/
def Event.callee : Event Tid Q Job → Option Q
  | .call _ c => c.queue
  | .endJob _ => none
  | .step _ _ => none

/-- Neither the global queue nor a call keeps the queue alive. -/
def State.Unreferenced (s : State Tid Q Job) (q : Q) : Prop :=
  some q ∉ s.shared.globalQueue.items ∧ ∀ t, ∀ frame ∈ (s.threads t).stack, frame.queue ≠ some q

instance [Fintype Tid] [DecidableEq Q] (s : State Tid Q Job) (q : Q) :
    Decidable (s.Unreferenced q) :=
  inferInstanceAs (Decidable (_ ∧ _))

end JobQueue

namespace TimedJobs

variable {Tid Q Job : Type} (H : PriorityQueue TimerItem TimerItem.less)

structure State (Tid Q Job : Type) where
  timer : JobTimer.State H Tid Q Job := {}
  queues : JobQueue.State Tid Q Job := {}
  direct : Q → List Job := fun _ => []

/-- A step of the timer or of the job queues. -/
inductive Event (Tid Q Job : Type) where
  | timer (e : JobTimer.Event Tid Q Job)
  | queue (e : JobQueue.Event Tid Q Job)

namespace State

variable {H} [DecidableEq Tid] [DecidableEq Q] (s : State H Tid Q Job)

omit [DecidableEq Tid] [DecidableEq Q] in
/-- The call of `JobQueue::Push` that a step of the timer makes. -/
def delivery : JobTimer.Event Tid Q Job → Option (Tid × Q × Job)
  | .step t =>
      match s.timer.threads t with
      | .distribute (item :: _) =>
          (item.jobData.bind s.timer.pool).bind fun data =>
            (JobTimer.lock s.timer.expired data.owner).map fun q => (t, q, data.job)
      | _ => none
  | _ => none

omit [DecidableEq Q] in
/-- The call enters `Push`, with `_pushOnly`. -/
def deliver : Option (Tid × Q × Job) → State H Tid Q Job
  | none => s
  | some (t, q, job) =>
      let stack := .push q job true :: (s.queues.threads t).stack
      { s with queues := s.queues.setThread t { s.queues.threads t with stack } }

omit [DecidableEq Tid] [DecidableEq Q] in
/-- The event may happen: a thread in client code calls the timer, or one whose `Push` has
returned goes on; and a queue expires when nothing keeps it alive. -/
def TimerReady (e : JobTimer.Event Tid Q Job) : Prop :=
  (∀ t ∈ e.thread, (s.queues.threads t).inClient = true) ∧
    match e with
    | .expire q => s.queues.Unreferenced q
    | _ => True

omit [DecidableEq Tid] [DecidableEq Q] in
/-- The event may happen: client code outside the timer calls a queue that exists. -/
def QueueReady (e : JobQueue.Event Tid Q Job) : Prop :=
  (∀ t ∈ e.client, (s.timer.threads t).outside = true) ∧
    ∀ q ∈ e.callee, s.timer.expired q = false

omit [DecidableEq Tid] in
/-- Record a job that client code pushes. -/
def recordDirect (direct : Q → List Job) : JobQueue.Event Tid Q Job → Q → List Job
  | .call _ (.push q job _) => Function.update direct q (direct q ++ [job])
  | _ => direct

variable [Fintype Tid]

instance (e : JobTimer.Event Tid Q Job) : Decidable (s.TimerReady e) :=
  match e with
  | .expire q => inferInstanceAs (Decidable (_ ∧ s.queues.Unreferenced q))
  | .reserve .. => inferInstanceAs (Decidable (_ ∧ True))
  | .popJobData .. => inferInstanceAs (Decidable (_ ∧ True))
  | .reserveItem .. => inferInstanceAs (Decidable (_ ∧ True))
  | .distribute .. => inferInstanceAs (Decidable (_ ∧ True))
  | .clear => inferInstanceAs (Decidable (_ ∧ True))
  | .step .. => inferInstanceAs (Decidable (_ ∧ True))

instance (e : JobQueue.Event Tid Q Job) : Decidable (s.QueueReady e) :=
  inferInstanceAs (Decidable (_ ∧ _))

def next (s : State H Tid Q Job) : Event Tid Q Job → Option (State H Tid Q Job)
  | .timer e =>
      if s.TimerReady e then
        (s.timer.next e).map fun timer => { s.deliver (s.delivery e) with timer }
      else none
  | .queue e =>
      if s.QueueReady e then
        (s.queues.next e).map fun queues => { s with queues, direct := recordDirect s.direct e }
      else none

end State

variable [DecidableEq Tid] [DecidableEq Q] [Fintype Tid]

/-- All interleavings of the calls of any number of threads; the time slices are
arbitrary. -/
def system : System (State H Tid Q Job) (Event Tid Q Job) where
  init s := s.timer = {} ∧ s.queues.Initial ∧ s.direct = fun _ => []
  next := State.next

end TimedJobs

end ServerCore
