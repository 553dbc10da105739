import Mathlib.Logic.Function.Basic
import ServerCore.Interleaving.System
import ServerCore.PriorityQueue

/-!
# The job timer

`Reserve` puts a `TimerItem` into a priority queue whose `operator<` is inverted, so the
top is an item with the least `executeTick`. `Distribute` is entered by one thread at a
time: whoever finds `distributing` set returns at once. It moves the items that are due
to a local vector, and for each of them pushes the job to its owner, if the owner still
exists, and returns the `JobData` to its `ObjectPool`.

Each block under `WRITE_LOCK` is one step, and so is each access to `distributing`, to
an owner and to the pool. The priority queue is a parameter. An id stands for a
`JobData` object and is used once; `pool` holds the objects that exist. Client code gets
objects from the pool with `popJobData` and passes them to the second overload of
`Reserve`. To use or to return an object that does not exist is undefined behaviour
and ends the run, as `crashed`.

`reserved`, `rounds`, `cleared`, `made` and `calls` are histories that no step reads: the
items that entered the queue, the `Distribute` calls that passed the gate, what `Clear`
removed, what each `JobData` was made with, and the clock and the delay of each call of
`Reserve`.
-/

namespace ServerCore

open Interleaving

structure JobData (Q Job : Type) where
  owner : Option Q
  job : Job

structure TimerItem where
  executeTick : UInt64 := 0
  jobData : Option ℕ := none
  deriving DecidableEq, Repr

/-- `TimerItem::operator<`. -/
def TimerItem.less (item other : TimerItem) : Prop := other.executeTick < item.executeTick

/-- A queue of timer items, as a list in the order of `executeTick`. -/
def timerItems : PriorityQueue TimerItem TimerItem.less :=
  PriorityQueue.ofKey fun item : TimerItem => item.executeTick.toNat

namespace JobTimer

variable {Tid Q Job : Type}

/-- The next step of a thread: none, the block of `Reserve`, the block of `Distribute`,
its loop over the rest of `tempItems`, or the return of an item's `JobData`. -/
inductive Pc where
  | idle
  | reserve (executeTick : UInt64) (jobData : ℕ)
  | collect (now : UInt64)
  | distribute (tempItems : List TimerItem)
  | recycle (item : TimerItem) (tempItems : List TimerItem)

/-- A call of `JobQueue::Push`. -/
structure PushCall (Q Job : Type) where
  queue : Q
  job : Job
  pushOnly : Bool
  deriving DecidableEq

/-- What the loop of `Distribute` did with an item: the data it read, which queues had
expired, and the queue that it locked. -/
structure Outcome (Q Job : Type) where
  item : TimerItem
  data : JobData Q Job
  expired : Q → Bool
  ownerJobQueue : Option Q

/-- A `Distribute` call that passed the gate: the items in the queue before its block,
those that it took and those that it left, and what it did so far. -/
structure Round (Q Job : Type) where
  now : UInt64
  present : List TimerItem
  taken : List TimerItem
  left : List TimerItem
  outcomes : List (Outcome Q Job) := []

/-- `owner.lock()`. -/
def lock (expired : Q → Bool) (owner : Option Q) : Option Q := owner.filter fun q => !expired q

variable (H : PriorityQueue TimerItem TimerItem.less)

structure State (Tid Q Job : Type) where
  items : H.Store := H.empty
  distributing : Bool := false
  pool : ℕ → Option (JobData Q Job) := fun _ => none
  popped : ℕ := 0
  handed : ℕ → Bool := fun _ => false
  expired : Q → Bool := fun _ => false
  threads : Tid → Pc := fun _ => .idle
  pushes : List (PushCall Q Job) := []
  returned : List ℕ := []
  crashed : Bool := false
  reserved : List TimerItem := []
  rounds : List (Round Q Job) := []
  cleared : List TimerItem := []
  made : ℕ → Option (JobData Q Job) := fun _ => none
  calls : ℕ → Option (UInt64 × UInt64) := fun _ => none

inductive Event (Tid Q Job : Type) where
  | reserve (t : Tid) (clock tickAfter : UInt64) (owner : Option Q) (job : Job)
  | popJobData (owner : Option Q) (job : Job)
  | reserveItem (timerItem : TimerItem)
  | distribute (t : Tid) (now : UInt64)
  | clear
  | step (t : Tid)
  | expire (q : Q)

namespace State

variable {H} (s : State H Tid Q Job)

/-- `ObjectPool<JobData>::Pop`, with the next id. -/
def popJobData (owner : Option Q) (job : Job) : State H Tid Q Job :=
  { s with
    pool := Function.update s.pool s.popped (some ⟨owner, job⟩)
    made := Function.update s.made s.popped (some ⟨owner, job⟩)
    popped := s.popped + 1 }

/-- The start of `Reserve`, up to the lock. -/
def popForReserve (clock tickAfter : UInt64) (owner : Option Q) (job : Job) : State H Tid Q Job :=
  { s.popJobData owner job with
    calls := Function.update s.calls s.popped (some (clock, tickAfter)) }

def popForClient (owner : Option Q) (job : Job) : State H Tid Q Job :=
  { s.popJobData owner job with handed := Function.update s.handed s.popped true }

/-- `ObjectPool<JobData>::Push`. -/
def pushJobData (jobData : Option ℕ) : State H Tid Q Job :=
  match jobData with
  | none => { s with crashed := true }
  | some id =>
      if (s.pool id).isNone then { s with crashed := true }
      else { s with pool := Function.update s.pool id none, returned := s.returned ++ [id] }

/-- `items.push`. -/
def pushItem (timerItem : TimerItem) : State H Tid Q Job :=
  { s with items := H.push s.items timerItem, reserved := s.reserved ++ [timerItem] }

/-- The block of `Distribute`. -/
def collect (now : UInt64) : List TimerItem × State H Tid Q Job :=
  let (tempItems, items) := H.takeWhile (fun timerItem => ¬now < timerItem.executeTick) s.items
  let round : Round Q Job :=
    { now, present := H.toList s.items, taken := tempItems, left := H.toList items }
  (tempItems, { s with items, rounds := round :: s.rounds })

/-- `ownerJobQueue->Push(item.jobData->job, true)`, if the owner still exists. -/
def pushJob (ownerJobQueue : Option Q) (job : Job) : State H Tid Q Job :=
  match ownerJobQueue with
  | none => s
  | some queue => { s with pushes := s.pushes ++ [{ queue, job, pushOnly := true }] }

/-- Enter what was done with an item into the current round. -/
def record (outcome : Outcome Q Job) : State H Tid Q Job :=
  match s.rounds with
  | [] => s
  | round :: rounds =>
      { s with rounds := { round with outcomes := round.outcomes ++ [outcome] } :: rounds }

/-- What the loop of `Distribute` does with an item whose data it read. -/
def outcome (item : TimerItem) (data : JobData Q Job) : Outcome Q Job :=
  { item, data, expired := s.expired, ownerJobQueue := lock s.expired data.owner }

/-- One round of the loop of `Distribute`, up to the return of the `JobData`. -/
def deliver (item : TimerItem) (data : JobData Q Job) : State H Tid Q Job :=
  (s.pushJob (lock s.expired data.owner) data.job).record (s.outcome item data)

/-- The loop of `Clear` over the items that it pops. -/
def clearItems : List TimerItem → State H Tid Q Job → State H Tid Q Job
  | [], s => s
  | timerItem :: rest, s =>
      let s := s.pushJobData timerItem.jobData
      if s.crashed then s else clearItems rest s

/-- `Clear`. -/
def clear : State H Tid Q Job :=
  let (popped, items) := H.takeWhile (fun _ => true) s.items
  clearItems popped { s with items, cleared := s.cleared ++ popped }

variable [DecidableEq Tid]

def setPc (t : Tid) (pc : Pc) : State H Tid Q Job :=
  { s with threads := Function.update s.threads t pc }

/-- The next step of a thread's call. -/
def step (t : Tid) : Option (State H Tid Q Job) :=
  match s.threads t with
  | .idle => none
  | .reserve executeTick jobData =>
      some ((s.pushItem { executeTick, jobData := some jobData }).setPc t .idle)
  | .collect now =>
      let (tempItems, s) := s.collect now
      some (s.setPc t (.distribute tempItems))
  | .distribute [] => some ({ s with distributing := false }.setPc t .idle)
  | .distribute (item :: tempItems) =>
      match item.jobData.bind s.pool with
      | none => some { s with crashed := true }
      | some data => some ((s.deliver item data).setPc t (.recycle item tempItems))
  | .recycle item tempItems =>
      some ((s.pushJobData item.jobData).setPc t (.distribute tempItems))

variable [DecidableEq Q]

def next (s : State H Tid Q Job) (e : Event Tid Q Job) : Option (State H Tid Q Job) :=
  if s.crashed then none
  else
    match e with
    | .reserve t clock tickAfter owner job =>
        match s.threads t with
        | .idle =>
            some ((s.popForReserve clock tickAfter owner job).setPc t
              (.reserve (clock + tickAfter) s.popped))
        | _ => none
    | .popJobData owner job => some (s.popForClient owner job)
    | .reserveItem timerItem =>
        if timerItem.jobData.all s.handed then some (s.pushItem timerItem) else none
    | .distribute t now =>
        match s.threads t with
        | .idle =>
            if s.distributing then some s
            else some ({ s with distributing := true }.setPc t (.collect now))
        | _ => none
    | .clear => some s.clear
    | .step t => s.step t
    | .expire q => some { s with expired := Function.update s.expired q true }

end State

variable [DecidableEq Tid] [DecidableEq Q]

/-- All interleavings of the calls of any number of threads. -/
def system : System (State H Tid Q Job) (Event Tid Q Job) where
  init s := s = {}
  next := State.next

end JobTimer

end ServerCore
