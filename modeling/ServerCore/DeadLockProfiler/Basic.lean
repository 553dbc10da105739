import Mathlib.Data.Int.Notation
import Mathlib.Data.List.Sort
import Mathlib.Logic.Function.Basic
import ServerCore.Interleaving.System

/-!
# The deadlock profiler

`PushLock` numbers the lock names in the order of their first use, records an edge from
the innermost held lock to the new one, and searches the recorded edges for a cycle
when the edge is new. `PopLock` checks that the innermost lock is released. Both run
under `mtxLock`, so a call is one step.

A name is a `const char*`: the profiler compares pointers. Lock ids are `int32` and
wrap. The vectors of the search are functions on ids with a common size, and an access
outside that size is undefined behaviour. The recursion of `DFS` and the loop that
prints a cycle are given a number of steps, which always suffices.

`held` records, for each call of `PushLock` by a thread, the pairs of a lock name in
the thread's stack and the new name. No step reads it.
-/

namespace ServerCore

open Interleaving

/-- How a call ends without returning: the crashes of the source, the exception of a
vector of negative size, undefined behaviour, and the end of the given steps. -/
inductive ProfilerFault where
  | deadLock (edges : List (Int32 × Int32))
  | multipleUnlock
  | invalidUnlock
  | length
  | range
  | steps
  deriving DecidableEq, Repr

/-- The members that `CheckCycle` resets: the vectors of size `size` and the count. -/
structure Search where
  size : ℕ := 0
  visitedOrder : Int32 → Int32 := fun _ => -1
  totalNodeCount : Int32 := 0
  isFinished : Int32 → Bool := fun _ => false
  parent : Int32 → Int32 := fun _ => -1

namespace Search

/-- The index is inside the vectors. -/
def InRange (s : Search) (id : Int32) : Prop := 0 ≤ id.toInt ∧ id.toInt < s.size

instance (s : Search) (id : Int32) : Decidable (s.InRange id) :=
  inferInstanceAs (Decidable (_ ∧ _))

/-- `visitedOrder[lock] = totalNodeCount++`. -/
def visit (s : Search) (lock : Int32) : Search :=
  { s with
    visitedOrder := Function.update s.visitedOrder lock s.totalNodeCount
    totalNodeCount := s.totalNodeCount + 1 }

def finish (s : Search) (lock : Int32) : Search :=
  { s with isFinished := Function.update s.isFinished lock true }

def setParent (s : Search) (lock parent : Int32) : Search :=
  { s with parent := Function.update s.parent lock parent }

end Search

/-- The data members of `DeadLockProfiler`. `nameCount` is `nameToId.size()`. -/
structure DeadLockProfiler (Name : Type) where
  nameToId : Name → Option Int32 := fun _ => none
  nameCount : ℕ := 0
  idToName : Int32 → Option Name := fun _ => none
  lockHistory : Int32 → Option (List Int32) := fun _ => none
  search : Search := {}

namespace DeadLockProfiler

variable {Tid Name : Type} [DecidableEq Name]

/-- The loop that prints the edges from `now` back to `nextLock`. -/
def cycleEdges (s : Search) (nextLock : Int32) :
    ℕ → Int32 → Except ProfilerFault (List (Int32 × Int32))
  | 0, _ => .error .steps
  | steps + 1, now =>
      if ¬s.InRange now then .error .range
      else if s.parent now = nextLock then .ok [(s.parent now, now)]
      else (cycleEdges s nextLock steps (s.parent now)).map ((s.parent now, now) :: ·)

/-- What follows the discovery of an unfinished `nextLock`. -/
def reportCycle (s : Search) (currentLock nextLock : Int32) : ProfilerFault :=
  match cycleEdges s nextLock (s.size + 1) currentLock with
  | .ok edges => .deadLock ((currentLock, nextLock) :: edges)
  | .error fault => fault

/-- One round of the loop of `DFS` over the locks taken next. -/
def visitNext (dfs : Int32 → Search → Except ProfilerFault Search) (currentLock nextLock : Int32)
    (s : Search) : Except ProfilerFault Search :=
  if ¬s.InRange nextLock then .error .range
  else if s.visitedOrder nextLock = -1 then
    dfs nextLock (s.setParent nextLock currentLock)
  else if s.visitedOrder currentLock < s.visitedOrder nextLock then .ok s
  else if s.isFinished nextLock = false then .error (reportCycle s currentLock nextLock)
  else .ok s

def visitAll (dfs : Int32 → Search → Except ProfilerFault Search) (currentLock : Int32) :
    List Int32 → Search → Except ProfilerFault Search
  | [], s => .ok s
  | nextLock :: rest, s => (visitNext dfs currentLock nextLock s).bind (visitAll dfs currentLock rest)

/-- `DFS`. -/
def dfs (lockHistory : Int32 → Option (List Int32)) :
    ℕ → Int32 → Search → Except ProfilerFault Search
  | 0, _, _ => .error .steps
  | steps + 1, currentLock, s =>
      if ¬s.InRange currentLock then .error .range
      else if s.visitedOrder currentLock ≠ -1 then .ok s
      else
        let s := s.visit currentLock
        match lockHistory currentLock with
        | none => .ok (s.finish currentLock)
        | some nextSet =>
            (visitAll (dfs lockHistory steps) currentLock nextSet s).map
              (·.finish currentLock)

/-- The loop of `CheckCycle` over `ids`. -/
def searchFrom (lockHistory : Int32 → Option (List Int32)) (steps : ℕ) :
    List Int32 → Search → Except ProfilerFault Search
  | [], s => .ok s
  | lockId :: rest, s =>
      (dfs lockHistory steps lockId s).bind (searchFrom lockHistory steps rest)

/-- The ids from 0 up to `lockCount`. -/
def lockIds (lockCount : ℕ) : List Int32 := (List.range lockCount).map Int32.ofNat

/-- `CheckCycle`. A vector of negative size cannot be made. -/
def checkCycle (lockHistory : Int32 → Option (List Int32)) (nameCount : ℕ) :
    Except ProfilerFault Search :=
  let lockCount := Int32.ofNat nameCount
  if lockCount < 0 then .error .length
  else
    let size := lockCount.toInt.toNat
    searchFrom lockHistory (size + 1) (lockIds size) { size }

/-- The id of a name, after it was entered into the maps if it was new. -/
def register (p : DeadLockProfiler Name) (name : Name) : Int32 × DeadLockProfiler Name :=
  match p.nameToId name with
  | some id => (id, p)
  | none =>
      let id := Int32.ofNat p.nameCount
      (id, { p with
        nameToId := Function.update p.nameToId name (some id)
        nameCount := p.nameCount + 1
        idToName := Function.update p.idToName id (some name) })

/-- `lockHistory[prevLockId]`, which enters an empty set where there is none. -/
def history (p : DeadLockProfiler Name) (id : Int32) : List Int32 := (p.lockHistory id).getD []

omit [DecidableEq Name] in
/-- `history.insert(currentLockId)`. -/
def addEdge (p : DeadLockProfiler Name) (prevLockId currentLockId : Int32) :
    DeadLockProfiler Name :=
  let history := (p.history prevLockId).orderedInsert (· ≤ ·) currentLockId
  { p with lockHistory := Function.update p.lockHistory prevLockId (some history) }

/-- `PushLock`, with the `tls_LockStack` of the calling thread. -/
def pushLock (p : DeadLockProfiler Name) (lockStack : List Int32) (name : Name) :
    Except ProfilerFault (DeadLockProfiler Name × List Int32) :=
  let (currentLockId, p) := p.register name
  match lockStack with
  | [] => .ok (p, [currentLockId])
  | prevLockId :: _ =>
      if currentLockId ≠ prevLockId ∧ currentLockId ∉ p.history prevLockId then
        let p := p.addEdge prevLockId currentLockId
        (checkCycle p.lockHistory p.nameCount).map
          fun search => ({ p with search }, currentLockId :: lockStack)
      else .ok (p, currentLockId :: lockStack)

/-- `PopLock`. An unknown name is entered into `nameToId` with the id 0. -/
def popLock (p : DeadLockProfiler Name) (lockStack : List Int32) (name : Name) :
    Except ProfilerFault (DeadLockProfiler Name × List Int32) :=
  match lockStack with
  | [] => .error .multipleUnlock
  | top :: rest =>
      let (lockId, p) :=
        match p.nameToId name with
        | some id => (id, p)
        | none => ((0 : Int32), { p with
            nameToId := Function.update p.nameToId name (some 0)
            nameCount := p.nameCount + 1 })
      if top.toUInt32 ≠ lockId.toUInt32 then .error .invalidUnlock else .ok (p, rest)

structure State (Tid Name : Type) where
  profiler : DeadLockProfiler Name := {}
  lockStack : Tid → List Int32 := fun _ => []
  names : Tid → List Name := fun _ => []
  held : List (Name × Name) := []
  fault : Option ProfilerFault := none

inductive Event (Tid Name : Type) where
  | pushLock (t : Tid) (name : Name)
  | popLock (t : Tid) (name : Name)

variable [DecidableEq Tid]

/-- A call by a thread. After a fault there is no further call. -/
def State.next (s : State Tid Name) (e : Event Tid Name) : Option (State Tid Name) :=
  if s.fault.isSome then none
  else
    match e with
    | .pushLock t name =>
        match s.profiler.pushLock (s.lockStack t) name with
        | .error fault => some { s with fault := some fault }
        | .ok (profiler, stack) => some { s with
            profiler
            lockStack := Function.update s.lockStack t stack
            names := Function.update s.names t (name :: s.names t)
            held := s.held ++ (s.names t).map (·, name) }
    | .popLock t name =>
        match s.profiler.popLock (s.lockStack t) name with
        | .error fault => some { s with fault := some fault }
        | .ok (profiler, stack) => some { s with
            profiler
            lockStack := Function.update s.lockStack t stack
            names := Function.update s.names t (s.names t).tail }

/-- All interleavings of calls of any number of threads. -/
def system : System (State Tid Name) (Event Tid Name) where
  init s := s = {}
  next := State.next

end DeadLockProfiler

end ServerCore
