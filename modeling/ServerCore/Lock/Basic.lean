import Mathlib.Logic.Function.Basic
import ServerCore.Interleaving.System
import ServerCore.Word

/-!
# The reader/writer spin lock, one atomic operation at a time

`lockFlag` packs the write owner's thread id over a count of shared holds:
`[WWWWWWWW][WWWWWWWW][RRRRRRRR][RRRRRRRR]`. Each member function of `Lock` is cut
at its accesses to `lockFlag` and `writeCount`; a `Pc` names the access that comes
next together with the locals that are live there. The name argument is only meant
for the profiler and no member function reads it.

The lock is used by clients. A `Client` says which member function an operation
of the client calls and how the thread's list of holds changes when that call
returns, so plain calls and scope guards share one transition system.
-/

namespace ServerCore

open Interleaving

/-- The two data members of `Lock`. -/
structure Lock where
  lockFlag : UInt32 := 0
  writeCount : UInt16 := 0
  deriving DecidableEq, Repr

namespace Lock

def acquireTimeoutTick : UInt64 := 10000
def maxSpinCount : UInt32 := 5000
def writeThreadMask : UInt32 := 0xFFFF0000
def readCountMask : UInt32 := 0x0000FFFF
def emptyFlag : UInt32 := 0

/-- The public member functions. -/
inductive Call where
  | writeLock | writeUnlock | readLock | readUnlock
  deriving DecidableEq, Repr

/-- The next access to shared memory inside a member function. The spin loops
keep their start tick and the number of failed attempts of the current round. -/
inductive Pc where
  | writeLockLoad
  | writeLockNest
  | writeLockSpin (timeTickStarted : UInt64) (spinCount : UInt32)
  | writeLockOwn
  | writeLockTimeout (timeTickStarted : UInt64)
  | writeUnlockLoad
  | writeUnlockCount
  | writeUnlockStore
  | readLockLoad
  | readLockNest
  | readLockSpin (timeTickStarted : UInt64) (spinCount : UInt32)
  | readLockCas (timeTickStarted : UInt64) (spinCount : UInt32) (expected : UInt32)
  | readLockTimeout (timeTickStarted : UInt64)
  | readUnlock
  deriving DecidableEq, Repr

/-- What follows an access: another one, the return to the caller, or
`FORCED_CRASH`, which terminates the process. -/
inductive Outcome where
  | goto (pc : Pc)
  | ret
  | crash (message : String)
  deriving DecidableEq, Repr

def Call.entry : Call → Pc
  | .writeLock => .writeLockLoad
  | .writeUnlock => .writeUnlockLoad
  | .readLock => .readLockLoad
  | .readUnlock => .readUnlock

/-- The loop head after a failed attempt: try again or look at the clock. -/
def writeLockRetry (timeTickStarted : UInt64) (spinCount : UInt32) : Pc :=
  if spinCount + 1 < maxSpinCount then .writeLockSpin timeTickStarted (spinCount + 1)
  else .writeLockTimeout timeTickStarted

def readLockRetry (timeTickStarted : UInt64) (spinCount : UInt32) : Pc :=
  if spinCount + 1 < maxSpinCount then .readLockSpin timeTickStarted (spinCount + 1)
  else .readLockTimeout timeTickStarted

/-- One access by the thread with the given id. `now` is what `GetTickCount64`
returns if the step reads the clock. -/
def Pc.exec (tlsThreadId : UInt32) (now : UInt64) (l : Lock) : Pc → Lock × Outcome
  | .writeLockLoad =>
      let writeThreadId := (l.lockFlag &&& writeThreadMask) >>> 16
      if writeThreadId = tlsThreadId then (l, .goto .writeLockNest)
      else (l, .goto (.writeLockSpin now 0))
  | .writeLockNest => ({ l with writeCount := l.writeCount + 1 }, .ret)
  | .writeLockSpin timeTickStarted spinCount =>
      let desired := (tlsThreadId <<< 16) &&& writeThreadMask
      if l.lockFlag = emptyFlag then ({ l with lockFlag := desired }, .goto .writeLockOwn)
      else (l, .goto (writeLockRetry timeTickStarted spinCount))
  | .writeLockOwn => ({ l with writeCount := l.writeCount + 1 }, .ret)
  | .writeLockTimeout timeTickStarted =>
      if now - timeTickStarted ≥ acquireTimeoutTick then (l, .crash "Timeout - WriteLock")
      else (l, .goto (.writeLockSpin timeTickStarted 0))
  | .writeUnlockLoad =>
      if l.lockFlag &&& readCountMask ≠ 0 then
        (l, .crash "Invaild unlock order - WriteUnlock")
      else (l, .goto .writeUnlockCount)
  | .writeUnlockCount =>
      ({ l with writeCount := l.writeCount - 1 },
        if l.writeCount - 1 = 0 then .goto .writeUnlockStore else .ret)
  | .writeUnlockStore => ({ l with lockFlag := emptyFlag }, .ret)
  | .readLockLoad =>
      let writeThreadId := (l.lockFlag &&& writeThreadMask) >>> 16
      if tlsThreadId = writeThreadId then (l, .goto .readLockNest)
      else (l, .goto (.readLockSpin now 0))
  | .readLockNest => ({ l with lockFlag := l.lockFlag + 1 }, .ret)
  | .readLockSpin timeTickStarted spinCount =>
      (l, .goto (.readLockCas timeTickStarted spinCount (l.lockFlag &&& readCountMask)))
  | .readLockCas timeTickStarted spinCount expected =>
      if l.lockFlag = expected then ({ l with lockFlag := expected + 1 }, .ret)
      else (l, .goto (readLockRetry timeTickStarted spinCount))
  | .readLockTimeout timeTickStarted =>
      if now - timeTickStarted ≥ acquireTimeoutTick then (l, .crash "Timeout - ReadLock")
      else (l, .goto (.readLockSpin timeTickStarted 0))
  | .readUnlock =>
      -- `fetch_sub` has already changed the flag when the test crashes.
      ({ l with lockFlag := l.lockFlag - 1 },
        if l.lockFlag &&& readCountMask = 0 then .crash "Multiple unlock - ReadUnlock"
        else .ret)

/-- How code that uses a lock calls it. `allowed` restricts an operation by the
thread's holds, and `finish` updates them when the call returns. -/
structure Client (Op Hold : Type) where
  call : Op → Call
  allowed : Op → List Hold → Bool
  finish : Op → List Hold → List Hold

structure Thread (Op Hold : Type) where
  running : Option (Op × Pc) := none
  holds : List Hold := []
  deriving DecidableEq, Repr

/-- One lock, the threads that use it, and the message of the crash, if any. -/
structure State (Tid Op Hold : Type) where
  lock : Lock := {}
  threads : Tid → Thread Op Hold := fun _ => {}
  crashed : Option String := none

inductive Event (Tid Op : Type) where
  | call (t : Tid) (op : Op)
  | step (t : Tid) (now : UInt64)
  deriving DecidableEq, Repr

variable {Tid Op Hold : Type} [DecidableEq Tid]

def State.setThread (s : State Tid Op Hold) (t : Tid) (th : Thread Op Hold) :
    State Tid Op Hold :=
  { s with threads := Function.update s.threads t th }

/-- Store the effect of an access and continue, return or crash. -/
def State.settle (client : Client Op Hold) (s : State Tid Op Hold) (t : Tid) (op : Op) :
    Lock × Outcome → State Tid Op Hold
  | (lock, .goto pc) =>
      { s with lock }.setThread t { s.threads t with running := some (op, pc) }
  | (lock, .ret) =>
      { s with lock }.setThread t
        { running := none, holds := client.finish op (s.threads t).holds }
  | (lock, .crash message) => { s with lock, crashed := some message }

/-- One step of one thread; nothing moves after a crash. -/
def State.next (client : Client Op Hold) (tlsThreadId : Tid → UInt32)
    (s : State Tid Op Hold) : Event Tid Op → Option (State Tid Op Hold)
  | .call t op =>
      match s.crashed, (s.threads t).running with
      | none, none =>
          if client.allowed op (s.threads t).holds then
            some (s.setThread t
              { s.threads t with running := some (op, (client.call op).entry) })
          else none
      | _, _ => none
  | .step t now =>
      match s.crashed, (s.threads t).running with
      | none, some (op, pc) => some (s.settle client t op (pc.exec (tlsThreadId t) now s.lock))
      | _, _ => none

/-- All interleavings of the clients of one lock, from the unlocked state. -/
def system (client : Client Op Hold) (tlsThreadId : Tid → UInt32) :
    System (State Tid Op Hold) (Event Tid Op) where
  init s := s = {}
  next := State.next client tlsThreadId

section Simp

variable {client : Client Op Hold} (s : State Tid Op Hold) (t u : Tid) (op : Op)

@[simp] theorem setThread_lock (th : Thread Op Hold) : (s.setThread t th).lock = s.lock := rfl

@[simp] theorem setThread_crashed (th : Thread Op Hold) :
    (s.setThread t th).crashed = s.crashed := rfl

@[simp] theorem setThread_self (th : Thread Op Hold) : (s.setThread t th).threads t = th := by
  simp [State.setThread]

theorem setThread_other (th : Thread Op Hold) (h : u ≠ t) :
    (s.setThread t th).threads u = s.threads u := by
  simp [State.setThread, h]

@[simp] theorem setThread_setThread (th th' : Thread Op Hold) :
    (s.setThread t th).setThread t th' = s.setThread t th' := by
  simp [State.setThread]

@[simp] theorem settle_goto (lock : Lock) (pc : Pc) :
    s.settle client t op (lock, .goto pc) =
      { s with lock }.setThread t { s.threads t with running := some (op, pc) } := rfl

@[simp] theorem settle_ret (lock : Lock) :
    s.settle client t op (lock, .ret) = { s with lock }.setThread t
      { running := none, holds := client.finish op (s.threads t).holds } := rfl

@[simp] theorem settle_crash (lock : Lock) (message : String) :
    s.settle client t op (lock, .crash message) =
      { s with lock, crashed := some message } := rfl

end Simp

theorem next_call (client : Client Op Hold) (ids : Tid → UInt32) {s : State Tid Op Hold}
    {t : Tid} {op : Op} (alive : s.crashed = none) (idle : (s.threads t).running = none)
    (hallowed : client.allowed op (s.threads t).holds = true) :
    s.next client ids (.call t op) = some (s.setThread t
      { s.threads t with running := some (op, (client.call op).entry) }) := by
  simp only [State.next, alive, idle, hallowed, if_true]

theorem next_step (client : Client Op Hold) (ids : Tid → UInt32) {s : State Tid Op Hold}
    {t : Tid} {op : Op} {pc : Pc} (alive : s.crashed = none)
    (hrun : (s.threads t).running = some (op, pc)) (now : UInt64) :
    s.next client ids (.step t now) =
      some (s.settle client t op (pc.exec (ids t) now s.lock)) := by
  simp only [State.next, alive, hrun]

/-- A step that leads somewhere starts in a state without a crash. It is a call
that the client allows, or the next access of a running call. -/
theorem next_cases {client : Client Op Hold} {ids : Tid → UInt32}
    {s s' : State Tid Op Hold} {e : Event Tid Op} (h : s.next client ids e = some s') :
    s.crashed = none ∧
      ((∃ t op, e = .call t op ∧ (s.threads t).running = none ∧
          client.allowed op (s.threads t).holds = true ∧
          s' = s.setThread t
            { s.threads t with running := some (op, (client.call op).entry) }) ∨
        ∃ t now op pc, e = .step t now ∧ (s.threads t).running = some (op, pc) ∧
          s' = s.settle client t op (pc.exec (ids t) now s.lock)) := by
  cases e with
  | call t op =>
      simp only [State.next] at h
      split at h
      · next hcrash hrun =>
          split at h
          · next hallowed =>
              cases h
              exact ⟨hcrash, .inl ⟨t, op, rfl, hrun, hallowed, rfl⟩⟩
          · cases h
      · cases h
  | step t now =>
      simp only [State.next] at h
      split at h
      · next hcrash hrun =>
          cases h
          exact ⟨hcrash, .inr ⟨t, now, _, _, rfl, hrun, rfl⟩⟩
      · cases h

/-- The state after an access of a thread that is inside a call. -/
theorem settle_of_next {client : Client Op Hold} {ids : Tid → UInt32} {s s' : State Tid Op Hold}
    {t : Tid} {now : UInt64} {op : Op} {pc : Pc}
    (hnext : s.next client ids (.step t now) = some s')
    (hrun : (s.threads t).running = some (op, pc)) :
    s' = s.settle client t op (pc.exec (ids t) now s.lock) := by
  have halive := (next_cases hnext).1
  exact Option.some.inj (hnext.symm.trans (next_step client ids halive hrun now))

section Sample

variable (client : Client Op Hold) (ids : Tid → UInt32) {s : State Tid Op Hold} {t : Tid} {op : Op}

/-- An access that leaves the lock alone moves the thread to its next access. -/
theorem next_goto {pc pc' : Pc} {now : UInt64} (alive : s.crashed = none)
    (hexec : pc.exec (ids t) now s.lock = (s.lock, .goto pc')) :
    (s.setThread t { s.threads t with running := some (op, pc) }).next client ids (.step t now) =
      some (s.setThread t { s.threads t with running := some (op, pc') }) := by
  have hrun : ((s.setThread t { s.threads t with running := some (op, pc) }).threads t).running =
      some (op, pc) := by rw [setThread_self]
  have hnext := next_step client ids (s := s.setThread t _) alive hrun now
  rw [setThread_lock, hexec, settle_goto, setThread_self] at hnext
  exact hnext.trans (congrArg some (setThread_setThread s t _ _))

/-- Without a write owner, `ReadLock` is about to exchange the flag as it stands after
two accesses. -/
theorem run_sample (hid : 0 < (ids t).toNat) (hcall : client.call op = .readLock)
    (hallowed : client.allowed op (s.threads t).holds = true) (alive : s.crashed = none)
    (idle : (s.threads t).running = none) (hlow : s.lock.lockFlag.toNat < 65536) :
    (system client ids).run [.call t op, .step t 0, .step t 0] s = some (s.setThread t
      { s.threads t with running := some (op, .readLockCas 0 0 s.lock.lockFlag) }) := by
  have hload : Pc.readLockLoad.exec (ids t) 0 s.lock = (s.lock, .goto (.readLockSpin 0 0)) := by
    have howner : ids t ≠ (s.lock.lockFlag &&& writeThreadMask) >>> 16 := by
      intro heq
      have hupper : ((s.lock.lockFlag &&& writeThreadMask) >>> 16).toNat = _ :=
        Word.toNat_upper s.lock.lockFlag
      rw [← heq] at hupper
      omega
    simp only [Pc.exec, if_neg howner]
  have hspin : (Pc.readLockSpin 0 0).exec (ids t) 0 s.lock =
      (s.lock, .goto (.readLockCas 0 0 s.lock.lockFlag)) := by
    have hcount : s.lock.lockFlag &&& readCountMask = s.lock.lockFlag := by
      apply UInt32.toNat_inj.mp
      have hlower : (s.lock.lockFlag &&& readCountMask).toNat = s.lock.lockFlag.toNat % 65536 :=
        Word.toNat_lower s.lock.lockFlag
      omega
    simp only [Pc.exec, hcount]
  have hentry := next_call client ids alive idle hallowed
  rw [hcall] at hentry
  rw [System.run_cons]
  refine (congrArg (Option.bind · _) hentry).trans ?_
  rw [Option.bind_some, System.run_cons]
  refine (congrArg (Option.bind · _) (next_goto client ids alive hload)).trans ?_
  rw [Option.bind_some, System.run_cons]
  exact congrArg (Option.bind · _) (next_goto client ids alive hspin)

/-- Without a write owner, `ReadLock` returns after three accesses. -/
theorem run_readLock (hid : 0 < (ids t).toNat) (hcall : client.call op = .readLock)
    (hallowed : client.allowed op (s.threads t).holds = true) (alive : s.crashed = none)
    (idle : (s.threads t).running = none) (hlow : s.lock.lockFlag.toNat < 65536) :
    (system client ids).run [.call t op, .step t 0, .step t 0, .step t 0] s =
      some ({ s with lock := { s.lock with lockFlag := s.lock.lockFlag + 1 } }.setThread t
        { running := none, holds := client.finish op (s.threads t).holds }) := by
  have hsample := run_sample client ids hid hcall hallowed alive idle hlow
  have hcas : (Pc.readLockCas 0 0 s.lock.lockFlag).exec (ids t) 0 s.lock =
      ({ s.lock with lockFlag := s.lock.lockFlag + 1 }, .ret) := by
    simp only [Pc.exec, if_true]
  have hrun : ((s.setThread t { s.threads t with
      running := some (op, .readLockCas 0 0 s.lock.lockFlag) }).threads t).running =
      some (op, .readLockCas 0 0 s.lock.lockFlag) := by rw [setThread_self]
  have hlast := next_step client ids (s := s.setThread t _) alive hrun 0
  rw [setThread_lock, hcas, settle_ret, setThread_self] at hlast
  change (system client ids).run ([.call t op, .step t 0, .step t 0] ++ [.step t 0]) s = _
  rw [System.run_append, hsample, Option.bind_some, System.run_cons]
  refine (congrArg (Option.bind · _) hlast).trans ?_
  exact congrArg some (setThread_setThread { s with lock := _ } t _ _)

end Sample

end Lock

end ServerCore
