import Mathlib.Data.Finset.Basic
import Mathlib.Order.Interval.Finset.Nat
import ServerCore.Interleaving.System

/-!
# Send buffers, their chunks and the chunk pool

`SendBufferManager::Open` cuts a `SendBuffer` out of the chunk in `tls_SendBufferChunk`.
`SendBuffer::Close` gives back what was not written, and may run on any thread. Nothing
but the pool is under a lock, so each test and each store of `isOpened` and `usedSize` is
a step of its own, between two `Pc`s; `Pop` and `Push` are one step each.

A `shared_ptr` is known by its owner (`Owner`), and the reference count of a chunk is the
number of its owners. The deleter of the last one is `PushGlobal`, which the same thread
runs as its next step. The references to a `SendBuffer` may be held by any thread, so only
their number is kept; `Close` borrows one of them until it returns.

The Debug build is modelled: an assertion that fails ends the run.
-/

namespace ServerCore

namespace SendBufferManager

open Interleaving

def sendBufferChunkSize : UInt32 := 0x2000

/-- A `shared_ptr` to a chunk: the thread-local one, the `ownerChunk` of a `SendBuffer`,
what `Pop` has returned to a thread, or an entry of the pool. -/
inductive Owner (Tid : Type) where
  | tls (t : Tid)
  | sendBuffer (id : ℕ)
  | popped (t : Tid)
  | pool
  deriving DecidableEq

structure SendBufferChunk (Tid : Type) where
  isOpened : Bool := false
  usedSize : UInt32 := 0
  owners : Finset (Owner Tid) := ∅

/-- `buffer.size() - usedSize` in `uint32`. -/
def SendBufferChunk.freeSize {Tid : Type} (chunk : SendBufferChunk Tid) : UInt32 :=
  sendBufferChunkSize - chunk.usedSize

inductive Status where
  | opened
  | closing
  | closed
  deriving DecidableEq, Repr

/-- `buffer` is the index in the array of the chunk. `references` leaves out the one that
a running `Close` has borrowed. -/
structure SendBuffer where
  ownerChunk : ℕ
  buffer : ℕ
  allocSize : UInt32
  writeSize : UInt32 := 0
  status : Status := .opened
  references : ℕ := 1
  deriving DecidableEq, Repr

namespace SendBuffer

/-- The size of the range, which shrinks when `Close` returns. -/
def size (sendBuffer : SendBuffer) : UInt32 :=
  if sendBuffer.status = .closed then sendBuffer.writeSize else sendBuffer.allocSize

/-- The bytes of the chunk that the buffer points to. -/
def range (sendBuffer : SendBuffer) : Finset ℕ :=
  Finset.Ico sendBuffer.buffer (sendBuffer.buffer + sendBuffer.size.toNat)

end SendBuffer

/-- What a thread does next. In `SendBufferManager::Open`, `second` says that the chunk at
hand was too small, and `fresh` that this call has reset the current chunk. `resume` is the
size with which an interrupted `Open` goes on. -/
inductive Pc where
  | idle
  | pop (size : UInt32) (second : Bool)
  | assign (size : UInt32) (second : Bool) (chunk : ℕ)
  | push (chunk : ℕ) (resume : Option UInt32)
  | resetBuffer (size : UInt32) (second : Bool)
  | assertClosed (size : UInt32) (fresh : Bool)
  | testFreeSize (size : UInt32) (fresh : Bool)
  | assertOpen (size : UInt32) (fresh : Bool)
  | chunkFreeSize (size : UInt32) (fresh : Bool)
  | setOpened (size : UInt32) (fresh : Bool)
  | makeShared (size : UInt32) (fresh : Bool)
  | closeAssert (id : ℕ) (writeSize : UInt32)
  | closeOpened (id : ℕ) (writeSize : UInt32)
  | closeUsed (id : ℕ) (writeSize : UInt32)
  deriving DecidableEq, Repr

structure State (Tid : Type) where
  chunks : ℕ → SendBufferChunk Tid := fun _ => {}
  chunkCount : ℕ := 0
  sendBuffers : ℕ → Option SendBuffer := fun _ => none
  sendBufferCount : ℕ := 0
  tlsSendBufferChunk : Tid → Option ℕ := fun _ => none
  sendBufferChunkPool : List ℕ := []
  threads : Tid → Pc := fun _ => .idle
  crashed : Bool := false

namespace State

variable {Tid : Type} [DecidableEq Tid] (s : State Tid)

def setPc (t : Tid) (pc : Pc) : State Tid := { s with threads := Function.update s.threads t pc }

@[simp] theorem setPc_self (t : Tid) (pc : Pc) : (s.setPc t pc).threads t = pc :=
  Function.update_self ..

theorem setPc_of_ne {t u : Tid} (h : u ≠ t) (pc : Pc) : (s.setPc t pc).threads u = s.threads u :=
  Function.update_of_ne h ..

variable {s} in
/-- What a thread does after `setPc` is new, or was so before. -/
theorem setPc_cases {t u : Tid} {pc : Pc} (P : Pc → Prop) (h : P ((s.setPc t pc).threads u)) :
    (u = t ∧ P pc) ∨ (u ≠ t ∧ P (s.threads u)) := by
  obtain rfl | hne := eq_or_ne u t
  · rw [setPc_self] at h
    exact .inl ⟨rfl, h⟩
  · rw [setPc_of_ne s hne] at h
    exact .inr ⟨hne, h⟩

omit [DecidableEq Tid] in
def setChunk (c : ℕ) (chunk : SendBufferChunk Tid) : State Tid :=
  { s with chunks := Function.update s.chunks c chunk }

omit [DecidableEq Tid] in
/-- What the new chunk has in common with the old one is the same for every chunk. -/
theorem setChunk_congr {α : Type} (f : SendBufferChunk Tid → α) {c : ℕ}
    {chunk : SendBufferChunk Tid} (h : f chunk = f (s.chunks c)) (d : ℕ) :
    f ((s.setChunk c chunk).chunks d) = f (s.chunks d) := by
  change f (Function.update s.chunks c chunk d) = _
  obtain rfl | hne := eq_or_ne d c
  · rw [Function.update_self, h]
  · rw [Function.update_of_ne hne]

omit [DecidableEq Tid] in
def setSendBuffer (id : ℕ) (sendBuffer : Option SendBuffer) : State Tid :=
  { s with sendBuffers := Function.update s.sendBuffers id sendBuffer }

omit [DecidableEq Tid] in
variable {s} in
/-- A live buffer after `setSendBuffer` is the new one, or was live before. -/
theorem setSendBuffer_cases {i j : ℕ} {after : Option SendBuffer} {x : SendBuffer}
    (h : (s.setSendBuffer i after).sendBuffers j = some x) :
    (j = i ∧ after = some x) ∨ (j ≠ i ∧ s.sendBuffers j = some x) := by
  change Function.update s.sendBuffers i after j = some x at h
  obtain rfl | hne := eq_or_ne j i
  · rw [Function.update_self] at h
    exact .inl ⟨rfl, h⟩
  · rw [Function.update_of_ne hne] at h
    exact .inr ⟨hne, h⟩

omit [DecidableEq Tid] in
def crash : State Tid := { s with crashed := true }

/-- A `shared_ptr` to the chunk is destroyed. Where it was the last one, the thread runs
the deleter before it goes on. -/
def release (t : Tid) (c : ℕ) (owner : Owner Tid) (resume : Option UInt32) : State Tid :=
  let owners := (s.chunks c).owners.erase owner
  let s := s.setChunk c { s.chunks c with owners }
  if owners = ∅ then s.setPc t (.push c resume)
  else s.setPc t (resume.elim .idle (.resetBuffer · true))

/-- `Pop`: the last chunk of the pool, or a new one. -/
def pop (t : Tid) (size : UInt32) (second : Bool) : State Tid :=
  match s.sendBufferChunkPool.getLast? with
  | some c =>
      { s with sendBufferChunkPool := s.sendBufferChunkPool.dropLast }.setChunk c
        { s.chunks c with owners := insert (Owner.popped t) ((s.chunks c).owners.erase .pool) }
      |>.setPc t (.assign size second c)
  | none =>
      { s with chunkCount := s.chunkCount + 1 }.setChunk s.chunkCount
        { owners := {Owner.popped t} }
      |>.setPc t (.assign size second s.chunkCount)

/-- The assignment to `tls_SendBufferChunk`, which destroys what was there. -/
def assign (t : Tid) (size : UInt32) (second : Bool) (c : ℕ) : State Tid :=
  let old := s.tlsSendBufferChunk t
  let s := { s with tlsSendBufferChunk := Function.update s.tlsSendBufferChunk t (some c) }.setChunk c
    { s.chunks c with owners := insert (Owner.tls t) ((s.chunks c).owners.erase (.popped t)) }
  match old with
  | none => s.setPc t (.resetBuffer size second)
  | some c => s.release t c (.tls t) (some size)

/-- `PushGlobal`. -/
def push (t : Tid) (c : ℕ) (resume : Option UInt32) : State Tid :=
  { s with sendBufferChunkPool := s.sendBufferChunkPool ++ [c] }.setChunk c
    { s.chunks c with owners := {Owner.pool} } |>.setPc t (resume.elim .idle (.resetBuffer · true))

/-- `ResetBuffer` of the current chunk. -/
def resetBuffer (t : Tid) (c : ℕ) (size : UInt32) (second : Bool) : State Tid :=
  s.setChunk c { s.chunks c with isOpened := false, usedSize := 0 } |>.setPc t
    (if second then .assertOpen size true else .assertClosed size true)

/-- `SendBufferChunk::Open` from its return statement on. -/
def makeShared (t : Tid) (c : ℕ) (size : UInt32) : State Tid :=
  let id := s.sendBufferCount
  let chunk := s.chunks c
  { s with sendBufferCount := s.sendBufferCount + 1 }.setSendBuffer id
      (some { ownerChunk := c, buffer := chunk.usedSize.toNat, allocSize := size })
    |>.setChunk c { chunk with owners := insert (Owner.sendBuffer id) chunk.owners }
    |>.setPc t .idle

/-- `SendBuffer::Close` up to its call of `SendBufferChunk::Close`. -/
def close (t : Tid) (id : ℕ) (sendBuffer : SendBuffer) (writeSize : UInt32) : State Tid :=
  if sendBuffer.allocSize < writeSize then s.crash
  else
    s.setSendBuffer id (some { sendBuffer with
      writeSize, status := .closing, references := sendBuffer.references - 1 })
    |>.setPc t (.closeAssert id writeSize)

/-- The second store of `SendBufferChunk::Close`, and the return from both calls. -/
def closeUsed (t : Tid) (id : ℕ) (sendBuffer : SendBuffer) (writeSize : UInt32) : State Tid :=
  let chunk := s.chunks sendBuffer.ownerChunk
  s.setChunk sendBuffer.ownerChunk { chunk with usedSize := chunk.usedSize + writeSize }
    |>.setSendBuffer id (some { sendBuffer with
      status := .closed, references := sendBuffer.references + 1 })
    |>.setPc t .idle

/-- One reference is dropped. The last one destroys the buffer. -/
def drop (t : Tid) (id : ℕ) (sendBuffer : SendBuffer) : State Tid :=
  if sendBuffer.references = 1 ∧ sendBuffer.status ≠ .closing then
    s.setSendBuffer id none |>.release t sendBuffer.ownerChunk (.sendBuffer id) none
  else
    s.setSendBuffer id (some { sendBuffer with references := sendBuffer.references - 1 })

/-- The next step of a thread inside `Open`, `Close` or the deleter. -/
def step (t : Tid) : Option (State Tid) :=
  match s.threads t with
  | .idle => none
  | .pop size second => some (s.pop t size second)
  | .assign size second c => some (s.assign t size second c)
  | .push c resume => some (s.push t c resume)
  | .resetBuffer size second =>
      (s.tlsSendBufferChunk t).map fun c => s.resetBuffer t c size second
  | .assertClosed size fresh =>
      (s.tlsSendBufferChunk t).map fun c =>
        if (s.chunks c).isOpened then s.crash else s.setPc t (.testFreeSize size fresh)
  | .testFreeSize size fresh =>
      (s.tlsSendBufferChunk t).map fun c =>
        s.setPc t (if (s.chunks c).freeSize < size then .pop size true else .assertOpen size fresh)
  | .assertOpen size fresh =>
      (s.tlsSendBufferChunk t).map fun c =>
        if sendBufferChunkSize < size ∨ (s.chunks c).isOpened = true then s.crash
        else s.setPc t (.chunkFreeSize size fresh)
  | .chunkFreeSize size fresh =>
      (s.tlsSendBufferChunk t).map fun c =>
        s.setPc t (if (s.chunks c).freeSize < size then .idle else .setOpened size fresh)
  | .setOpened size fresh =>
      (s.tlsSendBufferChunk t).map fun c =>
        s.setChunk c { s.chunks c with isOpened := true } |>.setPc t (.makeShared size fresh)
  | .makeShared size _ => (s.tlsSendBufferChunk t).map fun c => s.makeShared t c size
  | .closeAssert id writeSize =>
      (s.sendBuffers id).map fun sendBuffer =>
        if (s.chunks sendBuffer.ownerChunk).isOpened = false then s.crash
        else s.setPc t (.closeOpened id writeSize)
  | .closeOpened id writeSize =>
      (s.sendBuffers id).map fun sendBuffer =>
        s.setChunk sendBuffer.ownerChunk
          { s.chunks sendBuffer.ownerChunk with isOpened := false }
        |>.setPc t (.closeUsed id writeSize)
  | .closeUsed id writeSize =>
      (s.sendBuffers id).map fun sendBuffer => s.closeUsed t id sendBuffer writeSize

end State

/-- A thread calls `Open` or `Close`, a reference to a buffer is copied or dropped, or a
thread takes its next step. -/
inductive Event (Tid : Type) where
  | openBuffer (t : Tid) (size : UInt32)
  | closeBuffer (t : Tid) (id : ℕ) (writeSize : UInt32)
  | copyReference (id : ℕ)
  | dropReference (t : Tid) (id : ℕ)
  | step (t : Tid)
  deriving DecidableEq, Repr

variable {Tid : Type} [DecidableEq Tid]

/-- A buffer that somebody holds, for an event of an idle thread. -/
def State.held (s : State Tid) (id : ℕ) : Option SendBuffer :=
  (s.sendBuffers id).filter fun sendBuffer => 0 < sendBuffer.references

/-- Each buffer is closed once at most. -/
def State.next (s : State Tid) (e : Event Tid) : Option (State Tid) :=
  if s.crashed then none
  else
    match e with
    | .openBuffer t size =>
        if s.threads t ≠ .idle then none
        else
          match s.tlsSendBufferChunk t with
          | none => some (s.setPc t (.pop size false))
          | some _ => some (s.setPc t (.assertClosed size false))
    | .closeBuffer t id writeSize =>
        match s.held id with
        | none => none
        | some sendBuffer =>
            if s.threads t = .idle ∧ sendBuffer.status = .opened then
              some (s.close t id sendBuffer writeSize)
            else none
    | .copyReference id =>
        (s.held id).map fun sendBuffer =>
          s.setSendBuffer id (some { sendBuffer with references := sendBuffer.references + 1 })
    | .dropReference t id =>
        match s.held id with
        | none => none
        | some sendBuffer =>
            if s.threads t = .idle then some (s.drop t id sendBuffer) else none
    | .step t => s.step t

/-- All runs of any threads from the start of the process. -/
def system (Tid : Type) [DecidableEq Tid] : System (State Tid) (Event Tid) where
  init s := s = {}
  next := State.next

end SendBufferManager

end ServerCore
