import Mathlib.Data.Int.Notation
import Mathlib.Logic.Function.Basic
import ServerCore.Interleaving.System

/-!
# The send path of a session

`Send` queues a buffer and, if no send is registered, calls `RegisterSend` outside the
lock; `ProcessSend` clears the completed batch and, if more is queued, calls
`RegisterSend` inside the lock. `RegisterSend` moves the whole queue to the batch in
`sendEvent`. It hands the batch to nobody yet: the batch counts as submitted when the
function returns, and gets one completion with any number of bytes.

Each thread has a stack of `Frame`s, innermost first, one for each member function it
is inside. A frame names the next atomic step of its function: one access to the
shared state, or one block under `WRITE_LOCK`. `OnSend` is content code, which may
call `Send` again, as may a thread that is outside every call.

`accepted` and `completed` record the buffers in the order of their `emplace` and of
the `clear` of their batch; `disconnects` records the calls of `Disconnect`, whose body
is empty. No step reads them.
-/

namespace ServerCore

namespace Send

open Interleaving

/-- The next step of a call of `Send` or `ProcessSend`. `RegisterSend` has frames of its
own when it is called outside the lock. -/
inductive Frame (Buf : Type) where
  | send (sendBuffer : Buf)
  | sendBlock (sendBuffer : Buf)
  | registerSend
  | initOverlapped
  | collectBlock
  | buildWsaBufs
  | processSend (bytesTransferred : Int32)
  | clearBuffers (bytesTransferred : Int32)
  | onSend
  | releaseBlock
  deriving DecidableEq, Repr

/-- The members of `Session` that the send path uses, and the histories. `outstanding`
says that a batch was submitted and its completion is still to be dequeued. -/
structure Shared (Buf : Type) where
  isConnected : Bool := false
  sendQueue : List Buf := []
  isSendRegistered : Bool := false
  sendBuffers : List Buf := []
  sendEventOwned : Bool := false
  outstanding : Bool := false
  disconnectRegistered : Bool := false
  crashed : Bool := false
  accepted : List Buf := []
  completed : List Buf := []
  disconnects : List String := []
  deriving DecidableEq

variable {Tid Buf : Type}

/-- The loop of `RegisterSend`: the front of the queue goes to the end of the batch,
until the queue is empty. -/
def collectLoop : List Buf → List Buf → List Buf × List Buf
  | [], sendBuffers => ([], sendBuffers)
  | sendBuffer :: sendQueue, sendBuffers => collectLoop sendQueue (sendBuffers ++ [sendBuffer])

theorem collectLoop_eq (sendQueue sendBuffers : List Buf) :
    collectLoop sendQueue sendBuffers = ([], sendBuffers ++ sendQueue) := by
  induction sendQueue generalizing sendBuffers with
  | nil => rw [collectLoop, List.append_nil]
  | cons sendBuffer sendQueue ih =>
      rw [collectLoop, ih, List.append_assoc]
      rfl

namespace Shared

variable (sh : Shared Buf)

/-- `sendQueue.emplace` and `isSendRegistered.exchange(true)`, under the lock. -/
def emplace (sendBuffer : Buf) : Shared Buf :=
  { sh with
    sendQueue := sh.sendQueue ++ [sendBuffer]
    isSendRegistered := true
    accepted := sh.accepted ++ [sendBuffer] }

/-- `sendEvent.InitOverlapped()`, and `sendEvent.ownerSession = shared_from_this()`. -/
def initEvent : Shared Buf := { sh with sendEventOwned := true }

/-- The block under the lock in `RegisterSend`. -/
def collect : Shared Buf :=
  let (sendQueue, sendBuffers) := collectLoop sh.sendQueue sh.sendBuffers
  { sh with sendQueue, sendBuffers }

/-- The end of `RegisterSend`. Its `wsaBufs` are not used. -/
def submit : Shared Buf := { sh with outstanding := true }

/-- `RegisterSend` as `ProcessSend` calls it, inside the lock. -/
def registerSend : Shared Buf :=
  if sh.isConnected = false then sh else sh.initEvent.collect.submit

/-- `sendEvent.sendBuffers.clear()`. -/
def clearBuffers : Shared Buf :=
  { sh with sendBuffers := [], completed := sh.completed ++ sh.sendBuffers }

def disconnect (cause : String) : Shared Buf :=
  { sh with disconnects := sh.disconnects ++ [cause] }

end Shared

theorem collect_eq (sh : Shared Buf) :
    sh.collect = { sh with sendQueue := [], sendBuffers := sh.sendBuffers ++ sh.sendQueue } := by
  rw [Shared.collect, collectLoop_eq]

/-- One step of the innermost frame: the new shared state and the frames that replace
this one. `OnSend` has no step of its own. -/
def Frame.exec (sh : Shared Buf) : Frame Buf → Option (Shared Buf × List (Frame Buf))
  | .send sendBuffer =>
      if sh.isConnected = false then some (sh, []) else some (sh, [.sendBlock sendBuffer])
  | .sendBlock sendBuffer =>
      if sh.isSendRegistered = false then some (sh.emplace sendBuffer, [.registerSend])
      else some (sh.emplace sendBuffer, [])
  | .registerSend =>
      if sh.isConnected = false then some (sh, []) else some (sh, [.initOverlapped])
  | .initOverlapped => some (sh.initEvent, [.collectBlock])
  | .collectBlock => some (sh.collect, [.buildWsaBufs])
  | .buildWsaBufs => some (sh.submit, [])
  | .processSend bytesTransferred =>
      some ({ sh with sendEventOwned := false }, [.clearBuffers bytesTransferred])
  | .clearBuffers bytesTransferred =>
      if bytesTransferred = 0 then some (sh.clearBuffers.disconnect "Send 0", [])
      else some (sh.clearBuffers, [.onSend])
  | .onSend => none
  | .releaseBlock =>
      if sh.sendQueue.isEmpty then some ({ sh with isSendRegistered := false }, [])
      else some (sh.registerSend, [])

structure State (Tid Buf : Type) where
  shared : Shared Buf := {}
  threads : Tid → List (Frame Buf) := fun _ => []

/-- `ProcessConnect` stores `isConnected`; client code calls `RegisterDisconnect`, and
`DisconnectEx` takes the request or not; client code calls `Send`; a thread dequeues
the completion of the batch; the innermost call makes its next step; `OnSend`
returns. -/
inductive Event (Tid Buf : Type) where
  | connect
  | registerDisconnect (issued : Bool)
  | send (t : Tid) (sendBuffer : Buf)
  | complete (t : Tid) (bytesTransferred : Int32)
  | step (t : Tid)
  | endOnSend (t : Tid)

/-- The thread runs content code: it is outside every call, or inside `OnSend`. -/
def inContent : List (Frame Buf) → Bool
  | [] => true
  | .onSend :: _ => true
  | _ => false

variable [DecidableEq Tid]

def State.setThread (s : State Tid Buf) (t : Tid) (stack : List (Frame Buf)) : State Tid Buf :=
  { s with threads := Function.update s.threads t stack }

/-- `DispatchCompletionPacket` runs `DispatchEvent` on the owner of the event; without
an owner it crashes, and nothing moves any more. -/
def State.dispatch (s : State Tid Buf) (t : Tid) (bytesTransferred : Int32) : State Tid Buf :=
  if s.shared.sendEventOwned then
    { s with shared := { s.shared with outstanding := false } }.setThread t
      (.processSend bytesTransferred :: s.threads t)
  else { s with shared := { s.shared with outstanding := false, crashed := true } }

def State.next (s : State Tid Buf) (e : Event Tid Buf) : Option (State Tid Buf) :=
  if s.shared.crashed then none
  else
    match e with
    | .connect => some { s with shared := { s.shared with isConnected := true } }
    | .registerDisconnect issued =>
        some { s with shared := { s.shared with
          disconnectRegistered := s.shared.disconnectRegistered || issued } }
    | .send t sendBuffer =>
        if inContent (s.threads t) then
          some (s.setThread t (.send sendBuffer :: s.threads t))
        else none
    | .complete t bytesTransferred =>
        if s.shared.outstanding ∧ inContent (s.threads t) then
          some (s.dispatch t bytesTransferred)
        else none
    | .step t =>
        match s.threads t with
        | [] => none
        | frame :: rest =>
            match frame.exec s.shared with
            | none => none
            | some (shared, frames) => some ({ s with shared }.setThread t (frames ++ rest))
    | .endOnSend t =>
        match s.threads t with
        | .onSend :: rest => some (s.setThread t (.releaseBlock :: rest))
        | _ => none

/-- All interleavings of any number of senders and of completions, from a session that
is not connected yet. -/
def system : System (State Tid Buf) (Event Tid Buf) where
  init s := s = {}
  next := State.next

@[simp] theorem setThread_shared (s : State Tid Buf) (t : Tid) (stack : List (Frame Buf)) :
    (s.setThread t stack).shared = s.shared := rfl

/-- What a step can do: the connection changes, client code calls `Send`, a completion
is dispatched to its owner or to nobody, the innermost frame moves, or `OnSend`
returns. -/
inductive State.Step (s : State Tid Buf) : Event Tid Buf → State Tid Buf → Prop where
  | connect : Step s .connect { s with shared := { s.shared with isConnected := true } }
  | registerDisconnect (issued : Bool) :
      Step s (.registerDisconnect issued) { s with shared := { s.shared with
        disconnectRegistered := s.shared.disconnectRegistered || issued } }
  | send (t : Tid) (sendBuffer : Buf) :
      Step s (.send t sendBuffer) (s.setThread t (.send sendBuffer :: s.threads t))
  | complete {t : Tid} {n : Int32} :
      s.shared.outstanding = true → s.shared.sendEventOwned = true →
      Step s (.complete t n) ({ s with shared := { s.shared with outstanding := false } }.setThread
        t (.processSend n :: s.threads t))
  | crash {t : Tid} {n : Int32} :
      s.shared.outstanding = true → s.shared.sendEventOwned = false →
      Step s (.complete t n)
        { s with shared := { s.shared with outstanding := false, crashed := true } }
  | frame {t : Tid} {frame : Frame Buf} {rest frames : List (Frame Buf)} {shared : Shared Buf} :
      s.threads t = frame :: rest → frame.exec s.shared = some (shared, frames) →
      Step s (.step t) ({ s with shared }.setThread t (frames ++ rest))
  | endOnSend {t : Tid} {rest : List (Frame Buf)} : s.threads t = .onSend :: rest →
      Step s (.endOnSend t) (s.setThread t (.releaseBlock :: rest))

theorem step_of_next {s s' : State Tid Buf} {e : Event Tid Buf} (h : s.next e = some s') :
    s.Step e s' := by
  simp only [State.next] at h
  split at h
  · cases h
  · cases e with
    | connect =>
        cases h
        exact .connect
    | registerDisconnect issued =>
        cases h
        exact .registerDisconnect issued
    | send t sendBuffer =>
        simp only at h
        split at h <;> cases h
        exact .send t sendBuffer
    | complete t n =>
        simp only at h
        split at h
        · next hcomplete =>
            cases h
            rw [State.dispatch]
            split
            · next howned => exact .complete hcomplete.1 howned
            · next howned => exact .crash hcomplete.1 (Bool.eq_false_iff.mpr howned)
        · cases h
    | step t =>
        simp only at h
        split at h
        · cases h
        · next hstack =>
            split at h
            · cases h
            · next hexec =>
                cases h
                exact .frame hstack hexec
    | endOnSend t =>
        simp only at h
        split at h
        · next hstack =>
            cases h
            exact .endOnSend hstack
        · cases h

end Send

end ServerCore
