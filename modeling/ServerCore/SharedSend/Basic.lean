import ServerCore.SendBuffer.Contents
import ServerCore.Session.Outstanding

/-!
# Send buffers that sessions share

`Session::Send` takes a `shared_ptr`, so client code may give one buffer to any number of
sessions, as `Service::BroadCast` does, and keep or drop its own references meanwhile. A
session refers to a buffer from `_sendBuffer`, from an entry of `sendQueue` and from an
entry of `sendEvent.sendBuffers`, and nothing but these references keeps the bytes that it
is going to send from being used again.

`clients` counts the references of client code, `_sendBuffer` included once `Send` has
queued the buffer or has found the session not connected: client code drops it later. The
references of a batch that `ProcessSend` clears are dropped one after the other, with the
deleters in between, and are in `clearing` until then. The other copies that the send path
makes of a `shared_ptr` are gone at the end of the same step.

`sent` and `transferred` record, for each session, what the buffers showed when `Send`
queued them and when their batch was cleared. No step reads them.
-/

namespace ServerCore

open Interleaving

namespace Send

variable {Tid Buf : Type}

/-- The `_sendBuffer` of a call of `Send` that has not queued it yet. -/
def Frame.parameter : Frame Buf → Option Buf
  | .send sendBuffer => some sendBuffer
  | .sendBlock sendBuffer => some sendBuffer
  | _ => none

def Frame.parameters [DecidableEq Buf] (sendBuffer : Buf) (frame : Frame Buf) : ℕ :=
  frame.parameter.toList.count sendBuffer

def Event.argument : Event Tid Buf → Option Buf
  | .send _ sendBuffer => some sendBuffer
  | _ => none

namespace State

variable (s : State Tid Buf)

/-- The buffer that the event puts into the queue. -/
def emplaced : Event Tid Buf → Option Buf
  | .step t =>
      match s.threads t with
      | .sendBlock sendBuffer :: _ => some sendBuffer
      | _ => none
  | _ => none

/-- The buffer of which the event makes a reference: `_sendBuffer`, or the entry of the
queue. -/
def copied : Event Tid Buf → Option Buf
  | .send _ sendBuffer => some sendBuffer
  | e => s.emplaced e

/-- The `_sendBuffer` that nothing but the return from `Send` needs after the event. -/
def returned : Event Tid Buf → Option Buf
  | .step t =>
      match s.threads t with
      | .send sendBuffer :: _ => if s.shared.isConnected = false then some sendBuffer else none
      | .sendBlock sendBuffer :: _ => some sendBuffer
      | _ => none
  | _ => none

/-- The batch that `ProcessSend` clears. -/
def cleared : Event Tid Buf → List Buf
  | .step t =>
      match s.threads t with
      | .clearBuffers _ :: _ => s.shared.sendBuffers
      | _ => []
  | _ => []

/-- The references to the buffer that the session and the calls of `Send` on it have. -/
def shares [Fintype Tid] [DecidableEq Buf] (sendBuffer : Buf) : ℕ :=
  s.total (Frame.parameters sendBuffer) +
    (s.shared.sendBuffers ++ s.shared.sendQueue).count sendBuffer

end State

end Send

namespace SendBufferManager

/-- The reference that a running `Close` has borrowed. -/
def SendBuffer.borrowed (sendBuffer : SendBuffer) : ℕ :=
  if sendBuffer.status = .closing then 1 else 0

namespace State

variable {Tid : Type} (s : State Tid)

def borrowed (id : ℕ) : ℕ := (s.sendBuffers id).elim 0 SendBuffer.borrowed

/-- All references to the buffer. -/
def references (id : ℕ) : ℕ :=
  (s.sendBuffers id).elim 0 fun sendBuffer => sendBuffer.references + sendBuffer.borrowed

/-- The buffer that the event makes a reference to. -/
def gained : Event Tid → Option ℕ
  | .copyReference id => some id
  | .step t =>
      match s.threads t with
      | .makeShared _ _ => some s.sendBufferCount
      | _ => none
  | _ => none

end State

/-- The buffer that the event drops a reference to. -/
def Event.lost {Tid : Type} : Event Tid → Option ℕ
  | .dropReference _ id => some id
  | _ => none

end SendBufferManager

namespace SharedSend

structure State (Sid Tid : Type) where
  buffers : SendBufferManager.Contents.State Tid := {}
  sessions : Sid → Send.State Tid ℕ := fun _ => {}
  clients : ℕ → ℕ := fun _ => 0
  clearing : Tid → List ℕ := fun _ => []
  sent : Sid → List (List UInt8) := fun _ => []
  transferred : Sid → List (List UInt8) := fun _ => []

/-- Client code opens, closes, copies, drops or writes a buffer; a step of the send path of
a session; or the thread drops the next reference of the batch that it clears. -/
inductive Event (Sid Tid : Type) where
  | client (e : SendBufferManager.Contents.Event Tid)
  | session (sid : Sid) (e : Send.Event Tid ℕ)
  | clear (t : Tid)

namespace State

variable {Sid Tid : Type} (s : State Sid Tid)

/-- The bytes of a buffer that is live. -/
def shown (id : ℕ) : List UInt8 := (s.buffers.manager.sendBuffers id).elim [] s.buffers.bytes

/-- The thread is in no call of the buffers: it runs the send path or client code. -/
def Outside (t : Tid) : Prop := s.clearing t = [] ∧ s.buffers.manager.threads t = .idle

/-- The thread runs client code. -/
def Content (t : Tid) : Prop :=
  s.Outside t ∧ ∀ sid, Send.inContent ((s.sessions sid).threads t) = true

instance (t : Tid) : Decidable (s.Outside t) := inferInstanceAs (Decidable (_ ∧ _))

instance [Fintype Sid] (t : Tid) : Decidable (s.Content t) := inferInstanceAs (Decidable (_ ∧ _))

/-- The event may happen: client code has a reference to the buffer, and one that it drops
is not the one that a running `Close` has borrowed. -/
def ClientReady : SendBufferManager.Contents.Event Tid → Prop
  | .manager (.openBuffer t _) => s.Content t
  | .manager (.closeBuffer t id _) => s.Content t ∧ 0 < s.clients id
  | .manager (.copyReference id) => 0 < s.clients id
  | .manager (.dropReference t id) => s.Content t ∧ s.buffers.manager.borrowed id < s.clients id
  | .manager (.step _) => True
  | .write id _ _ => 0 < s.clients id

/-- The event may happen: the thread runs client code, or goes on with its call. -/
def SessionReady : Send.Event Tid ℕ → Prop
  | .connect => True
  | .registerDisconnect _ => True
  | .send t sendBuffer => s.Content t ∧ 0 < s.clients sendBuffer
  | .complete t _ => s.Content t
  | .step t => s.Outside t
  | .endOnSend t => s.Content t

instance [Fintype Sid] : ∀ e, Decidable (s.ClientReady e)
  | .manager (.openBuffer t _) => inferInstanceAs (Decidable (s.Content t))
  | .manager (.closeBuffer t id _) => inferInstanceAs (Decidable (s.Content t ∧ 0 < s.clients id))
  | .manager (.copyReference id) => inferInstanceAs (Decidable (0 < s.clients id))
  | .manager (.dropReference t id) =>
      inferInstanceAs (Decidable (s.Content t ∧ s.buffers.manager.borrowed id < s.clients id))
  | .manager (.step _) => .isTrue trivial
  | .write id _ _ => inferInstanceAs (Decidable (0 < s.clients id))

instance [Fintype Sid] : ∀ e, Decidable (s.SessionReady e)
  | .connect => .isTrue trivial
  | .registerDisconnect _ => .isTrue trivial
  | .send t b => inferInstanceAs (Decidable (s.Content t ∧ 0 < s.clients b))
  | .complete t _ => inferInstanceAs (Decidable (s.Content t))
  | .step t => inferInstanceAs (Decidable (s.Outside t))
  | .endOnSend t => inferInstanceAs (Decidable (s.Content t))

/-- The references of client code after its own event. -/
def clientsAfter : SendBufferManager.Contents.Event Tid → ℕ → ℕ
  | .manager (.copyReference id) => Function.update s.clients id (s.clients id + 1)
  | .manager (.dropReference _ id) => Function.update s.clients id (s.clients id - 1)
  | .manager (.step t) =>
      match s.buffers.manager.threads t with
      | .makeShared _ _ => Function.update s.clients s.buffers.manager.sendBufferCount 1
      | _ => s.clients
  | _ => s.clients

/-- Client code has the reference that `Send` gives back. -/
def giveBack : Option ℕ → ℕ → ℕ
  | none => s.clients
  | some id => Function.update s.clients id (s.clients id + 1)

variable [DecidableEq Tid]

/-- A `shared_ptr` is copied, or the step needs none. -/
def copy : Option ℕ → Option (SendBufferManager.Contents.State Tid)
  | none => if s.buffers.manager.crashed then none else some s.buffers
  | some id => s.buffers.next (.manager (.copyReference id))

variable [DecidableEq Sid]

/-- The step `e` brings the send path of the session to `session`. -/
def moveSession (sid : Sid) (e : Send.Event Tid ℕ) (session : Send.State Tid ℕ)
    (buffers : SendBufferManager.Contents.State Tid) : State Sid Tid :=
  let before := s.sessions sid
  { buffers
    sessions := Function.update s.sessions sid session
    clients := s.giveBack (before.returned e)
    clearing :=
      match e with
      | .step t => Function.update s.clearing t (before.cleared e)
      | _ => s.clearing
    sent := Function.update s.sent sid (s.sent sid ++ (before.emplaced e).toList.map s.shown)
    transferred := Function.update s.transferred sid
      (s.transferred sid ++ (before.cleared e).map s.shown) }

def next [Fintype Sid] (s : State Sid Tid) : Event Sid Tid → Option (State Sid Tid)
  | .client e =>
      if s.ClientReady e then
        (s.buffers.next e).map fun buffers => { s with buffers, clients := s.clientsAfter e }
      else none
  | .session sid e =>
      if s.SessionReady e then
        ((s.sessions sid).next e).bind fun session =>
          (s.copy ((s.sessions sid).copied e)).map (s.moveSession sid e session)
      else none
  | .clear t =>
      match s.clearing t with
      | [] => none
      | id :: rest =>
          (s.buffers.next (.manager (.dropReference t id))).map fun buffers =>
            { s with buffers, clearing := Function.update s.clearing t rest }

end State

/-- All interleavings of any number of threads on any number of sessions, from the start of
the process. -/
def system (Sid Tid : Type) [DecidableEq Sid] [DecidableEq Tid] [Fintype Sid] :
    System (State Sid Tid) (Event Sid Tid) where
  init s := s = {}
  next := State.next

end SharedSend

end ServerCore
