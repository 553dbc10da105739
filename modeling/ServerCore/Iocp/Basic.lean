import Mathlib.Logic.Function.Basic
import ServerCore.Interleaving.System
import ServerCore.Service.Basic
import ServerCore.Session.Receive

/-!
# Completion packets and their dispatch

Sessions and listeners register `IocpEvent`s; `DispatchCompletionPacket` dequeues their
completions and calls `DispatchEvent` of the object in the event's `ownerSession`. All
sessions belong to one service, which outlives them.

A call of a member function is one step, and so is each part of a handler between two
calls of content code: `handlers` are the handlers that are inside `OnConnected`,
`OnDisconnected`, `OnRecv` or `OnSend`. What the operating system and content code
answer is part of the event of a step. `outstanding` counts the operations of an event
that were started and whose completion was not dequeued. `RegisterSend` hands its
buffers to nobody; its batch counts as started. `RegisterAccept` calls itself until
`AcceptEx` is started, so its step carries the attempts that it makes.

A null pointer that is dereferenced, a cast to the wrong class and a failed assertion
end the run (`Crash`). `dispatched` and `admissions` are histories that no step reads:
the handler that ran for each dequeued completion, and the calls of `ProcessConnect`.
-/

namespace ServerCore

namespace Iocp

open Interleaving
open Receive (CallResult wsaIoPending)

inductive EventType where
  | connect
  | disconnect
  | accept
  | recv
  | send
  deriving DecidableEq, Repr

/-- The element of `acceptEvents` of the listener. -/
structure AcceptEvent (L : Type) where
  listener : L
  index : ℕ
  deriving DecidableEq

/-- One of the four events of a session, or an `AcceptEvent`. -/
inductive IocpEvent (S L : Type) where
  | connectEvent (session : S)
  | disconnectEvent (session : S)
  | recvEvent (session : S)
  | sendEvent (session : S)
  | acceptEvent (acceptEvent : AcceptEvent L)
  deriving DecidableEq

def IocpEvent.eventType {S L : Type} : IocpEvent S L → EventType
  | .connectEvent _ => .connect
  | .disconnectEvent _ => .disconnect
  | .recvEvent _ => .recv
  | .sendEvent _ => .send
  | .acceptEvent _ => .accept

/-- The objects that carry out overlapped operations. -/
inductive ISession (S L : Type) where
  | session (session : S)
  | listener (listener : L)
  deriving DecidableEq

inductive ServiceType where
  | server
  | client
  deriving DecidableEq, Repr

structure NetAddress where
  sinAddr : UInt32 := 0
  sinPort : UInt16 := 0
  deriving DecidableEq, Repr

/-- The data members of `Session` that its handlers use, without its events. -/
structure Session (Buf : Type) where
  netAddress : NetAddress := {}
  isConnected : Bool := false
  recvBuffer : RecvBuffer
  sendQueue : List Buf := []
  isSendRegistered : Bool := false
  sendBuffers : List Buf := []

/-- A handler that is inside content code. `ProcessConnect` may have been called by
`ProcessAccept`, which will arm its event again. -/
inductive Handler (S L : Type) where
  | onConnected (session : S) (acceptEvent : Option (AcceptEvent L))
  | onDisconnected (session : S)
  | onRecv (session : S) (dataSize : Int32)
  | onSend (session : S)

/-- The handler that `DispatchEvent` runs, and the object it runs on. -/
inductive Handled (S L : Type) where
  | processConnect (session : S)
  | processDisconnect (session : S)
  | processRecv (session : S)
  | processSend (session : S)
  | processAccept (listener : L) (acceptEvent : AcceptEvent L)
  deriving DecidableEq

inductive Crash where
  | nullIocpEvent
  | nullOwner
  | nullSession
  | badCast
  | assertion
  deriving DecidableEq, Repr

/-- What made a session connected: the completion of `ConnectEx`, successful or not, or
an accept. -/
inductive Admission where
  | connected (successful : Bool)
  | accepted
  deriving DecidableEq, Repr

/-- One call of `AcceptEx` in `RegisterAccept`, for the session that `CreateSession`
returned. -/
structure Attempt (S : Type) where
  session : Option S
  result : CallResult

/-- What `ProcessAccept` is answered: by `SyncSocketContext`, by `getpeername`, and in
`RegisterAccept`. -/
structure AcceptAnswers (S : Type) where
  syncSocketContext : Bool := true
  getpeername : Bool := true
  sockAddr : NetAddress := {}
  attempts : List (Attempt S) := []

/-- What a callback and the calls after it return. -/
structure Answer (S : Type) where
  processLen : Int32 := 0
  result : CallResult
  attempts : List (Attempt S) := []

/-- What `GetQueuedCompletionStatus` returns and stores, and the last error. -/
structure Dequeued (S L : Type) where
  successful : Bool
  iocpEvent : Option (IocpEvent S L)
  bytesTransferred : Int32 := 0
  errorCode : Int32 := 0

def waitTimeout : Int32 := 258

structure World (S L Buf : Type) where
  build : Build
  serviceType : ServiceType
  maxSessionCount : Int32 := 1
  service : Service S := {}
  sessions : S → Session Buf
  acceptEvents : L → ℕ := fun _ => 0
  ownerSession : IocpEvent S L → Option (ISession S L) := fun _ => none
  outstanding : IocpEvent S L → ℕ := fun _ => 0
  handlers : List (Handler S L) := []
  crash : Option Crash := none
  dispatched : List (IocpEvent S L × Option (Handled S L)) := []
  admissions : List (S × Admission) := []

namespace World

variable {S L Buf : Type} [DecidableEq S] [DecidableEq L] (w : World S L Buf)

def crashed (crash : Crash) : World S L Buf := { w with crash := some crash }

def setSession (session : S) (data : Session Buf) : World S L Buf :=
  { w with sessions := Function.update w.sessions session data }

def setOwner (iocpEvent : IocpEvent S L) (owner : Option (ISession S L)) : World S L Buf :=
  { w with ownerSession := Function.update w.ownerSession iocpEvent owner }

/-- An operation of the event was started. -/
def start (iocpEvent : IocpEvent S L) : World S L Buf :=
  { w with outstanding := Function.update w.outstanding iocpEvent (w.outstanding iocpEvent + 1) }

def enter (handler : Handler S L) : World S L Buf := { w with handlers := handler :: w.handlers }

/-- `Session::Disconnect` has an empty body. -/
def disconnect (_session : S) (_cause : String) : World S L Buf := w

/-- `setup` says that `SetReuseAddress` and `BindAnyAddress` succeed. A failed `ConnectEx`
resets the owner of `disconnectEvent`, as the source has it. -/
def registerConnect (session : S) (setup : Bool) (result : CallResult) : Bool × World S L Buf :=
  if (w.sessions session).isConnected then (false, w)
  else if w.serviceType ≠ .client then (false, w)
  else if setup = false then (false, w)
  else
    let w := w.setOwner (.connectEvent session) (some (.session session))
    if result.posted then (true, w.start (.connectEvent session))
    else (false, w.setOwner (.disconnectEvent session) none)

/-- The answer is `false` in every case. -/
def registerDisconnect (session : S) (result : CallResult) : Bool × World S L Buf :=
  let w := w.setOwner (.disconnectEvent session) (some (.session session))
  if result.posted then (false, w.start (.disconnectEvent session))
  else (false, w.setOwner (.disconnectEvent session) none)

/-- The source looks for an error where `WSARecv` has not failed. -/
def registerRecv (session : S) (result : CallResult) : World S L Buf :=
  if (w.sessions session).isConnected = false then w
  else
    let w := w.setOwner (.recvEvent session) (some (.session session))
    let w := if result.posted then w.start (.recvEvent session) else w
    if result.socketError = false ∧ result.errorCode ≠ wsaIoPending then
      w.setOwner (.recvEvent session) none
    else w

def registerSend (session : S) : World S L Buf :=
  if (w.sessions session).isConnected = false then w
  else
    let data := w.sessions session
    let w := w.setOwner (.sendEvent session) (some (.session session))
    let w := w.setSession session
      { data with sendQueue := [], sendBuffers := data.sendBuffers ++ data.sendQueue }
    w.start (.sendEvent session)

def send (session : S) (sendBuffer : Buf) : World S L Buf :=
  let data := w.sessions session
  if data.isConnected = false then w
  else
    let w := w.setSession session
      { data with sendQueue := data.sendQueue ++ [sendBuffer], isSendRegistered := true }
    if data.isSendRegistered then w else w.registerSend session

/-- `ProcessConnect` up to its call of `OnConnected`. -/
def processConnect (session : S) (admission : Admission)
    (acceptEvent : Option (AcceptEvent L)) : World S L Buf :=
  let w := w.setOwner (.connectEvent session) none
  let w := w.setSession session { w.sessions session with isConnected := true }
  { w with
    service := w.service.addSession session
    admissions := w.admissions ++ [(session, admission)] }.enter (.onConnected session acceptEvent)

/-- `ProcessDisconnect` up to its call of `OnDisconnected`. -/
def processDisconnect (session : S) : World S L Buf :=
  (w.setOwner (.disconnectEvent session) none).enter (.onDisconnected session)

/-- `ProcessDisconnect` from the return of `OnDisconnected` on. -/
def finishDisconnect (session : S) : World S L Buf :=
  match w.service.releaseSession w.build session with
  | none => w.crashed .assertion
  | some service => { w with service }

/-- `ProcessRecv` up to its call of `OnRecv`. -/
def processRecv (session : S) (bytesTransferred : Int32) : World S L Buf :=
  let w := w.setOwner (.recvEvent session) none
  let data := w.sessions session
  if bytesTransferred = 0 then w.disconnect session "Recv 0"
  else
    match data.recvBuffer.onWrite bytesTransferred with
    | none => w.disconnect session "OnWrite overflow"
    | some recvBuffer =>
        (w.setSession session { data with recvBuffer }).enter
          (.onRecv session recvBuffer.dataSize)

/-- `ProcessRecv` from the return of `OnRecv` on. -/
def finishRecv (session : S) (dataSize processLen : Int32) (result : CallResult) :
    World S L Buf :=
  let data := w.sessions session
  if processLen < 0 ∨ dataSize < processLen then w.disconnect session "OnRead overflow"
  else
    match data.recvBuffer.onRead processLen with
    | none => w.disconnect session "OnRead overflow"
    | some recvBuffer =>
        (w.setSession session { data with recvBuffer := recvBuffer.clean }).registerRecv session
          result

/-- `ProcessSend` up to its call of `OnSend`. -/
def processSend (session : S) (bytesTransferred : Int32) : World S L Buf :=
  let w := w.setOwner (.sendEvent session) none
  let w := w.setSession session { w.sessions session with sendBuffers := [] }
  if bytesTransferred = 0 then w.disconnect session "Send 0" else w.enter (.onSend session)

/-- `ProcessSend` from the return of `OnSend` on. -/
def finishSend (session : S) : World S L Buf :=
  let data := w.sessions session
  if data.sendQueue.isEmpty then w.setSession session { data with isSendRegistered := false }
  else w.registerSend session

/-- `Listener::RegisterAccept`, as far as the attempts go. Without an attempt that starts
or crashes it has not returned. -/
def registerAccept (acceptEvent : AcceptEvent L) :
    List (Attempt S) → World S L Buf → Option (World S L Buf)
  | [], _ => none
  | attempt :: rest, w =>
      match attempt.session with
      | none => some (w.crashed .nullSession)
      | some session =>
          let w := w.setOwner (.acceptEvent acceptEvent) (some (.session session))
          if attempt.result.posted then some (w.start (.acceptEvent acceptEvent))
          else registerAccept acceptEvent rest w

/-- `Listener::ProcessAccept`, with the call of `ProcessConnect` up to `OnConnected`. The
source takes a `getpeername` that has not failed for a failure. -/
def processAccept (acceptEvent : AcceptEvent L) (answers : AcceptAnswers S) :
    Option (World S L Buf) :=
  match w.ownerSession (.acceptEvent acceptEvent) with
  | none => some (w.crashed .nullSession)
  | some (.listener _) => some (w.crashed .badCast)
  | some (.session session) =>
      if answers.syncSocketContext = false then registerAccept acceptEvent answers.attempts w
      else if answers.getpeername then registerAccept acceptEvent answers.attempts w
      else
        let w := w.setSession session
          { w.sessions session with netAddress := answers.sockAddr }
        some (w.processConnect session .accepted (some acceptEvent))

/-- The loop of `StartAccept` over the events that it creates. -/
def startAcceptLoop (listener : L) : List (List (Attempt S)) → World S L Buf →
    Option (World S L Buf)
  | [], w => some w
  | attempts :: rest, w =>
      let acceptEvent := { listener, index := w.acceptEvents listener }
      let w := { w with
        acceptEvents := Function.update w.acceptEvents listener (w.acceptEvents listener + 1) }
      let w := w.setOwner (.acceptEvent acceptEvent) (some (.listener listener))
      (registerAccept acceptEvent attempts w).bind fun w =>
        if w.crash.isSome then some w else startAcceptLoop listener rest w

/-- `Listener::StartAccept`. `setup` says that the listening socket is made and bound. -/
def startAccept (listener : L) (setup : Bool) (attempts : List (List (Attempt S))) :
    Option (World S L Buf) :=
  if setup = false then some w
  else if attempts.length = w.maxSessionCount.toInt.toNat then
    startAcceptLoop listener attempts w
  else none

/-- `Session::DispatchEvent`, with the handler that it runs. -/
def dispatchSession (session : S) (iocpEvent : IocpEvent S L) (successful : Bool)
    (bytesTransferred : Int32) : Option (Handled S L) × World S L Buf :=
  match iocpEvent.eventType with
  | .connect =>
      (some (.processConnect session),
        w.processConnect session (.connected successful) none)
  | .disconnect => (some (.processDisconnect session), w.processDisconnect session)
  | .recv => (some (.processRecv session), w.processRecv session bytesTransferred)
  | .send => (some (.processSend session), w.processSend session bytesTransferred)
  | .accept => (none, w)

/-- `Listener::DispatchEvent`, with the handler that it runs. -/
def dispatchListener (listener : L) (iocpEvent : IocpEvent S L) (answers : AcceptAnswers S) :
    Option (Option (Handled S L) × World S L Buf) :=
  match iocpEvent with
  | .acceptEvent acceptEvent =>
      (w.processAccept acceptEvent answers).map
        (some (.processAccept listener acceptEvent), ·)
  | _ =>
      match w.build with
      | .debug => some (none, w.crashed .assertion)
      | .release => some (none, w.crashed .badCast)

/-- What `DispatchCompletionPacket` does with a dequeued event. -/
def dispatchEvent (iocpEvent : IocpEvent S L) (dequeued : Dequeued S L)
    (answers : AcceptAnswers S) : Option (Option (Handled S L) × World S L Buf) :=
  match w.ownerSession iocpEvent with
  | none => some (none, w.crashed .nullOwner)
  | some (.session session) =>
      some (w.dispatchSession session iocpEvent dequeued.successful dequeued.bytesTransferred)
  | some (.listener listener) => w.dispatchListener listener iocpEvent answers

/-- The completion left the queue. -/
def dequeue (iocpEvent : IocpEvent S L) : World S L Buf :=
  { w with outstanding := Function.update w.outstanding iocpEvent (w.outstanding iocpEvent - 1) }

def record (iocpEvent : IocpEvent S L) (handled : Option (Handled S L)) : World S L Buf :=
  { w with dispatched := w.dispatched ++ [(iocpEvent, handled)] }

/-- `IocpService::DispatchCompletionPacket`. Only an outstanding operation completes. -/
def dispatchCompletionPacket (dequeued : Dequeued S L) (answers : AcceptAnswers S) :
    Option (World S L Buf) :=
  match dequeued.iocpEvent with
  | none =>
      if dequeued.successful then none
      else if dequeued.errorCode = waitTimeout then some w
      else some (w.crashed .nullIocpEvent)
  | some iocpEvent =>
      if w.outstanding iocpEvent = 0 then none
      else if dequeued.successful = false ∧ dequeued.errorCode = waitTimeout then
        some ((w.dequeue iocpEvent).record iocpEvent none)
      else
        ((w.dequeue iocpEvent).dispatchEvent iocpEvent dequeued answers).map
          fun (handled, w) => w.record iocpEvent handled

/-- A callback returns, and its handler goes on. -/
def finish (answer : Answer S) : Handler S L → Option (World S L Buf)
  | .onConnected session acceptEvent =>
      let w := w.registerRecv session answer.result
      match acceptEvent with
      | none => some w
      | some acceptEvent => registerAccept acceptEvent answer.attempts w
  | .onDisconnected session => some (w.finishDisconnect session)
  | .onRecv session dataSize => some (w.finishRecv session dataSize answer.processLen answer.result)
  | .onSend session => some (w.finishSend session)

end World

/-- A call of a member function, a dequeued completion, or the return of a callback. -/
inductive Event (S L Buf : Type) where
  | registerConnect (session : S) (setup : Bool) (result : CallResult)
  | registerDisconnect (session : S) (result : CallResult)
  | registerRecv (session : S) (result : CallResult)
  | registerSend (session : S)
  | send (session : S) (sendBuffer : Buf)
  | startAccept (listener : L) (setup : Bool) (attempts : List (List (Attempt S)))
  | dispatch (dequeued : Dequeued S L) (answers : AcceptAnswers S)
  | finish (index : ℕ) (answer : Answer S)

variable {S L Buf : Type} [DecidableEq S] [DecidableEq L]

def World.next (w : World S L Buf) (e : Event S L Buf) : Option (World S L Buf) :=
  if w.crash.isSome then none
  else
    match e with
    | .registerConnect session setup result => some (w.registerConnect session setup result).2
    | .registerDisconnect session result => some (w.registerDisconnect session result).2
    | .registerRecv session result => some (w.registerRecv session result)
    | .registerSend session => some (w.registerSend session)
    | .send session sendBuffer => some (w.send session sendBuffer)
    | .startAccept listener setup attempts => w.startAccept listener setup attempts
    | .dispatch dequeued answers => w.dispatchCompletionPacket dequeued answers
    | .finish index answer =>
        match w.handlers[index]? with
        | none => none
        | some handler => { w with handlers := w.handlers.eraseIdx index }.finish answer handler

/-- All runs of the sessions and listeners of a service that was just made. -/
def system (bufferSize : Int32) : System (World S L Buf) (Event S L Buf) where
  init w := ∃ build serviceType maxSessionCount recvBuffer,
    RecvBuffer.new bufferSize = some recvBuffer ∧
      w = { build, serviceType, maxSessionCount, sessions := fun _ => { recvBuffer } }
  next := World.next

/-- One session and one listener of a service, with an empty buffer of `bufferSize` 1. -/
def newWorld (serviceType : ServiceType) : World (Fin 1) (Fin 1) Unit where
  build := .debug
  serviceType := serviceType
  sessions _ := { recvBuffer := ⟨10, 1, 0, 0, List.replicate 10 0⟩ }

theorem newWorld_init (serviceType : ServiceType) : (system 1).init (newWorld serviceType) :=
  ⟨.debug, serviceType, 1, _, by decide, rfl⟩

end Iocp

end ServerCore
