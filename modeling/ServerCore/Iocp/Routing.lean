import ServerCore.Iocp.Calls

/-!
# Which handler runs for a completion

`RegisterAccept` makes the new session the owner of the `AcceptEvent`, and
`DispatchCompletionPacket` calls the owner. So the completion of an accept goes to
`Session::DispatchEvent`, whose `switch` has no case for it, and `ProcessAccept` never
runs. The completions of a session's own events reach that session while they have an
owner at all.
-/

namespace ServerCore

namespace Iocp

open Interleaving
open Receive (CallResult wsaIoPending)

variable {S L Buf : Type}

/-- The handler of the event's type, on the object that registers the event. -/
def IocpEvent.handler : IocpEvent S L → Handled S L
  | .connectEvent session => .processConnect session
  | .disconnectEvent session => .processDisconnect session
  | .recvEvent session => .processRecv session
  | .sendEvent session => .processSend session
  | .acceptEvent event => .processAccept event.listener event

/-- For every completion dequeued so far, the handler of its type ran on the registrant. -/
def Delivered (w : World S L Buf) : Prop :=
  ∀ iocpEvent handled, (iocpEvent, handled) ∈ w.dispatched → handled = some iocpEvent.handler

/-- A dequeued completion is of an event of a session, the event has an owner, and the
wait does not report a timeout. -/
def Reaches (w : World S L Buf) : Event S L Buf → Prop
  | .dispatch dequeued _ => ∀ iocpEvent, dequeued.iocpEvent = some iocpEvent →
      iocpEvent.eventType ≠ .accept ∧ w.ownerSession iocpEvent ≠ none ∧
        ¬(dequeued.successful = false ∧ dequeued.errorCode = waitTimeout)
  | _ => True

theorem delivered_append {w w' : World S L Buf} {iocpEvent : IocpEvent S L}
    {handled : Option (Handled S L)} (h : Delivered w)
    (hdispatched : w'.dispatched = w.dispatched ++ [(iocpEvent, handled)]) :
    Delivered w' ↔ handled = some iocpEvent.handler := by
  constructor
  · intro h'
    apply h'
    rw [hdispatched]
    exact List.mem_append_right _ (List.mem_singleton_self _)
  · rintro hhandled x y hmem
    rw [hdispatched, List.mem_append, List.mem_singleton] at hmem
    obtain hmem | heq := hmem
    · exact h x y hmem
    · cases heq
      exact hhandled

variable [DecidableEq S] [DecidableEq L] {w w' : World S L Buf} {e : Event S L Buf}
  {iocpEvent : IocpEvent S L} {dequeued : Dequeued S L} {answers : AcceptAnswers S}
  {handled : Option (Handled S L)}

section Dispatch

/-- A session has a handler for each event but an `AcceptEvent`. -/
theorem dispatchSession_spec {session : S}
    (hregistrant : iocpEvent.eventType ≠ .accept → iocpEvent.registrant = .session session)
    (successful : Bool) (bytesTransferred : Int32) :
    (w.dispatchSession session iocpEvent successful bytesTransferred).2.dispatched =
        w.dispatched ∧
      ((w.dispatchSession session iocpEvent successful bytesTransferred).1 =
        some iocpEvent.handler ↔ iocpEvent.eventType ≠ .accept) := by
  cases iocpEvent with
  | connectEvent x =>
      cases hregistrant nofun
      exact ⟨rfl, iff_of_true rfl nofun⟩
  | disconnectEvent x =>
      cases hregistrant nofun
      exact ⟨rfl, iff_of_true rfl nofun⟩
  | recvEvent x =>
      cases hregistrant nofun
      exact ⟨(quiet_processRecv w session bytesTransferred).dispatched, iff_of_true rfl nofun⟩
  | sendEvent x =>
      cases hregistrant nofun
      exact ⟨(quiet_processSend w session bytesTransferred).dispatched, iff_of_true rfl nofun⟩
  | acceptEvent event => exact ⟨rfl, iff_of_false nofun (fun hne => hne rfl)⟩

/-- The owner's handler is the right one exactly for an owned event of a session. -/
theorem dispatchEvent_spec (h : Routed w) (hrunning : w.crash = none)
    (hdispatch : w.dispatchEvent iocpEvent dequeued answers = some (handled, w')) :
    w'.dispatched = w.dispatched ∧
      (handled = some iocpEvent.handler ↔
        iocpEvent.eventType ≠ .accept ∧ w.ownerSession iocpEvent ≠ none) := by
  unfold World.dispatchEvent at hdispatch
  split at hdispatch
  next howner =>
    cases hdispatch
    exact ⟨rfl, iff_of_false nofun fun hboth => hboth.2 howner⟩
  next session howner =>
    obtain ⟨_, ⟨⟩, hregistrant⟩ := h hrunning iocpEvent _ howner
    obtain ⟨hsame, hiff⟩ := dispatchSession_spec (w := w) hregistrant dequeued.successful
      dequeued.bytesTransferred
    rw [Option.some.inj hdispatch] at hsame hiff
    refine ⟨hsame, hiff.trans (and_iff_left ?_).symm⟩
    rw [howner]
    exact Option.some_ne_none _
  next listener howner =>
    obtain ⟨_, hsession, -⟩ := h hrunning iocpEvent _ howner
    cases hsession

end Dispatch

section Runs

/-- A step that dequeues a completion records one handler; the others record none. -/
theorem delivered_iff_reaches (h : Routed w) (delivered : Delivered w)
    (hnext : w.next e = some w') : Delivered w' ↔ Reaches w e := by
  obtain ⟨hrunning, hstep⟩ := step_of_next hnext
  cases hstep with
  | quiet other quiet =>
      refine iff_of_true ?_ ?_
      · rw [Delivered, quiet.dispatched]
        exact delivered
      · cases e with
        | dispatch => cases other
        | _ => trivial
  | released handlers session =>
      refine iff_of_true ?_ trivial
      rw [Delivered, finishDisconnect_dispatched]
      exact delivered
  | timedOut hnone timeout =>
      refine iff_of_true delivered fun iocpEvent hsome => ?_
      rw [hnone] at hsome
      cases hsome
  | null hnone failed =>
      refine iff_of_true delivered fun iocpEvent hsome => ?_
      rw [hnone] at hsome
      cases hsome
  | @dropped dequeued answers iocpEvent hsome outstanding timeout =>
      refine (delivered_append delivered rfl).trans (iff_of_false nofun fun hreaches => ?_)
      exact (hreaches iocpEvent hsome).2.2 timeout
  | @handled dequeued answers iocpEvent handled v hsome outstanding taken dispatch =>
      have hdequeued : Routed (w.dequeue iocpEvent) := h
      obtain ⟨hsame, hiff⟩ := dispatchEvent_spec hdequeued hrunning dispatch
      have hrecorded : (v.record iocpEvent handled).dispatched =
          w.dispatched ++ [(iocpEvent, handled)] := by
        rw [World.record, hsame]
        rfl
      refine ((delivered_append delivered hrecorded).trans hiff).trans ?_
      constructor
      · rintro ⟨hevent, howned⟩ x hx
        cases hsome.symm.trans hx
        exact ⟨hevent, howned, taken⟩
      · intro hreaches
        obtain ⟨hevent, howned, -⟩ := hreaches iocpEvent hsome
        exact ⟨hevent, howned⟩

/-- In a run, every completion reaches the registrant exactly when every completion that
is dequeued is of an event of a session that has an owner. -/
theorem delivered_iff {bufferSize : Int32} (h : (system bufferSize).init w)
    (es : List (Event S L Buf)) :
    (system bufferSize).Throughout Delivered es w ↔ (system bufferSize).Along Reaches es w := by
  have hstart : Routed w ∧ Delivered w := by
    refine ⟨routed_init h, ?_⟩
    obtain ⟨build, serviceType, maxSessionCount, recvBuffer, -, rfl⟩ := h
    exact nofun
  refine System.throughout_iff_along (I := fun w : World S L Buf => Routed w ∧ Delivered w)
    (fun w hw => hw.2) ?_ ?_ es hstart
  · intro w e w' hw reaches hnext
    exact ⟨hw.1.next hnext, (delivered_iff_reaches hw.1 hw.2 hnext).mpr reaches⟩
  · intro w e w' hw hnext delivered
    exact (delivered_iff_reaches hw.1 hw.2 hnext).mp delivered

/-- The listener arms one `AcceptEvent`, and a client connects. -/
def acceptRun : List (Event (Fin 1) (Fin 1) Unit) :=
  [.startAccept 0 true [[⟨some 0, ⟨true, wsaIoPending⟩⟩]],
    .dispatch { successful := true, iocpEvent := some (.acceptEvent ⟨0, 0⟩) } {}]

theorem delivered_iff_accept :
    (system 1).Throughout Delivered acceptRun (newWorld .server) ↔
      (system 1).Along Reaches acceptRun (newWorld .server) :=
  delivered_iff (newWorld_init .server) acceptRun

/-- No handler runs for the completion of the accept. -/
theorem accept_not_delivered :
    ¬∀ (bufferSize : Int32) (w : World (Fin 1) (Fin 1) Unit),
      (system bufferSize).Reachable System.anyStep w → Delivered w := by
  intro hall
  have hany : ((system 1).run acceptRun (newWorld .server)).any
      (fun w => decide ((.acceptEvent ⟨0, 0⟩, none) ∈ w.dispatched)) = true := by
    decide +kernel
  obtain ⟨w, hrun, hmem⟩ := System.exists_of_run hany
  have hhandled := hall 1 w (System.reachable_of_run (newWorld_init .server) hrun) _ _ hmem
  cases hhandled

end Runs

end Iocp

end ServerCore
