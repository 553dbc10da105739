import ServerCore.Iocp.Calls

/-!
# The owner of a pending event

`RegisterConnect`, `RegisterDisconnect` and `RegisterRecv` make the session the owner of
its event before the call, and the `Process` functions reset the owner. Two things break
the rule that a pending event has an owner. `RegisterRecv` looks at the error code when
`WSARecv` has succeeded, and then resets the owner of a receive whose completion is
queued. And an event has one owner however many of its operations are outstanding, so
the first completion, or a call that is rejected, resets the owner of the others; the
rejected `RegisterConnect` even resets the owner of `disconnectEvent`.
-/

namespace ServerCore

namespace Iocp

open Interleaving
open Receive (CallResult wsaIoPending)

variable {S L Buf : Type}

/-- The events that are registered by a call of a session and owned until they complete. -/
def IocpEvent.Covered (iocpEvent : IocpEvent S L) : Prop :=
  iocpEvent.eventType = .connect ∨ iocpEvent.eventType = .disconnect ∨ iocpEvent.eventType = .recv

/-- A completion of the event that is still to be dequeued finds the session. -/
def Owned (w : World S L Buf) : Prop :=
  ∀ iocpEvent : IocpEvent S L, iocpEvent.Covered → 0 < w.outstanding iocpEvent →
    w.ownerSession iocpEvent = some iocpEvent.registrant

/-- The step of a run, or a call of a `Process` function from elsewhere. -/
inductive Call (S L Buf : Type) where
  | step (e : Event S L Buf)
  | processConnect (session : S)
  | processDisconnect (session : S)
  | processRecv (session : S) (bytesTransferred : Int32)
  | processSend (session : S) (bytesTransferred : Int32)

variable [DecidableEq S] [DecidableEq L]

def World.call (w : World S L Buf) : Call S L Buf → Option (World S L Buf)
  | .step e => w.next e
  | .processConnect session =>
      if w.crash.isSome then none else some (w.processConnect session .accepted none)
  | .processDisconnect session =>
      if w.crash.isSome then none else some (w.processDisconnect session)
  | .processRecv session bytesTransferred =>
      if w.crash.isSome then none else some (w.processRecv session bytesTransferred)
  | .processSend session bytesTransferred =>
      if w.crash.isSome then none else some (w.processSend session bytesTransferred)

def calls (bufferSize : Int32) : System (World S L Buf) (Call S L Buf) where
  init := (system bufferSize).init
  next := World.call

/-- Pending events are owned, and dequeueing one of them calls no null pointer. -/
structure Attached (w : World S L Buf) : Prop where
  owned : Owned w
  called : ∀ iocpEvent : IocpEvent S L, iocpEvent.Covered → w.crash = none →
    ∀ dequeued answers w', dequeued.iocpEvent = some iocpEvent →
      w.dispatchCompletionPacket dequeued answers = some w' → w'.crash ≠ some .nullOwner

section Condition

variable (w : World S L Buf)

/-- `RegisterRecv` does not take a `WSARecv` that has succeeded for a failure. -/
def KeepsRecv (session : S) (result : CallResult) : Prop :=
  (w.sessions session).isConnected = true →
    ¬(result.socketError = false ∧ result.errorCode ≠ wsaIoPending)

/-- The result of `OnRecv` is accepted, so that the handler registers the next receive. -/
def Accepts (session : S) (dataSize processLen : Int32) : Prop :=
  ¬(processLen < 0 ∨ dataSize < processLen) ∧
    ((w.sessions session).recvBuffer.onRead processLen).isSome = true

/-- The step resets no owner while another completion of the event is outstanding. -/
def KeepsOwner : Call S L Buf → Prop
  | .step (.registerConnect session setup result) =>
      (w.sessions session).isConnected = false → w.serviceType = .client → setup = true →
        result.posted = false → w.outstanding (.disconnectEvent session) = 0
  | .step (.registerDisconnect session result) =>
      result.posted = false → w.outstanding (.disconnectEvent session) = 0
  | .step (.registerRecv session result) => KeepsRecv w session result
  | .step (.dispatch dequeued _) => ∀ iocpEvent : IocpEvent S L,
      dequeued.iocpEvent = some iocpEvent → iocpEvent.Covered →
        ¬(dequeued.successful = false ∧ dequeued.errorCode = waitTimeout) →
          w.outstanding iocpEvent = 1
  | .step (.finish index answer) =>
      match w.handlers[index]? with
      | some (.onConnected session _) => KeepsRecv w session answer.result
      | some (.onRecv session dataSize) =>
          Accepts w session dataSize answer.processLen → KeepsRecv w session answer.result
      | _ => True
  | .processConnect session => w.outstanding (.connectEvent session) = 0
  | .processDisconnect session => w.outstanding (.disconnectEvent session) = 0
  | .processRecv session _ => w.outstanding (.recvEvent session) = 0
  | _ => True

end Condition

variable {w w' : World S L Buf} {iocpEvent : IocpEvent S L}

section Owners

theorem Owned.own (h : Owned w) (iocpEvent : IocpEvent S L) :
    Owned (w.setOwner iocpEvent (some iocpEvent.registrant)) := by
  intro x hcovered hpending
  change Function.update w.ownerSession iocpEvent (some iocpEvent.registrant) x = _
  obtain rfl | hne := eq_or_ne x iocpEvent
  · rw [Function.update_self]
  · rw [Function.update_of_ne hne]
    exact h x hcovered hpending

/-- The session is the owner of the event that it starts. -/
theorem Owned.start (h : Owned w) (iocpEvent : IocpEvent S L) :
    Owned ((w.setOwner iocpEvent (some iocpEvent.registrant)).start iocpEvent) := by
  intro x hcovered hpending
  obtain rfl | hne := eq_or_ne x iocpEvent
  · exact Function.update_self ..
  · apply h.own iocpEvent x hcovered
    change 0 < Function.update w.outstanding iocpEvent _ x at hpending
    rwa [Function.update_of_ne hne] at hpending

theorem owned_disown (h : Owned w) (hcovered : iocpEvent.Covered) :
    Owned (w.setOwner iocpEvent none) ↔ w.outstanding iocpEvent = 0 := by
  constructor
  · intro h'
    by_contra hpending
    have howner := h' iocpEvent hcovered (Nat.pos_of_ne_zero hpending)
    change Function.update w.ownerSession iocpEvent none iocpEvent = _ at howner
    rw [Function.update_self] at howner
    cases howner
  · intro hnone x hx hpending
    change 0 < w.outstanding x at hpending
    change Function.update w.ownerSession iocpEvent none x = _
    obtain rfl | hne := eq_or_ne x iocpEvent
    · omega
    · rw [Function.update_of_ne hne]
      exact h x hx hpending

theorem Owned.dequeue (h : Owned w) : Owned (w.dequeue iocpEvent) := by
  intro x hcovered hpending
  apply h x hcovered
  change 0 < Function.update w.outstanding iocpEvent _ x at hpending
  obtain rfl | hne := eq_or_ne x iocpEvent
  · rw [Function.update_self] at hpending
    omega
  · rwa [Function.update_of_ne hne] at hpending

/-- The covered events are as they were. -/
def Apart (w w' : World S L Buf) : Prop :=
  ∀ iocpEvent : IocpEvent S L, iocpEvent.Covered →
    w'.ownerSession iocpEvent = w.ownerSession iocpEvent ∧
      w'.outstanding iocpEvent = w.outstanding iocpEvent

omit [DecidableEq S] [DecidableEq L] in
theorem Apart.refl (w : World S L Buf) : Apart w w := fun _ _ => ⟨rfl, rfl⟩

omit [DecidableEq S] [DecidableEq L] in
theorem Apart.trans {v : World S L Buf} (h : Apart w v) (h' : Apart v w') : Apart w w' := by
  intro x hx
  exact ⟨(h' x hx).1.trans (h x hx).1, (h' x hx).2.trans (h x hx).2⟩

omit [DecidableEq S] [DecidableEq L] in
theorem Apart.owned_iff (h : Apart w w') : Owned w' ↔ Owned w := by
  refine forall₂_congr fun x hx => ?_
  rw [(h x hx).1, (h x hx).2]

variable (w)

theorem apart_setOwner (h : ¬iocpEvent.Covered) (owner : Option (ISession S L)) :
    Apart w (w.setOwner iocpEvent owner) := by
  intro x hx
  have hne : x ≠ iocpEvent := fun heq => h (heq ▸ hx)
  exact ⟨Function.update_of_ne hne .., rfl⟩

theorem apart_start (h : ¬iocpEvent.Covered) : Apart w (w.start iocpEvent) := by
  intro x hx
  have hne : x ≠ iocpEvent := fun heq => h (heq ▸ hx)
  exact ⟨rfl, Function.update_of_ne hne ..⟩

omit [DecidableEq L] in
theorem apart_setSession (session : S) (data : Session Buf) :
    Apart w (w.setSession session data) := fun _ _ => ⟨rfl, rfl⟩

omit [DecidableEq S] [DecidableEq L] in
theorem apart_enter (handler : Handler S L) : Apart w (w.enter handler) := fun _ _ => ⟨rfl, rfl⟩

omit [DecidableEq S] [DecidableEq L] in
theorem not_covered_send (session : S) : ¬(.sendEvent session : IocpEvent S L).Covered := by
  rintro (h | h | h) <;> cases h

omit [DecidableEq S] [DecidableEq L] in
theorem not_covered_accept (event : AcceptEvent L) :
    ¬(.acceptEvent event : IocpEvent S L).Covered := by
  rintro (h | h | h) <;> cases h

theorem apart_registerSend (session : S) : Apart w (w.registerSend session) := by
  simp only [World.registerSend]
  split
  · exact .refl w
  · exact ((apart_setOwner w (not_covered_send session) _).trans (apart_setSession _ _ _)).trans
      (apart_start _ (not_covered_send session))

theorem apart_send (session : S) (sendBuffer : Buf) : Apart w (w.send session sendBuffer) := by
  simp only [World.send]
  split
  · exact .refl w
  split
  · exact apart_setSession w _ _
  · exact (apart_setSession w _ _).trans (apart_registerSend _ _)

theorem apart_processSend (session : S) (bytesTransferred : Int32) :
    Apart w (w.processSend session bytesTransferred) := by
  have hcleared : Apart w ((w.setOwner (.sendEvent session) none).setSession session
      { w.sessions session with sendBuffers := [] }) :=
    (apart_setOwner w (not_covered_send session) _).trans (apart_setSession _ _ _)
  simp only [World.processSend]
  split
  · exact hcleared
  · exact hcleared.trans (apart_enter _ _)

theorem apart_finishSend (session : S) : Apart w (w.finishSend session) := by
  simp only [World.finishSend]
  split
  · exact apart_setSession w _ _
  · exact apart_registerSend w session

omit [DecidableEq L] in
theorem apart_finishDisconnect (session : S) : Apart w (w.finishDisconnect session) := by
  unfold World.finishDisconnect
  split
  · exact fun _ _ => ⟨rfl, rfl⟩
  · exact fun _ _ => ⟨rfl, rfl⟩

variable {w}

theorem apart_registerAccept {acceptEvent : AcceptEvent L} {attempts : List (Attempt S)}
    (h : World.registerAccept acceptEvent attempts w = some w') : Apart w w' := by
  have huncovered := not_covered_accept (S := S) acceptEvent
  induction attempts generalizing w with
  | nil => cases h
  | cons attempt rest ih =>
      rw [World.registerAccept] at h
      split at h
      next =>
        cases h
        exact fun _ _ => ⟨rfl, rfl⟩
      next session _ =>
        have howned := apart_setOwner w huncovered (some (.session session))
        simp only at h
        split at h
        · cases h
          exact howned.trans (apart_start _ huncovered)
        · exact howned.trans (ih h)

theorem apart_startAcceptLoop {listener : L} {attempts : List (List (Attempt S))}
    (h : World.startAcceptLoop listener attempts w = some w') : Apart w w' := by
  induction attempts generalizing w with
  | nil =>
      cases h
      exact .refl _
  | cons attempts rest ih =>
      rw [World.startAcceptLoop, Option.bind_eq_some_iff] at h
      obtain ⟨v, hv, h⟩ := h
      have hcreated : ∀ acceptEvents, Apart w { w with acceptEvents } := fun _ _ _ => ⟨rfl, rfl⟩
      have hregistered := ((hcreated _).trans (apart_setOwner _ (not_covered_accept _) _)).trans
        (apart_registerAccept hv)
      split at h
      · cases h
        exact hregistered
      · exact hregistered.trans (ih h)

theorem apart_startAccept {listener : L} {setup : Bool} {attempts : List (List (Attempt S))}
    (h : w.startAccept listener setup attempts = some w') : Apart w w' := by
  unfold World.startAccept at h
  split at h
  · cases h
    exact .refl _
  split at h
  · exact apart_startAcceptLoop h
  · cases h

end Owners

section Functions

variable {session : S} {result : CallResult}

theorem owned_registerConnect (h : Owned w) (setup : Bool) :
    Owned (w.registerConnect session setup result).2 ↔
      KeepsOwner w (.step (.registerConnect session setup result)) := by
  unfold World.registerConnect KeepsOwner
  split
  next hconnected => exact iff_of_true h fun hfree => by rw [hconnected] at hfree; cases hfree
  split
  next hserver => exact iff_of_true h fun _ hclient => absurd hclient hserver
  split
  next hfailed => exact iff_of_true h fun _ _ hsetup => by rw [hfailed] at hsetup; cases hsetup
  next hfree hclient hsetup =>
  split
  next hposted =>
    have hstarted : Owned _ := h.start (.connectEvent session)
    exact iff_of_true hstarted fun _ _ _ hnot => by rw [hposted] at hnot; cases hnot
  next hnot =>
    have hown : Owned _ := h.own (.connectEvent session)
    refine (owned_disown hown (.inr (.inl rfl))).trans ⟨fun hnone _ _ _ _ => hnone, fun hkeeps => ?_⟩
    exact hkeeps (Bool.not_eq_true _ ▸ hfree) (not_not.mp hclient) (by simpa using hsetup)
      (Bool.not_eq_true _ ▸ hnot)

theorem owned_registerDisconnect (h : Owned w) :
    Owned (w.registerDisconnect session result).2 ↔
      KeepsOwner w (.step (.registerDisconnect session result)) := by
  unfold World.registerDisconnect KeepsOwner
  split
  next hposted =>
    have hstarted : Owned _ := h.start (.disconnectEvent session)
    exact iff_of_true hstarted fun hnot => by rw [hposted] at hnot; cases hnot
  next hnot =>
    have hown : Owned _ := h.own (.disconnectEvent session)
    refine (owned_disown hown (.inr (.inl rfl))).trans ⟨fun hnone _ => hnone, fun hkeeps => ?_⟩
    exact hkeeps (Bool.not_eq_true _ ▸ hnot)

theorem owned_registerRecv (h : Owned w) :
    Owned (w.registerRecv session result) ↔ KeepsRecv w session result := by
  simp only [World.registerRecv, KeepsRecv]
  split
  next hfree => exact iff_of_true h fun hconnected => by rw [hfree] at hconnected; cases hconnected
  next hconnected =>
  have hconnected : (w.sessions session).isConnected = true := by simpa using hconnected
  have hown : Owned _ := h.own (.recvEvent session)
  have hstarted : Owned _ := h.start (.recvEvent session)
  split
  next hwrong =>
    have hposted : result.posted = true := by simp [CallResult.posted, hwrong.1]
    rw [if_pos hposted]
    refine iff_of_false (fun h' => ?_) fun hkeeps => hkeeps hconnected hwrong
    have hnone := (owned_disown hstarted (.inr (.inr rfl))).mp h'
    change Function.update w.outstanding (.recvEvent session) _ (.recvEvent session) = 0 at hnone
    rw [Function.update_self] at hnone
    cases hnone
  next hright =>
    refine iff_of_true ?_ fun _ => hright
    split
    · exact hstarted
    · exact hown

theorem owned_processConnect (h : Owned w) (admission : Admission)
    (acceptEvent : Option (AcceptEvent L)) :
    Owned (w.processConnect session admission acceptEvent) ↔
      w.outstanding (.connectEvent session) = 0 :=
  owned_disown h (.inl rfl)

theorem owned_processDisconnect (h : Owned w) :
    Owned (w.processDisconnect session) ↔ w.outstanding (.disconnectEvent session) = 0 :=
  owned_disown h (.inr (.inl rfl))

theorem owned_processRecv (h : Owned w) (bytesTransferred : Int32) :
    Owned (w.processRecv session bytesTransferred) ↔ w.outstanding (.recvEvent session) = 0 := by
  refine Iff.trans ?_ (owned_disown h (.inr (.inr rfl)))
  simp only [World.processRecv]
  split
  · exact Iff.rfl
  split
  · exact Iff.rfl
  · exact Iff.rfl

theorem processRecv_crash (w : World S L Buf) (session : S) (bytesTransferred : Int32) :
    (w.processRecv session bytesTransferred).crash = w.crash := by
  simp only [World.processRecv]
  split
  · rfl
  split
  · rfl
  · rfl

theorem owned_finishRecv (h : Owned w) (dataSize processLen : Int32) :
    Owned (w.finishRecv session dataSize processLen result) ↔
      (Accepts w session dataSize processLen → KeepsRecv w session result) := by
  simp only [World.finishRecv]
  split
  next hrefused => exact iff_of_true h fun haccepts => absurd hrefused haccepts.1
  next hlen =>
  split
  next hnone =>
    refine iff_of_true h fun haccepts => ?_
    have hsome := haccepts.2
    rw [hnone] at hsome
    cases hsome
  next recvBuffer hsome =>
    have haccepts : Accepts w session dataSize processLen := ⟨hlen, by rw [hsome]; rfl⟩
    have hcleaned : Owned (w.setSession session
        { w.sessions session with recvBuffer := recvBuffer.clean }) := h
    refine (owned_registerRecv hcleaned).trans ?_
    have hsame : ((w.setSession session
        { w.sessions session with recvBuffer := recvBuffer.clean }).sessions session).isConnected =
          (w.sessions session).isConnected :=
      (quiet_setSession w session (by rfl)).connected session
    rw [KeepsRecv, hsame]
    exact ⟨fun hkeeps _ => hkeeps, fun hkeeps => hkeeps haccepts⟩

theorem owned_finish (h : Owned w) {answer : Answer S} {handler : Handler S L} {index : ℕ}
    (hhandler : w.handlers[index]? = some handler) (handlers : List (Handler S L))
    (hfinish : World.finish { w with handlers } answer handler = some w') :
    Owned w' ↔ KeepsOwner w (.step (.finish index answer)) := by
  have herased : Owned { w with handlers } := h
  simp only [KeepsOwner, hhandler]
  cases handler with
  | onConnected session acceptEvent =>
      cases acceptEvent with
      | none =>
          cases hfinish
          exact owned_registerRecv herased
      | some event => exact (apart_registerAccept hfinish).owned_iff.trans (owned_registerRecv herased)
  | onDisconnected session =>
      cases hfinish
      exact iff_of_true ((apart_finishDisconnect _ session).owned_iff.mpr herased) trivial
  | onRecv session dataSize =>
      cases hfinish
      exact owned_finishRecv herased dataSize answer.processLen
  | onSend session =>
      cases hfinish
      exact iff_of_true ((apart_finishSend _ session).owned_iff.mpr herased) trivial

end Functions

section Dispatch

variable {dequeued : Dequeued S L} {answers : AcceptAnswers S} {handled : Option (Handled S L)}

/-- A covered event goes to its session, whose handler resets the owner. -/
theorem dispatchEvent_covered (h : Owned w) (hcovered : iocpEvent.Covered)
    (houtstanding : w.outstanding iocpEvent ≠ 0)
    (hdispatch : (w.dequeue iocpEvent).dispatchEvent iocpEvent dequeued answers =
      some (handled, w')) :
    w'.crash = w.crash ∧ (Owned w' ↔ w.outstanding iocpEvent = 1) := by
  have howner : (w.dequeue iocpEvent).ownerSession iocpEvent = some iocpEvent.registrant :=
    h iocpEvent hcovered (Nat.pos_of_ne_zero houtstanding)
  have hone : (w.dequeue iocpEvent).outstanding iocpEvent = 0 ↔ w.outstanding iocpEvent = 1 := by
    change Function.update w.outstanding iocpEvent _ iocpEvent = 0 ↔ _
    rw [Function.update_self]
    omega
  have hdequeued : Owned (w.dequeue iocpEvent) := h.dequeue
  cases iocpEvent with
  | connectEvent session =>
      simp only [World.dispatchEvent, howner] at hdispatch
      cases hdispatch
      exact ⟨rfl, (owned_processConnect hdequeued _ _).trans hone⟩
  | disconnectEvent session =>
      simp only [World.dispatchEvent, howner] at hdispatch
      cases hdispatch
      exact ⟨rfl, (owned_processDisconnect hdequeued).trans hone⟩
  | recvEvent session =>
      simp only [World.dispatchEvent, howner] at hdispatch
      cases hdispatch
      exact ⟨processRecv_crash _ _ _, (owned_processRecv hdequeued _).trans hone⟩
  | sendEvent session => exact absurd hcovered (not_covered_send session)
  | acceptEvent event => exact absurd hcovered (not_covered_accept event)

/-- The completions of the other events leave the covered events alone. -/
theorem dispatchEvent_uncovered (hrouted : Routed w) (hrunning : w.crash = none)
    (huncovered : ¬iocpEvent.Covered)
    (hdispatch : w.dispatchEvent iocpEvent dequeued answers = some (handled, w')) :
    Apart w w' := by
  unfold World.dispatchEvent at hdispatch
  split at hdispatch
  next =>
    cases hdispatch
    exact fun _ _ => ⟨rfl, rfl⟩
  next session howner =>
    cases iocpEvent with
    | sendEvent x =>
        cases hdispatch
        exact apart_processSend w _ _
    | acceptEvent event =>
        cases hdispatch
        exact .refl w
    | connectEvent x => exact absurd (.inl rfl) huncovered
    | disconnectEvent x => exact absurd (.inr (.inl rfl)) huncovered
    | recvEvent x => exact absurd (.inr (.inr rfl)) huncovered
  next listener howner =>
    obtain ⟨_, hsession, -⟩ := hrouted hrunning iocpEvent _ howner
    cases hsession

/-- Dequeueing a completion keeps the rule exactly when it is of an uncovered event, is
lost, or is the only one of its event. -/
theorem owned_dispatch (h : Owned w) (hrouted : Routed w) (hrunning : w.crash = none)
    (hstep : Step w (.dispatch dequeued answers) w') :
    Owned w' ↔ KeepsOwner w (.step (.dispatch dequeued answers)) := by
  cases hstep with
  | quiet other => cases other
  | timedOut hnone =>
      refine iff_of_true h fun iocpEvent hsome => ?_
      rw [hnone] at hsome
      cases hsome
  | null hnone =>
      refine iff_of_true h fun iocpEvent hsome => ?_
      rw [hnone] at hsome
      cases hsome
  | @dropped _ _ iocpEvent hsome outstanding timeout =>
      have hdequeued : Owned (w.dequeue iocpEvent) := h.dequeue
      exact iff_of_true hdequeued fun x _ _ htaken => absurd timeout htaken
  | @handled _ _ iocpEvent handled v hsome outstanding taken dispatch =>
      change Owned v ↔ _
      by_cases hcovered : iocpEvent.Covered
      · refine (dispatchEvent_covered h hcovered outstanding dispatch).2.trans ?_
        constructor
        · intro hone x hx _ _
          cases hsome.symm.trans hx
          exact hone
        · intro hkeeps
          exact hkeeps iocpEvent hsome hcovered taken
      · have hapart := dispatchEvent_uncovered (w := w.dequeue iocpEvent) hrouted hrunning hcovered
          dispatch
        refine iff_of_true (hapart.owned_iff.mpr h.dequeue) fun x hx hcovered' => ?_
        cases hsome.symm.trans hx
        exact absurd hcovered' hcovered

/-- While pending events are owned, dequeueing one of them meets its session. -/
theorem Owned.attached (h : Owned w) : Attached w := by
  refine ⟨h, fun iocpEvent hcovered hrunning dequeued answers w' hevent hdispatch => ?_⟩
  cases step_of_dispatch hdispatch with
  | quiet other => cases other
  | timedOut =>
      rw [hrunning]
      exact nofun
  | null => exact nofun
  | dropped =>
      change w.crash ≠ _
      rw [hrunning]
      exact nofun
  | @handled _ _ x handled v hsome outstanding taken dispatch =>
      cases hsome.symm.trans hevent
      change v.crash ≠ _
      rw [(dispatchEvent_covered h hcovered outstanding dispatch).1, hrunning]
      exact nofun

end Dispatch

section Runs

variable {e : Event S L Buf} {c : Call S L Buf}

theorem owned_next (h : Owned w) (hrouted : Routed w) (hnext : w.next e = some w') :
    Owned w' ↔ KeepsOwner w (.step e) := by
  obtain ⟨hrunning, hstep⟩ := step_of_next hnext
  unfold World.next at hnext
  rw [if_neg (by simp [hrunning])] at hnext
  cases e with
  | registerConnect session setup result =>
      cases hnext
      exact owned_registerConnect h setup
  | registerDisconnect session result =>
      cases hnext
      exact owned_registerDisconnect h
  | registerRecv session result =>
      cases hnext
      exact owned_registerRecv h
  | registerSend session =>
      cases hnext
      exact iff_of_true ((apart_registerSend w session).owned_iff.mpr h) trivial
  | send session sendBuffer =>
      cases hnext
      exact iff_of_true ((apart_send w session sendBuffer).owned_iff.mpr h) trivial
  | startAccept listener setup attempts =>
      exact iff_of_true ((apart_startAccept hnext).owned_iff.mpr h) trivial
  | dispatch dequeued answers => exact owned_dispatch h hrouted hrunning hstep
  | finish index answer =>
      simp only at hnext
      split at hnext
      · cases hnext
      next handler hhandler => exact owned_finish h hhandler _ hnext

/-- A call keeps the rule exactly when it resets no owner that is still needed. -/
theorem owned_call (h : Owned w) (hrouted : Routed w) (hcall : w.call c = some w') :
    Routed w' ∧ (Owned w' ↔ KeepsOwner w c) := by
  cases c with
  | step e => exact ⟨hrouted.next hcall, owned_next h hrouted hcall⟩
  | processConnect session =>
      simp only [World.call] at hcall
      split at hcall <;> cases hcall
      exact ⟨hrouted.processConnect _ _ _, owned_processConnect h _ _⟩
  | processDisconnect session =>
      simp only [World.call] at hcall
      split at hcall <;> cases hcall
      exact ⟨(quiet_processDisconnect w _).routed hrouted, owned_processDisconnect h⟩
  | processRecv session bytesTransferred =>
      simp only [World.call] at hcall
      split at hcall <;> cases hcall
      exact ⟨(quiet_processRecv w _ _).routed hrouted, owned_processRecv h _⟩
  | processSend session bytesTransferred =>
      simp only [World.call] at hcall
      split at hcall <;> cases hcall
      refine ⟨(quiet_processSend w _ _).routed hrouted, iff_of_true ?_ trivial⟩
      exact (apart_processSend w _ _).owned_iff.mpr h

/-- In a run of calls, every pending event is owned in every state exactly when no call
resets an owner that is still needed. -/
theorem pending_owned_iff {bufferSize : Int32} (h : (calls bufferSize).init w)
    (cs : List (Call S L Buf)) :
    (calls bufferSize).Throughout Attached cs w ↔ (calls bufferSize).Along KeepsOwner cs w := by
  have hstart : Owned w ∧ Routed w := by
    refine ⟨?_, routed_init h⟩
    obtain ⟨build, serviceType, maxSessionCount, recvBuffer, -, rfl⟩ := h
    exact nofun
  refine System.throughout_iff_along (I := fun w : World S L Buf => Owned w ∧ Routed w)
    (fun w hw => hw.1.attached) ?_ ?_ cs hstart
  · intro w c w' hw keeps hcall
    obtain ⟨hrouted, hiff⟩ := owned_call hw.1 hw.2 hcall
    exact ⟨hiff.mpr keeps, hrouted⟩
  · intro w c w' hw hcall attached
    exact (owned_call hw.1 hw.2 hcall).2.mp attached.owned

/-- A client connects, and the `WSARecv` of `ProcessConnect` succeeds at once. -/
def recvRun : List (Call (Fin 1) (Fin 1) Unit) :=
  [.step (.registerConnect 0 true ⟨true, wsaIoPending⟩),
    .step (.dispatch { successful := true, iocpEvent := some (.connectEvent 0) } {}),
    .step (.finish 0 { result := ⟨false, 0⟩ })]

theorem pending_owned_iff_recv :
    (calls 1).Throughout Attached recvRun (newWorld .client) ↔
      (calls 1).Along KeepsOwner recvRun (newWorld .client) :=
  pending_owned_iff (newWorld_init .client) recvRun

/-- The completion of the receive is queued, and its event has no owner. -/
theorem pending_not_owned :
    ¬∀ (bufferSize : Int32) (w : World (Fin 1) (Fin 1) Unit),
      (calls bufferSize).Reachable System.anyStep w → Attached w := by
  intro hall
  have hany : ((calls 1).run recvRun (newWorld .client)).any (fun w => decide
      (0 < w.outstanding (.recvEvent 0) ∧ w.ownerSession (.recvEvent 0) = none)) = true := by
    decide +kernel
  obtain ⟨w, hrun, hpending, hnone⟩ := System.exists_of_run hany
  have hreachable := System.reachable_of_run (M := calls 1) (newWorld_init .client) hrun
  have howner := (hall 1 w hreachable).owned (.recvEvent 0) (.inr (.inr rfl)) hpending
  rw [hnone] at howner
  cases howner

end Runs

end Iocp

end ServerCore
