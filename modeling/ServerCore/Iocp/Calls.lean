import ServerCore.Iocp.Basic

/-!
# What the member functions keep

`Routed` says whom an event may have as its owner: an event of a session only that
session, and an `AcceptEvent` a session that waits for a client. A listener is the owner
of its `AcceptEvent` only inside `StartAccept`, because `RegisterAccept` puts the new
session in its place. `Quiet` relates two states with the same connections and histories
of which the later one is routed if the earlier one is; every function but
`ProcessConnect` and the end of `ProcessDisconnect` is quiet.
-/

namespace ServerCore

namespace Iocp

open Interleaving
open Receive (CallResult)

variable {S L Buf : Type}

/-- The object that registers the event. -/
def IocpEvent.registrant : IocpEvent S L → ISession S L
  | .connectEvent session => .session session
  | .disconnectEvent session => .session session
  | .recvEvent session => .session session
  | .sendEvent session => .session session
  | .acceptEvent ⟨listener, _⟩ => .listener listener

/-- The owner is a session, and for an event of a session that session. -/
def IocpEvent.MayHave (iocpEvent : IocpEvent S L) (owner : ISession S L) : Prop :=
  ∃ session, owner = .session session ∧
    (iocpEvent.eventType ≠ .accept → iocpEvent.registrant = owner)

/-- While the process runs, no event has an owner that it may not have. -/
def Routed (w : World S L Buf) : Prop :=
  w.crash = none → ∀ iocpEvent owner, w.ownerSession iocpEvent = some owner →
    iocpEvent.MayHave owner

structure Quiet (w w' : World S L Buf) : Prop where
  dispatched : w'.dispatched = w.dispatched
  admissions : w'.admissions = w.admissions
  service : w'.service = w.service
  connected : ∀ session, (w'.sessions session).isConnected = (w.sessions session).isConnected
  crash : w'.crash = some .nullIocpEvent → w.crash = some .nullIocpEvent
  routed : Routed w → Routed w'

theorem Quiet.refl (w : World S L Buf) : Quiet w w := ⟨rfl, rfl, rfl, fun _ => rfl, id, id⟩

theorem Quiet.trans {w v u : World S L Buf} (h : Quiet w v) (h' : Quiet v u) : Quiet w u where
  dispatched := h'.dispatched.trans h.dispatched
  admissions := h'.admissions.trans h.admissions
  service := h'.service.trans h.service
  connected session := (h'.connected session).trans (h.connected session)
  crash := h.crash ∘ h'.crash
  routed := h'.routed ∘ h.routed

variable [DecidableEq S] [DecidableEq L] {w w' : World S L Buf}

theorem setOwner_self (iocpEvent : IocpEvent S L) (owner : Option (ISession S L)) :
    (w.setOwner iocpEvent owner).ownerSession iocpEvent = owner := Function.update_self ..

theorem setOwner_of_ne {iocpEvent x : IocpEvent S L} {owner : Option (ISession S L)}
    (h : x ≠ iocpEvent) : (w.setOwner iocpEvent owner).ownerSession x = w.ownerSession x :=
  Function.update_of_ne h ..

theorem Routed.setOwner (h : Routed w) {iocpEvent : IocpEvent S L}
    {owner : Option (ISession S L)} (may : ∀ o, owner = some o → iocpEvent.MayHave o) :
    Routed (w.setOwner iocpEvent owner) := by
  intro hrunning x o hx
  change Function.update w.ownerSession iocpEvent owner x = some o at hx
  obtain rfl | hne := eq_or_ne x iocpEvent
  · rw [Function.update_self] at hx
    exact may o hx
  · rw [Function.update_of_ne hne] at hx
    exact h hrunning x o hx

section Quiet

variable (w)

omit [DecidableEq S] [DecidableEq L] in
theorem quiet_crashed {crash : Crash} (h : crash ≠ .nullIocpEvent) : Quiet w (w.crashed crash) :=
  ⟨rfl, rfl, rfl, fun _ => rfl, fun heq => absurd (Option.some.inj heq) h, nofun⟩

theorem quiet_setOwner {iocpEvent : IocpEvent S L} {owner : Option (ISession S L)}
    (may : ∀ o, owner = some o → iocpEvent.MayHave o) :
    Quiet w (w.setOwner iocpEvent owner) :=
  ⟨rfl, rfl, rfl, fun _ => rfl, id, fun h => h.setOwner may⟩

theorem quiet_disown (iocpEvent : IocpEvent S L) : Quiet w (w.setOwner iocpEvent none) :=
  quiet_setOwner w nofun

/-- A session becomes the owner of an event of its own, or of an `AcceptEvent`. -/
theorem quiet_own (iocpEvent : IocpEvent S L) (session : S)
    (h : iocpEvent.eventType ≠ .accept → iocpEvent.registrant = .session session) :
    Quiet w (w.setOwner iocpEvent (some (.session session))) := by
  apply quiet_setOwner
  rintro o ⟨⟩
  exact ⟨session, rfl, h⟩

theorem quiet_start (iocpEvent : IocpEvent S L) : Quiet w (w.start iocpEvent) :=
  ⟨rfl, rfl, rfl, fun _ => rfl, id, id⟩

omit [DecidableEq S] [DecidableEq L] in
theorem quiet_enter (handler : Handler S L) : Quiet w (w.enter handler) :=
  ⟨rfl, rfl, rfl, fun _ => rfl, id, id⟩

omit [DecidableEq S] [DecidableEq L] in
theorem quiet_handlers (handlers : List (Handler S L)) : Quiet w { w with handlers } :=
  ⟨rfl, rfl, rfl, fun _ => rfl, id, id⟩

omit [DecidableEq S] [DecidableEq L] in
theorem quiet_acceptEvents (acceptEvents : L → ℕ) : Quiet w { w with acceptEvents } :=
  ⟨rfl, rfl, rfl, fun _ => rfl, id, id⟩

omit [DecidableEq L] in
theorem quiet_setSession (session : S) {data : Session Buf}
    (h : data.isConnected = (w.sessions session).isConnected) :
    Quiet w (w.setSession session data) := by
  refine ⟨rfl, rfl, rfl, fun x => ?_, id, id⟩
  change (Function.update w.sessions session data x).isConnected = _
  obtain rfl | hne := eq_or_ne x session
  · rw [Function.update_self, h]
  · rw [Function.update_of_ne hne]

theorem quiet_registerConnect (session : S) (setup : Bool) (result : CallResult) :
    Quiet w (w.registerConnect session setup result).2 := by
  have howned := quiet_own w (.connectEvent session) session fun _ => rfl
  unfold World.registerConnect
  split
  · exact .refl w
  split
  · exact .refl w
  split
  · exact .refl w
  split
  · exact howned.trans (quiet_start _ _)
  · exact howned.trans (quiet_disown _ _)

theorem quiet_registerDisconnect (session : S) (result : CallResult) :
    Quiet w (w.registerDisconnect session result).2 := by
  have howned := quiet_own w (.disconnectEvent session) session fun _ => rfl
  unfold World.registerDisconnect
  split
  · exact howned.trans (quiet_start _ _)
  · exact howned.trans (quiet_disown _ _)

theorem quiet_registerRecv (session : S) (result : CallResult) :
    Quiet w (w.registerRecv session result) := by
  have howned := quiet_own w (.recvEvent session) session fun _ => rfl
  simp only [World.registerRecv]
  split
  · exact .refl w
  split
  · split
    · exact (howned.trans (quiet_start _ _)).trans (quiet_disown _ _)
    · exact howned.trans (quiet_disown _ _)
  · split
    · exact howned.trans (quiet_start _ _)
    · exact howned

theorem quiet_registerSend (session : S) : Quiet w (w.registerSend session) := by
  have howned := quiet_own w (.sendEvent session) session fun _ => rfl
  simp only [World.registerSend]
  split
  · exact .refl w
  · exact (howned.trans (quiet_setSession _ session (by rfl))).trans (quiet_start _ _)

theorem quiet_send (session : S) (sendBuffer : Buf) : Quiet w (w.send session sendBuffer) := by
  simp only [World.send]
  split
  · exact .refl w
  split
  · exact quiet_setSession w session rfl
  · exact (quiet_setSession w session (by rfl)).trans (quiet_registerSend _ _)

theorem quiet_processDisconnect (session : S) : Quiet w (w.processDisconnect session) :=
  (quiet_disown w _).trans (quiet_enter _ _)

theorem quiet_processRecv (session : S) (bytesTransferred : Int32) :
    Quiet w (w.processRecv session bytesTransferred) := by
  have hdisowned := quiet_disown w (.recvEvent session)
  simp only [World.processRecv]
  split
  · exact hdisowned
  split
  · exact hdisowned
  · exact (hdisowned.trans (quiet_setSession _ session (by rfl))).trans (quiet_enter _ _)

theorem quiet_finishRecv (session : S) (dataSize processLen : Int32) (result : CallResult) :
    Quiet w (w.finishRecv session dataSize processLen result) := by
  simp only [World.finishRecv]
  split
  · exact .refl w
  split
  · exact .refl w
  · exact (quiet_setSession w session (by rfl)).trans (quiet_registerRecv _ _ _)

theorem quiet_processSend (session : S) (bytesTransferred : Int32) :
    Quiet w (w.processSend session bytesTransferred) := by
  have hcleared : Quiet w ((w.setOwner (.sendEvent session) none).setSession session
      { w.sessions session with sendBuffers := [] }) :=
    (quiet_disown w _).trans (quiet_setSession _ session (by rfl))
  simp only [World.processSend]
  split
  · exact hcleared
  · exact hcleared.trans (quiet_enter _ _)

theorem quiet_finishSend (session : S) : Quiet w (w.finishSend session) := by
  simp only [World.finishSend]
  split
  · exact quiet_setSession w session rfl
  · exact quiet_registerSend w session

end Quiet

section Accepts

variable {acceptEvent : AcceptEvent L} {attempts : List (Attempt S)}

theorem quiet_registerAccept
    (h : World.registerAccept acceptEvent attempts w = some w') : Quiet w w' := by
  induction attempts generalizing w with
  | nil => cases h
  | cons attempt rest ih =>
      rw [World.registerAccept] at h
      split at h
      next =>
        cases h
        exact quiet_crashed w (by decide)
      next session _ =>
        have howned := quiet_own w (.acceptEvent acceptEvent) session fun hne => absurd rfl hne
        simp only at h
        split at h
        · cases h
          exact howned.trans (quiet_start _ _)
        · exact howned.trans (ih h)

/-- The owner that an `AcceptEvent` had before `RegisterAccept` is overwritten. -/
theorem quiet_registerAccept_setOwner {owner : Option (ISession S L)}
    (h : World.registerAccept acceptEvent attempts (w.setOwner (.acceptEvent acceptEvent) owner) =
      some w') :
    Quiet w w' := by
  cases attempts with
  | nil => cases h
  | cons attempt rest =>
      rw [World.registerAccept] at h
      split at h
      next =>
        cases h
        exact ⟨rfl, rfl, rfl, fun _ => rfl, nofun, nofun⟩
      next session _ =>
        have howned := quiet_own w (.acceptEvent acceptEvent) session fun hne => absurd rfl hne
        have hover : (w.setOwner (.acceptEvent acceptEvent) owner).setOwner
            (.acceptEvent acceptEvent) (some (.session session)) =
              w.setOwner (.acceptEvent acceptEvent) (some (.session session)) := by
          simp only [World.setOwner, Function.update_idem]
        simp only [hover] at h
        split at h
        · cases h
          exact howned.trans (quiet_start _ _)
        · exact howned.trans (quiet_registerAccept h)

theorem quiet_startAcceptLoop {listener : L} {attempts : List (List (Attempt S))}
    (h : World.startAcceptLoop listener attempts w = some w') : Quiet w w' := by
  induction attempts generalizing w with
  | nil =>
      cases h
      exact .refl _
  | cons attempts rest ih =>
      rw [World.startAcceptLoop, Option.bind_eq_some_iff] at h
      obtain ⟨v, hv, h⟩ := h
      have hregistered := (quiet_acceptEvents _ _).trans (quiet_registerAccept_setOwner hv)
      split at h
      · cases h
        exact hregistered
      · exact hregistered.trans (ih h)

theorem quiet_startAccept {listener : L} {setup : Bool} {attempts : List (List (Attempt S))}
    (h : w.startAccept listener setup attempts = some w') : Quiet w w' := by
  unfold World.startAccept at h
  split at h
  · cases h
    exact .refl w
  split at h
  · exact quiet_startAcceptLoop h
  · cases h

end Accepts

section Connections

theorem Routed.processConnect (h : Routed w) (session : S) (admission : Admission)
    (acceptEvent : Option (AcceptEvent L)) :
    Routed (w.processConnect session admission acceptEvent) :=
  (quiet_disown w (.connectEvent session)).routed h

omit [DecidableEq L] in
theorem Routed.finishDisconnect (h : Routed w) (session : S) :
    Routed (w.finishDisconnect session) := by
  unfold World.finishDisconnect
  split
  · exact nofun
  · exact h

omit [DecidableEq L] in
theorem finishDisconnect_dispatched (session : S) :
    (w.finishDisconnect session).dispatched = w.dispatched := by
  unfold World.finishDisconnect
  split <;> rfl

end Connections

section Steps

omit [DecidableEq S] [DecidableEq L] in
/-- Whether the step dequeues a completion. -/
def Event.isDispatch : Event S L Buf → Bool
  | .dispatch _ _ => true
  | _ => false

variable (w)

/-- What a step does, as far as completions and connections go. -/
inductive Step : Event S L Buf → World S L Buf → Prop where
  | quiet {e v} (other : e.isDispatch = false) (quiet : Quiet w v) : Step e v
  | released {index answer} (handlers : List (Handler S L)) (session : S) :
      Step (.finish index answer) (World.finishDisconnect { w with handlers } session)
  | timedOut {dequeued answers} (nothing : dequeued.iocpEvent = none)
      (timeout : dequeued.errorCode = waitTimeout) : Step (.dispatch dequeued answers) w
  | null {dequeued answers} (nothing : dequeued.iocpEvent = none)
      (failed : dequeued.errorCode ≠ waitTimeout) :
      Step (.dispatch dequeued answers) (w.crashed .nullIocpEvent)
  | dropped {dequeued answers iocpEvent} (event : dequeued.iocpEvent = some iocpEvent)
      (outstanding : w.outstanding iocpEvent ≠ 0)
      (timeout : dequeued.successful = false ∧ dequeued.errorCode = waitTimeout) :
      Step (.dispatch dequeued answers) ((w.dequeue iocpEvent).record iocpEvent none)
  | handled {dequeued answers iocpEvent handled v} (event : dequeued.iocpEvent = some iocpEvent)
      (outstanding : w.outstanding iocpEvent ≠ 0)
      (taken : ¬(dequeued.successful = false ∧ dequeued.errorCode = waitTimeout))
      (dispatch : (w.dequeue iocpEvent).dispatchEvent iocpEvent dequeued answers =
        some (handled, v)) :
      Step (.dispatch dequeued answers) (v.record iocpEvent handled)

variable {w} {e : Event S L Buf}

theorem quiet_finish {handler : Handler S L} {answer : Answer S}
    (h : w.finish answer handler = some w')
    (hother : ∀ session, handler ≠ .onDisconnected session) : Quiet w w' := by
  cases handler with
  | onConnected session acceptEvent =>
      have hquiet := quiet_registerRecv w session answer.result
      cases acceptEvent with
      | none =>
          cases h
          exact hquiet
      | some event => exact hquiet.trans (quiet_registerAccept h)
  | onDisconnected session => exact absurd rfl (hother session)
  | onRecv session dataSize =>
      cases h
      exact quiet_finishRecv w _ _ _ _
  | onSend session =>
      cases h
      exact quiet_finishSend w _

theorem quiet_or_released {handler : Handler S L} {answer : Answer S}
    (h : w.finish answer handler = some w') :
    Quiet w w' ∨ ∃ session, w' = w.finishDisconnect session := by
  cases handler with
  | onDisconnected session =>
      cases h
      exact .inr ⟨session, rfl⟩
  | onConnected => exact .inl (quiet_finish h nofun)
  | onRecv => exact .inl (quiet_finish h nofun)
  | onSend => exact .inl (quiet_finish h nofun)

theorem step_of_dispatch {dequeued : Dequeued S L} {answers : AcceptAnswers S}
    (h : w.dispatchCompletionPacket dequeued answers = some w') :
    Step w (.dispatch dequeued answers) w' := by
  unfold World.dispatchCompletionPacket at h
  split at h
  next hnone =>
    split at h
    · cases h
    split at h
    next htimeout =>
      cases h
      exact .timedOut hnone htimeout
    next hfailed =>
      cases h
      exact .null hnone hfailed
  next iocpEvent hsome =>
    split at h
    · cases h
    next houtstanding =>
    split at h
    next htimeout =>
      cases h
      exact .dropped hsome houtstanding htimeout
    next htaken =>
      obtain ⟨⟨handled, v⟩, hdispatch, rfl⟩ := Option.map_eq_some_iff.mp h
      exact .handled hsome houtstanding htaken hdispatch

theorem step_of_next (h : w.next e = some w') : w.crash = none ∧ Step w e w' := by
  unfold World.next at h
  split at h
  · cases h
  next hrunning =>
  refine ⟨by simpa using hrunning, ?_⟩
  cases e with
  | registerConnect session setup result =>
      cases h
      exact .quiet rfl (quiet_registerConnect w _ _ _)
  | registerDisconnect session result =>
      cases h
      exact .quiet rfl (quiet_registerDisconnect w _ _)
  | registerRecv session result =>
      cases h
      exact .quiet rfl (quiet_registerRecv w _ _)
  | registerSend session =>
      cases h
      exact .quiet rfl (quiet_registerSend w _)
  | send session sendBuffer =>
      cases h
      exact .quiet rfl (quiet_send w _ _)
  | startAccept listener setup attempts => exact .quiet rfl (quiet_startAccept h)
  | dispatch dequeued answers => exact step_of_dispatch h
  | finish index answer =>
      simp only at h
      split at h
      · cases h
      · obtain hquiet | ⟨session, rfl⟩ := quiet_or_released h
        · exact .quiet rfl ((quiet_handlers w _).trans hquiet)
        · exact .released _ session

/-- The owner of a routed event is a session. -/
theorem Routed.dispatchEvent (h : Routed w) (hrunning : w.crash = none)
    {iocpEvent : IocpEvent S L} {dequeued : Dequeued S L} {answers : AcceptAnswers S}
    {handled : Option (Handled S L)}
    (hdispatch : w.dispatchEvent iocpEvent dequeued answers = some (handled, w')) :
    Routed w' := by
  unfold World.dispatchEvent at hdispatch
  split at hdispatch
  next =>
    cases hdispatch
    exact nofun
  next session _ =>
    cases iocpEvent with
    | connectEvent x =>
        cases hdispatch
        exact h.processConnect _ _ _
    | disconnectEvent x =>
        cases hdispatch
        exact (quiet_processDisconnect w _).routed h
    | recvEvent x =>
        cases hdispatch
        exact (quiet_processRecv w _ _).routed h
    | sendEvent x =>
        cases hdispatch
        exact (quiet_processSend w _ _).routed h
    | acceptEvent event =>
        cases hdispatch
        exact h
  next listener howner =>
    obtain ⟨_, hsession, -⟩ := h hrunning iocpEvent _ howner
    cases hsession

theorem Routed.next (h : Routed w) (hnext : w.next e = some w') : Routed w' := by
  obtain ⟨hrunning, hstep⟩ := step_of_next hnext
  cases hstep with
  | quiet other quiet => exact quiet.routed h
  | released handlers session =>
      have hkept := (quiet_handlers w handlers).routed h
      exact hkept.finishDisconnect session
  | timedOut => exact h
  | null => exact nofun
  | dropped => exact h
  | @handled _ _ iocpEvent _ v event outstanding taken dispatch =>
      have hdequeued : Routed (w.dequeue iocpEvent) := h
      have hdispatched : Routed v := hdequeued.dispatchEvent hrunning dispatch
      exact hdispatched

theorem routed_init {bufferSize : Int32} (h : (system bufferSize).init w) : Routed w := by
  obtain ⟨build, serviceType, maxSessionCount, recvBuffer, -, rfl⟩ := h
  exact nofun

end Steps

end Iocp

end ServerCore
