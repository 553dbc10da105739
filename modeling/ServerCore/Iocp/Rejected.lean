import ServerCore.Iocp.Ownership

/-!
# Rejected registrations

A registration makes the session the owner of its event before the call, so a call that
is rejected has to put the old owner back. None of the three functions does. A rejected
`RegisterConnect` resets the owner of `disconnectEvent` instead of its own, a rejected
`RegisterDisconnect` resets an owner that an earlier call may have set, and a rejected
`RegisterRecv` leaves the session as the owner, because it looks for an error where
`WSARecv` has not failed. The owners are what they were exactly when they already were
what the function leaves behind.
-/

namespace ServerCore

namespace Iocp

open Interleaving
open Receive (CallResult wsaIoPending)

inductive Registration where
  | connect
  | disconnect
  | recv
  deriving DecidableEq, Repr

variable {S L Buf : Type} [DecidableEq S] [DecidableEq L]

section Definitions

variable (w : World S L Buf)

/-- `RegisterRecv` of the session reaches `WSARecv`, which fails. -/
def RecvRejected (session : S) (result : CallResult) : Prop :=
  (w.sessions session).isConnected = true ∧ result.posted = false

/-- The overlapped call of the registration fails in this step, which is a call of the
function or the return to a handler that calls it. -/
def Rejected (session : S) (registration : Registration) : Event S L Buf → Prop
  | .registerConnect x setup result =>
      registration = .connect ∧ x = session ∧ (w.sessions session).isConnected = false ∧
        w.serviceType = .client ∧ setup = true ∧ result.posted = false
  | .registerDisconnect x result =>
      registration = .disconnect ∧ x = session ∧ result.posted = false
  | .registerRecv x result => registration = .recv ∧ x = session ∧ RecvRejected w session result
  | .finish index answer =>
      match w.handlers[index]? with
      | some (.onConnected x _) =>
          registration = .recv ∧ x = session ∧ RecvRejected w session answer.result
      | some (.onRecv x dataSize) =>
          registration = .recv ∧ x = session ∧ Accepts w session dataSize answer.processLen ∧
            RecvRejected w session answer.result
      | _ => False
  | _ => False

/-- The four events of the session have the owners that they had. -/
def Traceless (session : S) (w' : World S L Buf) : Prop :=
  ∀ iocpEvent : IocpEvent S L, iocpEvent.registrant = .session session →
    w'.ownerSession iocpEvent = w.ownerSession iocpEvent

/-- A registration that the step makes and the system rejects leaves no trace. -/
def LeavesNoTrace (e : Event S L Buf) : Prop :=
  ∀ session registration, Rejected w session registration e →
    ∀ w', w.next e = some w' → Traceless w session w'

/-- The owners are already those that a rejected registration leaves behind. -/
def NothingToUndo (session : S) : Registration → Prop
  | .connect => w.ownerSession (.connectEvent session) = some (.session session) ∧
      w.ownerSession (.disconnectEvent session) = none
  | .disconnect => w.ownerSession (.disconnectEvent session) = none
  | .recv => w.ownerSession (.recvEvent session) = some (.session session)

end Definitions

variable {w w' v : World S L Buf} {session : S}

/-- An owner that is set leaves no trace when the event has it already. -/
theorem traceless_setOwner {iocpEvent : IocpEvent S L} {owner : Option (ISession S L)}
    (hsession : iocpEvent.registrant = .session session) :
    Traceless w session (w.setOwner iocpEvent owner) ↔ w.ownerSession iocpEvent = owner := by
  constructor
  · intro h
    exact (h iocpEvent hsession).symm.trans (setOwner_self iocpEvent owner)
  · intro h x _
    show Function.update w.ownerSession iocpEvent owner x = _
    rw [← h, Function.update_eq_self]

/-- The second owner that is set for one event replaces the first. -/
theorem setOwner_setOwner (w : World S L Buf) (iocpEvent : IocpEvent S L)
    (owner owner' : Option (ISession S L)) :
    (w.setOwner iocpEvent owner).setOwner iocpEvent owner' = w.setOwner iocpEvent owner' := by
  simp only [World.setOwner, Function.update_idem]

theorem rejected_registerConnect {setup : Bool} {result : CallResult}
    (h : Rejected w session .connect (.registerConnect session setup result)) :
    (w.registerConnect session setup result).2 =
      (w.setOwner (.connectEvent session) (some (.session session))).setOwner
        (.disconnectEvent session) none := by
  obtain ⟨-, -, hnew, hclient, hsetup, hrejected⟩ := h
  rw [World.registerConnect]
  simp [hnew, hclient, hsetup, hrejected]

theorem rejected_registerDisconnect {result : CallResult} (h : result.posted = false) :
    (w.registerDisconnect session result).2 = w.setOwner (.disconnectEvent session) none := by
  rw [World.registerDisconnect]
  simp only [h, Bool.false_eq_true, if_false]
  exact setOwner_setOwner w _ _ _

theorem rejected_registerRecv {result : CallResult} (h : RecvRejected w session result) :
    w.registerRecv session result =
      w.setOwner (.recvEvent session) (some (.session session)) := by
  obtain ⟨hconnected, hrejected⟩ := h
  have hfailed : result.socketError = true := by
    cases hresult : result.socketError with
    | true => rfl
    | false => simp [CallResult.posted, hresult] at hrejected
  rw [World.registerRecv]
  simp [hconnected, hrejected, hfailed]

omit [DecidableEq S] [DecidableEq L] in
theorem Traceless.trans (h : Traceless w session v) (h' : Traceless v session w') :
    Traceless w session w' :=
  fun iocpEvent hsession => (h' iocpEvent hsession).trans (h iocpEvent hsession)

/-- A rejected `RegisterConnect` writes two owners, and each has to be written already. -/
theorem traceless_registerConnect {setup : Bool} {result : CallResult}
    (h : Rejected w session .connect (.registerConnect session setup result)) :
    Traceless w session (w.registerConnect session setup result).2 ↔
      NothingToUndo w session .connect := by
  rw [rejected_registerConnect h]
  constructor
  · intro htraceless
    constructor
    · have hne : (.connectEvent session : IocpEvent S L) ≠ .disconnectEvent session := nofun
      have howner := htraceless (.connectEvent session) rfl
      rw [setOwner_of_ne hne, setOwner_self] at howner
      exact howner.symm
    · exact (htraceless (.disconnectEvent session) rfl).symm.trans (setOwner_self _ _)
  · rintro ⟨hconnect, hdisconnect⟩
    have hfirst : Traceless w session
        (w.setOwner (.connectEvent session) (some (.session session))) :=
      (traceless_setOwner rfl).mpr hconnect
    refine hfirst.trans ((traceless_setOwner rfl).mpr ?_)
    rw [hfirst (.disconnectEvent session) rfl, hdisconnect]

theorem registerAccept_ownerSession {acceptEvent : AcceptEvent L} {attempts : List (Attempt S)}
    (h : World.registerAccept acceptEvent attempts w = some w') {iocpEvent : IocpEvent S L}
    (hsession : iocpEvent.registrant = .session session) :
    w'.ownerSession iocpEvent = w.ownerSession iocpEvent := by
  have hne : iocpEvent ≠ .acceptEvent acceptEvent := by
    rintro rfl
    cases hsession
  induction attempts generalizing w with
  | nil => cases h
  | cons attempt rest ih =>
      rw [World.registerAccept] at h
      split at h
      · cases h
        rfl
      next x _ =>
        have howner : (w.setOwner (.acceptEvent acceptEvent) (some (.session x))).ownerSession
            iocpEvent = w.ownerSession iocpEvent := setOwner_of_ne hne
        simp only at h
        split at h
        · cases h
          exact howner
        · exact (ih h).trans howner

/-- The rest of a handler, from its `RegisterRecv` on, leaves the events of the session
as `RegisterRecv` does. -/
theorem finish_traceless {answer : Answer S} {handler : Handler S L}
    (h : w.finish answer handler = some w') {session : S}
    (hrejected : match handler with
      | .onConnected x _ => x = session ∧ RecvRejected w session answer.result
      | .onRecv x dataSize => x = session ∧ Accepts w session dataSize answer.processLen ∧
          RecvRejected w session answer.result
      | _ => False) :
    Traceless w session w' ↔ NothingToUndo w session .recv := by
  cases handler with
  | onConnected x acceptEvent =>
      obtain ⟨rfl, hrecv⟩ := hrejected
      cases acceptEvent with
      | none =>
          cases h
          show Traceless w x (w.registerRecv x answer.result) ↔ _
          rw [rejected_registerRecv hrecv]
          exact traceless_setOwner rfl
      | some acceptEvent =>
          change World.registerAccept acceptEvent answer.attempts
            (w.registerRecv x answer.result) = some w' at h
          rw [rejected_registerRecv hrecv] at h
          have hrecvEvent : (.recvEvent x : IocpEvent S L).registrant = .session x := rfl
          refine Iff.trans ?_ (traceless_setOwner hrecvEvent)
          refine forall_congr' fun iocpEvent => imp_congr_right fun hsession => ?_
          rw [registerAccept_ownerSession h hsession]
  | onRecv x dataSize =>
      obtain ⟨rfl, ⟨hlen, hread⟩, hrecv⟩ := hrejected
      obtain ⟨recvBuffer, hsome⟩ := Option.isSome_iff_exists.mp hread
      cases h
      show Traceless w x (w.finishRecv x dataSize answer.processLen answer.result) ↔ _
      have hcleaned : RecvRejected (w.setSession x
          { w.sessions x with recvBuffer := recvBuffer.clean }) x answer.result := by
        refine ⟨?_, hrecv.2⟩
        rw [(quiet_setSession w x (by rfl)).connected x]
        exact hrecv.1
      simp only [World.finishRecv, if_neg hlen, hsome]
      rw [rejected_registerRecv hcleaned]
      exact traceless_setOwner (w := w.setSession x _) rfl
  | onDisconnected => exact hrejected.elim
  | onSend => exact hrejected.elim

/-- A registration that is rejected leaves no trace exactly when there is none to undo. -/
theorem leavesNoTrace_iff {e : Event S L Buf} (hnext : w.next e = some w') :
    LeavesNoTrace w e ↔
      ∀ session registration, Rejected w session registration e →
        NothingToUndo w session registration := by
  refine forall_congr' fun session => forall_congr' fun registration => ?_
  refine imp_congr_right fun hrejected => ?_
  have hone : (∀ w', w.next e = some w' → Traceless w session w') ↔ Traceless w session w' := by
    rw [hnext]
    exact ⟨fun h => h w' rfl, fun h _ heq => Option.some.inj heq ▸ h⟩
  rw [hone]
  have hrunning := (step_of_next hnext).1
  unfold World.next at hnext
  rw [if_neg (by simp [hrunning])] at hnext
  cases e with
  | registerConnect x setup result =>
      obtain ⟨rfl, rfl, hrest⟩ := hrejected
      cases hnext
      exact traceless_registerConnect ⟨rfl, rfl, hrest⟩
  | registerDisconnect x result =>
      obtain ⟨rfl, rfl, hposted⟩ := hrejected
      cases hnext
      rw [rejected_registerDisconnect hposted]
      exact traceless_setOwner rfl
  | registerRecv x result =>
      obtain ⟨rfl, rfl, hrecv⟩ := hrejected
      cases hnext
      rw [rejected_registerRecv hrecv]
      exact traceless_setOwner rfl
  | finish index answer =>
      simp only [Rejected] at hrejected
      cases hhandler : w.handlers[index]? with
      | none =>
          rw [hhandler] at hrejected
          exact hrejected.elim
      | some handler =>
          rw [hhandler] at hrejected
          simp only [hhandler] at hnext
          have hregistration : registration = .recv := by
            cases handler <;> first | exact hrejected.1 | exact hrejected.elim
          subst hregistration
          refine finish_traceless (w := { w with handlers := _ }) hnext ?_
          cases handler <;> first | exact hrejected.2 | exact hrejected
  | registerSend => exact hrejected.elim
  | send => exact hrejected.elim
  | startAccept => exact hrejected.elim
  | dispatch => exact hrejected.elim

/-- In a run, every rejected registration leaves no trace exactly when each of them has
nothing to undo. -/
theorem rejected_traceless_iff (bufferSize : Int32) (es : List (Event S L Buf))
    (w : World S L Buf) :
    (system bufferSize).Along LeavesNoTrace es w ↔
      (system bufferSize).Along (fun w e => ∀ session registration,
        Rejected w session registration e → NothingToUndo w session registration) es w :=
  System.along_iff_along (I := fun _ => True) (fun _ _ _ _ _ _ => trivial)
    (fun _ _ _ _ hnext => leavesNoTrace_iff hnext) es trivial

/-- A new client session whose `ConnectEx` fails owns its `connectEvent`. -/
theorem rejected_leaves_owner :
    ¬∀ (bufferSize : Int32) (w : World (Fin 1) (Fin 1) Unit) (es : List (Event (Fin 1) (Fin 1) Unit)),
      (system bufferSize).init w → (system bufferSize).Along LeavesNoTrace es w := by
  intro h
  have hleaves := (h 1 _ [.registerConnect 0 true ⟨true, 10049⟩] (newWorld_init .client) _ rfl).1
  have htraceless := hleaves 0 .connect ⟨rfl, rfl, rfl, rfl, rfl, by decide⟩ _ rfl
    (.connectEvent 0) rfl
  cases htraceless

end Iocp

end ServerCore
