import ServerCore.Iocp.Calls

/-!
# Failed completions

When the wait fails with anything but a timeout, `DispatchCompletionPacket` dispatches
the event as if it had succeeded. For a connect that makes the session connected, because
`ProcessConnect` is not told how the operation ended; and when the failed wait dequeued
nothing, the event is a null pointer. The other handlers see a failed completion as one
without bytes, which admits nobody.
-/

namespace ServerCore

namespace Iocp

open Interleaving
open Receive (CallResult wsaIoPending)

variable {S L Buf : Type}

/-- A session is connected or registered only after a connect that succeeded or an
accept, and no null event was dereferenced. -/
structure Admitted (w : World S L Buf) : Prop where
  succeeded : ∀ session admission, (session, admission) ∈ w.admissions →
    admission = .accepted ∨ admission = .connected true
  admitted : ∀ session, (w.sessions session).isConnected = true ∨ session ∈ w.service.sessions →
    ∃ admission, (session, admission) ∈ w.admissions
  event : w.crash ≠ some .nullIocpEvent

/-- A wait that dequeues nothing has timed out, and a connect that failed is reported as a
timeout or has lost its owner. -/
def Succeeds (w : World S L Buf) : Event S L Buf → Prop
  | .dispatch dequeued _ =>
      (dequeued.iocpEvent = none → dequeued.errorCode = waitTimeout) ∧
        ∀ session, dequeued.iocpEvent = some (.connectEvent session) →
          dequeued.successful = false → dequeued.errorCode ≠ waitTimeout →
            w.ownerSession (.connectEvent session) = none
  | _ => True

theorem Quiet.keepsAdmitted {w w' : World S L Buf} (h : Quiet w w') (hw : Admitted w) :
    Admitted w' := by
  refine ⟨?_, ?_, fun hcrash => hw.event (h.crash hcrash)⟩
  · rw [h.admissions]
    exact hw.succeeded
  · intro session
    rw [h.connected, h.service, h.admissions]
    exact hw.admitted session

variable [DecidableEq S] [DecidableEq L] {w w' : World S L Buf} {e : Event S L Buf}
  {iocpEvent : IocpEvent S L} {dequeued : Dequeued S L} {answers : AcceptAnswers S}
  {handled : Option (Handled S L)} {session : S}

section Steps

omit [DecidableEq S] [DecidableEq L] in
theorem not_admitted_crashed : ¬Admitted (w.crashed .nullIocpEvent) := fun h => h.event rfl

/-- `ProcessConnect` admits the session, whether the operation has succeeded or not. -/
theorem admitted_processConnect (h : Admitted w) (successful : Bool)
    (acceptEvent : Option (AcceptEvent L)) :
    Admitted (w.processConnect session (.connected successful) acceptEvent) ↔
      successful = true := by
  have hadmissions : (w.processConnect session (.connected successful) acceptEvent).admissions =
      w.admissions ++ [(session, .connected successful)] := rfl
  constructor
  · intro h'
    have hmem : (session, Admission.connected successful) ∈
        (w.processConnect session (.connected successful) acceptEvent).admissions := by
      rw [hadmissions]
      exact List.mem_append_right _ (List.mem_singleton_self _)
    obtain hsucceeded | hsucceeded := h'.succeeded session _ hmem
    · cases hsucceeded
    · exact Admission.connected.inj hsucceeded
  · rintro rfl
    refine ⟨?_, ?_, h.event⟩
    · intro x admission hmem
      rw [hadmissions, List.mem_append, List.mem_singleton] at hmem
      obtain hmem | heq := hmem
      · exact h.succeeded x admission hmem
      · exact .inr (Prod.mk.inj heq).2
    · intro x hx
      rw [hadmissions]
      obtain rfl | hne := eq_or_ne x session
      · exact ⟨_, List.mem_append_right _ (List.mem_singleton_self _)⟩
      · have hbefore : (w.sessions x).isConnected = true ∨ x ∈ w.service.sessions := by
          refine hx.imp (fun hconnected => ?_) fun hmem => Finset.mem_of_mem_insert_of_ne hmem hne
          change (Function.update w.sessions session _ x).isConnected = true at hconnected
          rwa [Function.update_of_ne hne] at hconnected
        obtain ⟨admission, hmem⟩ := h.admitted x hbefore
        exact ⟨admission, List.mem_append_left _ hmem⟩

omit [DecidableEq L] in
/-- `ReleaseSession` adds nobody. -/
theorem Admitted.finishDisconnect (h : Admitted w) : Admitted (w.finishDisconnect session) := by
  unfold World.finishDisconnect
  split
  · exact ⟨h.succeeded, h.admitted, nofun⟩
  next service hreleased =>
    have hsubset : service.sessions ⊆ w.service.sessions := by
      unfold Service.releaseSession at hreleased
      split at hreleased
      · split at hreleased <;> cases hreleased
        exact Finset.erase_subset _ _
      · cases hreleased
        exact Finset.Subset.refl _
    refine ⟨h.succeeded, fun x hx => h.admitted x (hx.imp_right ?_), h.event⟩
    exact fun hmem => hsubset hmem

/-- Only an owned connect is more than quiet. -/
theorem quiet_or_connected (h : Routed w) (hrunning : w.crash = none)
    (hdispatch : w.dispatchEvent iocpEvent dequeued answers = some (handled, w')) :
    (Quiet w w' ∧ ∀ session, iocpEvent = .connectEvent session →
      w.ownerSession (.connectEvent session) = none) ∨
    ∃ session, iocpEvent = .connectEvent session ∧
      w.ownerSession (.connectEvent session) ≠ none ∧
        w' = w.processConnect session (.connected dequeued.successful) none := by
  unfold World.dispatchEvent at hdispatch
  split at hdispatch
  next howner =>
    cases hdispatch
    refine .inl ⟨quiet_crashed w nofun, ?_⟩
    rintro session rfl
    exact howner
  next session howner =>
    obtain ⟨_, ⟨⟩, hregistrant⟩ := h hrunning iocpEvent _ howner
    cases iocpEvent with
    | connectEvent x =>
        cases hregistrant nofun
        cases hdispatch
        exact .inr ⟨session, rfl, by rw [howner]; exact nofun, rfl⟩
    | disconnectEvent x =>
        cases hdispatch
        exact .inl ⟨quiet_processDisconnect w _, nofun⟩
    | recvEvent x =>
        cases hdispatch
        exact .inl ⟨quiet_processRecv w _ _, nofun⟩
    | sendEvent x =>
        cases hdispatch
        exact .inl ⟨quiet_processSend w _ _, nofun⟩
    | acceptEvent event =>
        cases hdispatch
        exact .inl ⟨.refl w, nofun⟩
  next listener howner =>
    obtain ⟨_, hsession, -⟩ := h hrunning iocpEvent _ howner
    cases hsession

/-- A step keeps failures apart from successes exactly when its completion is none of the
two that the dispatcher mistakes. -/
theorem admitted_iff_succeeds (hrouted : Routed w) (h : Admitted w) (hnext : w.next e = some w') :
    Admitted w' ↔ Succeeds w e := by
  obtain ⟨hrunning, hstep⟩ := step_of_next hnext
  cases hstep with
  | quiet other quiet =>
      refine iff_of_true (quiet.keepsAdmitted h) ?_
      cases e with
      | dispatch => cases other
      | _ => trivial
  | released handlers session =>
      have hkept := (quiet_handlers w handlers).keepsAdmitted h
      exact iff_of_true hkept.finishDisconnect trivial
  | timedOut hnone timeout =>
      refine iff_of_true h ⟨fun _ => timeout, fun session hsome => ?_⟩
      rw [hnone] at hsome
      cases hsome
  | null hnone failed =>
      exact iff_of_false not_admitted_crashed fun hsucceeds => failed (hsucceeds.1 hnone)
  | @dropped _ _ iocpEvent hsome outstanding timeout =>
      have hdropped : Admitted ((w.dequeue iocpEvent).record iocpEvent none) :=
        ⟨h.succeeded, h.admitted, h.event⟩
      refine iff_of_true hdropped ⟨fun hnone => ?_, fun _ _ _ hfailed => absurd timeout.2 hfailed⟩
      rw [hsome] at hnone
      cases hnone
  | @handled dequeued _ iocpEvent handled v hsome outstanding taken dispatch =>
      have hdequeued : Routed (w.dequeue iocpEvent) := hrouted
      have hadmitted : Admitted (w.dequeue iocpEvent) := ⟨h.succeeded, h.admitted, h.event⟩
      have hrecorded : Admitted (v.record iocpEvent handled) ↔ Admitted v :=
        ⟨fun hv => ⟨hv.succeeded, hv.admitted, hv.event⟩,
          fun hv => ⟨hv.succeeded, hv.admitted, hv.event⟩⟩
      have hevent : dequeued.iocpEvent = none → dequeued.errorCode = waitTimeout := by
        rw [hsome]
        exact nofun
      refine hrecorded.trans ?_
      obtain ⟨hquiet, hlost⟩ | ⟨session, rfl, howned, rfl⟩ :=
        quiet_or_connected hdequeued hrunning dispatch
      · refine iff_of_true (hquiet.keepsAdmitted hadmitted) ⟨hevent, fun session heq _ _ => ?_⟩
        exact hlost session (Option.some.inj (hsome.symm.trans heq))
      · refine (admitted_processConnect hadmitted dequeued.successful none).trans ⟨?_, ?_⟩
        · intro hsuccessful
          refine ⟨hevent, fun _ _ hfailed => ?_⟩
          rw [hsuccessful] at hfailed
          cases hfailed
        · intro hsucceeds
          by_contra hfailed
          have hfailed : dequeued.successful = false := Bool.not_eq_true _ ▸ hfailed
          exact howned (hsucceeds.2 session hsome hfailed fun htimeout => taken ⟨hfailed, htimeout⟩)

end Steps

section Runs

/-- In a run, no failure is taken for a success in any state exactly when no connect
completes with a failure and no wait fails without an event. -/
theorem admitted_iff {bufferSize : Int32} (h : (system bufferSize).init w)
    (es : List (Event S L Buf)) :
    (system bufferSize).Throughout Admitted es w ↔ (system bufferSize).Along Succeeds es w := by
  have hstart : Routed w ∧ Admitted w := by
    refine ⟨routed_init h, ?_⟩
    obtain ⟨build, serviceType, maxSessionCount, recvBuffer, -, rfl⟩ := h
    refine ⟨nofun, fun session hadmitted => ?_, nofun⟩
    obtain hconnected | hmem := hadmitted
    · cases hconnected
    · exact absurd hmem (Finset.notMem_empty session)
  refine System.throughout_iff_along (I := fun w : World S L Buf => Routed w ∧ Admitted w)
    (fun w hw => hw.2) ?_ ?_ es hstart
  · intro w e w' hw succeeds hnext
    exact ⟨hw.1.next hnext, (admitted_iff_succeeds hw.1 hw.2 hnext).mpr succeeds⟩
  · intro w e w' hw hnext admitted
    exact (admitted_iff_succeeds hw.1 hw.2 hnext).mp admitted

/-- The server refuses the connection: `ConnectEx` completes with an error. -/
def refusedRun : List (Event (Fin 1) (Fin 1) Unit) :=
  [.registerConnect 0 true ⟨true, wsaIoPending⟩,
    .dispatch { successful := false, iocpEvent := some (.connectEvent 0), errorCode := 1225 } {}]

theorem admitted_iff_refused :
    (system 1).Throughout Admitted refusedRun (newWorld .client) ↔
      (system 1).Along Succeeds refusedRun (newWorld .client) :=
  admitted_iff (newWorld_init .client) refusedRun

/-- The session of the refused connection is connected. -/
theorem refused_admitted :
    ¬∀ (bufferSize : Int32) (w : World (Fin 1) (Fin 1) Unit),
      (system bufferSize).Reachable System.anyStep w → Admitted w := by
  intro hall
  have hany : ((system 1).run refusedRun (newWorld .client)).any (fun w => decide
      ((w.sessions 0).isConnected = true ∧ (0, .connected false) ∈ w.admissions)) = true := by
    decide +kernel
  obtain ⟨w, hrun, -, hmem⟩ := System.exists_of_run hany
  have hadmitted := hall 1 w (System.reachable_of_run (newWorld_init .client) hrun)
  obtain hsucceeded | hsucceeded := hadmitted.succeeded 0 _ hmem
  · cases hsucceeded
  · cases hsucceeded

end Runs

end Iocp

end ServerCore
