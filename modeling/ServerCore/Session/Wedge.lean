import ServerCore.Session.Outstanding

/-!
# When the send path wedges

`ProcessSend` returns on a completion of 0 bytes before it releases the flag, and the
`Disconnect` it calls has an empty body. `DispatchCompletionPacket` passes 0 bytes for a
send that failed. From then on nothing carries the token while the flag is set
(`Stuck`), in every continuation: buffers are queued and never submitted.

This is the only exit that drops the token. The early return of `RegisterSend` is not
taken, since the flag is never set on a session that is not connected, so as long as
every completion reports bytes the flag is set exactly while something carries the
token (`Live`).
-/

namespace ServerCore

namespace Send

open Interleaving

variable {Tid Buf : Type}

/-- A frame of `Send` that has seen the connection. -/
@[simp] def Frame.admitted : Frame Buf → ℕ
  | .sendBlock _ => 1
  | _ => 0

/-- A frame of `ProcessSend` that will return early. -/
@[simp] def Frame.empty : Frame Buf → ℕ
  | .processSend n | .clearBuffers n => if n = 0 then 1 else 0
  | _ => 0

/-- The shared state, with the number of frames that carry the token, have seen the
connection, or will return early. -/
structure Live (sh : Shared Buf) (carriers admitted empty : ℕ) : Prop where
  unconnected : sh.isConnected = false → admitted = 0 ∧ sh.isSendRegistered = false
  carried : sh.isSendRegistered = true → carriers + sh.outstanding.toNat = 1
  nonempty : empty = 0

namespace Live

variable {sh sh' : Shared Buf} {frame : Frame Buf} {frames : List (Frame Buf)} {c a p z : ℕ}

/-- A session on which the flag is set is connected. -/
theorem connected (h : Live sh c p z) (hflag : sh.isSendRegistered = true) :
    ¬sh.isConnected = false := by
  intro hconnected
  have hclear := (h.unconnected hconnected).2
  rw [hflag] at hclear
  cases hclear

/-- `RegisterSend` inside the lock submits a batch. -/
theorem registerSend (h : Live sh (1 + c) p z) (hcarried : Carried sh (1 + c) a) :
    Live sh.registerSend c p z := by
  have hconnected := h.connected hcarried.registered
  rw [Shared.registerSend, if_neg hconnected, collect_eq]
  refine ⟨fun hfalse => absurd hfalse hconnected, fun _ => ?_, h.nonempty⟩
  obtain ⟨hc, -⟩ := hcarried.alone
  change c + 1 = 1
  omega

/-- Every step of a frame that will not return early keeps the token with the flag. -/
theorem exec (h : Live sh (frame.carries + c) (frame.admitted + p) (frame.empty + z))
    (hcarried : Carried sh (frame.carries + c) a)
    (hexec : frame.exec sh = some (sh', frames)) :
    Live sh' (weigh Frame.carries frames + c) (weigh Frame.admitted frames + p)
      (weigh Frame.empty frames + z) := by
  cases frame with
  | send sendBuffer =>
      simp only [Frame.exec] at hexec
      split at hexec <;> cases hexec
      · exact h
      · next hconnected =>
          exact ⟨fun hfalse => absurd hfalse hconnected, h.carried, h.nonempty⟩
  | sendBlock sendBuffer =>
      have hconnected : ¬sh.isConnected = false := by
        intro hfalse
        have := (h.unconnected hfalse).1
        simp at this
      simp only [Frame.exec] at hexec
      split at hexec <;> cases hexec
      · next hflag =>
          refine ⟨fun hfalse => absurd hfalse hconnected, fun _ => ?_, h.nonempty⟩
          have hfree := (hcarried.free hflag).2
          change 1 + c + sh.outstanding.toNat = 1
          simp only [Frame.carries] at hfree
          omega
      · next hflag =>
          exact ⟨fun hfalse => absurd hfalse hconnected,
            fun _ => h.carried (Bool.eq_true_of_not_eq_false hflag), h.nonempty⟩
  | registerSend =>
      have hconnected := h.connected (Carried.registered hcarried)
      simp only [Frame.exec, if_neg hconnected] at hexec
      cases hexec
      exact h
  | initOverlapped =>
      cases hexec
      exact ⟨h.unconnected, h.carried, h.nonempty⟩
  | collectBlock =>
      cases hexec
      rw [collect_eq]
      exact ⟨h.unconnected, h.carried, h.nonempty⟩
  | buildWsaBufs =>
      cases hexec
      obtain ⟨hc, -⟩ := Carried.alone hcarried
      refine ⟨h.unconnected, fun _ => ?_, h.nonempty⟩
      change 0 + c + 1 = 1
      omega
  | processSend n =>
      cases hexec
      exact ⟨h.unconnected, h.carried, h.nonempty⟩
  | clearBuffers n =>
      simp only [Frame.exec] at hexec
      split at hexec <;> cases hexec
      · next hzero =>
          have hnonempty := h.nonempty
          rw [Frame.empty, if_pos hzero] at hnonempty
          omega
      · next hzero =>
          have hnonempty := h.nonempty
          rw [Frame.empty, if_neg hzero] at hnonempty
          exact ⟨h.unconnected, h.carried, hnonempty⟩
  | onSend => cases hexec
  | releaseBlock =>
      have hlive : Live sh (1 + c) p z := by simpa using h
      simp only [Frame.exec] at hexec
      split at hexec <;> cases hexec
      · refine ⟨fun hfalse => ?_, fun hflag => ?_, ?_⟩
        · exact absurd hfalse (hlive.connected (Carried.registered hcarried))
        · cases hflag
        · simpa using hlive.nonempty
      · simpa using hlive.registerSend (Carried.mk hcarried.token hcarried.owned hcarried.free
          hcarried.order hcarried.running)

end Live

/-- A completion reports at least one byte. -/
def ReportsBytes (_ : State Tid Buf) : Event Tid Buf → Prop
  | .complete _ bytesTransferred => bytesTransferred ≠ 0
  | _ => True

instance (s : State Tid Buf) : ∀ e, Decidable (ReportsBytes s e)
  | .complete _ _ => inferInstanceAs (Decidable (_ ≠ _))
  | .connect | .registerDisconnect _ | .send _ _ | .step _ | .endOnSend _ =>
      inferInstanceAs (Decidable True)

/-- A connected session has buffers to send, or says that it sends, while nothing is
outstanding, nobody is inside the send path and no disconnect is on its way. -/
structure State.Wedged (s : State Tid Buf) : Prop where
  connected : s.shared.isConnected = true
  waiting : s.shared.sendQueue ≠ [] ∨ s.shared.isSendRegistered = true
  noBatch : s.shared.outstanding = false
  noDisconnect : s.shared.disconnectRegistered = false
  idle : ∀ t, s.threads t = []

section Threads

variable [Fintype Tid] [DecidableEq Tid] {s s' : State Tid Buf} {e : Event Tid Buf}

/-- `Live`, for the frames of all threads. -/
def State.Live (s : State Tid Buf) : Prop :=
  Send.Live s.shared (s.total Frame.carries) (s.total Frame.admitted) (s.total Frame.empty)

theorem State.Live.next (h : s.Live) (hcarried : s.Carried) (hok : ReportsBytes s e)
    (hnext : s.next e = some s') : s'.Live := by
  cases step_of_next hnext with
  | connect =>
      refine ⟨fun hfalse => ?_, h.carried, h.nonempty⟩
      cases hfalse
  | registerDisconnect issued => exact ⟨h.unconnected, h.carried, h.nonempty⟩
  | send t sendBuffer =>
      rw [State.Live, total_push, total_push, total_push]
      simp only [Frame.carries, Frame.admitted, Frame.empty, Nat.zero_add]
      exact h
  | @complete t n hout howned =>
      rw [State.Live, total_push, total_push, total_push]
      have hcarriers : s.total Frame.carries = 0 := by
        have htoken := hcarried.token
        rw [hout, Bool.toNat_true] at htoken
        omega
      refine ⟨fun hfalse => ?_, fun _ => ?_, ?_⟩
      · rw [Frame.admitted, Nat.zero_add]
        · exact h.unconnected hfalse
        · intro sendBuffer hframe
          cases hframe
      · change 1 + s.total Frame.carries + 0 = 1
        omega
      · rw [Frame.empty, if_neg hok, Nat.zero_add]
        exact h.nonempty
  | crash hout howned =>
      have howner := hcarried.owned
      rw [hout, howned, Bool.toNat_true, Bool.toNat_false] at howner
      omega
  | frame hstack hexec =>
      rw [State.Live, total_frames, total_frames, total_frames]
      rw [State.Live, total_innermost _ hstack, total_innermost _ hstack,
        total_innermost _ hstack] at h
      rw [State.Carried, total_innermost _ hstack] at hcarried
      exact h.exec hcarried hexec
  | @endOnSend t rest hstack =>
      rw [State.Live, total_endOnSend Frame.carries hstack rfl,
        total_endOnSend Frame.admitted hstack rfl, total_endOnSend Frame.empty hstack rfl]
      exact h

theorem reachable_live (h : system.Reachable ReportsBytes s) : s.Carried ∧ s.Live := by
  apply h.invariant (I := fun s => s.Carried ∧ s.Live)
  · intro s hs
    refine ⟨reachable_carried (.start hs), ?_⟩
    subst hs
    rw [State.Live, total_initial, total_initial, total_initial]
    refine ⟨fun _ => ⟨rfl, rfl⟩, fun hflag => ?_, rfl⟩
    cases hflag
  · intro s e s' hs hok hnext
    exact ⟨hs.1.next hnext, hs.2.next hs.1 hok hnext⟩

/-- The send path does not wedge as long as every completion reports bytes. -/
theorem send_notWedged (h : system.Reachable ReportsBytes s) : ¬s.Wedged := by
  obtain ⟨hcarried, hlive⟩ := reachable_live h
  intro hwedged
  have hidle : ∀ weight : Frame Buf → ℕ, s.total weight = 0 := by
    intro weight
    apply Finset.sum_eq_zero
    intro t _
    rw [hwedged.idle t, weigh_nil]
  have hflag : s.shared.isSendRegistered = true := by
    obtain hqueue | hflag := hwedged.waiting
    · apply Bool.eq_true_of_not_eq_false
      intro hfalse
      exact hqueue (hcarried.free hfalse).1
    · exact hflag
  have htoken := hlive.carried hflag
  rw [hidle, hwedged.noBatch, Bool.toNat_false] at htoken
  omega

/-- A send is completed with its bytes, and the flag is released. -/
def completedRun : List (Event (Fin 1) ℕ) :=
  [.connect, .send 0 7, .step 0, .step 0, .step 0, .step 0, .step 0, .step 0, .complete 0 4,
    .step 0, .step 0, .endOnSend 0, .step 0]

theorem send_notWedged_completed :
    ∃ s, system.run completedRun {} = some s ∧ s.shared.completed = [7] ∧ ¬s.Wedged := by
  have hany : (system.run completedRun {}).any (fun s => s.shared.completed = [7]) = true := by
    decide +kernel
  obtain ⟨s, hrun, hs⟩ := System.exists_of_run hany
  have hok : system.Along ReportsBytes completedRun ({} : State (Fin 1) ℕ) :=
    System.along_of_check (by decide +kernel)
  have hreach := (System.Reachable.start rfl).run hok hrun
  exact ⟨s, hrun, hs, send_notWedged hreach⟩

/-- `Send` and `RegisterSend` submit a buffer, and its completion reports 0 bytes. -/
def failedRun : List (Event (Fin 1) ℕ) :=
  [.connect, .send 0 7, .step 0, .step 0, .step 0, .step 0, .step 0, .step 0, .complete 0 0,
    .step 0, .step 0]

/-- A failed send leaves the flag set on an idle, connected session. -/
theorem send_wedges :
    ¬∀ s : State (Fin 1) ℕ, system.Reachable System.anyStep s → ¬s.Wedged := by
  intro hnever
  have hany : (system.run failedRun {}).any (fun s => s.shared.isConnected = true ∧
      s.shared.isSendRegistered = true ∧ s.shared.outstanding = false ∧
      s.shared.disconnectRegistered = false ∧ ∀ t, s.threads t = []) = true := by
    decide +kernel
  obtain ⟨s, hrun, hconnected, hflag, hbatch, hdisconnect, hidle⟩ := System.exists_of_run hany
  have hreach := System.reachable_of_run rfl hrun
  exact hnever s hreach ⟨hconnected, .inr hflag, hbatch, hdisconnect, hidle⟩

/-- The flag is set, and nothing will release it. -/
structure State.Stuck (s : State Tid Buf) : Prop where
  registered : s.shared.isSendRegistered = true
  abandoned : s.total Frame.carries = 0
  noBatch : s.shared.outstanding = false

/-- The early return of `ProcessSend` leaves the session stuck. -/
theorem stuck_of_empty (hcarried : s.Carried) {t : Tid} {rest : List (Frame Buf)}
    (hstack : s.threads t = .clearBuffers 0 :: rest) (hnext : s.next (.step t) = some s') :
    s'.Stuck ∧ s'.shared.completed = s.shared.completed ++ s.shared.sendBuffers := by
  cases step_of_next hnext with
  | @frame _ _ rest' frames shared hstack' hexec =>
      rw [hstack] at hstack'
      cases hstack'
      cases hexec
      rw [State.Carried, total_innermost _ hstack] at hcarried
      obtain ⟨hothers, hout⟩ := Carried.alone hcarried
      have hflag : s.shared.isSendRegistered = true := Carried.registered hcarried
      refine ⟨⟨hflag, ?_, hout⟩, rfl⟩
      rw [total_frames, weigh_nil, Nat.zero_add]
      exact hothers

/-- Nothing gets a stuck session going again, and no buffer is completed any more. -/
theorem State.Stuck.next (h : s.Stuck) (hnext : s.next e = some s') :
    s'.Stuck ∧ s'.shared.completed = s.shared.completed := by
  cases step_of_next hnext with
  | connect | registerDisconnect issued => exact ⟨⟨h.registered, h.abandoned, h.noBatch⟩, rfl⟩
  | send t sendBuffer =>
      refine ⟨⟨h.registered, ?_, h.noBatch⟩, rfl⟩
      rw [total_push, h.abandoned]
      rfl
  | complete hout howned | crash hout howned =>
      rw [h.noBatch] at hout
      cases hout
  | @frame t frame rest frames shared hstack hexec =>
      have habandoned := h.abandoned
      rw [total_innermost _ hstack] at habandoned
      cases frame with
      | send sendBuffer =>
          simp only [Frame.exec] at hexec
          split at hexec <;> cases hexec <;> refine ⟨⟨h.registered, ?_, h.noBatch⟩, rfl⟩ <;>
            rw [total_frames] <;> simpa using habandoned
      | sendBlock sendBuffer =>
          simp only [Frame.exec, h.registered] at hexec
          cases hexec
          refine ⟨⟨rfl, ?_, h.noBatch⟩, rfl⟩
          rw [total_frames]
          simpa using habandoned
      | registerSend | initOverlapped | collectBlock | buildWsaBufs | processSend n
      | clearBuffers n | onSend | releaseBlock =>
          simp only [Frame.carries] at habandoned
          omega
  | endOnSend hstack =>
      have habandoned := h.abandoned
      rw [total_innermost _ hstack] at habandoned
      simp only [Frame.carries] at habandoned
      omega

/-- A stuck session stays stuck in every continuation of the run. -/
theorem State.Stuck.run {es : List (Event Tid Buf)} (h : s.Stuck)
    (hrun : system.run es s = some s') :
    s'.Stuck ∧ s'.shared.completed = s.shared.completed := by
  induction es generalizing s with
  | nil =>
      cases hrun
      exact ⟨h, rfl⟩
  | cons e es ih =>
      rw [System.run_cons, Option.bind_eq_some_iff] at hrun
      obtain ⟨u, hnext, hrest⟩ := hrun
      obtain ⟨hu, hcompleted⟩ := h.next hnext
      obtain ⟨hs', hcompleted'⟩ := ih hu hrest
      exact ⟨hs', hcompleted'.trans hcompleted⟩

end Threads

end Send

end ServerCore
