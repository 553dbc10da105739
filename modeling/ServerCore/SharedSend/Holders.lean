import ServerCore.SharedSend.References

/-!
# The holders of a send buffer

The buffers, and the send path of each session, run as they do on their own
(`projects_buffers`, `projects_session`). In every state the count of a buffer is the number
of its holders (`Accounted`), so the buffers that a session has queued or collected are live.
-/

namespace ServerCore

open Interleaving

namespace SharedSend

variable {Sid Tid : Type}

/-- The buffers are used as `sendBuffers_private` asks, and what is sent has been closed. -/
def Inside (s : State Sid Tid) : Event Sid Tid → Prop
  | .client e => SendBufferManager.Contents.Inside s.buffers e
  | .session _ (.send _ sendBuffer) => ∀ x, s.buffers.manager.sendBuffers sendBuffer = some x →
      x.status = .closed
  | _ => True

section Cases

variable [DecidableEq Sid] [DecidableEq Tid] [Fintype Sid] {s s' : State Sid Tid}
  {e : Event Sid Tid}

theorem next_cases (h : s.next e = some s') :
    (∃ e' buffers, e = .client e' ∧ s.ClientReady e' ∧ s.buffers.next e' = some buffers ∧
      s' = { s with buffers, clients := s.clientsAfter e' }) ∨
    (∃ sid e' session buffers, e = .session sid e' ∧ s.SessionReady e' ∧
      (s.sessions sid).next e' = some session ∧
      s.copy ((s.sessions sid).copied e') = some buffers ∧
      s' = s.moveSession sid e' session buffers) ∨
    (∃ t id rest buffers, e = .clear t ∧ s.clearing t = id :: rest ∧
      s.buffers.next (.manager (.dropReference t id)) = some buffers ∧
      s' = { s with buffers, clearing := Function.update s.clearing t rest }) := by
  unfold State.next at h
  cases e with
  | client e' =>
      simp only at h
      split at h
      next hready =>
        obtain ⟨buffers, hbuffers, rfl⟩ := Option.map_eq_some_iff.mp h
        exact .inl ⟨e', buffers, rfl, hready, hbuffers, rfl⟩
      · cases h
  | session sid e' =>
      simp only at h
      split at h
      next hready =>
        obtain ⟨session, hsession, hcopy⟩ := Option.bind_eq_some_iff.mp h
        obtain ⟨buffers, hbuffers, rfl⟩ := Option.map_eq_some_iff.mp hcopy
        exact .inr (.inl ⟨sid, e', session, buffers, rfl, hready, hsession, hbuffers, rfl⟩)
      · cases h
  | clear t =>
      simp only at h
      split at h
      · cases h
      next id rest hclearing =>
        obtain ⟨buffers, hbuffers, rfl⟩ := Option.map_eq_some_iff.mp h
        exact .inr (.inr ⟨t, id, rest, buffers, rfl, hclearing, hbuffers, rfl⟩)

omit [DecidableEq Sid] [Fintype Sid] in
theorem copy_cases {sendBuffer : Option ℕ} {buffers : SendBufferManager.Contents.State Tid}
    (h : s.copy sendBuffer = some buffers) :
    (sendBuffer = none ∧ buffers = s.buffers) ∨ ∃ id, sendBuffer = some id ∧
      s.buffers.next (.manager (.copyReference id)) = some buffers := by
  cases sendBuffer with
  | none =>
      simp only [State.copy] at h
      split at h <;> cases h
      exact .inl ⟨rfl, rfl⟩
  | some id => exact .inr ⟨id, rfl, h⟩

omit [DecidableEq Sid] [Fintype Sid] in
theorem manager_next {e : SendBufferManager.Event Tid}
    {buffers : SendBufferManager.Contents.State Tid}
    (h : s.buffers.next (.manager e) = some buffers) :
    s.buffers.manager.next e = some buffers.manager := by
  obtain ⟨manager, hnext, rfl⟩ := Option.map_eq_some_iff.mp h
  exact hnext

/-- The buffers stand still, or make one step of their own. -/
theorem buffers_next (h : s.next e = some s') : s'.buffers = s.buffers ∨
    ∃ e', s.buffers.next e' = some s'.buffers ∧
      (Inside s e → SendBufferManager.Contents.Inside s.buffers e') := by
  obtain ⟨e', buffers, rfl, -, hbuffers, rfl⟩ | ⟨sid, e', session, buffers, rfl, -, -, hcopy, rfl⟩ |
    ⟨t, id, rest, buffers, rfl, -, hbuffers, rfl⟩ := next_cases h
  · exact .inr ⟨e', hbuffers, fun hinside => hinside⟩
  · obtain ⟨-, rfl⟩ | ⟨id, -, hbuffers⟩ := copy_cases hcopy
    · exact .inl rfl
    · exact .inr ⟨_, hbuffers, fun _ => trivial⟩
  · exact .inr ⟨_, hbuffers, fun _ => trivial⟩

theorem projects_buffers : System.Projects (system Sid Tid)
    (SendBufferManager.Contents.system Tid) Inside SendBufferManager.Contents.Inside
    State.buffers where
  init := by
    rintro s rfl
    rfl
  next := by
    intro s e s' hok hnext
    obtain heq | ⟨e', hnext', hinside⟩ := buffers_next hnext
    · exact System.exists_run_nil heq
    · exact System.exists_run_single hnext' (hinside hok)

end Cases

section Holders

variable [Fintype Sid] [Fintype Tid] {s s' : State Sid Tid}

/-- The references that sessions, calls of `Send`, and batches that are being cleared have. -/
def State.inSessions (s : State Sid Tid) (id : ℕ) : ℕ :=
  ∑ sid, (s.sessions sid).shares id + ∑ t, (s.clearing t).count id

/-- Every reference has a holder, and a live buffer has a reference. -/
structure Accounted (s : State Sid Tid) : Prop where
  counted : ∀ id, s.buffers.manager.references id = s.clients id + s.inSessions id
  referenced : SendBufferManager.Referenced s.buffers.manager

namespace Accounted

/-- Who has a reference keeps the buffer alive. -/
theorem live (h : Accounted s) (id : ℕ) (held : 0 < s.clients id + s.inSessions id) :
    ∃ x, s.buffers.manager.sendBuffers id = some x := by
  rw [← h.counted, SendBufferManager.State.references] at held
  cases hlive : s.buffers.manager.sendBuffers id with
  | none =>
      rw [hlive] at held
      exact absurd held (Nat.lt_irrefl _)
  | some x => exact ⟨x, rfl⟩

theorem live_iff (h : Accounted s) (id : ℕ) :
    s.buffers.manager.sendBuffers id ≠ none ↔ 0 < s.clients id + s.inSessions id := by
  constructor
  · intro hlive
    rw [← h.counted]
    exact h.referenced id hlive
  · intro held hdead
    obtain ⟨x, hx⟩ := h.live id held
    rw [hdead] at hx
    cases hx

end Accounted

/-- One holder of a buffer has one reference more. -/
theorem update_add_one (clients : ℕ → ℕ) (i id : ℕ) :
    Function.update clients i (clients i + 1) id = clients id + [i].count id := by
  obtain rfl | hne := eq_or_ne id i
  · rw [Function.update_self, List.count_singleton_self]
  · rw [Function.update_of_ne hne, List.count_eq_zero_of_not_mem (by simpa using hne), Nat.add_zero]

theorem update_sub_one {clients : ℕ → ℕ} {i : ℕ} (held : 0 < clients i) (id : ℕ) :
    Function.update clients i (clients i - 1) id + [i].count id = clients id := by
  obtain rfl | hne := eq_or_ne id i
  · rw [Function.update_self, List.count_singleton_self]
    omega
  · rw [Function.update_of_ne hne, List.count_eq_zero_of_not_mem (by simpa using hne), Nat.add_zero]

/-- Client code's own events, on its part of the references. -/
theorem clientsAfter_count (h : Accounted s) (placed : SendBufferManager.Placed s.buffers.manager)
    {e : SendBufferManager.Event Tid} (ready : s.ClientReady (.manager e)) (id : ℕ) :
    s.clientsAfter (.manager e) id + e.lost.toList.count id =
      s.clients id + (s.buffers.manager.gained e).toList.count id := by
  cases e with
  | openBuffer t size | closeBuffer t i writeSize => rfl
  | copyReference i => exact update_add_one s.clients i id
  | dropReference t i => exact update_sub_one (Nat.zero_lt_of_lt ready.2) id
  | step t =>
      have hnew : s.clients s.buffers.manager.sendBufferCount = 0 := by
        by_contra hne
        obtain ⟨x, hx⟩ := h.live s.buffers.manager.sendBufferCount (by omega)
        rw [placed.newBuffer _ (Nat.le_refl _)] at hx
        cases hx
      have hmade := update_add_one s.clients s.buffers.manager.sendBufferCount id
      rw [hnew] at hmade
      simp only [State.clientsAfter, SendBufferManager.Event.lost, SendBufferManager.State.gained]
      cases s.buffers.manager.threads t with
      | makeShared size fresh => exact hmade
      | _ => rfl

omit [Fintype Sid] [Fintype Tid] in
theorem giveBack_count (sendBuffer : Option ℕ) (id : ℕ) :
    s.giveBack sendBuffer id = s.clients id + sendBuffer.toList.count id := by
  cases sendBuffer with
  | none => rfl
  | some i => exact update_add_one s.clients i id

theorem accounted_start : Accounted ({} : State Sid Tid) := by
  refine ⟨fun id => ?_, fun id hlive => absurd rfl hlive⟩
  have hshares : ({} : Send.State Tid ℕ).shares id = 0 := by
    rw [Send.State.shares, Send.total_initial]
    rfl
  simp [State.inSessions, hshares, SendBufferManager.State.references]

variable [DecidableEq Sid] [DecidableEq Tid] {e : Event Sid Tid}

/-- A step of a session changes what sessions hold by the references that it makes and gives
back. -/
theorem moveSession_count {sid : Sid} {e : Send.Event Tid ℕ} {session : Send.State Tid ℕ}
    (buffers : SendBufferManager.Contents.State Tid) (ready : s.SessionReady e)
    (hsession : (s.sessions sid).next e = some session) (id : ℕ) :
    (s.moveSession sid e session buffers).inSessions id +
        ((s.sessions sid).returned e).toList.count id =
      s.inSessions id + ((s.sessions sid).copied e).toList.count id := by
  have hshares := Send.shares_next hsession id
  have hsessions := sum_update (fun x => Send.State.shares x id) s.sessions sid session
  have hclearing : ∑ t, ((s.moveSession sid e session buffers).clearing t).count id =
      ∑ t, (s.clearing t).count id + ((s.sessions sid).cleared e).count id := by
    cases e with
    | step t =>
        have hupdate := sum_update (List.count id) s.clearing t ((s.sessions sid).cleared (.step t))
        rw [show s.clearing t = [] from ready.1, List.count_nil, Nat.add_zero] at hupdate
        exact hupdate
    | _ => exact (Nat.add_zero _).symm
  simp only [State.inSessions, hclearing]
  change ∑ i, (Function.update s.sessions sid session i).shares id + _ + _ = _
  omega

/-- Every step keeps the count of each buffer equal to the number of its holders. -/
theorem Accounted.next (h : Accounted s) (placed : SendBufferManager.Placed s.buffers.manager)
    (settled : SendBufferManager.Settled s.buffers.manager) (hnext : s.next e = some s') :
    Accounted s' := by
  obtain ⟨e', buffers, rfl, hready, hbuffers, rfl⟩ |
    ⟨sid, e', session, buffers, rfl, hready, hsession, hcopy, rfl⟩ |
    ⟨t, i, rest, buffers, rfl, hclearing, hbuffers, rfl⟩ := next_cases hnext
  · cases e' with
    | write i offset bytes =>
        obtain ⟨sendBuffer, -, rfl⟩ := Option.map_eq_some_iff.mp hbuffers
        exact ⟨h.counted, h.referenced⟩
    | manager e' =>
        have hmanager := manager_next hbuffers
        refine ⟨fun id => ?_, h.referenced.next hmanager⟩
        have hreferences := SendBufferManager.references_next placed settled hmanager id
        have hclients := clientsAfter_count h placed hready id
        have hcounted := h.counted id
        change buffers.manager.references id = s.clientsAfter (.manager e') id + s.inSessions id
        omega
  · have hcount : ∀ id, buffers.manager.references id =
        s.buffers.manager.references id + ((s.sessions sid).copied e').toList.count id := by
      intro id
      obtain ⟨hnone, rfl⟩ | ⟨i, hsome, hbuffers⟩ := copy_cases hcopy
      · rw [hnone]
        rfl
      · rw [hsome]
        exact SendBufferManager.references_next placed settled (manager_next hbuffers) id
    constructor
    · intro id
      have hsessions := moveSession_count buffers hready hsession id
      have hcounted := h.counted id
      have hgiven := giveBack_count (s := s) ((s.sessions sid).returned e') id
      have hreferences := hcount id
      change buffers.manager.references id = s.giveBack ((s.sessions sid).returned e') id + _
      omega
    · obtain ⟨-, rfl⟩ | ⟨i, -, hbuffers⟩ := copy_cases hcopy
      · exact h.referenced
      · exact h.referenced.next (manager_next hbuffers)
  · have hmanager := manager_next hbuffers
    refine ⟨fun id => ?_, h.referenced.next hmanager⟩
    have hreferences := SendBufferManager.references_next placed settled hmanager id
    have hupdate := sum_update (List.count id) s.clearing t rest
    have hcounted := h.counted id
    rw [hclearing, ← List.singleton_append, List.count_append] at hupdate
    change buffers.manager.references id = s.clients id + (∑ sid, (s.sessions sid).shares id +
      ∑ u, (Function.update s.clearing t rest u).count id)
    simp only [State.inSessions] at hcounted
    change _ + [i].count id = _ + 0 at hreferences
    omega

theorem accounted_of_reachable (h : (system Sid Tid).Reachable Inside s) : Accounted s := by
  induction h with
  | start hs =>
      cases hs
      exact accounted_start
  | step hreach hok hnext ih =>
      obtain ⟨placed, settled⟩ :=
        SendBufferManager.Contents.settled_of_reachable (projects_buffers.reachable hreach)
      exact ih.next placed settled hnext

end Holders

end SharedSend

end ServerCore
