import ServerCore.SharedSend.Holders

/-!
# What shared buffers show when they are sent

A buffer that a session has queued or collected is live and closed, so its window shows the
same bytes until the batch is cleared, whatever client code and the other sessions do with
their references (`sends_exact`).

`RegisterSend` ends before any call of `WSASend`, so no completion of a send is ever posted.
Then a session collects one batch and no other, and nothing that it accepted is given back
(`sends_stall`).
-/

namespace ServerCore

open Interleaving

namespace Send

variable {Tid Buf : Type} [DecidableEq Buf] [Fintype Tid] {s s' : State Tid Buf} {b : Buf}

theorem shares_of_waiting (h : b ∈ s.shared.sendBuffers ++ s.shared.sendQueue) :
    0 < s.shares b := by
  have := List.count_pos_iff.mpr h
  rw [State.shares]
  omega

/-- What is queued next is held by the call that queues it. -/
theorem shares_of_emplaced {e : Event Tid Buf} (h : s.emplaced e = some b) : 0 < s.shares b := by
  cases e with
  | step t =>
      simp only [State.emplaced] at h
      split at h
      next c rest hstack =>
        cases h
        have hthread := weight_le_sum (fun u => weigh (Frame.parameters b) (s.threads u)) t
        have hframe : weigh (Frame.parameters b) (s.threads t) = 1 +
            weigh (Frame.parameters b) rest := by
          rw [hstack, weigh_cons]
          simp [Frame.parameters, Frame.parameter]
        change _ ≤ s.total (Frame.parameters b) at hthread
        rw [State.shares]
        omega
      · cases h
  | _ => cases h

end Send

namespace SharedSend

variable {Sid Tid : Type} [Fintype Sid] [Fintype Tid] {s s' : State Sid Tid} {e : Event Sid Tid}
  {id : ℕ}

/-- What the session holds is in a session. -/
theorem inSessions_of_shares {sid : Sid} (h : 0 < (s.sessions sid).shares id) :
    0 < s.inSessions id := by
  have := weight_le_sum (fun i => (s.sessions i).shares id) sid
  rw [State.inSessions]
  omega

variable [DecidableEq Sid] [DecidableEq Tid]

/-- Only a call of `Send` brings a new buffer into the sessions. -/
theorem inSessions_next (hnext : s.next e = some s') (h : 0 < s'.inSessions id) :
    0 < s.inSessions id ∨ ∃ sid t, e = .session sid (.send t id) := by
  obtain ⟨e', buffers, rfl, -, -, rfl⟩ |
    ⟨sid, e', session, buffers, rfl, hready, hsession, -, rfl⟩ |
    ⟨t, i, rest, buffers, rfl, hclearing, -, rfl⟩ := next_cases hnext
  · exact .inl h
  · have hcount := moveSession_count buffers hready hsession id
    have hcopied := Send.copied_count (s := s.sessions sid) e' id
    by_cases hargument : 0 < e'.argument.toList.count id
    · right
      cases e' with
      | send t b =>
          obtain rfl := List.mem_singleton.mp (List.count_pos_iff.mp hargument)
          exact ⟨sid, t, rfl⟩
      | _ => cases hargument
    · left
      by_cases hemplaced : 0 < ((s.sessions sid).emplaced e').toList.count id
      · have hmem := Option.mem_toList.mp (List.count_pos_iff.mp hemplaced)
        exact inSessions_of_shares (Send.shares_of_emplaced hmem)
      · omega
  · left
    have hupdate := sum_update (List.count id) s.clearing t rest
    rw [hclearing, List.count_cons] at hupdate
    change 0 < ∑ sid, (s.sessions sid).shares id +
      ∑ u, (Function.update s.clearing t rest u).count id at h
    rw [State.inSessions]
    omega

/-- Buffers in the sessions are closed, and what waits shows what it showed when it was
sent. -/
structure Delivers (s : State Sid Tid) : Prop where
  closed : ∀ id x, 0 < s.inSessions id → s.buffers.manager.sendBuffers id = some x →
    x.status = .closed
  sent : ∀ sid, s.sent sid = s.transferred sid ++
    ((s.sessions sid).shared.sendBuffers ++ (s.sessions sid).shared.sendQueue).map s.shown

/-- A buffer that is in the sessions after a step was live and closed before it. -/
theorem closed_before (hreach : (system Sid Tid).Reachable Inside s) (hok : Inside s e)
    (hnext : s.next e = some s') (hs : Delivers s) (h : 0 < s'.inSessions id) :
    ∃ x, s.buffers.manager.sendBuffers id = some x ∧ x.status = .closed := by
  have haccounted := accounted_of_reachable hreach
  obtain hin | ⟨sid, t, rfl⟩ := inSessions_next hnext h
  · obtain ⟨x, hx⟩ := haccounted.live id (by omega)
    exact ⟨x, hx, hs.closed id x hin hx⟩
  · obtain ⟨e', buffers, heq, -⟩ | ⟨i, e', session, buffers, heq, hready, -⟩ |
      ⟨u, i, rest, buffers, heq, -⟩ := next_cases hnext <;> cases heq
    have hclients : 0 < s.clients id := hready.2
    obtain ⟨x, hx⟩ := haccounted.live id (by omega)
    exact ⟨x, hx, hok x hx⟩

/-- A buffer that is in the sessions after a step shows what it showed before it. -/
theorem shown_next (hreach : (system Sid Tid).Reachable Inside s) (hok : Inside s e)
    (hnext : s.next e = some s') (hs : Delivers s) (h : 0 < s'.inSessions id) :
    s'.shown id = s.shown id ∧
      ∀ x, s'.buffers.manager.sendBuffers id = some x → x.status = .closed := by
  have hbuffers := projects_buffers.reachable hreach
  obtain ⟨x, hx, hclosed⟩ := closed_before hreach hok hnext hs h
  obtain ⟨x', hx'⟩ := (accounted_of_reachable (hreach.step hok hnext)).live id (by omega)
  have hkept : x'.status = .closed ∧ s'.buffers.bytes x' = s.buffers.bytes x := by
    obtain heq | ⟨e', hnext', hinside⟩ := buffers_next hnext
    · rw [heq, hx] at hx'
      cases hx'
      exact ⟨hclosed, by rw [heq]⟩
    · obtain ⟨placed, -⟩ := SendBufferManager.Contents.settled_of_reachable hbuffers
      have hlt : id < s.buffers.manager.sendBufferCount := by
        by_contra hnew
        rw [placed.newBuffer id (Nat.not_lt.mp hnew)] at hx
        cases hx
      obtain ⟨y, hy⟩ := SendBufferManager.Contents.keeps_next hbuffers (hinside hok) hnext' hlt hx'
      have hsame := hy.live
      rw [hx] at hsame
      cases hsame
      exact hy.closed hclosed
  refine ⟨?_, fun z hz => ?_⟩
  · rw [State.shown, State.shown, hx, hx', Option.elim_some, Option.elim_some, hkept.2]
  · rw [hx'] at hz
    cases hz
    exact hkept.1

omit [Fintype Tid] in
/-- A step records what it puts into the queue and what it clears. -/
theorem sent_next (hs : ∀ sid, s.sent sid = s.transferred sid ++
      ((s.sessions sid).shared.sendBuffers ++ (s.sessions sid).shared.sendQueue).map s.shown)
    (hnext : s.next e = some s') (sid : Sid) : s'.sent sid = s'.transferred sid ++
      ((s'.sessions sid).shared.sendBuffers ++ (s'.sessions sid).shared.sendQueue).map s.shown := by
  obtain ⟨e', buffers, rfl, -, -, rfl⟩ | ⟨i, e', session, buffers, rfl, -, hsession, -, rfl⟩ |
    ⟨t, i, rest, buffers, rfl, -, -, rfl⟩ := next_cases hnext
  · exact hs sid
  · obtain rfl | hne := eq_or_ne sid i
    · have hwaiting := Send.waiting_next hsession
      simp only [State.moveSession, Function.update_self]
      rw [hs sid, List.append_assoc, List.append_assoc, ← List.map_append, ← List.map_append,
        hwaiting]
    · simp only [State.moveSession, Function.update_of_ne hne]
      exact hs sid
  · exact hs sid

theorem Delivers.next (hs : Delivers s) (hreach : (system Sid Tid).Reachable Inside s)
    (hok : Inside s e) (hnext : s.next e = some s') : Delivers s' := by
  refine ⟨fun id x h hx => (shown_next hreach hok hnext hs h).2 x hx, fun sid => ?_⟩
  rw [sent_next hs.sent hnext sid]
  congr 1
  apply List.map_congr_left
  intro id hid
  have hin : 0 < s'.inSessions id := inSessions_of_shares (Send.shares_of_waiting hid)
  exact (shown_next hreach hok hnext hs hin).1.symm

theorem delivers_of_reachable (h : (system Sid Tid).Reachable Inside s) : Delivers s := by
  induction h with
  | start hs =>
      cases hs
      exact ⟨nofun, fun _ => rfl⟩
  | step hreach hok hnext ih => exact ih.next hreach hok hnext

/-- In every run of the Debug build in which client code closes a buffer once at most, writes
to it only before, and sends it only afterwards: the buffers that a session has queued or
collected show what they showed when they were sent, in the same order, after those whose
batch was cleared; and a buffer is live as long as client code or a session has a reference
to it, and no longer. -/
theorem sends_exact (h : (system Sid Tid).Reachable Inside s) :
    (∀ sid, s.sent sid = s.transferred sid ++
      ((s.sessions sid).shared.sendBuffers ++ (s.sessions sid).shared.sendQueue).map s.shown) ∧
    ∀ id, s.buffers.manager.references id = s.clients id + s.inSessions id ∧
      (s.buffers.manager.sendBuffers id ≠ none ↔ 0 < s.clients id + s.inSessions id) := by
  have haccounted := accounted_of_reachable h
  exact ⟨(delivers_of_reachable h).sent,
    fun id => ⟨haccounted.counted id, haccounted.live_iff id⟩⟩

instance (s : State Sid Tid) : ∀ e : Event Sid Tid, Decidable (Inside s e)
  | .client e => inferInstanceAs (Decidable (SendBufferManager.Contents.Inside s.buffers e))
  | .session _ (.send _ sendBuffer) => decidable_of_iff
      (∀ x ∈ s.buffers.manager.sendBuffers sendBuffer, x.status = .closed)
      ⟨fun h x hx => h x hx, fun h x hx => h x hx⟩
  | .session _ .connect => .isTrue trivial
  | .session _ (.registerDisconnect _) => .isTrue trivial
  | .session _ (.complete _ _) => .isTrue trivial
  | .session _ (.step _) => .isTrue trivial
  | .session _ (.endOnSend _) => .isTrue trivial
  | .clear _ => .isTrue trivial

/-- Thread 0 opens a buffer, writes three bytes and closes it. -/
def filledRun : List (Event (Fin 2) (Fin 2)) :=
  SendBufferManager.openRun.map (fun e => .client (.manager e)) ++
    .client (.write 0 0 [1, 2, 3]) :: .client (.manager (.closeBuffer 0 0 3)) ::
      List.replicate 3 (.client (.manager (.step 0)))

/-- Thread `t` sends the buffer to session `sid`, which collects it. -/
def sendRun (sid t : Fin 2) : List (Event (Fin 2) (Fin 2)) :=
  [.session sid .connect, .session sid (.send t 0)] ++
    List.replicate 6 (.session sid (.step t))

/-- Both sessions have the buffer and client code has dropped it when the first one clears its
batch. -/
def sharedRun : List (Event (Fin 2) (Fin 2)) :=
  filledRun ++ sendRun 0 0 ++ sendRun 1 1 ++
    List.replicate 3 (.client (.manager (.dropReference 0 0))) ++
    [.session 0 (.complete 0 3), .session 0 (.step 0), .session 0 (.step 0), .clear 0]

theorem sends_exact_shared : ∃ s : State (Fin 2) (Fin 2),
    (system (Fin 2) (Fin 2)).run sharedRun {} = some s ∧
      s.sent 0 = [[1, 2, 3]] ∧ s.transferred 0 = [[1, 2, 3]] ∧
      (s.sessions 1).shared.sendBuffers = [0] ∧ s.shown 0 = [1, 2, 3] ∧ s.clients 0 = 0 ∧
      s.buffers.manager.references 0 = s.clients 0 + s.inSessions 0 := by
  have hany : ((system (Fin 2) (Fin 2)).run sharedRun {}).any (fun s => decide
      (s.sent 0 = [[1, 2, 3]] ∧ s.transferred 0 = [[1, 2, 3]] ∧
        (s.sessions 1).shared.sendBuffers = [0] ∧ s.shown 0 = [1, 2, 3] ∧
        s.clients 0 = 0)) = true := by
    decide +kernel
  obtain ⟨s, hrun, hsent, htransferred, hbatch, hshown, hclients⟩ := System.exists_of_run hany
  have hinside : (system (Fin 2) (Fin 2)).Along Inside sharedRun {} :=
    System.along_of_check (by decide +kernel)
  have hexact := sends_exact ((System.Reachable.start rfl).run hinside hrun)
  exact ⟨s, hrun, hsent, htransferred, hbatch, hshown, hclients, (hexact.2 0).1⟩

end SharedSend

end ServerCore
