import ServerCore.SharedSend.Basic

/-!
# Every reference to a send buffer is held by somebody

The count of a `shared_ptr` and its holders change in the same steps. What a step does to
the count is told once for the buffers (`counts_next`), and what it does to the holders once
for the send path (`shares_next`); so the count of each buffer is the number of its holders,
in client code, in the sessions, and in the batches that are being cleared (`Accounted`).
-/

namespace ServerCore

open Interleaving

namespace SendBufferManager

variable {Tid : Type}

/-- The live buffers after a step, with the reference counts. -/
inductive Counts (s : State Tid) : Event Tid → (ℕ → Option SendBuffer) → Prop where
  | same {e} (gained : s.gained e = none) (lost : e.lost = none) : Counts s e s.sendBuffers
  | close {t id x writeSize} (live : s.sendBuffers id = some x) (held : 0 < x.references)
      (opened : x.status = .opened) :
      Counts s (.closeBuffer t id writeSize) (Function.update s.sendBuffers id
        (some { x with writeSize, status := .closing, references := x.references - 1 }))
  | copy {id x} (live : s.sendBuffers id = some x) :
      Counts s (.copyReference id) (Function.update s.sendBuffers id
        (some { x with references := x.references + 1 }))
  | drop {t id x} (live : s.sendBuffers id = some x) (held : 0 < x.references)
      (more : x.references = 1 → x.status = .closing) :
      Counts s (.dropReference t id) (Function.update s.sendBuffers id
        (some { x with references := x.references - 1 }))
  | dropLast {t id x} (live : s.sendBuffers id = some x) (last : x.references = 1)
      (free : x.status ≠ .closing) :
      Counts s (.dropReference t id) (Function.update s.sendBuffers id none)
  | made {t size fresh c} (here : s.threads t = .makeShared size fresh) :
      Counts s (.step t) (Function.update s.sendBuffers s.sendBufferCount
        (some { ownerChunk := c, buffer := (s.chunks c).usedSize.toNat, allocSize := size }))
  | closed {t id x writeSize} (here : s.threads t = .closeUsed id writeSize)
      (live : s.sendBuffers id = some x) :
      Counts s (.step t) (Function.update s.sendBuffers id
        (some { x with status := .closed, references := x.references + 1 }))

variable [DecidableEq Tid] {s s' : State Tid} {e : Event Tid} {id : ℕ} {x : SendBuffer}

theorem counts_step {t : Tid} (h : s.step t = some s') : Counts s (.step t) s'.sendBuffers := by
  have hsame : (∀ size fresh, s.threads t ≠ .makeShared size fresh) →
      s'.sendBuffers = s.sendBuffers → Counts s (.step t) s'.sendBuffers := by
    intro hne heq
    rw [heq]
    refine .same ?_ rfl
    simp only [State.gained]
  unfold State.step at h
  split at h
  next => cases h
  next here =>
    cases h
    exact hsame (by simp [here]) (pop_sendBuffers ..)
  next here =>
    cases h
    exact hsame (by simp [here]) (assign_sendBuffers ..)
  next here =>
    cases h
    exact hsame (by simp [here]) rfl
  next here =>
    obtain ⟨c, -, rfl⟩ := Option.map_eq_some_iff.mp h
    exact hsame (by simp [here]) rfl
  next here =>
    obtain ⟨c, -, rfl⟩ := Option.map_eq_some_iff.mp h
    exact hsame (by simp [here]) (by split <;> rfl)
  next here =>
    obtain ⟨c, -, rfl⟩ := Option.map_eq_some_iff.mp h
    exact hsame (by simp [here]) rfl
  next here =>
    obtain ⟨c, -, rfl⟩ := Option.map_eq_some_iff.mp h
    exact hsame (by simp [here]) (by split <;> rfl)
  next here =>
    obtain ⟨c, -, rfl⟩ := Option.map_eq_some_iff.mp h
    exact hsame (by simp [here]) rfl
  next here =>
    obtain ⟨c, -, rfl⟩ := Option.map_eq_some_iff.mp h
    exact hsame (by simp [here]) rfl
  next here =>
    obtain ⟨c, -, rfl⟩ := Option.map_eq_some_iff.mp h
    exact .made here
  next here =>
    obtain ⟨sendBuffer, -, rfl⟩ := Option.map_eq_some_iff.mp h
    exact hsame (by simp [here]) (by split <;> rfl)
  next here =>
    obtain ⟨sendBuffer, -, rfl⟩ := Option.map_eq_some_iff.mp h
    exact hsame (by simp [here]) rfl
  next here =>
    obtain ⟨sendBuffer, live, rfl⟩ := Option.map_eq_some_iff.mp h
    exact .closed here live

omit [DecidableEq Tid] in
theorem held_cases (h : s.held id = some x) : s.sendBuffers id = some x ∧ 0 < x.references := by
  obtain ⟨live, held⟩ := Option.filter_eq_some_iff.mp h
  exact ⟨live, by simpa using held⟩

theorem counts_next (h : s.next e = some s') : Counts s e s'.sendBuffers := by
  unfold State.next at h
  split at h
  · cases h
  cases e with
  | openBuffer t size =>
      simp only at h
      split at h
      · cases h
      · split at h <;> cases h <;> exact .same rfl rfl
  | closeBuffer t id writeSize =>
      simp only at h
      split at h
      · cases h
      next x hheld =>
        obtain ⟨live, held⟩ := held_cases hheld
        split at h
        next hok =>
          cases h
          unfold State.close
          split
          · exact .same rfl rfl
          · exact .close live held hok.2
        · cases h
  | copyReference id =>
      obtain ⟨x, hheld, rfl⟩ := Option.map_eq_some_iff.mp h
      exact .copy (held_cases hheld).1
  | dropReference t id =>
      simp only at h
      split at h
      · cases h
      next x hheld =>
        obtain ⟨live, held⟩ := held_cases hheld
        split at h
        · cases h
          unfold State.drop
          split
          next hlast =>
            rw [release_sendBuffers]
            exact .dropLast live hlast.1 hlast.2
          next hmore => exact .drop live held fun hone => not_not.mp fun hfree => hmore ⟨hone, hfree⟩
        · cases h
  | step t => exact counts_step h

omit [DecidableEq Tid] in
theorem references_of_live (live : s.sendBuffers id = some x) :
    s.references id = x.references + x.borrowed := by
  rw [State.references, live, Option.elim_some]

omit [DecidableEq Tid] in
theorem references_of_update {after : Option SendBuffer} {i : ℕ}
    (h : s'.sendBuffers = Function.update s.sendBuffers i after) (id : ℕ) :
    s'.references id = if id = i then after.elim 0 fun x => x.references + x.borrowed
      else s.references id := by
  rw [State.references, h]
  split
  next heq => rw [heq, Function.update_self]
  next hne =>
    rw [Function.update_of_ne hne]
    rfl

/-- A step changes the count by what it makes and what it drops. -/
theorem references_next (placed : Placed s) (settled : Settled s) (h : s.next e = some s')
    (id : ℕ) : s'.references id + e.lost.toList.count id =
      s.references id + (s.gained e).toList.count id := by
  have hcounts := counts_next h
  generalize hafter : s'.sendBuffers = after at hcounts
  cases hcounts with
  | same gained lost =>
      rw [gained, lost, State.references, hafter]
      rfl
  | @close t i x writeSize live held opened =>
      rw [references_of_update hafter]
      simp only [Event.lost, State.gained, Option.toList_none, List.count_nil, Option.elim_some]
      split
      next heq =>
        rw [heq, references_of_live live, SendBuffer.borrowed, SendBuffer.borrowed, opened]
        simp only [if_true, reduceCtorEq, if_false]
        omega
      next => rfl
  | @copy i x live =>
      rw [references_of_update hafter]
      simp only [Event.lost, State.gained, Option.toList_none, Option.toList_some, List.count_nil,
        Option.elim_some]
      split
      next heq =>
        rw [heq, references_of_live live, List.count_singleton_self]
        simp only [SendBuffer.borrowed]
        omega
      next hne => rw [List.count_singleton, if_neg (by simpa using fun h : i = id => hne h.symm)]
  | @drop t i x live held more =>
      rw [references_of_update hafter]
      simp only [Event.lost, State.gained, Option.toList_none, Option.toList_some, List.count_nil,
        Option.elim_some]
      split
      next heq =>
        rw [heq, references_of_live live, List.count_singleton_self]
        simp only [SendBuffer.borrowed]
        omega
      next hne => rw [List.count_singleton, if_neg (by simpa using fun h : i = id => hne h.symm)]
  | @dropLast t i x live last free =>
      rw [references_of_update hafter]
      simp only [Event.lost, State.gained, Option.toList_none, Option.toList_some, List.count_nil,
        Option.elim_none]
      split
      next heq =>
        rw [heq, references_of_live live, List.count_singleton_self, SendBuffer.borrowed,
          if_neg free, last]
      next hne => rw [List.count_singleton, if_neg (by simpa using fun h : i = id => hne h.symm)]
  | @made t size fresh c here =>
      have hdead : s.references s.sendBufferCount = 0 := by
        rw [State.references, placed.newBuffer _ (Nat.le_refl _), Option.elim_none]
      rw [references_of_update hafter]
      simp only [Event.lost, State.gained, here, Option.toList_none, Option.toList_some,
        List.count_nil, Option.elim_some]
      split
      next heq =>
        rw [heq, hdead, List.count_singleton_self, SendBuffer.borrowed]
        simp
      next hne =>
        rw [List.count_singleton, if_neg (by simpa using fun h : s.sendBufferCount = id => hne h.symm)]
  | @closed t i x writeSize here live =>
      have hclosing : x.status = .closing := by
        obtain ⟨y, hy, hstatus, -⟩ := settled.closing t i writeSize (by rw [here]; rfl)
        rw [live] at hy
        cases hy
        exact hstatus
      rw [references_of_update hafter]
      simp only [Event.lost, State.gained, here, Option.toList_none, List.count_nil,
        Option.elim_some]
      split
      next heq =>
        rw [heq, references_of_live live, SendBuffer.borrowed, SendBuffer.borrowed, hclosing]
        simp
      next => rfl

/-- A live buffer has a reference. -/
def Referenced (s : State Tid) : Prop := ∀ id, s.sendBuffers id ≠ none → 0 < s.references id

theorem Referenced.next (h : Referenced s) (hnext : s.next e = some s') : Referenced s' := by
  have hcounts := counts_next hnext
  generalize hafter : s'.sendBuffers = after at hcounts
  have hupdate : ∀ i y, s'.sendBuffers = Function.update s.sendBuffers i (some y) →
      0 < y.references + y.borrowed → Referenced s' := by
    intro i y heq hpos id hlive
    rw [references_of_update heq]
    split
    · exact hpos
    next hne =>
      rw [heq, Function.update_of_ne hne] at hlive
      exact h id hlive
  cases hcounts with
  | same gained lost =>
      intro id hlive
      rw [State.references, hafter]
      rw [hafter] at hlive
      exact h id hlive
  | close live held opened =>
      refine hupdate _ _ hafter ?_
      simp [SendBuffer.borrowed]
  | copy live =>
      refine hupdate _ _ hafter ?_
      simp only
      omega
  | @drop t i x live held more =>
      refine hupdate _ _ hafter ?_
      simp only [SendBuffer.borrowed]
      by_cases hone : x.references = 1
      · rw [if_pos (more hone)]
        omega
      · omega
  | @dropLast t i x live last free =>
      intro id hlive
      rw [references_of_update hafter]
      rw [hafter] at hlive
      split
      next heq =>
        rw [heq, Function.update_self] at hlive
        exact absurd rfl hlive
      next hne =>
        rw [Function.update_of_ne hne] at hlive
        exact h id hlive
  | made here => exact hupdate _ _ hafter (Nat.succ_pos _)
  | closed here live =>
      refine hupdate _ _ hafter ?_
      simp only
      omega

end SendBufferManager

namespace Send

variable {Tid Buf : Type} [DecidableEq Tid] {s s' : State Tid Buf} {e : Event Tid Buf}

omit [DecidableEq Tid] in
theorem registerSend_waiting (sh : Shared Buf) :
    sh.registerSend.sendBuffers ++ sh.registerSend.sendQueue = sh.sendBuffers ++ sh.sendQueue := by
  rw [Shared.registerSend]
  split
  · rfl
  · simp [Shared.initEvent, Shared.submit, collect_eq]

/-- What is collected or queued moves on in order: buffers are put in at the end and cleared
at the front. -/
theorem waiting_next (hnext : s.next e = some s') :
    s.cleared e ++ (s'.shared.sendBuffers ++ s'.shared.sendQueue) =
      s.shared.sendBuffers ++ s.shared.sendQueue ++ (s.emplaced e).toList := by
  cases step_of_next hnext with
  | connect | registerDisconnect issued | send t b | complete hout howned | crash hout howned
  | endOnSend hstack => simp [State.cleared, State.emplaced]
  | @frame t frame rest frames shared hstack hexec =>
      simp only [State.cleared, State.emplaced, hstack, setThread_shared]
      cases frame with
      | send b | registerSend =>
          simp only [Frame.exec] at hexec
          split at hexec <;> cases hexec <;> simp
      | sendBlock b =>
          simp only [Frame.exec] at hexec
          split at hexec <;> cases hexec <;> simp [Shared.emplace]
      | initOverlapped | buildWsaBufs | processSend n =>
          cases hexec
          simp [Shared.initEvent, Shared.submit]
      | collectBlock =>
          cases hexec
          simp [collect_eq]
      | clearBuffers n =>
          simp only [Frame.exec] at hexec
          split at hexec <;> cases hexec <;> simp [Shared.clearBuffers, Shared.disconnect]
      | onSend => cases hexec
      | releaseBlock =>
          simp only [Frame.exec] at hexec
          split at hexec <;> cases hexec
          · simp
          · simpa using registerSend_waiting s.shared

variable [DecidableEq Buf]

omit [DecidableEq Tid] in
theorem copied_count (e : Event Tid Buf) (b : Buf) : (s.copied e).toList.count b =
    e.argument.toList.count b + (s.emplaced e).toList.count b := by
  cases e <;> simp [State.copied, State.emplaced, Event.argument]

variable [Fintype Tid]

/-- The calls of `Send` that have not queued their buffer. -/
theorem parameters_next (hnext : s.next e = some s') (b : Buf) :
    s'.total (Frame.parameters b) + (s.returned e).toList.count b =
      s.total (Frame.parameters b) + e.argument.toList.count b := by
  cases step_of_next hnext with
  | connect | registerDisconnect issued | crash hout howned => rfl
  | send t c =>
      rw [total_push]
      simp [State.returned, Event.argument, Frame.parameters, Frame.parameter, Nat.add_comm]
  | complete hout howned =>
      rw [total_push]
      simp [State.returned, Event.argument, Frame.parameters, Frame.parameter]
  | endOnSend hstack =>
      rw [total_endOnSend _ hstack rfl]
      simp [State.returned, Event.argument]
  | @frame t frame rest frames shared hstack hexec =>
      rw [total_frames, total_innermost _ hstack]
      simp only [State.returned, hstack, Event.argument]
      cases frame with
      | send c | sendBlock c | registerSend | clearBuffers n | releaseBlock =>
          simp only [Frame.exec] at hexec
          split at hexec <;> cases hexec <;>
            simp [Frame.parameters, Frame.parameter, Nat.add_comm, *]
      | initOverlapped | buildWsaBufs | processSend n | collectBlock =>
          cases hexec
          simp [Frame.parameters, Frame.parameter]
      | onSend => cases hexec

/-- A step changes what the session holds by the references that it makes, gives back and
clears. -/
theorem shares_next (hnext : s.next e = some s') (b : Buf) :
    s'.shares b + (s.returned e).toList.count b + (s.cleared e).count b =
      s.shares b + (s.copied e).toList.count b := by
  have hparameters := parameters_next hnext b
  have hwaiting := congrArg (List.count b) (waiting_next hnext)
  have hcopied := copied_count (s := s) e b
  simp only [List.count_append, State.shares] at hwaiting ⊢
  omega

end Send

end ServerCore
