import ServerCore.Interleaving.Threads
import ServerCore.Session.Send

/-!
# One outstanding send

The flag `isSendRegistered` stands for a token. The thread whose `exchange` turned the
flag carries it through `RegisterSend`; it then belongs to the submitted batch, and the
dequeued completion hands it to `ProcessSend`, which releases the flag or submits the
next batch. `Carried` says that there is at most one token, that it exists only while
the flag is set, and that the buffers are completed in the order of their `emplace`.
-/

namespace ServerCore

namespace Send

open Interleaving

variable {Tid Buf : Type}

/-- A frame that is responsible for or inside `RegisterSend`, or processes the completion
that will be. -/
@[simp] def Frame.carries : Frame Buf → ℕ
  | .send _ | .sendBlock _ => 0
  | _ => 1

/-- A frame of `RegisterSend` that has set the owner of the event. -/
@[simp] def Frame.armed : Frame Buf → ℕ
  | .collectBlock | .buildWsaBufs => 1
  | _ => 0

/-- The shared state, while `carriers` frames carry the token and `armed` of them have
set the owner of the event. -/
structure Carried (sh : Shared Buf) (carriers armed : ℕ) : Prop where
  token : carriers + sh.outstanding.toNat ≤ 1
  owned : armed + sh.outstanding.toNat ≤ sh.sendEventOwned.toNat
  free : sh.isSendRegistered = false →
    sh.sendQueue = [] ∧ carriers + sh.outstanding.toNat = 0
  order : sh.completed ++ sh.sendBuffers ++ sh.sendQueue = sh.accepted
  running : sh.crashed = false

namespace Carried

variable {sh sh' : Shared Buf} {frame : Frame Buf} {frames : List (Frame Buf)} {c a : ℕ}

/-- Whoever carries the token carries the only one. -/
theorem alone (h : Carried sh (1 + c) a) : c = 0 ∧ sh.outstanding = false := by
  have htoken := h.token
  cases hout : sh.outstanding with
  | false => exact ⟨by omega, rfl⟩
  | true =>
      rw [hout, Bool.toNat_true] at htoken
      omega

/-- A frame that carries the token proves that the flag is set. -/
theorem registered (h : Carried sh (1 + c) a) : sh.isSendRegistered = true := by
  cases hflag : sh.isSendRegistered with
  | true => rfl
  | false =>
      have := (h.free hflag).2
      omega

/-- The carrier returns without releasing the flag. -/
theorem drop (h : Carried sh (1 + c) a) : Carried sh c a := by
  have htoken := h.token
  exact ⟨by omega, h.owned, fun hflag => absurd h.registered (by rw [hflag]; decide), h.order,
    h.running⟩

/-- `emplace` and `exchange(true)`: who finds the flag free takes the token. -/
theorem emplace (h : Carried sh c a) (sendBuffer : Buf) :
    Carried (sh.emplace sendBuffer) ((if sh.isSendRegistered = false then 1 else 0) + c) a := by
  constructor
  · change _ + sh.outstanding.toNat ≤ 1
    split
    · next hflag =>
        have := (h.free hflag).2
        omega
    · have := h.token
      omega
  · exact h.owned
  · intro hflag
    cases hflag
  · change sh.completed ++ sh.sendBuffers ++ (sh.sendQueue ++ [sendBuffer]) =
      sh.accepted ++ [sendBuffer]
    rw [← List.append_assoc, h.order]
  · exact h.running

theorem collect (h : Carried sh (1 + c) a) : Carried sh.collect (1 + c) a := by
  rw [collect_eq]
  refine ⟨h.token, h.owned, ?_, ?_, h.running⟩
  · intro hflag
    exact absurd h.registered (by rw [hflag]; decide)
  · change sh.completed ++ (sh.sendBuffers ++ sh.sendQueue) ++ [] = sh.accepted
    rw [List.append_nil, ← List.append_assoc, h.order]

/-- The token passes from the thread to the batch. -/
theorem submit (h : Carried sh (1 + c) (1 + a)) : Carried sh.submit c a := by
  obtain ⟨hc, hout⟩ := h.alone
  have howned := h.owned
  rw [hout, Bool.toNat_false] at howned
  refine ⟨?_, ?_, ?_, h.order, h.running⟩
  · change c + 1 ≤ 1
    omega
  · change a + 1 ≤ sh.sendEventOwned.toNat
    omega
  · intro hflag
    exact absurd h.registered (by rw [show sh.isSendRegistered = false from hflag]; decide)

theorem initEvent (h : Carried sh (1 + c) a) (hle : a ≤ c) :
    Carried sh.initEvent (1 + c) (1 + a) := by
  obtain ⟨hc, hout⟩ := h.alone
  refine ⟨h.token, ?_, h.free, h.order, h.running⟩
  change 1 + a + sh.outstanding.toNat ≤ 1
  rw [hout, Bool.toNat_false]
  omega

/-- `ProcessSend` resets the owner of an event that is not outstanding. -/
theorem disown (h : Carried sh (1 + c) a) (hle : a ≤ c) :
    Carried { sh with sendEventOwned := false } (1 + c) a := by
  obtain ⟨hc, hout⟩ := h.alone
  refine ⟨h.token, ?_, h.free, h.order, h.running⟩
  change a + sh.outstanding.toNat ≤ 0
  rw [hout, Bool.toNat_false]
  omega

theorem clearBuffers (h : Carried sh c a) : Carried sh.clearBuffers c a := by
  refine ⟨h.token, h.owned, h.free, ?_, h.running⟩
  change sh.completed ++ sh.sendBuffers ++ [] ++ sh.sendQueue = sh.accepted
  rw [List.append_nil, h.order]

theorem disconnect (h : Carried sh c a) (cause : String) : Carried (sh.disconnect cause) c a :=
  ⟨h.token, h.owned, h.free, h.order, h.running⟩

/-- The carrier releases the flag, with nothing left to send. -/
theorem release (h : Carried sh (1 + c) a) (hempty : sh.sendQueue = []) :
    Carried { sh with isSendRegistered := false } c a := by
  obtain ⟨hc, hout⟩ := h.alone
  refine ⟨h.drop.token, h.owned, fun _ => ⟨hempty, ?_⟩, h.order, h.running⟩
  rw [hc, hout, Bool.toNat_false]

/-- Inside the lock, `RegisterSend` hands the token of `ProcessSend` to the batch, or
drops it when the connection is gone. -/
theorem registerSend (h : Carried sh (1 + c) a) (hle : a ≤ c) : Carried sh.registerSend c a := by
  rw [Shared.registerSend]
  split
  · exact h.drop
  · exact (h.initEvent hle).collect.submit

/-- Every step of a frame keeps the token, whatever the other frames are. -/
theorem exec (h : Carried sh (frame.carries + c) (frame.armed + a)) (hle : a ≤ c)
    (hexec : frame.exec sh = some (sh', frames)) :
    Carried sh' (weigh Frame.carries frames + c) (weigh Frame.armed frames + a) := by
  cases frame with
  | send sendBuffer =>
      simp only [Frame.exec] at hexec
      split at hexec <;> cases hexec <;> exact h
  | sendBlock sendBuffer =>
      have hnext := h.emplace sendBuffer
      simp only [Frame.exec] at hexec
      split at hexec
      · next hflag =>
          cases hexec
          rw [if_pos hflag] at hnext
          simpa using hnext
      · next hflag =>
          cases hexec
          rw [if_neg hflag] at hnext
          simpa using hnext
  | registerSend =>
      simp only [Frame.exec] at hexec
      split at hexec <;> cases hexec
      · simpa using Carried.drop h
      · exact h
  | initOverlapped =>
      cases hexec
      have harmed : Carried sh (1 + c) a := by simpa using h
      simpa using harmed.initEvent hle
  | collectBlock =>
      cases hexec
      exact h.collect
  | buildWsaBufs =>
      cases hexec
      simpa using Carried.submit h
  | processSend n =>
      cases hexec
      have harmed : Carried sh (1 + c) a := by simpa using h
      simpa using harmed.disown hle
  | clearBuffers n =>
      have hcleared : Carried sh.clearBuffers (1 + c) a := by simpa using h.clearBuffers
      simp only [Frame.exec] at hexec
      split at hexec <;> cases hexec
      · simpa using hcleared.drop.disconnect "Send 0"
      · simpa using hcleared
  | onSend => cases hexec
  | releaseBlock =>
      have harmed : Carried sh (1 + c) a := by simpa using h
      simp only [Frame.exec] at hexec
      split at hexec <;> cases hexec
      · next hempty => simpa using harmed.release (List.isEmpty_iff.mp hempty)
      · simpa using harmed.registerSend hle

end Carried

section Threads

variable [Fintype Tid] {s s' : State Tid Buf} {e : Event Tid Buf}

/-- The weight of all frames of all threads. -/
def State.total (weight : Frame Buf → ℕ) (s : State Tid Buf) : ℕ :=
  ∑ t, weigh weight (s.threads t)

theorem armed_le_carries (s : State Tid Buf) : s.total Frame.armed ≤ s.total Frame.carries := by
  apply Finset.sum_le_sum
  intro t _
  apply weigh_mono
  intro frame _
  cases frame <;> simp

variable [DecidableEq Tid]

/-- Replacing a thread's stack trades its weight. -/
theorem total_setThread (weight : Frame Buf → ℕ) (sh : Shared Buf) (t : Tid)
    (stack : List (Frame Buf)) :
    ({ s with shared := sh }.setThread t stack).total weight + weigh weight (s.threads t) =
      s.total weight + weigh weight stack :=
  sum_update (weigh weight) s.threads t stack

/-- The frames of a thread that `setThread` puts on top of `rest`, and all other frames. -/
theorem total_frames (weight : Frame Buf → ℕ) (sh : Shared Buf) (t : Tid)
    (frames rest : List (Frame Buf)) :
    ({ s with shared := sh }.setThread t (frames ++ rest)).total weight =
      weigh weight frames + (s.setThread t rest).total weight := by
  have hframes := total_setThread (s := s) weight sh t (frames ++ rest)
  have hrest := total_setThread (s := s) weight s.shared t rest
  rw [weigh_append] at hframes
  change (s.setThread t rest).total weight + _ = _ at hrest
  omega

/-- The innermost frame of a thread, and all other frames. -/
theorem total_innermost (weight : Frame Buf → ℕ) {t : Tid} {frame : Frame Buf}
    {rest : List (Frame Buf)} (hstack : s.threads t = frame :: rest) :
    s.total weight = weight frame + (s.setThread t rest).total weight := by
  have hrest := total_setThread (s := s) weight s.shared t rest
  rw [hstack, weigh_cons] at hrest
  change (s.setThread t rest).total weight + _ = _ at hrest
  omega

/-- A new innermost frame. -/
theorem total_push (weight : Frame Buf → ℕ) (sh : Shared Buf) (t : Tid) (frame : Frame Buf) :
    ({ s with shared := sh }.setThread t (frame :: s.threads t)).total weight =
      weight frame + s.total weight := by
  have hpush := total_setThread (s := s) weight sh t (frame :: s.threads t)
  rw [weigh_cons] at hpush
  omega

/-- `OnSend` returns to a frame that may weigh the same. -/
theorem total_endOnSend (weight : Frame Buf → ℕ) {t : Tid} {rest : List (Frame Buf)}
    (hstack : s.threads t = .onSend :: rest) (hweight : weight .releaseBlock = weight .onSend) :
    (s.setThread t (.releaseBlock :: rest)).total weight = s.total weight := by
  have hframes := total_frames (s := s) weight s.shared t [.releaseBlock] rest
  rw [weigh_cons, weigh_nil, Nat.add_zero, hweight, ← total_innermost weight hstack] at hframes
  exact hframes

omit [DecidableEq Tid] in
theorem total_initial (weight : Frame Buf → ℕ) : State.total weight ({} : State Tid Buf) = 0 :=
  Finset.sum_eq_zero fun _ _ => rfl

/-- `Carried`, for the frames of all threads. -/
def State.Carried (s : State Tid Buf) : Prop :=
  Send.Carried s.shared (s.total Frame.carries) (s.total Frame.armed)

theorem State.Carried.next (h : s.Carried) (hnext : s.next e = some s') : s'.Carried := by
  cases step_of_next hnext with
  | connect | registerDisconnect issued => exact ⟨h.token, h.owned, h.free, h.order, h.running⟩
  | send t sendBuffer =>
      rw [State.Carried, total_push, total_push]
      simp only [Frame.carries, Frame.armed, Nat.zero_add]
      exact h
  | complete hout howned =>
      rw [State.Carried, total_push, total_push]
      have htoken := h.token
      have hle := armed_le_carries s
      rw [hout, Bool.toNat_true] at htoken
      refine ⟨?_, ?_, ?_, h.order, h.running⟩
      · change 1 + s.total Frame.carries + 0 ≤ 1
        omega
      · change 0 + s.total Frame.armed + 0 ≤ _
        omega
      · intro hflag
        have hfree := (h.free hflag).2
        rw [hout, Bool.toNat_true] at hfree
        omega
  | crash hout howned =>
      have howner := h.owned
      rw [hout, howned, Bool.toNat_true, Bool.toNat_false] at howner
      omega
  | frame hstack hexec =>
      rw [State.Carried, total_frames, total_frames]
      rw [State.Carried, total_innermost _ hstack, total_innermost _ hstack] at h
      exact h.exec (armed_le_carries _) hexec
  | @endOnSend t rest hstack =>
      rw [State.Carried, total_endOnSend Frame.carries hstack rfl,
        total_endOnSend Frame.armed hstack rfl]
      exact h

theorem reachable_carried (h : system.Reachable System.anyStep s) : s.Carried := by
  apply h.invariant (I := fun s => s.Carried)
  · rintro s rfl
    rw [State.Carried, total_initial, total_initial]
    exact ⟨Nat.zero_le 1, Nat.le_refl 0, fun _ => ⟨rfl, rfl⟩, rfl, rfl⟩
  · intro s e s' hs _ hnext
    exact hs.next hnext

/-- The completion of a batch always finds the owner of the event. -/
theorem complete_owned (h : system.Reachable System.anyStep s) :
    s.shared.crashed = false ∧
      (s.shared.outstanding = true → s.shared.sendEventOwned = true) := by
  have hs := reachable_carried h
  refine ⟨hs.running, fun hout => ?_⟩
  have howned := hs.owned
  rw [hout, Bool.toNat_true] at howned
  cases howner : s.shared.sendEventOwned with
  | true => rfl
  | false =>
      rw [howner, Bool.toNat_false] at howned
      omega

/-- The threads that are responsible for `RegisterSend` or inside it. -/
def State.responsible (s : State Tid Buf) : Finset Tid :=
  Finset.univ.filter fun t => 0 < weigh Frame.carries (s.threads t)

omit [DecidableEq Tid] in
theorem card_responsible (hs : s.Carried) : s.responsible.card = s.total Frame.carries := by
  have htoken := hs.token
  apply card_pos_eq_sum
  change s.total Frame.carries ≤ 1
  omega

/-- One outstanding send, in order, nothing duplicated. At most one thread is
responsible for `RegisterSend`, or one batch is outstanding; the flag is clear only
when nothing is queued or outstanding; and the buffers of the completed batches, of the
current batch and of the queue are those that `Send` accepted, in order. -/
theorem send_oneOutstanding (h : system.Reachable System.anyStep s) :
    s.responsible.card + s.shared.outstanding.toNat ≤ 1 ∧
    (s.shared.isSendRegistered = false →
      s.shared.sendQueue = [] ∧ s.shared.outstanding = false ∧ s.responsible = ∅) ∧
    s.shared.completed ++ s.shared.sendBuffers ++ s.shared.sendQueue = s.shared.accepted := by
  have hs := reachable_carried h
  rw [card_responsible hs]
  refine ⟨hs.token, fun hflag => ?_, hs.order⟩
  obtain ⟨hqueue, hzero⟩ := hs.free hflag
  refine ⟨hqueue, ?_, ?_⟩
  · exact Bool.toNat_eq_zero.mp (by omega)
  · rw [← Finset.card_eq_zero, card_responsible hs]
    omega

/-- Two threads send. The second queues its buffer when the first has collected its batch,
and after the completion of that batch it submits the next one. -/
def twoSenders : List (Event (Fin 2) ℕ) :=
  [.connect, .send 0 7, .send 1 8, .step 0, .step 1, .step 0, .step 0, .step 0, .step 0, .step 1,
    .step 0, .complete 1 4, .step 1, .step 1, .endOnSend 1, .step 1]

theorem send_oneOutstanding_contended :
    ∃ s : State (Fin 2) ℕ, system.run twoSenders {} = some s ∧
      s.shared.completed = [7] ∧ s.shared.outstanding = true ∧
        s.responsible.card + s.shared.outstanding.toNat ≤ 1 ∧
          s.shared.completed ++ s.shared.sendBuffers ++ s.shared.sendQueue = [7, 8] := by
  have hany : (system.run twoSenders ({} : State (Fin 2) ℕ)).any (fun s =>
      s.shared.completed = [7] ∧ s.shared.outstanding = true ∧ s.shared.accepted = [7, 8]) =
        true := by
    decide +kernel
  obtain ⟨s, hrun, hcompleted, houtstanding, haccepted⟩ := System.exists_of_run hany
  have hreach := System.reachable_of_run rfl hrun
  obtain ⟨hone, -, horder⟩ := send_oneOutstanding hreach
  exact ⟨s, hrun, hcompleted, houtstanding, hone, horder.trans haccepted⟩

end Threads

end Send

end ServerCore
