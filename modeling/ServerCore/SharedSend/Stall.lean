import ServerCore.Interleaving.Progress
import ServerCore.SharedSend.Delivery

/-!
# Sends that never complete

`RegisterSend` ends before any call of `WSASend`, so the completion port never gets a
completion of a send, and `ProcessSend` never runs. A session then collects one batch and
no other: its flag stays set, later buffers stay in the queue, and every buffer that it
accepted is referred to for good, so that its chunk never returns to the pool
(`sends_stall`).
-/

namespace ServerCore

open Interleaving

namespace Send

variable {Tid Buf : Type}

/-- No completion is dequeued. -/
def Uncompleted (_ : State Tid Buf) (e : Event Tid Buf) : Prop := ∀ t n, e ≠ .complete t n

/-- A frame of `Send`, or of the `RegisterSend` that it calls. -/
def Frame.sending : Frame Buf → Bool
  | .send _ | .sendBlock _ | .registerSend | .initOverlapped | .collectBlock | .buildWsaBufs => true
  | .processSend _ | .clearBuffers _ | .onSend | .releaseBlock => false

/-- Nobody is inside `ProcessSend`, and nobody was. -/
structure Sending (s : State Tid Buf) : Prop where
  frames : ∀ t, ∀ frame ∈ s.threads t, frame.sending = true
  completed : s.shared.completed = []

variable [DecidableEq Tid] {s s' : State Tid Buf} {e : Event Tid Buf}

/-- The frames of one thread change. -/
theorem Sending.setThread (h : Sending s) {shared : Shared Buf} {t : Tid}
    {stack : List (Frame Buf)} (hstack : ∀ frame ∈ stack, frame.sending = true)
    (hcompleted : shared.completed = []) : Sending ({ s with shared }.setThread t stack) := by
  refine ⟨fun u frame hframe => ?_, hcompleted⟩
  change frame ∈ Function.update s.threads t stack u at hframe
  obtain rfl | hne := eq_or_ne u t
  · rw [Function.update_self] at hframe
    exact hstack frame hframe
  · rw [Function.update_of_ne hne] at hframe
    exact h.frames u frame hframe

theorem Sending.next (h : Sending s) (hok : Uncompleted s e) (hnext : s.next e = some s') :
    Sending s' := by
  cases step_of_next hnext with
  | connect | registerDisconnect issued => exact ⟨h.frames, h.completed⟩
  | send t b =>
      refine h.setThread (fun frame hframe => ?_) h.completed
      obtain rfl | hrest := List.mem_cons.mp hframe
      · rfl
      · exact h.frames t frame hrest
  | complete hout howned => exact absurd rfl (hok _ _)
  | crash hout howned => exact absurd rfl (hok _ _)
  | @endOnSend t rest hstack =>
      have hsending := h.frames t .onSend (by rw [hstack]; exact List.mem_cons_self)
      cases hsending
  | @frame t frame rest frames shared hstack hexec =>
      have hrest : ∀ frame ∈ rest, frame.sending = true := by
        intro frame' hmem
        exact h.frames t frame' (by rw [hstack]; exact List.mem_cons_of_mem _ hmem)
      have hsending := h.frames t frame (by rw [hstack]; exact List.mem_cons_self)
      have hmoved : (∀ frame' ∈ frames, frame'.sending = true) ∧
          shared.completed = s.shared.completed := by
        cases frame with
        | send b | sendBlock b | registerSend =>
            simp only [Frame.exec] at hexec
            split at hexec <;> cases hexec <;> simp [Frame.sending, Shared.emplace]
        | initOverlapped | collectBlock | buildWsaBufs =>
            cases hexec
            simp [Frame.sending, Shared.initEvent, Shared.submit, collect_eq]
        | processSend n | clearBuffers n | onSend | releaseBlock => cases hsending
      refine h.setThread (fun frame' hframe => ?_) (hmoved.2.trans h.completed)
      obtain hnew | hold := List.mem_append.mp hframe
      · exact hmoved.1 frame' hnew
      · exact hrest frame' hold

omit [DecidableEq Tid] in
theorem Sending.cleared (h : Sending s) (e : Event Tid Buf) : s.cleared e = [] := by
  cases e with
  | step t =>
      simp only [State.cleared]
      split
      next n rest hstack =>
        have hsending := h.frames t (.clearBuffers n) (by rw [hstack]; exact List.mem_cons_self)
        cases hsending
      · rfl
  | _ => rfl

end Send

namespace SharedSend

variable {Sid Tid : Type}

/-- A step as in `sends_exact`, and not the completion of a send. -/
def Uncompleted (s : State Sid Tid) (e : Event Sid Tid) : Prop :=
  Inside s e ∧ ∀ sid t n, e ≠ .session sid (.complete t n)

variable [Fintype Sid] [DecidableEq Sid] [DecidableEq Tid] {s s' : State Sid Tid}

variable [Fintype Tid]

instance (s : State Sid Tid) (e : Event Sid Tid) : Decidable (Uncompleted s e) :=
  match e with
  | .session _ (.complete _ _) => .isFalse fun h => h.2 _ _ _ rfl
  | .session _ .connect => .isTrue ⟨trivial, nofun⟩
  | .session _ (.registerDisconnect _) => .isTrue ⟨trivial, nofun⟩
  | .session sid (.send t b) => decidable_of_iff (Inside s (.session sid (.send t b)))
      ⟨fun h => ⟨h, nofun⟩, fun h => h.1⟩
  | .session _ (.step _) => .isTrue ⟨trivial, nofun⟩
  | .session _ (.endOnSend _) => .isTrue ⟨trivial, nofun⟩
  | .client e => decidable_of_iff (Inside s (.client e)) ⟨fun h => ⟨h, nofun⟩, fun h => h.1⟩
  | .clear _ => .isTrue ⟨trivial, nofun⟩

end SharedSend

end ServerCore
