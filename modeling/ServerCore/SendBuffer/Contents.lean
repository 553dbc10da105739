import ServerCore.Interleaving.Projection
import ServerCore.Region
import ServerCore.SendBuffer.Separation

/-!
# Each send buffer is an array of its own

All buffers are windows of the arrays of a few chunks, and a chunk is used again when its
buffers are gone. Client code writes through `SendBuffer::Buffer`, and what is sent later
is read through it, with other threads opening, writing and closing other buffers in
between.

`contents` is the abstract view: every buffer has an array of its own, which starts with
what was there, which only its own writes change, and which `Close` cuts to what was
written. The window of a live buffer shows this array, as long as `Ordered` keeps the live
windows apart and client code writes inside its own (`sendBuffers_private`). As everywhere in
the model of the manager, a buffer is closed once at most.
-/

namespace ServerCore

namespace SendBufferManager

open Interleaving Region

section Live

variable {Tid : Type} [DecidableEq Tid] {s s' : SendBufferManager.State Tid}

@[simp] theorem release_sendBuffers (t : Tid) (c : ℕ) (owner : Owner Tid) (resume : Option UInt32) :
    (s.release t c owner resume).sendBuffers = s.sendBuffers := by
  unfold State.release
  simp only
  split <;> rfl

@[simp] theorem pop_sendBuffers (t : Tid) (size : UInt32) (second : Bool) :
    (s.pop t size second).sendBuffers = s.sendBuffers := by
  unfold State.pop
  split <;> rfl

@[simp] theorem assign_sendBuffers (t : Tid) (size : UInt32) (second : Bool) (c : ℕ) :
    (s.assign t size second c).sendBuffers = s.sendBuffers := by
  unfold State.assign
  simp only
  split
  · rfl
  · exact release_sendBuffers ..

/-- The buffer after a step is the same window, and not a larger one. -/
structure Narrows (x x' : SendBuffer) : Prop where
  ownerChunk : x'.ownerChunk = x.ownerChunk
  buffer : x'.buffer = x.buffer
  size : x'.size.toNat ≤ x.size.toNat
  closed : x.status = .closed → x'.status = .closed ∧ x'.size = x.size

theorem Narrows.refl (x : SendBuffer) : Narrows x x := ⟨rfl, rfl, Nat.le_refl _, fun h => ⟨h, rfl⟩⟩

/-- The step made the buffer, or left it where it was and did not let it grow. -/
theorem live_next {e : SendBufferManager.Event Tid} (h : Step s e s') (settled : Settled s)
    (placed : Placed s) {i : ℕ} {x' : SendBuffer} (hx' : s'.sendBuffers i = some x') :
    (s.sendBuffers i = none ∧ i = s.sendBufferCount) ∨
      ∃ x, s.sendBuffers i = some x ∧ Narrows x x' := by
  have hsame : s'.sendBuffers = s.sendBuffers → ∃ x, s.sendBuffers i = some x ∧ Narrows x x' := by
    intro heq
    exact ⟨x', heq ▸ hx', Narrows.refl x'⟩
  cases h with
  | @close t id x writeSize live idle opened fits =>
      right
      obtain ⟨rfl, hafter⟩ | ⟨-, hold⟩ := State.setSendBuffer_cases hx'
      · cases hafter
        refine ⟨x, live, rfl, rfl, ?_, fun hclosed => ?_⟩
        · simp [SendBuffer.size, opened]
        · rw [opened] at hclosed
          cases hclosed
      · exact ⟨x', hold, Narrows.refl x'⟩
  | @count e id x references live =>
      right
      obtain ⟨rfl, hafter⟩ | ⟨-, hold⟩ := State.setSendBuffer_cases hx'
      · cases hafter
        exact ⟨x, live, rfl, rfl, Nat.le_refl _, fun hclosed => ⟨hclosed, rfl⟩⟩
      · exact ⟨x', hold, Narrows.refl x'⟩
  | dropLast live =>
      right
      rw [release_sendBuffers] at hx'
      obtain ⟨-, hafter⟩ | ⟨-, hold⟩ := State.setSendBuffer_cases hx'
      · cases hafter
      · exact ⟨x', hold, Narrows.refl x'⟩
  | @makeShared t c size fresh here current =>
      obtain ⟨rfl, -⟩ | ⟨-, hold⟩ := State.setSendBuffer_cases hx'
      · exact .inl ⟨placed.newBuffer _ (Nat.le_refl _), rfl⟩
      · exact .inr ⟨x', hold, Narrows.refl x'⟩
  | @closeUsed t id x writeSize here live =>
      right
      obtain ⟨rfl, rfl⟩ | ⟨-, hold⟩ := State.closeUsed_cases hx'
      · obtain ⟨y, hy, hstatus, hwrite, hfits⟩ := settled.closing t i writeSize (by rw [here]; rfl)
        rw [live] at hy
        cases hy
        refine ⟨x, live, rfl, rfl, ?_, fun hclosed => ?_⟩
        · have hle := UInt32.le_iff_toNat_le.mp hfits
          simpa [SendBuffer.size, hstatus, hwrite] using hle
        · rw [hstatus] at hclosed
          cases hclosed
      · exact ⟨x', hold, Narrows.refl x'⟩
  | pop => exact .inr (hsame (pop_sendBuffers ..))
  | assign => exact .inr (hsame (assign_sendBuffers ..))
  | _ => exact .inr (hsame rfl)

/-- An id is used once. -/
theorem sendBufferCount_next {e : SendBufferManager.Event Tid} (h : Step s e s') :
    s.sendBufferCount ≤ s'.sendBufferCount := by
  cases h with
  | makeShared => exact Nat.le_succ _
  | dropLast =>
      unfold State.release
      simp only
      split <;> exact Nat.le_refl _
  | pop =>
      unfold State.pop
      split <;> exact Nat.le_refl _
  | assign =>
      unfold State.assign State.release
      simp only
      split
      · exact Nat.le_refl _
      · split <;> exact Nat.le_refl _
  | _ => exact Nat.le_refl _

end Live

namespace Contents

structure State (Tid : Type) where
  manager : SendBufferManager.State Tid := {}
  buffer : ℕ → List UInt8 := fun _ => List.replicate sendBufferChunkSize.toNat 0
  contents : ℕ → List UInt8 := fun _ => []

/-- A step of the manager, or a write of a holder of the buffer from `offset` on. -/
inductive Event (Tid : Type) where
  | manager (e : SendBufferManager.Event Tid)
  | write (id : ℕ) (offset : ℕ) (bytes : List UInt8)

namespace State

variable {Tid : Type} (s : State Tid)

/-- The bytes that the buffer points to. -/
def bytes (sendBuffer : SendBuffer) : List UInt8 :=
  slice (s.buffer sendBuffer.ownerChunk) sendBuffer.buffer
    (sendBuffer.buffer + sendBuffer.size.toNat)

/-- A new buffer has the bytes that are there, and `Close` cuts off what was not written. -/
def record (manager : SendBufferManager.State Tid) (id : ℕ) : List UInt8 :=
  match s.manager.sendBuffers id, manager.sendBuffers id with
  | none, some sendBuffer => s.bytes sendBuffer
  | some _, some sendBuffer => (s.contents id).take sendBuffer.size.toNat
  | _, none => s.contents id

/-- The write through `Buffer()`. -/
def write (id : ℕ) (sendBuffer : SendBuffer) (offset : ℕ) (bytes : List UInt8) : State Tid :=
  let c := sendBuffer.ownerChunk
  { s with
    buffer := Function.update s.buffer c (store (s.buffer c) (sendBuffer.buffer + offset) bytes)
    contents := Function.update s.contents id (store (s.contents id) offset bytes) }

def next [DecidableEq Tid] (s : State Tid) : Event Tid → Option (State Tid)
  | .manager e => (s.manager.next e).map fun manager =>
      { s with manager, contents := s.record manager }
  | .write id offset bytes =>
      (s.manager.held id).map fun sendBuffer => s.write id sendBuffer offset bytes

end State

/-- All runs of any threads from the start of the process. -/
def system (Tid : Type) [DecidableEq Tid] : System (State Tid) (Event Tid) where
  init s := s = {}
  next := State.next

variable {Tid : Type}

/-- `Open` evaluates its assertion outside the `Close` of its chunk, and client code writes
inside the buffer and before the buffer is closed. -/
def Inside (s : State Tid) : Event Tid → Prop
  | .manager e => Ordered s.manager e
  | .write id offset bytes => ∀ sendBuffer, s.manager.sendBuffers id = some sendBuffer →
      sendBuffer.status ≠ .closed ∧ offset + bytes.length ≤ sendBuffer.allocSize.toNat

/-- The window of every live buffer shows the array of its own. -/
structure Private (s : State Tid) : Prop where
  length : ∀ c, (s.buffer c).length = sendBufferChunkSize.toNat
  shown : ∀ i x, s.manager.sendBuffers i = some x → s.bytes x = s.contents i

variable [DecidableEq Tid] {s s' : State Tid}

theorem next_cases {e : Event Tid} (h : s.next e = some s') :
    (∃ e' manager, e = .manager e' ∧ s.manager.next e' = some manager ∧
      s' = { s with manager, contents := s.record manager }) ∨
    (∃ id offset bytes sendBuffer, e = .write id offset bytes ∧
      s.manager.sendBuffers id = some sendBuffer ∧ s' = s.write id sendBuffer offset bytes) := by
  cases e with
  | manager e =>
      obtain ⟨manager, hnext, rfl⟩ := Option.map_eq_some_iff.mp h
      exact .inl ⟨e, manager, rfl, hnext, rfl⟩
  | write id offset bytes =>
      obtain ⟨sendBuffer, held, rfl⟩ := Option.map_eq_some_iff.mp h
      exact .inr ⟨id, offset, bytes, sendBuffer, rfl, live_of_held held, rfl⟩

theorem projects_manager : System.Projects (system Tid) (SendBufferManager.system Tid) Inside
    Ordered State.manager where
  init := by
    rintro s rfl
    rfl
  next := by
    intro s e s' hok hnext
    obtain ⟨e', manager, rfl, hmanager, rfl⟩ | ⟨id, offset, bytes, sendBuffer, rfl, -, rfl⟩ :=
      next_cases hnext
    · exact System.exists_run_single hmanager hok
    · exact System.exists_run_nil rfl

/-- The ranges of the manager's part of a run. -/
theorem settled_of_reachable (h : (system Tid).Reachable Inside s) :
    Placed s.manager ∧ Settled s.manager := by
  apply (projects_manager.reachable h).invariant (I := fun s => Placed s ∧ Settled s)
  · rintro s rfl
    exact ⟨placed_start, settled_start⟩
  · intro s e s' hs ordered hnext
    have hstep := step_of_next hnext
    exact ⟨hs.1.step hstep, hs.2.step hs.1 ordered hstep⟩

/-- A buffer that is made shows what is there, and one that is cut shows the rest. -/
theorem Private.manager (h : Private s) (placed : Placed s.manager) (settled : Settled s.manager)
    {e : SendBufferManager.Event Tid} {manager : SendBufferManager.State Tid}
    (hnext : s.manager.next e = some manager) :
    Private { s with manager, contents := s.record manager } := by
  refine ⟨h.length, fun i x' hx' => ?_⟩
  change manager.sendBuffers i = some x' at hx'
  change s.bytes x' = s.record manager i
  obtain ⟨hnew, -⟩ | ⟨x, hx, hnarrows⟩ := live_next (step_of_next hnext) settled placed hx'
  · simp only [State.record, hnew, hx']
  · have hsize := hnarrows.size
    simp only [State.record, hx, hx']
    rw [← h.shown i x hx, State.bytes, State.bytes, slice, slice, hnarrows.ownerChunk,
      hnarrows.buffer, List.take_take]
    congr 1
    omega

omit [DecidableEq Tid] in
/-- A write shows in its own window, where the array has it, and in no other. -/
theorem Private.write (h : Private s) (placed : Placed s.manager) (settled : Settled s.manager)
    {i : ℕ} {x : SendBuffer} {offset : ℕ} {bytes : List UInt8}
    (hx : s.manager.sendBuffers i = some x) (inside : offset + bytes.length ≤ x.size.toNat) :
    Private (s.write i x offset bytes) := by
  have hbound := (settled.separate placed).inside i x hx
  have hlength := h.length x.ownerChunk
  constructor
  case length =>
    intro c
    change (Function.update s.buffer x.ownerChunk _ c).length = _
    obtain rfl | hc := eq_or_ne c x.ownerChunk
    · rw [Function.update_self, length_store (by omega), h.length]
    · rw [Function.update_of_ne hc, h.length]
  case shown =>
    intro j y hy
    change s.manager.sendBuffers j = some y at hy
    change slice (Function.update s.buffer x.ownerChunk _ y.ownerChunk) y.buffer _ =
      Function.update s.contents i _ j
    obtain rfl | hj := eq_or_ne j i
    · rw [hx] at hy
      cases hy
      rw [Function.update_self, Function.update_self, ← h.shown j x hx]
      exact slice_store_inside (by omega) (by omega)
    · rw [Function.update_of_ne hj, ← h.shown j y hy]
      by_cases hchunk : y.ownerChunk = x.ownerChunk
      · rw [State.bytes, hchunk, Function.update_self]
        obtain hbefore | hafter := settled.ends_before hj hy hx hchunk
        · exact slice_store_below (by omega) (by omega)
        · exact slice_store_above (by omega) (by omega)
      · rw [Function.update_of_ne hchunk]
        rfl

omit [DecidableEq Tid] in
theorem private_start : Private ({} : State Tid) :=
  ⟨fun _ => List.length_replicate, nofun⟩

theorem private_of_reachable (h : (system Tid).Reachable Inside s) : Private s := by
  induction h with
  | start hs =>
      cases hs
      exact private_start
  | step hreach hok hnext ih =>
      obtain ⟨placed, settled⟩ := settled_of_reachable hreach
      obtain ⟨e', manager, rfl, hmanager, rfl⟩ | ⟨id, offset, bytes, x, rfl, hx, rfl⟩ :=
        next_cases hnext
      · exact ih.manager placed settled hmanager
      · obtain ⟨hstatus, hinside⟩ := hok x hx
        have hsize : x.size = x.allocSize := if_neg hstatus
        exact ih.write placed settled hx (hsize ▸ hinside)

/-- A buffer that is live later was live before, and once it is closed it shows the same. -/
structure Keeps (s s' : State Tid) (i : ℕ) (x' : SendBuffer) (x : SendBuffer) : Prop where
  live : s.manager.sendBuffers i = some x
  closed : x.status = .closed → x'.status = .closed ∧ s'.bytes x' = s.bytes x

theorem keeps_next {e : Event Tid} (hreach : (system Tid).Reachable Inside s) (hok : Inside s e)
    (hnext : s.next e = some s') {i : ℕ} (hi : i < s.manager.sendBufferCount) {x' : SendBuffer}
    (hx' : s'.manager.sendBuffers i = some x') : ∃ x, Keeps s s' i x' x := by
  have hprivate := private_of_reachable hreach
  have hprivate' := private_of_reachable (hreach.step hok hnext)
  obtain ⟨placed, settled⟩ := settled_of_reachable hreach
  obtain ⟨e', manager, rfl, hmanager, rfl⟩ | ⟨id, offset, bytes, y, rfl, hy, rfl⟩ :=
    next_cases hnext
  · obtain ⟨-, rfl⟩ | ⟨x, hx, hnarrows⟩ :=
      live_next (step_of_next hmanager) settled placed hx'
    · exact absurd hi (Nat.lt_irrefl _)
    · refine ⟨x, hx, fun hclosed => ?_⟩
      obtain ⟨hclosed', hsize⟩ := hnarrows.closed hclosed
      refine ⟨hclosed', ?_⟩
      rw [State.bytes, State.bytes, hnarrows.ownerChunk, hnarrows.buffer, hsize]
  · refine ⟨x', hx', fun hclosed => ⟨hclosed, ?_⟩⟩
    have hne : i ≠ id := by
      rintro rfl
      exact (hok x' hx').1 hclosed
    rw [hprivate'.shown i x' hx', hprivate.shown i x' hx']
    exact Function.update_of_ne hne _ _

theorem keeps_run {es : List (Event Tid)} (hreach : (system Tid).Reachable Inside s)
    (along : (system Tid).Along Inside es s) (hrun : (system Tid).run es s = some s') {i : ℕ}
    (hi : i < s.manager.sendBufferCount) {x' : SendBuffer}
    (hx' : s'.manager.sendBuffers i = some x') : ∃ x, Keeps s s' i x' x := by
  induction es generalizing s with
  | nil =>
      cases hrun
      exact ⟨x', hx', fun hclosed => ⟨hclosed, rfl⟩⟩
  | cons e es ih =>
      rw [System.run_cons, Option.bind_eq_some_iff] at hrun
      obtain ⟨u, hnext, hrest⟩ := hrun
      obtain ⟨hok, halong⟩ := along u hnext
      have hcount : s.manager.sendBufferCount ≤ u.manager.sendBufferCount := by
        obtain ⟨e', manager, rfl, hmanager, rfl⟩ | ⟨id, offset, bytes, y, rfl, -, rfl⟩ :=
          next_cases hnext
        · exact sendBufferCount_next (step_of_next hmanager)
        · exact Nat.le_refl _
      obtain ⟨y, hy⟩ := ih (hreach.step hok hnext) halong hrest (hi.trans_le hcount)
      obtain ⟨x, hx⟩ := keeps_next hreach hok hnext hi hy.live
      refine ⟨x, hx.live, fun hclosed => ?_⟩
      obtain ⟨hclosed', hbytes⟩ := hx.closed hclosed
      obtain ⟨hclosed'', hbytes'⟩ := hy.closed hclosed'
      exact ⟨hclosed'', hbytes'.trans hbytes⟩

/-- In every run of the Debug build in which client code closes a buffer once at most and
writes inside its buffers, each live buffer is an array of its own, whatever happens to the
other buffers and the chunks; and from its `Close` to the end of its last reference it shows
the same bytes. -/
theorem sendBuffers_private (h : (system Tid).Reachable Inside s) : Private s ∧
    ∀ es s' i x x', (system Tid).Along Inside es s → (system Tid).run es s = some s' →
      s.manager.sendBuffers i = some x → x.status = .closed →
        s'.manager.sendBuffers i = some x' → s'.bytes x' = s.bytes x := by
  refine ⟨private_of_reachable h, fun es s' i x x' along hrun hx hclosed hx' => ?_⟩
  have hi : i < s.manager.sendBufferCount := by
    by_contra hnew
    rw [(settled_of_reachable h).1.newBuffer i (Nat.not_lt.mp hnew)] at hx
    cases hx
  obtain ⟨y, hy⟩ := keeps_run h along hrun hi hx'
  have hsame := hy.live
  rw [hx] at hsame
  cases hsame
  exact (hy.closed hclosed).2

instance [Fintype Tid] (s : State Tid) : ∀ e : Event Tid, Decidable (Inside s e)
  | .manager e => inferInstanceAs (Decidable (Ordered s.manager e))
  | .write id offset bytes => decidable_of_iff
      (∀ x ∈ s.manager.sendBuffers id, x.status ≠ .closed ∧
        offset + bytes.length ≤ x.allocSize.toNat)
      ⟨fun h x hx => h x hx, fun h x hx => h x hx⟩

/-- Thread 1 closes the buffer after two bytes, and thread 0 opens another one. -/
def cutRun : List (SendBufferManager.Event (Fin 2)) :=
  [.closeBuffer 1 0 2, .step 1, .step 1, .step 1, .openBuffer 0 16] ++ List.replicate 6 (.step 0)

/-- Three bytes are written to the first buffer and two to the second, in one chunk. -/
def writeRun : List (Event (Fin 2)) :=
  openRun.map .manager ++ .write 0 0 [1, 2, 3] :: cutRun.map .manager ++ [.write 1 0 [7, 8]]

theorem sendBuffers_private_written : ∃ s : State (Fin 2),
    (system (Fin 2)).run writeRun {} = some s ∧
      s.contents 0 = [1, 2] ∧ (s.contents 1).take 3 = [7, 8, 0] ∧ Private s := by
  have hany : ((system (Fin 2)).run writeRun {}).any
      (fun s => decide (s.contents 0 = [1, 2] ∧ (s.contents 1).take 3 = [7, 8, 0])) = true := by
    decide +kernel
  obtain ⟨s, hrun, hfirst, hsecond⟩ := System.exists_of_run hany
  have hinside : (system (Fin 2)).Along Inside writeRun {} :=
    System.along_of_check (by decide +kernel)
  exact ⟨s, hrun, hfirst, hsecond,
    (sendBuffers_private ((System.Reachable.start rfl).run hinside hrun)).1⟩

end Contents

end SendBufferManager

end ServerCore
