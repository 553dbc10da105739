import ServerCore.SendBuffer.Places

/-!
# The ranges of live send buffers

A chunk has one live buffer at most that is not closed. It begins at `usedSize`, and the
closed ones lie below (`Settled`). While it is open or its `Close` has not come to its
first store, the chunk is opened, so an `Open` that has passed its assertion (`Pc.past`)
finds closed buffers only. Here is what the changes of one field keep.
-/

namespace ServerCore

namespace SendBufferManager

variable {Tid : Type}

/-- The buffer that the thread is closing, with the size written. -/
def Pc.closing : Pc → Option (ℕ × UInt32)
  | .closeAssert id writeSize => some (id, writeSize)
  | .closeOpened id writeSize => some (id, writeSize)
  | .closeUsed id writeSize => some (id, writeSize)
  | _ => none

/-- The buffer that the thread is closing and whose chunk is still opened. -/
def Pc.unclosed : Pc → Option ℕ
  | .closeAssert id _ => some id
  | .closeOpened id _ => some id
  | _ => none

/-- `Open` has passed the assertion that the current chunk is closed. -/
def Pc.past : Pc → Bool
  | .testFreeSize _ _ => true
  | .assertOpen _ _ => true
  | .chunkFreeSize _ _ => true
  | .setOpened _ _ => true
  | .makeShared _ _ => true
  | _ => false

/-- The size that the current chunk has room for. -/
def Pc.room : Pc → Option UInt32
  | .setOpened size _ => some size
  | .makeShared size _ => some size
  | _ => none

/-- The thread has opened its current chunk. -/
def Pc.ready : Pc → Bool
  | .makeShared _ _ => true
  | _ => false

theorem Pc.past_of_room {pc : Pc} {size : UInt32} (h : pc.room = some size) : pc.past = true := by
  cases pc <;> first | rfl | cases h

theorem Pc.past_of_ready {pc : Pc} (h : pc.ready = true) : pc.past = true := by
  cases pc <;> first | rfl | cases h

theorem Pc.closing_of_unclosed {pc : Pc} {i : ℕ} (h : pc.unclosed = some i) :
    ∃ writeSize, pc.closing = some (i, writeSize) := by
  cases pc <;> cases h <;> exact ⟨_, rfl⟩

structure Settled (s : State Tid) : Prop where
  used : ∀ c, (s.chunks c).usedSize.toNat ≤ 0x2000
  closed : ∀ i x, s.sendBuffers i = some x → x.status = .closed →
    x.buffer + x.writeSize.toNat ≤ (s.chunks x.ownerChunk).usedSize.toNat
  unsettled : ∀ i x, s.sendBuffers i = some x → x.status ≠ .closed →
    x.buffer = (s.chunks x.ownerChunk).usedSize.toNat ∧ x.buffer + x.allocSize.toNat ≤ 0x2000
  once : ∀ i j x y, s.sendBuffers i = some x → s.sendBuffers j = some y →
    x.ownerChunk = y.ownerChunk → x.status ≠ .closed → y.status ≠ .closed → i = j
  apart : ∀ i j x y, i ≠ j → s.sendBuffers i = some x → s.sendBuffers j = some y →
    x.ownerChunk = y.ownerChunk → x.status = .closed → y.status = .closed →
      x.buffer + x.writeSize.toNat ≤ y.buffer ∨ y.buffer + y.writeSize.toNat ≤ x.buffer
  opened : ∀ i x, s.sendBuffers i = some x → x.status = .opened →
    (s.chunks x.ownerChunk).isOpened = true
  closing : ∀ t i w, (s.threads t).closing = some (i, w) →
    ∃ x, s.sendBuffers i = some x ∧ x.status = .closing ∧ x.writeSize = w ∧ w ≤ x.allocSize
  closer : ∀ t u i w w', (s.threads t).closing = some (i, w) →
    (s.threads u).closing = some (i, w') → t = u
  isClosing : ∀ i x, s.sendBuffers i = some x → x.status = .closing →
    ∃ t w, (s.threads t).closing = some (i, w)
  unclosed : ∀ t i x, (s.threads t).unclosed = some i → s.sendBuffers i = some x →
    (s.chunks x.ownerChunk).isOpened = true
  past : ∀ t c, (s.threads t).past = true → s.tlsSendBufferChunk t = some c →
    ∀ i x, s.sendBuffers i = some x → x.ownerChunk = c → x.status = .closed
  room : ∀ t c size, (s.threads t).room = some size → s.tlsSendBufferChunk t = some c →
    (s.chunks c).usedSize.toNat + size.toNat ≤ 0x2000
  ready : ∀ t c, (s.threads t).ready = true → s.tlsSendBufferChunk t = some c →
    (s.chunks c).isOpened = true

variable {s s' : State Tid} {t : Tid} {c i : ℕ}

namespace Settled

/-- The owners of the chunks, the pool and the counters do not matter. -/
theorem frame (h : Settled s) (used : ∀ c, (s'.chunks c).usedSize = (s.chunks c).usedSize)
    (opened : ∀ c, (s'.chunks c).isOpened = (s.chunks c).isOpened)
    (sendBuffers : s'.sendBuffers = s.sendBuffers)
    (tls : s'.tlsSendBufferChunk = s.tlsSendBufferChunk) (threads : s'.threads = s.threads) :
    Settled s' := by
  constructor
  case used =>
    intro c
    rw [used]
    exact h.used c
  case closed =>
    intro i x
    rw [sendBuffers, used]
    exact h.closed i x
  case unsettled =>
    intro i x
    rw [sendBuffers, used]
    exact h.unsettled i x
  case once =>
    rw [sendBuffers]
    exact h.once
  case apart =>
    rw [sendBuffers]
    exact h.apart
  case opened =>
    intro i x
    rw [sendBuffers, opened]
    exact h.opened i x
  case closing =>
    rw [sendBuffers, threads]
    exact h.closing
  case closer =>
    rw [threads]
    exact h.closer
  case isClosing =>
    rw [sendBuffers, threads]
    exact h.isClosing
  case unclosed =>
    intro t i x
    rw [sendBuffers, threads, opened]
    exact h.unclosed t i x
  case past =>
    rw [sendBuffers, threads, tls]
    exact h.past
  case room =>
    intro t c size
    rw [threads, tls, used]
    exact h.room t c size
  case ready =>
    intro t c
    rw [threads, tls, opened]
    exact h.ready t c

theorem setChunk_same (h : Settled s) (c : ℕ) (chunk : SendBufferChunk Tid)
    (used : chunk.usedSize = (s.chunks c).usedSize)
    (opened : chunk.isOpened = (s.chunks c).isOpened) : Settled (s.setChunk c chunk) := by
  apply h.frame
  · exact s.setChunk_congr SendBufferChunk.usedSize used
  · exact s.setChunk_congr SendBufferChunk.isOpened opened
  · rfl
  · rfl
  · rfl

/-- A chunk without live buffers is reset, or made. -/
theorem resetChunk (h : Settled s) (unused : Unused s c) (outside : ∀ t,
    s.tlsSendBufferChunk t = some c → (s.threads t).past = false) {chunk : SendBufferChunk Tid}
    (used : chunk.usedSize = 0) : Settled (s.setChunk c chunk) := by
  have hother : ∀ i x, s.sendBuffers i = some x →
      (s.setChunk c chunk).chunks x.ownerChunk = s.chunks x.ownerChunk :=
    fun i x hx => Function.update_of_ne (unused i x hx) ..
  have hcurrent : ∀ t d, (s.threads t).past = true → s.tlsSendBufferChunk t = some d →
      (s.setChunk c chunk).chunks d = s.chunks d := by
    intro t d hpast hd
    apply Function.update_of_ne
    rintro rfl
    rw [outside t hd] at hpast
    cases hpast
  constructor
  case used =>
    intro d
    change (Function.update s.chunks c chunk d).usedSize.toNat ≤ _
    obtain rfl | hne := eq_or_ne d c
    · rw [Function.update_self, used]
      exact Nat.zero_le _
    · rw [Function.update_of_ne hne]
      exact h.used d
  case closed =>
    intro i x hx
    rw [hother i x hx]
    exact h.closed i x hx
  case unsettled =>
    intro i x hx
    rw [hother i x hx]
    exact h.unsettled i x hx
  case once => exact h.once
  case apart => exact h.apart
  case opened =>
    intro i x hx
    rw [hother i x hx]
    exact h.opened i x hx
  case closing => exact h.closing
  case closer => exact h.closer
  case isClosing => exact h.isClosing
  case unclosed =>
    intro t i x ht hx
    rw [hother i x hx]
    exact h.unclosed t i x ht hx
  case past => exact h.past
  case room =>
    intro t d size ht hd
    rw [hcurrent t d (Pc.past_of_room ht) hd]
    exact h.room t d size ht hd
  case ready =>
    intro t d ht hd
    rw [hcurrent t d (Pc.past_of_ready ht) hd]
    exact h.ready t d ht hd

theorem openChunk (h : Settled s) {chunk : SendBufferChunk Tid}
    (used : chunk.usedSize = (s.chunks c).usedSize) (opened : chunk.isOpened = true) :
    Settled (s.setChunk c chunk) := by
  have hused := s.setChunk_congr SendBufferChunk.usedSize used
  have hopened : ∀ d, (s.chunks d).isOpened = true →
      ((s.setChunk c chunk).chunks d).isOpened = true := by
    intro d hd
    change (Function.update s.chunks c chunk d).isOpened = true
    obtain rfl | hne := eq_or_ne d c
    · rw [Function.update_self, opened]
    · rwa [Function.update_of_ne hne]
  constructor
  case used =>
    intro d
    rw [hused]
    exact h.used d
  case closed =>
    intro i x
    rw [hused]
    exact h.closed i x
  case unsettled =>
    intro i x
    rw [hused]
    exact h.unsettled i x
  case once => exact h.once
  case apart => exact h.apart
  case opened => exact fun i x hx hstatus => hopened _ (h.opened i x hx hstatus)
  case closing => exact h.closing
  case closer => exact h.closer
  case isClosing => exact h.isClosing
  case unclosed => exact fun t i x ht hx => hopened _ (h.unclosed t i x ht hx)
  case past => exact h.past
  case room =>
    intro t d size
    rw [hused]
    exact h.room t d size
  case ready => exact fun t d ht hd => hopened _ (h.ready t d ht hd)

/-- A buffer that nobody is closing is destroyed. -/
theorem dropBuffer (h : Settled s) {x : SendBuffer} (live : s.sendBuffers i = some x)
    (free : x.status ≠ .closing) : Settled (s.setSendBuffer i none) := by
  have hbefore : ∀ j y, (s.setSendBuffer i none).sendBuffers j = some y → s.sendBuffers j = some y := by
    intro j y hy
    obtain ⟨-, ⟨⟩⟩ | ⟨-, hold⟩ := State.setSendBuffer_cases hy
    exact hold
  constructor
  case used => exact h.used
  case closed => exact fun j y hy => h.closed j y (hbefore j y hy)
  case unsettled => exact fun j y hy => h.unsettled j y (hbefore j y hy)
  case once => exact fun j k y z hy hz => h.once j k y z (hbefore j y hy) (hbefore k z hz)
  case apart => exact fun j k y z hne hy hz => h.apart j k y z hne (hbefore j y hy) (hbefore k z hz)
  case opened => exact fun j y hy => h.opened j y (hbefore j y hy)
  case closing =>
    intro t j w ht
    obtain ⟨y, hy, hclosing, hrest⟩ := h.closing t j w ht
    refine ⟨y, ?_, hclosing, hrest⟩
    have hne : j ≠ i := by
      rintro rfl
      rw [live] at hy
      cases hy
      exact free hclosing
    exact (Function.update_of_ne hne ..).trans hy
  case closer => exact h.closer
  case isClosing => exact fun j y hy => h.isClosing j y (hbefore j y hy)
  case unclosed => exact fun t j y ht hy => h.unclosed t j y ht (hbefore j y hy)
  case past => exact fun t d ht hd j y hy => h.past t d ht hd j y (hbefore j y hy)
  case room => exact h.room
  case ready => exact h.ready

/-- References come and go. -/
theorem setReferences (h : Settled s) {x : SendBuffer} (live : s.sendBuffers i = some x)
    (references : ℕ) : Settled (s.setSendBuffer i (some { x with references })) := by
  have hbefore : ∀ j y, (s.setSendBuffer i (some { x with references })).sendBuffers j = some y →
      ∃ z, s.sendBuffers j = some z ∧ y = { z with references := y.references } := by
    intro j y hy
    obtain ⟨rfl, ⟨⟩⟩ | ⟨-, hold⟩ := State.setSendBuffer_cases hy
    · exact ⟨x, live, rfl⟩
    · exact ⟨y, hold, rfl⟩
  constructor
  case used => exact h.used
  case closed =>
    intro j y hy
    obtain ⟨y', hy', heq⟩ := hbefore j y hy
    rw [heq]
    exact h.closed j y' hy'
  case unsettled =>
    intro j y hy
    obtain ⟨y', hy', heq⟩ := hbefore j y hy
    rw [heq]
    exact h.unsettled j y' hy'
  case once =>
    intro j k y z hy hz
    obtain ⟨y', hy', heq⟩ := hbefore j y hy
    obtain ⟨z', hz', heq'⟩ := hbefore k z hz
    rw [heq, heq']
    exact h.once j k y' z' hy' hz'
  case apart =>
    intro j k y z hne hy hz
    obtain ⟨y', hy', heq⟩ := hbefore j y hy
    obtain ⟨z', hz', heq'⟩ := hbefore k z hz
    rw [heq, heq']
    exact h.apart j k y' z' hne hy' hz'
  case opened =>
    intro j y hy
    obtain ⟨y', hy', heq⟩ := hbefore j y hy
    rw [heq]
    exact h.opened j y' hy'
  case closing =>
    intro t j w ht
    obtain ⟨y, hy, hrest⟩ := h.closing t j w ht
    obtain rfl | hne := eq_or_ne j i
    · rw [live] at hy
      cases hy
      exact ⟨_, Function.update_self .., hrest⟩
    · exact ⟨y, (Function.update_of_ne hne ..).trans hy, hrest⟩
  case closer => exact h.closer
  case isClosing =>
    intro j y hy
    obtain ⟨y', hy', heq⟩ := hbefore j y hy
    rw [heq]
    exact h.isClosing j y' hy'
  case unclosed =>
    intro t j y ht hy
    obtain ⟨y', hy', heq⟩ := hbefore j y hy
    rw [heq]
    exact h.unclosed t j y' ht hy'
  case past =>
    intro t d ht hd j y hy
    obtain ⟨y', hy', heq⟩ := hbefore j y hy
    rw [heq]
    exact h.past t d ht hd j y' hy'
  case room => exact h.room
  case ready => exact h.ready

/-- The thread whose `Open` has not passed the assertion gets another current chunk. -/
theorem setTls (h : Settled s) (outside : (s.threads t).past = false)
    {tls : Tid → Option ℕ} (others : ∀ u, u ≠ t → tls u = s.tlsSendBufferChunk u) :
    Settled { s with tlsSendBufferChunk := tls } := by
  have hsame : ∀ u, (s.threads u).past = true → tls u = s.tlsSendBufferChunk u := by
    intro u hpast
    apply others
    rintro rfl
    rw [outside] at hpast
    cases hpast
  constructor
  case used => exact h.used
  case closed => exact h.closed
  case unsettled => exact h.unsettled
  case once => exact h.once
  case apart => exact h.apart
  case opened => exact h.opened
  case closing => exact h.closing
  case closer => exact h.closer
  case isClosing => exact h.isClosing
  case unclosed => exact h.unclosed
  case past =>
    intro u d hu hd
    exact h.past u d hu ((hsame u hu).symm.trans hd)
  case room =>
    intro u d size hu hd
    exact h.room u d size hu ((hsame u (Pc.past_of_room hu)).symm.trans hd)
  case ready =>
    intro u d hu hd
    exact h.ready u d hu ((hsame u (Pc.past_of_ready hu)).symm.trans hd)

variable [DecidableEq Tid]

/-- A thread goes on with `Open` or within `Close`. -/
theorem setPc (h : Settled s) {pc : Pc} (closing : pc.closing = (s.threads t).closing)
    (unclosed : ∀ i, pc.unclosed = some i → (s.threads t).unclosed = some i)
    (past : pc.past = true → ∀ c, s.tlsSendBufferChunk t = some c →
      ∀ i x, s.sendBuffers i = some x → x.ownerChunk = c → x.status = .closed)
    (room : ∀ size, pc.room = some size → ∀ c, s.tlsSendBufferChunk t = some c →
      (s.chunks c).usedSize.toNat + size.toNat ≤ 0x2000)
    (ready : pc.ready = true → ∀ c, s.tlsSendBufferChunk t = some c →
      (s.chunks c).isOpened = true) : Settled (s.setPc t pc) := by
  have hself := s.setPc_self t pc
  have hother : ∀ u, u ≠ t → (s.setPc t pc).threads u = s.threads u :=
    fun u hu => s.setPc_of_ne hu pc
  have hclosing : ∀ u, ((s.setPc t pc).threads u).closing = (s.threads u).closing := by
    intro u
    obtain rfl | hne := eq_or_ne u t
    · rw [hself, closing]
    · rw [hother u hne]
  constructor
  case used => exact h.used
  case closed => exact h.closed
  case unsettled => exact h.unsettled
  case once => exact h.once
  case apart => exact h.apart
  case opened => exact h.opened
  case closing =>
    intro u i w hu
    rw [hclosing] at hu
    exact h.closing u i w hu
  case closer =>
    intro u v i w w' hu hv
    rw [hclosing] at hu hv
    exact h.closer u v i w w' hu hv
  case isClosing =>
    intro i x hx hstatus
    obtain ⟨u, w, hu⟩ := h.isClosing i x hx hstatus
    exact ⟨u, w, (hclosing u).trans hu⟩
  case unclosed =>
    intro u i x hu hx
    obtain rfl | hne := eq_or_ne u t
    · rw [hself] at hu
      exact h.unclosed u i x (unclosed i hu) hx
    · rw [hother u hne] at hu
      exact h.unclosed u i x hu hx
  case past =>
    intro u c hu hc
    obtain rfl | hne := eq_or_ne u t
    · rw [hself] at hu
      exact past hu c hc
    · rw [hother u hne] at hu
      exact h.past u c hu hc
  case room =>
    intro u c size hu hc
    obtain rfl | hne := eq_or_ne u t
    · rw [hself] at hu
      exact room size hu c hc
    · rw [hother u hne] at hu
      exact h.room u c size hu hc
  case ready =>
    intro u c hu hc
    obtain rfl | hne := eq_or_ne u t
    · rw [hself] at hu
      exact ready hu c hc
    · rw [hother u hne] at hu
      exact h.ready u c hu hc

/-- A thread that neither closes a buffer nor has passed the assertion, before or after. -/
theorem setPc_outside (h : Settled s) {pc : Pc} (before : (s.threads t).closing = none)
    (closing : pc.closing = none) (past : pc.past = false) : Settled (s.setPc t pc) := by
  have hpast : pc.past ≠ true := Bool.eq_false_iff.mp past
  apply h.setPc
  · rw [closing, before]
  · intro i hi
    obtain ⟨w, hw⟩ := Pc.closing_of_unclosed hi
    rw [closing] at hw
    cases hw
  · exact fun hpc => absurd hpc hpast
  · exact fun size hsize => absurd (Pc.past_of_room hsize) hpast
  · exact fun hready => absurd (Pc.past_of_ready hready) hpast

theorem release (h : Settled s) {owner : Owner Tid} {resume : Option UInt32}
    (before : (s.threads t).closing = none) : Settled (s.release t c owner resume) := by
  have hchunk : Settled (s.setChunk c
      { s.chunks c with owners := (s.chunks c).owners.erase owner }) := h.setChunk_same c _ rfl rfl
  simp only [State.release]
  split
  · exact hchunk.setPc_outside before rfl rfl
  · cases resume with
    | none => exact hchunk.setPc_outside before rfl rfl
    | some size => exact hchunk.setPc_outside before rfl rfl

end Settled

end SendBufferManager

end ServerCore
