import ServerCore.SendBuffer.Basic

/-!
# The steps of the send buffers

One constructor for each step of `State.next`, with what its thread is at and the tests
that the step has passed. Every assertion that fails is the same step.
-/

namespace ServerCore

namespace SendBufferManager

variable {Tid : Type} [DecidableEq Tid]

inductive Step (s : State Tid) : Event Tid → State Tid → Prop where
  | crash {e} : Step s e s.crash
  | openFirst {t size} (idle : s.threads t = .idle) :
      Step s (.openBuffer t size) (s.setPc t (.pop size false))
  | openCurrent {t size} (idle : s.threads t = .idle) :
      Step s (.openBuffer t size) (s.setPc t (.assertClosed size false))
  | close {t id sendBuffer writeSize} (live : s.sendBuffers id = some sendBuffer)
      (idle : s.threads t = .idle) (opened : sendBuffer.status = .opened)
      (fits : writeSize ≤ sendBuffer.allocSize) :
      Step s (.closeBuffer t id writeSize) (s.setSendBuffer id (some { sendBuffer with
        writeSize, status := .closing, references := sendBuffer.references - 1 })
        |>.setPc t (.closeAssert id writeSize))
  | count {e id sendBuffer} (references : ℕ) (live : s.sendBuffers id = some sendBuffer) :
      Step s e (s.setSendBuffer id (some { sendBuffer with references }))
  | dropLast {t id sendBuffer} (live : s.sendBuffers id = some sendBuffer)
      (idle : s.threads t = .idle) (free : sendBuffer.status ≠ .closing) :
      Step s (.dropReference t id)
        (s.setSendBuffer id none |>.release t sendBuffer.ownerChunk (.sendBuffer id) none)
  | pop {t size second} (here : s.threads t = .pop size second) :
      Step s (.step t) (s.pop t size second)
  | assign {t size second c} (here : s.threads t = .assign size second c) :
      Step s (.step t) (s.assign t size second c)
  | push {t c resume} (here : s.threads t = .push c resume) : Step s (.step t) (s.push t c resume)
  | resetBuffer {t c size second} (here : s.threads t = .resetBuffer size second)
      (current : s.tlsSendBufferChunk t = some c) : Step s (.step t) (s.resetBuffer t c size second)
  | assertClosed {t c size fresh} (here : s.threads t = .assertClosed size fresh)
      (current : s.tlsSendBufferChunk t = some c) (closed : (s.chunks c).isOpened = false) :
      Step s (.step t) (s.setPc t (.testFreeSize size fresh))
  | tooSmall {t size fresh} (here : s.threads t = .testFreeSize size fresh) :
      Step s (.step t) (s.setPc t (.pop size true))
  | largeEnough {t size fresh} (here : s.threads t = .testFreeSize size fresh) :
      Step s (.step t) (s.setPc t (.assertOpen size fresh))
  | assertOpen {t size fresh} (here : s.threads t = .assertOpen size fresh) :
      Step s (.step t) (s.setPc t (.chunkFreeSize size fresh))
  | refused {t size fresh} (here : s.threads t = .chunkFreeSize size fresh) :
      Step s (.step t) (s.setPc t .idle)
  | granted {t c size fresh} (here : s.threads t = .chunkFreeSize size fresh)
      (current : s.tlsSendBufferChunk t = some c) (fits : size ≤ (s.chunks c).freeSize) :
      Step s (.step t) (s.setPc t (.setOpened size fresh))
  | setOpened {t c size fresh} (here : s.threads t = .setOpened size fresh)
      (current : s.tlsSendBufferChunk t = some c) :
      Step s (.step t)
        (s.setChunk c { s.chunks c with isOpened := true } |>.setPc t (.makeShared size fresh))
  | makeShared {t c size fresh} (here : s.threads t = .makeShared size fresh)
      (current : s.tlsSendBufferChunk t = some c) : Step s (.step t) (s.makeShared t c size)
  | closeAssert {t id sendBuffer writeSize} (here : s.threads t = .closeAssert id writeSize)
      (live : s.sendBuffers id = some sendBuffer) :
      Step s (.step t) (s.setPc t (.closeOpened id writeSize))
  | closeOpened {t id sendBuffer writeSize} (here : s.threads t = .closeOpened id writeSize)
      (live : s.sendBuffers id = some sendBuffer) :
      Step s (.step t) (s.setChunk sendBuffer.ownerChunk
        { s.chunks sendBuffer.ownerChunk with isOpened := false }
        |>.setPc t (.closeUsed id writeSize))
  | closeUsed {t id sendBuffer writeSize} (here : s.threads t = .closeUsed id writeSize)
      (live : s.sendBuffers id = some sendBuffer) :
      Step s (.step t) (s.closeUsed t id sendBuffer writeSize)

variable {s s' : State Tid} {e : Event Tid}

theorem step_of_step {t : Tid} (h : s.step t = some s') : Step s (.step t) s' := by
  unfold State.step at h
  split at h
  next => cases h
  next here =>
    cases h
    exact .pop here
  next here =>
    cases h
    exact .assign here
  next here =>
    cases h
    exact .push here
  next here =>
    obtain ⟨c, current, rfl⟩ := Option.map_eq_some_iff.mp h
    exact .resetBuffer here current
  next here =>
    obtain ⟨c, current, rfl⟩ := Option.map_eq_some_iff.mp h
    split
    · exact .crash
    next closed => exact .assertClosed here current (by simpa using closed)
  next here =>
    obtain ⟨c, current, rfl⟩ := Option.map_eq_some_iff.mp h
    split
    · exact .tooSmall here
    · exact .largeEnough here
  next here =>
    obtain ⟨c, current, rfl⟩ := Option.map_eq_some_iff.mp h
    split
    · exact .crash
    · exact .assertOpen here
  next here =>
    obtain ⟨c, current, rfl⟩ := Option.map_eq_some_iff.mp h
    split
    · exact .refused here
    next fits => exact .granted here current (UInt32.not_lt.mp fits)
  next here =>
    obtain ⟨c, current, rfl⟩ := Option.map_eq_some_iff.mp h
    exact .setOpened here current
  next here =>
    obtain ⟨c, current, rfl⟩ := Option.map_eq_some_iff.mp h
    exact .makeShared here current
  next here =>
    obtain ⟨sendBuffer, live, rfl⟩ := Option.map_eq_some_iff.mp h
    split
    · exact .crash
    · exact .closeAssert here live
  next here =>
    obtain ⟨sendBuffer, live, rfl⟩ := Option.map_eq_some_iff.mp h
    exact .closeOpened here live
  next here =>
    obtain ⟨sendBuffer, live, rfl⟩ := Option.map_eq_some_iff.mp h
    exact .closeUsed here live

omit [DecidableEq Tid] in
theorem live_of_held {id : ℕ} {sendBuffer : SendBuffer} (h : s.held id = some sendBuffer) :
    s.sendBuffers id = some sendBuffer := (Option.filter_eq_some_iff.mp h).1

theorem step_of_next (h : (system Tid).next s e = some s') : Step s e s' := by
  change s.next e = some s' at h
  unfold State.next at h
  split at h
  · cases h
  cases e with
  | openBuffer t size =>
      simp only at h
      split at h
      · cases h
      next idle =>
        split at h
        · cases h
          exact .openFirst (not_not.mp idle)
        · cases h
          exact .openCurrent (not_not.mp idle)
  | closeBuffer t id writeSize =>
      simp only at h
      split at h
      · cases h
      next sendBuffer held =>
        split at h
        next hok =>
          cases h
          unfold State.close
          split
          · exact .crash
          next fits => exact .close (live_of_held held) hok.1 hok.2 (UInt32.not_lt.mp fits)
        · cases h
  | copyReference id =>
      obtain ⟨sendBuffer, held, rfl⟩ := Option.map_eq_some_iff.mp h
      exact .count _ (live_of_held held)
  | dropReference t id =>
      simp only at h
      split at h
      · cases h
      next sendBuffer held =>
        split at h
        next idle =>
          cases h
          unfold State.drop
          split
          next hlast => exact .dropLast (live_of_held held) idle hlast.2
          · exact .count _ (live_of_held held)
        · cases h
  | step t => exact step_of_step h

end SendBufferManager

end ServerCore
