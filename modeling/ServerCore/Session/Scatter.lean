import ServerCore.SendBuffer.Basic
import ServerCore.Session.Send

/-!
# The scatter list of `RegisterSend`

`RegisterSend` keeps two lists of what it sends: the batch in `sendEvent`, which owns the
buffers, and `wsaBufs`, which is what `WSASend` takes. The first loop fills the batch from
the queue and adds up the sizes. The second one makes a `WSABUF` of every buffer of the
batch and drops it: nothing is ever put into `wsaBufs`, and the function ends there.
-/

namespace ServerCore

namespace Send

open SendBufferManager

/-- A range of bytes: the chunk and the index of `buf` in its array, and `len`. -/
structure WsaBuf where
  buf : ℕ × ℕ
  len : UInt32
  deriving DecidableEq, Repr

/-- The pair of `Buffer()` and `WriteSize()`. -/
def wsaBuf (sendBuffer : SendBuffer) : WsaBuf where
  buf := (sendBuffer.ownerChunk, sendBuffer.buffer)
  len := sendBuffer.writeSize

/-- The session after `RegisterSend`, the locals at its end, and the arrays of its calls
of `WSASend`. -/
structure Registration where
  shared : Shared SendBuffer
  writeSize : Int32 := 0
  wsaBufs : List WsaBuf := []
  wsaSends : List (List WsaBuf) := []

/-- The first loop, with the sum that it keeps in `writeSize`. -/
def gatherLoop : List SendBuffer → List SendBuffer → Int32 →
    List SendBuffer × List SendBuffer × Int32
  | [], sendBuffers, writeSize => ([], sendBuffers, writeSize)
  | sendBuffer :: sendQueue, sendBuffers, writeSize =>
      let writeSize := (writeSize.toUInt32 + sendBuffer.writeSize).toInt32
      gatherLoop sendQueue (sendBuffers ++ [sendBuffer]) writeSize

/-- The second loop. The `WSABUF` goes out of scope at the end of its round. -/
def wsaLoop : List SendBuffer → List WsaBuf → List WsaBuf
  | [], wsaBufs => wsaBufs
  | sendBuffer :: sendBuffers, wsaBufs =>
      let _ := wsaBuf sendBuffer
      wsaLoop sendBuffers wsaBufs

def registration (sh : Shared SendBuffer) : Registration :=
  if sh.isConnected = false then { shared := sh }
  else
    let sh := sh.initEvent
    let (sendQueue, sendBuffers, writeSize) := gatherLoop sh.sendQueue sh.sendBuffers 0
    let sh := { sh with sendQueue, sendBuffers }
    { shared := sh, writeSize, wsaBufs := wsaLoop sh.sendBuffers [] }

/-- The number of bytes that the socket was given. -/
def Registration.total (r : Registration) : ℕ := (r.wsaSends.flatten.map (·.len.toNat)).sum

def writeSizes (sendBuffers : List SendBuffer) : ℕ := (sendBuffers.map (·.writeSize.toNat)).sum

/-- The queue moved to the end of the batch, and the socket was given every buffer of the
batch, in the same order. -/
structure Scatters (sh : Shared SendBuffer) (r : Registration) : Prop where
  sendQueue : r.shared.sendQueue = []
  sendBuffers : r.shared.sendBuffers = sh.sendBuffers ++ sh.sendQueue
  wsaBufs : r.wsaBufs = r.shared.sendBuffers.map wsaBuf
  total : r.total = writeSizes r.shared.sendBuffers

/-- The loop moves what `collectLoop` moves. -/
theorem gatherLoop_fst (sendQueue sendBuffers : List SendBuffer) (writeSize : Int32) :
    ((gatherLoop sendQueue sendBuffers writeSize).1,
      (gatherLoop sendQueue sendBuffers writeSize).2.1) = collectLoop sendQueue sendBuffers := by
  induction sendQueue generalizing sendBuffers writeSize with
  | nil => rfl
  | cons sendBuffer sendQueue ih =>
      rw [gatherLoop, collectLoop]
      exact ih _ _

theorem wsaLoop_eq (sendBuffers : List SendBuffer) (wsaBufs : List WsaBuf) :
    wsaLoop sendBuffers wsaBufs = wsaBufs := by
  induction sendBuffers with
  | nil => rfl
  | cons sendBuffer sendBuffers ih => exact ih

section RegisterSend

variable {sh : Shared SendBuffer}

/-- Of the shared state, `RegisterSend` changes what the send path says. -/
theorem registration_shared (hconnected : sh.isConnected = true) :
    (registration sh).shared = sh.initEvent.collect := by
  have hfst := gatherLoop_fst sh.sendQueue sh.sendBuffers 0
  rw [registration, if_neg (by rw [hconnected]; exact Bool.noConfusion), Shared.collect]
  change { sh.initEvent with
    sendQueue := (gatherLoop sh.sendQueue sh.sendBuffers 0).1
    sendBuffers := (gatherLoop sh.sendQueue sh.sendBuffers 0).2.1 } = _
  rw [Prod.mk.injEq] at hfst
  rw [hfst.1, hfst.2]
  rfl

/-- No `WSABUF` is kept, whatever was queued. -/
theorem registration_wsaBufs (sh : Shared SendBuffer) :
    (registration sh).wsaBufs = [] ∧ (registration sh).wsaSends = [] := by
  rw [registration]
  split
  · exact ⟨rfl, rfl⟩
  · exact ⟨wsaLoop_eq _ _, rfl⟩

/-- `RegisterSend` of a connected session gives the socket what it took from the queue
exactly when there is nothing to give: queue and batch are empty. -/
theorem registerSend_scatters_iff (hconnected : sh.isConnected = true) :
    Scatters sh (registration sh) ↔ sh.sendQueue = [] ∧ sh.sendBuffers = [] := by
  obtain ⟨hbufs, hsends⟩ := registration_wsaBufs sh
  have hshared : (registration sh).shared =
      { sh.initEvent with sendQueue := [], sendBuffers := sh.sendBuffers ++ sh.sendQueue } :=
    (registration_shared hconnected).trans (collect_eq sh.initEvent)
  have hbatch : (registration sh).shared.sendBuffers = sh.sendBuffers ++ sh.sendQueue := by
    rw [hshared]
  constructor
  · intro h
    have hmap := h.wsaBufs
    rw [hbufs, hbatch] at hmap
    have hempty := List.map_eq_nil_iff.mp hmap.symm
    rw [List.append_eq_nil_iff] at hempty
    exact hempty.symm
  · rintro ⟨hqueue, hbuffers⟩
    have hempty : (registration sh).shared.sendBuffers = [] := by
      rw [hbatch, hqueue, hbuffers, List.append_nil]
    refine ⟨by rw [hshared], hbatch, ?_, ?_⟩
    · rw [hbufs, hempty, List.map_nil]
    · rw [Registration.total, hsends, hempty]
      rfl

/-- A connected session with one queued buffer of three bytes. -/
def queuedSession : Shared SendBuffer :=
  { isConnected := true, sendQueue := [⟨0, 0, 3, 3, .closed, 1⟩] }

theorem registerSend_scatters_iff_queued :
    Scatters queuedSession (registration queuedSession) ↔
      queuedSession.sendQueue = [] ∧ queuedSession.sendBuffers = [] :=
  registerSend_scatters_iff rfl

/-- The three bytes are in the batch, and the socket gets none of them. -/
theorem registerSend_drops :
    ¬∀ sh : Shared SendBuffer, sh.isConnected = true → Scatters sh (registration sh) := by
  intro hall
  have hmap := (hall queuedSession rfl).wsaBufs
  exact absurd hmap (by decide)

end RegisterSend

end Send

end ServerCore
