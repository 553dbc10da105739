import ServerCore.Interleaving.System
import ServerCore.Session.RecvBuffer

/-!
# The receive path of a session

`ProcessConnect` posts the first receive, and `ProcessRecv` posts the next one as its
last action, so at most one receive is outstanding and one event is either its
completion or the return of `OnRecv`. The kernel stores the bytes of a completion in
the posted range before the completion is dequeued; the content class is taken to read
that range only. `Disconnect` has an empty body: its calls are recorded, and nothing
follows them.

`received` is the concatenation of the completions that `ProcessRecv` accepted and
`consumed` the sum of the accepted results of `OnRecv`. No step reads them.
-/

namespace ServerCore

namespace Receive

open Interleaving

/-- What an overlapped call returns and what `WSAGetLastError` answers after it. The
answer after a success is stale, so it is arbitrary. -/
structure CallResult where
  socketError : Bool
  errorCode : Int32

def wsaIoPending : Int32 := 997

/-- A completion packet will be queued. -/
def CallResult.posted (result : CallResult) : Bool :=
  result.socketError = false || result.errorCode = wsaIoPending

/-- The range handed to `WSARecv`: the index of `wsaBuf.buf` and `wsaBuf.len`. -/
structure WsaBuf where
  buf : ℕ
  len : UInt32
  deriving DecidableEq, Repr

/-- Whether a receive is outstanding, or the thread is inside `OnRecv`. Dequeueing a
completion of an event without an owner crashes the process. -/
inductive Phase where
  | idle
  | posted (wsaBuf : WsaBuf)
  | inOnRecv (dataSize : Int32)
  | crashed
  deriving DecidableEq, Repr

structure State where
  recvBuffer : RecvBuffer
  isConnected : Bool := false
  recvEventOwned : Bool := false
  phase : Phase := .idle
  disconnects : List String := []
  received : List UInt8 := []
  consumed : ℕ := 0

/-- A connection is established, the outstanding receive completes with some bytes, or
`OnRecv` returns. An event that leads to `RegisterRecv` carries the result of
`WSARecv`. -/
inductive Event where
  | connect (result : CallResult)
  | recv (bytes : List UInt8)
  | onRecv (processLen : Int32) (result : CallResult)

namespace State

def disconnect (s : State) (cause : String) : State :=
  { s with phase := .idle, disconnects := s.disconnects ++ [cause] }

/-- The test of the result is the source's: it looks for an error where `WSARecv` has
not failed. `HandleError` is empty. -/
def registerRecv (s : State) (result : CallResult) : State :=
  if s.isConnected = false then { s with phase := .idle }
  else
    let wsaBuf := { buf := s.recvBuffer.writeIndex, len := s.recvBuffer.freeSize.toUInt32 }
    { s with
      recvEventOwned := result.socketError || result.errorCode = wsaIoPending
      phase := if result.posted then .posted wsaBuf else .idle }

/-- `ProcessConnect`, as far as it concerns the receive path. -/
def processConnect (s : State) (result : CallResult) : State :=
  { s with isConnected := true }.registerRecv result

/-- `ProcessRecv` up to its call of `OnRecv`. -/
def processRecv (s : State) (bytes : List UInt8) : State :=
  let s := { s with recvEventOwned := false }
  let bytesTransferred := Int32.ofNat bytes.length
  if bytesTransferred = 0 then s.disconnect "Recv 0"
  else
    match s.recvBuffer.onWrite bytesTransferred with
    | none => s.disconnect "OnWrite overflow"
    | some recvBuffer =>
        { s with
          recvBuffer
          phase := .inOnRecv recvBuffer.dataSize
          received := s.received ++ bytes }

/-- `ProcessRecv` from the return of `OnRecv` on. -/
def finishRecv (s : State) (dataSize processLen : Int32) (result : CallResult) : State :=
  if processLen < 0 ∨ dataSize < processLen then s.disconnect "OnRead overflow"
  else
    match s.recvBuffer.onRead processLen with
    | none => s.disconnect "OnRead overflow"
    | some recvBuffer =>
        { s with
          recvBuffer := recvBuffer.clean
          consumed := s.consumed + processLen.toInt.toNat }.registerRecv result

/-- A completion has at most as many bytes as were asked for. -/
def next (s : State) : Event → Option State
  | .connect result =>
      if s.isConnected = false then some (s.processConnect result) else none
  | .recv bytes =>
      match s.phase with
      | .posted wsaBuf =>
          if bytes.length ≤ wsaBuf.len.toNat then
            let s := { s with recvBuffer := s.recvBuffer.receive wsaBuf.buf bytes }
            if s.recvEventOwned then some (s.processRecv bytes)
            else some { s with phase := .crashed }
          else none
      | _ => none
  | .onRecv processLen result =>
      match s.phase with
      | .inOnRecv dataSize => some (s.finishRecv dataSize processLen result)
      | _ => none

end State

/-- A session whose receive buffer was built for `bufferSize`. -/
def system (bufferSize : Int32) : System State Event where
  init s := ∃ recvBuffer, RecvBuffer.new bufferSize = some recvBuffer ∧ s = { recvBuffer }
  next := State.next

/-- The buffer holds the unread part of the stream, no completion was refused, and what
the phase remembers of the buffer is still true. -/
structure Delivers (s : State) : Prop where
  valid : s.recvBuffer.Valid
  window : s.recvBuffer.window = s.received.drop s.consumed
  consumed : s.consumed ≤ s.received.length
  accepted : "OnWrite overflow" ∉ s.disconnects
  posted : ∀ wsaBuf, s.phase = .posted wsaBuf →
    wsaBuf = ⟨s.recvBuffer.writeIndex, s.recvBuffer.freeSize.toUInt32⟩
  inOnRecv : ∀ dataSize, s.phase = .inOnRecv dataSize → dataSize = s.recvBuffer.dataSize

namespace Delivers

variable {s s' : State} {bytes : List UInt8} {dataSize processLen : Int32} {result : CallResult}

theorem of_valid {recvBuffer : RecvBuffer} (hvalid : recvBuffer.Valid)
    (hwindow : recvBuffer.window = []) : Delivers { recvBuffer } := by
  constructor
  · exact hvalid
  · exact hwindow
  · exact Nat.le_refl 0
  · exact List.not_mem_nil
  · intro wsaBuf hphase
    cases hphase
  · intro dataSize hphase
    cases hphase

theorem start {bufferSize : Int32} (hs : (system bufferSize).init s) : Delivers s := by
  obtain ⟨recvBuffer, hnew, rfl⟩ := hs
  obtain ⟨hvalid, hwindow⟩ := RecvBuffer.valid_of_new hnew
  exact of_valid hvalid hwindow

theorem initial {bufferSize : Int32} (hpos : 0 < bufferSize.toInt)
    (hfits : 10 * bufferSize.toInt < 2 ^ 31) (hs : (system bufferSize).init s) : Delivers s := by
  obtain ⟨recvBuffer, hnew, rfl⟩ := hs
  obtain ⟨b, hb, hvalid, hwindow⟩ := RecvBuffer.valid_new hpos hfits
  rw [hnew] at hb
  cases hb
  exact of_valid hvalid hwindow

theorem disconnect (h : Delivers s) {cause : String} (hcause : cause ≠ "OnWrite overflow") :
    Delivers (s.disconnect cause) := by
  refine ⟨h.valid, h.window, h.consumed, ?_, ?_, ?_⟩
  · intro hmem
    obtain hmem | hmem := List.mem_append.mp hmem
    · exact h.accepted hmem
    · exact hcause (List.mem_singleton.mp hmem).symm
  · intro wsaBuf hphase
    cases hphase
  · intro dataSize hphase
    cases hphase

/-- What `RegisterRecv` posts is the free part of the buffer. -/
theorem registerRecv (valid : s.recvBuffer.Valid)
    (window : s.recvBuffer.window = s.received.drop s.consumed)
    (consumed : s.consumed ≤ s.received.length)
    (accepted : "OnWrite overflow" ∉ s.disconnects) (result : CallResult) :
    Delivers (s.registerRecv result) := by
  rw [State.registerRecv]
  split
  · refine ⟨valid, window, consumed, accepted, ?_, ?_⟩
    · intro wsaBuf hphase
      cases hphase
    · intro dataSize hphase
      cases hphase
  · refine ⟨valid, window, consumed, accepted, ?_, ?_⟩
    · intro wsaBuf hphase
      change (if result.posted then Phase.posted _ else Phase.idle) = _ at hphase
      split at hphase <;> cases hphase
      rfl
    · intro dataSize hphase
      change (if result.posted then Phase.posted _ else Phase.idle) = _ at hphase
      split at hphase <;> cases hphase

/-- Bytes that the kernel stores in the free part of the buffer are not in the window. -/
theorem receive (h : Delivers s) (hfit : (bytes.length : ℤ) ≤ s.recvBuffer.freeSize.toInt)
    {phase : Phase} (idle : phase = .idle ∨ phase = .crashed) (owned : Bool) :
    Delivers { s with
      recvBuffer := s.recvBuffer.receive s.recvBuffer.writeIndex bytes
      recvEventOwned := owned
      phase } := by
  refine ⟨h.valid.receive hfit, ?_, h.consumed, h.accepted, ?_, ?_⟩
  · exact h.valid.window_receive.trans h.window
  · rintro wsaBuf rfl
    obtain hphase | hphase := idle <;> cases hphase
  · rintro dataSize rfl
    obtain hphase | hphase := idle <;> cases hphase

/-- A completion of the posted receive appends its bytes to the window. -/
theorem processRecv (h : Delivers s) (hfit : (bytes.length : ℤ) ≤ s.recvBuffer.freeSize.toInt) :
    Delivers ({ s with
      recvBuffer := s.recvBuffer.receive s.recvBuffer.writeIndex bytes }.processRecv bytes) := by
  obtain ⟨b, hwrite, hvalid, hwindow⟩ := h.valid.onWrite_receive hfit
  simp only [State.processRecv, hwrite]
  split
  · exact (h.receive hfit (.inl rfl) false).disconnect (by decide)
  · refine ⟨hvalid, ?_, ?_, h.accepted, ?_, ?_⟩
    · change b.window = (s.received ++ bytes).drop s.consumed
      rw [hwindow, h.window, List.drop_append_of_le_length h.consumed]
    · change s.consumed ≤ (s.received ++ bytes).length
      rw [List.length_append]
      exact Nat.le_add_right_of_le h.consumed
    · intro wsaBuf hphase
      cases hphase
    · intro dataSize hphase
      cases hphase
      rfl

/-- An accepted result of `OnRecv` drops the bytes that it consumed, and `Clean` keeps
the rest. -/
theorem finishRecv (h : Delivers s) (hphase : s.phase = .inOnRecv dataSize)
    (processLen : Int32) (result : CallResult) :
    Delivers (s.finishRecv dataSize processLen result) := by
  rw [State.finishRecv]
  split
  · exact h.disconnect (by decide)
  · next haccept =>
      rw [not_or, Int32.not_lt, Int32.not_lt, h.inOnRecv dataSize hphase] at haccept
      obtain ⟨hnonneg, hle⟩ := haccept
      have hnonneg : 0 ≤ processLen.toInt := Int32.le_iff_toInt_le.mp hnonneg
      have hle := Int32.le_iff_toInt_le.mp hle
      obtain ⟨b, hread, hvalid, hwindow⟩ := h.valid.onRead hnonneg hle
      have hlength := h.valid.length_window
      rw [hread]
      apply registerRecv
      · exact hvalid.clean
      · change b.clean.window = s.received.drop (s.consumed + processLen.toInt.toNat)
        rw [hvalid.window_clean, hwindow, h.window, List.drop_drop]
      · change s.consumed + processLen.toInt.toNat ≤ s.received.length
        have hconsumed := h.consumed
        rw [h.window, List.length_drop] at hlength
        omega
      · exact h.accepted

theorem next {e : Event} (h : Delivers s) (hnext : s.next e = some s') : Delivers s' := by
  cases e with
  | connect result =>
      simp only [State.next] at hnext
      split at hnext <;> cases hnext
      exact registerRecv (s := { s with isConnected := true }) h.valid h.window h.consumed
        h.accepted result
  | recv bytes =>
      simp only [State.next] at hnext
      split at hnext
      · next wsaBuf hphase =>
          split at hnext
          · next hlen =>
              have hposted := h.posted wsaBuf hphase
              subst hposted
              have hfit : (bytes.length : ℤ) ≤ s.recvBuffer.freeSize.toInt := by
                have hfree := h.valid.toInt_freeSize
                have hbounded := h.valid.bounded
                rw [← Word.toNat_toUInt32 (by omega)]
                exact Int.ofNat_le.mpr hlen
              split at hnext <;> cases hnext
              · exact h.processRecv hfit
              · exact h.receive hfit (.inr rfl) _
          · cases hnext
      · cases hnext
  | onRecv processLen result =>
      simp only [State.next] at hnext
      split at hnext
      · next dataSize hphase =>
          cases hnext
          exact h.finishRecv hphase processLen result
      · cases hnext

end Delivers

section Reachable

variable {bufferSize : Int32} {s : State}

theorem reachable_delivers (hpos : 0 < bufferSize.toInt) (hfits : 10 * bufferSize.toInt < 2 ^ 31)
    (h : (system bufferSize).Reachable System.anyStep s) : Delivers s :=
  h.invariant (fun _ => Delivers.initial hpos hfits) fun _ _ _ hs _ hnext => hs.next hnext

/-- No completion of a posted receive is refused by `OnWrite`. -/
theorem onWrite_accepts (hpos : 0 < bufferSize.toInt) (hfits : 10 * bufferSize.toInt < 2 ^ 31)
    (h : (system bufferSize).Reachable System.anyStep s) : "OnWrite overflow" ∉ s.disconnects :=
  (reachable_delivers hpos hfits h).accepted

/-- The receive path delivers the byte stream exactly. The cursors stay in the buffer,
and at every call of `OnRecv` the window is the received stream without the bytes that
earlier results consumed. Neither needs that `Disconnect` was not called yet. -/
theorem recvStream_exact (hpos : 0 < bufferSize.toInt) (hfits : 10 * bufferSize.toInt < 2 ^ 31)
    (h : (system bufferSize).Reachable System.anyStep s) :
    (0 ≤ s.recvBuffer.readCursor ∧ s.recvBuffer.readCursor ≤ s.recvBuffer.writeCursor ∧
      s.recvBuffer.writeCursor ≤ s.recvBuffer.capacity) ∧
    ∀ dataSize, s.phase = .inOnRecv dataSize →
      s.consumed ≤ s.received.length ∧
      s.recvBuffer.window = s.received.drop s.consumed ∧
      dataSize.toInt = s.recvBuffer.window.length := by
  have hs := reachable_delivers hpos hfits h
  refine ⟨⟨?_, ?_, ?_⟩, fun dataSize hphase => ⟨hs.consumed, hs.window, ?_⟩⟩
  · exact Int32.le_iff_toInt_le.mpr hs.valid.nonneg
  · exact Int32.le_iff_toInt_le.mpr hs.valid.ordered
  · exact Int32.le_iff_toInt_le.mpr hs.valid.bounded
  · rw [hs.inOnRecv dataSize hphase, hs.valid.length_window]

/-- Ten bytes fill the buffer, seven are consumed, `Clean` moves the other three, and
two more arrive behind them. -/
def compactedRun : List Event :=
  [.connect ⟨true, wsaIoPending⟩, .recv [0, 1, 2, 3, 4, 5, 6, 7, 8, 9],
    .onRecv 7 ⟨true, wsaIoPending⟩, .recv [10, 11]]

/-- The last call of `OnRecv` sees the bytes on both sides of the compaction. -/
theorem recvStream_exact_compacted :
    ∃ b s, RecvBuffer.new 1 = some b ∧ (system 1).run compactedRun { recvBuffer := b } = some s ∧
      (0 ≤ s.recvBuffer.readCursor ∧ s.recvBuffer.readCursor ≤ s.recvBuffer.writeCursor ∧
        s.recvBuffer.writeCursor ≤ s.recvBuffer.capacity) ∧
      s.recvBuffer.window = [7, 8, 9, 10, 11] := by
  have hnew : RecvBuffer.new 1 = some ⟨10, 1, 0, 0, List.replicate 10 0⟩ := by decide
  have hany : ((system 1).run compactedRun ⟨⟨10, 1, 0, 0, List.replicate 10 0⟩, false, false,
      .idle, [], [], 0⟩).any (fun s => s.phase = .inOnRecv 5 ∧
        s.received.drop s.consumed = [7, 8, 9, 10, 11]) = true := by
    decide +kernel
  obtain ⟨s, hrun, hphase, hunread⟩ := System.exists_of_run hany
  have hinit : (system 1).init { recvBuffer := ⟨10, 1, 0, 0, List.replicate 10 0⟩ } :=
    ⟨_, hnew, rfl⟩
  have hreach := System.reachable_of_run hinit hrun
  obtain ⟨hbounds, hexact⟩ := recvStream_exact (by decide) (by decide) hreach
  exact ⟨_, s, hnew, hrun, hbounds, (hexact 5 hphase).2.1.trans hunread⟩

end Reachable

end Receive

end ServerCore
