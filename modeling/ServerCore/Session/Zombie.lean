import ServerCore.Session.Receive

/-!
# When a connected session is left alone

A connected session needs a receive that is outstanding or a disconnect that was
registered. The exits of `ProcessRecv` call `Disconnect`, whose body is empty, and a
rejected `WSARecv` is passed to `HandleError` or not noticed at all; so on each of them
the session stays connected with neither, unless content code registered a disconnect
itself. Content code may call `RegisterDisconnect` at any time.
-/

namespace ServerCore

namespace Zombie

open Interleaving Receive

structure State where
  session : Receive.State
  disconnectRegistered : Bool := false

/-- A step of the receive path, a completion of a send or of the disconnect, or a call
of `RegisterDisconnect` with the result of `DisconnectEx`. -/
inductive Event where
  | receive (e : Receive.Event)
  | processSend (bytesTransferred : Int32)
  | processDisconnect
  | registerDisconnect (result : CallResult)

namespace State

/-- The part of `ProcessSend` that concerns the session's connection. -/
def processSend (s : State) (bytesTransferred : Int32) : State :=
  if bytesTransferred = 0 then
    { s with session := { s.session with disconnects := s.session.disconnects ++ ["Send 0"] } }
  else s

/-- `RegisterDisconnect`. A disconnect is registered when its completion will be queued. -/
def registerDisconnect (s : State) (result : CallResult) : State :=
  { s with disconnectRegistered := s.disconnectRegistered || result.posted }

/-- `ProcessDisconnect` leaves the session connected. -/
def next (s : State) (e : Event) : Option State :=
  if s.session.phase = .crashed then none
  else
    match e with
    | .receive e => (s.session.next e).map fun session => { s with session }
    | .processSend bytesTransferred => some (s.processSend bytesTransferred)
    | .processDisconnect => if s.disconnectRegistered then some s else none
    | .registerDisconnect result => some (s.registerDisconnect result)

/-- A connected session outside its handlers has a receive outstanding or its disconnect
registered. -/
def Attended (s : State) : Prop :=
  s.session.isConnected = true → s.session.phase = .idle → s.disconnectRegistered = true

end State

def system (bufferSize : Int32) : System State Event where
  init s := ∃ session, (Receive.system bufferSize).init session ∧ s = { session }
  next := State.next

/-- The step does not drop the receive: `WSARecv` is posted, the completion has bytes
or crashes the process, and the result of `OnRecv` is accepted; or the disconnect is
registered already. -/
def Keeps (s : State) : Event → Prop
  | .receive (.connect result) => s.disconnectRegistered = true ∨ result.posted = true
  | .receive (.recv bytes) =>
      s.disconnectRegistered = true ∨ s.session.recvEventOwned = false ∨ bytes ≠ []
  | .receive (.onRecv processLen result) =>
      s.disconnectRegistered = true ∨
        (0 ≤ processLen ∧ processLen ≤ s.session.recvBuffer.dataSize ∧ result.posted = true)
  | _ => True

/-- What the receive path guarantees, and that its handlers run on a connected session. -/
structure Sound (s : State) : Prop where
  delivers : Delivers s.session
  connected : s.session.phase ≠ .idle → s.session.isConnected = true

section Exits

variable {s s' : Receive.State} {bytes : List UInt8} {processLen : Int32} {result : CallResult}

theorem registerRecv_phase (hconnected : s.isConnected = true) (r : CallResult) :
    (s.registerRecv r).isConnected = true ∧
      ((s.registerRecv r).phase = .idle ↔ ¬r.posted = true) := by
  rw [Receive.State.registerRecv, if_neg (by rw [hconnected]; exact Bool.true_eq_false.mp)]
  refine ⟨hconnected, ?_⟩
  by_cases hposted : r.posted = true
  · simp [hposted]
  · simp [hposted]

theorem connect_phase (hnext : s.next (.connect result) = some s') :
    s'.isConnected = true ∧ (s'.phase = .idle ↔ ¬result.posted = true) := by
  simp only [Receive.State.next] at hnext
  split at hnext <;> cases hnext
  exact registerRecv_phase rfl result

/-- A completion is refused only when it has no bytes. -/
theorem recv_phase (h : Delivers s) (hnext : s.next (.recv bytes) = some s') :
    s'.isConnected = s.isConnected ∧ s.phase ≠ .idle ∧
      (s'.phase = .idle ↔ ¬(s.recvEventOwned = false ∨ bytes ≠ [])) := by
  simp only [Receive.State.next] at hnext
  split at hnext
  next wsaBuf hphase =>
    split at hnext
    next hlen =>
      have hposted := h.posted wsaBuf hphase
      subst hposted
      have hfree := h.valid.toInt_freeSize
      have hbounded := h.valid.bounded
      have hfit : (bytes.length : ℤ) ≤ s.recvBuffer.freeSize.toInt := by
        rw [← Word.toNat_toUInt32 (by omega)]
        exact Int.ofNat_le.mpr hlen
      have hbusy : s.phase ≠ .idle := by
        rw [hphase]
        exact Phase.noConfusion
      split at hnext
      next howned =>
        cases hnext
        obtain ⟨b, hwrite, -, -⟩ := h.valid.onWrite_receive hfit
        have hzero : Int32.ofNat bytes.length = 0 ↔ bytes = [] := by
          rw [← List.length_eq_zero_iff]
          have hlt := Int32.toInt_lt s.recvBuffer.freeSize
          exact ⟨fun heq => Word.ofNat_inj (by omega) (by omega) heq, fun heq => by rw [heq]; rfl⟩
        simp only [Receive.State.processRecv, hwrite]
        split
        next hempty =>
          refine ⟨rfl, hbusy, ?_⟩
          simp [Receive.State.disconnect, howned, hzero.mp hempty]
        next hsome =>
          refine ⟨rfl, hbusy, ?_⟩
          have hbytes : bytes ≠ [] := fun heq => hsome (hzero.mpr heq)
          simp [howned, hbytes]
      next howned =>
        cases hnext
        refine ⟨rfl, hbusy, ?_⟩
        simp [howned]
    next => cases hnext
  next => cases hnext

/-- A result of `OnRecv` between 0 and the size of the data is accepted. -/
theorem onRecv_phase (h : Delivers s) (hconnected : s.phase ≠ .idle → s.isConnected = true)
    (hnext : s.next (.onRecv processLen result) = some s') :
    s'.isConnected = s.isConnected ∧ s.phase ≠ .idle ∧
      (s'.phase = .idle ↔ ¬(0 ≤ processLen ∧ processLen ≤ s.recvBuffer.dataSize ∧
        result.posted = true)) := by
  simp only [Receive.State.next] at hnext
  split at hnext
  next dataSize hphase =>
    cases hnext
    have hsize := h.inOnRecv dataSize hphase
    subst hsize
    have hbusy : s.phase ≠ .idle := by
      rw [hphase]
      exact Phase.noConfusion
    rw [Receive.State.finishRecv]
    split
    next hrejected =>
      refine ⟨rfl, hbusy, iff_of_true rfl ?_⟩
      rintro ⟨hnonneg, hle, -⟩
      rcases hrejected with hrejected | hrejected
      · exact Int32.not_lt.mpr hnonneg hrejected
      · exact Int32.not_lt.mpr hle hrejected
    next haccepted =>
      rw [not_or, Int32.not_lt, Int32.not_lt] at haccepted
      have hread : s.recvBuffer.onRead processLen =
          some { s.recvBuffer with readCursor := s.recvBuffer.readCursor + processLen } :=
        if_neg (Int32.not_lt.mpr haccepted.2)
      rw [hread]
      have hconnected' := hconnected hbusy
      obtain ⟨hkept, hphase'⟩ := registerRecv_phase (s := { s with
        recvBuffer := RecvBuffer.clean
          { s.recvBuffer with readCursor := s.recvBuffer.readCursor + processLen }
        consumed := s.consumed + processLen.toInt.toNat }) hconnected' result
      refine ⟨hkept.trans hconnected'.symm, hbusy, ?_⟩
      rw [hphase']
      simp [haccepted.1, haccepted.2]
  next => cases hnext

end Exits

section Runs

variable {s s' : State} {e : Event}

omit s' e in
theorem attended_iff {session : Receive.State} {kept : Prop} (hconnected : session.isConnected = true)
    (hphase : session.phase = .idle ↔ ¬kept) :
    ({ s with session } : State).Attended ↔ s.disconnectRegistered = true ∨ kept := by
  constructor
  · intro hattended
    by_cases hkept : kept
    · exact .inr hkept
    · exact .inl (hattended hconnected (hphase.mpr hkept))
  · rintro (hregistered | hkept) _ hidle
    · exact hregistered
    · exact absurd hkept (hphase.mp hidle)

/-- The condition says exactly that the step leaves the session attended. -/
theorem attended_iff_keeps (h : Sound s) (attended : s.Attended)
    (hnext : s.next e = some s') : Sound s' ∧ (s'.Attended ↔ Keeps s e) := by
  unfold State.next at hnext
  split at hnext
  · cases hnext
  cases e with
  | processSend bytesTransferred =>
      cases hnext
      unfold State.processSend
      split
      · refine ⟨⟨?_, h.connected⟩, iff_of_true attended trivial⟩
        refine ⟨h.delivers.valid, h.delivers.window, h.delivers.consumed, ?_, h.delivers.posted,
          h.delivers.inOnRecv⟩
        intro hmem
        obtain hmem | hmem := List.mem_append.mp hmem
        · exact h.delivers.accepted hmem
        · exact absurd (List.mem_singleton.mp hmem) (by decide)
      · exact ⟨h, iff_of_true attended trivial⟩
  | processDisconnect =>
      simp only at hnext
      split at hnext <;> cases hnext
      exact ⟨h, iff_of_true attended trivial⟩
  | registerDisconnect result =>
      cases hnext
      refine ⟨⟨h.delivers, h.connected⟩, iff_of_true (fun hconnected hidle => ?_) trivial⟩
      exact Bool.or_eq_true_iff.mpr (.inl (attended hconnected hidle))
  | receive e =>
      obtain ⟨session, hsession, rfl⟩ := Option.map_eq_some_iff.mp hnext
      have hdelivers := h.delivers.next hsession
      cases e with
      | connect result =>
          obtain ⟨hconnected, hphase⟩ := connect_phase hsession
          exact ⟨⟨hdelivers, fun _ => hconnected⟩, attended_iff hconnected hphase⟩
      | recv bytes =>
          obtain ⟨hsame, hbusy, hphase⟩ := recv_phase h.delivers hsession
          have hconnected := hsame.trans (h.connected hbusy)
          exact ⟨⟨hdelivers, fun _ => hconnected⟩, attended_iff hconnected hphase⟩
      | onRecv processLen result =>
          obtain ⟨hsame, hbusy, hphase⟩ := onRecv_phase h.delivers h.connected hsession
          have hconnected := hsame.trans (h.connected hbusy)
          exact ⟨⟨hdelivers, fun _ => hconnected⟩, attended_iff hconnected hphase⟩

/-- In a run of a session, it is attended in every state exactly when no step drops the
receive. -/
theorem session_attended_iff {bufferSize : Int32} (hs : (system bufferSize).init s)
    (es : List Event) :
    (system bufferSize).Throughout State.Attended es s ↔
      (system bufferSize).Along Keeps es s := by
  have hstart : Sound s ∧ s.Attended := by
    obtain ⟨session, hinit, rfl⟩ := hs
    have hdelivers := Delivers.start hinit
    obtain ⟨recvBuffer, -, rfl⟩ := hinit
    refine ⟨⟨hdelivers, fun hbusy => absurd rfl hbusy⟩, fun hconnected => ?_⟩
    cases hconnected
  refine System.throughout_iff_along (I := fun s => Sound s ∧ s.Attended) (fun s hs => hs.2) ?_ ?_
    es hstart
  · intro s e s' hs hkeeps hnext
    obtain ⟨hsound, hiff⟩ := attended_iff_keeps hs.1 hs.2 hnext
    exact ⟨hsound, hiff.mpr hkeeps⟩
  · intro s e s' hs hnext hattended
    exact (attended_iff_keeps hs.1 hs.2 hnext).2.mp hattended

/-- The session with an empty buffer of `bufferSize` 1. -/
def idleSession : State := { session := { recvBuffer := ⟨10, 1, 0, 0, List.replicate 10 0⟩ } }

theorem idleSession_init : (system 1).init idleSession :=
  ⟨_, ⟨_, by decide, rfl⟩, rfl⟩

def closedEvents : List Event := [.receive (.connect ⟨true, wsaIoPending⟩), .receive (.recv [])]

/-- The peer closes: the completion has no bytes. -/
theorem session_attended_iff_closed :
    (system 1).Throughout State.Attended closedEvents idleSession ↔
      (system 1).Along Keeps closedEvents idleSession :=
  session_attended_iff idleSession_init closedEvents

/-- After the completion without bytes the session is connected and nothing is under way. -/
theorem session_zombie :
    ¬∀ (bufferSize : Int32) (s : State), (system bufferSize).Reachable System.anyStep s →
      s.Attended := by
  intro hall
  have hany : ((system 1).run closedEvents idleSession).any (fun s => decide
      (s.session.isConnected = true ∧ s.session.phase = .idle ∧
        s.disconnectRegistered = false)) = true := by
    decide +kernel
  obtain ⟨s, hrun, hconnected, hidle, hnone⟩ := System.exists_of_run hany
  have hregistered := hall 1 s (System.reachable_of_run idleSession_init hrun) hconnected hidle
  rw [hnone] at hregistered
  cases hregistered

end Runs

end Zombie

end ServerCore
