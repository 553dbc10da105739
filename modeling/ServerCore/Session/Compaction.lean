import ServerCore.Session.Receive

/-!
# What `Clean` leaves for the next receive

After an accepted result of `OnRecv`, `ProcessRecv` calls `Clean` and posts the free
part of the buffer. `Clean` moves the unread bytes to the front by `memcpy` when fewer
than `bufferSize` bytes are free. The ranges of that copy overlap as soon as more bytes
are unread than were consumed in front of them, and no byte is free behind the unread
ones when they fill the buffer.

Both depend on how much content code leaves unread. `copies` records the calls of
`memcpy`, and `windows` the buffer at every `RegisterRecv` that `ProcessRecv` reaches.
No step reads them.
-/

namespace ServerCore

open Region

/-- The destination, the source and the number of bytes of a call of `memcpy`. -/
structure Copy where
  dst : ℕ
  src : ℕ
  size : ℕ
  deriving DecidableEq, Repr

/-- The two ranges have no byte in common. -/
def Copy.Disjoint (c : Copy) : Prop := c.dst + c.size ≤ c.src ∨ c.src + c.size ≤ c.dst

instance (c : Copy) : Decidable c.Disjoint := inferInstanceAs (Decidable (_ ∨ _))

namespace RecvBuffer

variable {b : RecvBuffer}

/-- The call of `memcpy` in `Clean`, if it is made. -/
def cleanCopy (b : RecvBuffer) : Option Copy :=
  if b.dataSize = 0 then none
  else if b.freeSize < b.bufferSize then some ⟨0, b.readIndex, b.dataSize.toInt.toNat⟩
  else none

/-- The buffer changes by that call only. -/
theorem clean_buffer (b : RecvBuffer) : b.clean.buffer =
    match b.cleanCopy with
    | none => b.buffer
    | some c => store b.buffer c.dst (slice b.buffer c.src (c.src + c.size)) := by
  rw [clean, cleanCopy]
  split
  · rfl
  · split <;> rfl

/-- What `RegisterRecv` posts is not empty and lies in the buffer. -/
def Room (b : RecvBuffer) : Prop :=
  0 < b.freeSize ∧ b.writeIndex < b.buffer.length ∧
    b.writeCursor.toInt + b.freeSize.toInt = b.capacity.toInt

/-- The copy is made when bytes are unread and fewer than `bufferSize` are free, and it
needs as many bytes in front of the unread ones as there are unread. -/
theorem Valid.cleanCopy_disjoint_iff (h : b.Valid) :
    (∀ c, b.cleanCopy = some c → c.Disjoint) ↔
      (b.dataSize.toInt = 0 ∨ b.bufferSize.toInt ≤ b.freeSize.toInt ∨
        b.dataSize.toInt ≤ b.readCursor.toInt) := by
  have hdata := h.toInt_dataSize
  have hnonneg := h.nonneg
  have hordered := h.ordered
  have hzero : b.dataSize = 0 ↔ b.dataSize.toInt = 0 := by
    rw [← Int32.toInt_inj]
    rfl
  rw [cleanCopy]
  by_cases hempty : b.dataSize = 0
  · rw [if_pos hempty]
    exact iff_of_true nofun (.inl (hzero.mp hempty))
  · rw [if_neg hempty]
    by_cases hroom : b.freeSize < b.bufferSize
    · rw [if_pos hroom]
      rw [Int32.lt_iff_toInt_lt] at hroom
      rw [hzero] at hempty
      constructor
      · intro hall
        have hdisjoint := hall _ rfl
        simp only [Copy.Disjoint, readIndex] at hdisjoint
        omega
      · rintro hcondition c ⟨⟩
        simp only [Copy.Disjoint, readIndex]
        omega
    · rw [if_neg hroom]
      rw [Int32.lt_iff_toInt_lt] at hroom
      exact iff_of_true nofun (.inr (.inl (by omega)))

theorem Valid.room_iff (h : b.Valid) : b.Room ↔ b.writeCursor.toInt < b.capacity.toInt := by
  have hfree := h.toInt_freeSize
  have hnonneg := h.nonneg
  have hordered := h.ordered
  have hallocated := h.allocated
  have hpos : 0 < b.freeSize ↔ 0 < b.freeSize.toInt := Int32.lt_iff_toInt_lt
  rw [Room, hpos, hfree, writeIndex]
  omega

/-- `Clean` makes room exactly when the unread bytes do not fill the buffer and, where
`bufferSize` is not positive and nothing is moved, do not end at its end. -/
theorem Valid.room_clean_iff (h : b.Valid) :
    b.clean.Room ↔ b.dataSize.toInt < b.capacity.toInt ∧
      (0 < b.bufferSize.toInt ∨ b.dataSize.toInt = 0 ∨ b.writeCursor.toInt < b.capacity.toInt) := by
  rw [h.clean.room_iff]
  have hdata := h.toInt_dataSize
  have hfree := h.toInt_freeSize
  have hnonneg := h.nonneg
  have hordered := h.ordered
  have hbounded := h.bounded
  rw [RecvBuffer.clean]
  split
  · next hempty =>
      have hzero : b.dataSize.toInt = 0 := by
        rw [hempty]
        rfl
      change 0 < b.capacity.toInt ↔ _
      omega
  · next hsome =>
      have hne : b.dataSize.toInt ≠ 0 := fun heq => hsome (Int32.toInt_inj.mp heq)
      split
      · next hfull =>
          rw [Int32.lt_iff_toInt_lt] at hfull
          change b.dataSize.toInt < b.capacity.toInt ↔ _
          omega
      · next hleft =>
          rw [Int32.lt_iff_toInt_lt] at hleft
          omega

end RecvBuffer

namespace Compaction

open Interleaving Receive

structure State where
  session : Receive.State
  copies : List Copy := []
  windows : List RecvBuffer := []

/-- The buffer on which `ProcessRecv` calls `Clean`, after an accepted result of `OnRecv`. -/
def cleaned (session : Receive.State) : Receive.Event → Option RecvBuffer
  | .onRecv processLen _ =>
      match session.phase with
      | .inOnRecv dataSize =>
          if processLen < 0 ∨ dataSize < processLen then none
          else session.recvBuffer.onRead processLen
      | _ => none
  | _ => none

def State.next (s : State) (e : Receive.Event) : Option State :=
  (s.session.next e).map fun session =>
    { session
      copies := s.copies ++ ((cleaned s.session e).bind RecvBuffer.cleanCopy).toList
      windows := s.windows ++ ((cleaned s.session e).map RecvBuffer.clean).toList }

def system (bufferSize : Int32) : System State Receive.Event where
  init s := ∃ session, (Receive.system bufferSize).init session ∧ s = { session }
  next := State.next

/-- `memcpy` was never called on ranges that overlap. -/
def State.CopiesDisjoint (s : State) : Prop := ∀ c ∈ s.copies, c.Disjoint

/-- Whatever `ProcessRecv` handed to `RegisterRecv` had room. -/
def State.WindowsRoom (s : State) : Prop := ∀ b ∈ s.windows, b.Room

/-- The bytes that are unread once the result of `OnRecv` is accepted. -/
def unread (s : State) (processLen : Int32) : ℤ :=
  s.session.recvBuffer.dataSize.toInt - processLen.toInt

/-- `OnRecv` returns a length that `ProcessRecv` accepts. -/
def ValidResult (s : State) : Receive.Event → Prop
  | .onRecv processLen _ => 0 ≤ processLen ∧ processLen ≤ s.session.recvBuffer.dataSize
  | _ => True

instance (s : State) : ∀ e, Decidable (ValidResult s e)
  | .connect _ => inferInstanceAs (Decidable True)
  | .recv _ => inferInstanceAs (Decidable True)
  | .onRecv _ _ => inferInstanceAs (Decidable (_ ∧ _))

/-- The result of `OnRecv` is refused, or it leaves nothing, or `bufferSize` bytes are
free, or at least half of the bytes up to `writeCursor` are consumed. -/
def LeavesHalf (s : State) : Receive.Event → Prop
  | .onRecv processLen _ =>
      0 ≤ processLen → processLen ≤ s.session.recvBuffer.dataSize →
        unread s processLen = 0 ∨
        s.session.recvBuffer.bufferSize.toInt ≤ s.session.recvBuffer.freeSize.toInt ∨
        2 * unread s processLen ≤ s.session.recvBuffer.writeCursor.toInt
  | _ => True

/-- The result of `OnRecv` is refused, or it leaves less than the whole buffer. The rest
concerns a `bufferSize` that is not positive, with which `Clean` never moves anything. -/
def LeavesRoom (s : State) : Receive.Event → Prop
  | .onRecv processLen _ =>
      0 ≤ processLen → processLen ≤ s.session.recvBuffer.dataSize →
        unread s processLen < s.session.recvBuffer.capacity.toInt ∧
        (0 < s.session.recvBuffer.bufferSize.toInt ∨ unread s processLen = 0 ∨
          s.session.recvBuffer.writeCursor.toInt < s.session.recvBuffer.capacity.toInt)
  | _ => True

section Steps

variable {session session' : Receive.State} {e : Receive.Event} {processLen : Int32}
  {result : CallResult}

/-- `Clean` is called after an accepted result only, on the buffer without the bytes that
were consumed. -/
theorem cleaned_cases (h : Delivers session)
    (hnext : session.next (.onRecv processLen result) = some session') :
    (¬(0 ≤ processLen ∧ processLen ≤ session.recvBuffer.dataSize) ∧
      cleaned session (.onRecv processLen result) = none) ∨
    ((0 ≤ processLen ∧ processLen ≤ session.recvBuffer.dataSize) ∧
      ∃ readCursor b, b = { session.recvBuffer with readCursor } ∧ b.Valid ∧
        cleaned session (.onRecv processLen result) = some b ∧
        b.dataSize.toInt = session.recvBuffer.dataSize.toInt - processLen.toInt) := by
  simp only [Receive.State.next] at hnext
  split at hnext
  next dataSize hphase =>
    have hsize := h.inOnRecv dataSize hphase
    subst hsize
    simp only [cleaned, hphase]
    by_cases hrefused : processLen < 0 ∨ session.recvBuffer.dataSize < processLen
    · rw [if_pos hrefused]
      refine .inl ⟨?_, rfl⟩
      rintro ⟨hnonneg, hle⟩
      obtain hneg | hlt := hrefused
      · exact Int32.not_lt.mpr hnonneg hneg
      · exact Int32.not_lt.mpr hle hlt
    · rw [if_neg hrefused]
      rw [not_or, Int32.not_lt, Int32.not_lt] at hrefused
      have hnonneg : 0 ≤ processLen.toInt := Int32.le_iff_toInt_le.mp hrefused.1
      have hle := Int32.le_iff_toInt_le.mp hrefused.2
      obtain ⟨b, hread, hvalid, hwindow⟩ := h.valid.onRead hnonneg hle
      have hlength := hvalid.length_window
      have hbefore := h.valid.length_window
      rw [hwindow, List.length_drop] at hlength
      refine .inr ⟨hrefused, b.readCursor, b, ?_, hvalid, hread, by omega⟩
      rw [RecvBuffer.onRead, if_neg (Int32.not_lt.mpr hrefused.2)] at hread
      cases hread
      rfl
  next => cases hnext

/-- What holds of a record holds of the longer one exactly if it holds of the new part. -/
theorem forall_mem_append_iff {α : Type} {P : α → Prop} {old new : List α}
    (h : ∀ x ∈ old, P x) : (∀ x ∈ old ++ new, P x) ↔ ∀ x ∈ new, P x := by
  rw [List.forall_mem_append]
  exact and_iff_right h

variable {s s' : State}

/-- The condition says exactly that the ranges of the next copy are disjoint. -/
theorem copiesDisjoint_iff (h : Delivers s.session) (disjoint : s.CopiesDisjoint)
    (hnext : s.next e = some s') : s'.CopiesDisjoint ↔ LeavesHalf s e := by
  obtain ⟨session', hsession, rfl⟩ := Option.map_eq_some_iff.mp hnext
  rw [State.CopiesDisjoint, forall_mem_append_iff disjoint]
  cases e with
  | connect | recv => exact iff_of_true nofun trivial
  | onRecv processLen result =>
      obtain ⟨hrefused, hnone⟩ | ⟨haccepted, readCursor, b, rfl, hvalid, hb, hunread⟩ :=
        cleaned_cases h hsession
      · rw [hnone]
        exact iff_of_true nofun fun hnonneg hle => absurd ⟨hnonneg, hle⟩ hrefused
      · have hdata := hvalid.toInt_dataSize
        rw [hb, Option.bind_some]
        simp only [Option.mem_toList]
        rw [hvalid.cleanCopy_disjoint_iff]
        change _ ↔ (0 ≤ processLen → processLen ≤ s.session.recvBuffer.dataSize →
          s.session.recvBuffer.dataSize.toInt - processLen.toInt = 0 ∨
          s.session.recvBuffer.bufferSize.toInt ≤ s.session.recvBuffer.freeSize.toInt ∨
          2 * (s.session.recvBuffer.dataSize.toInt - processLen.toInt) ≤
            s.session.recvBuffer.writeCursor.toInt)
        rw [← hunread, forall_prop_of_true haccepted.1, forall_prop_of_true haccepted.2]
        apply or_congr_right
        apply or_congr_right
        change _ ≤ readCursor.toInt ↔ _
        change _ = s.session.recvBuffer.writeCursor.toInt - readCursor.toInt at hdata
        omega

/-- The condition says exactly that the next window has room. -/
theorem windowsRoom_iff (h : Delivers s.session) (room : s.WindowsRoom)
    (hnext : s.next e = some s') : s'.WindowsRoom ↔ LeavesRoom s e := by
  obtain ⟨session', hsession, rfl⟩ := Option.map_eq_some_iff.mp hnext
  rw [State.WindowsRoom, forall_mem_append_iff room]
  cases e with
  | connect | recv => exact iff_of_true nofun trivial
  | onRecv processLen result =>
      obtain ⟨hrefused, hnone⟩ | ⟨haccepted, readCursor, b, rfl, hvalid, hb, hunread⟩ :=
        cleaned_cases h hsession
      · rw [hnone]
        exact iff_of_true nofun fun hnonneg hle => absurd ⟨hnonneg, hle⟩ hrefused
      · rw [hb, Option.map_some, Option.toList_some, List.forall_mem_singleton,
          hvalid.room_clean_iff, hunread]
        change _ ↔ (0 ≤ processLen → processLen ≤ s.session.recvBuffer.dataSize → _)
        rw [forall_prop_of_true haccepted.1, forall_prop_of_true haccepted.2]
        rfl

end Steps

section Runs

variable {bufferSize : Int32} {s : State}

theorem delivers_initial (hs : (system bufferSize).init s) :
    Delivers s.session ∧ s.CopiesDisjoint ∧ s.WindowsRoom := by
  obtain ⟨session, hinit, rfl⟩ := hs
  exact ⟨Delivers.start hinit, nofun, nofun⟩

theorem delivers_next {s' : State} {e : Receive.Event} (h : Delivers s.session)
    (hnext : s.next e = some s') : Delivers s'.session := by
  obtain ⟨session', hsession, rfl⟩ := Option.map_eq_some_iff.mp hnext
  exact h.next hsession

/-- In a run of the receive path, `Clean` copies between disjoint ranges exactly when no
accepted result of `OnRecv` leaves more than half of the bytes up to `writeCursor` while
fewer than `bufferSize` bytes are free. -/
theorem compaction_disjoint_iff (hs : (system bufferSize).init s) (es : List Receive.Event) :
    (system bufferSize).Throughout State.CopiesDisjoint es s ↔
      (system bufferSize).Along LeavesHalf es s := by
  obtain ⟨hdelivers, hdisjoint, -⟩ := delivers_initial hs
  refine System.throughout_iff_along (I := fun s : State => Delivers s.session ∧ s.CopiesDisjoint)
    (fun s hs => hs.2) ?_ ?_ es ⟨hdelivers, hdisjoint⟩
  · intro s e s' hs hok hnext
    exact ⟨delivers_next hs.1 hnext, (copiesDisjoint_iff hs.1 hs.2 hnext).mpr hok⟩
  · intro s e s' hs hnext hafter
    exact (copiesDisjoint_iff hs.1 hs.2 hnext).mp hafter

/-- In a run of the receive path, every receive that `ProcessRecv` posts has room exactly
when no accepted result of `OnRecv` leaves the whole buffer unread. -/
theorem postedReceive_room_iff (hs : (system bufferSize).init s) (es : List Receive.Event) :
    (system bufferSize).Throughout State.WindowsRoom es s ↔
      (system bufferSize).Along LeavesRoom es s := by
  obtain ⟨hdelivers, -, hroom⟩ := delivers_initial hs
  refine System.throughout_iff_along (I := fun s : State => Delivers s.session ∧ s.WindowsRoom)
    (fun s hs => hs.2) ?_ ?_ es ⟨hdelivers, hroom⟩
  · intro s e s' hs hok hnext
    exact ⟨delivers_next hs.1 hnext, (windowsRoom_iff hs.1 hs.2 hnext).mpr hok⟩
  · intro s e s' hs hnext hafter
    exact (windowsRoom_iff hs.1 hs.2 hnext).mp hafter

/-- The session with an empty buffer of `bufferSize` 1. -/
def idleSession : State := { session := { recvBuffer := ⟨10, 1, 0, 0, List.replicate 10 0⟩ } }

theorem idleSession_init : (system 1).init idleSession :=
  ⟨_, ⟨_, by decide, rfl⟩, rfl⟩

/-- Ten bytes fill the buffer, and `OnRecv` consumes `processLen` of them. -/
def fullEvents (processLen : Int32) : List Receive.Event :=
  [.connect ⟨true, wsaIoPending⟩, .recv [0, 1, 2, 3, 4, 5, 6, 7, 8, 9],
    .onRecv processLen ⟨true, wsaIoPending⟩]

theorem compaction_disjoint_iff_partial :
    (system 1).Throughout State.CopiesDisjoint (fullEvents 3) idleSession ↔
      (system 1).Along LeavesHalf (fullEvents 3) idleSession :=
  compaction_disjoint_iff idleSession_init (fullEvents 3)

theorem postedReceive_room_iff_full :
    (system 1).Throughout State.WindowsRoom (fullEvents 0) idleSession ↔
      (system 1).Along LeavesRoom (fullEvents 0) idleSession :=
  postedReceive_room_iff idleSession_init (fullEvents 0)

/-- Three of ten bytes are consumed: the seven others are copied from index 3 to index 0. -/
theorem compaction_overlaps :
    ¬∀ (bufferSize : Int32) (s : State), 0 < bufferSize →
      (system bufferSize).Reachable ValidResult s → s.CopiesDisjoint := by
  intro hall
  have hany : ((system 1).run (fullEvents 3) idleSession).any
      (fun s => decide (⟨0, 3, 7⟩ ∈ s.copies)) = true := by
    decide +kernel
  obtain ⟨s, hrun, hcopy⟩ := System.exists_of_run hany
  have hvalid : (system 1).Along ValidResult (fullEvents 3) idleSession :=
    System.along_of_check (by decide +kernel)
  have hreach := (System.Reachable.start idleSession_init).run hvalid hrun
  exact absurd (hall 1 s (by decide) hreach _ hcopy) (by decide)

/-- Nothing is consumed: the receive is posted behind the last byte, with length 0. -/
theorem postedReceive_empty :
    ¬∀ (bufferSize : Int32) (s : State),
      (system bufferSize).Reachable System.anyStep s → s.WindowsRoom := by
  intro hall
  have hany : ((system 1).run (fullEvents 0) idleSession).any
      (fun s => decide (⟨10, 1, 0, 10, [0, 1, 2, 3, 4, 5, 6, 7, 8, 9]⟩ ∈ s.windows ∧
        s.session.phase = .posted ⟨10, 0⟩)) = true := by
    decide +kernel
  obtain ⟨s, hrun, hwindow, -⟩ := System.exists_of_run hany
  have hroom := hall 1 s (System.reachable_of_run idleSession_init hrun) _ hwindow
  exact absurd hroom.1 (by decide)

end Runs

end Compaction

end ServerCore
