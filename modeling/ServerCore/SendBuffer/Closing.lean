import ServerCore.SendBuffer.Ranges

/-!
# Opening and closing a buffer

`Open` makes its buffer at `usedSize`, in room that it has tested for. `Close` gives up
`isOpened` in one step and moves `usedSize` past what was written in another; between the
two its buffer is still the only one of the chunk that is not closed.
-/

namespace ServerCore

namespace SendBufferManager

variable {Tid : Type} [DecidableEq Tid] {s s' : State Tid} {t : Tid} {c i : ℕ}

namespace State

/-- What the new program counter has in common with the old one is the same for all. -/
theorem setPc_congr (s : State Tid) {α : Type} (f : Pc → α) {t : Tid} {pc : Pc}
    (h : f pc = f (s.threads t)) (u : Tid) : f ((s.setPc t pc).threads u) = f (s.threads u) := by
  obtain rfl | hne := eq_or_ne u t
  · rw [setPc_self, h]
  · rw [setPc_of_ne _ hne]

omit [DecidableEq Tid] in
/-- The stores of `isOpened` leave `usedSize` alone. -/
theorem setOpened_usedSize (s : State Tid) (c : ℕ) (isOpened : Bool) (d : ℕ) :
    ((s.setChunk c { s.chunks c with isOpened }).chunks d).usedSize = (s.chunks d).usedSize := by
  apply s.setChunk_congr SendBufferChunk.usedSize (c := c)
  rfl

variable {x : SendBuffer} {writeSize : UInt32}

theorem closeUsed_usedSize : ((s.closeUsed t i x writeSize).chunks x.ownerChunk).usedSize =
    (s.chunks x.ownerChunk).usedSize + writeSize := by
  change (Function.update s.chunks x.ownerChunk _ x.ownerChunk).usedSize = _
  rw [Function.update_self]

theorem closeUsed_of_ne {d : ℕ} (hne : d ≠ x.ownerChunk) :
    (s.closeUsed t i x writeSize).chunks d = s.chunks d := Function.update_of_ne hne ..

theorem closeUsed_isOpened (d : ℕ) :
    ((s.closeUsed t i x writeSize).chunks d).isOpened = (s.chunks d).isOpened := by
  apply s.setChunk_congr SendBufferChunk.isOpened (c := x.ownerChunk)
  rfl

/-- A live buffer after the second store is the closed one, or was live before. -/
theorem closeUsed_cases {j : ℕ} {y : SendBuffer}
    (h : (s.closeUsed t i x writeSize).sendBuffers j = some y) :
    (j = i ∧ y = { x with status := .closed, references := x.references + 1 }) ∨
      (j ≠ i ∧ s.sendBuffers j = some y) := by
  obtain ⟨hj, hafter⟩ | hold := setSendBuffer_cases h
  · exact .inl ⟨hj, (Option.some.inj hafter).symm⟩
  · exact .inr hold

/-- A thread that is inside a call after the second store was so before. -/
theorem closeUsed_busy (P : Pc → Prop) {u : Tid}
    (h : P ((s.closeUsed t i x writeSize).threads u)) (hidle : ¬P .idle) :
    u ≠ t ∧ P (s.threads u) := by
  obtain ⟨-, hidle'⟩ | hold := setPc_cases P h
  · exact absurd hidle' hidle
  · exact hold

end State

/-- Where the live buffers of each chunk lie. -/
structure Laid (s : State Tid) : Prop where
  closed : ∀ i x, s.sendBuffers i = some x → x.status = .closed →
    x.buffer + x.writeSize.toNat ≤ (s.chunks x.ownerChunk).usedSize.toNat
  unsettled : ∀ i x, s.sendBuffers i = some x → x.status ≠ .closed →
    x.buffer = (s.chunks x.ownerChunk).usedSize.toNat ∧ x.buffer + x.allocSize.toNat ≤ 0x2000
  once : ∀ i j x y, s.sendBuffers i = some x → s.sendBuffers j = some y →
    x.ownerChunk = y.ownerChunk → x.status ≠ .closed → y.status ≠ .closed → i = j
  apart : ∀ i j x y, i ≠ j → s.sendBuffers i = some x → s.sendBuffers j = some y →
    x.ownerChunk = y.ownerChunk → x.status = .closed → y.status = .closed →
      x.buffer + x.writeSize.toNat ≤ y.buffer ∨ y.buffer + y.writeSize.toNat ≤ x.buffer

/-- Which buffers are being closed, and by which threads. -/
structure Closers (s : State Tid) : Prop where
  closing : ∀ t i w, (s.threads t).closing = some (i, w) →
    ∃ x, s.sendBuffers i = some x ∧ x.status = .closing ∧ x.writeSize = w ∧ w ≤ x.allocSize
  closer : ∀ t u i w w', (s.threads t).closing = some (i, w) →
    (s.threads u).closing = some (i, w') → t = u
  isClosing : ∀ i x, s.sendBuffers i = some x → x.status = .closing →
    ∃ t w, (s.threads t).closing = some (i, w)

namespace Settled

omit [DecidableEq Tid] in
/-- A buffer that is not closed, with all the others of its chunk closed, begins where the
chunk's used bytes end. -/
theorem setUnclosed (h : Settled s) {x : SendBuffer} (unclosed : x.status ≠ .closed)
    (place : x.buffer = (s.chunks x.ownerChunk).usedSize.toNat ∧
      x.buffer + x.allocSize.toNat ≤ 0x2000)
    (others : ∀ j y, j ≠ i → s.sendBuffers j = some y → y.ownerChunk = x.ownerChunk →
      y.status = .closed) : Laid (s.setSendBuffer i (some x)) := by
  constructor
  case closed =>
    intro j y hy hstatus
    obtain ⟨-, ⟨⟩⟩ | ⟨-, hy⟩ := State.setSendBuffer_cases hy
    · exact absurd hstatus unclosed
    · exact h.closed j y hy hstatus
  case unsettled =>
    intro j y hy hstatus
    obtain ⟨-, ⟨⟩⟩ | ⟨-, hy⟩ := State.setSendBuffer_cases hy
    · exact place
    · exact h.unsettled j y hy hstatus
  case once =>
    intro j k y z hy hz hsame hy' hz'
    obtain ⟨rfl, ⟨⟩⟩ | ⟨hj, hyold⟩ := State.setSendBuffer_cases hy
    · obtain ⟨rfl, -⟩ | ⟨hk, hzold⟩ := State.setSendBuffer_cases hz
      · rfl
      · exact absurd (others k z hk hzold hsame.symm) hz'
    · obtain ⟨rfl, ⟨⟩⟩ | ⟨-, hzold⟩ := State.setSendBuffer_cases hz
      · exact absurd (others j y hj hyold hsame) hy'
      · exact h.once j k y z hyold hzold hsame hy' hz'
  case apart =>
    intro j k y z hne hy hz hsame hy' hz'
    obtain ⟨-, ⟨⟩⟩ | ⟨-, hy⟩ := State.setSendBuffer_cases hy
    · exact absurd hy' unclosed
    · obtain ⟨-, ⟨⟩⟩ | ⟨-, hz⟩ := State.setSendBuffer_cases hz
      · exact absurd hz' unclosed
      · exact h.apart j k y z hne hy hz hsame hy' hz'

section Close

variable (h : Settled s) {x : SendBuffer} {writeSize : UInt32} {references : ℕ}
  (live : s.sendBuffers i = some x) (opened : x.status = .opened)

include h live opened

omit [DecidableEq Tid] in
/-- Nobody is closing a buffer that is open. -/
theorem not_closing (u : Tid) (w : UInt32) : (s.threads u).closing ≠ some (i, w) := by
  intro hu
  obtain ⟨y, hy, hclosing, -⟩ := h.closing u i w hu
  rw [live] at hy
  cases hy
  rw [opened] at hclosing
  cases hclosing

omit [DecidableEq Tid] in
/-- A buffer that is open is the only one of its chunk that is not closed. -/
theorem sole_opened (j : ℕ) (y : SendBuffer) (hne : j ≠ i) (hy : s.sendBuffers j = some y)
    (hsame : y.ownerChunk = x.ownerChunk) : y.status = .closed := by
  by_contra hopen
  exact hne (h.once j i y x hy live hsame hopen (by rw [opened]; exact nofun))

/-- The thread that begins to close a buffer is the only one that closes it. -/
theorem close_closers (idle : s.threads t = .idle) (fits : writeSize ≤ x.allocSize) :
    Closers (s.setSendBuffer i (some { x with writeSize, status := .closing, references })
      |>.setPc t (.closeAssert i writeSize)) := by
  have hnobody := h.not_closing live opened
  constructor
  case closing =>
    intro u j w hu
    obtain ⟨-, ⟨⟩⟩ | ⟨-, hu⟩ := State.setPc_cases (Pc.closing · = some (j, w)) hu
    · exact ⟨_, Function.update_self .., rfl, rfl, fits⟩
    · obtain ⟨y, hy, hrest⟩ := h.closing u j w hu
      have hne : j ≠ i := by
        rintro rfl
        exact hnobody u w hu
      exact ⟨y, (Function.update_of_ne hne ..).trans hy, hrest⟩
  case closer =>
    intro u v j w w' hu hv
    obtain ⟨rfl, ⟨⟩⟩ | ⟨-, huold⟩ := State.setPc_cases (Pc.closing · = some (j, w)) hu
    · obtain ⟨rfl, -⟩ | ⟨-, hvold⟩ := State.setPc_cases (Pc.closing · = some (_, w')) hv
      · rfl
      · exact absurd hvold (hnobody v w')
    · obtain ⟨rfl, ⟨⟩⟩ | ⟨-, hvold⟩ := State.setPc_cases (Pc.closing · = some (j, w')) hv
      · exact absurd huold (hnobody u w)
      · exact h.closer u v j w w' huold hvold
  case isClosing =>
    intro j y hy hstatus
    obtain ⟨rfl, -⟩ | ⟨-, hy⟩ := State.setSendBuffer_cases hy
    · exact ⟨t, writeSize, congrArg Pc.closing (State.setPc_self _ t _)⟩
    · obtain ⟨u, w, hu⟩ := h.isClosing j y hy hstatus
      have hne : u ≠ t := by
        rintro rfl
        rw [idle] at hu
        cases hu
      exact ⟨u, w, (congrArg Pc.closing (State.setPc_of_ne _ hne _)).trans hu⟩

end Close

/-- `SendBuffer::Close` begins. -/
theorem close (h : Settled s) {x : SendBuffer} {writeSize : UInt32} {references : ℕ}
    (live : s.sendBuffers i = some x) (idle : s.threads t = .idle) (opened : x.status = .opened)
    (fits : writeSize ≤ x.allocSize) :
    Settled (s.setSendBuffer i (some { x with writeSize, status := .closing, references })
      |>.setPc t (.closeAssert i writeSize)) := by
  have hunsettled : x.status ≠ .closed := by
    rw [opened]
    exact nofun
  have hlaid : Laid (s.setSendBuffer i
      (some { x with writeSize, status := .closing, references })) :=
    h.setUnclosed nofun (h.unsettled i x live hunsettled) fun j y hne hy hsame =>
      h.sole_opened live opened j y hne hy hsame
  have hclosers : Closers (s.setSendBuffer i
      (some { x with writeSize, status := .closing, references })
      |>.setPc t (.closeAssert i writeSize)) := h.close_closers live opened idle fits
  constructor
  case used => exact h.used
  case closed => exact hlaid.closed
  case unsettled => exact hlaid.unsettled
  case once => exact hlaid.once
  case apart => exact hlaid.apart
  case closing => exact hclosers.closing
  case closer => exact hclosers.closer
  case isClosing => exact hclosers.isClosing
  case opened =>
    intro j y hy hstatus
    obtain ⟨-, ⟨⟩⟩ | ⟨-, hy⟩ := State.setSendBuffer_cases hy
    · cases hstatus
    · exact h.opened j y hy hstatus
  case unclosed =>
    intro u j y hu hy
    obtain ⟨-, ⟨⟩⟩ | ⟨-, hu⟩ := State.setPc_cases (Pc.unclosed · = some j) hu
    · obtain ⟨-, ⟨⟩⟩ | ⟨hne, -⟩ := State.setSendBuffer_cases hy
      · exact h.opened _ x live opened
      · exact absurd rfl hne
    · obtain ⟨rfl, -⟩ | ⟨-, hy⟩ := State.setSendBuffer_cases hy
      · obtain ⟨w, hw⟩ := Pc.closing_of_unclosed hu
        exact absurd hw (h.not_closing live opened u w)
      · exact h.unclosed u j y hu hy
  case past =>
    intro u d hu hd j y hy hc
    obtain ⟨-, ⟨⟩⟩ | ⟨-, hu⟩ := State.setPc_cases (Pc.past · = true) hu
    obtain ⟨-, ⟨⟩⟩ | ⟨-, hy⟩ := State.setSendBuffer_cases hy
    · exact absurd (h.past u d hu hd i x live hc) hunsettled
    · exact h.past u d hu hd j y hy hc
  case room =>
    intro u d size hu hd
    obtain ⟨-, ⟨⟩⟩ | ⟨-, hu⟩ := State.setPc_cases (Pc.room · = some size) hu
    exact h.room u d size hu hd
  case ready =>
    intro u d hu hd
    obtain ⟨-, ⟨⟩⟩ | ⟨-, hu⟩ := State.setPc_cases (Pc.ready · = true) hu
    exact h.ready u d hu hd

/-- `Open` makes a buffer in the room that it has found. -/
theorem addBuffer (h : Settled s) {size : UInt32} {fresh : Bool}
    (new : s.sendBuffers i = none) (here : s.threads t = .makeShared size fresh)
    (current : s.tlsSendBufferChunk t = some c)
    (single : ∀ u, s.tlsSendBufferChunk u = some c → u = t) :
    Settled (s.setSendBuffer i (some
        { ownerChunk := c, buffer := (s.chunks c).usedSize.toNat, allocSize := size })
      |>.setPc t .idle) := by
  have hpast : ∀ j x, s.sendBuffers j = some x → x.ownerChunk = c → x.status = .closed :=
    h.past t c (by rw [here]; rfl) current
  have hroom := h.room t c size (by rw [here]; rfl) current
  have hready := h.ready t c (by rw [here]; rfl) current
  have hclosing : ∀ u j w, (s.threads u).closing = some (j, w) → j ≠ i := by
    rintro u j w hu rfl
    obtain ⟨y, hy, -⟩ := h.closing u j w hu
    rw [new] at hy
    cases hy
  have hlaid : Laid (s.setSendBuffer i (some
      { ownerChunk := c, buffer := (s.chunks c).usedSize.toNat, allocSize := size })) :=
    h.setUnclosed nofun ⟨rfl, hroom⟩ fun j y _ hy hsame => hpast j y hy hsame
  constructor
  case used => exact h.used
  case closed => exact hlaid.closed
  case unsettled => exact hlaid.unsettled
  case once => exact hlaid.once
  case apart => exact hlaid.apart
  case opened =>
    intro j y hy hstatus
    obtain ⟨-, ⟨⟩⟩ | ⟨-, hy⟩ := State.setSendBuffer_cases hy
    · exact hready
    · exact h.opened j y hy hstatus
  case closing =>
    intro u j w hu
    obtain ⟨-, ⟨⟩⟩ | ⟨-, hu⟩ := State.setPc_cases (Pc.closing · = some (j, w)) hu
    obtain ⟨y, hy, hrest⟩ := h.closing u j w hu
    exact ⟨y, (Function.update_of_ne (hclosing u j w hu) ..).trans hy, hrest⟩
  case closer =>
    intro u v j w w' hu hv
    obtain ⟨-, ⟨⟩⟩ | ⟨-, hu⟩ := State.setPc_cases (Pc.closing · = some (j, w)) hu
    obtain ⟨-, ⟨⟩⟩ | ⟨-, hv⟩ := State.setPc_cases (Pc.closing · = some (j, w')) hv
    exact h.closer u v j w w' hu hv
  case isClosing =>
    intro j y hy hstatus
    obtain ⟨-, ⟨⟩⟩ | ⟨-, hy⟩ := State.setSendBuffer_cases hy
    · cases hstatus
    · obtain ⟨u, w, hu⟩ := h.isClosing j y hy hstatus
      have hne : u ≠ t := by
        rintro rfl
        rw [here] at hu
        cases hu
      exact ⟨u, w, (congrArg Pc.closing (State.setPc_of_ne _ hne _)).trans hu⟩
  case unclosed =>
    intro u j y hu hy
    obtain ⟨-, ⟨⟩⟩ | ⟨-, hu⟩ := State.setPc_cases (Pc.unclosed · = some j) hu
    obtain ⟨w, hw⟩ := Pc.closing_of_unclosed hu
    obtain ⟨rfl, -⟩ | ⟨-, hy⟩ := State.setSendBuffer_cases hy
    · exact absurd rfl (hclosing u j w hw)
    · exact h.unclosed u j y hu hy
  case past =>
    intro u d hu hd j y hy hc
    obtain ⟨-, ⟨⟩⟩ | ⟨hne, hu⟩ := State.setPc_cases (Pc.past · = true) hu
    obtain ⟨-, ⟨⟩⟩ | ⟨-, hy⟩ := State.setSendBuffer_cases hy
    · subst hc
      exact absurd (single u hd) hne
    · exact h.past u d hu hd j y hy hc
  case room =>
    intro u d size hu hd
    obtain ⟨-, ⟨⟩⟩ | ⟨-, hu⟩ := State.setPc_cases (Pc.room · = some size) hu
    exact h.room u d size hu hd
  case ready =>
    intro u d hu hd
    obtain ⟨-, ⟨⟩⟩ | ⟨-, hu⟩ := State.setPc_cases (Pc.ready · = true) hu
    exact h.ready u d hu hd

omit [DecidableEq Tid] in
/-- The only buffer of its chunk that is not closed, while a thread is closing it. -/
theorem sole (h : Settled s) {x : SendBuffer} {writeSize : UInt32}
    (closing : (s.threads t).closing = some (i, writeSize)) (live : s.sendBuffers i = some x) :
    x.status = .closing ∧ x.writeSize = writeSize ∧ writeSize ≤ x.allocSize ∧
      ∀ j y, j ≠ i → s.sendBuffers j = some y → y.ownerChunk = x.ownerChunk →
        y.status = .closed := by
  obtain ⟨x', hx', hclosing, hwrite, hfits⟩ := h.closing t i writeSize closing
  rw [live] at hx'
  cases hx'
  refine ⟨hclosing, hwrite, hfits, fun j y hne hy hsame => ?_⟩
  by_contra hopen
  exact hne (h.once j i y x hy live hsame hopen (by rw [hclosing]; exact nofun))

omit [DecidableEq Tid] in
theorem not_past (h : Settled s) {x : SendBuffer} {writeSize : UInt32} {u : Tid}
    (closing : (s.threads t).closing = some (i, writeSize)) (live : s.sendBuffers i = some x)
    (current : s.tlsSendBufferChunk u = some x.ownerChunk) : (s.threads u).past ≠ true := by
  intro hpast
  have hclosed := h.past u x.ownerChunk hpast current i x live rfl
  rw [(h.sole closing live).1] at hclosed
  cases hclosed

omit [DecidableEq Tid] in
/-- A buffer that is not closed is in another chunk than one that is being closed. -/
theorem apart_from_closing (h : Settled s) {x y : SendBuffer} {writeSize : UInt32} {j : ℕ}
    (closing : (s.threads t).closing = some (i, writeSize)) (live : s.sendBuffers i = some x)
    (hne : j ≠ i) (hy : s.sendBuffers j = some y) (unclosed : y.status ≠ .closed) :
    y.ownerChunk ≠ x.ownerChunk :=
  fun heq => unclosed ((h.sole closing live).2.2.2 j y hne hy heq)

/-- The first store of `SendBufferChunk::Close`. -/
theorem closeOpened (h : Settled s) {x : SendBuffer} {writeSize : UInt32}
    (here : s.threads t = .closeOpened i writeSize) (live : s.sendBuffers i = some x) :
    Settled (s.setChunk x.ownerChunk { s.chunks x.ownerChunk with isOpened := false }
      |>.setPc t (.closeUsed i writeSize)) := by
  have hclosing : (s.threads t).closing = some (i, writeSize) := by
    rw [here]
    rfl
  have hused := s.setOpened_usedSize x.ownerChunk false
  have hopened : ∀ d, d ≠ x.ownerChunk → ((s.setChunk x.ownerChunk
      { s.chunks x.ownerChunk with isOpened := false }).chunks d) = s.chunks d :=
    fun d hne => Function.update_of_ne hne ..
  have hsame : ∀ u, ((s.setPc t (.closeUsed i writeSize)).threads u).closing =
      (s.threads u).closing :=
    s.setPc_congr Pc.closing hclosing.symm
  constructor
  case used =>
    intro d
    exact (congrArg UInt32.toNat (hused d)).trans_le (h.used d)
  case closed =>
    intro j y hy hy'
    exact (h.closed j y hy hy').trans_eq (congrArg UInt32.toNat (hused _)).symm
  case unsettled =>
    intro j y hy hy'
    obtain ⟨hbegin, hend⟩ := h.unsettled j y hy hy'
    exact ⟨hbegin.trans (congrArg UInt32.toNat (hused _)).symm, hend⟩
  case once => exact h.once
  case apart => exact h.apart
  case opened =>
    intro j y hy hy'
    have hji : j ≠ i := by
      rintro rfl
      cases hy.symm.trans live
      rw [(h.sole hclosing live).1] at hy'
      cases hy'
    have hne := h.apart_from_closing hclosing live hji hy (by rw [hy']; exact nofun)
    exact (congrArg SendBufferChunk.isOpened (hopened _ hne)).trans (h.opened j y hy hy')
  case closing =>
    intro u j w hu
    exact h.closing u j w ((hsame u).symm.trans hu)
  case closer =>
    intro u v j w w' hu hv
    exact h.closer u v j w w' ((hsame u).symm.trans hu) ((hsame v).symm.trans hv)
  case isClosing =>
    intro j y hy hy'
    obtain ⟨u, w, hu⟩ := h.isClosing j y hy hy'
    exact ⟨u, w, (hsame u).trans hu⟩
  case unclosed =>
    intro u j y hu hy
    obtain ⟨-, ⟨⟩⟩ | ⟨hut, hu⟩ := State.setPc_cases (Pc.unclosed · = some j) hu
    obtain ⟨w, hw⟩ := Pc.closing_of_unclosed hu
    have hji : j ≠ i := by
      rintro rfl
      exact hut (h.closer u t j w writeSize hw hclosing)
    have hne := h.apart_from_closing hclosing live hji hy (by rw [(h.sole hw hy).1]; exact nofun)
    exact (congrArg SendBufferChunk.isOpened (hopened _ hne)).trans (h.unclosed u j y hu hy)
  case past =>
    intro u d hu hd
    obtain ⟨-, ⟨⟩⟩ | ⟨-, hu⟩ := State.setPc_cases (Pc.past · = true) hu
    exact h.past u d hu hd
  case room =>
    intro u d size hu hd
    obtain ⟨-, ⟨⟩⟩ | ⟨-, hu⟩ := State.setPc_cases (Pc.room · = some size) hu
    exact (congrArg (·.toNat + size.toNat) (hused d)).trans_le (h.room u d size hu hd)
  case ready =>
    intro u d hu hd
    obtain ⟨-, ⟨⟩⟩ | ⟨-, hu⟩ := State.setPc_cases (Pc.ready · = true) hu
    have hne : d ≠ x.ownerChunk := by
      rintro rfl
      exact h.not_past hclosing live hd (Pc.past_of_ready hu)
    exact (congrArg SendBufferChunk.isOpened (hopened _ hne)).trans (h.ready u d hu hd)

section CloseUsed

variable (h : Settled s) {x : SendBuffer} {writeSize : UInt32}
  (closing : (s.threads t).closing = some (i, writeSize)) (live : s.sendBuffers i = some x)

include h closing live

omit [DecidableEq Tid] in
/-- The buffer that is being closed begins where the used bytes of its chunk end. -/
theorem closing_place : x.buffer = (s.chunks x.ownerChunk).usedSize.toNat ∧
    x.buffer + writeSize.toNat ≤ 0x2000 := by
  obtain ⟨hstatus, -, hfits, -⟩ := h.sole closing live
  obtain ⟨hbegin, hend⟩ := h.unsettled i x live (by rw [hstatus]; exact nofun)
  have hfits' := UInt32.le_iff_toNat_le.mp hfits
  exact ⟨hbegin, by omega⟩

/-- The second store adds the bytes of the buffer without a wrap. -/
theorem closeUsed_toNat : ((s.closeUsed t i x writeSize).chunks x.ownerChunk).usedSize.toNat =
    (s.chunks x.ownerChunk).usedSize.toNat + writeSize.toNat := by
  obtain ⟨hbegin, hend⟩ := h.closing_place closing live
  rw [State.closeUsed_usedSize, UInt32.toNat_add]
  apply Nat.mod_eq_of_lt
  omega

theorem closeUsed_used (d : ℕ) :
    ((s.closeUsed t i x writeSize).chunks d).usedSize.toNat ≤ 0x2000 := by
  obtain ⟨hbegin, hend⟩ := h.closing_place closing live
  obtain rfl | hne := eq_or_ne d x.ownerChunk
  · rw [h.closeUsed_toNat closing live]
    omega
  · rw [State.closeUsed_of_ne hne]
    exact h.used d

theorem closeUsed_grows (d : ℕ) : (s.chunks d).usedSize.toNat ≤
    ((s.closeUsed t i x writeSize).chunks d).usedSize.toNat := by
  obtain rfl | hne := eq_or_ne d x.ownerChunk
  · rw [h.closeUsed_toNat closing live]
    exact Nat.le_add_right _ _
  · rw [State.closeUsed_of_ne hne]

/-- The closed buffer lies behind all the others of its chunk. -/
theorem closeUsed_laid : Laid (s.closeUsed t i x writeSize) := by
  obtain ⟨-, hwrite, -, hothers⟩ := h.sole closing live
  obtain ⟨hbegin, -⟩ := h.closing_place closing live
  constructor
  case closed =>
    intro j y hy hy'
    obtain ⟨-, rfl⟩ | ⟨-, hold⟩ := State.closeUsed_cases hy
    · rw [h.closeUsed_toNat closing live, hbegin, hwrite]
    · exact (h.closed j y hold hy').trans (h.closeUsed_grows closing live _)
  case unsettled =>
    intro j y hy hy'
    obtain ⟨-, rfl⟩ | ⟨hne, hold⟩ := State.closeUsed_cases hy
    · exact absurd rfl hy'
    · rw [State.closeUsed_of_ne fun heq => hy' (hothers j y hne hold heq)]
      exact h.unsettled j y hold hy'
  case once =>
    intro j k y z hy hz heq hy' hz'
    obtain ⟨-, rfl⟩ | ⟨-, hold⟩ := State.closeUsed_cases hy
    · exact absurd rfl hy'
    · obtain ⟨-, rfl⟩ | ⟨-, hold'⟩ := State.closeUsed_cases hz
      · exact absurd rfl hz'
      · exact h.once j k y z hold hold' heq hy' hz'
  case apart =>
    intro j k y z hne hy hz heq hy' hz'
    obtain ⟨hj, rfl⟩ | ⟨-, hold⟩ := State.closeUsed_cases hy
    · obtain ⟨hk, -⟩ | ⟨-, hold'⟩ := State.closeUsed_cases hz
      · exact absurd (hj.trans hk.symm) hne
      · have hbelow := h.closed k z hold' hz'
        rw [← heq] at hbelow
        exact .inr (hbelow.trans_eq hbegin.symm)
    · obtain ⟨-, rfl⟩ | ⟨-, hold'⟩ := State.closeUsed_cases hz
      · have hbelow := h.closed j y hold hy'
        rw [heq] at hbelow
        exact .inl (hbelow.trans_eq hbegin.symm)
      · exact h.apart j k y z hne hold hold' heq hy' hz'

omit live in
/-- The thread is the only one that has closed the buffer. -/
theorem closeUsed_closers : Closers (s.closeUsed t i x writeSize) := by
  constructor
  case closing =>
    intro u j w hu
    obtain ⟨hut, hold⟩ := State.closeUsed_busy (Pc.closing · = some (j, w)) hu nofun
    obtain ⟨y, hy, hrest⟩ := h.closing u j w hold
    have hne : j ≠ i := by
      rintro rfl
      exact hut (h.closer u t j w writeSize hold closing)
    exact ⟨y, (Function.update_of_ne hne ..).trans hy, hrest⟩
  case closer =>
    intro u v j w w' hu hv
    obtain ⟨-, hu⟩ := State.closeUsed_busy (Pc.closing · = some (j, w)) hu nofun
    obtain ⟨-, hv⟩ := State.closeUsed_busy (Pc.closing · = some (j, w')) hv nofun
    exact h.closer u v j w w' hu hv
  case isClosing =>
    intro j y hy hy'
    obtain ⟨-, rfl⟩ | ⟨hne, hold⟩ := State.closeUsed_cases hy
    · cases hy'
    · obtain ⟨u, w, hu⟩ := h.isClosing j y hold hy'
      have hut : u ≠ t := by
        rintro rfl
        rw [closing] at hu
        cases hu
        exact hne rfl
      exact ⟨u, w, (congrArg Pc.closing (State.setPc_of_ne _ hut _)).trans hu⟩

end CloseUsed

/-- The second store of `SendBufferChunk::Close`: what was written lies below `usedSize`. -/
theorem closeUsed (h : Settled s) {x : SendBuffer} {writeSize : UInt32}
    (here : s.threads t = .closeUsed i writeSize) (live : s.sendBuffers i = some x) :
    Settled (s.closeUsed t i x writeSize) := by
  have hclosing : (s.threads t).closing = some (i, writeSize) := by
    rw [here]
    rfl
  have hlaid := h.closeUsed_laid hclosing live
  have hclosers := h.closeUsed_closers (x := x) hclosing
  constructor
  case used => exact h.closeUsed_used hclosing live
  case closed => exact hlaid.closed
  case unsettled => exact hlaid.unsettled
  case once => exact hlaid.once
  case apart => exact hlaid.apart
  case closing => exact hclosers.closing
  case closer => exact hclosers.closer
  case isClosing => exact hclosers.isClosing
  case opened =>
    intro j y hy hy'
    obtain ⟨-, rfl⟩ | ⟨-, hold⟩ := State.closeUsed_cases hy
    · cases hy'
    · rw [State.closeUsed_isOpened]
      exact h.opened j y hold hy'
  case unclosed =>
    intro u j y hu hy
    obtain ⟨hut, hu⟩ := State.closeUsed_busy (Pc.unclosed · = some j) hu nofun
    obtain ⟨w, hw⟩ := Pc.closing_of_unclosed hu
    obtain ⟨rfl, -⟩ | ⟨-, hold⟩ := State.closeUsed_cases hy
    · exact absurd (h.closer u t j w writeSize hw hclosing) hut
    · rw [State.closeUsed_isOpened]
      exact h.unclosed u j y hu hold
  case past =>
    intro u d hu hd j y hy heq
    obtain ⟨-, hu⟩ := State.closeUsed_busy (Pc.past · = true) hu nofun
    obtain ⟨-, rfl⟩ | ⟨-, hold⟩ := State.closeUsed_cases hy
    · rfl
    · exact h.past u d hu hd j y hold heq
  case room =>
    intro u d size hu hd
    obtain ⟨-, hu⟩ := State.closeUsed_busy (Pc.room · = some size) hu nofun
    have hne : d ≠ x.ownerChunk := by
      rintro rfl
      exact h.not_past hclosing live hd (Pc.past_of_room hu)
    rw [State.closeUsed_of_ne hne]
    exact h.room u d size hu hd
  case ready =>
    intro u d hu hd
    obtain ⟨-, hu⟩ := State.closeUsed_busy (Pc.ready · = true) hu nofun
    rw [State.closeUsed_isOpened]
    exact h.ready u d hu hd

end Settled

end SendBufferManager

end ServerCore
