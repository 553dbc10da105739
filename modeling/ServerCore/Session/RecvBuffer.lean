import ServerCore.Region
import ServerCore.Word

/-!
# `RecvBuffer`

A linear buffer of `bufferSize * BUFFER_COUNT` bytes with two `int32` cursors. The
unread bytes are the window between them. `OnWrite` extends the window by what the
kernel stored at `WriteCursor`, `OnRead` drops what was consumed, and `Clean` resets
the cursors of an empty window or moves the window to the front of the buffer when
less than `bufferSize` bytes are free behind it.

Under `Valid` each operation acts on the window as it does on a queue of bytes.
-/

namespace ServerCore

open Region

/-- The data members of `RecvBuffer`. -/
structure RecvBuffer where
  capacity : Int32 := 0
  bufferSize : Int32 := 0
  readCursor : Int32 := 0
  writeCursor : Int32 := 0
  buffer : List UInt8 := []
  deriving DecidableEq, Repr

namespace RecvBuffer

def bufferCount : UInt32 := 10

/-- The constructor. The product is unsigned; `resize` throws on a negative capacity,
which it takes for a huge one. -/
def new (bufferSize : Int32) : Option RecvBuffer :=
  let capacity := (bufferSize.toUInt32 * bufferCount).toInt32
  if capacity < 0 then none
  else some { capacity, bufferSize, buffer := List.replicate capacity.toInt.toNat 0 }

def dataSize (b : RecvBuffer) : Int32 := b.writeCursor - b.readCursor

def freeSize (b : RecvBuffer) : Int32 := b.capacity - b.writeCursor

/-- The index of `ReadCursor()`. -/
def readIndex (b : RecvBuffer) : ℕ := b.readCursor.toInt.toNat

/-- The index of `WriteCursor()`. -/
def writeIndex (b : RecvBuffer) : ℕ := b.writeCursor.toInt.toNat

/-- `memcpy(&buffer[0], &buffer[readCursor], dataSize)`, taken to copy the original
bytes also where the ranges overlap. -/
def copyToFront (b : RecvBuffer) : List UInt8 :=
  store b.buffer 0 (slice b.buffer b.readIndex (b.readIndex + b.dataSize.toInt.toNat))

def clean (b : RecvBuffer) : RecvBuffer :=
  if b.dataSize = 0 then { b with readCursor := 0, writeCursor := 0 }
  else if b.freeSize < b.bufferSize then
    { b with buffer := b.copyToFront, readCursor := 0, writeCursor := b.dataSize }
  else b

/-- `none` is the answer `false`, which leaves the buffer as it is. -/
def onRead (b : RecvBuffer) (bytesRead : Int32) : Option RecvBuffer :=
  if bytesRead > b.dataSize then none
  else some { b with readCursor := b.readCursor + bytesRead }

/-- `none` is the answer `false`, which leaves the buffer as it is. -/
def onWrite (b : RecvBuffer) (bytesWritten : Int32) : Option RecvBuffer :=
  if bytesWritten > b.freeSize then none
  else some { b with writeCursor := b.writeCursor + bytesWritten }

/-- The kernel stores received bytes from an index on. -/
def receive (b : RecvBuffer) (buf : ℕ) (bytes : List UInt8) : RecvBuffer :=
  { b with buffer := store b.buffer buf bytes }

/-- The unread bytes. -/
def window (b : RecvBuffer) : List UInt8 := slice b.buffer b.readIndex b.writeIndex

/-- The cursors are ordered inside the buffer. -/
structure Valid (b : RecvBuffer) : Prop where
  nonneg : 0 ≤ b.readCursor.toInt
  ordered : b.readCursor.toInt ≤ b.writeCursor.toInt
  bounded : b.writeCursor.toInt ≤ b.capacity.toInt
  allocated : (b.buffer.length : ℤ) = b.capacity.toInt

variable {b b' : RecvBuffer} {bytes : List UInt8} {n : Int32}

/-- Whatever the constructor makes is valid and empty. -/
theorem valid_of_new {bufferSize : Int32} (hnew : new bufferSize = some b) :
    b.Valid ∧ b.window = [] := by
  unfold new at hnew
  simp only at hnew
  split at hnew
  · cases hnew
  · next hnonneg =>
      cases hnew
      have hcapacity : 0 ≤ (bufferSize.toUInt32 * bufferCount).toInt32.toInt :=
        Int32.le_iff_toInt_le.mp (Int32.not_lt.mp hnonneg)
      refine ⟨⟨Int.le_refl 0, Int.le_refl 0, hcapacity, ?_⟩, slice_self⟩
      rw [List.length_replicate]
      exact Int.toNat_of_nonneg hcapacity

theorem valid_new {bufferSize : Int32} (hpos : 0 < bufferSize.toInt)
    (hfits : 10 * bufferSize.toInt < 2 ^ 31) :
    ∃ b, new bufferSize = some b ∧ b.Valid ∧ b.window = [] := by
  have hcapacity : (bufferSize.toUInt32 * bufferCount).toInt32.toInt = 10 * bufferSize.toInt := by
    rw [UInt32.toInt32_mul, Int32.toInt32_toUInt32, Int32.toInt_mul, Int.mul_comm]
    change (10 * bufferSize.toInt).bmod (2 ^ 32) = _
    apply Int.bmod_eq_of_le <;> omega
  have hnonneg : ¬(bufferSize.toUInt32 * bufferCount).toInt32 < 0 := by
    rw [Int32.lt_iff_toInt_lt, hcapacity]
    change ¬10 * bufferSize.toInt < 0
    omega
  have hnew : new bufferSize = some _ := if_neg hnonneg
  exact ⟨_, hnew, valid_of_new hnew⟩

namespace Valid

theorem toInt_dataSize (h : b.Valid) :
    b.dataSize.toInt = b.writeCursor.toInt - b.readCursor.toInt :=
  Word.toInt_sub_of_le h.nonneg h.ordered

theorem toInt_freeSize (h : b.Valid) :
    b.freeSize.toInt = b.capacity.toInt - b.writeCursor.toInt :=
  Word.toInt_sub_of_le (Int.le_trans h.nonneg h.ordered) h.bounded

/-- The end of the window is inside the buffer. -/
theorem writeIndex_le (h : b.Valid) : b.writeIndex ≤ b.buffer.length := by
  have := h.nonneg
  have := h.ordered
  have := h.bounded
  have := h.allocated
  rw [writeIndex]
  omega

theorem readIndex_le (h : b.Valid) : b.readIndex ≤ b.writeIndex := by
  have := h.ordered
  rw [readIndex, writeIndex]
  omega

/-- The window has as many bytes as `DataSize()` says. -/
theorem length_window (h : b.Valid) : (b.window.length : ℤ) = b.dataSize.toInt := by
  have := h.nonneg
  have := h.ordered
  rw [window, length_slice h.writeIndex_le, h.toInt_dataSize, readIndex, writeIndex]
  omega

theorem receive (h : b.Valid) (hfit : (bytes.length : ℤ) ≤ b.freeSize.toInt) :
    (b.receive b.writeIndex bytes).Valid := by
  refine ⟨h.nonneg, h.ordered, h.bounded, ?_⟩
  have hstore : b.writeIndex + bytes.length ≤ b.buffer.length := by
    have := h.nonneg
    have := h.ordered
    have := h.allocated
    rw [h.toInt_freeSize] at hfit
    rw [writeIndex]
    omega
  have hlength : (b.receive b.writeIndex bytes).buffer.length = b.buffer.length :=
    length_store hstore
  rw [hlength]
  exact h.allocated

/-- What the kernel stores is not seen before `OnWrite`. -/
theorem window_receive (h : b.Valid) : (b.receive b.writeIndex bytes).window = b.window :=
  slice_store_below (Nat.le_refl _) h.writeIndex_le

/-- `OnWrite` accepts every completion of a receive that was posted for the free
space, and appends its bytes to the window. -/
theorem onWrite_receive (h : b.Valid) (hfit : (bytes.length : ℤ) ≤ b.freeSize.toInt) :
    ∃ b', (b.receive b.writeIndex bytes).onWrite (Int32.ofNat bytes.length) = some b' ∧ b'.Valid ∧
      b'.window = b.window ++ bytes := by
  have hfree := h.toInt_freeSize
  have hlt := Int32.toInt_lt b.freeSize
  have hcap := Int32.toInt_lt b.capacity
  have hnonneg := h.nonneg
  have hordered := h.ordered
  have hlength : (Int32.ofNat bytes.length).toInt = bytes.length :=
    Int32.toInt_ofNat_of_lt (by omega)
  have hcursor : (b.writeCursor + Int32.ofNat bytes.length).toInt =
      b.writeCursor.toInt + bytes.length := by
    rw [Word.toInt_add_of_fits] <;> omega
  have haccept : ¬Int32.ofNat bytes.length > (b.receive b.writeIndex bytes).freeSize := by
    intro hgt
    have : b.freeSize.toInt < (Int32.ofNat bytes.length).toInt := Int32.lt_iff_toInt_lt.mp hgt
    omega
  refine ⟨_, if_neg haccept, ⟨hnonneg, ?_, ?_, (h.receive hfit).allocated⟩, ?_⟩
  · change b.readCursor.toInt ≤ (b.writeCursor + Int32.ofNat bytes.length).toInt
    omega
  · change (b.writeCursor + Int32.ofNat bytes.length).toInt ≤ b.capacity.toInt
    omega
  · have hindex : (b.writeCursor + Int32.ofNat bytes.length).toInt.toNat =
        b.writeIndex + bytes.length := by
      rw [hcursor, writeIndex]
      omega
    change slice (store b.buffer b.writeIndex bytes) b.readIndex
      (b.writeCursor + Int32.ofNat bytes.length).toInt.toNat = _
    rw [hindex]
    exact slice_store_extend h.readIndex_le h.writeIndex_le

/-- `OnRead` accepts what is not more than the window, and drops it. -/
theorem onRead (h : b.Valid) (hn : 0 ≤ n.toInt) (hle : n.toInt ≤ b.dataSize.toInt) :
    ∃ b', b.onRead n = some b' ∧ b'.Valid ∧ b'.window = b.window.drop n.toInt.toNat := by
  have hdata := h.toInt_dataSize
  have hlt := Int32.toInt_lt b.writeCursor
  have hnonneg := h.nonneg
  have hcursor : (b.readCursor + n).toInt = b.readCursor.toInt + n.toInt := by
    rw [Word.toInt_add_of_fits] <;> omega
  have haccept : ¬n > b.dataSize := by
    intro hgt
    have := Int32.lt_iff_toInt_lt.mp hgt
    omega
  refine ⟨_, if_neg haccept, ⟨?_, ?_, h.bounded, h.allocated⟩, ?_⟩
  · change 0 ≤ (b.readCursor + n).toInt
    omega
  · change (b.readCursor + n).toInt ≤ b.writeCursor.toInt
    omega
  · have hindex : (b.readCursor + n).toInt.toNat = b.readIndex + n.toInt.toNat := by
      rw [hcursor, readIndex]
      omega
    change slice b.buffer (b.readCursor + n).toInt.toNat b.writeIndex = _
    rw [hindex, window, drop_slice]

/-- The bytes that `Clean` copies are the window. -/
theorem copyToFront_eq (h : b.Valid) : b.copyToFront = store b.buffer 0 b.window := by
  have hend : b.readIndex + b.dataSize.toInt.toNat = b.writeIndex := by
    have := h.nonneg
    have := h.ordered
    rw [h.toInt_dataSize, readIndex, writeIndex]
    omega
  rw [copyToFront, hend, window]

/-- `Clean` keeps the cursors in order, in each of its three branches. -/
theorem clean (h : b.Valid) : b.clean.Valid := by
  have hdata := h.toInt_dataSize
  have hnonneg := h.nonneg
  have hordered := h.ordered
  have hbounded := h.bounded
  rw [RecvBuffer.clean]
  split
  · refine ⟨Int.le_refl 0, Int.le_refl 0, ?_, h.allocated⟩
    change 0 ≤ b.capacity.toInt
    omega
  · split
    · refine ⟨Int.le_refl 0, ?_, ?_, ?_⟩
      · change 0 ≤ b.dataSize.toInt
        omega
      · change b.dataSize.toInt ≤ b.capacity.toInt
        omega
      · have hwindow := h.length_window
        have hallocated := h.allocated
        have hlength : b.copyToFront.length = b.buffer.length := by
          rw [h.copyToFront_eq]
          apply length_store
          omega
        rw [hlength]
        exact hallocated
    · exact h

/-- `Clean` loses, repeats and alters no byte of the window. -/
theorem window_clean (h : b.Valid) : b.clean.window = b.window := by
  have hlength := h.length_window
  rw [RecvBuffer.clean]
  split
  · next hempty =>
      rw [hempty] at hlength
      have hnil : b.window = [] := List.eq_nil_of_length_eq_zero (Int.ofNat_eq_zero.mp hlength)
      rw [hnil]
      exact slice_self
  · split
    · have hfront : b.dataSize.toInt.toNat = 0 + b.window.length := by omega
      change slice b.copyToFront 0 b.dataSize.toInt.toNat = _
      rw [hfront, h.copyToFront_eq]
      exact slice_store_self (Nat.zero_le _)
    · rfl

end Valid

end RecvBuffer

end ServerCore
