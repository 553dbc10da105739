import Mathlib.Logic.Function.Basic
import ServerCore.Word

/-!
# Readers and writers of a buffer

A `BufferReader` and a `BufferWriter` are a size and a cursor over the same bytes. The
only test that stands before a `memcpy` compares its length with `FreeSize()`, a
difference of two `uint32`. A call answers with the indexes of the bytes it copies, so
that what it touches can be compared with the size.
-/

namespace ServerCore

/-- The memory from the first byte of a buffer on. It goes on where the buffer ends. -/
abbrev Contents := ℕ → UInt8

/-- `memcpy` into the buffer, byte by byte. -/
def Contents.store (mem : Contents) (indexes : List ℕ) (src : List UInt8) : Contents :=
  (indexes.zip src).foldl (fun mem p => Function.update mem p.1 p.2) mem

structure BufferReader where
  size : UInt32 := 0
  readCursor : UInt32 := 0
  deriving DecidableEq, Repr

namespace BufferReader

def new (size : UInt32) (readPos : UInt32 := 0) : BufferReader :=
  { size, readCursor := readPos }

def readSize (r : BufferReader) : UInt32 := r.readCursor

def freeSize (r : BufferReader) : UInt32 := r.size - r.readCursor

/-- The answer, and the indexes that are copied to `_dest`. -/
def peek (r : BufferReader) (len : UInt32) : Bool × List ℕ :=
  if r.freeSize < len then (false, [])
  else (false, List.range' r.readCursor.toNat len.toNat)

def read (r : BufferReader) (len : UInt32) : Bool × List ℕ × BufferReader :=
  let (peeked, copied) := r.peek len
  if false = peeked then (false, copied, r)
  else (false, copied, { r with readCursor := r.readCursor + len })

/-- `Peek` answers false on its last line too, so `Read` always returns before it moves
the cursor. -/
theorem peek_fst (r : BufferReader) (len : UInt32) : (r.peek len).1 = false := by
  rw [peek]
  split <;> rfl

theorem read_eq (r : BufferReader) (len : UInt32) :
    r.read len = (false, (r.peek len).2, r) := by
  rw [read]
  exact if_pos (r.peek_fst len).symm

end BufferReader

structure BufferWriter where
  size : UInt32 := 0
  writeCursor : UInt32 := 0
  deriving DecidableEq, Repr

namespace BufferWriter

def new (size : UInt32) (writePos : UInt32 := 0) : BufferWriter :=
  { size, writeCursor := writePos }

def freeSize (w : BufferWriter) : UInt32 := w.size - w.writeCursor

/-- The answer, and the indexes that `_src` is copied to. -/
def write (w : BufferWriter) (len : UInt32) : Bool × List ℕ × BufferWriter :=
  if w.freeSize < len then (false, [], w)
  else (true, List.range' w.writeCursor.toNat len.toNat,
    { w with writeCursor := w.writeCursor + len })

/-- A `Write` that succeeds within the buffer stays within it. -/
theorem write_accepted {w : BufferWriter} {len : UInt32} (hcursor : w.writeCursor ≤ w.size)
    (h : (w.write len).1 = true) :
    w.write len = (true, List.range' w.writeCursor.toNat len.toNat,
      { w with writeCursor := w.writeCursor + len }) ∧
      (w.writeCursor + len).toNat = w.writeCursor.toNat + len.toNat ∧
      w.writeCursor + len ≤ w.size := by
  rw [write] at h ⊢
  split at h <;> rename_i hfits
  · cases h
  · rw [freeSize, UInt32.lt_iff_toNat_lt, UInt32.toNat_sub_of_le _ _ hcursor] at hfits
    have hsize := w.size.toNat_lt
    rw [UInt32.le_iff_toNat_le] at hcursor
    have hsum : (w.writeCursor + len).toNat = w.writeCursor.toNat + len.toNat := by
      rw [UInt32.toNat_add]
      exact Nat.mod_eq_of_lt (by omega)
    refine ⟨if_neg ?_, hsum, ?_⟩
    · rwa [freeSize, UInt32.lt_iff_toNat_lt, UInt32.toNat_sub_of_le _ _ hcursor]
    · rw [UInt32.le_iff_toNat_le]
      omega

end BufferWriter

/-- The bytes at `_src`, as many as a `uint32` length can say. -/
structure Block where
  bytes : List UInt8
  fits : bytes.length < 2 ^ 32

namespace Block

def len (block : Block) : UInt32 := UInt32.ofNat block.bytes.length

theorem toNat_len (block : Block) : block.len.toNat = block.bytes.length :=
  UInt32.toNat_ofNat_of_lt' block.fits

end Block

/-- One `Write` for each block: the answers, the writer and the memory afterwards. -/
def BufferWriter.writeAll : List Block → BufferWriter → Contents →
    List Bool × BufferWriter × Contents
  | [], w, mem => ([], w, mem)
  | block :: rest, w, mem =>
      let (answer, copied, w') := w.write block.len
      let (answers, result) := writeAll rest w' (mem.store copied block.bytes)
      (answer :: answers, result)

/-- One `Read` for each length: the answers with the bytes at `_dest`, and the reader. -/
def BufferReader.readAll (mem : Contents) : List UInt32 → BufferReader →
    List (Bool × List UInt8) × BufferReader
  | [], r => ([], r)
  | len :: rest, r =>
      let (answer, copied, r') := r.read len
      let (answers, result) := readAll mem rest r'
      ((answer, copied.map mem) :: answers, result)

end ServerCore
