import ServerCore.Buffer.Basic
import ServerCore.Interleaving.System

/-!
# Which bytes the cursors reach

The constructors take any position. From a position within the buffer `FreeSize()` is
the number of bytes left, every call keeps it so, and nothing past the end is copied.
From a position past the end the difference wraps to nearly 4 GB, and calls pass the
test that should have refused them.
-/

namespace ServerCore

open Interleaving

namespace Buffer

/-- One call: the cursor it found, its length, and what it did. -/
structure Entry where
  position : UInt32
  len : UInt32
  answer : Bool
  copied : List ℕ
  deriving DecidableEq, Repr

/-- A reader and a writer of the same buffer, and the calls made so far. -/
structure State where
  reader : BufferReader
  writer : BufferWriter
  log : List Entry := []
  deriving DecidableEq, Repr

inductive Call where
  | peek (len : UInt32)
  | read (len : UInt32)
  | write (len : UInt32)
  deriving DecidableEq, Repr

def State.call (s : State) : Call → State
  | .peek len =>
      let (answer, copied) := s.reader.peek len
      { s with log := s.log ++ [⟨s.reader.readCursor, len, answer, copied⟩] }
  | .read len =>
      let (answer, copied, reader) := s.reader.read len
      { s with reader, log := s.log ++ [⟨s.reader.readCursor, len, answer, copied⟩] }
  | .write len =>
      let (answer, copied, writer) := s.writer.write len
      { s with writer, log := s.log ++ [⟨s.writer.writeCursor, len, answer, copied⟩] }

/-- The state after the two constructors. -/
def start (size readPos writePos : UInt32) : State :=
  { reader := .new size readPos, writer := .new size writePos }

def system (size readPos writePos : UInt32) : System State Call where
  init s := s = start size readPos writePos
  next s c := some (s.call c)

/-- A call copied no byte past the end, and was refused if it asked for one. -/
structure Entry.Within (size : UInt32) (e : Entry) : Prop where
  copied : ∀ i ∈ e.copied, i < size.toNat
  refused : size.toNat < e.position.toNat + e.len.toNat → e.answer = false

/-- `FreeSize()` is what is left of the buffer, and no call went past its end. -/
structure Safe (size : UInt32) (s : State) : Prop where
  reader : s.reader.freeSize.toNat = size.toNat - s.reader.readCursor.toNat
  writer : s.writer.freeSize.toNat = size.toNat - s.writer.writeCursor.toNat
  log : ∀ e ∈ s.log, e.Within size

/-- The cursors are within the buffer. -/
structure Inv (size : UInt32) (s : State) : Prop where
  readerSize : s.reader.size = size
  writerSize : s.writer.size = size
  reader : s.reader.readCursor ≤ size
  writer : s.writer.writeCursor ≤ size
  log : ∀ e ∈ s.log, e.Within size

variable {size position len : UInt32}

theorem Entry.within_refused : Entry.Within size ⟨position, len, false, []⟩ :=
  ⟨fun _ h => absurd h List.not_mem_nil, fun _ => rfl⟩

/-- The test that stands before both copies is exact for a cursor within the buffer. -/
theorem Entry.within_of_fits (hposition : position ≤ size) (hfits : ¬size - position < len)
    (answer : Bool) :
    Entry.Within size ⟨position, len, answer, List.range' position.toNat len.toNat⟩ := by
  have hend : position.toNat + len.toNat ≤ size.toNat := by
    rw [UInt32.lt_iff_toNat_lt, (Word.toNat_sub_eq_iff size position).mpr hposition] at hfits
    rw [UInt32.le_iff_toNat_le] at hposition
    omega
  refine ⟨fun i hi => ?_, fun hpast => absurd hend (Nat.not_le_of_lt hpast)⟩
  exact Nat.lt_of_lt_of_le (List.mem_range'_1.mp hi).2 hend

theorem peek_within {r : BufferReader} (h : r.readCursor ≤ r.size) (len : UInt32) :
    Entry.Within r.size ⟨r.readCursor, len, (r.peek len).1, (r.peek len).2⟩ := by
  rw [BufferReader.peek]
  split <;> rename_i hfits
  · exact Entry.within_refused
  · exact Entry.within_of_fits h hfits false

theorem write_within {w : BufferWriter} (h : w.writeCursor ≤ w.size) (len : UInt32) :
    Entry.Within w.size ⟨w.writeCursor, len, (w.write len).1, (w.write len).2.1⟩ := by
  rw [BufferWriter.write]
  split <;> rename_i hfits
  · exact Entry.within_refused
  · exact Entry.within_of_fits h hfits true

theorem write_cursor {w : BufferWriter} (h : w.writeCursor ≤ w.size) (len : UInt32) :
    (w.write len).2.2.size = w.size ∧ (w.write len).2.2.writeCursor ≤ w.size := by
  cases hanswer : (w.write len).1 with
  | true =>
      obtain ⟨hwrite, -, hle⟩ := BufferWriter.write_accepted h hanswer
      rw [hwrite]
      exact ⟨rfl, hle⟩
  | false =>
      rw [BufferWriter.write] at hanswer ⊢
      split <;> rename_i hfits
      · exact ⟨rfl, h⟩
      · rw [if_neg hfits] at hanswer
        cases hanswer

theorem Inv.append {s : State} (h : Inv size s) {e : Entry} (he : e.Within size) :
    Inv size { s with log := s.log ++ [e] } :=
  { h with
    log := fun e' hmem => (List.mem_append.mp hmem).elim (h.log e') fun hlast =>
      List.mem_singleton.mp hlast ▸ he }

theorem Inv.peeked {s : State} (h : Inv size s) (len : UInt32) :
    Entry.Within size ⟨s.reader.readCursor, len, (s.reader.peek len).1, (s.reader.peek len).2⟩ := by
  have hwithin := peek_within (r := s.reader) (h.readerSize ▸ h.reader) len
  rwa [h.readerSize] at hwithin

/-- Every call keeps the cursors within the buffer. -/
theorem Inv.call {s : State} (h : Inv size s) (c : Call) : Inv size (s.call c) := by
  cases c with
  | peek len => exact h.append (h.peeked len)
  | read len =>
      rw [State.call, s.reader.read_eq]
      have hwithin := h.peeked len
      rw [s.reader.peek_fst] at hwithin
      exact h.append hwithin
  | write len =>
      have hcursor : s.writer.writeCursor ≤ s.writer.size := h.writerSize ▸ h.writer
      have hwithin := write_within hcursor len
      obtain ⟨hsize, hle⟩ := write_cursor hcursor len
      rw [h.writerSize] at hwithin hsize hle
      exact
        { h.append hwithin with
          writerSize := hsize
          writer := hle }

theorem Inv.safe {s : State} (h : Inv size s) : Safe size s where
  reader := by
    rw [BufferReader.freeSize, h.readerSize]
    exact (Word.toNat_sub_eq_iff _ _).mpr h.reader
  writer := by
    rw [BufferWriter.freeSize, h.writerSize]
    exact (Word.toNat_sub_eq_iff _ _).mpr h.writer
  log := h.log

/-- No call of a run reaches past the buffer, and `FreeSize()` never wraps, exactly when
both constructors got a position within the buffer. -/
theorem safe_iff (size readPos writePos : UInt32) (calls : List Call) :
    (system size readPos writePos).Throughout (Safe size) calls (start size readPos writePos) ↔
      readPos ≤ size ∧ writePos ≤ size := by
  constructor
  · intro h
    have hstart : Safe size (start size readPos writePos) := by
      cases calls with
      | nil => exact h
      | cons => exact h.1
    exact ⟨(Word.toNat_sub_eq_iff _ _).mp hstart.reader,
      (Word.toNat_sub_eq_iff _ _).mp hstart.writer⟩
  · rintro ⟨hread, hwrite⟩
    have hinv : Inv size (start size readPos writePos) :=
      ⟨rfl, rfl, hread, hwrite, fun _ he => absurd he List.not_mem_nil⟩
    refine System.throughout_of_invariant (fun _ h => h.safe) (fun s c t h hnext => ?_) calls hinv
    cases hnext
    exact h.call c

/-- A reader at position 5 of a buffer of 4 bytes peeks at the byte at index 5. -/
theorem peek_past_end :
    ¬∀ (size readPos writePos : UInt32) (calls : List Call),
      (system size readPos writePos).Throughout (Safe size) calls
        (start size readPos writePos) := by
  intro h
  have hsafe : Safe 4 _ := (h 4 5 0 [.peek 1]).2 _ rfl
  have hentry := hsafe.log ⟨5, 1, false, [5]⟩ (by decide)
  exact absurd (hentry.copied 5 (by decide)) (by decide)

end Buffer

end ServerCore
