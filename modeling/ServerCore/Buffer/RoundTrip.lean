import ServerCore.Buffer.Basic

/-!
# What a reader gives back of what a writer has taken

The blocks that a writer accepts lie in the buffer one after the other, so a reader that
advanced would give them back. `BufferReader` never does: it answers false to every
call, and reads every block from its first position.
-/

namespace ServerCore

/-- After a writer has accepted the blocks, a reader from its first position gives them
back and stops where the writer does. -/
def ReadsBack (mem : Contents) (size pos : UInt32) (blocks : List Block) : Prop :=
  let written := BufferWriter.writeAll blocks (.new size pos) mem
  let result := BufferReader.readAll written.2.2 (blocks.map Block.len) (.new size pos)
  (∀ answer ∈ written.1, answer = true) →
    result.1 = blocks.map (fun block => (true, block.bytes)) ∧
      result.2.readSize = written.2.1.writeCursor

/-! ### The writer's side -/

namespace Contents

theorem store_cons (mem : Contents) (start : ℕ) (byte : UInt8) (rest : List UInt8) :
    mem.store (List.range' start (byte :: rest).length) (byte :: rest) =
      Contents.store (Function.update mem start byte) (List.range' (start + 1) rest.length) rest :=
  rfl

/-- A copy does not touch the bytes in front of it. -/
theorem store_before (mem : Contents) (start : ℕ) (src : List UInt8) {i : ℕ} (h : i < start) :
    mem.store (List.range' start src.length) src i = mem i := by
  induction src generalizing mem start with
  | nil => rfl
  | cons byte rest ih =>
      rw [store_cons, ih _ _ (show i < start + 1 by omega)]
      exact Function.update_of_ne (show i ≠ start by omega) _ _

theorem map_store (mem : Contents) (start : ℕ) (src : List UInt8) :
    (List.range' start src.length).map (mem.store (List.range' start src.length) src) = src := by
  induction src generalizing mem start with
  | nil => rfl
  | cons byte rest ih =>
      rw [store_cons, List.length_cons, List.range'_succ, List.map_cons, ih,
        store_before _ _ _ (Nat.lt_succ_self start), Function.update_self]

end Contents

namespace BufferWriter

variable {w : BufferWriter}

theorem writeAll_cons (block : Block) (rest : List Block) (mem : Contents) :
    writeAll (block :: rest) w mem =
      ((w.write block.len).1 ::
        (writeAll rest (w.write block.len).2.2 (mem.store (w.write block.len).2.1 block.bytes)).1,
        (writeAll rest (w.write block.len).2.2
          (mem.store (w.write block.len).2.1 block.bytes)).2) :=
  rfl

/-- The bytes of accepted blocks lie in the buffer one block after the other, from the
first position of the writer to its last, and nothing in front of them has changed. -/
theorem writeAll_stored (blocks : List Block) (mem : Contents)
    (hcursor : w.writeCursor ≤ w.size)
    (haccepted : ∀ answer ∈ (writeAll blocks w mem).1, answer = true) :
    (writeAll blocks w mem).2.1.writeCursor.toNat =
        w.writeCursor.toNat + (blocks.flatMap Block.bytes).length ∧
      (List.range' w.writeCursor.toNat (blocks.flatMap Block.bytes).length).map
        (writeAll blocks w mem).2.2 = blocks.flatMap Block.bytes ∧
      ∀ i < w.writeCursor.toNat, (writeAll blocks w mem).2.2 i = mem i := by
  induction blocks generalizing w mem with
  | nil => exact ⟨rfl, rfl, fun _ _ => rfl⟩
  | cons block rest ih =>
      rw [writeAll_cons] at haccepted ⊢
      obtain ⟨hwrite, hsum, hle⟩ :=
        write_accepted hcursor (haccepted _ List.mem_cons_self)
      rw [hwrite, block.toNat_len] at haccepted ⊢
      obtain ⟨hend, hbytes, hframe⟩ := ih _ hle
        fun answer hmem => haccepted answer (List.mem_cons_of_mem _ hmem)
      rw [hsum, block.toNat_len] at hend hbytes hframe
      rw [List.flatMap_cons, List.length_append]
      refine ⟨hend.trans (Nat.add_assoc _ _ _), ?_, fun i hi => ?_⟩
      · rw [← List.range'_append_1, List.map_append, hbytes]
        congr 1
        -- the later blocks leave this one alone
        refine Eq.trans (List.map_congr_left fun i hi => hframe i ?_)
          (mem.map_store w.writeCursor.toNat block.bytes)
        exact (List.mem_range'_1.mp hi).2
      · rw [hframe i (by omega)]
        exact Contents.store_before _ _ _ hi

end BufferWriter

/-- A `Read` that fits succeeds, and one that does not leaves the cursor. -/
def BufferReader.ReadFits (r : BufferReader) (len : UInt32) : Prop :=
  ((r.read len).1 = true ↔ len ≤ r.freeSize) ∧
    (¬len ≤ r.freeSize → (r.read len).2.2.readCursor = r.readCursor)

theorem BufferReader.readAll_answers (mem : Contents) (lens : List UInt32) (r : BufferReader) :
    ∀ result ∈ (BufferReader.readAll mem lens r).1, result.1 = false := by
  induction lens generalizing r with
  | nil => exact fun _ h => absurd h List.not_mem_nil
  | cons len rest ih =>
      rw [readAll, r.read_eq len]
      intro result hmem
      rcases List.mem_cons.mp hmem with rfl | hmem
      · rfl
      · exact ih r result hmem

theorem BufferReader.readFits_iff (r : BufferReader) (len : UInt32) :
    r.ReadFits len ↔ r.freeSize < len := by
  rw [ReadFits, r.read_eq len]
  constructor
  · rintro ⟨h, -⟩
    exact UInt32.not_le.mp fun hle => Bool.false_ne_true (h.mpr hle)
  · intro hlt
    have hnot := UInt32.not_le.mpr hlt
    exact ⟨⟨fun h => absurd h Bool.false_ne_true, fun hle => absurd hle hnot⟩, fun _ => rfl⟩

/-- What is written is read back exactly when nothing is written, and a `Read` answers
as it should exactly when it does not fit. -/
theorem readsBack_iff (mem : Contents) (size pos : UInt32) (blocks : List Block)
    (r : BufferReader) (len : UInt32) :
    (ReadsBack mem size pos blocks ↔ (blocks = [] ∨
      ∃ answer ∈ (BufferWriter.writeAll blocks (.new size pos) mem).1, answer = false)) ∧
    (r.ReadFits len ↔ r.freeSize < len) := by
  refine ⟨?_, r.readFits_iff len⟩
  constructor
  · intro h
    by_cases haccepted : ∀ answer ∈ (BufferWriter.writeAll blocks (.new size pos) mem).1,
        answer = true
    · left
      cases blocks with
      | nil => rfl
      | cons block rest =>
          -- the first answer would have to be true
          have hmem := (h haccepted).1 ▸ List.mem_map_of_mem List.mem_cons_self
          cases BufferReader.readAll_answers _ _ _ _ hmem
    · right
      obtain ⟨answer, hanswer⟩ := not_forall.mp haccepted
      obtain ⟨hmem, hne⟩ := Classical.not_imp.mp hanswer
      exact ⟨answer, hmem, Bool.eq_false_of_not_eq_true hne⟩
  · rintro (rfl | ⟨answer, hmem, rfl⟩)
    · exact fun _ => ⟨rfl, rfl⟩
    · exact fun haccepted => absurd (haccepted false hmem) Bool.false_ne_true

/-- One byte in a buffer of one byte: it is written, and `Read` answers false. -/
theorem readsBack_fails :
    (¬∀ (mem : Contents) (size pos : UInt32) (blocks : List Block),
      ReadsBack mem size pos blocks) ∧
    ¬∀ (r : BufferReader) (len : UInt32), r.readCursor ≤ r.size → r.ReadFits len := by
  constructor
  · intro h
    have hread := h (fun _ => 0) 1 0 [⟨[7], by decide⟩] (by decide)
    cases (List.cons.inj hread.1).1
  · intro h
    have hfits := h (.new 1) 1 (by decide)
    exact absurd (hfits.1.mpr (by decide)) (by decide)

end ServerCore
