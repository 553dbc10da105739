import ServerCore.Service.Basic
import ServerCore.Word

/-!
# The stomp allocator

`AllocateMemory` rounds a request up to whole pages and puts the block at their end, so
that the first byte past it faults. `ReleaseMemory` has nothing but the pointer, and goes
back to the page it points into. The padding is smaller than a page, so that page is the
first one, however many there are.
-/

namespace ServerCore

namespace StompAllocator

/-- `PAGE_SIZE`, an enumerator of type `int`. -/
def pageSize : Int32 := 0x1000

/-- `(_size + PAGE_SIZE - 1) / PAGE_SIZE` in `int`, widened. -/
def pageCount (size : Int32) : Int64 :=
  ((size + pageSize - 1) / pageSize).toInt64

def offset (size : Int32) : UInt64 :=
  (pageCount size * pageSize.toInt64 - size.toInt64).toUInt64

/-- The number of bytes that `VirtualAlloc` is asked for. -/
def reserved (size : Int32) : UInt64 :=
  (pageCount size * pageSize.toInt64).toUInt64

/-- `virtualAlloc` answers the request for a number of bytes; `none` is the end of the
process. -/
def allocateMemory (build : Build) (virtualAlloc : UInt64 → UInt64) (size : Int32) :
    Option UInt64 :=
  if build = .debug ∧ (size = 0 ∨ pageSize < size) then none
  else some (virtualAlloc (reserved size) + offset size)

/-- The address that `VirtualFree` gets. -/
def releaseMemory (address : UInt64) : UInt64 :=
  address - address % 0x1000

variable {size : Int32}

theorem toInt_pageCount (hpos : 0 < size.toInt) (hle : size.toInt ≤ 2 ^ 31 - 4096) :
    (pageCount size).toInt = (size.toInt + 4095) / 4096 := by
  have hsum : (size + pageSize - 1).toInt = size.toInt + 4095 := by
    rw [Int32.toInt_sub, Int32.toInt_add, Int.bmod_sub_bmod]
    have hconst : size.toInt + pageSize.toInt - (1 : Int32).toInt = size.toInt + 4095 := by
      show size.toInt + 4096 - 1 = _
      omega
    rw [hconst]
    apply Int.bmod_eq_of_le <;> omega
  rw [pageCount, Int32.toInt_toInt64, Int32.toInt_div_of_ne_right _ _ (by decide), hsum]
  exact Int.tdiv_eq_ediv_of_nonneg (by omega)

/-- The bytes of whole pages. -/
theorem toInt_pages (hpos : 0 < size.toInt) (hle : size.toInt ≤ 2 ^ 31 - 4096) :
    (pageCount size * pageSize.toInt64).toInt = (size.toInt + 4095) / 4096 * 4096 := by
  have hsize : pageSize.toInt64.toInt = 4096 := by decide
  rw [Int64.toInt_mul, toInt_pageCount hpos hle, hsize]
  apply Int.bmod_eq_of_le <;> omega

theorem toNat_reserved (hpos : 0 < size.toInt) (hle : size.toInt ≤ 2 ^ 31 - 4096) :
    ((reserved size).toNat : ℤ) = (size.toInt + 4095) / 4096 * 4096 := by
  rw [reserved, Word.toNat_toUInt64, toInt_pages hpos hle]
  rw [toInt_pages hpos hle]
  omega

/-- The padding in front of a block is less than a page. -/
theorem toNat_offset (hpos : 0 < size.toInt) (hle : size.toInt ≤ 2 ^ 31 - 4096) :
    ((offset size).toNat : ℤ) = (reserved size).toNat - size.toInt ∧ (offset size).toNat < 4096 := by
  have hdiff : (pageCount size * pageSize.toInt64 - size.toInt64).toInt =
      (size.toInt + 4095) / 4096 * 4096 - size.toInt := by
    rw [Int64.toInt_sub, toInt_pages hpos hle, Int32.toInt_toInt64]
    apply Int.bmod_eq_of_le <;> omega
  have hoffset : ((offset size).toNat : ℤ) = (size.toInt + 4095) / 4096 * 4096 - size.toInt := by
    rw [offset, Word.toNat_toUInt64, hdiff]
    rw [hdiff]
    omega
  have hreserved := toNat_reserved hpos hle
  omega

/-- What divides a page divides the padding exactly when it divides the size, also where
the arithmetic wraps. -/
theorem dvd_offset {k : ℕ} (hk : k ∣ 4096) (size : Int32) :
    k ∣ (offset size).toNat ↔ (k : ℤ) ∣ size.toInt := by
  have hword : k ∣ 2 ^ 64 := hk.trans (by decide)
  have hpages : (k : ℤ) ∣ (pageCount size * pageSize.toInt64).toInt := by
    rw [Int64.toInt_mul, Word.dvd_bmod hword]
    exact Dvd.dvd.mul_left (Int.natCast_dvd_natCast.mpr hk) _
  rw [offset, Word.dvd_toUInt64 hword, Int64.toInt_sub, Word.dvd_bmod hword, Int32.toInt_toInt64,
    Int.sub_eq_add_neg, Int.dvd_add_right hpages, Int.dvd_neg]

/-- A pointer into the first page of an aligned region leads back to its base. -/
theorem releaseMemory_add {base offset : UInt64} (haligned : 4096 ∣ base.toNat)
    (hoffset : offset.toNat < 4096) : releaseMemory (base + offset) = base := by
  have hbase := base.toNat_lt
  have hsum : (base + offset).toNat = base.toNat + offset.toNat := by
    rw [UInt64.toNat_add]
    exact Nat.mod_eq_of_lt (by omega)
  have hmod : ((base + offset) % 0x1000).toNat = offset.toNat := by
    rw [UInt64.toNat_mod, hsum]
    show (base.toNat + offset.toNat) % 4096 = offset.toNat
    omega
  apply UInt64.toNat_inj.mp
  rw [releaseMemory, UInt64.toNat_sub_of_le]
  · omega
  · rw [UInt64.le_iff_toNat_le]
    omega

/-- Every block that is returned ends where its last page ends, and releasing it frees
the base that `VirtualAlloc` returned. The Release build returns a block for every size,
the Debug build for those of one page. -/
theorem releaseMemory_base (build : Build) (virtualAlloc : UInt64 → UInt64)
    (hpos : 0 < size.toInt) (hle : size.toInt ≤ 2 ^ 31 - 4096)
    (haligned : 4096 ∣ (virtualAlloc (reserved size)).toNat)
    (hfits : (virtualAlloc (reserved size)).toNat + (reserved size).toNat ≤ 2 ^ 64) :
    (∀ address, allocateMemory build virtualAlloc size = some address →
      releaseMemory address = virtualAlloc (reserved size) ∧
      (address.toNat : ℤ) + size.toInt =
        (virtualAlloc (reserved size)).toNat + (reserved size).toNat ∧
      ((reserved size).toNat : ℤ) = (pageCount size).toInt * 4096) ∧
    ((allocateMemory build virtualAlloc size).isSome ↔
      build = .debug → size.toInt ≤ 4096) := by
  obtain ⟨hoffset, hlt⟩ := toNat_offset hpos hle
  have hreserved := toNat_reserved hpos hle
  constructor
  · intro address h
    rw [allocateMemory] at h
    split at h
    · cases h
    · cases h
      refine ⟨releaseMemory_add haligned hlt, ?_, ?_⟩
      · rw [UInt64.toNat_add, Nat.mod_eq_of_lt (by omega)]
        omega
      · rw [hreserved, toInt_pageCount hpos hle]
  · have hzero : size ≠ 0 := by
      rintro rfl
      exact absurd hpos (by decide)
    have hsize : pageSize < size ↔ 4096 < size.toInt := Int32.lt_iff_toInt_lt
    rw [allocateMemory]
    split <;> rename_i h
    · obtain ⟨rfl, h⟩ := h
      have := hsize.mp (h.resolve_left hzero)
      simp only [Option.isSome_none, Bool.false_eq_true, forall_const, false_iff]
      omega
    · simp only [Option.isSome_some, true_iff]
      rintro rfl
      have := mt hsize.mpr fun hlarge => h ⟨rfl, .inr hlarge⟩
      omega

/-- Two pages and a byte, in three pages, by the Release build. -/
theorem releaseMemory_base_three :
    ∃ address, allocateMemory .release (fun _ => 0x10000) 8193 = some address ∧
      releaseMemory address = 0x10000 ∧
      (address.toNat : ℤ) + (8193 : Int32).toInt = 0x10000 + (reserved 8193).toNat ∧
      ((reserved 8193).toNat : ℤ) = (pageCount 8193).toInt * 4096 :=
  ⟨_, rfl, (releaseMemory_base .release (fun _ => 0x10000) (by decide) (by decide)
    (by decide) (by decide)).1 _ rfl⟩

end StompAllocator

end ServerCore
