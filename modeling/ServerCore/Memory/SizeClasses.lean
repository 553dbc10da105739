import Mathlib.Data.List.Basic
import Mathlib.Logic.Function.Basic

/-!
# Memory pools and the size-class table

`MemoryManager` creates one `MemoryPool` for each size class and fills a table from
request sizes to pools. Three loops share the running `size` and `tableIndex`, and
each continues from wherever the one before left them. A pool pointer is the index
of the pool in `pools`; `none` is a table entry that no loop has written.

`classSizes` records the constructor argument of each pool. The pools do not keep
it: `MemoryPool`'s constructor initialises the list head and nothing else, so
`allocSize` keeps its default.
-/

namespace ServerCore

namespace Memory

/-- An address that `_aligned_malloc` returned, counted over all calls. -/
abbrev Block := ℕ

/-- `MAX_ALLOC_SIZE`. -/
def maxAllocSize : UInt32 := 0x1000

/-- The free list and the block size of a pool. Its two usage counters are only
written, and left out here (see `Counter`). -/
structure MemoryPool where
  header : List Block := []
  allocSize : Int32 := 0
  deriving DecidableEq, Repr

/-- `MemoryPool::MemoryPool`. -/
def MemoryPool.new (_allocSize : Int32) : MemoryPool := { header := [] }

structure MemoryManager where
  pools : List MemoryPool := []
  poolTable : ℕ → Option ℕ := fun _ => none
  classSizes : List ℕ := []

/-- The constructor's locals and the manager under construction. -/
structure Construction where
  manager : MemoryManager := {}
  size : ℕ := 0
  tableIndex : ℕ := 0

/-- `while (tableIndex <= size) poolTable[tableIndex++] = pool`, by recursion on the
iterations left. -/
def fillTable (pool : ℕ) : ℕ → (ℕ → Option ℕ) → ℕ → (ℕ → Option ℕ) × ℕ
  | 0, poolTable, tableIndex => (poolTable, tableIndex)
  | n + 1, poolTable, tableIndex =>
      fillTable pool n (Function.update poolTable tableIndex (some pool)) (tableIndex + 1)

/-- The body of the constructor's loops. -/
def Construction.addPool (c : Construction) : Construction :=
  let pool := c.manager.pools.length
  let (poolTable, tableIndex) :=
    fillTable pool (c.size + 1 - c.tableIndex) c.manager.poolTable c.tableIndex
  { c with
    manager :=
      { pools := c.manager.pools ++ [.new (Int32.ofNat c.size)]
        poolTable
        classSizes := c.manager.classSizes ++ [c.size] }
    tableIndex }

/-- `for (; size <= limit; size += stride)`, with fuel for its iterations. -/
def Construction.addPools (limit stride : ℕ) : ℕ → Construction → Construction
  | 0, c => c
  | fuel + 1, c =>
      if c.size ≤ limit then
        addPools limit stride fuel { c.addPool with size := c.addPool.size + stride }
      else c

/-- The constructor's three loops. Each has enough fuel, as its stride is positive. -/
def Construction.smallClasses : Construction :=
  Construction.addPools 1024 32 1024 { size := 32 }

def Construction.middleClasses : Construction :=
  Construction.addPools 2048 128 2048 smallClasses

def Construction.largeClasses : Construction :=
  Construction.addPools maxAllocSize.toNat 256 maxAllocSize.toNat middleClasses

/-- `MemoryManager::MemoryManager`. -/
def MemoryManager.new : MemoryManager := Construction.largeClasses.manager

/-- What the inner loop writes. -/
theorem fillTable_eq (pool n : ℕ) (poolTable : ℕ → Option ℕ) (tableIndex : ℕ) :
    (fillTable pool n poolTable tableIndex).2 = tableIndex + n ∧
      ∀ i, (fillTable pool n poolTable tableIndex).1 i =
        if tableIndex ≤ i ∧ i < tableIndex + n then some pool else poolTable i := by
  induction n generalizing poolTable tableIndex with
  | zero =>
      refine ⟨rfl, fun i => ?_⟩
      rw [if_neg (by omega)]
      rfl
  | succ n ih =>
      obtain ⟨hindex, htable⟩ :=
        ih (Function.update poolTable tableIndex (some pool)) (tableIndex + 1)
      rw [fillTable]
      refine ⟨by omega, fun i => ?_⟩
      rw [htable i]
      by_cases hi : i = tableIndex
      · subst hi
        rw [if_neg (by omega), if_pos (by omega), Function.update_self]
      · rw [Function.update_of_ne hi]
        by_cases hrange : tableIndex ≤ i ∧ i < tableIndex + (n + 1)
        · rw [if_pos (by omega), if_pos hrange]
        · rw [if_neg (by omega), if_neg hrange]

/-- What holds of the manager under construction: a table entry points to the first
class that is large enough, and no pool knows its size. -/
structure Construction.Sound (c : Construction) : Prop where
  poolTable : ∀ i, c.manager.poolTable i = c.manager.classSizes.findIdx? (i ≤ ·)
  below : ∀ size ∈ c.manager.classSizes, size < c.tableIndex
  top : 0 < c.tableIndex → c.tableIndex - 1 ∈ c.manager.classSizes
  pools : c.manager.pools.length = c.manager.classSizes.length
  allocSize : ∀ pool ∈ c.manager.pools, pool = {}

theorem Construction.Sound.addPool {c : Construction} (h : c.Sound) (hsize : c.tableIndex ≤ c.size) :
    c.addPool.Sound := by
  obtain ⟨hindex, htable⟩ := fillTable_eq c.manager.pools.length (c.size + 1 - c.tableIndex)
    c.manager.poolTable c.tableIndex
  have hnext : c.addPool.tableIndex = c.size + 1 := by
    change (fillTable _ _ _ _).2 = _
    omega
  refine ⟨fun i => ?_, fun size hmem => ?_, fun _ => ?_, ?_, fun pool hmem => ?_⟩
  · change (fillTable _ _ _ _).1 i = (c.manager.classSizes ++ [c.size]).findIdx? (i ≤ ·)
    rw [htable i, h.poolTable i, List.findIdx?_append, h.pools]
    by_cases hfound : i < c.tableIndex
    · -- The last class before this one is already large enough.
      obtain ⟨k, hk⟩ : ∃ k, c.manager.classSizes.findIdx? (i ≤ ·) = some k := by
        apply Option.isSome_iff_exists.mp
        rw [List.findIdx?_isSome, List.any_eq_true]
        refine ⟨c.tableIndex - 1, h.top (by omega), ?_⟩
        simp only [decide_eq_true_eq]
        omega
      rw [if_neg (by omega), hk]
      rfl
    · have hnone : c.manager.classSizes.findIdx? (i ≤ ·) = none := by
        rw [List.findIdx?_eq_none_iff]
        intro size hmem
        have := h.below size hmem
        simp only [decide_eq_false_iff_not]
        omega
      rw [hnone]
      by_cases hfits : i ≤ c.size
      · rw [if_pos (by omega)]
        simp [hfits]
      · rw [if_neg (by omega)]
        simp [hfits]
  · rw [hnext]
    obtain hold | hnew := List.mem_append.mp hmem
    · have := h.below size hold
      omega
    · rw [List.mem_singleton.mp hnew]
      omega
  · rw [hnext]
    exact List.mem_append_right _ (List.mem_singleton_self _)
  · change (c.manager.pools ++ [_]).length = (c.manager.classSizes ++ [_]).length
    rw [List.length_append, List.length_append, h.pools]
    rfl
  · obtain hold | hnew := List.mem_append.mp hmem
    · exact h.allocSize pool hold
    · rw [List.mem_singleton.mp hnew]
      rfl

theorem Construction.Sound.addPools {c : Construction} (h : c.Sound)
    (hsize : c.tableIndex ≤ c.size) (limit : ℕ) {stride : ℕ} (hstride : 0 < stride) (fuel : ℕ) :
    (c.addPools limit stride fuel).Sound ∧
      (c.addPools limit stride fuel).tableIndex ≤ (c.addPools limit stride fuel).size := by
  induction fuel generalizing c with
  | zero => exact ⟨h, hsize⟩
  | succ fuel ih =>
      rw [Construction.addPools]
      split
      · have hadded := h.addPool hsize
        have hnext : c.addPool.tableIndex = c.size + 1 := by
          obtain ⟨hindex, -⟩ := fillTable_eq c.manager.pools.length (c.size + 1 - c.tableIndex)
            c.manager.poolTable c.tableIndex
          change (fillTable _ _ _ _).2 = _
          omega
        refine ih ⟨hadded.poolTable, hadded.below, hadded.top, hadded.pools, hadded.allocSize⟩ ?_
        change c.addPool.tableIndex ≤ c.size + stride
        omega
      · exact ⟨h, hsize⟩

/-- The constructed table selects, for each size, the first class that is large
enough, and all pools are alike. -/
theorem Construction.largeClasses_sound : Construction.largeClasses.Sound := by
  have hstart : Construction.Sound { size := 32 } := {
    poolTable := fun _ => rfl
    below := fun _ h => (List.not_mem_nil h).elim
    top := fun h => (Nat.lt_irrefl 0 h).elim
    pools := rfl
    allocSize := fun _ h => (List.not_mem_nil h).elim }
  obtain ⟨hsmall, hsize⟩ := hstart.addPools (Nat.zero_le _) 1024 (show 0 < 32 by decide) 1024
  obtain ⟨hmiddle, hsize⟩ := hsmall.addPools hsize 2048 (show 0 < 128 by decide) 2048
  exact (hmiddle.addPools hsize maxAllocSize.toNat (show 0 < 256 by decide) maxAllocSize.toNat).1

/-- No pool of a new manager knows its size. -/
theorem MemoryManager.new_pools {pool : MemoryPool} (h : pool ∈ MemoryManager.new.pools) :
    pool = {} := by
  rw [MemoryManager.new] at h
  exact Construction.largeClasses_sound.allocSize pool h

end Memory

end ServerCore
