import ServerCore.Memory.Table

/-!
# The size that a container's request reaches the manager with

`STL_Allocator::allocate` computes its bytes in `size_t`, narrows them to `int32` and
passes them on as `uint32`; `Allocate` adds the header in `uint32`. Neither step looks at
what it loses, so a request from `2 ^ 32` bytes on, header included, is served as if it
were smaller by a multiple of `2 ^ 32`.
-/

namespace ServerCore

namespace Memory

open Interleaving

/-- The width of `size_t`. -/
def Target.sizeTWidth : Target → ℕ
  | .win32 => 32
  | .x64 => 64

/-- `PoolAllocator::AllocateMemory`. -/
def PoolAllocator.allocateMemory (target : Target) (m : Heap) (size : UInt32) : Option Pc :=
  Memory.allocate target m size

namespace STLAllocator

/-- `static_cast<int32>(_count * sizeof(Type))` as a `uint32`. -/
def size (target : Target) (sizeofType count : ℕ) : UInt32 :=
  (Int32.ofNat (count * sizeofType % 2 ^ target.sizeTWidth)).toUInt32

/-- `STL_Allocator::allocate`, up to the first step of `Allocate`. -/
def allocate (target : Target) (m : Heap) (sizeofType count : ℕ) : Option Pc :=
  PoolAllocator.allocateMemory target m (size target sizeofType count)

end STLAllocator

/-- The bytes that the next step of `Allocate` asks for: the class size of the pool, or
the argument of `_aligned_malloc`. -/
def Heap.requested (m : Heap) : Pc → Option ℕ
  | .popEntry _ k => m.manager.classSizes[k]?
  | .largeMalloc allocSize => some allocSize.toNat
  | _ => none

variable {target : Target} {Tid : Type} [DecidableEq Tid] {s : State Tid} {pc : Pc}

/-- `Allocate` asks for as many bytes as its `uint32` sum says, or more. -/
theorem allocate_requested (h : (system target).Reachable System.anyStep s) {size : UInt32}
    (halloc : allocate target s.heap size = some pc) :
    ∃ bytes, s.heap.requested pc = some bytes ∧
      (size + target.sizeofMemoryHeader).toNat ≤ bytes ∧ bytes < 2 ^ 32 := by
  rw [allocate] at halloc
  split at halloc
  · cases halloc
    exact ⟨_, rfl, Nat.le_refl _, UInt32.toNat_lt _⟩
  · obtain ⟨k, hentry, rfl⟩ := Option.map_eq_some_iff.mp halloc
    obtain ⟨htable, hclasses⟩ := reachable_manager h
    rw [htable, MemoryManager.new_poolTable] at hentry
    obtain ⟨bytes, hsize, ⟨hmem, hle⟩, -⟩ := isLeast_of_findIdx? madeClasses_sorted hentry
    have hmax : ∀ bytes ∈ madeClasses, bytes < 2 ^ 32 := by decide
    refine ⟨bytes, ?_, hle, hmax bytes hmem⟩
    rw [Heap.requested, hclasses, MemoryManager.new_classSizes, hsize]

theorem STLAllocator.toNat_size {sizeofType count : ℕ}
    (hfits : count * sizeofType < 2 ^ target.sizeTWidth) :
    (STLAllocator.size target sizeofType count).toNat = count * sizeofType % 2 ^ 32 := by
  rw [STLAllocator.size, Nat.mod_eq_of_lt hfits]
  exact UInt32.toNat_ofNat

/-- A successful `allocate` asks for enough bytes exactly when the bytes and the header
fit 32 bits. -/
theorem stlAllocate_enough_iff (h : (system target).Reachable System.anyStep s)
    {sizeofType count : ℕ} (hfits : count * sizeofType < 2 ^ target.sizeTWidth)
    (halloc : STLAllocator.allocate target s.heap sizeofType count = some pc) :
    (∃ bytes, s.heap.requested pc = some bytes ∧
      count * sizeofType + target.sizeofMemoryHeader.toNat ≤ bytes) ↔
      count * sizeofType + target.sizeofMemoryHeader.toNat < 2 ^ 32 := by
  obtain ⟨bytes, hrequested, hle, hlt⟩ := allocate_requested h halloc
  rw [UInt32.toNat_add, STLAllocator.toNat_size hfits] at hle
  rw [hrequested]
  constructor
  · rintro ⟨_, ⟨⟩, henough⟩
    exact Nat.lt_of_le_of_lt henough hlt
  · intro hsum
    refine ⟨bytes, rfl, ?_⟩
    rwa [Nat.mod_eq_of_lt (show count * sizeofType < 2 ^ 32 by omega),
      Nat.mod_eq_of_lt hsum] at hle

/-- Three elements of eight bytes. -/
theorem stlAllocate_enough_iff_small :
    ∃ pc, STLAllocator.allocate .x64 {} 8 3 = some pc ∧
      ((∃ bytes, ({} : Heap).requested pc = some bytes ∧
        3 * 8 + Target.x64.sizeofMemoryHeader.toNat ≤ bytes) ↔
        3 * 8 + Target.x64.sizeofMemoryHeader.toNat < 2 ^ 32) := by
  obtain ⟨pc, hpc⟩ : ∃ pc, STLAllocator.allocate .x64 {} 8 3 = some pc := by
    apply Option.isSome_iff_exists.mp
    decide +kernel
  exact ⟨pc, hpc, stlAllocate_enough_iff (s := ({} : State (Fin 1))) (.start rfl) (by decide) hpc⟩

/-- `2 ^ 29` elements of eight bytes are served by the class of 32 bytes. -/
theorem stlAllocate_tiny :
    ¬∀ (target : Target) (s : State (Fin 1)) (sizeofType count : ℕ) (pc : Pc),
      (system target).Reachable System.anyStep s → 1 ≤ sizeofType →
      count * sizeofType < 2 ^ target.sizeTWidth →
      STLAllocator.allocate target s.heap sizeofType count = some pc →
      ∃ bytes, s.heap.requested pc = some bytes ∧
        count * sizeofType + target.sizeofMemoryHeader.toNat ≤ bytes := by
  intro hall
  obtain ⟨pc, hpc⟩ : ∃ pc, STLAllocator.allocate .x64 {} 8 (2 ^ 29) = some pc := by
    apply Option.isSome_iff_exists.mp
    decide +kernel
  obtain ⟨bytes, hrequested, hle⟩ := hall .x64 {} 8 (2 ^ 29) pc (.start rfl) (by decide)
    (by decide) hpc
  have hstart : (system .x64).Reachable System.anyStep ({} : State (Fin 1)) := .start rfl
  rw [STLAllocator.allocate, PoolAllocator.allocateMemory] at hpc
  obtain ⟨bytes', hrequested', -, hlt⟩ := allocate_requested hstart hpc
  rw [hrequested] at hrequested'
  cases hrequested'
  omega

end Memory

end ServerCore
