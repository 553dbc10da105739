import Mathlib.Data.List.Sort
import Mathlib.Order.Bounds.Basic
import ServerCore.Memory.Basic

/-!
# Which sizes the table covers

The comments in `MemoryManager`'s constructor list 1152 and 2304 as the first classes of
the second and of the third loop. Each loop starts where the increment of the one before
has left `size`, at 1056 and at 2080, so all classes above 1024 are others than listed
there. The last one is 3872, and the table entries behind it are never written, although
sizes up to `MAX_ALLOC_SIZE` are taken from the table.
-/

namespace ServerCore

namespace Memory

open Interleaving

/-- In a sorted list, the first element that is large enough is the least one. -/
theorem isLeast_of_findIdx? {α : Type*} [LinearOrder α] {l : List α} {a : α} {k : ℕ}
    (hsorted : l.Pairwise (· ≤ ·)) (h : l.findIdx? (a ≤ ·) = some k) :
    ∃ x, l[k]? = some x ∧ IsLeast {y | y ∈ l ∧ a ≤ y} x := by
  obtain ⟨hk, hfits, hfirst⟩ := List.findIdx?_eq_some_iff_getElem.mp h
  refine ⟨l[k], List.getElem?_eq_getElem hk, ⟨List.getElem_mem hk, of_decide_eq_true hfits⟩, ?_⟩
  rintro y ⟨hmem, hy⟩
  obtain ⟨j, hj, rfl⟩ := List.getElem_of_mem hmem
  obtain hlt | rfl | hgt := Nat.lt_trichotomy j k
  · exact absurd (decide_eq_true hy) (hfirst j hlt)
  · exact le_refl _
  · exact List.pairwise_iff_getElem.mp hsorted k j hk hj hgt

section Classes

variable {limit stride : ℕ}

/-- The classes of one loop: `n` rounds, the last one with a `size` up to the limit. -/
theorem Construction.addPools_classes {n fuel : ℕ} {c : Construction} (hfuel : n < fuel)
    (hrounds : ∀ i < n, c.size + stride * i ≤ limit) (hends : limit < c.size + stride * n) :
    (c.addPools limit stride fuel).manager.classSizes =
        c.manager.classSizes ++ (List.range n).map (c.size + stride * ·) ∧
      (c.addPools limit stride fuel).size = c.size + stride * n := by
  induction n generalizing fuel c with
  | zero =>
      obtain ⟨fuel, rfl⟩ := Nat.exists_eq_succ_of_ne_zero (Nat.ne_of_gt hfuel)
      rw [Construction.addPools, if_neg (by omega)]
      exact ⟨(List.append_nil _).symm, rfl⟩
  | succ n ih =>
      obtain ⟨fuel, rfl⟩ := Nat.exists_eq_succ_of_ne_zero (Nat.ne_of_gt (Nat.zero_lt_of_lt hfuel))
      have hfirst := hrounds 0 (Nat.succ_pos n)
      rw [Nat.mul_zero, Nat.add_zero] at hfirst
      rw [Construction.addPools, if_pos hfirst]
      have hshift : ∀ i, c.size + stride + stride * i = c.size + stride * (i + 1) := by
        intro i
        rw [Nat.mul_succ]
        omega
      obtain ⟨hclasses, hsize⟩ := ih (c := { c.addPool with size := c.addPool.size + stride })
        (Nat.lt_of_succ_lt_succ hfuel) (fun i hi => by
          change c.size + stride + stride * i ≤ limit
          rw [hshift]
          exact hrounds (i + 1) (Nat.succ_lt_succ hi))
        (by
          change limit < c.size + stride + stride * n
          rwa [hshift])
      refine ⟨hclasses.trans ?_, hsize.trans (hshift n)⟩
      change (c.manager.classSizes ++ [c.size]) ++
        (List.range n).map (c.size + stride + stride * ·) = _
      rw [List.append_assoc, List.range_succ_eq_map, List.map_cons, List.map_map, Nat.mul_zero,
        Nat.add_zero, List.singleton_append]
      congr 2
      exact List.map_congr_left fun i _ => hshift i

/-- The classes that the loops make. -/
def madeClasses : List ℕ :=
  (List.range 32).map (32 + 32 * ·) ++ (List.range 8).map (1056 + 128 * ·) ++
    (List.range 8).map (2080 + 256 * ·)

/-- The classes that the comments in the constructor list. -/
def documentedClasses : List ℕ :=
  (List.range 32).map (32 + 32 * ·) ++ (List.range 8).map (1152 + 128 * ·) ++
    (List.range 8).map (2304 + 256 * ·)

theorem MemoryManager.new_classSizes : MemoryManager.new.classSizes = madeClasses := by
  have hsmall : Construction.smallClasses.manager.classSizes =
        [] ++ (List.range 32).map (32 + 32 * ·) ∧
      Construction.smallClasses.size = 32 + 32 * 32 :=
    Construction.addPools_classes (by decide) (by decide) (by decide)
  have hmiddle : Construction.middleClasses.manager.classSizes =
        Construction.smallClasses.manager.classSizes ++
          (List.range 8).map (Construction.smallClasses.size + 128 * ·) ∧
      Construction.middleClasses.size = Construction.smallClasses.size + 128 * 8 := by
    rw [Construction.middleClasses]
    apply Construction.addPools_classes (by decide) <;> rw [hsmall.2] <;> decide
  have hmiddleSize : Construction.middleClasses.size = 2080 := hmiddle.2.trans (by rw [hsmall.2])
  have hlarge : Construction.largeClasses.manager.classSizes =
        Construction.middleClasses.manager.classSizes ++
          (List.range 8).map (Construction.middleClasses.size + 256 * ·) ∧
      Construction.largeClasses.size = Construction.middleClasses.size + 256 * 8 := by
    rw [Construction.largeClasses]
    apply Construction.addPools_classes (by decide) <;> rw [hmiddleSize] <;> decide
  rw [MemoryManager.new, hlarge.1, hmiddle.1, hsmall.1, hmiddleSize, hsmall.2]
  rfl

end Classes

section Sizes

/-- The table entry is a pool of the constructor, the smallest one that is large enough. -/
def MemoryManager.Tight (m : MemoryManager) (allocSize : ℕ) : Prop :=
  ∃ k size, m.poolTable allocSize = some k ∧ k < m.pools.length ∧ m.classSizes[k]? = some size ∧
    IsLeast {c | c ∈ m.classSizes ∧ allocSize ≤ c} size

/-- The table entry is a pool of the class that the constructor documents for the size. -/
def MemoryManager.Documented (m : MemoryManager) (allocSize : ℕ) : Prop :=
  ∃ k size, m.poolTable allocSize = some k ∧ m.classSizes[k]? = some size ∧
    IsLeast {c | c ∈ documentedClasses ∧ allocSize ≤ c} size

theorem MemoryManager.new_poolTable (allocSize : ℕ) :
    MemoryManager.new.poolTable allocSize = madeClasses.findIdx? (allocSize ≤ ·) := by
  rw [← new_classSizes, MemoryManager.new]
  exact Construction.largeClasses_sound.poolTable allocSize

theorem madeClasses_sorted : madeClasses.Pairwise (· ≤ ·) := by decide

/-- The last entry that a loop writes is the one of the largest class. -/
theorem MemoryManager.new_poolTable_isSome (allocSize : ℕ) :
    (MemoryManager.new.poolTable allocSize).isSome ↔ allocSize ≤ 3872 := by
  rw [new_poolTable, List.findIdx?_isSome, List.any_eq_true]
  constructor
  · rintro ⟨size, hmem, hle⟩
    have hmax : ∀ size ∈ madeClasses, size ≤ 3872 := by decide
    exact le_trans (of_decide_eq_true hle) (hmax size hmem)
  · intro hle
    exact ⟨3872, by decide, decide_eq_true hle⟩

theorem MemoryManager.new_tight_iff (allocSize : ℕ) :
    MemoryManager.new.Tight allocSize ↔ allocSize ≤ 3872 := by
  rw [← new_poolTable_isSome]
  constructor
  · rintro ⟨k, size, hentry, -⟩
    rw [hentry]
    rfl
  · intro hsome
    obtain ⟨k, hentry⟩ := Option.isSome_iff_exists.mp hsome
    have hfound := hentry
    rw [new_poolTable] at hfound
    obtain ⟨size, hsize, hleast⟩ := isLeast_of_findIdx? madeClasses_sorted hfound
    rw [← new_classSizes] at hsize hleast
    refine ⟨k, size, hentry, ?_, hsize, hleast⟩
    have hlt := (List.getElem?_eq_some_iff.mp hsize).1
    rw [MemoryManager.new] at hlt ⊢
    rwa [Construction.largeClasses_sound.pools]

/-- The two lists of classes agree up to 1024 and have nothing in common above. -/
theorem mem_documentedClasses_iff {size : ℕ} (hmem : size ∈ madeClasses) :
    size ∈ documentedClasses ↔ size ≤ 1024 := by
  have hall : ∀ size ∈ madeClasses, size ∈ documentedClasses ↔ size ≤ 1024 := by decide
  exact hall size hmem

theorem mem_madeClasses {size : ℕ} (hmem : size ∈ documentedClasses) (hle : size ≤ 1024) :
    size ∈ madeClasses := by
  have hall : ∀ size ∈ documentedClasses, size ≤ 1024 → size ∈ madeClasses := by decide
  exact hall size hmem hle

/-- A class above 1024 is never the documented one. -/
theorem MemoryManager.new_tight_documented_iff (allocSize : ℕ) :
    MemoryManager.new.Tight allocSize ∧ MemoryManager.new.Documented allocSize ↔
      allocSize ≤ 1024 := by
  constructor
  · rintro ⟨-, k, size, -, hsize, ⟨hmem, hle⟩, -⟩
    have hmade := List.mem_of_getElem? hsize
    rw [new_classSizes] at hmade
    exact le_trans hle ((mem_documentedClasses_iff hmade).mp hmem)
  · intro hle
    have htight := (new_tight_iff allocSize).mpr (by omega)
    refine ⟨htight, ?_⟩
    obtain ⟨k, size, hentry, -, hsize, ⟨hmem, hfits⟩, hleast⟩ := htight
    rw [new_classSizes] at hmem hleast
    have hsmall : size ≤ 1024 := hleast ⟨by decide, hle⟩
    refine ⟨k, size, hentry, hsize, ⟨(mem_documentedClasses_iff hmem).mpr hsmall, hfits⟩, ?_⟩
    rintro other ⟨hother, hfitsOther⟩
    by_cases habove : other ≤ 1024
    · exact hleast ⟨mem_madeClasses hother habove, hfitsOther⟩
    · omega

end Sizes

section Calls

variable {target : Target} {Tid : Type} [DecidableEq Tid] {s : State Tid}

/-- The table and the classes stay those of the constructor. -/
theorem reachable_manager (h : (system target).Reachable System.anyStep s) :
    s.heap.manager.poolTable = MemoryManager.new.poolTable ∧
      s.heap.manager.classSizes = MemoryManager.new.classSizes := by
  apply h.invariant (I := fun s => s.heap.manager.poolTable = MemoryManager.new.poolTable ∧
    s.heap.manager.classSizes = MemoryManager.new.classSizes)
  · rintro s rfl
    exact ⟨rfl, rfl⟩
  · intro s e s' hs _ hnext
    obtain ⟨-, ⟨t, size, pc, rfl, -, -, rfl⟩ | ⟨t, b, rfl, -, -, rfl⟩ |
      ⟨t, u, b, mid, rfl, -, rfl, rfl⟩ |
      ⟨t, contents, pc, m, outcome, rfl, -, hstep, rfl⟩⟩ := next_cases hnext
    · exact hs
    · exact hs
    · exact hs
    · rw [settle_heap]
      cases hstep <;> exact hs

/-- A size that goes through the table has an entry there up to 3872. The entry is tight
for these sizes, and as documented up to 1024. In any state `Allocate` finds one exactly
up to 3872. -/
theorem sizeClass_iff (h : (system target).Reachable System.anyStep s) {size : UInt32}
    (hpooled : size + target.sizeofMemoryHeader ≤ maxAllocSize) :
    (MemoryManager.new.Tight (size + target.sizeofMemoryHeader).toNat ↔
      size + target.sizeofMemoryHeader ≤ 3872) ∧
    (MemoryManager.new.Tight (size + target.sizeofMemoryHeader).toNat ∧
      MemoryManager.new.Documented (size + target.sizeofMemoryHeader).toNat ↔
      size + target.sizeofMemoryHeader ≤ 1024) ∧
    ((allocate target s.heap size).isSome ↔ size + target.sizeofMemoryHeader ≤ 3872) := by
  refine ⟨MemoryManager.new_tight_iff _, MemoryManager.new_tight_documented_iff _, ?_⟩
  rw [allocate, if_neg (UInt32.not_lt.mpr hpooled), Option.isSome_map, (reachable_manager h).1]
  exact MemoryManager.new_poolTable_isSome _

/-- A request of 1000 bytes is served by the class of 1056 bytes, which is not documented. -/
theorem sizeClass_iff_thousand :
    (MemoryManager.new.Tight (1000 + Target.x64.sizeofMemoryHeader).toNat ↔
      1000 + Target.x64.sizeofMemoryHeader ≤ 3872) ∧
    (MemoryManager.new.Tight (1000 + Target.x64.sizeofMemoryHeader).toNat ∧
      MemoryManager.new.Documented (1000 + Target.x64.sizeofMemoryHeader).toNat ↔
      1000 + Target.x64.sizeofMemoryHeader ≤ 1024) ∧
    ((allocate .x64 {} 1000).isSome ↔ 1000 + Target.x64.sizeofMemoryHeader ≤ 3872) :=
  sizeClass_iff (s := ({} : State (Fin 1))) (.start rfl) (by decide)

/-- A request of 4000 bytes reads an entry that was never written, and the first class
of the second loop is 1056. -/
theorem sizeClass_hole :
    (¬∀ (target : Target) (size : UInt32), size + target.sizeofMemoryHeader ≤ maxAllocSize →
      MemoryManager.new.Tight (size + target.sizeofMemoryHeader).toNat) ∧
    MemoryManager.new.classSizes ≠ documentedClasses := by
  constructor
  · intro hall
    have htight := hall .x64 4000 (by decide)
    rw [MemoryManager.new_tight_iff] at htight
    exact absurd htight (by decide)
  · rw [MemoryManager.new_classSizes]
    decide

end Calls

end Memory

end ServerCore
