import ServerCore.Memory.Ownership

/-!
# How big a pooled block is

`MemoryPool::Pop` asks `_aligned_malloc` for the pool's `allocSize`. The constructor
takes the class size and drops it, so `allocSize` is zero in every pool, and every
block that a pool has ever obtained has no usable bytes (`reachable_sizeless`). A
recycled block was obtained by its pool (`Owned.lists`), so it is no bigger than a
fresh one.
-/

namespace ServerCore

namespace Memory

open Interleaving

/-- The pools do not know their sizes, and their blocks have none. -/
structure Sizeless (m : Heap) : Prop where
  pools : ∀ (k : ℕ) (pool : MemoryPool), m.manager.pools[k]? = some pool → pool.allocSize = 0
  blocks : ∀ b k, m.origin b = some k → m.capacity b = 0

variable {target : Target} {contents : UInt32} {m m' : Heap} {pc : Pc} {outcome : Outcome}

theorem Sizeless.setList (h : Sizeless m) {k : ℕ} {pool : MemoryPool}
    (hpool : m.manager.pools[k]? = some pool) (header : List Block) :
    Sizeless (m.setList k pool header) := by
  refine ⟨fun i pool' hi => ?_, h.blocks⟩
  have hlt : k < m.manager.pools.length := (List.getElem?_eq_some_iff.mp hpool).1
  change (m.manager.pools.set k { pool with header })[i]? = some pool' at hi
  by_cases hk : i = k
  · subst hk
    rw [List.getElem?_set_self hlt] at hi
    cases hi
    exact h.pools i pool hpool
  · rw [List.getElem?_set_ne (Ne.symm hk)] at hi
    exact h.pools i pool' hi

theorem Sizeless.malloc (h : Sizeless m) {bytes : ℕ} {origin : Option ℕ}
    (hsize : ∀ k, origin = some k → bytes = 0) : Sizeless (m.malloc bytes origin contents) := by
  refine ⟨h.pools, fun b k hb => ?_⟩
  change Function.update m.origin m.next origin b = some k at hb
  change Function.update m.capacity m.next bytes b = 0
  by_cases hnew : b = m.next
  · subst hnew
    rw [Function.update_self] at hb ⊢
    exact hsize k hb
  · rw [Function.update_of_ne hnew] at hb ⊢
    exact h.blocks b k hb

theorem Sizeless.step (h : Sizeless m) (hstep : Pc.Step target contents m pc m' outcome) :
    Sizeless m' := by
  cases hstep with
  | popBlock hpool _ | push hpool => exact h.setList hpool _
  | popMalloc hpool =>
      refine h.malloc fun k _ => ?_
      rw [h.pools _ _ hpool]
      cases target <;> rfl
  | largeMalloc => exact h.malloc fun k hk => by cases hk
  | popEmpty _ _ | checkCrash _ | check _ | attach | readCrash _ | readLarge _ _
  | readPooled _ _ _ | free | clear => exact ⟨h.pools, h.blocks⟩

section Threads

variable {Tid : Type} [DecidableEq Tid] {s : State Tid} {t : Tid}

theorem reachable_sizeless (h : (system target).Reachable System.anyStep s) : Sizeless s.heap := by
  apply h.invariant (I := fun s => Sizeless s.heap)
  · rintro s rfl
    refine ⟨fun k pool hpool => ?_, fun b k hb => by cases hb⟩
    rw [MemoryManager.new_pools (List.mem_of_getElem? hpool)]
  · intro s e s' hs _ hnext
    obtain ⟨-, ⟨t, size, pc, rfl, -, -, rfl⟩ | ⟨t, b, rfl, -, -, rfl⟩ |
      ⟨t, u, b, mid, rfl, -, rfl, rfl⟩ |
      ⟨t, contents, pc, m, outcome, rfl, -, hstep, rfl⟩⟩ := next_cases hnext
    · exact hs
    · exact hs
    · exact hs
    · rw [settle_heap]
      exact hs.step hstep

/-- No pool ever hands out a block that is big enough: the block to which `Allocate`
attaches the header of a pooled request has fewer bytes than the request with its
header. -/
theorem pooledBlock_too_small [Fintype Tid] (h : (system target).Reachable System.anyStep s)
    {size : UInt32} {b : Block} (hfits : size.toNat + target.sizeofMemoryHeader.toNat < 2 ^ 32)
    (hpooled : ¬size + target.sizeofMemoryHeader > maxAllocSize)
    (hpop : (s.threads t).running = some (.attachHeader (size + target.sizeofMemoryHeader) b)) :
    ¬(size + target.sizeofMemoryHeader).toNat ≤ s.heap.capacity b := by
  have howned : Owned (fun _ => True) s :=
    reachable_owned (h.mono fun _ _ _ _ _ _ => trivial)
  obtain ⟨-, ⟨hlarge, -⟩ | ⟨-, k, -, horigin⟩⟩ := (howned.threads t).running _ hpop
  · exact absurd hlarge hpooled
  · rw [(reachable_sizeless h).blocks b k horigin, UInt32.toNat_add, Nat.mod_eq_of_lt hfits]
    have hpos : 0 < target.sizeofMemoryHeader.toNat := by cases target <;> decide
    omega

/-- The first block of the class of 64 bytes. -/
theorem pooledBlock_too_small_first :
    ∃ s : State (Fin 1), (system .x64).run [.allocate 0 16, .step 0 7, .step 0 7] {} = some s ∧
      ¬(16 + Target.x64.sizeofMemoryHeader).toNat ≤ s.heap.capacity 0 := by
  have hany : ((system .x64).run [.allocate 0 16, .step 0 7, .step 0 7]
      ({} : State (Fin 1))).any (fun s => (s.threads 0).running =
        some (.attachHeader (16 + Target.x64.sizeofMemoryHeader) 0)) = true := by
    decide +kernel
  obtain ⟨s, hrun, hs⟩ := System.exists_of_run hany
  have hreach := System.reachable_of_run rfl hrun
  exact ⟨s, hrun, pooledBlock_too_small hreach (by decide) (by decide) hs⟩

/-- `Allocate(16)` attaches a header to a block of zero bytes. -/
theorem pooledBlock_not_bigEnough :
    ¬∀ s : State (Fin 1), (system .x64).Reachable System.anyStep s → ∀ t size b,
      size.toNat + Target.x64.sizeofMemoryHeader.toNat < 2 ^ 32 →
      ¬size + Target.x64.sizeofMemoryHeader > maxAllocSize →
      (s.threads t).running = some (.attachHeader (size + Target.x64.sizeofMemoryHeader) b) →
      (size + Target.x64.sizeofMemoryHeader).toNat ≤ s.heap.capacity b := by
  intro hbig
  have hany : ((system .x64).run [.allocate 0 16, .step 0 7, .step 0 7]
      ({} : State (Fin 1))).any (fun s => (s.threads 0).running =
        some (.attachHeader (16 + Target.x64.sizeofMemoryHeader) 0) ∧ s.heap.capacity 0 = 0) =
      true := by
    decide +kernel
  obtain ⟨s, hrun, hpop, hcapacity⟩ := System.exists_of_run hany
  have hreach := System.reachable_of_run rfl hrun
  have hle := hbig s hreach 0 16 0 (by decide) (by decide) hpop
  rw [hcapacity] at hle
  exact absurd hle (by decide)

end Threads

end Memory

end ServerCore
