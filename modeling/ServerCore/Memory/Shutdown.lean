import Mathlib.Data.List.Perm.Basic
import ServerCore.Memory.Ownership

/-!
# What the free lists hold, and the end of the manager

Only blocks that came from no pool go back to the system while the manager lives, each once.
So a free list holds exactly the blocks of its pool that nobody owns (`header_perm`), and the
destructors, which pop every list until it is empty, give back each block that was released
and none that a caller holds.
-/

namespace ServerCore

namespace Memory

open Interleaving

/-- `while (MemoryHeader* memory = pop(&header)) _aligned_free(memory)`. -/
def freeEntries : List Block → Heap → Heap
  | [], m => m
  | memory :: header, m => freeEntries header (m.free memory)

/-- The pools, deleted one after the other. -/
def deletePools : List MemoryPool → Heap → Heap
  | [], m => m
  | pool :: pools, m => deletePools pools (freeEntries pool.header m)

/-- `~MemoryManager`. -/
def Heap.destroy (m : Heap) : Heap :=
  let m := deletePools m.manager.pools m
  { m with manager := { m.manager with pools := [] } }

theorem freeEntries_freed (header : List Block) (m : Heap) :
    (freeEntries header m).freed = header.reverse ++ m.freed := by
  induction header generalizing m with
  | nil => rfl
  | cons memory header ih =>
      rw [freeEntries, ih, List.reverse_cons, List.append_assoc]
      rfl

theorem count_deletePools (pools : List MemoryPool) (m : Heap) (b : Block) :
    (deletePools pools m).freed.count b =
      weigh (fun pool : MemoryPool => pool.header.count b) pools + m.freed.count b := by
  induction pools generalizing m with
  | nil => exact (Nat.zero_add _).symm
  | cons pool pools ih =>
      rw [deletePools, ih, freeEntries_freed, weigh_cons, List.count_append, List.count_reverse]
      omega

/-- A destructor frees a block as often as the free lists hold it. -/
theorem count_destroy (m : Heap) (b : Block) :
    m.destroy.freed.count b = m.listed b + m.freed.count b :=
  count_deletePools m.manager.pools m b

variable {Tid : Type} [DecidableEq Tid] [Fintype Tid]
variable {target : Target} {ok : UInt32 → Prop} {s s' : State Tid}

/-- What went back to the system came from no pool, and went back once. -/
structure Retired (s : State Tid) : Prop where
  once : s.heap.freed.Nodup
  large : ∀ b ∈ s.heap.freed, s.heap.origin b = none

theorem Retired.step {t : Tid} {contents : UInt32} {m : Heap} {pc : Pc} {outcome : Outcome}
    (h : Retired s) (owned : Owned ok s) (hrun : (s.threads t).running = some pc)
    (hstep : Pc.Step target contents s.heap pc m outcome) : Retired (s.settle t m outcome) := by
  have hnew : ∀ b ∈ s.heap.freed, b ≠ s.heap.next :=
    fun b hb => Nat.ne_of_lt (owned.freed b hb)
  constructor <;> rw [settle_heap]
  case once =>
    cases hstep with
    | @free b =>
        refine List.nodup_cons.mpr ⟨?_, h.once⟩
        have hpos : 0 < (s.threads t).owns b := by
          rw [Thread.owns, hrun]
          simp [Pc.owns, Pc.block?]
        exact (owned.alone hpos).1.2
    | _ => exact h.once
  case large =>
    cases hstep with
    | @free b =>
        intro c hc
        obtain rfl | hc := List.mem_cons.mp hc
        · exact (owned.threads t).running _ hrun
        · exact h.large c hc
    | popMalloc | largeMalloc =>
        intro b hb
        exact (Function.update_of_ne (hnew b hb) _ _).trans (h.large b hb)
    | _ => exact h.large

theorem retired_of_reachable (h : (system target).Reachable (Requests target ok) s) :
    Retired s := by
  induction h with
  | start hs =>
      rw [show _ = ({} : State Tid) from hs]
      exact ⟨List.nodup_nil, nofun⟩
  | step hreach _ hnext ih =>
      obtain ⟨-, ⟨t, size, pc, rfl, -, -, rfl⟩ | ⟨t, b, rfl, -, -, rfl⟩ |
        ⟨t, u, b, mid, rfl, -, rfl, rfl⟩ |
        ⟨t, contents, pc, m, outcome, rfl, hrun, hstep, rfl⟩⟩ := next_cases hnext
      · exact ⟨ih.once, ih.large⟩
      · exact ⟨ih.once, ih.large⟩
      · exact ⟨ih.once, ih.large⟩
      · exact ih.step (reachable_owned hreach) hrun hstep

omit [DecidableEq Tid] in
/-- Outside all calls the blocks of a thread are those that it holds as a caller. -/
theorem owners_pos_iff (outside : ∀ t, (s.threads t).running = none) (b : Block) :
    0 < s.owners b ↔ ∃ t, b ∈ (s.threads t).held := by
  have howns : ∀ t, (s.threads t).owns b = (s.threads t).held.count b := by
    intro t
    rw [Thread.owns, outside t]
    rfl
  rw [State.owners, Finset.sum_pos_iff]
  simp only [Finset.mem_univ, true_and, howns, List.count_pos_iff]

omit [DecidableEq Tid] in
/-- A block goes back with the destructor, or went back before, or somebody owns it. -/
theorem Owned.count_destroy (h : Owned ok s) (retired : Retired s) (b : Block) :
    s.heap.destroy.freed.count b + s.owners b = if b < s.heap.next then 1 else 0 := by
  have hcount := Memory.count_destroy s.heap b
  have hunique := h.unique b
  have honce := List.nodup_iff_count_le_one.mp retired.once b
  by_cases hfreed : b ∈ s.heap.freed
  · have hone := List.count_pos_iff.mpr hfreed
    rw [live_of_not fun hlive => hlive.2 hfreed] at hunique
    rw [if_pos (h.freed b hfreed)]
    omega
  · have hzero := List.count_eq_zero.mpr hfreed
    by_cases hlt : b < s.heap.next
    · rw [live_of ⟨hlt, hfreed⟩] at hunique
      rw [if_pos hlt]
      omega
    · rw [live_of_not fun hlive => hlt hlive.1] at hunique
      rw [if_neg hlt]
      omega

/-- The manager's destructor, run outside all calls, gives back every block that no caller
holds, each once and no other. -/
theorem destroy_exact (h : (system target).Reachable (Fits target) s)
    (outside : ∀ t, (s.threads t).running = none) :
    s.heap.destroy.freed.Nodup ∧
      ∀ b, b ∈ s.heap.destroy.freed ↔ b < s.heap.next ∧ ∀ t, b ∉ (s.threads t).held := by
  have hrequests := h.mono fun _ _ hfits => Fits.requests hfits
  have hcount := (reachable_owned hrequests).count_destroy (retired_of_reachable hrequests)
  have hle : ∀ b, s.heap.destroy.freed.count b ≤ 1 := by
    intro b
    have hb := hcount b
    split at hb <;> omega
  refine ⟨List.nodup_iff_count_le_one.mpr hle, fun b => ?_⟩
  have hb := hcount b
  have howners := owners_pos_iff outside b
  rw [← List.count_pos_iff, ← not_exists, ← howners]
  by_cases hlt : b < s.heap.next
  · rw [if_pos hlt] at hb
    constructor
    · exact fun hpos => ⟨hlt, by omega⟩
    · rintro ⟨-, hnone⟩
      omega
  · rw [if_neg hlt] at hb
    constructor
    · intro hpos
      omega
    · exact fun hnone => absurd hnone.1 hlt

omit [DecidableEq Tid] [Fintype Tid] in
instance (s : State Tid) : ∀ e : Event Tid, Decidable (Fits target s e)
  | .allocate t size => decidable_of_iff
      (size.toNat + target.sizeofMemoryHeader.toNat < 2 ^ 32)
      ⟨fun h _ _ heq => by cases heq; exact h, fun h => h t size rfl⟩
  | .release .. => .isTrue fun _ _ heq => nomatch heq
  | .pass .. => .isTrue fun _ _ heq => nomatch heq
  | .step .. => .isTrue fun _ _ heq => nomatch heq

/-- Of three blocks one is with a caller, one in its free list, and a large one is gone. -/
def threeBlocksRun : List (Event (Fin 2)) :=
  [.allocate 0 24, .step 0 7, .allocate 1 24, .step 1 7, .step 0 7, .step 1 7, .step 0 7,
    .step 1 7, .allocate 0 5000, .step 0 7, .step 0 7, .release 0 0, .step 0 7, .step 0 7,
    .step 0 7, .release 0 2, .step 0 7, .step 0 7]

theorem destroy_exact_threeBlocks : ∃ s : State (Fin 2),
    (system .x64).run threeBlocksRun {} = some s ∧ s.heap.freed = [2] ∧
      s.heap.destroy.freed = [0, 2] ∧ s.heap.destroy.freed.Nodup := by
  have hany : ((system .x64).run threeBlocksRun {}).any (fun s : State (Fin 2) => decide
      ((∀ t, (s.threads t).running = none) ∧ s.heap.freed = [2] ∧
        s.heap.destroy.freed = [0, 2])) = true := by
    decide +kernel
  obtain ⟨s, hrun, houtside, hfreed, hdestroyed⟩ := System.exists_of_run hany
  have hfits : (system .x64).Along (Fits .x64) threeBlocksRun {} :=
    System.along_of_check (by decide +kernel)
  exact ⟨s, hrun, hfreed, hdestroyed,
    (destroy_exact ((System.Reachable.start rfl).run hfits hrun) houtside).1⟩

omit [DecidableEq Tid] in
/-- A free list holds the blocks of its pool that nobody owns. -/
theorem Owned.header_perm (h : Owned ok s) {k : ℕ} {pool : MemoryPool}
    (hpool : s.heap.manager.pools[k]? = some pool) :
    pool.header.Perm ((List.range s.heap.next).filter fun b =>
      s.heap.origin b = some k ∧ 0 < s.heap.listed b) := by
  have hle : ∀ b, pool.header.count b ≤ s.heap.listed b :=
    fun b => le_weigh (fun pool : MemoryPool => pool.header.count b) (List.mem_of_getElem? hpool)
  have hlisted : ∀ b, s.heap.listed b ≤ 1 := by
    intro b
    have hunique := h.unique b
    have hlive := live_le_one s.heap b
    omega
  rw [List.perm_ext_iff_of_nodup]
  · intro b
    rw [List.mem_filter, List.mem_range, decide_eq_true_iff]
    constructor
    · intro hb
      have hpos := listed_pos hpool hb
      exact ⟨(h.listed hpos).1, (h.lists k pool b hpool hb).2, hpos⟩
    · rintro ⟨-, horigin, hpos⟩
      obtain ⟨n, hn, hne⟩ : ∃ n ∈ s.heap.manager.pools.map fun pool => pool.header.count b,
          n ≠ 0 := by
        by_contra hzero
        simp only [not_exists, not_and, not_not] at hzero
        exact Nat.ne_of_gt hpos (List.sum_eq_zero hzero)
      obtain ⟨other, hother, rfl⟩ := List.mem_map.mp hn
      obtain ⟨i, hi⟩ := List.getElem?_of_mem hother
      have hmem : b ∈ other.header := List.count_pos_iff.mp (Nat.pos_of_ne_zero hne)
      have hsame := (h.lists i other b hi hmem).2
      rw [horigin] at hsame
      cases hsame
      rw [hpool] at hi
      cases hi
      exact hmem
  · exact List.nodup_iff_count_le_one.mpr fun b => (hle b).trans (hlisted b)
  · exact List.nodup_range.filter _

end Memory

end ServerCore
