import ServerCore.Interleaving.Threads
import ServerCore.Memory.Basic

/-!
# Who owns a block

A block is held by a caller, in the hands of a call, or in a free list. Every step
moves it between these, `_aligned_malloc` adds one holder, and `_aligned_free` takes
it away (`step_moves`). So a block that was obtained and not freed is in one place.

The only link between `Allocate` and `Release` is the header. It selects the pool
the block came from while the block is with a caller, and is zero while the block
is in a free list. Only the one owner writes it, so the steps of other threads
change no header that a thread relies on (`step_frame`).
-/

namespace ServerCore

namespace Memory

open Interleaving

/-- The block that a call has in hand. -/
def Pc.block? : Pc → Option Block
  | .popEntry _ _ => none
  | .popCheck _ _ b => some b
  | .popMalloc _ _ => none
  | .largeMalloc _ => none
  | .attachHeader _ b => some b
  | .readHeader b => some b
  | .largeFree b => some b
  | .pushClear _ b => some b
  | .pushEntry _ b => some b

def Pc.owns (b : Block) (pc : Pc) : ℕ := if pc.block? = some b then 1 else 0

/-- How often a thread owns a block, as a caller or through its call. -/
def Thread.owns (b : Block) (th : Thread) : ℕ :=
  th.held.count b + (th.running.elim 0 (Pc.owns b))

/-- How often a block lies in the free lists. -/
def Heap.listed (b : Block) (m : Heap) : ℕ :=
  weigh (fun pool => pool.header.count b) m.manager.pools

/-- The block was obtained and not given back to the system. -/
def Heap.Live (m : Heap) (b : Block) : Prop := b < m.next ∧ b ∉ m.freed

instance (m : Heap) (b : Block) : Decidable (m.Live b) := inferInstanceAs (Decidable (_ ∧ _))

def Heap.live (b : Block) (m : Heap) : ℕ := if m.Live b then 1 else 0

/-- `allocSize` is on the side of `MAX_ALLOC_SIZE` that the block came from, and if
that is a pool, then it selects this pool. -/
def Heap.Selects (m : Heap) (allocSize : UInt32) (b : Block) : Prop :=
  (allocSize > maxAllocSize ∧ m.origin b = none) ∨
    (¬allocSize > maxAllocSize ∧
      ∃ k, m.manager.poolTable allocSize.toNat = some k ∧ m.origin b = some k)

/-- What a call relies on, where `ok` holds of all sizes that were requested. -/
def Pc.Sound (ok : UInt32 → Prop) (m : Heap) : Pc → Prop
  | .popEntry a k => ok a ∧ ¬a > maxAllocSize ∧ m.manager.poolTable a.toNat = some k
  | .popCheck a k b => ok a ∧ ¬a > maxAllocSize ∧ m.manager.poolTable a.toNat = some k ∧
      m.header b = 0 ∧ m.origin b = some k
  | .popMalloc a k => ok a ∧ ¬a > maxAllocSize ∧ m.manager.poolTable a.toNat = some k
  | .largeMalloc a => ok a ∧ a > maxAllocSize
  | .attachHeader a b => ok a ∧ m.Selects a b
  | .readHeader b => ok (m.header b) ∧ m.Selects (m.header b) b
  | .largeFree b => m.origin b = none
  | .pushClear k b => m.origin b = some k
  | .pushEntry k b => m.header b = 0 ∧ m.origin b = some k

structure Thread.Sound (ok : UInt32 → Prop) (m : Heap) (th : Thread) : Prop where
  held : ∀ b ∈ th.held, ok (m.header b) ∧ m.Selects (m.header b) b
  running : ∀ pc, th.running = some pc → pc.Sound ok m

/-- What a call's next state relies on. -/
def Outcome.Sound (ok : UInt32 → Prop) (m : Heap) : Outcome → Prop
  | .goto pc => pc.Sound ok m
  | .allocated b => ok (m.header b) ∧ m.Selects (m.header b) b
  | .released => True
  | .crash _ => True

/-- The blocks of a free list came from its pool and have a zero header. -/
def Heap.ListsSound (m : Heap) : Prop :=
  ∀ k pool b, m.manager.pools[k]? = some pool → b ∈ pool.header →
    m.header b = 0 ∧ m.origin b = some k

/-- How often a block is owned after a step: a crashed call keeps what it has. -/
def Outcome.owns (b : Block) (pc : Pc) : Outcome → ℕ
  | .goto pc' => pc'.owns b
  | .allocated b' => if b' = b then 1 else 0
  | .released => 0
  | .crash _ => pc.owns b

section Step

variable {target : Target} {contents : UInt32} {m m' : Heap} {pc : Pc} {outcome : Outcome}

theorem listed_setList {k : ℕ} {pool : MemoryPool} (hpool : m.manager.pools[k]? = some pool)
    (header : List Block) (b : Block) :
    (m.setList k pool header).listed b + pool.header.count b = m.listed b + header.count b :=
  weigh_set (fun pool => pool.header.count b) hpool _

theorem live_of {b : Block} (h : m.Live b) : m.live b = 1 := if_pos h

theorem live_of_not {b : Block} (h : ¬m.Live b) : m.live b = 0 := if_neg h

theorem live_congr {b : Block} (h : m'.Live b ↔ m.Live b) : m'.live b = m.live b := by
  by_cases hlive : m.Live b
  · rw [live_of hlive, live_of (h.mpr hlive)]
  · rw [live_of_not hlive, live_of_not fun hlive' => hlive (h.mp hlive')]

theorem live_malloc (bytes : ℕ) (origin : Option ℕ) (hfreed : ∀ b ∈ m.freed, b < m.next)
    (b : Block) :
    (m.malloc bytes origin contents).live b = m.live b + if m.next = b then 1 else 0 := by
  by_cases hb : m.next = b
  · subst hb
    have hnew : (m.malloc bytes origin contents).Live m.next :=
      ⟨Nat.lt_succ_self _, fun hmem => Nat.lt_irrefl _ (hfreed _ hmem)⟩
    rw [live_of hnew, live_of_not fun hold => Nat.lt_irrefl _ hold.1, if_pos rfl]
  · rw [if_neg hb]
    apply live_congr
    change b < m.next + 1 ∧ b ∉ m.freed ↔ b < m.next ∧ b ∉ m.freed
    refine and_congr_left fun _ => ⟨fun hlt => ?_, Nat.lt_succ_of_lt⟩
    exact (Nat.lt_succ_iff_lt_or_eq.mp hlt).resolve_right fun heq => hb heq.symm

theorem live_free {b : Block} (h : m.Live b) (c : Block) :
    (m.free b).live c + (if b = c then 1 else 0) = m.live c := by
  by_cases hc : b = c
  · subst hc
    have hfreed : ¬(m.free b).Live b := fun hlive => hlive.2 List.mem_cons_self
    rw [live_of h, live_of_not hfreed, if_pos rfl]
  · rw [if_neg hc]
    apply live_congr
    have hne : c ≠ b := fun heq => hc heq.symm
    change c < m.next ∧ c ∉ b :: m.freed ↔ c < m.next ∧ c ∉ m.freed
    simp [hne]

/-- A step moves blocks between the call and the free lists, obtains one or gives one
back to the system. -/
theorem step_moves (h : Pc.Step target contents m pc m' outcome)
    (hfreed : ∀ b ∈ m.freed, b < m.next) (hlive : ∀ b, 0 < pc.owns b → m.Live b) (b : Block) :
    outcome.owns b pc + m'.listed b + m.live b = pc.owns b + m.listed b + m'.live b := by
  cases h with
  | @popBlock a k pool c rest hpool hlist =>
      have hlisted := listed_setList hpool rest b
      rw [hlist, List.count_cons] at hlisted
      simp only [Outcome.owns, Pc.owns, Pc.block?, Option.some.injEq, beq_iff_eq, reduceCtorEq,
        if_false] at hlisted ⊢
      change _ + _ + m.live b = _ + _ + m.live b
      omega
  | popMalloc _ | largeMalloc =>
      rw [live_malloc _ _ hfreed]
      simp only [Outcome.owns, Pc.owns, Pc.block?, Option.some.injEq, reduceCtorEq, if_false]
      change _ + m.listed b + _ = _
      omega
  | @free c =>
      have hgone := live_free (hlive c (by simp [Pc.owns, Pc.block?])) b
      simp only [Outcome.owns, Pc.owns, Pc.block?, Option.some.injEq]
      change 0 + m.listed b + _ = _
      omega
  | @push k c pool hpool =>
      have hlisted := listed_setList hpool (c :: pool.header) b
      rw [List.count_cons] at hlisted
      simp only [Outcome.owns, Pc.owns, Pc.block?, Option.some.injEq, beq_iff_eq] at hlisted ⊢
      change _ + _ + m.live b = _ + _ + m.live b
      omega
  | attach =>
      simp only [Outcome.owns, Pc.owns, Pc.block?, Option.some.injEq]
      rfl
  | popEmpty _ _ | checkCrash _ | check _ | readCrash _ | readLarge _ _ | readPooled _ _ _
  | clear => rfl

/-- No step changes the table. -/
theorem step_poolTable (h : Pc.Step target contents m pc m' outcome) :
    m'.manager.poolTable = m.manager.poolTable := by
  cases h <;> rfl

/-- A step writes the header of its own block, and the bookkeeping of a new one. -/
theorem step_frame (h : Pc.Step target contents m pc m' outcome) {b : Block}
    (hold : b < m.next) (hother : pc.owns b = 0) :
    m'.header b = m.header b ∧ m'.origin b = m.origin b := by
  have hnew : b ≠ m.next := Nat.ne_of_lt hold
  cases h with
  | popMalloc _ | largeMalloc =>
      exact ⟨Function.update_of_ne hnew _ _, Function.update_of_ne hnew _ _⟩
  | attach | clear =>
      refine ⟨setHeader_other m _ ?_, rfl⟩
      rintro rfl
      simp [Pc.owns, Pc.block?] at hother
  | popEmpty _ _ | popBlock _ _ | checkCrash _ | check _ | readCrash _ | readLarge _ _
  | readPooled _ _ _ | free | push _ => exact ⟨rfl, rfl⟩

/-- What a call relies on carries over to its next state. -/
theorem step_sound {ok : UInt32 → Prop} (h : Pc.Step target contents m pc m' outcome)
    (hlists : m.ListsSound) (hpc : pc.Sound ok m) : outcome.Sound ok m' := by
  cases h with
  | popEmpty _ _ => exact hpc
  | popBlock hpool hlist =>
      obtain ⟨hok, hsmall, htable⟩ := hpc
      have hfree := hlists _ _ _ hpool (by rw [hlist]; exact List.mem_cons_self)
      exact ⟨hok, hsmall, htable, hfree⟩
  | check hheader =>
      obtain ⟨hok, hsmall, htable, -, horigin⟩ := hpc
      exact ⟨hok, .inr ⟨hsmall, _, htable, horigin⟩⟩
  | popMalloc hpool =>
      obtain ⟨hok, hsmall, htable⟩ := hpc
      exact ⟨hok, .inr ⟨hsmall, _, htable, Function.update_self _ _ _⟩⟩
  | largeMalloc => exact ⟨hpc.1, .inl ⟨hpc.2, Function.update_self _ _ _⟩⟩
  | attach =>
      rw [Outcome.Sound, setHeader_self]
      exact hpc
  | readLarge _ hlarge =>
      obtain ⟨-, ⟨-, horigin⟩ | ⟨hsmall, -⟩⟩ := hpc
      · exact horigin
      · exact absurd hlarge hsmall
  | readPooled _ hsmall htable =>
      obtain ⟨-, ⟨hlarge, -⟩ | ⟨-, k, htable', horigin⟩⟩ := hpc
      · exact absurd hlarge hsmall
      · rw [htable] at htable'
        cases htable'
        exact horigin
  | clear => exact ⟨setHeader_self m _ 0, hpc⟩
  | checkCrash _ | readCrash _ | free | push _ => trivial

/-- An assertion fails only on a request whose size is zero with its header. -/
theorem step_not_crash (h : Pc.Step target contents m pc m' outcome) (hpc : pc.Sound (· ≠ 0) m)
    (message : String) : outcome ≠ .crash message := by
  rintro rfl
  cases h with
  | checkCrash hheader => exact hheader hpc.2.2.2.1
  | readCrash hzero => exact hpc.1 hzero

/-- A failed assertion changes nothing. -/
theorem step_crash {message : String} (h : Pc.Step target contents m pc m' (.crash message)) :
    m' = m := by
  cases h <;> rfl

theorem step_freed (h : Pc.Step target contents m pc m' outcome)
    (hfreed : ∀ b ∈ m.freed, b < m.next) (hlive : ∀ b, 0 < pc.owns b → m.Live b) :
    ∀ b ∈ m'.freed, b < m'.next := by
  cases h with
  | popMalloc _ | largeMalloc => exact fun b hb => Nat.lt_succ_of_lt (hfreed b hb)
  | free =>
      intro b hb
      obtain rfl | hold := List.mem_cons.mp hb
      · exact (hlive b (by simp [Pc.owns, Pc.block?])).1
      · exact hfreed b hold
  | popEmpty _ _ | popBlock _ _ | checkCrash _ | check _ | attach | readCrash _ | readLarge _ _
  | readPooled _ _ _ | clear | push _ => exact hfreed

theorem listed_pos {k : ℕ} {pool : MemoryPool} {b : Block}
    (hpool : m.manager.pools[k]? = some pool) (hb : b ∈ pool.header) : 0 < m.listed b := by
  have hle := le_weigh (fun pool : MemoryPool => pool.header.count b)
    (List.mem_of_getElem? hpool)
  have hpos := List.count_pos_iff.mpr hb
  rw [Heap.listed]
  omega

theorem mem_setList {k i : ℕ} {pool pool' : MemoryPool} {header : List Block} {b : Block}
    (hpool : m.manager.pools[k]? = some pool)
    (hi : (m.setList k pool header).manager.pools[i]? = some pool') (hb : b ∈ pool'.header) :
    (i = k ∧ b ∈ header) ∨ ∃ old, m.manager.pools[i]? = some old ∧ b ∈ old.header := by
  have hlt : k < m.manager.pools.length := (List.getElem?_eq_some_iff.mp hpool).1
  change (m.manager.pools.set k { pool with header })[i]? = some pool' at hi
  by_cases hk : i = k
  · subst hk
    rw [List.getElem?_set_self hlt] at hi
    cases hi
    exact .inl ⟨rfl, hb⟩
  · rw [List.getElem?_set_ne (Ne.symm hk)] at hi
    exact .inr ⟨pool', hi, hb⟩

/-- Only `Push` adds a block to a free list, the one in its hands. -/
theorem step_listed (h : Pc.Step target contents m pc m' outcome) {i : ℕ} {pool' : MemoryPool}
    {b : Block} (hi : m'.manager.pools[i]? = some pool') (hb : b ∈ pool'.header) :
    pc = .pushEntry i b ∨ ∃ old, m.manager.pools[i]? = some old ∧ b ∈ old.header := by
  cases h with
  | popBlock hpool hlist =>
      right
      obtain ⟨rfl, hrest⟩ | hold := mem_setList hpool hi hb
      · exact ⟨_, hpool, by rw [hlist]; exact List.mem_cons_of_mem _ hrest⟩
      · exact hold
  | push hpool =>
      obtain ⟨rfl, hmem⟩ | hold := mem_setList hpool hi hb
      · obtain rfl | hmem := List.mem_cons.mp hmem
        · exact .inl rfl
        · exact .inr ⟨_, hpool, hmem⟩
      · exact .inr hold
  | popEmpty _ _ | checkCrash _ | check _ | popMalloc _ | largeMalloc | attach | readCrash _
  | readLarge _ _ | readPooled _ _ _ | free | clear => exact .inr ⟨pool', hi, hb⟩

theorem step_lists {ok : UInt32 → Prop} (h : Pc.Step target contents m pc m' outcome)
    (hlists : m.ListsSound) (hpc : pc.Sound ok m)
    (hold : ∀ b, 0 < m.listed b → b < m.next ∧ pc.owns b = 0) : m'.ListsSound := by
  intro i pool' b hi hb
  obtain rfl | ⟨old, hpool, hmem⟩ := step_listed h hi hb
  · cases h
    exact hpc
  · obtain ⟨hlt, hother⟩ := hold b (listed_pos hpool hmem)
    obtain ⟨hheader, horigin⟩ := step_frame h hlt hother
    rw [hheader, horigin]
    exact hlists i old b hpool hmem

theorem Selects.frame {a : UInt32} {b : Block} (h : m.Selects a b)
    (htable : m'.manager.poolTable = m.manager.poolTable) (horigin : m'.origin b = m.origin b) :
    m'.Selects a b := by
  rw [Heap.Selects, htable, horigin]
  exact h

/-- What a thread relies on is its own blocks' headers and origins, and the table. -/
theorem Thread.Sound.frame {ok : UInt32 → Prop} {th : Thread} (h : th.Sound ok m)
    (htable : m'.manager.poolTable = m.manager.poolTable)
    (hagree : ∀ b, 0 < th.owns b → m'.header b = m.header b ∧ m'.origin b = m.origin b) :
    th.Sound ok m' := by
  constructor
  · intro b hb
    have hpos : 0 < th.owns b := Nat.lt_add_right _ (List.count_pos_iff.mpr hb)
    obtain ⟨hheader, horigin⟩ := hagree b hpos
    obtain ⟨hok, hselects⟩ := h.held b hb
    rw [hheader]
    exact ⟨hok, Selects.frame hselects htable horigin⟩
  · intro pc hrun
    have hsound := h.running pc hrun
    have hpos : ∀ b, pc.block? = some b → 0 < th.owns b := by
      intro b hb
      rw [Thread.owns, hrun, Option.elim_some, Pc.owns, if_pos hb]
      omega
    cases pc with
    | popEntry _ _ | popMalloc _ _ =>
        rw [Pc.Sound, htable]
        exact hsound
    | largeMalloc _ => exact hsound
    | popCheck a k b =>
        obtain ⟨hheader, horigin⟩ := hagree b (hpos b rfl)
        rw [Pc.Sound, htable, hheader, horigin]
        exact hsound
    | attachHeader a b =>
        exact ⟨hsound.1, Selects.frame hsound.2 htable (hagree b (hpos b rfl)).2⟩
    | readHeader b =>
        obtain ⟨hheader, horigin⟩ := hagree b (hpos b rfl)
        rw [Pc.Sound, hheader]
        exact ⟨hsound.1, Selects.frame hsound.2 htable horigin⟩
    | largeFree b | pushClear k b =>
        rw [Pc.Sound, (hagree b (hpos b rfl)).2]
        exact hsound
    | pushEntry k b =>
        obtain ⟨hheader, horigin⟩ := hagree b (hpos b rfl)
        rw [Pc.Sound, hheader, horigin]
        exact hsound

end Step

section Threads

variable {Tid : Type} [DecidableEq Tid] [Fintype Tid]
variable {target : Target} {ok : UInt32 → Prop} {s s' : State Tid} {e : Event Tid} {t : Tid}

def State.owners (b : Block) (s : State Tid) : ℕ := ∑ t, (s.threads t).owns b

/-- Every size that is requested, with its header, satisfies `ok`. -/
def Requests (target : Target) (ok : UInt32 → Prop) (_ : State Tid) (e : Event Tid) : Prop :=
  ∀ t size, e = .allocate t size → ok (size + target.sizeofMemoryHeader)

/-- A live block is in one place, and everybody can rely on the headers. -/
structure Owned (ok : UInt32 → Prop) (s : State Tid) : Prop where
  unique : ∀ b, s.owners b + s.heap.listed b = s.heap.live b
  freed : ∀ b ∈ s.heap.freed, b < s.heap.next
  lists : s.heap.ListsSound
  threads : ∀ t, (s.threads t).Sound ok s.heap

theorem owners_setThread (th : Thread) (b : Block) :
    (s.setThread t th).owners b + (s.threads t).owns b = s.owners b + th.owns b :=
  sum_update (fun th : Thread => th.owns b) s.threads t th

omit [DecidableEq Tid] in
theorem live_le_one (m : Heap) (b : Block) : m.live b ≤ 1 := by
  rw [Heap.live]
  split <;> omega

/-- An owned block is live, in no free list, and owned by no other thread. -/
theorem Owned.alone (h : Owned ok s) {b : Block} (hpos : 0 < (s.threads t).owns b) :
    s.heap.Live b ∧ s.heap.listed b = 0 ∧ (s.threads t).owns b = 1 ∧
      ∀ u, u ≠ t → (s.threads u).owns b = 0 := by
  have hunique := h.unique b
  have hle := live_le_one s.heap b
  have hthread : (s.threads t).owns b ≤ s.owners b :=
    weight_le_sum (fun t => (s.threads t).owns b) t
  have howners : s.owners b ≤ 1 := by omega
  refine ⟨?_, by omega, by omega, fun u hu => other_weight_zero howners hpos hu⟩
  by_contra hdead
  rw [live_of_not hdead] at hunique
  omega

omit [DecidableEq Tid] in
theorem Owned.listed (h : Owned ok s) {b : Block} (hpos : 0 < s.heap.listed b) :
    b < s.heap.next ∧ ∀ t, (s.threads t).owns b = 0 := by
  have hunique := h.unique b
  have hle := live_le_one s.heap b
  refine ⟨?_, fun t => ?_⟩
  · by_contra hnew
    rw [live_of_not fun hlive => hnew hlive.1] at hunique
    omega
  · have hthread : (s.threads t).owns b ≤ s.owners b :=
      weight_le_sum (fun t => (s.threads t).owns b) t
    omega

/-- Rearranging what one thread owns. -/
theorem Owned.setThread (h : Owned ok s) {th : Thread}
    (hsame : ∀ b, th.owns b = (s.threads t).owns b) (hsound : th.Sound ok s.heap) :
    Owned ok (s.setThread t th) := by
  refine ⟨fun b => ?_, h.freed, h.lists, fun u => ?_⟩
  · have hmoved := owners_setThread (s := s) (t := t) th b
    rw [hsame b] at hmoved
    have hunique := h.unique b
    rw [setThread_heap]
    omega
  · by_cases hu : u = t
    · rw [hu, setThread_self]
      exact hsound
    · rw [setThread_other _ _ _ _ hu]
      exact h.threads u

omit [DecidableEq Tid] [Fintype Tid] in
theorem allocate_sound {size : UInt32} {m : Heap} {pc : Pc} (h : allocate target m size = some pc)
    (hok : ok (size + target.sizeofMemoryHeader)) :
    pc.Sound ok m ∧ ∀ b, pc.owns b = 0 := by
  simp only [allocate] at h
  split at h
  · next hlarge =>
      cases h
      exact ⟨⟨hok, hlarge⟩, fun b => rfl⟩
  · next hsmall =>
      obtain ⟨k, htable, rfl⟩ := Option.map_eq_some_iff.mp h
      exact ⟨⟨hok, hsmall, htable⟩, fun b => rfl⟩

omit [DecidableEq Tid] [Fintype Tid] in
theorem count_erase_add {b c : Block} {held : List Block} (h : b ∈ held) :
    (held.erase b).count c + (if b = c then 1 else 0) = held.count c := by
  have hcount := (List.perm_cons_erase h).count_eq c
  rw [List.count_cons] at hcount
  simp only [beq_iff_eq] at hcount
  omega

theorem Owned.allocate (h : Owned ok s) {size : UInt32} {pc : Pc}
    (hidle : (s.threads t).running = none) (hpc : allocate target s.heap size = some pc)
    (hok : ok (size + target.sizeofMemoryHeader)) :
    Owned ok (s.setThread t { s.threads t with running := some pc }) := by
  obtain ⟨hsound, hempty⟩ := allocate_sound hpc hok
  apply h.setThread
  · intro b
    rw [Thread.owns, Thread.owns, hidle, Option.elim_some, Option.elim_none, hempty b]
  · refine ⟨(h.threads t).held, ?_⟩
    rintro _ ⟨⟩
    exact hsound

theorem Owned.release (h : Owned ok s) {b : Block} (hidle : (s.threads t).running = none)
    (hheld : b ∈ (s.threads t).held) :
    Owned ok (s.setThread t
      { running := some (.readHeader b), held := (s.threads t).held.erase b }) := by
  apply h.setThread
  · intro c
    have hcount := count_erase_add (c := c) hheld
    rw [Thread.owns, Thread.owns, hidle, Option.elim_some, Option.elim_none]
    simp only [Pc.owns, Pc.block?, Option.some.injEq]
    omega
  · refine ⟨fun c hc => (h.threads t).held c (List.mem_of_mem_erase hc), ?_⟩
    rintro _ ⟨⟩
    exact (h.threads t).held b hheld

theorem owners_setHeld (held : List Block) (c : Block) :
    (s.setThread t { s.threads t with held := held }).owners c + (s.threads t).held.count c =
      s.owners c + held.count c := by
  have hset := owners_setThread (s := s) (t := t) { s.threads t with held := held } c
  change _ + ((s.threads t).held.count c + (s.threads t).running.elim 0 (Pc.owns c)) =
    _ + (held.count c + (s.threads t).running.elim 0 (Pc.owns c)) at hset
  omega

theorem Owned.pass (h : Owned ok s) {u : Tid} {b : Block} {mid : State Tid}
    (hheld : b ∈ (s.threads t).held)
    (hmid : mid = s.setThread t { s.threads t with held := (s.threads t).held.erase b }) :
    Owned ok (mid.setThread u { mid.threads u with held := b :: (mid.threads u).held }) := by
  have hheap : mid.heap = s.heap := by rw [hmid, setThread_heap]
  have hthreads : ∀ v, (mid.threads v).Sound ok s.heap := by
    intro v
    rw [hmid]
    by_cases hv : v = t
    · rw [hv, setThread_self]
      exact ⟨fun c hc => (h.threads t).held c (List.mem_of_mem_erase hc), (h.threads t).running⟩
    · rw [setThread_other _ _ _ _ hv]
      exact h.threads v
  refine ⟨fun c => ?_, ?_, ?_, fun v => ?_⟩
  · have hunique := h.unique c
    have htaken := owners_setHeld (s := s) (t := t) ((s.threads t).held.erase b) c
    have hgiven := owners_setHeld (s := mid) (t := u) (b :: (mid.threads u).held) c
    have hcount := count_erase_add (c := c) hheld
    have hcons : (b :: (mid.threads u).held).count c =
        (mid.threads u).held.count c + if b = c then 1 else 0 := by
      simp [List.count_cons]
    rw [← hmid] at htaken
    rw [setThread_heap, hheap]
    omega
  · rw [setThread_heap, hheap]
    exact h.freed
  · rw [setThread_heap, hheap]
    exact h.lists
  · rw [setThread_heap, hheap]
    by_cases hv : v = u
    · rw [hv, setThread_self]
      refine ⟨fun c hc => ?_, (hthreads u).running⟩
      obtain rfl | hold := List.mem_cons.mp hc
      · exact (h.threads t).held c hheld
      · exact (hthreads u).held c hold
    · rw [setThread_other _ _ _ _ hv]
      exact hthreads v

omit [Fintype Tid] in
theorem settle_other {u : Tid} (hu : u ≠ t) (m : Heap) (outcome : Outcome) :
    (s.settle t m outcome).threads u = s.threads u := by
  cases outcome with
  | crash message => rfl
  | goto _ | allocated _ | released => exact setThread_other _ _ _ _ hu

theorem settle_owners {pc : Pc} (hrun : (s.threads t).running = some pc) (m : Heap)
    (outcome : Outcome) (b : Block) :
    (s.settle t m outcome).owners b + pc.owns b = s.owners b + outcome.owns b pc := by
  have hself : (s.threads t).owns b = (s.threads t).held.count b + pc.owns b := by
    rw [Thread.owns, hrun, Option.elim_some]
  -- The thread's new state owns what it held as a caller, and what the outcome has in hand.
  have hmoved : ∀ th : Thread, th.owns b = (s.threads t).held.count b + outcome.owns b pc →
      (({ s with heap := m } : State Tid).setThread t th).owners b + pc.owns b =
        s.owners b + outcome.owns b pc := by
    intro th hth
    have hset := owners_setThread (s := { s with heap := m }) (t := t) th b
    change _ + (s.threads t).owns b = s.owners b + th.owns b at hset
    omega
  cases outcome with
  | goto pc' => exact hmoved _ rfl
  | allocated header =>
      apply hmoved
      rw [Thread.owns, List.count_cons]
      simp only [beq_iff_eq]
      rfl
  | released => exact hmoved _ rfl
  | crash message => rfl

omit [Fintype Tid] in
/-- The thread that moved relies on what it relied on as a caller, and on the outcome. -/
theorem settle_sound {m : Heap} {outcome : Outcome}
    (hcaller : Thread.Sound ok m { s.threads t with running := none })
    (houtcome : outcome.Sound ok m)
    (hcrash : ∀ message, outcome = .crash message → (s.threads t).Sound ok m) :
    ((s.settle t m outcome).threads t).Sound ok m := by
  cases outcome with
  | goto pc' =>
      rw [State.settle, setThread_self]
      refine ⟨hcaller.held, ?_⟩
      rintro _ ⟨⟩
      exact houtcome
  | allocated header =>
      rw [State.settle, setThread_self]
      refine ⟨fun b hb => ?_, fun pc hpc => by cases hpc⟩
      obtain rfl | hold := List.mem_cons.mp hb
      · exact houtcome
      · exact hcaller.held b hold
  | released =>
      rw [State.settle, setThread_self]
      exact hcaller
  | crash message => exact hcrash message rfl

theorem Owned.step (h : Owned ok s) {contents : UInt32} {m : Heap} {pc : Pc} {outcome : Outcome}
    (hrun : (s.threads t).running = some pc)
    (hstep : Pc.Step target contents s.heap pc m outcome) :
    Owned ok (s.settle t m outcome) := by
  have hpc := (h.threads t).running pc hrun
  have hself : ∀ b, (s.threads t).owns b = (s.threads t).held.count b + pc.owns b := by
    intro b
    rw [Thread.owns, hrun, Option.elim_some]
  have hlive : ∀ b, 0 < pc.owns b → s.heap.Live b := by
    intro b hb
    have hpos : 0 < (s.threads t).owns b := by
      rw [hself b]
      omega
    exact (h.alone hpos).1
  have htable := step_poolTable hstep
  refine ⟨fun b => ?_, ?_, ?_, fun u => ?_⟩
  · have hmoved := step_moves hstep h.freed hlive b
    have hsettled := settle_owners (s := s) hrun m outcome b
    have hunique := h.unique b
    rw [settle_heap]
    omega
  · rw [settle_heap]
    exact step_freed hstep h.freed hlive
  · rw [settle_heap]
    refine step_lists hstep h.lists hpc fun b hb => ?_
    obtain ⟨hlt, hunowned⟩ := h.listed hb
    have hzero := hunowned t
    rw [hself b] at hzero
    exact ⟨hlt, by omega⟩
  · rw [settle_heap]
    by_cases hu : u = t
    · subst hu
      apply settle_sound
      · refine Thread.Sound.frame (m := s.heap) ⟨(h.threads u).held, fun _ hpc => by cases hpc⟩
          htable fun b hb => ?_
        change 0 < (s.threads u).held.count b + 0 at hb
        have hpos : 0 < (s.threads u).owns b := by
          rw [hself b]
          omega
        obtain ⟨hblock, -, hone, -⟩ := h.alone hpos
        rw [hself b] at hone
        exact step_frame hstep hblock.1 (by omega)
      · exact step_sound hstep h.lists hpc
      · rintro message rfl
        rw [step_crash hstep]
        exact h.threads u
    · rw [settle_other hu]
      refine (h.threads u).frame htable fun b hb => ?_
      obtain ⟨hlive, -, -, hothers⟩ := h.alone hb
      have hzero := hothers t (Ne.symm hu)
      rw [hself b] at hzero
      exact step_frame hstep hlive.1 (by omega)

theorem Owned.next (h : Owned ok s) (hrequests : Requests target ok s e)
    (hnext : s.next target e = some s') : Owned ok s' := by
  obtain ⟨-, ⟨t, size, pc, rfl, hidle, hpc, rfl⟩ | ⟨t, b, rfl, hidle, hheld, rfl⟩ |
    ⟨t, u, b, mid, rfl, hheld, hmid, rfl⟩ |
    ⟨t, contents, pc, m, outcome, rfl, hrun, hstep, rfl⟩⟩ := next_cases hnext
  · exact h.allocate hidle hpc (hrequests t size rfl)
  · exact h.release hidle hheld
  · exact h.pass hheld hmid
  · exact h.step hrun hstep

theorem reachable_owned (h : (system target).Reachable (Requests target ok) s) : Owned ok s := by
  apply h.invariant (I := Owned ok)
  · rintro s rfl
    have hempty : ∀ pool ∈ MemoryManager.new.pools, pool.header = [] := by
      intro pool hpool
      rw [MemoryManager.new_pools hpool]
    refine ⟨fun b => ?_, fun b hb => (List.not_mem_nil hb).elim, fun k pool b hpool hb => ?_,
      fun t => ⟨fun b hb => (List.not_mem_nil hb).elim, fun pc hpc => by cases hpc⟩⟩
    · have hlisted : Heap.listed b {} = 0 := by
        apply List.sum_eq_zero
        intro n hn
        obtain ⟨pool, hpool, rfl⟩ := List.mem_map.mp hn
        rw [hempty pool hpool, List.count_nil]
      have howners : State.owners b ({} : State Tid) = 0 := Finset.sum_eq_zero fun t _ => rfl
      have hlive : Heap.live b {} = 0 := live_of_not fun h => Nat.not_lt_zero b h.1
      rw [hlisted, howners, hlive]
    · rw [hempty pool (List.mem_of_getElem? hpool)] at hb
      cases hb
  · exact fun s e s' hs hok hnext => hs.next hok hnext

/-- The size of each request and its header fit 32 bits. -/
def Fits (target : Target) (_ : State Tid) (e : Event Tid) : Prop :=
  ∀ t size, e = .allocate t size → size.toNat + target.sizeofMemoryHeader.toNat < 2 ^ 32

omit [DecidableEq Tid] [Fintype Tid] in
theorem Fits.requests (h : Fits target s e) : Requests target (· ≠ 0) s e := by
  intro t size he hzero
  have hsum := congrArg UInt32.toNat hzero
  have hpos : 0 < target.sizeofMemoryHeader.toNat := by cases target <;> decide
  rw [UInt32.toNat_add, Nat.mod_eq_of_lt (h t size he)] at hsum
  change _ = 0 at hsum
  omega

/-- A block that was obtained and not freed is with exactly one owner or exactly once
in one free list. Headers of blocks that callers hold select where the block came
from, `Release` puts it back there, and no assertion fails. -/
structure UniquelyOwned (s : State Tid) : Prop where
  single : ∀ b, b < s.heap.next → b ∉ s.heap.freed → s.owners b + s.heap.listed b = 1
  selects : ∀ t, ∀ b ∈ (s.threads t).held, s.heap.Selects (s.heap.header b) b
  pooled : ∀ t k b, (s.threads t).running = some (.pushEntry k b) → s.heap.origin b = some k
  large : ∀ t b, (s.threads t).running = some (.largeFree b) → s.heap.origin b = none
  checks : s.crashed = none

/-- Callers that request sizes without wrap-around, and release what they own once,
never share a block. -/
theorem pooledMemory_uniquelyOwned (h : (system target).Reachable (Fits target) s) :
    UniquelyOwned s := by
  have howned : Owned (· ≠ 0) s := reachable_owned (h.mono fun s e hfits => hfits.requests)
  have hchecks : s.crashed = none := by
    cases h with
    | start hs =>
        rw [show s = {} from hs]
    | @step s₀ e _ hprev hfits hnext =>
        have hprev' : Owned (· ≠ 0) s₀ := reachable_owned (hprev.mono fun s e hf => hf.requests)
        obtain ⟨halive, ⟨t, size, pc, rfl, -, -, rfl⟩ | ⟨t, b, rfl, -, -, rfl⟩ |
          ⟨t, u, b, mid, rfl, -, rfl, rfl⟩ |
          ⟨t, contents, pc, m, outcome, rfl, hrun, hstep, rfl⟩⟩ := next_cases hnext
        · exact halive
        · exact halive
        · exact halive
        · have hnot := step_not_crash hstep ((hprev'.threads t).running pc hrun)
          cases outcome with
          | crash message => exact absurd rfl (hnot message)
          | goto _ | allocated _ | released => exact halive
  refine ⟨fun b hlt hfreed => ?_, fun t b hb => ((howned.threads t).held b hb).2,
    fun t k b hrun => ?_, fun t b hrun => (howned.threads t).running _ hrun, hchecks⟩
  · rw [howned.unique b]
    exact live_of ⟨hlt, hfreed⟩
  · exact ((howned.threads t).running _ hrun).2

end Threads

section Runs

/-- A pooled block that one thread allocates and another releases, and that the first
gets again for a smaller request of the same class. -/
def recycledRun : List (Event (Fin 2)) :=
  [.allocate 0 24, .step 0 7, .step 0 7, .step 0 7, .pass 0 1 0, .release 1 0, .step 1 7,
    .step 1 7, .step 1 7, .allocate 0 16, .step 0 7, .step 0 7, .step 0 7]

theorem pooledMemory_uniquelyOwned_recycled :
    ∃ s, (system .x64).run recycledRun {} = some s ∧ UniquelyOwned s := by
  obtain ⟨s, hrun⟩ : ∃ s, (system .x64).run recycledRun {} = some s := by
    apply Option.isSome_iff_exists.mp
    decide +kernel
  refine ⟨s, hrun, pooledMemory_uniquelyOwned ((System.Reachable.start rfl).run ?_ hrun)⟩
  refine System.along_of_forall (fun s e he => ?_) _
  rintro t size rfl
  simp only [recycledRun, List.mem_cons, Event.allocate.injEq, reduceCtorEq, List.not_mem_nil,
    false_or, or_false] at he
  obtain ⟨-, rfl⟩ | ⟨-, rfl⟩ := he <;> decide

/-- A block that is too large for the pools, allocated and released. -/
def largeRun : List (Event (Fin 1)) :=
  [.allocate 0 5000, .step 0 7, .step 0 7, .release 0 0, .step 0 7, .step 0 7]

/-- A large block is in no place once it is released. -/
theorem largeBlock_not_owned :
    ¬∀ s : State (Fin 1), (system .x64).Reachable (Fits .x64) s →
      ∀ b, b < s.heap.next → s.owners b + s.heap.listed b = 1 := by
  intro howned
  have hany : ((system .x64).run largeRun {}).any
      (fun s => 0 < s.heap.next ∧ s.owners 0 + s.heap.listed 0 = 0) = true := by
    decide +kernel
  obtain ⟨s, hrun, hnext, hplaces⟩ := System.exists_of_run hany
  refine absurd (howned s ((System.Reachable.start rfl).run ?_ hrun) 0 hnext) (by omega)
  refine System.along_of_forall (fun s e he => ?_) _
  rintro t size rfl
  simp only [largeRun, List.mem_cons, Event.allocate.injEq, reduceCtorEq, List.not_mem_nil,
    or_false] at he
  obtain ⟨-, rfl⟩ := he
  decide

end Runs

end Memory

end ServerCore
