import ServerCore.Interleaving.Projection
import ServerCore.Memory.Shutdown
import ServerCore.Word

/-!
# The usage counters of the pools

`Pop` and `Push` update `usedCount` and `reservedCount` after the list operation, each by an
atomic step of its own, so the counters lag behind the free lists. A thread owes the updates
that its calls have not come to yet; what a counter shows and what is still owed to it are
together exact in every interleaving (`Counted`). Outside all calls nothing is owed:
`reservedCount` is the length of the free list, and `usedCount` the number of the pool's
blocks that callers hold.
-/

namespace ServerCore

namespace Memory

open Interleaving

/-- The counters of the pool with this index. -/
inductive Counter where
  | usedCount (pool : ℕ)
  | reservedCount (pool : ℕ)
  deriving DecidableEq, Repr

inductive Update where
  | fetchAdd (counter : Counter)
  | fetchSub (counter : Counter)
  deriving DecidableEq, Repr

/-- The updates that follow the step of a call which ends in `outcome`. -/
def Pc.updates : Pc → Outcome → List Update
  | .popCheck _ k _, .goto _ => [.fetchSub (.reservedCount k), .fetchAdd (.usedCount k)]
  | .popMalloc _ k, .goto _ => [.fetchAdd (.usedCount k)]
  | .pushEntry k _, .released => [.fetchSub (.usedCount k), .fetchAdd (.reservedCount k)]
  | _, _ => []

/-- The updates of a `Pop` that has taken its block and not checked it. -/
def Pc.announced : Pc → List Update
  | .popCheck _ k _ => [.fetchSub (.reservedCount k), .fetchAdd (.usedCount k)]
  | _ => []

namespace Usage

/-- The manager with its counters; `pending` are the updates that the call of a thread comes
to next. -/
structure State (Tid : Type) where
  memory : Memory.State Tid := {}
  counts : Counter → Int32 := fun _ => 0
  pending : Tid → List Update := fun _ => []

inductive Event (Tid : Type) where
  | memory (e : Memory.Event Tid)
  | count (t : Tid)

/-- The thread that is outside all calls, or whose call goes on. -/
def caller {Tid : Type} : Memory.Event Tid → Option Tid
  | .allocate t _ => some t
  | .release t _ => some t
  | .pass _ _ _ => none
  | .step t _ => some t

namespace State

variable {Tid : Type} [DecidableEq Tid] (target : Target) (s : State Tid)

/-- The updates that follow a step of the manager. -/
def pend : Memory.Event Tid → Tid → List Update
  | .step t contents =>
      match (s.memory.threads t).running with
      | some pc =>
          match pc.exec target contents s.memory.heap with
          | some (_, outcome) => Function.update s.pending t (pc.updates outcome)
          | none => s.pending
      | none => s.pending
  | _ => s.pending

omit [DecidableEq Tid] in
def apply : Update → Counter → Int32
  | .fetchAdd counter => Function.update s.counts counter (s.counts counter + 1)
  | .fetchSub counter => Function.update s.counts counter (s.counts counter - 1)

def next (s : State Tid) : Event Tid → Option (State Tid)
  | .memory e =>
      if ∀ t ∈ caller e, s.pending t = [] then
        (s.memory.next target e).map fun memory =>
          { s with memory, pending := s.pend target e }
      else none
  | .count t =>
      match s.pending t with
      | [] => none
      | update :: rest =>
          some { s with
            counts := s.apply update
            pending := Function.update s.pending t rest }

end State

/-- All interleavings of the threads' calls, from a manager just constructed. -/
def system {Tid : Type} [DecidableEq Tid] (target : Target) : System (State Tid) (Event Tid) where
  init s := s = {}
  next := State.next target

end Usage

namespace Heap

variable (m : Heap)

/-- The number of blocks in a free list. -/
def reserved (k : ℕ) : ℕ := m.manager.pools[k]?.elim 0 fun pool => pool.header.length

/-- The number of blocks that a pool obtained from the system. -/
def obtained (k : ℕ) : ℕ := (List.range m.next).countP fun b => m.origin b = some k

/-- What a counter counts, as a difference. -/
def gained : Counter → ℕ
  | .usedCount k => m.obtained k
  | .reservedCount k => m.reserved k

def lost : Counter → ℕ
  | .usedCount k => m.reserved k
  | .reservedCount _ => 0

theorem reserved_setList {k : ℕ} {pool : MemoryPool} (hpool : m.manager.pools[k]? = some pool)
    (header : List Block) (i : ℕ) :
    (m.setList k pool header).reserved i + (if k = i then pool.header.length else 0) =
      m.reserved i + (if k = i then header.length else 0) := by
  have hlt : k < m.manager.pools.length := (List.getElem?_eq_some_iff.mp hpool).1
  change (m.manager.pools.set k { pool with header })[i]?.elim 0 _ + _ = _
  by_cases hk : k = i
  · subst hk
    rw [List.getElem?_set_self hlt, if_pos rfl, if_pos rfl, reserved, hpool]
    exact Nat.add_comm _ _
  · rw [List.getElem?_set_ne hk, if_neg hk, if_neg hk]
    rfl

theorem obtained_malloc (bytes : ℕ) (origin : Option ℕ) (contents : UInt32) (i : ℕ) :
    (m.malloc bytes origin contents).obtained i =
      m.obtained i + if origin = some i then 1 else 0 := by
  have hold : (List.range m.next).countP (fun b =>
      Function.update m.origin m.next origin b = some i) = m.obtained i := by
    apply List.countP_congr
    intro b hb
    rw [Function.update_of_ne (Nat.ne_of_lt (List.mem_range.mp hb))]
  change (List.range (m.next + 1)).countP _ = _
  rw [List.range_succ, List.countP_append]
  change (List.range m.next).countP (fun b => Function.update m.origin m.next origin b = some i) +
    _ = _
  have hself : (m.malloc bytes origin contents).origin m.next = origin := Function.update_self ..
  rw [hold, List.countP_singleton, hself]
  simp

@[simp] theorem obtained_setList (k : ℕ) (pool : MemoryPool) (header : List Block) (i : ℕ) :
    (m.setList k pool header).obtained i = m.obtained i := rfl

@[simp] theorem reserved_malloc (bytes : ℕ) (origin : Option ℕ) (contents : UInt32) (i : ℕ) :
    (m.malloc bytes origin contents).reserved i = m.reserved i := rfl

end Heap

/-- What a call owes after a step: a crashed call stays where it is. -/
def Outcome.announced (pc : Pc) : Outcome → List Update
  | .goto pc' => pc'.announced
  | .crash _ => pc.announced
  | _ => []

/-- A step changes what a counter counts by what the call then owes. -/
theorem step_usage {target : Target} {contents : UInt32} {m m' : Heap} {pc : Pc}
    {outcome : Outcome} (h : Pc.Step target contents m pc m' outcome) (c : Counter) :
    m'.gained c + m.lost c + (outcome.announced pc ++ pc.updates outcome).count (.fetchSub c) +
        pc.announced.count (.fetchAdd c) =
      m.gained c + m'.lost c + pc.announced.count (.fetchSub c) +
        (outcome.announced pc ++ pc.updates outcome).count (.fetchAdd c) := by
  cases h with
  | @popBlock a k pool b rest hpool hlist =>
      have hreserved := fun i => Heap.reserved_setList m hpool rest i
      rw [hlist, List.length_cons] at hreserved
      obtain i | i := c <;> have hi := hreserved i <;> by_cases hk : k = i <;>
        simp [Heap.gained, Heap.lost, Outcome.announced, Pc.announced, Pc.updates, hk] at hi ⊢ <;>
        omega
  | @popMalloc a k pool hpool =>
      have hobtained := Heap.obtained_malloc m (target.sizeT pool.allocSize) (some k) contents
      obtain i | i := c <;> have hi := hobtained i <;> by_cases hk : k = i <;>
        simp [Heap.gained, Heap.lost, Outcome.announced, Pc.announced, Pc.updates, hk] at hi ⊢ <;>
        omega
  | @largeMalloc a =>
      have hobtained := Heap.obtained_malloc m a.toNat none contents
      obtain i | i := c <;> have hi := hobtained i <;>
        simp [Heap.gained, Heap.lost, Outcome.announced, Pc.announced, Pc.updates] at hi ⊢
      omega
  | @push k b pool hpool =>
      have hreserved := fun i => Heap.reserved_setList m hpool (b :: pool.header) i
      rw [List.length_cons] at hreserved
      obtain i | i := c <;> have hi := hreserved i <;> by_cases hk : k = i <;>
        simp [Heap.gained, Heap.lost, Outcome.announced, Pc.announced, Pc.updates, hk] at hi ⊢ <;>
        omega
  -- The others leave the lists alone, and pass on what the call owes.
  | checkCrash => simp only [Outcome.announced, Pc.updates, List.append_nil]
  | _ => rfl

namespace Usage

variable {Tid : Type} {target : Target} {s s' : State Tid}

/-- The updates that a thread owes. -/
def State.owes (s : State Tid) (t : Tid) : List Update :=
  (s.memory.threads t).running.elim [] Pc.announced ++ s.pending t

variable [Fintype Tid]

def State.owed (s : State Tid) (update : Update) : ℕ := ∑ t, (s.owes t).count update

/-- A counter and what is owed to it are exact. -/
def Counted (s : State Tid) : Prop :=
  ∀ c, s.counts c + Int32.ofNat (s.owed (.fetchAdd c)) + Int32.ofNat (s.memory.heap.lost c) =
    Int32.ofNat (s.memory.heap.gained c) + Int32.ofNat (s.owed (.fetchSub c))

/-- The step changes what is counted by what is owed. -/
theorem Counted.of_ledger (h : Counted s) (counts : s'.counts = s.counts)
    (ledger : ∀ c, s'.memory.heap.gained c + s.memory.heap.lost c + s'.owed (.fetchSub c) +
        s.owed (.fetchAdd c) = s.memory.heap.gained c + s'.memory.heap.lost c +
          s.owed (.fetchSub c) + s'.owed (.fetchAdd c)) : Counted s' := by
  intro c
  have hcount := h c
  have hledger := congrArg Int32.ofNat (ledger c)
  simp only [Int32.ofNat_add] at hledger
  rw [counts]
  grind

variable [DecidableEq Tid]

/-- Replacing what one thread owes trades it for what the thread owed before. -/
theorem owed_of_others {t : Tid} (others : ∀ u, u ≠ t → s'.owes u = s.owes u) (update : Update) :
    s'.owed update + (s.owes t).count update = s.owed update + (s'.owes t).count update := by
  apply sum_of_others (f := fun u => (s.owes u).count update)
    (g := fun u => (s'.owes u).count update)
  intro u hu
  rw [others u hu]

omit [DecidableEq Tid] in
theorem owed_of_same (h : ∀ t, s'.owes t = s.owes t) (update : Update) :
    s'.owed update = s.owed update := by
  rw [State.owed, State.owed]
  exact Finset.sum_congr rfl fun t _ => by rw [h t]

omit [DecidableEq Tid] in
/-- A call that begins owes nothing. -/
theorem announced_of_allocate {m : Heap} {size : UInt32} {pc : Pc}
    (h : allocate target m size = some pc) : pc.announced = [] := by
  unfold allocate at h
  simp only at h
  split at h
  · cases h
    rfl
  · obtain ⟨k, -, rfl⟩ := Option.map_eq_some_iff.mp h
    rfl

omit [DecidableEq Tid] in
/-- A step outside the pools, by which no thread comes to owe more or less. -/
theorem Counted.frame {memory : Memory.State Tid} (h : Counted s)
    (heap : memory.heap = s.memory.heap)
    (same : ∀ t, (memory.threads t).running.elim [] Pc.announced =
      (s.memory.threads t).running.elim [] Pc.announced) : Counted { s with memory } := by
  have howed : ∀ update, ({ s with memory } : State Tid).owed update = s.owed update :=
    owed_of_same fun t => congrArg (· ++ s.pending t) (same t)
  refine h.of_ledger rfl fun c => ?_
  rw [howed, howed]
  change memory.heap.gained c + _ + _ + _ = _ + memory.heap.lost c + _ + _
  rw [heap]

theorem Counted.memory {e : Memory.Event Tid} {memory : Memory.State Tid} (h : Counted s)
    (ready : ∀ t ∈ caller e, s.pending t = []) (hnext : s.memory.next target e = some memory) :
    Counted { s with memory, pending := s.pend target e } := by
  cases e with
  | step t contents =>
      simp only [Memory.State.next] at hnext
      split at hnext
      · next pc hrunning hpc =>
          obtain ⟨⟨m, outcome⟩, hexec, rfl⟩ := Option.map_eq_some_iff.mp hnext
          change Counted { s with
            memory := s.memory.settle t m outcome, pending := s.pend target (.step t contents) }
          have hpend : s.pend target (.step t contents) =
              Function.update s.pending t (pc.updates outcome) := by
            simp only [State.pend, hpc, hexec]
          have hbefore : s.owes t = pc.announced := by
            rw [State.owes, hpc, ready t rfl, List.append_nil]
            rfl
          have hafter : ({ s with
              memory := s.memory.settle t m outcome
              pending := s.pend target (.step t contents) } : State Tid).owes t =
                outcome.announced pc ++ pc.updates outcome := by
            rw [State.owes]
            simp only [hpend, Function.update_self]
            congr 1
            cases outcome with
            | crash message =>
                simp only [Memory.State.settle, hpc]
                rfl
            | goto pc' | allocated b | released =>
                simp only [Memory.State.settle, setThread_self]
                rfl
          have hothers : ∀ u, u ≠ t → ({ s with
              memory := s.memory.settle t m outcome
              pending := s.pend target (.step t contents) } : State Tid).owes u = s.owes u := by
            intro u hu
            rw [State.owes, State.owes]
            simp only [hpend, Function.update_of_ne hu, settle_other hu]
          refine h.of_ledger rfl fun c => ?_
          have hadd := owed_of_others hothers (.fetchAdd c)
          have hsub := owed_of_others hothers (.fetchSub c)
          have husage := step_usage (Pc.step_of_exec hexec) c
          rw [hbefore, hafter] at hadd hsub
          rw [settle_heap]
          omega
      · cases hnext
  | allocate t size =>
      simp only [Memory.State.next] at hnext
      split at hnext
      · next hclient =>
          obtain ⟨pc, hpc, rfl⟩ := Option.map_eq_some_iff.mp hnext
          refine h.frame rfl fun u => ?_
          obtain rfl | hu := eq_or_ne u t
          · rw [setThread_self, hclient.2]
            exact announced_of_allocate hpc
          · rw [setThread_other _ _ _ _ hu]
      · cases hnext
  | release t b =>
      simp only [Memory.State.next] at hnext
      split at hnext
      · next hclient =>
          cases hnext
          refine h.frame rfl fun u => ?_
          obtain rfl | hu := eq_or_ne u t
          · rw [setThread_self, hclient.2.1]
            rfl
          · rw [setThread_other _ _ _ _ hu]
      · cases hnext
  | pass t u b =>
      simp only [Memory.State.next] at hnext
      split at hnext
      · cases hnext
        have hkeep : ∀ (s : Memory.State Tid) (t : Tid) (held : List Block) (v : Tid),
            ((s.setThread t { s.threads t with held }).threads v).running =
              (s.threads v).running := by
          intro s t held v
          obtain rfl | hv := eq_or_ne v t
          · rw [setThread_self]
          · rw [setThread_other _ _ _ _ hv]
        exact h.frame rfl fun v => by rw [hkeep, hkeep]
      · cases hnext

omit [Fintype Tid] [DecidableEq Tid] in
theorem apply_eq (update : Update) (c : Counter) :
    s.apply update c + Int32.ofNat (if update = .fetchSub c then 1 else 0) =
      s.counts c + Int32.ofNat (if update = .fetchAdd c then 1 else 0) := by
  cases update with
  | fetchAdd c' =>
      by_cases hc : c' = c
      · subst hc
        simp [State.apply]
      · simp [State.apply, hc, Function.update_of_ne (Ne.symm hc)]
  | fetchSub c' =>
      by_cases hc : c' = c
      · subst hc
        simp [State.apply]
      · simp [State.apply, hc, Function.update_of_ne (Ne.symm hc)]

/-- A thread makes an update that it owes. -/
theorem Counted.count {t : Tid} {update : Update} {rest : List Update} (h : Counted s)
    (hpending : s.pending t = update :: rest) : Counted { s with
      counts := s.apply update, pending := Function.update s.pending t rest } := by
  intro c
  have howed : ∀ u, ({ s with
      counts := s.apply update
      pending := Function.update s.pending t rest } : State Tid).owed u +
        (if update = u then 1 else 0) = s.owed u := by
    intro u
    have hsame : ∀ v, v ≠ t → State.owes { s with
        counts := s.apply update, pending := Function.update s.pending t rest } v = s.owes v := by
      intro v hv
      rw [State.owes, State.owes]
      simp only [Function.update_of_ne hv]
    have hothers := owed_of_others hsame u
    simp only [State.owes, hpending, Function.update_self, List.count_append, List.count_cons,
      beq_iff_eq] at hothers
    omega
  have hcount := h c
  have hadd := congrArg Int32.ofNat (howed (.fetchAdd c))
  have hsub := congrArg Int32.ofNat (howed (.fetchSub c))
  rw [Int32.ofNat_add] at hadd hsub
  change s.apply update c + _ + Int32.ofNat (s.memory.heap.lost c) =
    Int32.ofNat (s.memory.heap.gained c) + _
  have happly := apply_eq (s := s) update c
  grind

variable {ok : UInt32 → Prop}

/-- The manager's part of a step, and whether its requests satisfy `ok`. -/
def Requests (target : Target) (ok : UInt32 → Prop) (s : State Tid) : Event Tid → Prop
  | .memory e => Memory.Requests target ok s.memory e
  | .count _ => True

omit [Fintype Tid] in
theorem next_cases {e : Event Tid} (h : s.next target e = some s') :
    (∃ e' memory, e = .memory e' ∧ (∀ t ∈ caller e', s.pending t = []) ∧
      s.memory.next target e' = some memory ∧
      s' = { s with memory, pending := s.pend target e' }) ∨
    (∃ t update rest, e = .count t ∧ s.pending t = update :: rest ∧
      s' = { s with
        counts := s.apply update, pending := Function.update s.pending t rest }) := by
  cases e with
  | memory e =>
      simp only [State.next] at h
      split at h
      · next ready =>
          obtain ⟨memory, hnext, rfl⟩ := Option.map_eq_some_iff.mp h
          exact .inl ⟨e, memory, rfl, ready, hnext, rfl⟩
      · cases h
  | count t =>
      simp only [State.next] at h
      split at h
      · cases h
      · next update rest hpending =>
          cases h
          exact .inr ⟨t, update, rest, rfl, hpending, rfl⟩

omit [Fintype Tid] in
/-- The updates of the counters are no steps of the manager. -/
theorem projects_memory : System.Projects
    (system target : System (State Tid) (Event Tid)) (Memory.system target) (Requests target ok)
    (Memory.Requests target ok) State.memory where
  init := by
    rintro s rfl
    rfl
  next := by
    intro s e s' hok hnext
    obtain ⟨e', memory, rfl, -, hmemory, rfl⟩ | ⟨t, update, rest, rfl, -, rfl⟩ :=
      next_cases hnext
    · exact System.exists_run_single hmemory hok
    · exact System.exists_run_nil rfl

omit [DecidableEq Tid] in
theorem counted_start : Counted ({} : State Tid) := by
  have howed : ∀ update, ({} : State Tid).owed update = 0 := by
    intro update
    exact Finset.sum_eq_zero fun t _ => rfl
  have hreserved : ∀ k, Heap.reserved {} k = 0 := by
    intro k
    rw [Heap.reserved]
    cases hpool : MemoryManager.new.pools[k]? with
    | none => rfl
    | some pool =>
        rw [Option.elim_some, MemoryManager.new_pools (List.mem_of_getElem? hpool)]
        rfl
  intro c
  rw [howed, howed]
  cases c with
  | usedCount k =>
      change (0 : Int32) + 0 + Int32.ofNat (Heap.reserved {} k) = 0 + 0
      rw [hreserved]
      rfl
  | reservedCount k =>
      change (0 : Int32) + 0 + 0 = Int32.ofNat (Heap.reserved {} k) + 0
      rw [hreserved]
      rfl

theorem counted_of_reachable (h : (system target).Reachable (Requests target ok) s) :
    Counted s := by
  apply h.invariant (I := Counted)
  · intro s hs
    rw [show s = {} from hs]
    exact counted_start
  · intro s e s' hs _ hnext
    obtain ⟨e', memory, rfl, ready, hmemory, rfl⟩ | ⟨t, update, rest, rfl, hpending, rfl⟩ :=
      next_cases hnext
    · exact hs.memory ready hmemory
    · exact hs.count hpending

omit [DecidableEq Tid] in
/-- Outside all calls the blocks of a pool are in its free list or with a caller. -/
theorem obtained_eq {s : Memory.State Tid} (owned : Owned ok s) (retired : Retired s)
    (outside : ∀ t, (s.threads t).running = none) {k : ℕ} {pool : MemoryPool}
    (hpool : s.heap.manager.pools[k]? = some pool) :
    s.heap.obtained k = pool.header.length + (List.range s.heap.next).countP fun b =>
      s.heap.origin b = some k ∧ ∃ t, b ∈ (s.threads t).held := by
  have hlength := (owned.header_perm hpool).length_eq
  rw [← List.countP_eq_length_filter] at hlength
  have hsplit := List.countP_eq_countP_filter_add (List.range s.heap.next)
    (fun b => decide (s.heap.origin b = some k)) fun b => decide (0 < s.heap.listed b)
  rw [List.countP_filter, List.countP_filter] at hsplit
  rw [Heap.obtained, hsplit, hlength]
  congr 1
  · apply List.countP_congr
    simp
  · apply List.countP_congr
    intro b hb
    have hunique := owned.unique b
    have howners := owners_pos_iff outside b
    simp only [Bool.and_eq_true, decide_eq_true_iff, Bool.not_eq_true', decide_eq_false_iff_not]
    refine and_congr_right fun horigin => ?_
    have hlive : s.heap.Live b := by
      refine ⟨List.mem_range.mp hb, fun hfreed => ?_⟩
      rw [retired.large b hfreed] at horigin
      cases horigin
    rw [live_of hlive] at hunique
    rw [← howners]
    omega

/-- What the counters of a pool show outside all calls. -/
structure Shows (s : State Tid) (k : ℕ) (pool : MemoryPool) : Prop where
  reservedCount : s.counts (.reservedCount k) = Int32.ofNat pool.header.length
  usedCount : s.counts (.usedCount k) = Int32.ofNat
    ((List.range s.memory.heap.next).countP fun b =>
      s.memory.heap.origin b = some k ∧ ∃ t, b ∈ (s.memory.threads t).held)

/-- The counters of the pools lag behind by what the threads owe, and outside all calls show
the free blocks and the blocks that callers hold. -/
theorem usageCounters_exact (h : (system target).Reachable (Requests target ok) s) : Counted s ∧
    ((∀ t, (s.memory.threads t).running = none ∧ s.pending t = []) →
      ∀ k pool, s.memory.heap.manager.pools[k]? = some pool → Shows s k pool) := by
  have hcounted := counted_of_reachable h
  refine ⟨hcounted, fun rest k pool hpool => ?_⟩
  have hmemory := projects_memory.reachable h
  have hobtained := obtained_eq (reachable_owned hmemory) (retired_of_reachable hmemory)
    (fun t => (rest t).1) hpool
  have howed : ∀ update, s.owed update = 0 := by
    intro update
    apply Finset.sum_eq_zero
    intro t _
    rw [State.owes, (rest t).1, (rest t).2]
    rfl
  have hreserved : s.memory.heap.reserved k = pool.header.length := by
    rw [Heap.reserved, hpool]
    rfl
  have hfree := hcounted (.reservedCount k)
  have hheld := hcounted (.usedCount k)
  rw [howed, howed] at hfree hheld
  simp only [Heap.gained, Heap.lost, hreserved, hobtained, Int32.ofNat_add] at hfree hheld
  constructor
  · simpa using hfree
  · have hzero : Int32.ofNat 0 = 0 := rfl
    rw [hzero] at hheld
    grind

/-- Two threads allocate 24 bytes each, and the first one releases its block. -/
def releasedRun : List (Event (Fin 2)) :=
  [.memory (.allocate 0 24), .memory (.step 0 7), .memory (.step 0 7), .memory (.allocate 1 24),
    .memory (.step 1 7), .count 0, .memory (.step 0 7), .memory (.step 1 7), .count 1,
    .memory (.step 1 7), .memory (.release 0 0), .memory (.step 0 7), .memory (.step 0 7),
    .memory (.step 0 7), .count 0, .count 0]

theorem usageCounters_exact_released : ∃ s : State (Fin 2),
    (system .x64).run releasedRun {} = some s ∧ s.counts (.usedCount 1) = 1 ∧
      ∃ pool, s.memory.heap.manager.pools[1]? = some pool ∧ Shows s 1 pool := by
  have hany : ((system .x64).run releasedRun {}).any (fun s : State (Fin 2) => decide
      ((∀ t, (s.memory.threads t).running = none ∧ s.pending t = []) ∧
        s.counts (.usedCount 1) = 1 ∧ s.memory.heap.manager.pools[1]? = some ⟨[0], 0⟩)) = true := by
    decide +kernel
  obtain ⟨s, hrun, rest, hused, hpool⟩ := System.exists_of_run hany
  have hrequests : (system .x64).Along (Requests .x64 fun _ => True) releasedRun {} := by
    refine System.along_of_forall (fun s e _ => ?_) _
    cases e with
    | memory e => exact fun _ _ _ => trivial
    | count t => trivial
  have hexact := usageCounters_exact ((System.Reachable.start rfl).run hrequests hrun)
  exact ⟨s, hrun, hused, _, hpool, hexact.2 rest 1 _ hpool⟩

end Usage

end Memory

end ServerCore
