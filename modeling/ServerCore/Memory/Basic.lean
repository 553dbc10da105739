import Mathlib.Algebra.Group.Int.Defs
import Mathlib.Data.Int.Notation
import ServerCore.Interleaving.System
import ServerCore.Memory.SizeClasses

/-!
# `Allocate` and `Release`, step by step

A thread is outside the manager or at one of the atomic steps of a call: one
operation on a pool's list, one `_aligned_malloc` or `_aligned_free`, one access to
the `allocSize` of a `MemoryHeader`. A block's header is all that is modelled of its
contents. Fresh memory has arbitrary contents, so the event of a step carries the
value that a new block's header happens to have.

Callers own the pointers they got, may pass them to each other, release only what
they own, and do not write headers. A failed `ASSERT_CRASH` ends the run; the model
is the build in which it is checked. Reading a table entry that the constructor
left uninitialised is undefined behaviour, and has no step.

`origin` records the pool that obtained a block, `capacity` the bytes it asked for,
and `freed` what went back through `_aligned_free`. No step reads them.
-/

namespace ServerCore

namespace Memory

open Interleaving

/-- The targets of the build. -/
inductive Target where
  | win32 | x64
  deriving DecidableEq, Repr

/-- `sizeof(MemoryHeader)`: an `SLIST_ENTRY` and an `allocSize`, aligned to 16. -/
def Target.sizeofMemoryHeader : Target → UInt32
  | .win32 => 16
  | .x64 => 32

/-- The conversion of `int32` to `size_t`. -/
def Target.sizeT (target : Target) (n : Int32) : ℕ :=
  match target with
  | .win32 => (n.toInt % 2 ^ 32).toNat
  | .x64 => (n.toInt % 2 ^ 64).toNat

/-- The manager and the blocks obtained so far, which are those below `next`. -/
structure Heap where
  manager : MemoryManager := .new
  next : Block := 0
  header : Block → UInt32 := fun _ => 0
  capacity : Block → ℕ := fun _ => 0
  origin : Block → Option ℕ := fun _ => none
  freed : List Block := []

/-- The next step of `Allocate` or `Release`. -/
inductive Pc where
  | popEntry (allocSize : UInt32) (pool : ℕ)
  | popCheck (allocSize : UInt32) (pool : ℕ) (memory : Block)
  | popMalloc (allocSize : UInt32) (pool : ℕ)
  | largeMalloc (allocSize : UInt32)
  | attachHeader (allocSize : UInt32) (header : Block)
  | readHeader (header : Block)
  | largeFree (header : Block)
  | pushClear (pool : ℕ) (header : Block)
  | pushEntry (pool : ℕ) (header : Block)
  deriving DecidableEq, Repr

/-- What follows a step: another one, the return of `Allocate` with a block, the
return of `Release`, or a failed assertion. -/
inductive Outcome where
  | goto (pc : Pc)
  | allocated (header : Block)
  | released
  | crash (message : String)
  deriving DecidableEq, Repr

namespace Heap

variable (m : Heap)

def setHeader (b : Block) (allocSize : UInt32) : Heap :=
  { m with header := Function.update m.header b allocSize }

def setList (k : ℕ) (pool : MemoryPool) (header : List Block) : Heap :=
  { m with manager := { m.manager with pools := m.manager.pools.set k { pool with header } } }

/-- `_aligned_malloc(bytes, SLIST_ALIGNMENT)`. -/
def malloc (bytes : ℕ) (origin : Option ℕ) (contents : UInt32) : Heap :=
  { m with
    next := m.next + 1
    header := Function.update m.header m.next contents
    capacity := Function.update m.capacity m.next bytes
    origin := Function.update m.origin m.next origin }

def free (b : Block) : Heap := { m with freed := b :: m.freed }

end Heap

/-- The first step of `Allocate(_size)`. -/
def allocate (target : Target) (m : Heap) (size : UInt32) : Option Pc :=
  let allocSize := size + target.sizeofMemoryHeader
  if allocSize > maxAllocSize then some (.largeMalloc allocSize)
  else (m.manager.poolTable allocSize.toNat).map (.popEntry allocSize)

/-- One step of a call. -/
def Pc.exec (target : Target) (contents : UInt32) (m : Heap) : Pc → Option (Heap × Outcome)
  | .popEntry allocSize k =>
      match m.manager.pools[k]? with
      | none => none
      | some pool =>
          match pool.header with
          | [] => some (m, .goto (.popMalloc allocSize k))
          | memory :: rest => some (m.setList k pool rest, .goto (.popCheck allocSize k memory))
  | .popCheck allocSize _ memory =>
      if m.header memory ≠ 0 then some (m, .crash "allocSize is not 0")
      else some (m, .goto (.attachHeader allocSize memory))
  | .popMalloc allocSize k =>
      match m.manager.pools[k]? with
      | none => none
      | some pool =>
          some (m.malloc (target.sizeT pool.allocSize) (some k) contents,
            .goto (.attachHeader allocSize m.next))
  | .largeMalloc allocSize =>
      some (m.malloc allocSize.toNat none contents, .goto (.attachHeader allocSize m.next))
  | .attachHeader allocSize header => some (m.setHeader header allocSize, .allocated header)
  | .readHeader header =>
      let allocSize := m.header header
      if allocSize = 0 then some (m, .crash "Unknown error - allocSize is zero")
      else if allocSize > maxAllocSize then some (m, .goto (.largeFree header))
      else (m.manager.poolTable allocSize.toNat).map fun k => (m, .goto (.pushClear k header))
  | .largeFree header => some (m.free header, .released)
  | .pushClear k header => some (m.setHeader header 0, .goto (.pushEntry k header))
  | .pushEntry k header =>
      match m.manager.pools[k]? with
      | none => none
      | some pool => some (m.setList k pool (header :: pool.header), .released)

/-- A thread's call, if it is inside one, and the blocks it owns. -/
structure Thread where
  running : Option Pc := none
  held : List Block := []
  deriving DecidableEq, Repr

structure State (Tid : Type) where
  heap : Heap := {}
  threads : Tid → Thread := fun _ => {}
  crashed : Option String := none

inductive Event (Tid : Type) where
  | allocate (t : Tid) (size : UInt32)
  | release (t : Tid) (header : Block)
  | pass (t u : Tid) (header : Block)
  | step (t : Tid) (contents : UInt32)
  deriving DecidableEq, Repr

variable {Tid : Type} [DecidableEq Tid]

namespace State

def setThread (s : State Tid) (t : Tid) (th : Thread) : State Tid :=
  { s with threads := Function.update s.threads t th }

/-- Apply the outcome of a step of thread `t`. -/
def settle (s : State Tid) (t : Tid) (m : Heap) : Outcome → State Tid
  | .goto pc => { s with heap := m }.setThread t { s.threads t with running := some pc }
  | .allocated header => { s with heap := m }.setThread t
      { running := none, held := header :: (s.threads t).held }
  | .released => { s with heap := m }.setThread t { s.threads t with running := none }
  | .crash message => { s with heap := m, crashed := some message }

/-- Only threads outside the manager make calls. -/
def next (target : Target) (s : State Tid) : Event Tid → Option (State Tid)
  | .allocate t size =>
      if s.crashed = none ∧ (s.threads t).running = none then
        (allocate target s.heap size).map fun pc =>
          s.setThread t { s.threads t with running := some pc }
      else none
  | .release t header =>
      if s.crashed = none ∧ (s.threads t).running = none ∧ header ∈ (s.threads t).held then
        some (s.setThread t
          { running := some (.readHeader header), held := (s.threads t).held.erase header })
      else none
  | .pass t u header =>
      if s.crashed = none ∧ header ∈ (s.threads t).held then
        let s := s.setThread t { s.threads t with held := (s.threads t).held.erase header }
        some (s.setThread u { s.threads u with held := header :: (s.threads u).held })
      else none
  | .step t contents =>
      match s.crashed, (s.threads t).running with
      | none, some pc => (pc.exec target contents s.heap).map fun (m, outcome) =>
          s.settle t m outcome
      | _, _ => none

end State

/-- All interleavings of the threads' calls, from a manager just constructed. -/
def system (target : Target) : System (State Tid) (Event Tid) where
  init s := s = {}
  next := State.next target

section Simp

@[simp] theorem setHeader_self (m : Heap) (b : Block) (a : UInt32) :
    (m.setHeader b a).header b = a := by
  simp [Heap.setHeader]

theorem setHeader_other (m : Heap) {b c : Block} (a : UInt32) (h : c ≠ b) :
    (m.setHeader b a).header c = m.header c := by
  simp [Heap.setHeader, h]

variable (s : State Tid) (t u : Tid) (th : Thread)

@[simp] theorem setThread_heap : (s.setThread t th).heap = s.heap := rfl

@[simp] theorem setThread_crashed : (s.setThread t th).crashed = s.crashed := rfl

@[simp] theorem setThread_self : (s.setThread t th).threads t = th := by
  simp [State.setThread]

theorem setThread_other (h : u ≠ t) : (s.setThread t th).threads u = s.threads u := by
  simp [State.setThread, h]

@[simp] theorem settle_heap (m : Heap) (outcome : Outcome) : (s.settle t m outcome).heap = m := by
  cases outcome <;> rfl

end Simp

/-- The steps of a call as a relation, one rule for each way that it can go on. -/
inductive Pc.Step (target : Target) (contents : UInt32) (m : Heap) :
    Pc → Heap → Outcome → Prop where
  | popEmpty {a k pool} : m.manager.pools[k]? = some pool → pool.header = [] →
      Pc.Step target contents m (.popEntry a k) m (.goto (.popMalloc a k))
  | popBlock {a k pool b rest} : m.manager.pools[k]? = some pool → pool.header = b :: rest →
      Pc.Step target contents m (.popEntry a k) (m.setList k pool rest) (.goto (.popCheck a k b))
  | checkCrash {a k b} : m.header b ≠ 0 →
      Pc.Step target contents m (.popCheck a k b) m (.crash "allocSize is not 0")
  | check {a k b} : m.header b = 0 →
      Pc.Step target contents m (.popCheck a k b) m (.goto (.attachHeader a b))
  | popMalloc {a k pool} : m.manager.pools[k]? = some pool →
      Pc.Step target contents m (.popMalloc a k)
        (m.malloc (target.sizeT pool.allocSize) (some k) contents) (.goto (.attachHeader a m.next))
  | largeMalloc {a} : Pc.Step target contents m (.largeMalloc a)
      (m.malloc a.toNat none contents) (.goto (.attachHeader a m.next))
  | attach {a b} : Pc.Step target contents m (.attachHeader a b) (m.setHeader b a) (.allocated b)
  | readCrash {b} : m.header b = 0 → Pc.Step target contents m (.readHeader b) m
      (.crash "Unknown error - allocSize is zero")
  | readLarge {b} : m.header b ≠ 0 → m.header b > maxAllocSize →
      Pc.Step target contents m (.readHeader b) m (.goto (.largeFree b))
  | readPooled {b k} : m.header b ≠ 0 → ¬m.header b > maxAllocSize →
      m.manager.poolTable (m.header b).toNat = some k →
      Pc.Step target contents m (.readHeader b) m (.goto (.pushClear k b))
  | free {b} : Pc.Step target contents m (.largeFree b) (m.free b) .released
  | clear {k b} : Pc.Step target contents m (.pushClear k b) (m.setHeader b 0)
      (.goto (.pushEntry k b))
  | push {k b pool} : m.manager.pools[k]? = some pool →
      Pc.Step target contents m (.pushEntry k b) (m.setList k pool (b :: pool.header)) .released

theorem Pc.step_of_exec {target : Target} {contents : UInt32} {m m' : Heap} {pc : Pc}
    {outcome : Outcome} (h : pc.exec target contents m = some (m', outcome)) :
    Pc.Step target contents m pc m' outcome := by
  cases pc with
  | popEntry a k =>
      simp only [Pc.exec] at h
      split at h
      · cases h
      · next pool hpool =>
          split at h
          · next hlist =>
              cases h
              exact .popEmpty hpool hlist
          · next b rest hlist =>
              cases h
              exact .popBlock hpool hlist
  | popCheck a k b =>
      simp only [Pc.exec] at h
      split at h
      · next hheader =>
          cases h
          exact .checkCrash hheader
      · next hheader =>
          cases h
          exact .check (not_not.mp hheader)
  | popMalloc a k =>
      simp only [Pc.exec] at h
      split at h
      · cases h
      · next pool hpool =>
          cases h
          exact .popMalloc hpool
  | largeMalloc a =>
      cases h
      exact .largeMalloc
  | attachHeader a b =>
      cases h
      exact .attach
  | readHeader b =>
      simp only [Pc.exec] at h
      split at h
      · next hzero =>
          cases h
          exact .readCrash hzero
      · next hne =>
          split at h
          · next hlarge =>
              cases h
              exact .readLarge hne hlarge
          · next hsmall =>
              obtain ⟨k, htable, heq⟩ := Option.map_eq_some_iff.mp h
              cases heq
              exact .readPooled hne hsmall htable
  | largeFree b =>
      cases h
      exact .free
  | pushClear k b =>
      cases h
      exact .clear
  | pushEntry k b =>
      simp only [Pc.exec] at h
      split at h
      · cases h
      · next pool hpool =>
          cases h
          exact .push hpool

/-- What a step can do: a call begins, a block changes hands, or a call makes its
next step. -/
theorem next_cases {target : Target} {s s' : State Tid} {e : Event Tid}
    (h : s.next target e = some s') :
    s.crashed = none ∧
      ((∃ t size pc, e = .allocate t size ∧ (s.threads t).running = none ∧
        allocate target s.heap size = some pc ∧
        s' = s.setThread t { s.threads t with running := some pc }) ∨
      (∃ t b, e = .release t b ∧ (s.threads t).running = none ∧ b ∈ (s.threads t).held ∧
        s' = s.setThread t
          { running := some (.readHeader b), held := (s.threads t).held.erase b }) ∨
      (∃ t u b mid, e = .pass t u b ∧ b ∈ (s.threads t).held ∧
        mid = s.setThread t { s.threads t with held := (s.threads t).held.erase b } ∧
        s' = mid.setThread u { mid.threads u with held := b :: (mid.threads u).held }) ∨
      (∃ t contents pc m outcome, e = .step t contents ∧ (s.threads t).running = some pc ∧
        Pc.Step target contents s.heap pc m outcome ∧ s' = s.settle t m outcome)) := by
  cases e with
  | allocate t size =>
      simp only [State.next] at h
      split at h
      · next hclient =>
          obtain ⟨pc, hpc, rfl⟩ := Option.map_eq_some_iff.mp h
          exact ⟨hclient.1, .inl ⟨t, size, pc, rfl, hclient.2, hpc, rfl⟩⟩
      · cases h
  | release t b =>
      simp only [State.next] at h
      split at h
      · next hclient =>
          cases h
          exact ⟨hclient.1, .inr (.inl ⟨t, b, rfl, hclient.2.1, hclient.2.2, rfl⟩)⟩
      · cases h
  | pass t u b =>
      simp only [State.next] at h
      split at h
      · next hclient =>
          cases h
          exact ⟨hclient.1, .inr (.inr (.inl ⟨t, u, b, _, rfl, hclient.2, rfl, rfl⟩))⟩
      · cases h
  | step t contents =>
      simp only [State.next] at h
      split at h
      · next pc halive hrun =>
          obtain ⟨⟨m, outcome⟩, hexec, rfl⟩ := Option.map_eq_some_iff.mp h
          exact ⟨halive, .inr (.inr (.inr ⟨t, contents, pc, m, outcome, rfl, hrun,
            Pc.step_of_exec hexec, rfl⟩))⟩
      · cases h

end Memory

end ServerCore
