import Mathlib.Data.Fin.VecNotation
import ServerCore.Lock.Basic
import ServerCore.Word

/-!
# The scope guards and what they exclude

`READ_LOCK` and `WRITE_LOCK` declare a `ReadLockGuard` or a `WriteLockGuard` in the
enclosing scope. Both constructors call `ReadLock` and both destructors call
`ReadUnlock`, so a write guard takes a shared hold. The state that matters is the
list of guards each thread has constructed and not yet destroyed.

A constructor that meets no write owner takes its count whatever guards other
threads have (`run_construct`). Exclusion is therefore up to the schedule, and
over all schedules it fails as soon as two threads use the lock and one of them
constructs a write guard.
-/

namespace ServerCore

namespace Lock

open Interleaving

inductive GuardKind where
  | read | write
  deriving DecidableEq, Repr

/-- What the constructors of `ReadLockGuard` and `WriteLockGuard` call. -/
def GuardKind.constructor : GuardKind → Call
  | .read => .readLock
  | .write => .readLock

/-- What the destructors of `ReadLockGuard` and `WriteLockGuard` call. -/
def GuardKind.destructor : GuardKind → Call
  | .read => .readUnlock
  | .write => .readUnlock

inductive GuardOp where
  | construct (kind : GuardKind)
  | destroy (kind : GuardKind)
  deriving DecidableEq, Repr

/-- Threads that use the lock through guards only. A guard is held from the return
of its constructor to the return of its destructor. -/
def guards : Client GuardOp GuardKind where
  call
    | .construct kind => kind.constructor
    | .destroy kind => kind.destructor
  allowed
    | .construct _, _ => true
    | .destroy kind, holds => holds.contains kind
  finish
    | .construct kind, holds => kind :: holds
    | .destroy kind, holds => holds.erase kind

variable {Tid : Type} [DecidableEq Tid] {ids : Tid → UInt32}
variable {s s' : State Tid GuardOp GuardKind} {t u : Tid}

/-- No thread has a write guard while another thread has any guard. -/
def Exclusive (s : State Tid GuardOp GuardKind) : Prop :=
  ∀ t u, t ≠ u → .write ∈ (s.threads t).holds → (s.threads u).holds = []

/-- If the step takes the count that completes a constructor, then no other thread
has a guard that the new one conflicts with. -/
def Uncontended (ids : Tid → UInt32) (s : State Tid GuardOp GuardKind)
    (e : Event Tid GuardOp) : Prop :=
  ∀ t now kind pc, e = .step t now → (s.threads t).running = some (.construct kind, pc) →
    (pc.exec (ids t) now s.lock).2 = .ret →
    ∀ u, u ≠ t → .write ∉ (s.threads u).holds ∧ (kind = .write → (s.threads u).holds = [])

/-- Threads construct only the guards that the program has for them. -/
def Within (uses : Tid → GuardKind → Prop) (_ : State Tid GuardOp GuardKind)
    (e : Event Tid GuardOp) : Prop :=
  ∀ t kind, e = .call t (.construct kind) → uses t kind

/-- A step changes the guards of at most its own thread, by completing a
constructor or a destructor. -/
theorem next_holds {e : Event Tid GuardOp} (h : s.next guards ids e = some s') :
    (∀ u, (s'.threads u).holds = (s.threads u).holds) ∨
      ∃ t now op pc, e = .step t now ∧ (s.threads t).running = some (op, pc) ∧
        (pc.exec (ids t) now s.lock).2 = .ret ∧
        (s'.threads t).holds = guards.finish op (s.threads t).holds ∧
        ∀ u, u ≠ t → (s'.threads u).holds = (s.threads u).holds := by
  obtain ⟨-, ⟨t, op, rfl, -, -, rfl⟩ | ⟨t, now, op, pc, rfl, hrun, rfl⟩⟩ := next_cases h
  · left
    intro u
    by_cases hu : u = t
    · rw [hu, setThread_self]
    · rw [setThread_other _ _ _ _ hu]
  · cases hexec : pc.exec (ids t) now s.lock with
    | mk lock outcome =>
        cases outcome with
        | goto pc' =>
            left
            intro u
            rw [settle_goto]
            by_cases hu : u = t
            · rw [hu, setThread_self]
            · rw [setThread_other _ _ _ _ hu]
        | ret =>
            right
            refine ⟨t, now, op, pc, rfl, hrun, by rw [hexec], ?_, ?_⟩
            · rw [settle_ret, setThread_self]
            · intro u hu
              rw [settle_ret, setThread_other _ _ _ _ hu]
        | crash message => exact .inl fun u => rfl

/-- Destroying guards never adds one. -/
theorem mem_finish_destroy {kind k : GuardKind} {holds : List GuardKind}
    (h : k ∈ guards.finish (.destroy kind) holds) : k ∈ holds :=
  List.mem_of_mem_erase h

/-- Uncontended steps keep exclusion. -/
theorem Exclusive.step (h : Exclusive s) {e : Event Tid GuardOp} (hok : Uncontended ids s e)
    (hnext : s.next guards ids e = some s') : Exclusive s' := by
  obtain hsame | ⟨t, now, op, pc, rfl, hrun, hret, hself, hother⟩ := next_holds hnext
  · intro a b hab ha
    rw [hsame] at ha ⊢
    exact h a b hab ha
  · intro a b hab ha
    cases op with
    | construct kind =>
        have hfree := hok t now kind pc rfl hrun hret
        by_cases hat : a = t
        · subst hat
          rw [hother b hab.symm]
          rw [hself] at ha
          obtain rfl | hold := List.mem_cons.mp ha
          · exact (hfree b hab.symm).2 rfl
          · exact h a b hab hold
        · rw [hother a hat] at ha
          exact absurd ha (hfree a hat).1
    | destroy kind =>
        have hwrite : .write ∈ (s.threads a).holds := by
          by_cases hat : a = t
          · subst hat
            rw [hself] at ha
            exact mem_finish_destroy ha
          · rwa [hother a hat] at ha
        have hempty := h a b hab hwrite
        by_cases hbt : b = t
        · subst hbt
          rw [hself, hempty]
          rfl
        · rw [hother b hbt]
          exact hempty

/-- A step into an exclusive state was uncontended. -/
theorem Exclusive.uncontended (h : Exclusive s') {e : Event Tid GuardOp}
    (hnext : s.next guards ids e = some s') : Uncontended ids s e := by
  rintro t now kind pc rfl hrun hret u hu
  obtain hsame | ⟨t', now', op, pc', heq, hrun', -, hself, hother⟩ := next_holds hnext
  · obtain ⟨-, ⟨_, _, heq, -⟩ | ⟨t', now', op, pc', heq, hrun', rfl⟩⟩ := next_cases hnext
    · cases heq
    · cases heq
      rw [hrun] at hrun'
      cases hrun'
      -- The constructor returned, so its thread's list of guards did change.
      have hgrown := hsame t
      rw [show pc.exec (ids t) now s.lock = ((pc.exec (ids t) now s.lock).1, .ret) from
        Prod.ext rfl hret, settle_ret, setThread_self] at hgrown
      simp [guards] at hgrown
  · cases heq
    rw [hrun] at hrun'
    cases hrun'
    have hmem : kind ∈ (s'.threads t).holds := by
      rw [hself]
      exact List.mem_cons_self
    rw [← hother u hu]
    constructor
    · intro hwrite
      rw [h u t hu hwrite] at hmem
      cases hmem
    · rintro rfl
      exact h t u hu.symm hmem

/-- Without a write owner a constructor completes in its three accesses, whatever
guards other threads have and whatever kind of guard it constructs. -/
theorem run_construct (hid : 0 < (ids t).toNat) (alive : s.crashed = none)
    (idle : (s.threads t).running = none) (hlow : s.lock.lockFlag.toNat < 65536)
    (kind : GuardKind) :
    (system guards ids).run [.call t (.construct kind), .step t 0, .step t 0, .step t 0] s =
      some ({ s with lock := { s.lock with lockFlag := s.lock.lockFlag + 1 } }.setThread t
        { running := none, holds := kind :: (s.threads t).holds }) := by
  have hcall : guards.call (.construct kind) = .readLock := by cases kind <;> rfl
  exact run_readLock guards ids hid hcall rfl alive idle hlow

/-- Every guard that is held or under construction is one the program has. -/
def HoldsWithin (uses : Tid → GuardKind → Prop) (s : State Tid GuardOp GuardKind) : Prop :=
  ∀ t kind, (kind ∈ (s.threads t).holds → uses t kind) ∧
    ∀ pc, (s.threads t).running = some (.construct kind, pc) → uses t kind

theorem reachable_holdsWithin {uses : Tid → GuardKind → Prop}
    (h : (system guards ids).Reachable (Within uses) s) : HoldsWithin uses s := by
  refine h.invariant ?_ ?_
  · rintro s rfl t kind
    exact ⟨fun hmem => (List.not_mem_nil hmem).elim, fun pc hrun => by cases hrun⟩
  · intro s e s' ih hok hnext t kind
    obtain ⟨-, ⟨u, op, rfl, -, -, rfl⟩ | ⟨u, now, op, pc', rfl, hrun, rfl⟩⟩ := next_cases hnext
    · by_cases htu : t = u
      · subst htu
        rw [setThread_self]
        refine ⟨(ih t kind).1, fun pc hpc => ?_⟩
        cases hpc
        exact hok t kind rfl
      · rw [setThread_other _ _ _ _ htu]
        exact ih t kind
    · obtain ⟨lock, outcome⟩ := pc'.exec (ids u) now s.lock
      by_cases htu : t = u
      · subst htu
        cases outcome with
        | goto pc'' =>
            rw [settle_goto, setThread_self]
            refine ⟨(ih t kind).1, fun pc hpc => ?_⟩
            cases hpc
            exact (ih t kind).2 pc' hrun
        | ret =>
            rw [settle_ret, setThread_self]
            refine ⟨fun hmem => ?_, fun pc hpc => by cases hpc⟩
            cases op with
            | construct k =>
                obtain rfl | hold := List.mem_cons.mp hmem
                · exact (ih t kind).2 pc' hrun
                · exact (ih t kind).1 hold
            | destroy k => exact (ih t kind).1 (mem_finish_destroy hmem)
        | crash message => exact ih t kind
      · cases outcome with
        | goto pc'' =>
            rw [settle_goto, setThread_other _ _ _ _ htu]
            exact ih t kind
        | ret =>
            rw [settle_ret, setThread_other _ _ _ _ htu]
            exact ih t kind
        | crash message => exact ih t kind

/-- Two threads construct their guards one after the other and both keep them. -/
theorem reachable_overlap {uses : Tid → GuardKind → Prop} (hid : ∀ t, 0 < (ids t).toNat)
    (htu : t ≠ u) {k k' : GuardKind} (ht : uses t k) (hu : uses u k') :
    ∃ s, (system guards ids).Reachable (Within uses) s ∧ s.crashed = none ∧
      (s.threads t).holds = [k] ∧ (s.threads u).holds = [k'] := by
  have hfirst := run_construct (s := {}) (t := t) (hid t) rfl rfl
    (show (0 : UInt32).toNat < 65536 by decide) k
  have hsecond := run_construct (t := u)
    (s := { ({} : State Tid GuardOp GuardKind) with lock := ⟨0 + 1, 0⟩ }.setThread t
      { running := none, holds := [k] })
    (hid u) rfl (by rw [setThread_other _ _ _ _ htu.symm])
    (show (0 + 1 : UInt32).toNat < 65536 by decide) k'
  have along : ∀ {v kind}, uses v kind → ∀ s : State Tid GuardOp GuardKind,
      (system guards ids).Along (Within uses)
        [.call v (.construct kind), .step v 0, .step v 0, .step v 0] s := by
    intro v kind huses s
    refine System.along_of_forall (fun s e he => ?_) s
    rintro w k rfl
    simp only [List.mem_cons, Event.call.injEq, GuardOp.construct.injEq] at he
    obtain ⟨rfl, rfl⟩ | he := he
    · exact huses
    · simp at he
  refine ⟨_, ((System.Reachable.start rfl).run (along ht _) hfirst).run (along hu _) hsecond,
    rfl, ?_, ?_⟩
  · rw [setThread_other _ _ _ _ htu]
    exact congrArg Thread.holds (setThread_self _ _ _)
  · rw [setThread_self, setThread_other _ _ _ _ htu.symm]

/-- What the guards exclude. A run is exclusive throughout exactly when every
constructor takes its count while no other thread has a conflicting guard. All
runs of a program are exclusive exactly when no thread constructs a write guard
on the lock that another thread constructs any guard on. -/
theorem writeLockGuard_excludes_iff {Tid : Type} [DecidableEq Tid] (ids : Tid → UInt32)
    (hid : ∀ t, 0 < (ids t).toNat) :
    (∀ es, (system guards ids).Throughout Exclusive es {} ↔
      (system guards ids).Along (Uncontended ids) es {}) ∧
    ∀ uses : Tid → GuardKind → Prop,
      (∀ s, (system guards ids).Reachable (Within uses) s → Exclusive s) ↔
        ∀ t u, t ≠ u → uses t .write → ∀ kind, ¬uses u kind := by
  constructor
  · intro es
    apply System.throughout_iff_along (I := Exclusive)
    · exact fun s h => h
    · exact fun s e s' h hok hnext => h.step hok hnext
    · exact fun s e s' _ hnext h => h.uncontended hnext
    · exact fun t u _ hmem => (List.not_mem_nil hmem).elim
  · intro uses
    constructor
    · intro hexcl t u htu ht kind hu
      obtain ⟨s, hreach, -, hwrite, hother⟩ := reachable_overlap hid htu ht hu
      have hempty := hexcl s hreach t u htu (by rw [hwrite]; exact List.mem_singleton_self _)
      rw [hother] at hempty
      cases hempty
    · intro hprogram s hreach t u htu hwrite
      apply List.eq_nil_iff_forall_not_mem.mpr
      intro kind hmem
      exact hprogram t u htu ((reachable_holdsWithin hreach t .write).1 hwrite) kind
        ((reachable_holdsWithin hreach u kind).1 hmem)

section TwoThreads

def guardIds : Fin 2 → UInt32 := ![1, 2]

/-- Two write guards on one lock at the same time. -/
theorem writeLockGuard_not_exclusive :
    ¬∀ s, (system guards guardIds).Reachable System.anyStep s → Exclusive s := by
  intro hexcl
  have hrun : (system guards guardIds).run
      [.call 0 (.construct .write), .step 0 0, .step 0 0, .step 0 0,
        .call 1 (.construct .write), .step 1 0, .step 1 0, .step 1 0] {} = some _ := rfl
  have hreach := System.reachable_of_run rfl hrun
  exact absurd (hexcl _ hreach 0 1 (by decide) (by decide)) (by decide)

/-- A write guard that meets no other guard. -/
theorem writeLockGuard_excludes_alone :
    (system guards guardIds).Throughout Exclusive
      [.call 0 (.construct .write), .step 0 0, .step 0 0, .step 0 0] {} := by
  apply ((writeLockGuard_excludes_iff guardIds (by decide)).1 _).mpr
  have hstep : ∀ s : State (Fin 2) GuardOp GuardKind, (s.threads 1).holds = [] →
      Uncontended guardIds s (.step 0 0) := by
    rintro s hfree t now kind pc ⟨⟩ - - u hu
    obtain rfl : u = 1 := by omega
    exact ⟨by simp [hfree], fun _ => hfree⟩
  refine System.along_cons rfl ?_ (System.along_cons rfl (hstep _ rfl)
    (System.along_cons rfl (hstep _ rfl) (System.along_cons rfl (hstep _ rfl) trivial)))
  intro t now kind pc heq
  cases heq

end TwoThreads

end Lock

end ServerCore
