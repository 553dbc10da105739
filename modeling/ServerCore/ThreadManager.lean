import ServerCore.Lock.Basic

/-!
# Thread ids and the owner half of a lock

`InitTLS` takes the next id from a 32-bit counter that starts at 1. The constructor runs
it for the thread that constructs the manager, and every launched thread runs it before
its callback. An id is never given out again, and `DestroyTLS` is empty.

`WriteLock` stores the low 16 bits of the id in the upper half of `lockFlag` and
compares that half with the whole id. So the ids up to 65535 are told apart, and the next
one is stored as no owner at all.

`issued` records the ids that `InitTLS` gave out. No step reads it.
-/

namespace ServerCore

open Interleaving

namespace ThreadManager

/-- A launched thread runs its callback between `InitTLS` and its end. -/
inductive Phase where
  | launched
  | running
  | finished
  deriving DecidableEq, Repr

structure Thread where
  phase : Phase := .launched
  tlsThreadId : UInt32 := 0
  deriving DecidableEq, Repr

structure State where
  threads : List Thread := []
  sThreadId : UInt32 := 1
  issued : List UInt32 := []

namespace State

/-- `InitTLS`, up to its store into `tls_ThreadId`. -/
def initTLS (m : State) : State :=
  { m with sThreadId := m.sThreadId + 1, issued := m.issued ++ [m.sThreadId] }

/-- `ThreadManager::ThreadManager`. -/
def new : State := ({} : State).initTLS

def setThread (m : State) (i : ℕ) (th : Thread) : State :=
  { m with threads := m.threads.set i th }

/-- `Launch`, under the mutex. -/
def launch (m : State) : State := { m with threads := m.threads ++ [{}] }

end State

/-- `Launch` creates a thread; a thread begins with `InitTLS`; its callback returns and it
ends; `Join` returns. -/
inductive Event where
  | launch
  | start (i : ℕ)
  | finish (i : ℕ)
  | join
  deriving DecidableEq, Repr

def State.next (m : State) : Event → Option State
  | .launch => some m.launch
  | .start i =>
      match m.threads[i]? with
      | some ⟨.launched, _⟩ => some (m.initTLS.setThread i ⟨.running, m.sThreadId⟩)
      | _ => none
  | .finish i =>
      match m.threads[i]? with
      | some ⟨.running, tlsThreadId⟩ => some (m.setThread i ⟨.finished, tlsThreadId⟩)
      | _ => none
  | .join => if ∀ th ∈ m.threads, th.phase = .finished then some { m with threads := [] } else none

/-- All histories of one manager, from its constructor on. -/
def system : System State Event where
  init m := m = .new
  next := State.next

section Owner

/-- What `WriteLock` stores in a free lock. -/
def ownerField (tlsThreadId : UInt32) : UInt32 := (tlsThreadId <<< 16) &&& Lock.writeThreadMask

theorem exec_take {l : Lock} (hfree : l.lockFlag = Lock.emptyFlag) (tlsThreadId : UInt32)
    (now started : UInt64) (spin : UInt32) :
    (Lock.Pc.writeLockSpin started spin).exec tlsThreadId now l =
      ({ l with lockFlag := ownerField tlsThreadId }, .goto .writeLockOwn) := by
  simp only [Lock.Pc.exec, hfree, if_true, ownerField]

/-- The owner of a lock sees itself in it exactly when its id survives the way into the
flag and back. -/
theorem exec_reenter_iff {l : Lock} {tlsThreadId : UInt32}
    (howned : l.lockFlag = ownerField tlsThreadId) (now : UInt64) :
    (Lock.Pc.writeLockLoad.exec tlsThreadId now l).2 = .goto .writeLockNest ↔
      ownerField tlsThreadId >>> 16 = tlsThreadId := by
  have hmask : ownerField tlsThreadId &&& Lock.writeThreadMask = ownerField tlsThreadId := by
    rw [ownerField, UInt32.and_assoc, UInt32.and_self]
  rw [Lock.Pc.exec, howned, hmask]
  split
  · next heq => exact iff_of_true rfl heq
  · next hne => exact iff_of_false (by simp) hne

variable {id id' : UInt32}

theorem toNat_ownerField (h : id.toNat < 65536) : (ownerField id).toNat = id.toNat * 65536 :=
  Word.toNat_shifted id h

theorem ownerField_ne_empty (h : 1 ≤ id.toNat ∧ id.toNat < 65536) :
    ownerField id ≠ Lock.emptyFlag := by
  intro heq
  have hzero := congrArg UInt32.toNat heq
  rw [toNat_ownerField h.2] at hzero
  change _ = 0 at hzero
  omega

theorem ownerField_inj (h : id.toNat < 65536) (h' : id'.toNat < 65536)
    (heq : ownerField id = ownerField id') : id = id' := by
  have hnat := congrArg UInt32.toNat heq
  rw [toNat_ownerField h, toNat_ownerField h'] at hnat
  exact UInt32.toNat_inj.mp (by omega)

/-- The ids that survive are those that fit the owner half. -/
theorem ownerField_shift_iff (id : UInt32) : ownerField id >>> 16 = id ↔ id.toNat < 65536 := by
  have hshift : (ownerField id >>> 16).toNat = (ownerField id).toNat / 65536 := by
    rw [UInt32.toNat_shiftRight]
    exact Nat.shiftRight_eq_div_pow _ 16
  constructor
  · intro heq
    rw [heq] at hshift
    have hlt := (ownerField id).toNat_lt
    omega
  · intro hlt
    rw [← UInt32.toNat_inj, hshift, toNat_ownerField hlt]
    omega

end Owner

/-- The thread is inside its callback. -/
def State.Runs (m : State) (i : ℕ) (tlsThreadId : UInt32) : Prop :=
  m.threads[i]? = some ⟨.running, tlsThreadId⟩

/-- A thread that runs after one thread's state was stored is that thread, or it ran before. -/
theorem State.runs_setThread {m : State} {i j : ℕ} {th : Thread} {id : UInt32}
    (hj : (m.setThread i th).Runs j id) :
    (j = i ∧ th = ⟨.running, id⟩) ∨ (j ≠ i ∧ m.Runs j id) := by
  obtain hne | rfl := ne_or_eq j i
  · exact .inr ⟨hne, (List.getElem?_set_ne hne.symm).symm.trans hj⟩
  · obtain ⟨_, -, heq⟩ := Option.map_eq_some_iff.mp (List.getElem?_set_self'.symm.trans hj)
    exact .inl ⟨rfl, heq⟩

/-- Every id that was given out is stored as an owner and recognised, and threads that
run at the same time are stored as different owners. -/
structure Packed (m : State) : Prop where
  nonzero : ∀ id ∈ m.issued, ownerField id ≠ Lock.emptyFlag
  recognised : ∀ id ∈ m.issued, ownerField id >>> 16 = id
  distinct : ∀ i j id id', m.Runs i id → m.Runs j id' → i ≠ j → ownerField id ≠ ownerField id'

/-- If the step runs `InitTLS`, the next id fits the owner half. -/
def FitsOwner (m : State) : Event → Prop
  | .start _ => m.sThreadId.toNat < 65536
  | _ => True

/-- What holds while the ids fit: the counter is above every id, and the threads that run
have different ones. -/
structure Issuing (m : State) : Prop where
  counter : 1 ≤ m.sThreadId.toNat ∧ m.sThreadId.toNat ≤ 65536
  issued : ∀ id ∈ m.issued, 1 ≤ id.toNat ∧ id.toNat < m.sThreadId.toNat
  running : ∀ i id, m.Runs i id → id ∈ m.issued
  distinct : ∀ i j id id', m.Runs i id → m.Runs j id' → i ≠ j → id ≠ id'

namespace Issuing

variable {m m' : State} {e : Event}

/-- The ids of the threads that run are what the lock asks of its threads. -/
theorem ids (h : Issuing m) {id : UInt32} (hid : id ∈ m.issued) :
    1 ≤ id.toNat ∧ id.toNat < 65536 := by
  have hbounds := h.issued id hid
  have hcounter := h.counter.2
  omega

theorem packed (h : Issuing m) : Packed m := by
  refine ⟨fun id hid => ownerField_ne_empty (h.ids hid),
    fun id hid => (ownerField_shift_iff id).mpr (h.ids hid).2, ?_⟩
  intro i j id id' hi hj hne heq
  have hlt := (h.ids (h.running i id hi)).2
  have hlt' := (h.ids (h.running j id' hj)).2
  exact h.distinct i j id id' hi hj hne (ownerField_inj hlt hlt' heq)

theorem initial : Issuing .new where
  counter := by decide
  issued id hid := by
    obtain rfl := List.mem_singleton.mp hid
    decide
  running i id hi := by cases hi
  distinct i j id id' hi := by cases hi

/-- The threads that run are among those that ran before. -/
theorem of_runs (h : Issuing m) (hcounter : m'.sThreadId = m.sThreadId)
    (hissued : m'.issued = m.issued) (hruns : ∀ i id, m'.Runs i id → m.Runs i id) :
    Issuing m' := by
  refine ⟨?_, ?_, fun i id hi => ?_, fun i j id id' hi hj => ?_⟩
  · rw [hcounter]
    exact h.counter
  · rw [hcounter, hissued]
    exact h.issued
  · rw [hissued]
    exact h.running i id (hruns i id hi)
  · exact h.distinct i j id id' (hruns i id hi) (hruns j id' hj)

/-- A thread begins, with an id above all others. -/
theorem start (h : Issuing m) (hfits : m.sThreadId.toNat < 65536) (i : ℕ) :
    Issuing (m.initTLS.setThread i ⟨.running, m.sThreadId⟩) := by
  have hnext : (m.sThreadId + 1).toNat = m.sThreadId.toNat + 1 := Word.toNat_add_one _ (by omega)
  have hruns : ∀ j id, (m.initTLS.setThread i ⟨.running, m.sThreadId⟩).Runs j id →
      (j = i ∧ id = m.sThreadId) ∨ (j ≠ i ∧ m.Runs j id) := by
    intro j id hj
    obtain ⟨rfl, ⟨⟩⟩ | hold := State.runs_setThread hj
    · exact .inl ⟨rfl, rfl⟩
    · exact .inr hold
  have hnew : ∀ j id, m.Runs j id → id ≠ m.sThreadId := by
    rintro j id hj rfl
    exact Nat.lt_irrefl _ (h.issued _ (h.running j _ hj)).2
  refine ⟨?_, fun id hid => ?_, fun j id hj => ?_, fun j k id id' hj hk hne => ?_⟩
  · change 1 ≤ (m.sThreadId + 1).toNat ∧ (m.sThreadId + 1).toNat ≤ 65536
    omega
  · change 1 ≤ id.toNat ∧ id.toNat < (m.sThreadId + 1).toNat
    have hcounter := h.counter.1
    obtain hold | hself := List.mem_append.mp hid
    · have hbounds := h.issued id hold
      omega
    · rw [List.mem_singleton.mp hself]
      omega
  · obtain ⟨-, rfl⟩ | ⟨-, hold⟩ := hruns j id hj
    · exact List.mem_append_right _ (List.mem_singleton_self _)
    · exact List.mem_append_left _ (h.running j id hold)
  · obtain ⟨rfl, rfl⟩ | ⟨-, hold⟩ := hruns j id hj
    · obtain ⟨rfl, -⟩ | ⟨-, hold'⟩ := hruns k id' hk
      · exact absurd rfl hne
      · exact (hnew k id' hold').symm
    · obtain ⟨-, rfl⟩ | ⟨-, hold'⟩ := hruns k id' hk
      · exact hnew j id hold
      · exact h.distinct j k id id' hold hold' hne

/-- A thread that ends does not run, and the others go on. -/
theorem runs_finish {i j : ℕ} {id id' : UInt32} (hj : (m.setThread i ⟨.finished, id⟩).Runs j id') :
    m.Runs j id' := by
  obtain ⟨-, ⟨⟩⟩ | ⟨-, hold⟩ := State.runs_setThread hj
  exact hold

theorem runs_launch {j : ℕ} {id : UInt32} (hj : m.launch.Runs j id) : m.Runs j id := by
  change (m.threads ++ [({} : Thread)])[j]? = _ at hj
  by_cases hlt : j < m.threads.length
  · rwa [List.getElem?_append_left hlt] at hj
  · rw [List.getElem?_append_right (Nat.le_of_not_lt hlt)] at hj
    cases List.mem_singleton.mp (List.mem_of_getElem? hj)

theorem next (h : Issuing m) (hok : FitsOwner m e) (hnext : m.next e = some m') : Issuing m' := by
  cases e with
  | launch =>
      cases hnext
      exact h.of_runs rfl rfl fun _ _ => runs_launch
  | start i =>
      simp only [State.next] at hnext
      split at hnext <;> cases hnext
      exact h.start hok i
  | finish i =>
      simp only [State.next] at hnext
      split at hnext <;> cases hnext
      exact h.of_runs rfl rfl fun _ _ => runs_finish
  | join =>
      simp only [State.next] at hnext
      split at hnext <;> cases hnext
      exact h.of_runs rfl rfl nofun

end Issuing

section Runs

variable {m m' : State} {e : Event}

/-- An id that is given out and recognised fits the owner half. -/
theorem Packed.fitsOwner (h : Packed m') (hnext : m.next e = some m') : FitsOwner m e := by
  cases e with
  | launch | finish _ | join => trivial
  | start i =>
      simp only [State.next] at hnext
      split at hnext <;> cases hnext
      have hself : m.sThreadId ∈ m.issued ++ [m.sThreadId] :=
        List.mem_append_right _ (List.mem_singleton_self _)
      exact (ownerField_shift_iff _).mp (h.recognised _ hself)

/-- In a history of a manager, thread ids survive the way into the owner half of a lock
exactly when no thread begins after the ids below 65536 are used up. -/
theorem threadIds_packed_iff (es : List Event) :
    system.Throughout Packed es .new ↔ system.Along FitsOwner es .new :=
  System.throughout_iff_along (I := Issuing) (fun _ h => h.packed)
    (fun _ _ _ h hok hnext => h.next hok hnext) (fun _ _ _ _ hnext hafter => hafter.fitsOwner hnext)
    es .initial

/-- Threads that are launched, run and are joined one after the other use up the ids. -/
theorem reachable_counter {n : ℕ} (hn : n < 65535) :
    ∃ m, system.Reachable System.anyStep m ∧ m.threads = [] ∧ m.sThreadId.toNat = n + 2 := by
  induction n with
  | zero => exact ⟨.new, .start rfl, rfl, rfl⟩
  | succ n ih =>
      obtain ⟨m, hreach, hnone, hcounter⟩ := ih (Nat.lt_of_succ_lt hn)
      have hrun : system.run [.launch, .start 0, .finish 0, .join] m =
          some { m.initTLS with threads := [] } := by
        obtain ⟨threads, sThreadId, issued⟩ := m
        cases hnone
        rfl
      refine ⟨_, hreach.run (System.along_anyStep _ _) hrun, rfl, ?_⟩
      change (m.sThreadId + 1).toNat = n + 1 + 2
      rw [Word.toNat_add_one _ (by omega), hcounter]

/-- The thread that is launched next gets the id 65536 and is stored as no owner. -/
theorem threadIds_wrap :
    ¬∀ m, system.Reachable System.anyStep m → Packed m := by
  intro hall
  obtain ⟨m, hreach, hnone, hcounter⟩ := reachable_counter (n := 65534) (by decide)
  have hrun : system.run [.launch, .start 0] m =
      some { m.initTLS with threads := [⟨.running, m.sThreadId⟩] } := by
    obtain ⟨threads, sThreadId, issued⟩ := m
    cases hnone
    rfl
  have hpacked := hall _ (hreach.run (System.along_anyStep _ _) hrun)
  have hself : m.sThreadId ∈ m.issued ++ [m.sThreadId] :=
    List.mem_append_right _ (List.mem_singleton_self _)
  have hlt := (ownerField_shift_iff _).mp (hpacked.recognised _ hself)
  omega

end Runs

end ThreadManager

end ServerCore
