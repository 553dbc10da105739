import Mathlib.Data.Fin.VecNotation
import ServerCore.Interleaving.Threads
import ServerCore.Lock.Basic
import ServerCore.Word

/-!
# Exclusion of the reader/writer lock over all interleavings

Threads make LIFO-bracketed calls: an unlock call must match the thread's innermost
hold. A hold starts and ends with the return of a call, except that a thread owns
the write lock from its successful compare-exchange on, before `writeCount` is
updated and the call returns.

The invariant has two shapes. Either nobody owns the write lock, `lockFlag` is the
number of read holds and `writeCount` is zero, or one thread owns it, no other
thread holds anything, and the flag carries the owner's id above the owner's own
read holds. The steps between the owner test, the decrement of `writeCount` and
the final store are covered by what each program counter remembers (`At`).
-/

namespace ServerCore

namespace Lock

open Interleaving

inductive Hold where
  | read | write
  deriving DecidableEq, Repr

/-- Threads that bracket their calls. -/
def bracketed : Client Call Hold where
  call := id
  allowed
    | .writeUnlock, holds => holds.head? == some .write
    | .readUnlock, holds => holds.head? == some .read
    | _, _ => true
  finish
    | .writeLock, holds => .write :: holds
    | .readLock, holds => .read :: holds
    | .writeUnlock, holds => holds.tail
    | .readUnlock, holds => holds.tail

theorem allowed_writeUnlock {holds : List Hold} :
    bracketed.allowed .writeUnlock holds = true ↔ holds.head? = some .write := beq_iff_eq

theorem allowed_readUnlock {holds : List Hold} :
    bracketed.allowed .readUnlock holds = true ↔ holds.head? = some .read := beq_iff_eq

namespace Thread

/-- The thread owns the write lock: it has returned from `WriteLock`, or its
compare-exchange has succeeded and the call is about to count the hold. -/
def HoldsWrite (th : Thread Call Hold) : Prop :=
  .write ∈ th.holds ∨ th.running = some (.writeLock, .writeLockOwn)

instance (th : Thread Call Hold) : Decidable th.HoldsWrite :=
  inferInstanceAs (Decidable (_ ∨ _))

def reads (th : Thread Call Hold) : ℕ := th.holds.count .read

def writes (th : Thread Call Hold) : ℕ := th.holds.count .write

/-- One while `writeCount` is already decremented and the flag not yet cleared. -/
def closing (th : Thread Call Hold) : ℕ :=
  if th.running = some (.writeUnlock, .writeUnlockStore) then 1 else 0

end Thread

variable {Tid : Type} [Fintype Tid]

/-- The number of read holds, over all threads. -/
def State.readHolds (s : State Tid Call Hold) : ℕ := ∑ t, (s.threads t).reads

/-- Both 16-bit counters have room for the holds. -/
def State.Fits (s : State Tid Call Hold) : Prop :=
  s.readHolds < 65536 ∧ ∀ t, (s.threads t).writes < 65536

/-- The step stays within fewer than 65536 read holds and write nestings. -/
def WithinCapacity [DecidableEq Tid] (ids : Tid → UInt32) (s : State Tid Call Hold)
    (e : Event Tid Call) : Prop :=
  ∀ s', s.next bracketed ids e = some s' → s'.Fits

/-- What a program counter implies about the thread's own holds. -/
inductive At (holds : List Hold) : Call → Pc → Prop where
  | writeLockLoad : At holds .writeLock .writeLockLoad
  | writeLockNest : .write ∈ holds → At holds .writeLock .writeLockNest
  | writeLockSpin (started : UInt64) (spin : UInt32) :
      At holds .writeLock (.writeLockSpin started spin)
  | writeLockOwn : holds = [] → At holds .writeLock .writeLockOwn
  | writeLockTimeout (started : UInt64) : At holds .writeLock (.writeLockTimeout started)
  | writeUnlockLoad : holds.head? = some .write → At holds .writeUnlock .writeUnlockLoad
  | writeUnlockCount : holds.head? = some .write → .read ∉ holds →
      At holds .writeUnlock .writeUnlockCount
  | writeUnlockStore : holds = [.write] → At holds .writeUnlock .writeUnlockStore
  | readLockLoad : At holds .readLock .readLockLoad
  | readLockNest : .write ∈ holds → At holds .readLock .readLockNest
  | readLockSpin (started : UInt64) (spin : UInt32) :
      At holds .readLock (.readLockSpin started spin)
  | readLockCas (started : UInt64) (spin : UInt32) (expected : UInt32) :
      expected.toNat < 65536 → At holds .readLock (.readLockCas started spin expected)
  | readLockTimeout (started : UInt64) : At holds .readLock (.readLockTimeout started)
  | readUnlock : holds.head? = some .read → At holds .readUnlock .readUnlock

/-- Nobody owns the write lock. -/
structure Unowned (s : State Tid Call Hold) : Prop where
  no_writer : ∀ t, ¬(s.threads t).HoldsWrite
  flag : s.lock.lockFlag.toNat = s.readHolds
  count : s.lock.writeCount = 0

/-- Thread `t` owns the write lock. -/
structure OwnedBy (ids : Tid → UInt32) (s : State Tid Call Hold) (t : Tid) : Prop where
  owner : (s.threads t).HoldsWrite
  others : ∀ u, u ≠ t → (s.threads u).holds = [] ∧ ¬(s.threads u).HoldsWrite
  flag : s.lock.lockFlag.toNat = (ids t).toNat * 65536 + (s.threads t).reads
  count : s.lock.writeCount.toNat + (s.threads t).closing = (s.threads t).writes

structure Inv (ids : Tid → UInt32) (s : State Tid Call Hold) : Prop where
  at_pc : ∀ t op pc, (s.threads t).running = some (op, pc) → At (s.threads t).holds op pc
  fits : s.Fits
  flag : Unowned s ∨ ∃ t, OwnedBy ids s t

section Lists

theorem holds_eq_nil {holds : List Hold} (hr : holds.count .read = 0)
    (hw : .write ∉ holds) : holds = [] := by
  cases holds with
  | nil => rfl
  | cons h rest => cases h <;> simp_all

theorem holds_eq_singleton {holds : List Hold} (hr : .read ∉ holds)
    (hw : holds.count .write = 1) : holds = [.write] := by
  cases holds with
  | nil => simp at hw
  | cons h rest =>
      cases h with
      | read => simp at hr
      | write =>
          have hrest : rest = [] := by
            apply holds_eq_nil
            · exact List.count_eq_zero.mpr fun h => hr (List.mem_cons_of_mem _ h)
            · exact List.count_eq_zero.mp (by simpa using hw)
          rw [hrest]

end Lists

section Invariant

variable {ids : Tid → UInt32} {s : State Tid Call Hold} {t : Tid}

/-- All read holds under a write owner are the owner's. -/
theorem OwnedBy.readHolds (h : OwnedBy ids s t) : s.readHolds = (s.threads t).reads := by
  apply Finset.sum_eq_single t
  · intro u _ hu
    simp [Thread.reads, (h.others u hu).1]
  · simp

/-- A thread that holds the write lock is the owner. -/
theorem Inv.ownedBy (h : Inv ids s) (ht : (s.threads t).HoldsWrite) : OwnedBy ids s t := by
  obtain hfree | ⟨u, hu⟩ := h.flag
  · exact absurd ht (hfree.no_writer t)
  · by_cases htu : t = u
    · exact htu ▸ hu
    · exact absurd ht (hu.others t htu).2

/-- The owner half of the flag is the id of the write owner, and zero without one. -/
theorem Inv.upper (h : Inv ids s) :
    (∀ t, (s.threads t).HoldsWrite → s.lock.lockFlag.toNat / 65536 = (ids t).toNat) ∧
      ((∀ t, ¬(s.threads t).HoldsWrite) → s.lock.lockFlag.toNat / 65536 = 0) ∧
      s.lock.lockFlag.toNat % 65536 = s.readHolds := by
  have hfits := h.fits.1
  refine ⟨fun t ht => ?_, fun hnone => ?_, ?_⟩
  · have howned := h.ownedBy ht
    have hflag := howned.flag
    have hreads := howned.readHolds
    omega
  · obtain hfree | ⟨t, ht⟩ := h.flag
    · have hflag := hfree.flag
      omega
    · exact absurd ht.owner (hnone t)
  · obtain hfree | ⟨t, ht⟩ := h.flag
    · have hflag := hfree.flag
      omega
    · have hflag := ht.flag
      have hreads := ht.readHolds
      omega

/-- Seeing one's own id in the flag means owning the write lock. -/
theorem Inv.holdsWrite_of_upper (h : Inv ids s) (inj : Function.Injective ids)
    (hid : 0 < (ids t).toNat) (hupper : s.lock.lockFlag.toNat / 65536 = (ids t).toNat) :
    (s.threads t).HoldsWrite := by
  obtain hfree | ⟨u, hu⟩ := h.flag
  · have hflag := hfree.flag
    have hfits := h.fits.1
    omega
  · have hu' := h.upper.1 u hu.owner
    have : ids u = ids t := UInt32.toNat_inj.mp (hu'.symm.trans hupper)
    exact inj this ▸ hu.owner

/-- A flag without an owner half means that nobody owns the write lock. -/
theorem Inv.unowned (h : Inv ids s) (hid : ∀ t, 0 < (ids t).toNat)
    (hlow : s.lock.lockFlag.toNat < 65536) : Unowned s := by
  obtain hfree | ⟨u, hu⟩ := h.flag
  · exact hfree
  · have hflag := hu.flag
    have := hid u
    omega

end Invariant

section Steps

variable [DecidableEq Tid] {ids : Tid → UInt32} {s s' : State Tid Call Hold} {t : Tid}
variable {lock : Lock} {th : Thread Call Hold}

omit [Fintype Tid] in
theorem at_setThread (lock : Lock) (h : ∀ u op pc, (s.threads u).running = some (op, pc) →
      At (s.threads u).holds op pc)
    (hth : ∀ op pc, th.running = some (op, pc) → At th.holds op pc) (u : Tid) (op : Call)
    (pc : Pc) (hrun : (({ s with lock }.setThread t th).threads u).running = some (op, pc)) :
    At (({ s with lock }.setThread t th).threads u).holds op pc := by
  by_cases hu : u = t
  · subst hu
    rw [setThread_self] at hrun ⊢
    exact hth op pc hrun
  · rw [setThread_other _ _ _ _ hu] at hrun ⊢
    exact h u op pc hrun

theorem readHolds_setThread (lock : Lock) (th : Thread Call Hold) :
    ({ s with lock }.setThread t th).readHolds + (s.threads t).reads = s.readHolds + th.reads :=
  sum_update Thread.reads s.threads t th

omit [Fintype Tid] in
/-- The owner's own step keeps it the owner when its counters are kept up. -/
theorem OwnedBy.update (h : OwnedBy ids s t) (lock : Lock) (owner : th.HoldsWrite)
    (flag : lock.lockFlag.toNat = (ids t).toNat * 65536 + th.reads)
    (count : lock.writeCount.toNat + th.closing = th.writes) :
    OwnedBy ids ({ s with lock }.setThread t th) t where
  owner := by rwa [setThread_self]
  others u hu := by
    rw [setThread_other _ _ _ _ hu]
    exact h.others u hu
  flag := by rwa [setThread_self]
  count := by rwa [setThread_self]

/-- A step that leaves the write lock free only moves the read count. -/
theorem Unowned.update (h : Unowned s) (lock : Lock) (reader : ¬th.HoldsWrite)
    (flag : lock.lockFlag.toNat + (s.threads t).reads = s.lock.lockFlag.toNat + th.reads)
    (count : lock.writeCount = 0) : Unowned ({ s with lock }.setThread t th) where
  no_writer u := by
    by_cases hu : u = t
    · subst hu
      rwa [setThread_self]
    · rw [setThread_other _ _ _ _ hu]
      exact h.no_writer u
  flag := by
    have hsum : ({ s with lock }.setThread t th).readHolds + (s.threads t).reads =
        s.readHolds + th.reads := readHolds_setThread lock th
    have hflag := h.flag
    change lock.lockFlag.toNat = _
    omega
  count := count

/-- A step that changes neither the lock nor the thread's holds. -/
theorem Inv.move (h : Inv ids s) (hfits : (s.setThread t th).Fits)
    (hat : ∀ op pc, th.running = some (op, pc) → At th.holds op pc)
    (hholds : th.holds = (s.threads t).holds)
    (hwrite : th.HoldsWrite ↔ (s.threads t).HoldsWrite)
    (hclosing : th.closing = (s.threads t).closing) : Inv ids (s.setThread t th) := by
  have hreads : th.reads = (s.threads t).reads := by simp only [Thread.reads, hholds]
  have hwrites : th.writes = (s.threads t).writes := by simp only [Thread.writes, hholds]
  refine ⟨at_setThread s.lock h.at_pc hat, hfits, ?_⟩
  obtain hfree | ⟨u, hu⟩ := h.flag
  · refine .inl (hfree.update s.lock ?_ (by rw [hreads]) hfree.count)
    exact fun hw => hfree.no_writer t (hwrite.mp hw)
  · refine .inr ⟨u, ?_⟩
    by_cases htu : u = t
    · subst htu
      refine hu.update s.lock (hwrite.mpr hu.owner) ?_ ?_
      · rw [hreads]
        exact hu.flag
      · rw [hclosing, hwrites]
        exact hu.count
    · refine ⟨?_, ?_, ?_, ?_⟩
      · rw [setThread_other _ _ _ _ htu]
        exact hu.owner
      · intro v hv
        by_cases hvt : v = t
        · subst hvt
          rw [setThread_self, hholds, hwrite]
          exact hu.others v hv
        · rw [setThread_other _ _ _ _ hvt]
          exact hu.others v hv
      · rw [setThread_other _ _ _ _ htu]
        exact hu.flag
      · rw [setThread_other _ _ _ _ htu]
        exact hu.count

/-- The successful compare-exchange of `WriteLock`: an empty flag means that no
thread holds anything. -/
theorem Inv.acquireWrite (h : Inv ids s) (hid : ∀ t, 0 < (ids t).toNat ∧ (ids t).toNat < 65536)
    (hflag : s.lock.lockFlag = emptyFlag) (hnew : s' = { s with
      lock := { s.lock with lockFlag := (ids t <<< 16) &&& writeThreadMask } }.setThread t
      { s.threads t with running := some (.writeLock, .writeLockOwn) }) (hfits : s'.Fits) :
    Inv ids s' := by
  subst hnew
  have hzero : s.lock.lockFlag.toNat = 0 := by rw [hflag]; rfl
  have hfree := h.unowned (fun t => (hid t).1) (by omega)
  have hempty : ∀ u, (s.threads u).holds = [] := by
    intro u
    have hsum : (s.threads u).reads ≤ s.readHolds :=
      weight_le_sum (fun t => (s.threads t).reads) u
    have hreads := hfree.flag
    exact holds_eq_nil (show (s.threads u).reads = 0 by omega)
      fun hw => hfree.no_writer u (.inl hw)
  refine ⟨at_setThread _ h.at_pc ?_, hfits, .inr ⟨t, ?_, ?_, ?_, ?_⟩⟩
  · rintro op pc hrun
    cases hrun
    exact .writeLockOwn (hempty t)
  · rw [setThread_self]
    exact .inr rfl
  · intro u hu
    rw [setThread_other _ _ _ _ hu]
    exact ⟨hempty u, hfree.no_writer u⟩
  · rw [setThread_self]
    change ((ids t <<< 16) &&& 0xFFFF0000).toNat = _
    rw [Word.toNat_shifted _ (hid t).2]
    simp [Thread.reads, hempty t]
  · rw [setThread_self]
    simp [Thread.closing, Thread.writes, hempty t, hfree.count]

/-- A call or access of the write owner that keeps its counters kept up. -/
theorem Inv.ownerStep (h : Inv ids s) (howned : OwnedBy ids s t)
    (hfits : ({ s with lock }.setThread t th).Fits)
    (hat : ∀ op pc, th.running = some (op, pc) → At th.holds op pc) (owner : th.HoldsWrite)
    (flag : lock.lockFlag.toNat = (ids t).toNat * 65536 + th.reads)
    (count : lock.writeCount.toNat + th.closing = th.writes) :
    Inv ids ({ s with lock }.setThread t th) :=
  ⟨at_setThread _ h.at_pc hat, hfits, .inr ⟨t, howned.update _ owner flag count⟩⟩

/-- The read count moves while nobody owns the write lock. -/
theorem Inv.freeStep (h : Inv ids s) (hfree : Unowned s)
    (hfits : ({ s with lock }.setThread t th).Fits) (hrun : th.running = none)
    (reader : .write ∉ th.holds)
    (flag : lock.lockFlag.toNat + (s.threads t).reads = s.lock.lockFlag.toNat + th.reads)
    (count : lock.writeCount = s.lock.writeCount) :
    Inv ids ({ s with lock }.setThread t th) := by
  refine ⟨at_setThread _ h.at_pc ?_, hfits, .inl (hfree.update _ ?_ flag (count.trans hfree.count))⟩
  · simp [hrun]
  · simp [Thread.HoldsWrite, hrun, reader]

/-- The final store of `WriteUnlock` leaves a lock that nobody holds. -/
theorem Inv.releaseWrite (h : Inv ids s) (howned : OwnedBy ids s t)
    (hrun : (s.threads t).running = some (.writeUnlock, .writeUnlockStore))
    (hholds : (s.threads t).holds = [.write])
    (hnew : s' = { s with lock := { s.lock with lockFlag := emptyFlag } }.setThread t
      { running := none, holds := [] }) (hfits : s'.Fits) : Inv ids s' := by
  subst hnew
  have hempty : ∀ u, (({ s with lock := { s.lock with lockFlag := emptyFlag } }.setThread t
      { running := none, holds := [] }).threads u).holds = [] := by
    intro u
    by_cases hu : u = t
    · rw [hu, setThread_self]
    · rw [setThread_other _ _ _ _ hu]
      exact (howned.others u hu).1
  refine ⟨at_setThread _ h.at_pc (by simp), hfits, .inl ⟨fun u => ?_, ?_, ?_⟩⟩
  · by_cases hu : u = t
    · rw [hu, setThread_self]
      simp [Thread.HoldsWrite]
    · rw [setThread_other _ _ _ _ hu]
      exact (howned.others u hu).2
  · symm
    apply Finset.sum_eq_zero
    intro u _
    rw [Thread.reads, hempty u]
    rfl
  · have hcount := howned.count
    simp only [Thread.closing, hrun, if_true, Thread.writes, hholds, List.count_singleton_self]
      at hcount
    exact UInt16.toNat_inj.mp (by simpa using hcount)

/-- Entering a member function or moving between accesses that own nothing yet. -/
theorem Inv.goto (h : Inv ids s) {op : Call} {pc : Pc}
    (hfits : (s.setThread t { s.threads t with running := some (op, pc) }).Fits)
    (hold : (s.threads t).running ≠ some (.writeLock, .writeLockOwn) ∧
      (s.threads t).running ≠ some (.writeUnlock, .writeUnlockStore))
    (hnew : pc ≠ .writeLockOwn ∧ pc ≠ .writeUnlockStore) (hat : At (s.threads t).holds op pc) :
    Inv ids (s.setThread t { s.threads t with running := some (op, pc) }) := by
  refine h.move hfits ?_ rfl ?_ ?_
  · rintro op' pc' hrun
    cases hrun
    exact hat
  · simp [Thread.HoldsWrite, hold.1, hnew.1]
  · simp [Thread.closing, hold.2, hnew.2]

/-- A call begins. The bracketing rule is what the unlock functions rely on. -/
theorem Inv.call (h : Inv ids s) {op : Call} (hrun : (s.threads t).running = none)
    (hallowed : bracketed.allowed op (s.threads t).holds = true)
    (hfits : (s.setThread t { s.threads t with running := some (op, op.entry) }).Fits) :
    Inv ids (s.setThread t { s.threads t with running := some (op, op.entry) }) := by
  refine h.goto hfits (by simp [hrun]) ?_ ?_
  · cases op <;> simp [Call.entry]
  · cases op with
    | writeLock => exact .writeLockLoad
    | writeUnlock => exact .writeUnlockLoad (allowed_writeUnlock.mp hallowed)
    | readLock => exact .readLockLoad
    | readUnlock => exact .readUnlock (allowed_readUnlock.mp hallowed)

omit [DecidableEq Tid] in
/-- The owner test shared by both lock functions. -/
theorem Inv.ownerTest (h : Inv ids s) (inj : Function.Injective ids)
    (hid : 0 < (ids t).toNat) {op : Call} {pc : Pc} (hrun : (s.threads t).running = some (op, pc))
    (hpc : pc ≠ .writeLockOwn)
    (htest : (s.lock.lockFlag &&& writeThreadMask) >>> 16 = ids t) :
    .write ∈ (s.threads t).holds := by
  have hupper : s.lock.lockFlag.toNat / 65536 = (ids t).toNat := by
    rw [← htest]
    exact (Word.toNat_upper s.lock.lockFlag).symm
  obtain hw | hown := h.holdsWrite_of_upper inj hid hupper
  · exact hw
  · rw [hrun] at hown
    cases hown
    exact absurd rfl hpc

/-- `--writeCount` of the owner: either the outermost hold is about to be given up
by the store, or a nested hold ends here. -/
theorem Inv.countDown (h : Inv ids s)
    (hrun : (s.threads t).running = some (.writeUnlock, .writeUnlockCount))
    (hhead : (s.threads t).holds.head? = some .write) (hreads : .read ∉ (s.threads t).holds)
    (now : UInt64)
    (hfits : (s.settle bracketed t .writeUnlock
      (Pc.exec (ids t) now s.lock .writeUnlockCount)).Fits) :
    Inv ids (s.settle bracketed t .writeUnlock
      (Pc.exec (ids t) now s.lock .writeUnlockCount)) := by
  obtain ⟨rest, hholds⟩ := List.head?_eq_some_iff.mp hhead
  have howned := h.ownedBy (t := t) (.inl (by simp [hholds]))
  have hcount := howned.count
  have hwrites : (s.threads t).writes = rest.count .write + 1 := by
    simp [Thread.writes, hholds]
  simp only [Thread.closing, hrun] at hcount
  have hdec : (s.lock.writeCount - 1).toNat = rest.count .write := by
    rw [Word.toNat_sub_one16 _ (by simp at hcount; omega)]
    simp at hcount
    omega
  have hflag := howned.flag
  by_cases hzero : s.lock.writeCount - 1 = 0
  · simp only [Pc.exec, if_pos hzero, settle_goto] at hfits ⊢
    have hnone : rest.count .write = 0 := by rw [← hdec, hzero]; rfl
    have hsingle : (s.threads t).holds = [.write] :=
      holds_eq_singleton hreads (by simp [hholds, hnone])
    refine h.ownerStep howned hfits ?_ (.inl (by simp [hholds])) hflag ?_
    · rintro op pc hpc
      cases hpc
      exact .writeUnlockStore hsingle
    · simp only [Thread.closing, if_true, Thread.writes, hsingle]
      simp [hdec, hnone]
  · simp only [Pc.exec, if_neg hzero, settle_ret] at hfits ⊢
    have hpos : 0 < rest.count .write := by
      rw [← hdec]
      exact Nat.pos_of_ne_zero fun h0 => hzero (UInt16.toNat_inj.mp h0)
    refine h.ownerStep howned hfits (by simp) ?_ ?_ ?_
    · exact .inl (by simpa [bracketed, hholds] using List.count_pos_iff.mp hpos)
    · simpa [Thread.reads, bracketed, hholds] using hflag
    · simp [Thread.closing, Thread.writes, bracketed, hholds, hdec]

/-- Counting a write hold, of the owner that has just acquired the flag or of a
nested call. -/
theorem Inv.countUp (h : Inv ids s) (howner : (s.threads t).HoldsWrite)
    (hopen : (s.threads t).closing = 0)
    (hfits : ({ s with lock := { s.lock with writeCount := s.lock.writeCount + 1 } }.setThread t
      { running := none, holds := .write :: (s.threads t).holds }).Fits) :
    Inv ids ({ s with lock := { s.lock with writeCount := s.lock.writeCount + 1 } }.setThread t
      { running := none, holds := .write :: (s.threads t).holds }) := by
  have howned := h.ownedBy howner
  have hcount := howned.count
  have hroom := hfits.2 t
  rw [setThread_self] at hroom
  have hwrites : ({ holds := .write :: (s.threads t).holds } : Thread Call Hold).writes =
      (s.threads t).writes + 1 := by simp [Thread.writes]
  rw [hwrites] at hroom
  refine h.ownerStep howned hfits (by simp) (.inl (by simp)) ?_ ?_
  · simpa [Thread.reads] using howned.flag
  · have hclosed : ({ holds := .write :: (s.threads t).holds } : Thread Call Hold).closing = 0 := rfl
    rw [hwrites, hclosed, Word.toNat_add_one16 _ (by omega)]
    omega

/-- `fetch_add` under the owner's own write lock. -/
theorem Inv.nestRead (h : Inv ids s) (hid : (ids t).toNat < 65536)
    (hw : .write ∈ (s.threads t).holds)
    (hrun : (s.threads t).running = some (.readLock, .readLockNest))
    (hfits : ({ s with lock := { s.lock with lockFlag := s.lock.lockFlag + 1 } }.setThread t
      { running := none, holds := .read :: (s.threads t).holds }).Fits) :
    Inv ids ({ s with lock := { s.lock with lockFlag := s.lock.lockFlag + 1 } }.setThread t
      { running := none, holds := .read :: (s.threads t).holds }) := by
  have howned := h.ownedBy (t := t) (.inl hw)
  have hflag := howned.flag
  have hcount := howned.count
  simp only [Thread.closing, hrun] at hcount
  have hreads : ({ holds := .read :: (s.threads t).holds } : Thread Call Hold).reads =
      (s.threads t).reads + 1 := by simp [Thread.reads]
  have hroom : (s.threads t).reads + 1 < 65536 := by
    have hsum := readHolds_setThread (s := s) (t := t)
      { s.lock with lockFlag := s.lock.lockFlag + 1 }
      { running := none, holds := .read :: (s.threads t).holds }
    have hlt := hfits.1
    have hall := howned.readHolds
    omega
  refine h.ownerStep howned hfits (by simp) (.inl (List.mem_cons_of_mem _ hw)) ?_ ?_
  · rw [hreads, Word.toNat_add_one _ (by omega)]
    omega
  · simpa [Thread.closing, Thread.writes] using hcount

/-- The successful compare-exchange of `ReadLock`: it expects an empty owner half. -/
theorem Inv.acquireRead (h : Inv ids s) (hid : ∀ t, 0 < (ids t).toNat)
    (hlow : s.lock.lockFlag.toNat < 65536)
    (hrun : (s.threads t).running ≠ some (.writeLock, .writeLockOwn))
    (hfits : ({ s with lock := { s.lock with lockFlag := s.lock.lockFlag + 1 } }.setThread t
      { running := none, holds := .read :: (s.threads t).holds }).Fits) :
    Inv ids ({ s with lock := { s.lock with lockFlag := s.lock.lockFlag + 1 } }.setThread t
      { running := none, holds := .read :: (s.threads t).holds }) := by
  have hfree := h.unowned hid hlow
  refine h.freeStep hfree hfits rfl ?_ ?_ rfl
  · have hnot := hfree.no_writer t
    simp only [Thread.HoldsWrite, hrun, or_false] at hnot
    simpa using hnot
  · rw [Word.toNat_add_one _ (by omega)]
    simp [Thread.reads]
    omega

/-- `fetch_sub` of a thread whose innermost hold is a read hold. -/
theorem Inv.releaseRead (h : Inv ids s)
    (hrun : (s.threads t).running = some (.readUnlock, .readUnlock))
    (hhead : (s.threads t).holds.head? = some .read)
    (hfits : ({ s with lock := { s.lock with lockFlag := s.lock.lockFlag - 1 } }.setThread t
      { running := none, holds := (s.threads t).holds.tail }).Fits) :
    Inv ids ({ s with lock := { s.lock with lockFlag := s.lock.lockFlag - 1 } }.setThread t
      { running := none, holds := (s.threads t).holds.tail }) := by
  obtain ⟨rest, hholds⟩ := List.head?_eq_some_iff.mp hhead
  have hreads : (s.threads t).reads = rest.count .read + 1 := by simp [Thread.reads, hholds]
  have htail : ({ holds := (s.threads t).holds.tail } : Thread Call Hold).reads =
      rest.count .read := by simp [Thread.reads, hholds]
  obtain hfree | ⟨u, hu⟩ := h.flag
  · have hsum : (s.threads t).reads ≤ s.readHolds :=
      weight_le_sum (fun t => (s.threads t).reads) t
    have hflag := hfree.flag
    refine h.freeStep hfree hfits rfl ?_ ?_ rfl
    · have hnot := hfree.no_writer t
      simp only [Thread.HoldsWrite, hholds, hrun] at hnot
      simpa [hholds] using hnot
    · rw [Word.toNat_sub_one _ (by omega), htail]
      omega
  · have htu : t = u := by
      by_contra hne
      simpa [hholds] using (hu.others t hne).1
    subst htu
    have hflag := hu.flag
    have hcount := hu.count
    have howner := hu.owner
    simp only [Thread.closing, Thread.writes, hrun, hholds] at hcount
    simp only [Thread.HoldsWrite, hrun, hholds] at howner
    refine h.ownerStep hu hfits (by simp) (.inl ?_) ?_ ?_
    · simpa [hholds] using howner
    · rw [Word.toNat_sub_one _ (by omega), htail]
      omega
    · simpa [Thread.closing, Thread.writes, hholds] using hcount

omit [Fintype Tid] [DecidableEq Tid] in
/-- A thread before most accesses owns nothing that its list of holds does not say. -/
theorem quiet_of_running {op : Call} {pc : Pc} (hrun : (s.threads t).running = some (op, pc))
    (hown : pc ≠ .writeLockOwn) (hstore : pc ≠ .writeUnlockStore) :
    (s.threads t).running ≠ some (.writeLock, .writeLockOwn) ∧
      (s.threads t).running ≠ some (.writeUnlock, .writeUnlockStore) := by
  simp [hrun, hown, hstore]

section Accesses

variable {now : UInt64}

/-- The test of `WriteLock` whether its thread is the owner. -/
theorem Inv.writeLockLoad (h : Inv ids s) (inj : Function.Injective ids)
    (hid : 0 < (ids t).toNat) (hrun : (s.threads t).running = some (.writeLock, .writeLockLoad))
    (hs' : s' = s.settle bracketed t .writeLock (Pc.exec (ids t) now s.lock .writeLockLoad))
    (hfits : s'.Fits) : Inv ids s' := by
  subst hs'
  have hquiet := quiet_of_running hrun (by simp) (by simp)
  by_cases htest : (s.lock.lockFlag &&& writeThreadMask) >>> 16 = ids t
  · simp only [Pc.exec, if_pos htest, settle_goto] at hfits ⊢
    exact h.goto hfits hquiet (by simp)
      (.writeLockNest (h.ownerTest inj hid hrun (by simp) htest))
  · simp only [Pc.exec, if_neg htest, settle_goto] at hfits ⊢
    exact h.goto hfits hquiet (by simp) (.writeLockSpin _ _)

/-- The compare-exchange of `WriteLock`. -/
theorem Inv.writeLockSpin (h : Inv ids s)
    (hid : ∀ t, 0 < (ids t).toNat ∧ (ids t).toNat < 65536) {started : UInt64} {spin : UInt32}
    (hrun : (s.threads t).running = some (.writeLock, .writeLockSpin started spin))
    (hs' : s' = s.settle bracketed t .writeLock
      (Pc.exec (ids t) now s.lock (.writeLockSpin started spin)))
    (hfits : s'.Fits) : Inv ids s' := by
  subst hs'
  have hquiet := quiet_of_running hrun (by simp) (by simp)
  by_cases hflag : s.lock.lockFlag = emptyFlag
  · simp only [Pc.exec, if_pos hflag, settle_goto] at hfits ⊢
    exact h.acquireWrite hid hflag rfl hfits
  · simp only [Pc.exec, if_neg hflag, settle_goto, writeLockRetry] at hfits ⊢
    refine h.goto hfits hquiet ?_ ?_
    · split <;> simp
    · split
      · exact .writeLockSpin _ _
      · exact .writeLockTimeout _

/-- The timeout test of `WriteLock`. -/
theorem Inv.writeLockTimeout (h : Inv ids s) {started : UInt64}
    (hrun : (s.threads t).running = some (.writeLock, .writeLockTimeout started))
    (hs' : s' = s.settle bracketed t .writeLock
      (Pc.exec (ids t) now s.lock (.writeLockTimeout started)))
    (hfits : s'.Fits) (alive : s'.crashed = none) : Inv ids s' := by
  subst hs'
  by_cases hclock : now - started ≥ acquireTimeoutTick
  · simp only [Pc.exec, if_pos hclock, settle_crash] at alive
    cases alive
  · simp only [Pc.exec, if_neg hclock, settle_goto] at hfits ⊢
    have hquiet := quiet_of_running hrun (by simp) (by simp)
    exact h.goto hfits hquiet (by simp) (.writeLockSpin _ _)

/-- The test of `WriteUnlock` for shared holds. Those there are belong to the owner. -/
theorem Inv.writeUnlockLoad (h : Inv ids s)
    (hrun : (s.threads t).running = some (.writeUnlock, .writeUnlockLoad))
    (hhead : (s.threads t).holds.head? = some .write)
    (hs' : s' = s.settle bracketed t .writeUnlock (Pc.exec (ids t) now s.lock .writeUnlockLoad))
    (hfits : s'.Fits) (alive : s'.crashed = none) : Inv ids s' := by
  subst hs'
  by_cases hcount : s.lock.lockFlag &&& readCountMask ≠ 0
  · simp only [Pc.exec, if_pos hcount, settle_crash] at alive
    cases alive
  · simp only [Pc.exec, if_neg hcount, settle_goto] at hfits ⊢
    have hquiet := quiet_of_running hrun (by simp) (by simp)
    refine h.goto hfits hquiet (by simp) (.writeUnlockCount hhead ?_)
    have hlow : s.lock.lockFlag.toNat % 65536 = 0 := by
      rw [← Word.toNat_lower, show s.lock.lockFlag &&& 0x0000FFFF = 0 from not_not.mp hcount]
      rfl
    have hreads : (s.threads t).reads ≤ s.readHolds :=
      weight_le_sum (fun t => (s.threads t).reads) t
    have hall := h.upper.2.2
    exact List.count_eq_zero.mp (show (s.threads t).reads = 0 by omega)

/-- The test of `ReadLock` whether its thread is the owner. -/
theorem Inv.readLockLoad (h : Inv ids s) (inj : Function.Injective ids)
    (hid : 0 < (ids t).toNat) (hrun : (s.threads t).running = some (.readLock, .readLockLoad))
    (hs' : s' = s.settle bracketed t .readLock (Pc.exec (ids t) now s.lock .readLockLoad))
    (hfits : s'.Fits) : Inv ids s' := by
  subst hs'
  have hquiet := quiet_of_running hrun (by simp) (by simp)
  by_cases htest : ids t = (s.lock.lockFlag &&& writeThreadMask) >>> 16
  · simp only [Pc.exec, if_pos htest, settle_goto] at hfits ⊢
    exact h.goto hfits hquiet (by simp)
      (.readLockNest (h.ownerTest inj hid hrun (by simp) htest.symm))
  · simp only [Pc.exec, if_neg htest, settle_goto] at hfits ⊢
    exact h.goto hfits hquiet (by simp) (.readLockSpin _ _)

/-- The load in front of the compare-exchange of `ReadLock`, which masks the owner out. -/
theorem Inv.readLockSpin (h : Inv ids s) {started : UInt64} {spin : UInt32}
    (hrun : (s.threads t).running = some (.readLock, .readLockSpin started spin))
    (hs' : s' = s.settle bracketed t .readLock
      (Pc.exec (ids t) now s.lock (.readLockSpin started spin)))
    (hfits : s'.Fits) : Inv ids s' := by
  subst hs'
  simp only [Pc.exec, settle_goto] at hfits ⊢
  have hquiet := quiet_of_running hrun (by simp) (by simp)
  refine h.goto hfits hquiet (by simp) (.readLockCas _ _ _ ?_)
  change (s.lock.lockFlag &&& 0x0000FFFF).toNat < 65536
  rw [Word.toNat_lower]
  omega

/-- The compare-exchange of `ReadLock`. -/
theorem Inv.readLockCas (h : Inv ids s) (hid : ∀ t, 0 < (ids t).toNat) {started : UInt64}
    {spin expected : UInt32}
    (hrun : (s.threads t).running = some (.readLock, .readLockCas started spin expected))
    (hlow : expected.toNat < 65536)
    (hs' : s' = s.settle bracketed t .readLock
      (Pc.exec (ids t) now s.lock (.readLockCas started spin expected)))
    (hfits : s'.Fits) : Inv ids s' := by
  subst hs'
  have hquiet := quiet_of_running hrun (by simp) (by simp)
  by_cases hflag : s.lock.lockFlag = expected
  · subst hflag
    simp only [Pc.exec, if_true, settle_ret] at hfits ⊢
    exact h.acquireRead hid hlow hquiet.1 hfits
  · simp only [Pc.exec, if_neg hflag, settle_goto, readLockRetry] at hfits ⊢
    refine h.goto hfits hquiet ?_ ?_
    · split <;> simp
    · split
      · exact .readLockSpin _ _
      · exact .readLockTimeout _

/-- The timeout test of `ReadLock`. -/
theorem Inv.readLockTimeout (h : Inv ids s) {started : UInt64}
    (hrun : (s.threads t).running = some (.readLock, .readLockTimeout started))
    (hs' : s' = s.settle bracketed t .readLock
      (Pc.exec (ids t) now s.lock (.readLockTimeout started)))
    (hfits : s'.Fits) (alive : s'.crashed = none) : Inv ids s' := by
  subst hs'
  by_cases hclock : now - started ≥ acquireTimeoutTick
  · simp only [Pc.exec, if_pos hclock, settle_crash] at alive
    cases alive
  · simp only [Pc.exec, if_neg hclock, settle_goto] at hfits ⊢
    have hquiet := quiet_of_running hrun (by simp) (by simp)
    exact h.goto hfits hquiet (by simp) (.readLockSpin _ _)

/-- `fetch_sub` and the test of the count before it. -/
theorem Inv.readUnlock (h : Inv ids s)
    (hrun : (s.threads t).running = some (.readUnlock, .readUnlock))
    (hhead : (s.threads t).holds.head? = some .read)
    (hs' : s' = s.settle bracketed t .readUnlock (Pc.exec (ids t) now s.lock .readUnlock))
    (hfits : s'.Fits) (alive : s'.crashed = none) : Inv ids s' := by
  subst hs'
  by_cases hzero : s.lock.lockFlag &&& readCountMask = 0
  · simp only [Pc.exec, if_pos hzero, settle_crash] at alive
    cases alive
  · simp only [Pc.exec, if_neg hzero, settle_ret] at hfits ⊢
    exact h.releaseRead hrun hhead hfits

end Accesses

/-- Every step within capacity keeps the invariant, as long as it does not crash. -/
theorem Inv.step (inj : Function.Injective ids)
    (hid : ∀ t, 0 < (ids t).toNat ∧ (ids t).toNat < 65536) (h : Inv ids s)
    {e : Event Tid Call} (hok : WithinCapacity ids s e)
    (hnext : s.next bracketed ids e = some s') (alive : s'.crashed = none) : Inv ids s' := by
  have hfits : s'.Fits := hok s' hnext
  obtain ⟨-, ⟨t, op, rfl, hrun, hallowed, rfl⟩ | ⟨t, now, op, pc, rfl, hrun, hs'⟩⟩ :=
    next_cases hnext
  · exact h.call hrun hallowed hfits
  · cases h.at_pc t op pc hrun with
    | writeLockLoad => exact h.writeLockLoad inj (hid t).1 hrun hs' hfits
    | writeLockNest hw =>
        subst hs'
        exact h.countUp (.inl hw) (by simp [Thread.closing, hrun]) hfits
    | writeLockSpin started spin => exact h.writeLockSpin hid hrun hs' hfits
    | writeLockOwn hempty =>
        subst hs'
        exact h.countUp (.inr hrun) (by simp [Thread.closing, hrun]) hfits
    | writeLockTimeout started => exact h.writeLockTimeout hrun hs' hfits alive
    | writeUnlockLoad hhead => exact h.writeUnlockLoad hrun hhead hs' hfits alive
    | writeUnlockCount hhead hreads =>
        subst hs'
        exact h.countDown hrun hhead hreads now hfits
    | writeUnlockStore hholds =>
        subst hs'
        have howned := h.ownedBy (t := t) (.inl (by simp [hholds]))
        refine h.releaseWrite howned hrun hholds ?_ hfits
        simp [Pc.exec, bracketed, hholds]
    | readLockLoad => exact h.readLockLoad inj (hid t).1 hrun hs' hfits
    | readLockNest hw =>
        subst hs'
        exact h.nestRead (hid t).2 hw hrun hfits
    | readLockSpin started spin => exact h.readLockSpin hrun hs' hfits
    | readLockCas started spin expected hlow =>
        exact h.readLockCas (fun t => (hid t).1) hrun hlow hs' hfits
    | readLockTimeout started => exact h.readLockTimeout hrun hs' hfits alive
    | readUnlock hhead => exact h.readUnlock hrun hhead hs' hfits alive

end Steps

section Reachable

variable [DecidableEq Tid] {ids : Tid → UInt32} {s s' : State Tid Call Hold}

omit [DecidableEq Tid] in
theorem inv_initial (ids : Tid → UInt32) : Inv ids ({} : State Tid Call Hold) where
  at_pc _ _ _ hrun := by cases hrun
  fits := by simp [State.Fits, State.readHolds, Thread.reads, Thread.writes]
  flag := .inl ⟨by simp [Thread.HoldsWrite], by simp [State.readHolds, Thread.reads], rfl⟩

/-- The invariant holds in every state reached without a crash. -/
theorem reachable_inv (inj : Function.Injective ids)
    (hid : ∀ t, 0 < (ids t).toNat ∧ (ids t).toNat < 65536)
    (h : (system bracketed ids).Reachable (WithinCapacity ids) s) (alive : s.crashed = none) :
    Inv ids s := by
  revert alive
  refine h.invariant (I := fun s => s.crashed = none → Inv ids s) ?_ ?_
  · rintro s rfl _
    exact inv_initial ids
  · intro s e s' ih hok hnext alive
    exact (ih (next_cases hnext).1).step inj hid hok hnext alive

/-- The accesses that write `writeCount`. -/
theorem exec_writeCount {id : UInt32} {now : UInt64} {l : Lock} {pc : Pc}
    (h : (pc.exec id now l).1.writeCount ≠ l.writeCount) :
    pc = .writeLockNest ∨ pc = .writeLockOwn ∨ pc = .writeUnlockCount := by
  cases pc with
  | writeLockNest => exact .inl rfl
  | writeLockOwn => exact .inr (.inl rfl)
  | writeUnlockCount => exact .inr (.inr rfl)
  | writeUnlockStore => exact absurd rfl h
  | readLockNest => exact absurd rfl h
  | readLockSpin => exact absurd rfl h
  | readUnlock => exact absurd rfl h
  | _ =>
      simp only [Pc.exec] at h
      split at h <;> exact absurd rfl h

omit [Fintype Tid] in
theorem settle_lock (client : Client Call Hold) (t : Tid) (op : Call) (r : Lock × Outcome) :
    (s.settle client t op r).lock = r.1 := by
  obtain ⟨lock, outcome⟩ := r
  cases outcome <;> rfl

/-- A step changes `writeCount` only if its thread owns the write lock. -/
theorem Inv.writeCount_owner (h : Inv ids s) {e : Event Tid Call}
    (hnext : s.next bracketed ids e = some s')
    (hchange : s'.lock.writeCount ≠ s.lock.writeCount) :
    ∃ t now, e = .step t now ∧ (s.threads t).HoldsWrite := by
  obtain ⟨-, ⟨t, op, rfl, -, -, rfl⟩ | ⟨t, now, op, pc, rfl, hrun, rfl⟩⟩ := next_cases hnext
  · exact absurd rfl hchange
  · refine ⟨t, now, rfl, ?_⟩
    rw [settle_lock] at hchange
    have hat := h.at_pc t op pc hrun
    obtain rfl | rfl | rfl := exec_writeCount hchange
    · cases hat with
      | writeLockNest hw => exact .inl hw
    · cases hat with
      | writeLockOwn => exact .inr hrun
    · cases hat with
      | writeUnlockCount hhead => exact .inl (List.mem_of_mem_head? hhead)

/-- Reader/writer exclusion: in every state reached without a crash, a write owner
excludes all other holds, the flag spells the owner and the number of read holds,
and only the owner's steps change `writeCount`. -/
theorem readerWriter_exclusion {Tid : Type} [Fintype Tid] [DecidableEq Tid]
    (ids : Tid → UInt32) (inj : Function.Injective ids)
    (hid : ∀ t, 1 ≤ (ids t).toNat ∧ (ids t).toNat ≤ 65535) {s : State Tid Call Hold}
    (h : (system bracketed ids).Reachable (WithinCapacity ids) s) (alive : s.crashed = none) :
    (∀ t u, t ≠ u → (s.threads t).HoldsWrite →
      ¬(s.threads u).HoldsWrite ∧ .read ∉ (s.threads u).holds) ∧
    ((∀ t, (s.threads t).HoldsWrite → s.lock.lockFlag.toNat / 65536 = (ids t).toNat) ∧
      ((∀ t, ¬(s.threads t).HoldsWrite) → s.lock.lockFlag.toNat / 65536 = 0) ∧
      s.lock.lockFlag.toNat % 65536 = s.readHolds) ∧
    (∀ e s', (system bracketed ids).next s e = some s' →
      s'.lock.writeCount ≠ s.lock.writeCount →
      ∃ t now, e = .step t now ∧ (s.threads t).HoldsWrite) := by
  have hinv := reachable_inv inj (fun t => ⟨(hid t).1, by have := (hid t).2; omega⟩) h alive
  refine ⟨fun t u htu ht => ?_, hinv.upper, fun e s' => hinv.writeCount_owner⟩
  obtain ⟨hempty, hnot⟩ := (hinv.ownedBy ht).others u htu.symm
  exact ⟨hnot, by simp [hempty]⟩

instance (s : State Tid Call Hold) : Decidable s.Fits :=
  inferInstanceAs (Decidable (_ ∧ _))

theorem withinCapacity_of_next {e : Event Tid Call} (hnext : s.next bracketed ids e = some s')
    (hfits : s'.Fits) : WithinCapacity ids s e := by
  intro u hu
  rw [hnext] at hu
  cases hu
  exact hfits

end Reachable

section TwoThreads

def twoIds : Fin 2 → UInt32 := ![1, 2]

/-- Thread 0 writes while thread 1 has sampled the flag for its compare-exchange. -/
def contended : List (Event (Fin 2) Call) :=
  [.call 0 .writeLock, .step 0 0, .step 0 0, .step 0 0, .call 1 .readLock, .step 1 0, .step 1 0]

theorem readerWriter_exclusion_contended :
    ∃ s, (system bracketed twoIds).run contended {} = some s ∧
      (s.threads 0).HoldsWrite ∧ (s.threads 1).running = some (.readLock, .readLockCas 0 0 0) ∧
        .read ∉ (s.threads 1).holds := by
  refine ⟨_, rfl, by decide, rfl, ?_⟩
  have along : (system bracketed twoIds).Along (WithinCapacity twoIds) contended {} :=
    System.along_cons rfl (withinCapacity_of_next rfl (by decide)) <|
    System.along_cons rfl (withinCapacity_of_next rfl (by decide)) <|
    System.along_cons rfl (withinCapacity_of_next rfl (by decide)) <|
    System.along_cons rfl (withinCapacity_of_next rfl (by decide)) <|
    System.along_cons rfl (withinCapacity_of_next rfl (by decide)) <|
    System.along_cons rfl (withinCapacity_of_next rfl (by decide)) <|
    System.along_cons rfl (withinCapacity_of_next rfl (by decide)) trivial
  have hreach := (System.Reachable.start rfl).run along rfl
  exact ((readerWriter_exclusion twoIds (by decide) (by decide) hreach rfl).1 0 1
    (by decide) (by decide)).2

end TwoThreads

end Lock

end ServerCore
