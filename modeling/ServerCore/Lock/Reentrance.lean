import ServerCore.Lock.Exclusion

/-!
# A thread that is alone on the lock

The thread nests its calls properly, with a `WriteLock` outermost. `WriteLock` counts a
nested write hold in `writeCount`, and `ReadLock` a read hold under it in the flag, so
both kinds may be taken in any mixture, and each call returns after at most three
accesses.

`WriteUnlock` takes any read count in the flag for a wrong order of the unlocks. A read
hold that is still open because it is further out than the `WriteLock` to be released
makes it crash, although the order is the right one.
-/

namespace ServerCore

namespace Lock

open Interleaving

/-- The outermost hold is a write hold, and fewer than 65536 holds are nested. -/
def reentrant : Client Call Hold where
  call := id
  allowed
    | .writeLock, holds => holds.length + 1 < 65536
    | .readLock, holds => !holds.isEmpty && holds.length + 1 < 65536
    | .writeUnlock, holds => bracketed.allowed .writeUnlock holds
    | .readUnlock, holds => bracketed.allowed .readUnlock holds
  finish := bracketed.finish

/-- No call has crashed, a thread with holds owns the lock, and one that has returned
from its outermost unlock leaves the lock as it was constructed. -/
structure Transparent (id : UInt32) (s : State Unit Call Hold) : Prop where
  alive : s.crashed = none
  owner : (s.threads ()).holds ≠ [] → (s.lock.lockFlag &&& writeThreadMask) >>> 16 = id
  released : (s.threads ()).running = none → (s.threads ()).holds = [] →
    s.lock.lockFlag = emptyFlag ∧ s.lock.writeCount = 0

/-- `WriteUnlock` looks at the flag only while no read hold is open. -/
def ClosesReads (s : State Unit Call Hold) : Event Unit Call → Prop
  | .step t _ => (s.threads t).running = some (.writeUnlock, .writeUnlockLoad) →
      .read ∉ (s.threads t).holds
  | .call _ _ => True

/-- The accesses that a call makes while nobody else uses the lock. -/
inductive Sole (holds : List Hold) : Call → Pc → Prop where
  | writeLockLoad : holds.length + 1 < 65536 → Sole holds .writeLock .writeLockLoad
  | writeLockNest : holds.length + 1 < 65536 → Sole holds .writeLock .writeLockNest
  | writeLockSpin (started : UInt64) : holds = [] →
      Sole holds .writeLock (.writeLockSpin started 0)
  | writeLockOwn : holds = [] → Sole holds .writeLock .writeLockOwn
  | writeUnlockLoad : Sole holds .writeUnlock .writeUnlockLoad
  | writeUnlockCount : Sole holds .writeUnlock .writeUnlockCount
  | writeUnlockStore : Sole holds .writeUnlock .writeUnlockStore
  | readLockLoad : holds ≠ [] → holds.length + 1 < 65536 → Sole holds .readLock .readLockLoad
  | readLockNest : holds ≠ [] → holds.length + 1 < 65536 → Sole holds .readLock .readLockNest
  | readUnlock : Sole holds .readUnlock .readUnlock

/-- The outermost hold, if there is one, is a write hold. -/
def Outer (holds : List Hold) : Prop := holds ≠ [] → holds.getLast? = some .write

/-- The number of accesses up to the return of the call. -/
def Pc.left : Pc → ℕ
  | .writeLockLoad | .writeUnlockLoad => 3
  | .writeLockSpin _ _ | .writeUnlockCount | .readLockLoad => 2
  | .writeLockOwn | .writeLockNest | .writeUnlockStore | .readLockNest | .readUnlock => 1
  | .writeLockTimeout _ | .readLockSpin _ _ | .readLockCas _ _ _ | .readLockTimeout _ => 0

structure Alone (id : UInt32) (s : State Unit Call Hold) : Prop where
  inv : Inv (fun _ => id) s
  alive : s.crashed = none
  outer : Outer (s.threads ()).holds
  depth : (s.threads ()).holds.length < 65536
  sole : ∀ op pc, (s.threads ()).running = some (op, pc) → Sole (s.threads ()).holds op pc

theorem Pc.left_le (pc : Pc) : pc.left ≤ 3 := by
  cases pc <;> simp [Pc.left]

theorem Sole.left_pos {holds : List Hold} {op : Call} {pc : Pc} (h : Sole holds op pc) :
    0 < pc.left := by
  cases h <;> exact Nat.succ_pos _

section Nesting

variable {holds : List Hold}

theorem Outer.write (h : Outer holds) : Outer (.write :: holds) := by
  intro _
  by_cases hempty : holds = []
  · rw [hempty]
    rfl
  · rw [List.getLast?_cons_of_ne_nil hempty]
    exact h hempty

theorem Outer.read (h : Outer holds) (hne : holds ≠ []) : Outer (.read :: holds) := by
  intro _
  rw [List.getLast?_cons_of_ne_nil hne]
  exact h hne

theorem Outer.tail (h : Outer holds) : Outer holds.tail := by
  intro hne
  cases holds with
  | nil => exact absurd rfl hne
  | cons hold rest =>
      have hlast := h (List.cons_ne_nil _ _)
      change rest ≠ [] at hne
      rwa [List.getLast?_cons_of_ne_nil hne] at hlast

theorem Outer.write_mem (h : Outer holds) (hne : holds ≠ []) : .write ∈ holds :=
  List.mem_of_getLast? (h hne)

end Nesting

section Flag

variable {id : UInt32} {s : State Unit Call Hold}

theorem readHolds_unit (s : State Unit Call Hold) : s.readHolds = (s.threads ()).reads := by
  simp [State.readHolds]

theorem fits_of_depth (h : (s.threads ()).holds.length < 65536) : s.Fits := by
  refine ⟨?_, fun t => ?_⟩
  · rw [readHolds_unit]
    exact Nat.lt_of_le_of_lt List.count_le_length h
  · exact Nat.lt_of_le_of_lt List.count_le_length h

/-- A thread with holds sees its own id in the flag. -/
theorem Alone.ownerTest (h : Alone id s) (hne : (s.threads ()).holds ≠ []) :
    (s.lock.lockFlag &&& writeThreadMask) >>> 16 = id := by
  have hupper := h.inv.upper.1 () (.inl (h.outer.write_mem hne))
  rw [← UInt32.toNat_inj]
  exact (Word.toNat_upper s.lock.lockFlag).trans hupper

/-- The flag counts the open read holds. -/
theorem Alone.readCount (h : Alone id s) :
    s.lock.lockFlag &&& readCountMask = 0 ↔ .read ∉ (s.threads ()).holds := by
  have hcount := h.inv.upper.2.2
  rw [readHolds_unit, ← Word.toNat_lower] at hcount
  rw [← UInt32.toNat_inj, ← List.count_eq_zero]
  change (s.lock.lockFlag &&& 0x0000FFFF).toNat = 0 ↔ (s.threads ()).reads = 0
  rw [hcount]

/-- Without holds the lock is free. -/
theorem Alone.free (h : Alone id s) (hempty : (s.threads ()).holds = [])
    (hrun : (s.threads ()).running ≠ some (.writeLock, .writeLockOwn)) :
    s.lock.lockFlag = emptyFlag ∧ s.lock.writeCount = 0 := by
  obtain hfree | ⟨t, ht⟩ := h.inv.flag
  · refine ⟨?_, hfree.count⟩
    have hflag := hfree.flag
    rw [readHolds_unit, Thread.reads, hempty] at hflag
    exact UInt32.toNat_inj.mp hflag
  · obtain hw | hown := ht.owner
    · rw [hempty] at hw
      exact absurd hw List.not_mem_nil
    · exact absurd hown hrun

theorem Alone.transparent (h : Alone id s) : Transparent id s := by
  refine ⟨h.alive, h.ownerTest, fun hidle hempty => h.free hempty ?_⟩
  rw [hidle]
  exact (Option.some_ne_none _).symm

end Flag

section Steps

variable {id : UInt32} {s s' : State Unit Call Hold} {e : Event Unit Call}

/-- What the thread does is among what bracketed threads do. -/
theorem next_bracketed {ids : Unit → UInt32} (h : s.next reentrant ids e = some s') :
    s.next bracketed ids e = some s' := by
  obtain ⟨halive, ⟨t, op, rfl, hidle, hallowed, rfl⟩ | ⟨t, now, op, pc, rfl, hrun, rfl⟩⟩ :=
    next_cases h
  · refine next_call bracketed ids halive hidle ?_
    cases op with
    | writeLock | readLock => rfl
    | writeUnlock | readUnlock => exact hallowed
  · rw [next_step bracketed ids halive hrun now]
    cases pc.exec (ids t) now s.lock with
    | mk lock outcome => cases outcome <;> rfl

/-- A step that does not crash keeps the exclusion invariant. -/
theorem Alone.of_next (hid : 0 < id.toNat ∧ id.toNat < 65536) (h : Alone id s)
    (hnext : s.next reentrant (fun _ => id) e = some s') (alive : s'.crashed = none)
    (outer : Outer (s'.threads ()).holds) (depth : (s'.threads ()).holds.length < 65536)
    (sole : ∀ op pc, (s'.threads ()).running = some (op, pc) → Sole (s'.threads ()).holds op pc) :
    Alone id s' := by
  refine ⟨?_, alive, outer, depth, sole⟩
  have hnext' := next_bracketed hnext
  refine h.inv.step (fun _ _ _ => rfl) (fun _ => hid) (fun u hu => ?_) hnext' alive
  rw [hnext'] at hu
  cases hu
  exact fits_of_depth depth

/-- An access after which the call goes on. -/
theorem Alone.goto (hid : 0 < id.toNat ∧ id.toNat < 65536) (h : Alone id s) {now : UInt64}
    {op : Call} {pc pc' : Pc} {lock : Lock} (hrun : (s.threads ()).running = some (op, pc))
    (hexec : pc.exec id now s.lock = (lock, .goto pc')) (hsole : Sole (s.threads ()).holds op pc')
    (hnext : s.next reentrant (fun _ => id) (.step () now) = some s') : Alone id s' := by
  have hnew := settle_of_next hnext hrun
  rw [hexec, settle_goto] at hnew
  have hthread : s'.threads () = { s.threads () with running := some (op, pc') } := by
    rw [hnew, setThread_self]
  refine h.of_next hid hnext ?_ ?_ ?_ ?_
  · rw [hnew]
    exact h.alive
  · rw [hthread]
    exact h.outer
  · rw [hthread]
    exact h.depth
  · rw [hthread]
    rintro _ _ ⟨⟩
    exact hsole

/-- An access with which the call returns. -/
theorem Alone.ret (hid : 0 < id.toNat ∧ id.toNat < 65536) (h : Alone id s) {now : UInt64}
    {op : Call} {pc : Pc} {lock : Lock} (hrun : (s.threads ()).running = some (op, pc))
    (hexec : pc.exec id now s.lock = (lock, .ret))
    (outer : Outer (reentrant.finish op (s.threads ()).holds))
    (depth : (reentrant.finish op (s.threads ()).holds).length < 65536)
    (hnext : s.next reentrant (fun _ => id) (.step () now) = some s') : Alone id s' := by
  have hnew := settle_of_next hnext hrun
  rw [hexec, settle_ret] at hnew
  have hthread : s'.threads () =
      { running := none, holds := reentrant.finish op (s.threads ()).holds } := by
    rw [hnew, setThread_self]
  refine h.of_next hid hnext ?_ ?_ ?_ ?_
  · rw [hnew]
    exact h.alive
  · rwa [hthread]
  · rwa [hthread]
  · rw [hthread]
    rintro _ _ ⟨⟩

theorem depth_tail {holds : List Hold} (h : holds.length < 65536) : holds.tail.length < 65536 := by
  rw [List.length_tail]
  omega

/-- What an access does if `WriteUnlock` meets no open read hold: the call goes on and is
closer to its return, or it returns. It never fails to get the lock, and never crashes. -/
theorem Alone.exec (h : Alone id s) {op : Call} {pc : Pc}
    (hrun : (s.threads ()).running = some (op, pc))
    (hok : pc = .writeUnlockLoad → .read ∉ (s.threads ()).holds) (now : UInt64) :
    (∃ lock pc', pc.exec id now s.lock = (lock, .goto pc') ∧ Sole (s.threads ()).holds op pc' ∧
      pc'.left < pc.left) ∨
    (∃ lock, pc.exec id now s.lock = (lock, .ret) ∧
      Outer (reentrant.finish op (s.threads ()).holds) ∧
      (reentrant.finish op (s.threads ()).holds).length < 65536) := by
  have hat := h.inv.at_pc () op pc hrun
  cases h.sole op pc hrun with
  | writeLockLoad hroom =>
      by_cases hempty : (s.threads ()).holds = []
      · by_cases htest : (s.lock.lockFlag &&& writeThreadMask) >>> 16 = id
        · exact .inl ⟨_, _, if_pos htest, .writeLockNest hroom, by decide⟩
        · exact .inl ⟨_, _, if_neg htest, .writeLockSpin now hempty, Nat.lt_succ_self 2⟩
      · exact .inl ⟨_, _, if_pos (h.ownerTest hempty), .writeLockNest hroom, by decide⟩
  | writeLockNest hroom => exact .inr ⟨_, rfl, h.outer.write, hroom⟩
  | writeLockSpin started hempty =>
      have hflag := (h.free hempty (by rw [hrun]; simp)).1
      exact .inl ⟨_, _, if_pos hflag, .writeLockOwn hempty, Nat.lt_succ_self 1⟩
  | writeLockOwn hempty =>
      refine .inr ⟨_, rfl, h.outer.write, ?_⟩
      rw [hempty]
      decide
  | writeUnlockLoad =>
      have hzero := h.readCount.mpr (hok rfl)
      exact .inl ⟨_, _, if_neg (not_not.mpr hzero), .writeUnlockCount, by decide⟩
  | writeUnlockCount =>
      by_cases hzero : s.lock.writeCount - 1 = 0
      · refine .inl ⟨{ s.lock with writeCount := s.lock.writeCount - 1 }, _, ?_,
          .writeUnlockStore, by decide⟩
        rw [Pc.exec, if_pos hzero]
      · refine .inr ⟨{ s.lock with writeCount := s.lock.writeCount - 1 }, ?_, h.outer.tail,
          depth_tail h.depth⟩
        rw [Pc.exec, if_neg hzero]
  | writeUnlockStore => exact .inr ⟨_, rfl, h.outer.tail, depth_tail h.depth⟩
  | readLockLoad hne hroom =>
      exact .inl ⟨_, _, if_pos (h.ownerTest hne).symm, .readLockNest hne hroom, by decide⟩
  | readLockNest hne hroom => exact .inr ⟨_, rfl, h.outer.read hne, hroom⟩
  | readUnlock =>
      have hmem : .read ∈ (s.threads ()).holds := by
        cases hat with
        | readUnlock hhead => exact List.mem_of_mem_head? hhead
      have hne : s.lock.lockFlag &&& readCountMask ≠ 0 := fun hzero => h.readCount.mp hzero hmem
      refine .inr ⟨{ s.lock with lockFlag := s.lock.lockFlag - 1 }, ?_, h.outer.tail,
        depth_tail h.depth⟩
      rw [Pc.exec, if_neg hne]

theorem Alone.call (hid : 0 < id.toNat ∧ id.toNat < 65536) (h : Alone id s) {op : Call}
    (hallowed : reentrant.allowed op (s.threads ()).holds = true)
    (hnext : s.next reentrant (fun _ => id) (.call () op) = some s')
    (hnew : s' = s.setThread () { s.threads () with running := some (op, op.entry) }) :
    Alone id s' := by
  have hthread : s'.threads () = { s.threads () with running := some (op, op.entry) } := by
    rw [hnew, setThread_self]
  refine h.of_next hid hnext ?_ ?_ ?_ ?_
  · rw [hnew]
    exact h.alive
  · rw [hthread]
    exact h.outer
  · rw [hthread]
    exact h.depth
  · rw [hthread]
    rintro _ _ ⟨⟩
    cases op with
    | writeLock => exact .writeLockLoad (of_decide_eq_true hallowed)
    | writeUnlock => exact .writeUnlockLoad
    | readLock =>
        rw [reentrant, Bool.and_eq_true] at hallowed
        refine .readLockLoad ?_ (of_decide_eq_true hallowed.2)
        simpa using hallowed.1
    | readUnlock => exact .readUnlock

theorem Alone.next (hid : 0 < id.toNat ∧ id.toNat < 65536) (h : Alone id s)
    (hok : ClosesReads s e) (hnext : s.next reentrant (fun _ => id) e = some s') :
    Alone id s' := by
  obtain ⟨-, ⟨t, op, rfl, hidle, hallowed, hnew⟩ | ⟨t, now, op, pc, rfl, hrun, -⟩⟩ :=
    next_cases hnext
  · exact h.call hid hallowed hnext hnew
  · have hload : pc = .writeUnlockLoad → .read ∉ (s.threads ()).holds := by
      rintro rfl
      have hat := h.sole op _ hrun
      cases hat
      exact hok hrun
    obtain ⟨lock, pc', hexec, hsole, -⟩ | ⟨lock, hexec, houter, hdepth⟩ := h.exec hrun hload now
    · exact h.goto hid hrun hexec hsole hnext
    · exact h.ret hid hrun hexec houter hdepth hnext

/-- An open read hold makes `WriteUnlock` crash. -/
theorem Alone.closesReads (h : Alone id s)
    (hnext : s.next reentrant (fun _ => id) e = some s') (alive : s'.crashed = none) :
    ClosesReads s e := by
  obtain ⟨-, ⟨t, op, rfl, -⟩ | ⟨t, now, op, pc, rfl, hrun, rfl⟩⟩ := next_cases hnext
  · trivial
  · intro hunlock hread
    rw [hrun] at hunlock
    cases hunlock
    have hcount : s.lock.lockFlag &&& readCountMask ≠ 0 := fun hzero => h.readCount.mp hzero hread
    rw [Pc.exec, if_pos hcount, settle_crash] at alive
    cases alive

end Steps

section Runs

variable {id : UInt32} {s : State Unit Call Hold}

theorem alone_initial (id : UInt32) : Alone id {} where
  inv := inv_initial _
  alive := rfl
  outer hne := absurd rfl hne
  depth := by decide
  sole := nofun

/-- A call returns after at most three accesses, whatever the clock says. -/
theorem Alone.returns (hid : 0 < id.toNat ∧ id.toNat < 65536) (h : Alone id s) {op : Call}
    {pc : Pc} (hrun : (s.threads ()).running = some (op, pc))
    (hreads : pc = .writeUnlockLoad → .read ∉ (s.threads ()).holds) (now : UInt64) :
    ∃ n s', n ≤ pc.left ∧ (system reentrant (fun _ => id)).run
        (List.replicate n (.step () now)) s = some s' ∧
      (s'.threads ()).running = none ∧
      (s'.threads ()).holds = reentrant.finish op (s.threads ()).holds ∧ Alone id s' := by
  induction hleft : pc.left using Nat.strong_induction_on generalizing s pc with
  | h n ih =>
      subst hleft
      have hnext := next_step reentrant (fun _ => id) h.alive hrun now
      obtain ⟨lock, pc', hexec, hsole, hlt⟩ | ⟨lock, hexec, houter, hdepth⟩ :=
        h.exec hrun hreads now
      · have hafter := h.goto hid hrun hexec hsole hnext
        rw [hexec, settle_goto] at hnext hafter
        have hsame : pc' = .writeUnlockLoad → .read ∉ (s.threads ()).holds := by
          -- No access leads to the first one of a call.
          rintro rfl
          exact absurd hlt (Nat.not_lt.mpr pc.left_le)
        obtain ⟨n, s', hn, hrest, hidle, hholds, hs'⟩ := ih pc'.left hlt hafter
          (by rw [setThread_self]) (by rwa [setThread_self]) rfl
        refine ⟨n + 1, s', by omega, ?_, hidle, ?_, hs'⟩
        · rw [List.replicate_succ, System.run_cons]
          exact (congrArg (Option.bind · _) hnext).trans hrest
        · rw [hholds, setThread_self]
      · have hafter := h.ret hid hrun hexec houter hdepth hnext
        rw [hexec, settle_ret] at hnext hafter
        refine ⟨1, _, (h.sole op pc hrun).left_pos, ?_, ?_, ?_, hafter⟩
        · rw [List.replicate_one, System.run_cons]
          exact congrArg (Option.bind · _) hnext
        · rw [setThread_self]
        · rw [setThread_self]

/-- In a run of a thread that is alone on the lock, re-entrant locking is transparent
exactly when no `WriteUnlock` looks at the flag while a read hold is open. -/
theorem reentrant_transparent_iff (hid : 1 ≤ id.toNat ∧ id.toNat ≤ 65535)
    (es : List (Event Unit Call)) :
    (system reentrant (fun _ => id)).Throughout (Transparent id) es {} ↔
      (system reentrant (fun _ => id)).Along ClosesReads es {} := by
  have hid' : 0 < id.toNat ∧ id.toNat < 65536 := ⟨hid.1, Nat.lt_succ_of_le hid.2⟩
  refine System.throughout_iff_along (I := Alone id) (fun s hs => hs.transparent) ?_ ?_ es
    (alone_initial id)
  · intro s e s' hs hok hnext
    exact hs.next hid' hok hnext
  · intro s e s' hs hnext hafter
    exact hs.closesReads hnext hafter.alive

/-- A read lock under two write locks, all unlocked again in order. -/
def nestedEvents : List (Event Unit Call) :=
  [.call () .writeLock, .step () 0, .step () 0, .step () 0, .call () .writeLock, .step () 0,
    .step () 0, .call () .readLock, .step () 0, .step () 0, .call () .readUnlock, .step () 0,
    .call () .writeUnlock, .step () 0, .step () 0, .call () .writeUnlock, .step () 0, .step () 0,
    .step () 0]

theorem reentrant_transparent_iff_nested :
    (system reentrant (fun _ => 1)).Throughout (Transparent 1) nestedEvents {} ↔
      (system reentrant (fun _ => 1)).Along ClosesReads nestedEvents {} :=
  reentrant_transparent_iff (by decide) nestedEvents

/-- A write lock under a read lock under a write lock, and the first unlock. -/
def mixedEvents : List (Event Unit Call) :=
  [.call () .writeLock, .step () 0, .step () 0, .step () 0, .call () .readLock, .step () 0,
    .step () 0, .call () .writeLock, .step () 0, .step () 0, .call () .writeUnlock, .step () 0]

/-- The innermost lock is unlocked first, and `WriteUnlock` crashes. -/
theorem reentrant_crash :
    ¬∀ id : UInt32, 1 ≤ id.toNat ∧ id.toNat ≤ 65535 → ∀ s : State Unit Call Hold,
      (system reentrant (fun _ => id)).Reachable System.anyStep s → Transparent id s := by
  intro hall
  have hany : ((system reentrant (fun _ => 1)).run mixedEvents {}).any
      (fun s => s.crashed = some "Invaild unlock order - WriteUnlock") = true := by
    decide +kernel
  obtain ⟨s, hrun, hcrash⟩ := System.exists_of_run hany
  have halive := (hall 1 (by decide) s (System.reachable_of_run rfl hrun)).alive
  rw [hcrash] at halive
  cases halive

end Runs

end Lock

end ServerCore
