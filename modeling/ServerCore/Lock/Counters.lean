import ServerCore.Lock.Exclusion

/-!
# The two 16-bit counters without a bound

`ReadLock` adds one to a word whose upper half is the write owner's id, and `WriteLock`
counts its nestings in a `uint16`. Neither looks whether there is room: the read count
that is full carries into the owner half, and the write count that is full returns to
zero, so that a later `WriteUnlock` frees the lock too early.

Nothing is assumed here of the threads' ids, and any number of threads may nest their
calls to any depth. As long as the counters have room, `writeCount` is the number of
write holds that are still counted.
-/

namespace ServerCore

namespace Lock

open Interleaving

/-- The member function that makes the access. -/
def Pc.call : Pc → Call
  | .writeLockLoad | .writeLockNest | .writeLockSpin _ _ | .writeLockOwn | .writeLockTimeout _ =>
      .writeLock
  | .writeUnlockLoad | .writeUnlockCount | .writeUnlockStore => .writeUnlock
  | .readLockLoad | .readLockNest | .readLockSpin _ _ | .readLockCas _ _ _ | .readLockTimeout _ =>
      .readLock
  | .readUnlock => .readUnlock

/-- The upper half of the flag. -/
def ownerHalf (l : Lock) : UInt32 := (l.lockFlag &&& writeThreadMask) >>> 16

/-- If the access counts a hold, its counter is not full. -/
def Pc.Room (l : Lock) : Pc → Prop
  | .readLockNest => l.lockFlag &&& readCountMask ≠ readCountMask
  | .readLockCas _ _ expected =>
      l.lockFlag = expected → l.lockFlag &&& readCountMask ≠ readCountMask
  | .writeLockNest | .writeLockOwn => l.writeCount ≠ 0xFFFF
  | _ => True

/-- The write holds that `writeCount` counts: a hold that is being given up is not
counted any more. -/
def Thread.counted (th : Thread Call Hold) : ℕ := th.writes - th.closing

section Statement

variable {Tid : Type} [DecidableEq Tid]

def Room (s : State Tid Call Hold) (e : Event Tid Call) : Prop :=
  ∀ t now op pc, e = .step t now → (s.threads t).running = some (op, pc) → pc.Room s.lock

/-- The step does not change the owner half if it is one of `ReadLock`, it clears the flag
at the outermost unlock only, and it leaves `writeCount` at zero only if no thread has a
write hold, apart from one that it is giving up. -/
structure NoSpill (s s' : State Tid Call Hold) (e : Event Tid Call) : Prop where
  owner : ∀ t now pc, e = .step t now → (s.threads t).running = some (.readLock, pc) →
    s'.lock.ownerHalf = s.lock.ownerHalf
  outermost : ∀ t now, e = .step t now →
    (s.threads t).running = some (.writeUnlock, .writeUnlockStore) → (s.threads t).writes = 1
  remaining : s'.lock.writeCount = 0 → ∀ t, (s'.threads t).writes ≤ (s'.threads t).closing

/-- Wherever the step leads to, it does not spill. -/
def NeverSpills (ids : Tid → UInt32) (s : State Tid Call Hold) (e : Event Tid Call) : Prop :=
  ∀ s', s.next bracketed ids e = some s' → NoSpill s s' e

end Statement

section Accesses

variable {id : UInt32} {now : UInt64} {l : Lock} {pc : Pc}

/-- The carry out of the read count is the only way to change the owner half by one. -/
theorem ownerHalf_add_one_iff (l : Lock) :
    ownerHalf { l with lockFlag := l.lockFlag + 1 } = l.ownerHalf ↔
      l.lockFlag &&& readCountMask ≠ readCountMask := by
  have hlt := l.lockFlag.toNat_lt
  have hupper : (ownerHalf { l with lockFlag := l.lockFlag + 1 }).toNat =
      (l.lockFlag + 1).toNat / 65536 := Word.toNat_upper _
  have hbefore : l.ownerHalf.toNat = l.lockFlag.toNat / 65536 := Word.toNat_upper _
  have hlow : (l.lockFlag &&& readCountMask).toNat = l.lockFlag.toNat % 65536 :=
    Word.toNat_lower _
  have hmask : readCountMask.toNat = 65535 := rfl
  have hsum : (l.lockFlag + 1).toNat = (l.lockFlag.toNat + 1) % 2 ^ 32 := UInt32.toNat_add _ _
  rw [← UInt32.toNat_inj, ne_eq, ← UInt32.toNat_inj, hupper, hbefore, hlow, hmask, hsum]
  omega

/-- An access of `ReadLock` keeps the owner half exactly when it has room. -/
theorem ownerHalf_exec_iff (hpc : pc.call = .readLock) :
    (pc.exec id now l).1.ownerHalf = l.ownerHalf ↔ pc.Room l := by
  cases pc with
  | readLockNest => exact ownerHalf_add_one_iff l
  | readLockCas started spin expected =>
      by_cases hflag : l.lockFlag = expected
      · subst hflag
        rw [Pc.exec, if_pos rfl]
        have hiff := ownerHalf_add_one_iff l
        exact ⟨fun hsame _ => hiff.mp hsame, fun hroom => hiff.mpr (hroom rfl)⟩
      · rw [Pc.exec, if_neg hflag]
        exact iff_of_true rfl fun heq => absurd heq hflag
  | readLockLoad | readLockTimeout =>
      rw [Pc.exec]
      refine iff_of_true ?_ trivial
      split <;> rfl
  | readLockSpin => exact iff_of_true rfl trivial
  | writeLockLoad | writeLockNest | writeLockSpin | writeLockOwn | writeLockTimeout
  | writeUnlockLoad | writeUnlockCount | writeUnlockStore | readUnlock => cases hpc

/-- The accesses that leave `writeCount` and the write holds alone. -/
theorem exec_quiet (id : UInt32) (now : UInt64) (l : Lock) (hnest : pc ≠ .writeLockNest)
    (hown : pc ≠ .writeLockOwn) (hcount : pc ≠ .writeUnlockCount)
    (hstore : pc ≠ .writeUnlockStore) :
    (pc.exec id now l).1.writeCount = l.writeCount ∧
      ((∃ pc', (pc.exec id now l).2 = .goto pc' ∧ pc'.call = pc.call ∧
          pc' ≠ .writeUnlockStore) ∨
        ((pc.exec id now l).2 = .ret ∧ (pc.call = .readLock ∨ pc.call = .readUnlock)) ∨
        ∃ message, (pc.exec id now l).2 = .crash message) := by
  cases pc with
  | writeLockNest => exact absurd rfl hnest
  | writeLockOwn => exact absurd rfl hown
  | writeUnlockCount => exact absurd rfl hcount
  | writeUnlockStore => exact absurd rfl hstore
  | readLockNest => exact ⟨rfl, .inr (.inl ⟨rfl, .inl rfl⟩)⟩
  | readLockSpin => exact ⟨rfl, .inl ⟨_, rfl, rfl, Pc.noConfusion⟩⟩
  | readUnlock =>
      rw [Pc.exec]
      refine ⟨rfl, .inr ?_⟩
      split
      · exact .inr ⟨_, rfl⟩
      · exact .inl ⟨rfl, .inr rfl⟩
  | writeLockLoad | readLockLoad =>
      rw [Pc.exec]
      split <;> exact ⟨rfl, .inl ⟨_, rfl, rfl, Pc.noConfusion⟩⟩
  | writeLockSpin =>
      rw [Pc.exec, writeLockRetry]
      split
      · exact ⟨rfl, .inl ⟨_, rfl, rfl, Pc.noConfusion⟩⟩
      · split <;> exact ⟨rfl, .inl ⟨_, rfl, rfl, Pc.noConfusion⟩⟩
  | readLockCas =>
      rw [Pc.exec, readLockRetry]
      split
      · exact ⟨rfl, .inr (.inl ⟨rfl, .inl rfl⟩)⟩
      · split <;> exact ⟨rfl, .inl ⟨_, rfl, rfl, Pc.noConfusion⟩⟩
  | writeLockTimeout | readLockTimeout | writeUnlockLoad =>
      rw [Pc.exec]
      split
      · exact ⟨rfl, .inr (.inr ⟨_, rfl⟩)⟩
      · exact ⟨rfl, .inl ⟨_, rfl, rfl, Pc.noConfusion⟩⟩

end Accesses

section Invariant

variable {Tid : Type} [Fintype Tid]

/-- What holds while the counters have room. -/
structure Counted (s : State Tid Call Hold) : Prop where
  call : ∀ t op pc, (s.threads t).running = some (op, pc) →
    pc.call = op ∧ bracketed.allowed op (s.threads t).holds = true
  store : ∀ t, (s.threads t).running = some (.writeUnlock, .writeUnlockStore) →
    (s.threads t).writes = 1
  count : s.lock.writeCount.toNat = ∑ t, (s.threads t).counted

variable {ids : Tid → UInt32} {s s' : State Tid Call Hold} {t : Tid} {lock : Lock}
  {th : Thread Call Hold}

theorem count_write_read (holds : List Hold) :
    (Hold.read :: holds).count .write = holds.count .write :=
  List.count_cons_of_ne (by decide)

theorem closing_eq_zero {op : Call} {pc : Pc} (hrun : th.running = some (op, pc))
    (hpc : pc ≠ .writeUnlockStore) : th.closing = 0 := by
  rw [Thread.closing, hrun, if_neg]
  rintro ⟨⟩
  exact hpc rfl

variable [DecidableEq Tid]

/-- One thread moves, and the counter follows its counted holds. -/
theorem Counted.update (h : Counted s)
    (hcall : ∀ op pc, th.running = some (op, pc) →
      pc.call = op ∧ bracketed.allowed op th.holds = true)
    (hstore : th.running = some (.writeUnlock, .writeUnlockStore) → th.writes = 1)
    (hcount : lock.writeCount.toNat + (s.threads t).counted =
      s.lock.writeCount.toNat + th.counted) : Counted ({ s with lock }.setThread t th) := by
  refine ⟨fun u op pc hrun => ?_, fun u hrun => ?_, ?_⟩
  · by_cases hu : u = t
    · rw [hu, setThread_self] at hrun ⊢
      exact hcall op pc hrun
    · rw [setThread_other _ _ _ _ hu] at hrun ⊢
      exact h.call u op pc hrun
  · by_cases hu : u = t
    · rw [hu, setThread_self] at hrun ⊢
      exact hstore hrun
    · rw [setThread_other _ _ _ _ hu] at hrun ⊢
      exact h.store u hrun
  · have hsum := sum_update Thread.counted s.threads t th
    have hold := h.count
    change lock.writeCount.toNat = ∑ u, (Function.update s.threads t th u).counted
    omega

/-- A counted write hold is added. -/
theorem Counted.countUp (h : Counted s) (hroom : s.lock.writeCount ≠ 0xFFFF)
    (hopen : (s.threads t).closing = 0) :
    Counted ({ s with lock := { s.lock with writeCount := s.lock.writeCount + 1 } }.setThread t
      { running := none, holds := .write :: (s.threads t).holds }) := by
  have hlt := s.lock.writeCount.toNat_lt
  have hne : s.lock.writeCount.toNat ≠ 65535 := fun heq => hroom (UInt16.toNat_inj.mp heq)
  refine h.update nofun nofun ?_
  rw [Word.toNat_add_one16 _ (by omega), Thread.counted, Thread.counted, hopen]
  change _ = _ + ((Hold.write :: (s.threads t).holds).count .write - 0)
  rw [List.count_cons_self]
  change _ + ((s.threads t).writes - 0) = _ + ((s.threads t).writes + 1 - 0)
  omega

/-- `--writeCount`: a counted hold is given up, and the last one goes on to the store. -/
theorem Counted.countDown (h : Counted s)
    (hrun : (s.threads t).running = some (.writeUnlock, .writeUnlockCount)) (now : UInt64) :
    Counted (s.settle bracketed t .writeUnlock
      (Pc.exec (ids t) now s.lock .writeUnlockCount)) := by
  obtain ⟨-, hallowed⟩ := h.call t _ _ hrun
  obtain ⟨rest, hholds⟩ := List.head?_eq_some_iff.mp (allowed_writeUnlock.mp hallowed)
  have hwrites : (s.threads t).writes = rest.count .write + 1 := by
    rw [Thread.writes, hholds, List.count_cons_self]
  have hcounted : (s.threads t).counted = rest.count .write + 1 := by
    rw [Thread.counted, closing_eq_zero hrun Pc.noConfusion, hwrites]
    rfl
  have hle := weight_le_sum (fun t => (s.threads t).counted) t
  have hcount := h.count
  have hdown : (s.lock.writeCount - 1).toNat = s.lock.writeCount.toNat - 1 :=
    Word.toNat_sub_one16 _ (by omega)
  by_cases hzero : s.lock.writeCount - 1 = 0
  · have hone : s.lock.writeCount.toNat - 1 = 0 := by
      rw [← hdown, hzero]
      rfl
    have hlast : (s.threads t).writes = 1 := by omega
    rw [Pc.exec, if_pos hzero, settle_goto]
    refine h.update ?_ (fun _ => hlast) ?_
    · rintro _ _ ⟨⟩
      exact ⟨rfl, hallowed⟩
    · rw [hcounted, hdown]
      change _ = _ + ((s.threads t).writes - 1)
      omega
  · rw [Pc.exec, if_neg hzero, settle_ret]
    refine h.update (by rintro _ _ ⟨⟩) (by rintro ⟨⟩) ?_
    rw [hcounted, hdown]
    change _ = _ + ((s.threads t).holds.tail.count .write - 0)
    rw [hholds, List.tail_cons]
    omega

/-- The store that clears the flag gives up a hold that is not counted any more. -/
theorem Counted.clear (h : Counted s)
    (hrun : (s.threads t).running = some (.writeUnlock, .writeUnlockStore)) :
    Counted ({ s with lock := { s.lock with lockFlag := emptyFlag } }.setThread t
      { running := none, holds := (s.threads t).holds.tail }) := by
  obtain ⟨-, hallowed⟩ := h.call t _ _ hrun
  obtain ⟨rest, hholds⟩ := List.head?_eq_some_iff.mp (allowed_writeUnlock.mp hallowed)
  refine h.update nofun nofun ?_
  have hclosing : (s.threads t).closing = 1 := by rw [Thread.closing, hrun, if_pos rfl]
  rw [Thread.counted, hclosing, Thread.writes, hholds, List.count_cons_self, List.tail_cons]
  change s.lock.writeCount.toNat + (rest.count .write + 1 - 1) =
    s.lock.writeCount.toNat + (rest.count .write - 0)
  omega

/-- An access that neither counts nor gives up a write hold. -/
theorem Counted.quiet (h : Counted s) {op : Call} {pc : Pc}
    (hrun : (s.threads t).running = some (op, pc)) (hnest : pc ≠ .writeLockNest)
    (hown : pc ≠ .writeLockOwn) (hcount : pc ≠ .writeUnlockCount)
    (hstore : pc ≠ .writeUnlockStore) (now : UInt64) :
    Counted (s.settle bracketed t op (pc.exec (ids t) now s.lock)) := by
  obtain ⟨rfl, hallowed⟩ := h.call t op pc hrun
  obtain ⟨hsame, hout⟩ := exec_quiet (ids t) now s.lock hnest hown hcount hstore
  have hclosing := closing_eq_zero hrun hstore
  cases hexec : pc.exec (ids t) now s.lock with
  | mk lock outcome =>
      rw [hexec] at hsame hout
      change lock.writeCount = _ at hsame
      obtain ⟨pc', rfl, hcall, hstore'⟩ | ⟨rfl, hread⟩ | ⟨message, rfl⟩ := hout
      · rw [settle_goto]
        refine h.update ?_ ?_ ?_
        · rintro _ _ ⟨⟩
          exact ⟨hcall, hallowed⟩
        · intro heq
          exact absurd (congrArg Prod.snd (Option.some.inj heq)) hstore'
        · rw [hsame, Thread.counted, Thread.counted, hclosing, closing_eq_zero rfl hstore']
          rfl
      · rw [settle_ret]
        refine h.update nofun nofun ?_
        rw [hsame, Thread.counted, Thread.counted, hclosing]
        change _ = _ + ((bracketed.finish pc.call (s.threads t).holds).count .write - 0)
        obtain hread | hread := hread
        · rw [hread]
          change _ = _ + ((Hold.read :: (s.threads t).holds).count .write - 0)
          rw [count_write_read]
          rfl
        · rw [hread] at hallowed ⊢
          obtain ⟨rest, hholds⟩ := List.head?_eq_some_iff.mp (allowed_readUnlock.mp hallowed)
          rw [Thread.writes, hholds, count_write_read]
          rfl
      · rw [settle_crash]
        exact ⟨h.call, h.store, (congrArg UInt16.toNat hsame).trans h.count⟩

/-- Every step with room keeps the count. -/
theorem Counted.step (h : Counted s) {e : Event Tid Call} (hroom : Room s e)
    (hnext : s.next bracketed ids e = some s') : Counted s' := by
  obtain ⟨-, ⟨t, op, rfl, hidle, hallowed, rfl⟩ | ⟨t, now, op, pc, rfl, hrun, rfl⟩⟩ :=
    next_cases hnext
  · have hentry : op.entry ≠ .writeUnlockStore := by cases op <;> exact Pc.noConfusion
    refine h.update ?_ ?_ ?_
    · rintro _ _ ⟨⟩
      exact ⟨by cases op <;> rfl, hallowed⟩
    · rintro ⟨⟩
    · have hclosing : (s.threads t).closing = 0 := by
        rw [Thread.closing, hidle]
        rfl
      have hclosing' : ({ s.threads t with
          running := some (op, op.entry) } : Thread Call Hold).closing = 0 :=
        closing_eq_zero rfl hentry
      rw [Thread.counted, Thread.counted, hclosing]
      exact congrArg (fun n => s.lock.writeCount.toNat + ((s.threads t).writes - n)) hclosing'.symm
  · have hpc := hroom t now op pc rfl hrun
    obtain ⟨rfl, -⟩ := h.call t op pc hrun
    by_cases hnest : pc = .writeLockNest
    · subst hnest
      exact h.countUp hpc (closing_eq_zero hrun Pc.noConfusion)
    by_cases hown : pc = .writeLockOwn
    · subst hown
      exact h.countUp hpc (closing_eq_zero hrun Pc.noConfusion)
    by_cases hcount : pc = .writeUnlockCount
    · subst hcount
      exact h.countDown hrun now
    by_cases hstore : pc = .writeUnlockStore
    · subst hstore
      exact h.clear hrun
    exact h.quiet hrun hnest hown hcount hstore now

/-- A step spills nothing exactly when its counter has room. -/
theorem Counted.neverSpills_iff (h : Counted s) {e : Event Tid Call}
    (hnext : s.next bracketed ids e = some s') : NeverSpills ids s e ↔ Room s e := by
  constructor
  · rintro hspills t now op pc rfl hrun
    have hspill := hspills s' hnext
    obtain rfl := settle_of_next hnext hrun
    obtain ⟨hcall, -⟩ := h.call t op pc hrun
    cases pc with
    | readLockNest | readLockCas =>
        subst hcall
        have hsame := hspill.owner t now _ rfl hrun
        rw [settle_lock] at hsame
        exact (ownerHalf_exec_iff rfl).mp hsame
    | writeLockNest | writeLockOwn =>
        rintro hfull
        subst hcall
        have hzero : s.lock.writeCount + 1 = 0 := by rw [hfull]; rfl
        have hremaining := hspill.remaining (by rw [settle_lock]; exact hzero) t
        rw [Pc.exec, settle_ret, setThread_self] at hremaining
        change (Hold.write :: (s.threads t).holds).count .write ≤ 0 at hremaining
        rw [List.count_cons_self] at hremaining
        exact absurd hremaining (Nat.not_succ_le_zero _)
    | _ => trivial
  · intro hroom u hu
    have hafter := h.step hroom hu
    refine ⟨?_, fun t now _ hrun => h.store t hrun, fun hzero t => ?_⟩
    · rintro t now pc rfl hrun
      obtain ⟨hcall, -⟩ := h.call t _ pc hrun
      rw [settle_of_next hu hrun, settle_lock]
      exact (ownerHalf_exec_iff hcall).mpr (hroom t now _ pc rfl hrun)
    · have hle := weight_le_sum (fun t => ((u.threads t)).counted) t
      have hcount := hafter.count
      rw [hzero] at hcount
      change 0 = _ at hcount
      rw [← hcount] at hle
      exact Nat.sub_eq_zero_iff_le.mp (Nat.le_zero.mp hle)

end Invariant

section Runs

variable {Tid : Type} [Fintype Tid] [DecidableEq Tid]

omit [DecidableEq Tid] in
theorem counted_initial : Counted ({} : State Tid Call Hold) where
  call := nofun
  store := nofun
  count := by simp [Thread.counted, Thread.writes]

/-- In a run of threads that bracket their calls, no step spills exactly when no step
counts a hold in a counter that is full. -/
theorem lockCounters_iff (ids : Tid → UInt32) (es : List (Event Tid Call)) :
    (system bracketed ids).Along (NeverSpills ids) es {} ↔
      (system bracketed ids).Along Room es {} :=
  System.along_iff_along (I := Counted) (fun _ _ _ hs hroom hnext => hs.step hroom hnext)
    (fun _ _ _ hs hnext => hs.neverSpills_iff hnext) es counted_initial

end Runs

section Overflow

/-- One thread may take any number of read locks up to the full count. -/
theorem reachable_readers {n : ℕ} (hn : n < 65536) :
    ∃ s : State Unit Call Hold, (system bracketed fun _ => 1).Reachable System.anyStep s ∧
      s.crashed = none ∧ (s.threads ()).running = none ∧ s.lock.lockFlag.toNat = n := by
  induction n with
  | zero => exact ⟨{}, .start rfl, rfl, rfl, rfl⟩
  | succ n ih =>
      obtain ⟨s, hreach, halive, hidle, hflag⟩ := ih (Nat.lt_of_succ_lt hn)
      have hlow : s.lock.lockFlag.toNat < 65536 := by omega
      have hrun := run_readLock bracketed (fun _ => 1) (t := ()) (by decide)
        (show bracketed.call .readLock = .readLock from rfl) rfl halive hidle hlow
      refine ⟨_, hreach.run (System.along_anyStep _ _) hrun, halive, ?_, ?_⟩
      · rw [setThread_self]
      · rw [setThread_lock]
        change (s.lock.lockFlag + 1).toNat = n + 1
        rw [Word.toNat_add_one _ (by omega), hflag]

/-- The read lock after the 65535th makes thread 1 the write owner. -/
theorem lockCounters_spill :
    ¬∀ (s : State Unit Call Hold) (e : Event Unit Call),
      (system bracketed fun _ => 1).Reachable System.anyStep s →
      NeverSpills (fun _ => 1) s e := by
  intro hall
  obtain ⟨s, hreach, halive, hidle, hflag⟩ := reachable_readers (n := 65535) (by decide)
  have hsample := run_sample bracketed (fun _ => 1) (t := ()) (by decide)
    (show bracketed.call .readLock = .readLock from rfl) rfl halive hidle (by omega)
  have hsampled := hreach.run (System.along_anyStep _ _) hsample
  have hrun : ((s.setThread () { s.threads () with
      running := some (.readLock, .readLockCas 0 0 s.lock.lockFlag) }).threads ()).running =
      some (.readLock, .readLockCas 0 0 s.lock.lockFlag) := by rw [setThread_self]
  have hspill := hall _ (.step () 0) hsampled _
    (next_step bracketed (fun _ => 1) (s := s.setThread () _) halive hrun 0)
  have hsame := hspill.owner () 0 _ rfl hrun
  rw [settle_lock] at hsame
  have hroom := (ownerHalf_exec_iff rfl).mp hsame rfl
  have hfull : s.lock.lockFlag = readCountMask := UInt32.toNat_inj.mp hflag
  rw [setThread_lock, hfull] at hroom
  exact hroom rfl

end Overflow

end Lock

end ServerCore
