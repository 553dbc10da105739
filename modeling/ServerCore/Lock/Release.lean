import ServerCore.Interleaving.Clock
import ServerCore.Lock.Exclusion

/-!
# When a lock becomes free again

Threads that only finish their calls and give back what they hold can always empty the
lock, in any state that they can be in, with one exception. A thread that calls
`WriteLock` over a shared hold of its own waits for itself; and when it got that far under
a write hold, `WriteUnlock` meets its shared hold and crashes. So the lock can become free
again exactly when no thread has upgraded (`lock_frees_iff`), as long as no waiting call
has used up its time, and while a thread waits for its own shared hold nobody gets the
write lock any more (`upgrade_blocks`).

For the first part, one thread at a time is run until it holds nothing: the write owner, or
a reader while nobody owns the write lock, and writers when the flag is empty. Then no
compare-exchange fails twice, and the clock can stand meanwhile.
-/

namespace ServerCore

namespace Lock

open Interleaving

/-- A shared hold lies under an exclusive one. -/
def UnderWrite : List Hold → Prop
  | [] => False
  | .write :: outer => .read ∈ outer
  | .read :: outer => UnderWrite outer

instance : ∀ holds : List Hold, Decidable (UnderWrite holds)
  | [] => .isFalse id
  | .write :: outer => inferInstanceAs (Decidable (.read ∈ outer))
  | .read :: outer => instDecidableUnderWrite outer

theorem UnderWrite.read_mem {holds : List Hold} (h : UnderWrite holds) : .read ∈ holds := by
  induction holds with
  | nil => exact h.elim
  | cons hold outer ih =>
      cases hold with
      | read => exact List.mem_cons_self
      | write => exact List.mem_cons_of_mem _ h

theorem UnderWrite.of_tail {holds : List Hold} (h : UnderWrite holds.tail) :
    UnderWrite holds := by
  cases holds with
  | nil => exact h
  | cons hold outer =>
      cases hold with
      | read => exact h
      | write => exact h.read_mem

namespace Pc

/-- The access belongs to a spin loop. -/
def spins : Pc → Bool
  | .writeLockSpin _ _ | .writeLockTimeout _ => true
  | .readLockSpin _ _ | .readLockCas _ _ _ | .readLockTimeout _ => true
  | _ => false

/-- When the spin loop of the access was entered. -/
def started : Pc → Option UInt64
  | .writeLockSpin timeTickStarted _ | .writeLockTimeout timeTickStarted => some timeTickStarted
  | .readLockSpin timeTickStarted _ | .readLockCas timeTickStarted _ _ => some timeTickStarted
  | .readLockTimeout timeTickStarted => some timeTickStarted
  | _ => none

/-- At time `c` the spin loop of the access has not lasted too long. -/
def InTime (c : UInt64) (pc : Pc) : Prop :=
  ∀ timeTickStarted ∈ pc.started, ¬c - timeTickStarted ≥ acquireTimeoutTick

-- One reading at most is compared; a search through all `UInt64` would not end.
instance (c : UInt64) (pc : Pc) : Decidable (pc.InTime c) :=
  Option.decidableForallMem pc.started

/-- A bound on what a call has left to do when no compare-exchange of its own fails, with
the later unlock counted in. -/
def rank (l : Lock) : Pc → ℕ
  | .writeLockLoad => 17
  | .writeLockNest => 14
  | .writeLockSpin _ _ => 15
  | .writeLockOwn => 14
  | .writeLockTimeout _ => 16
  | .writeUnlockLoad => 4
  | .writeUnlockCount => 3
  | .writeUnlockStore => 2
  | .readLockLoad => 18
  | .readLockNest => 14
  | .readLockSpin _ _ => 15
  | .readLockCas _ _ expected => if l.lockFlag = expected then 14 else 17
  | .readLockTimeout _ => 16
  | .readUnlock => 4

/-- A thread enters a spin loop only if the flag does not carry its id. -/
theorem exec_spins {id : UInt32} {now : UInt64} {l l' : Lock} {pc pc' : Pc}
    (h : pc.exec id now l = (l', .goto pc')) (hspins : pc'.spins = true) :
    pc.spins = true ∨ (l.lockFlag &&& writeThreadMask) >>> 16 ≠ id := by
  cases pc with
  | writeLockSpin | writeLockTimeout | readLockSpin | readLockCas | readLockTimeout =>
      exact .inl rfl
  | writeLockLoad =>
      simp only [exec] at h
      split at h <;> cases h
      · cases hspins
      · next htest => exact .inr htest
  | readLockLoad =>
      simp only [exec] at h
      split at h <;> cases h
      · cases hspins
      · next htest => exact .inr (Ne.symm htest)
  | writeUnlockLoad =>
      simp only [exec] at h
      split at h <;> cases h
      cases hspins
  | writeUnlockCount =>
      simp only [exec] at h
      split at h <;> cases h
      cases hspins
  | readUnlock =>
      simp only [exec] at h
      split at h <;> cases h
  | writeLockNest | writeLockOwn | writeUnlockStore | readLockNest => cases h

/-- A spin loop keeps its start tick, and the clock is read when it is entered. -/
theorem exec_started {id : UInt32} {now : UInt64} {l l' : Lock} {pc pc' : Pc}
    (h : pc.exec id now l = (l', .goto pc')) :
    pc'.started = none ∨ pc'.started = some now ∨ pc'.started = pc.started := by
  cases pc with
  | writeLockLoad | readLockLoad =>
      simp only [exec] at h
      split at h <;> cases h
      · exact .inl rfl
      · exact .inr (.inl rfl)
  | writeLockSpin started spin =>
      simp only [exec] at h
      split at h <;> cases h
      · exact .inl rfl
      · rw [writeLockRetry]
        split <;> exact .inr (.inr rfl)
  | writeLockTimeout | readLockTimeout =>
      simp only [exec] at h
      split at h <;> cases h
      exact .inr (.inr rfl)
  | readLockSpin =>
      cases h
      exact .inr (.inr rfl)
  | readLockCas started spin expected =>
      simp only [exec] at h
      split at h <;> cases h
      rw [readLockRetry]
      split <;> exact .inr (.inr rfl)
  | writeUnlockLoad | writeUnlockCount =>
      simp only [exec] at h
      split at h <;> cases h
      exact .inl rfl
  | readUnlock =>
      simp only [exec] at h
      split at h <;> cases h
  | writeLockNest | writeLockOwn | writeUnlockStore | readLockNest => cases h

/-- While the clock stands, no spin loop gets older. -/
theorem InTime.exec {id : UInt32} {c : UInt64} {l l' : Lock} {pc pc' : Pc} (h : pc.InTime c)
    (hexec : pc.exec id c l = (l', .goto pc')) : pc'.InTime c := by
  intro timeTickStarted hstarted
  obtain hnone | hnow | hsame := exec_started hexec
  · rw [hnone] at hstarted
    cases hstarted
  · rw [hnow] at hstarted
    cases hstarted
    rw [UInt64.sub_self]
    decide
  · exact h timeTickStarted (hsame ▸ hstarted)

end Pc

/-- What an unlock call or an access changes in its thread. -/
inductive Moves (th : Thread Call Hold) : Thread Call Hold → Prop where
  | unlock {op : Call} : th.running = none → op = .writeUnlock ∨ op = .readUnlock →
      Moves th { th with running := some (op, op.entry) }
  | goto {op : Call} {pc : Pc} (pc' : Pc) : th.running = some (op, pc) →
      Moves th { th with running := some (op, pc') }
  | ret {op : Call} {pc : Pc} : th.running = some (op, pc) →
      Moves th { running := none, holds := bracketed.finish op th.holds }

namespace Thread

/-- The thread is outside the lock's functions and holds nothing. -/
def AtRest (th : Thread Call Hold) : Prop := th.running = none ∧ th.holds = []

instance (th : Thread Call Hold) : Decidable th.AtRest := inferInstanceAs (Decidable (_ ∧ _))

/-- The thread has taken the write lock over a shared hold, or is about to. -/
def Upgrades (th : Thread Call Hold) : Prop :=
  UnderWrite th.holds ∨ th.running.map Prod.fst = some .writeLock ∧ .read ∈ th.holds

instance (th : Thread Call Hold) : Decidable th.Upgrades :=
  inferInstanceAs (Decidable (_ ∨ _ ∧ _))

/-- The thread waits in `WriteLock` for the end of its own shared hold. -/
def Waits (th : Thread Call Hold) : Prop :=
  th.running.map Prod.fst = some .writeLock ∧ .read ∈ th.holds ∧ .write ∉ th.holds

instance (th : Thread Call Hold) : Decidable th.Waits := inferInstanceAs (Decidable (_ ∧ _ ∧ _))

/-- The holds of a kind, with the one that a running call adds. -/
def claims (th : Thread Call Hold) (op : Call) (hold : Hold) : ℕ :=
  th.holds.count hold + if th.running.map Prod.fst = some op then 1 else 0

/-- What the thread has left to do until it is at rest. -/
def rank (l : Lock) (th : Thread Call Hold) : ℕ :=
  8 * th.holds.length +
    match th.running with
    | none => if th.holds = [] then 0 else 5
    | some (_, pc) => pc.rank l

/-- At time `c` the thread has not waited too long. -/
def InTime (c : UInt64) (th : Thread Call Hold) : Prop :=
  ∀ call ∈ th.running, call.2.InTime c

instance (c : UInt64) (th : Thread Call Hold) : Decidable (th.InTime c) :=
  inferInstanceAs (Decidable (∀ call ∈ th.running, _))

/-- A spinning thread does not hold the write lock. -/
def SpinsOutside (th : Thread Call Hold) : Prop :=
  ∀ op pc, th.running = some (op, pc) → pc.spins = true → .write ∉ th.holds

end Thread

namespace Moves

variable {th th' : Thread Call Hold}

/-- An acquired hold was claimed by its call, and a release claims nothing. -/
theorem claims_le (h : Moves th th') {op : Call} {hold : Hold}
    (hop : op = .writeLock ∧ hold = .write ∨ op = .readLock ∧ hold = .read) :
    th'.claims op hold ≤ th.claims op hold := by
  cases h with
  | @unlock op' hrun hunlock =>
      have hne : op' ≠ op := by
        obtain rfl | rfl := hunlock <;> obtain ⟨rfl, -⟩ | ⟨rfl, -⟩ := hop <;> decide
      simp [Thread.claims, hrun, hne]
  | goto pc' hrun => simp [Thread.claims, hrun]
  | @ret op' pc hrun =>
      have htail : th.holds.tail.count hold ≤ th.holds.count hold :=
        (List.tail_sublist th.holds).count_le hold
      simp only [Thread.claims, hrun, Option.map_some, Option.map_none, Option.some.injEq,
        reduceCtorEq, if_false, Nat.add_zero]
      cases op' with
      | writeUnlock | readUnlock => exact Nat.le_trans htail (Nat.le_add_right _ _)
      | writeLock | readLock =>
          obtain ⟨rfl, rfl⟩ | ⟨rfl, rfl⟩ := hop <;> simp [bracketed]

/-- Only an upgrade makes an upgraded thread. -/
theorem not_upgrades (h : Moves th th') (hth : ¬th.Upgrades) : ¬th'.Upgrades := by
  rw [Thread.Upgrades, not_or] at hth
  obtain ⟨hholds, hcall⟩ := hth
  cases h with
  | @unlock op hrun hunlock =>
      rintro (hunder | ⟨hop, -⟩)
      · exact hholds hunder
      · obtain rfl | rfl := hunlock <;> cases hop
  | goto pc' hrun =>
      rintro (hunder | ⟨hop, hread⟩)
      · exact hholds hunder
      · exact hcall ⟨by rw [hrun]; exact hop, hread⟩
  | @ret op pc hrun =>
      rintro (hunder | ⟨hop, -⟩)
      · cases op with
        | writeLock => exact hcall ⟨by rw [hrun]; rfl, hunder⟩
        | readLock => exact hholds hunder
        | writeUnlock | readUnlock => exact hholds hunder.of_tail
      · cases hop

end Moves

/-- An access that meets no competitor and is in time gets its call on. -/
theorem Pc.exec_advances {holds : List Hold} {op : Call} {pc : Pc} (hat : At holds op pc)
    (id : UInt32) {c : UInt64} (inTime : pc.InTime c) {l : Lock}
    (hwriter : pc.spins = true → op = .writeLock → l.lockFlag = emptyFlag)
    (hreader : pc.spins = true → op = .readLock → l.lockFlag.toNat < 65536)
    (hlast : pc = .writeUnlockLoad → l.lockFlag &&& readCountMask = 0)
    (hfirst : pc = .readUnlock → l.lockFlag &&& readCountMask ≠ 0) :
    ∃ l', (∃ pc', pc.exec id c l = (l', .goto pc') ∧ pc'.rank l' < pc.rank l) ∨
      pc.exec id c l = (l', .ret) ∧
        8 * (bracketed.finish op holds).length + 5 < 8 * holds.length + pc.rank l := by
  cases hat with
  | writeLockLoad =>
      refine ⟨l, .inl ?_⟩
      simp only [exec]
      split
      · exact ⟨_, rfl, by simp [rank]⟩
      · exact ⟨_, rfl, by simp [rank]⟩
  | writeLockNest | writeLockOwn =>
      refine ⟨_, .inr ⟨rfl, ?_⟩⟩
      simp only [bracketed, List.length_cons, rank]
      omega
  | writeLockSpin started spin =>
      refine ⟨{ l with lockFlag := (id <<< 16) &&& writeThreadMask },
        .inl ⟨.writeLockOwn, ?_, by simp [rank]⟩⟩
      simp only [exec, if_pos (hwriter rfl rfl)]
  | writeLockTimeout started =>
      refine ⟨l, .inl ⟨.writeLockSpin started 0, ?_, by simp [rank]⟩⟩
      have hearly : ¬c - started ≥ acquireTimeoutTick := inTime started rfl
      simp only [exec, if_neg hearly]
  | writeUnlockLoad hhead =>
      refine ⟨l, .inl ⟨.writeUnlockCount, ?_, by simp [rank]⟩⟩
      have hcount : ¬l.lockFlag &&& readCountMask ≠ 0 := not_not.mpr (hlast rfl)
      simp only [exec, if_neg hcount]
  | writeUnlockCount hhead hreads =>
      obtain ⟨rest, rfl⟩ := List.head?_eq_some_iff.mp hhead
      by_cases hzero : l.writeCount - 1 = 0
      · refine ⟨{ l with writeCount := l.writeCount - 1 },
          .inl ⟨.writeUnlockStore, ?_, by simp [rank]⟩⟩
        simp only [exec, if_pos hzero]
      · refine ⟨{ l with writeCount := l.writeCount - 1 }, .inr ⟨?_, ?_⟩⟩
        · simp only [exec, if_neg hzero]
        · simp only [bracketed, List.tail_cons, List.length_cons, rank]
          omega
  | writeUnlockStore hholds =>
      subst hholds
      exact ⟨_, .inr ⟨rfl, by simp [bracketed, rank]⟩⟩
  | readLockLoad =>
      refine ⟨l, .inl ?_⟩
      simp only [exec]
      split
      · exact ⟨_, rfl, by simp [rank]⟩
      · exact ⟨_, rfl, by simp [rank]⟩
  | readLockNest =>
      refine ⟨_, .inr ⟨rfl, ?_⟩⟩
      simp only [bracketed, List.length_cons, rank]
      omega
  | readLockSpin started spin =>
      refine ⟨l, .inl ⟨_, rfl, ?_⟩⟩
      have hlow := hreader rfl rfl
      have hfresh : l.lockFlag = l.lockFlag &&& readCountMask := by
        apply UInt32.toNat_inj.mp
        have hlower : (l.lockFlag &&& readCountMask).toNat = l.lockFlag.toNat % 65536 :=
          Word.toNat_lower l.lockFlag
        omega
      simp only [rank, if_pos hfresh]
      omega
  | readLockCas started spin expected hlow =>
      by_cases hfresh : l.lockFlag = expected
      · refine ⟨{ l with lockFlag := expected + 1 }, .inr ⟨?_, ?_⟩⟩
        · simp only [exec, if_pos hfresh]
        · simp only [bracketed, List.length_cons, rank, if_pos hfresh]
          omega
      · refine ⟨l, .inl ⟨readLockRetry started spin, ?_, ?_⟩⟩
        · simp only [exec, if_neg hfresh]
        · rw [readLockRetry]
          split <;> simp [rank, hfresh]
  | readLockTimeout started =>
      refine ⟨l, .inl ⟨.readLockSpin started 0, ?_, by simp [rank]⟩⟩
      have hearly : ¬c - started ≥ acquireTimeoutTick := inTime started rfl
      simp only [exec, if_neg hearly]
  | readUnlock hhead =>
      obtain ⟨rest, rfl⟩ := List.head?_eq_some_iff.mp hhead
      refine ⟨{ l with lockFlag := l.lockFlag - 1 }, .inr ⟨?_, ?_⟩⟩
      · simp only [exec, if_neg (hfirst rfl)]
      · simp only [bracketed, List.tail_cons, List.length_cons, rank]
        omega

/-- Nobody acquires any more: calls go on, and holds are given back. -/
def Releasing {Tid : Type} (_ : State Tid Call Hold) : Event Tid Call → Prop
  | .call _ op => op = .writeUnlock ∨ op = .readUnlock
  | .step _ _ => True

variable {Tid : Type} [DecidableEq Tid] {ids : Tid → UInt32} {s s' : State Tid Call Hold} {t : Tid}

/-- What `GetTickCount64` answers during an event. -/
def Event.reading {Tid : Type} : Event Tid Call → Option UInt64
  | .call _ _ => none
  | .step _ now => some now

/-- `Releasing` while the clock stands at `c`. -/
def ReleasingAt {Tid : Type} (c : UInt64) : State Tid Call Hold → Event Tid Call → Prop :=
  System.Steady Event.reading c Releasing

/-- A step without a crash moves one thread. -/
theorem next_moves {e : Event Tid Call} (hreleasing : Releasing s e)
    (hnext : s.next bracketed ids e = some s') (alive : s'.crashed = none) :
    ∃ t lock th, s' = { s with lock }.setThread t th ∧ Moves (s.threads t) th := by
  obtain ⟨-, ⟨t, op, rfl, hrun, -, rfl⟩ | ⟨t, now, op, pc, rfl, hrun, rfl⟩⟩ := next_cases hnext
  · exact ⟨t, s.lock, _, rfl, .unlock hrun hreleasing⟩
  · cases hexec : pc.exec (ids t) now s.lock with
    | mk lock outcome =>
        rw [hexec] at alive
        cases outcome with
        | goto pc' => exact ⟨t, lock, _, rfl, .goto pc' hrun⟩
        | ret => exact ⟨t, lock, _, rfl, .ret hrun⟩
        | crash message => cases alive

/-- What holds of every thread, and of the new state of the thread that moves. -/
theorem forall_setThread {P : Thread Call Hold → Prop} (h : ∀ u, P (s.threads u)) (lock : Lock)
    {th : Thread Call Hold} (hth : P th) (u : Tid) :
    P (({ s with lock }.setThread t th).threads u) := by
  by_cases hu : u = t
  · rw [hu, setThread_self]
    exact hth
  · rw [setThread_other _ _ _ _ hu]
    exact h u

/-- While the clock stands, no thread runs out of time. -/
theorem inTime_next {c : UInt64} (h : ∀ t, (s.threads t).InTime c) {e : Event Tid Call}
    (hread : ∀ now ∈ e.reading, now = c) (hnext : s.next bracketed ids e = some s') :
    ∀ t, (s'.threads t).InTime c := by
  obtain ⟨-, ⟨t, op, rfl, -, -, rfl⟩ | ⟨t, now, op, pc, rfl, hrun, rfl⟩⟩ := next_cases hnext
  · apply forall_setThread h s.lock
    rintro _ ⟨⟩ timeTickStarted hstarted
    cases op <;> cases hstarted
  · obtain rfl := hread now rfl
    cases hexec : pc.exec (ids t) now s.lock with
    | mk lock outcome =>
        cases outcome with
        | goto pc' =>
            apply forall_setThread h lock
            rintro _ ⟨⟩
            exact (h t (op, pc) hrun).exec hexec
        | ret =>
            apply forall_setThread h lock
            rintro _ ⟨⟩
        | crash message => exact h

variable [Fintype Tid]

/-- A thread that has read its own id does not spin. -/
theorem Inv.spinsOutside (h : Inv ids s) (hspins : ∀ t, (s.threads t).SpinsOutside)
    {e : Event Tid Call} (hnext : s.next bracketed ids e = some s') :
    ∀ t, (s'.threads t).SpinsOutside := by
  obtain ⟨-, ⟨t, op, rfl, -, -, rfl⟩ | ⟨t, now, op, pc, rfl, hrun, rfl⟩⟩ := next_cases hnext
  · apply forall_setThread hspins s.lock
    rintro op pc ⟨⟩ hspin
    cases op <;> cases hspin
  · cases hexec : pc.exec (ids t) now s.lock with
    | mk lock outcome =>
        cases outcome with
        | goto pc' =>
            apply forall_setThread hspins lock
            rintro op pc ⟨⟩ hspin
            obtain hbefore | htest := Pc.exec_spins hexec hspin
            · exact hspins t op _ hrun hbefore
            · intro hwrite
              apply htest
              apply UInt32.toNat_inj.mp
              rw [← h.upper.1 t (.inl hwrite)]
              exact Word.toNat_upper s.lock.lockFlag
        | ret =>
            apply forall_setThread hspins lock
            rintro op pc ⟨⟩
        | crash message => exact hspins

/-- The counters have room for the holds that the running calls add. -/
def State.Room (s : State Tid Call Hold) : Prop :=
  ∑ t, (s.threads t).claims .readLock .read < 65536 ∧
    ∀ t, (s.threads t).claims .writeLock .write < 65536

omit [DecidableEq Tid] in
theorem State.Room.fits (h : s.Room) : s.Fits := by
  refine ⟨Nat.lt_of_le_of_lt ?_ h.1, fun t => Nat.lt_of_le_of_lt ?_ (h.2 t)⟩
  · exact Finset.sum_le_sum fun t _ => Nat.le_add_right _ _
  · exact Nat.le_add_right _ _

/-- Unlock calls and running calls need no more room. -/
theorem State.Room.next (h : s.Room) {e : Event Tid Call} (hreleasing : Releasing s e)
    (hnext : s.next bracketed ids e = some s') (alive : s'.crashed = none) : s'.Room := by
  obtain ⟨t, lock, th, rfl, hmoves⟩ := next_moves hreleasing hnext alive
  have hreads := hmoves.claims_le (.inr ⟨rfl, rfl⟩)
  have hwrites := hmoves.claims_le (.inl ⟨rfl, rfl⟩)
  have hsum : (∑ u, (({ s with lock }.setThread t th).threads u).claims .readLock .read) +
      (s.threads t).claims .readLock .read = _ :=
    sum_update (fun th : Thread Call Hold => th.claims .readLock .read) s.threads t th
  refine ⟨?_, forall_setThread (P := fun th => th.claims .writeLock .write < 65536) h.2 lock
    (Nat.lt_of_le_of_lt hwrites (h.2 t))⟩
  have hroom := h.1
  omega

/-- What a run that frees the lock at time `c` keeps. -/
structure Sound (ids : Tid → UInt32) (c : UInt64) (s : State Tid Call Hold) : Prop where
  inv : Inv ids s
  alive : s.crashed = none
  spinsOutside : ∀ t, (s.threads t).SpinsOutside
  room : s.Room
  settled : ∀ t, ¬(s.threads t).Upgrades
  inTime : ∀ t, (s.threads t).InTime c

variable {c : UInt64}

section Progress

variable (inj : Function.Injective ids) (hid : ∀ t, 0 < (ids t).toNat ∧ (ids t).toNat < 65536)

include inj hid

theorem Sound.next (h : Sound ids c s) {e : Event Tid Call}
    (hreleasing : ReleasingAt c s e)
    (hnext : s.next bracketed ids e = some s') (alive : s'.crashed = none) : Sound ids c s' := by
  obtain ⟨hreleasing, hread⟩ := hreleasing
  obtain ⟨t, lock, th, hs', hmoves⟩ := next_moves hreleasing hnext alive
  have hroom := h.room.next hreleasing hnext alive
  refine ⟨h.inv.step inj hid (withinCapacity_of_next hnext hroom.fits) hnext alive, alive,
    h.inv.spinsOutside h.spinsOutside hnext, hroom, ?_, inTime_next h.inTime hread hnext⟩
  rw [hs']
  exact forall_setThread (P := fun th => ¬th.Upgrades) h.settled lock (hmoves.not_upgrades (h.settled t))

end Progress

/-- Nobody else can stop thread `t`: no other thread owns the write lock, and if `t` is
acquiring it, no other thread holds anything. -/
def Goes (s : State Tid Call Hold) (t : Tid) : Prop :=
  ∀ u, u ≠ t → ¬(s.threads u).HoldsWrite ∧
    ((s.threads t).running.map Prod.fst = some .writeLock → (s.threads u).holds = [])

omit [DecidableEq Tid] in
/-- Where `t` spins, nobody owns the write lock. -/
theorem Sound.unowned (h : Sound ids c s) (hgoes : Goes s t) {op : Call} {pc : Pc}
    (hrun : (s.threads t).running = some (op, pc)) (hspins : pc.spins = true) : Unowned s := by
  obtain hfree | ⟨u, hu⟩ := h.inv.flag
  · exact hfree
  · by_cases hut : u = t
    · subst hut
      obtain hwrite | hown := hu.owner
      · exact absurd hwrite (h.spinsOutside u op pc hrun hspins)
      · rw [hrun] at hown
        cases hown
        cases hspins
    · exact absurd hu.owner (hgoes u hut).1

omit [DecidableEq Tid] in
/-- The next access of `t` meets no competitor. -/
theorem Sound.advances (h : Sound ids c s) (hgoes : Goes s t) {op : Call} {pc : Pc}
    (hrun : (s.threads t).running = some (op, pc)) :
    ∃ l', (∃ pc', pc.exec (ids t) c s.lock = (l', .goto pc') ∧ pc'.rank l' < pc.rank s.lock) ∨
      pc.exec (ids t) c s.lock = (l', .ret) ∧
        8 * (bracketed.finish op (s.threads t).holds).length + 5 <
          8 * (s.threads t).holds.length + pc.rank s.lock := by
  have hat := h.inv.at_pc t op pc hrun
  have hupper := h.inv.upper.2.2
  have hlower : (s.lock.lockFlag &&& readCountMask).toNat = s.lock.lockFlag.toNat % 65536 :=
    Word.toNat_lower s.lock.lockFlag
  have hown : (s.threads t).reads ≤ s.readHolds := weight_le_sum (fun t => (s.threads t).reads) t
  refine Pc.exec_advances hat (ids t) (h.inTime t (op, pc) hrun) ?_ ?_ ?_ ?_
  · rintro hspins rfl
    -- Nobody holds anything, and a waiting writer has no shared hold of its own.
    have hfree := h.unowned hgoes hrun hspins
    have hzero : s.readHolds = 0 := by
      apply Finset.sum_eq_zero
      intro u _
      by_cases hut : u = t
      · subst hut
        have hsettled := h.settled u
        rw [Thread.Upgrades, not_or, hrun] at hsettled
        exact List.count_eq_zero.mpr fun hread => hsettled.2 ⟨rfl, hread⟩
      · have hholds := (hgoes u hut).2 (by rw [hrun]; rfl)
        rw [Thread.reads, hholds]
        rfl
    apply UInt32.toNat_inj.mp
    rw [hfree.flag, hzero]
    rfl
  · rintro hspins -
    have hfree := h.unowned hgoes hrun hspins
    have hfits := h.inv.fits.1
    have hflag := hfree.flag
    omega
  · rintro rfl
    -- All shared holds are the owner's, and it has none above its write hold.
    cases hat with
    | writeUnlockLoad hhead =>
        obtain ⟨rest, hholds⟩ := List.head?_eq_some_iff.mp hhead
        have howned := h.inv.ownedBy (t := t) (.inl (by simp [hholds]))
        have hsettled := h.settled t
        rw [Thread.Upgrades, not_or, hholds] at hsettled
        have hrest : rest.count .read = 0 := List.count_eq_zero.mpr hsettled.1
        have hzero : (s.threads t).reads = 0 := by
          rw [Thread.reads, hholds]
          simpa using hrest
        have hreads := howned.readHolds
        apply UInt32.toNat_inj.mp
        rw [hlower, hupper, hreads, hzero]
        rfl
  · rintro rfl hzero
    cases hat with
    | readUnlock hhead =>
        obtain ⟨rest, hholds⟩ := List.head?_eq_some_iff.mp hhead
        have hone : (s.threads t).reads ≠ 0 := by
          rw [Thread.reads, hholds, List.count_cons_self]
          exact Nat.succ_ne_zero _
        have hvalue := congrArg UInt32.toNat hzero
        rw [hlower] at hvalue
        have hnone : s.readHolds = 0 := hupper.symm.trans hvalue
        omega

omit [Fintype Tid] in
/-- A step of `t` leaves it as free to go as before, unless it starts to acquire. -/
theorem Goes.setThread (h : Goes s t) (lock : Lock) {th : Thread Call Hold}
    (hop : th.running.map Prod.fst = some .writeLock →
      (s.threads t).running.map Prod.fst = some .writeLock) :
    Goes ({ s with lock }.setThread t th) t := by
  intro u hu
  rw [setThread_other _ _ _ _ hu, setThread_self]
  exact ⟨(h u hu).1, fun hwrite => (h u hu).2 (hop hwrite)⟩

section Turns

variable (inj : Function.Injective ids) (hid : ∀ t, 0 < (ids t).toNat ∧ (ids t).toNat < 65536)

include inj hid

/-- Thread `t` gets on, and the others stand still. -/
theorem Sound.advance (h : Sound ids c s) (hgoes : Goes s t) (hbusy : ¬(s.threads t).AtRest) :
    ∃ s', (system bracketed ids).Leads (ReleasingAt c) s s' ∧
      (Sound ids c s' ∧ Goes s' t ∧ ∀ u, u ≠ t → s'.threads u = s.threads u) ∧
      (s'.threads t).rank s'.lock < (s.threads t).rank s.lock := by
  have hothers : ∀ (lock : Lock) (th : Thread Call Hold) (u : Tid), u ≠ t →
      ({ s with lock }.setThread t th).threads u = s.threads u :=
    fun lock th u hu => setThread_other _ _ _ _ hu
  cases hrun : (s.threads t).running with
  | none =>
      -- The innermost hold is given back.
      have hholds : (s.threads t).holds ≠ [] := by
        intro hempty
        exact hbusy ⟨hrun, hempty⟩
      obtain ⟨hold, outer, hcons⟩ := List.exists_cons_of_ne_nil hholds
      obtain ⟨op, hallowed, hunlock, hrank⟩ : ∃ op,
          bracketed.allowed op (s.threads t).holds = true ∧
            (op = .writeUnlock ∨ op = .readUnlock) ∧ op.entry.rank s.lock = 4 := by
        rw [hcons]
        cases hold with
        | read => exact ⟨.readUnlock, rfl, .inr rfl, rfl⟩
        | write => exact ⟨.writeUnlock, rfl, .inl rfl, rfl⟩
      have hnext : (system bracketed ids).next s (.call t op) = _ :=
        next_call bracketed ids h.alive hrun hallowed
      have hrelease : ReleasingAt c s (.call t op) := System.steady_of_none rfl hunlock
      have hsound := h.next inj hid hrelease hnext h.alive
      refine ⟨_, .single hnext hrelease, ⟨hsound, ?_, hothers s.lock _⟩, ?_⟩
      · refine hgoes.setThread s.lock ?_
        rintro hwrite
        obtain rfl | rfl := hunlock <;> cases hwrite
      · rw [setThread_self, setThread_lock, Thread.rank, Thread.rank, hrun]
        change _ + op.entry.rank s.lock < _
        simp only [hrank, if_neg hholds]
        omega
  | some call =>
      obtain ⟨op, pc⟩ := call
      have hrelease : ReleasingAt c s (.step t c) := System.steady_of_some rfl trivial
      obtain ⟨lock, ⟨pc', hexec, hless⟩ | ⟨hexec, hless⟩⟩ := h.advances hgoes hrun
      · have hnext : (system bracketed ids).next s (.step t c) = _ :=
          next_step bracketed ids h.alive hrun c
        rw [hexec, settle_goto] at hnext
        have hsound := h.next inj hid hrelease hnext h.alive
        refine ⟨_, .single hnext hrelease, ⟨hsound, ?_, hothers lock _⟩, ?_⟩
        · refine hgoes.setThread lock fun hwrite => ?_
          rw [hrun]
          exact hwrite
        · rw [setThread_self, setThread_lock, Thread.rank, Thread.rank, hrun]
          exact Nat.add_lt_add_left hless _
      · have hnext : (system bracketed ids).next s (.step t c) = _ :=
          next_step bracketed ids h.alive hrun c
        rw [hexec, settle_ret] at hnext
        have hsound := h.next inj hid hrelease hnext h.alive
        refine ⟨_, .single hnext hrelease, ⟨hsound, ?_, hothers lock _⟩, ?_⟩
        · exact hgoes.setThread lock nofun
        · rw [setThread_self, setThread_lock, Thread.rank, Thread.rank, hrun]
          simp only
          split <;> omega

/-- Thread `t` can be run until it is outside the lock and holds nothing. -/
theorem Sound.turn (h : Sound ids c s) (hgoes : Goes s t) :
    ∃ s', (system bracketed ids).Leads (ReleasingAt c) s s' ∧ Sound ids c s' ∧
      (s'.threads t).AtRest ∧ ∀ u, u ≠ t → s'.threads u = s.threads u := by
  obtain ⟨s', hleads, ⟨hsound, -, hothers⟩, hrest⟩ :
      ∃ s', (system bracketed ids).Leads (ReleasingAt c) s s' ∧
        (Sound ids c s' ∧ Goes s' t ∧ ∀ u, u ≠ t → s'.threads u = s.threads u) ∧
        (s'.threads t).AtRest := by
    apply System.Leads.of_measure fun s' => (s'.threads t).rank s'.lock
    · rintro u ⟨hu, hugoes, huothers⟩ hbusy
      obtain ⟨u', hleads, ⟨hu', hgoes', hothers⟩, hless⟩ := hu.advance inj hid hugoes hbusy
      exact ⟨u', hleads, ⟨hu', hgoes', fun v hv => (hothers v hv).trans (huothers v hv)⟩, hless⟩
    · exact ⟨h, hgoes, fun _ _ => rfl⟩
  exact ⟨s', hleads, hsound, hrest, hothers⟩

omit inj hid [DecidableEq Tid] in
/-- While some thread is not at rest, one of them can go. -/
theorem Sound.exists_goes (h : Sound ids c s) (hbusy : ¬∀ t, (s.threads t).AtRest) :
    ∃ t, ¬(s.threads t).AtRest ∧ Goes s t := by
  obtain hfree | ⟨t, ht⟩ := h.inv.flag
  · by_cases hheld : ∃ t, (s.threads t).holds ≠ []
    · -- A reader; it does not wait for the write lock.
      obtain ⟨t, hholds⟩ := hheld
      refine ⟨t, fun hrest => hholds hrest.2, fun u hu => ⟨hfree.no_writer u, fun hwrite => ?_⟩⟩
      have hsettled := h.settled t
      rw [Thread.Upgrades, not_or] at hsettled
      obtain ⟨hold, outer, hcons⟩ := List.exists_cons_of_ne_nil hholds
      have hmem : hold ∈ (s.threads t).holds := by
        rw [hcons]
        exact List.mem_cons_self
      cases hold with
      | read => exact absurd ⟨hwrite, hmem⟩ hsettled.2
      | write => exact absurd (.inl hmem) (hfree.no_writer t)
    · obtain ⟨t, hrunning⟩ := not_forall.mp hbusy
      exact ⟨t, hrunning, fun u hu => ⟨hfree.no_writer u, fun _ => not_not.mp fun hholds =>
        hheld ⟨u, hholds⟩⟩⟩
  · refine ⟨t, fun hrest => ?_, fun u hu => ⟨(ht.others u hu).2, fun _ => (ht.others u hu).1⟩⟩
    obtain hwrite | hown := ht.owner
    · rw [hrest.2] at hwrite
      cases hwrite
    · rw [hrest.1] at hown
      cases hown

/-- All threads can be run until they are outside the lock and hold nothing. -/
theorem Sound.releases (h : Sound ids c s) :
    ∃ s', (system bracketed ids).Leads (ReleasingAt c) s s' ∧ Sound ids c s' ∧
      ∀ t, (s'.threads t).AtRest := by
  apply System.Leads.of_measure
    fun s => (Finset.univ.filter fun t => ¬(s.threads t).AtRest).card
  · intro s hs hbusy
    obtain ⟨t, hrunning, hgoes⟩ := hs.exists_goes hbusy
    obtain ⟨s', hleads, hs', hrest, hothers⟩ := hs.turn inj hid hgoes
    refine ⟨s', hleads, hs', Finset.card_lt_card ⟨?_, fun hsubset => ?_⟩⟩
    · intro u hu
      rw [Finset.mem_filter_univ] at hu ⊢
      by_cases hut : u = t
      · exact absurd (hut ▸ hrest) hu
      · rw [← hothers u hut]
        exact hu
    · have ht := hsubset ((Finset.mem_filter_univ t).mpr hrunning)
      rw [Finset.mem_filter_univ] at ht
      exact ht hrest
  · exact h

end Turns

omit [DecidableEq Tid] in
/-- A lock that nobody holds is as it was in the beginning. -/
theorem Inv.lock_empty (h : Inv ids s) (hrest : ∀ t, (s.threads t).AtRest) : s.lock = {} := by
  obtain hfree | ⟨t, ht⟩ := h.flag
  · have hzero : s.readHolds = 0 := by
      apply Finset.sum_eq_zero
      intro t _
      rw [Thread.reads, (hrest t).2]
      rfl
    have hflag : s.lock.lockFlag = 0 := by
      apply UInt32.toNat_inj.mp
      rw [hfree.flag, hzero]
      rfl
    have hcount := hfree.count
    cases hlock : s.lock with
    | mk lockFlag writeCount =>
        rw [hlock] at hflag hcount
        dsimp only at hflag hcount
        rw [hflag, hcount]
  · obtain hwrite | hown := ht.owner
    · rw [(hrest t).2] at hwrite
      cases hwrite
    · rw [(hrest t).1] at hown
      cases hown

/-- An upgrade is never undone. -/
theorem Inv.upgrades_next (h : Inv ids s) (hup : (s.threads t).Upgrades) {e : Event Tid Call}
    (hnext : s.next bracketed ids e = some s') : (s'.threads t).Upgrades := by
  have hread : .read ∈ (s.threads t).holds := by
    obtain hunder | ⟨-, hread⟩ := hup
    · exact hunder.read_mem
    · exact hread
  obtain ⟨-, ⟨u, op, rfl, hrun, -, rfl⟩ | ⟨u, now, op, pc, rfl, hrun, rfl⟩⟩ := next_cases hnext
  · by_cases hut : t = u
    · subst hut
      rw [setThread_self]
      obtain hunder | ⟨hop, -⟩ := hup
      · exact .inl hunder
      · rw [hrun] at hop
        cases hop
    · rw [setThread_other _ _ _ _ hut]
      exact hup
  · cases hexec : pc.exec (ids u) now s.lock with
    | mk lock outcome =>
        cases outcome with
        | crash message => exact hup
        | goto pc' =>
            by_cases hut : t = u
            · subst hut
              rw [settle_goto, setThread_self]
              obtain hunder | ⟨hop, hread⟩ := hup
              · exact .inl hunder
              · rw [hrun] at hop
                exact .inr ⟨hop, hread⟩
            · rw [settle_goto, setThread_other _ _ _ _ hut]
              exact hup
        | ret =>
            by_cases hut : t = u
            · subst hut
              rw [settle_ret, setThread_self]
              refine .inl ?_
              have hunder : op ≠ .writeLock → UnderWrite (s.threads t).holds := by
                intro hne
                obtain hunder | ⟨hop, -⟩ := hup
                · exact hunder
                · rw [hrun] at hop
                  exact absurd (Option.some.inj hop) hne
              cases h.at_pc t op pc hrun with
              | writeLockLoad | writeLockNest | writeLockSpin | writeLockOwn | writeLockTimeout =>
                  exact hread
              | readLockLoad | readLockNest | readLockSpin | readLockCas | readLockTimeout =>
                  refine hunder ?_
                  intro hop
                  cases hop
              | writeUnlockLoad =>
                  simp only [Pc.exec] at hexec
                  split at hexec <;> cases hexec
              | writeUnlockCount _ hnone => exact absurd hread hnone
              | writeUnlockStore hholds =>
                  rw [hholds] at hread
                  cases List.mem_singleton.mp hread
              | readUnlock hhead =>
                  obtain ⟨outer, hholds⟩ := List.head?_eq_some_iff.mp hhead
                  have hunder' : UnderWrite (s.threads t).holds := by
                    refine hunder ?_
                    intro hop
                    cases hop
                  rw [hholds] at hunder' ⊢
                  exact hunder'
            · rw [settle_ret, setThread_other _ _ _ _ hut]
              exact hup

/-- Every thread is outside the lock and holds nothing, and the lock is as constructed. -/
structure Freed (s : State Tid Call Hold) : Prop where
  alive : s.crashed = none
  lock : s.lock = {}
  atRest : ∀ t, (s.threads t).AtRest

section Results

variable (inj : Function.Injective ids) (hid : ∀ t, 0 < (ids t).toNat ∧ (ids t).toNat < 65536)

include inj hid

theorem reachable_spinsOutside (h : (system bracketed ids).Reachable (WithinCapacity ids) s)
    (alive : s.crashed = none) : ∀ t, (s.threads t).SpinsOutside := by
  have hall : s.crashed = none → Inv ids s ∧ ∀ t, (s.threads t).SpinsOutside := by
    refine h.invariant (I := fun s => s.crashed = none →
      Inv ids s ∧ ∀ t, (s.threads t).SpinsOutside) ?_ ?_
    · rintro s rfl -
      exact ⟨inv_initial ids, fun t op pc hrun => by cases hrun⟩
    · intro s e s' ih hok hnext alive
      obtain ⟨hinv, hspins⟩ := ih (next_cases hnext).1
      exact ⟨hinv.step inj hid hok hnext alive, hinv.spinsOutside hspins hnext⟩
  exact (hall alive).2

/-- A thread that has upgraded is not at rest after any run. -/
theorem Inv.upgrades_leads (h : Inv ids s) (room : s.Room) (hup : (s.threads t).Upgrades)
    (hleads : (system bracketed ids).Leads Releasing s s') (alive : s'.crashed = none) :
    (s'.threads t).Upgrades := by
  have hall : s'.crashed = none → Inv ids s' ∧ s'.Room ∧ (s'.threads t).Upgrades := by
    refine hleads.invariant
      (I := fun u => u.crashed = none → Inv ids u ∧ u.Room ∧ (u.threads t).Upgrades)
      (fun _ => ⟨h, room, hup⟩) ?_
    intro u e u' ih hreleasing hnext halive
    obtain ⟨hu, huroom, huup⟩ := ih (next_cases hnext).1
    have hroom := huroom.next hreleasing hnext halive
    exact ⟨hu.step inj hid (withinCapacity_of_next hnext hroom.fits) hnext halive, hroom,
      hu.upgrades_next huup hnext⟩
  exact (hall alive).2.2

/-- From a state that is reached without a crash and in which no waiting call has used up its
time, unlock calls and the calls that are running can free the lock exactly when no thread
has upgraded: before the clock goes on if they can do so at all. -/
theorem lock_frees_iff (h : (system bracketed ids).Reachable (WithinCapacity ids) s)
    (alive : s.crashed = none) (room : s.Room) {c : UInt64}
    (inTime : ∀ t, (s.threads t).InTime c) :
    ((∃ s', ((system bracketed ids).clocked Event.reading).Leads (fun s e => Releasing s.1 e)
        (s, c) (s', c) ∧ Freed s') ↔ ∀ t, ¬(s.threads t).Upgrades) ∧
      ((∃ s', (system bracketed ids).Leads Releasing s s' ∧ Freed s') ↔
        ∀ t, ¬(s.threads t).Upgrades) := by
  have hinv := reachable_inv inj hid h alive
  have hforget : ∀ s', ((system bracketed ids).clocked Event.reading).Leads
      (fun s e => Releasing s.1 e) (s, c) (s', c) → (system bracketed ids).Leads Releasing s s' :=
    fun s' => (System.projects_clocked (system bracketed ids) Event.reading Releasing).leads
  have hblocked : ∀ s', (system bracketed ids).Leads Releasing s s' → Freed s' →
      ∀ t, ¬(s.threads t).Upgrades := by
    intro s' hleads hfreed t hup
    obtain hunder | ⟨hop, -⟩ := hinv.upgrades_leads inj hid room hup hleads hfreed.alive
    · rw [(hfreed.atRest t).2] at hunder
      exact hunder
    · rw [(hfreed.atRest t).1] at hop
      cases hop
  have hfrees : (∀ t, ¬(s.threads t).Upgrades) →
      ∃ s', ((system bracketed ids).clocked Event.reading).Leads (fun s e => Releasing s.1 e)
        (s, c) (s', c) ∧ Freed s' := by
    intro hsettled
    have hspins := reachable_spinsOutside inj hid h alive
    obtain ⟨s', hleads, hs', hrest⟩ :=
      Sound.releases inj hid ⟨hinv, alive, hspins, room, hsettled, inTime⟩
    exact ⟨s', hleads.clocked (UInt64.le_refl c), hs'.alive, hs'.inv.lock_empty hrest, hrest⟩
  refine ⟨⟨?_, hfrees⟩, ?_, fun hsettled => ?_⟩
  · rintro ⟨s', hleads, hfreed⟩
    exact hblocked s' (hforget s' hleads) hfreed
  · rintro ⟨s', hleads, hfreed⟩
    exact hblocked s' hleads hfreed
  · obtain ⟨s', hleads, hfreed⟩ := hfrees hsettled
    exact ⟨s', hforget s' hleads, hfreed⟩

omit inj hid [DecidableEq Tid] in
/-- While a thread waits for its own shared hold, nobody owns the write lock. -/
theorem Inv.unowned_of_waits (h : Inv ids s) (hwaits : (s.threads t).Waits) : Unowned s := by
  obtain ⟨-, hread, hwrite⟩ := hwaits
  obtain hfree | ⟨u, hu⟩ := h.flag
  · exact hfree
  · by_cases hut : t = u
    · subst hut
      obtain hmem | hown := hu.owner
      · exact absurd hmem hwrite
      · cases h.at_pc t _ _ hown with
        | writeLockOwn hempty =>
            rw [hempty] at hread
            cases hread
    · rw [(hu.others t hut).1] at hread
      cases hread

omit inj hid in
theorem Inv.waits_next (h : Inv ids s) (hwaits : (s.threads t).Waits) {e : Event Tid Call}
    (hnext : s.next bracketed ids e = some s') : (s'.threads t).Waits := by
  have ⟨hop, hread, hwrite⟩ := hwaits
  obtain ⟨-, ⟨u, op, rfl, hrun, -, rfl⟩ | ⟨u, now, op, pc, rfl, hrun, rfl⟩⟩ := next_cases hnext
  · by_cases hut : t = u
    · subst hut
      rw [hrun] at hop
      cases hop
    · rw [setThread_other _ _ _ _ hut]
      exact hwaits
  · cases hexec : pc.exec (ids u) now s.lock with
    | mk lock outcome =>
        by_cases hut : t = u
        · subst hut
          rw [hrun] at hop
          obtain rfl := Option.some.inj hop
          cases outcome with
          | crash message => exact hwaits
          | goto pc' =>
              rw [settle_goto, setThread_self]
              exact ⟨rfl, hread, hwrite⟩
          | ret =>
              -- `WriteLock` returns to an owner, or to a thread that held nothing.
              exfalso
              cases h.at_pc t _ pc hrun with
              | writeLockNest hmem => exact hwrite hmem
              | writeLockOwn hempty =>
                  rw [hempty] at hread
                  cases hread
              | writeLockLoad | writeLockSpin | writeLockTimeout =>
                  simp only [Pc.exec] at hexec
                  split at hexec <;> cases hexec
        · cases outcome with
          | crash message => exact hwaits
          | goto pc' =>
              rw [settle_goto, setThread_other _ _ _ _ hut]
              exact hwaits
          | ret =>
              rw [settle_ret, setThread_other _ _ _ _ hut]
              exact hwaits

/-- A thread that calls `WriteLock` over its own shared hold never returns from it, and as
long as the process runs, nobody gets the write lock any more. -/
theorem upgrade_blocks (h : (system bracketed ids).Reachable (WithinCapacity ids) s)
    (hwaits : (s.threads t).Waits) {es : List (Event Tid Call)}
    (along : (system bracketed ids).Along (WithinCapacity ids) es s)
    (hrun : (system bracketed ids).run es s = some s') (alive : s'.crashed = none) :
    (s'.threads t).Waits ∧ ∀ u, ¬(s'.threads u).HoldsWrite := by
  have hleads : (system bracketed ids).Leads (WithinCapacity ids) s s' := ⟨es, along, hrun⟩
  have hall : s'.crashed = none → Inv ids s' ∧ (s'.threads t).Waits := by
    refine hleads.invariant (I := fun u => u.crashed = none → Inv ids u ∧ (u.threads t).Waits)
      (fun halive => ⟨reachable_inv inj hid h halive, hwaits⟩) ?_
    intro u e u' ih hok hnext halive
    obtain ⟨hu, huwaits⟩ := ih (next_cases hnext).1
    exact ⟨hu.step inj hid hok hnext halive, hu.waits_next huwaits hnext⟩
  obtain ⟨hinv, hw⟩ := hall alive
  exact ⟨hw, (hinv.unowned_of_waits hw).no_writer⟩

end Results

section TwoThreads

instance {Tid : Type} [Fintype Tid] [DecidableEq Tid] (ids : Tid → UInt32)
    (s : State Tid Call Hold) (e : Event Tid Call) : Decidable (WithinCapacity ids s e) :=
  match hnext : s.next bracketed ids e with
  | none => .isTrue fun s' h => by cases hnext.symm.trans h
  | some s' => decidable_of_iff s'.Fits
      ⟨fun hfits => withinCapacity_of_next hnext hfits, fun h => h s' hnext⟩

instance {Tid : Type} [Fintype Tid] (s : State Tid Call Hold) : Decidable s.Room :=
  inferInstanceAs (Decidable (_ ∧ _))

/-- The writer and the reader with its stale sample can both finish, just in time. -/
theorem lock_frees_iff_contended :
    ∃ s s' : State (Fin 2) Call Hold, (system bracketed twoIds).run contended {} = some s ∧
      ((system bracketed twoIds).clocked Event.reading).Leads (fun s e => Releasing s.1 e)
        (s, 9999) (s', 9999) ∧ Freed s' := by
  have hrun : (system bracketed twoIds).run contended {} = some _ := rfl
  have hreached : (system bracketed twoIds).Reachable (WithinCapacity twoIds) _ :=
    (System.Reachable.start rfl).run (System.along_of_check (by decide +kernel)) hrun
  obtain ⟨s', hleads, hfreed⟩ :=
    (lock_frees_iff (c := 9999) (by decide) (by decide) hreached rfl (by decide +kernel)
      (by decide +kernel)).1.mpr (by decide +kernel)
  exact ⟨_, s', hrun, hleads, hfreed⟩

/-- Thread 0 upgrades. -/
def upgrade : List (Event (Fin 2) Call) :=
  [.call 0 .readLock, .step 0 0, .step 0 0, .step 0 0, .call 0 .writeLock, .step 0 0]

/-- Thread 1 wants to write, and both try. -/
def attempts : List (Event (Fin 2) Call) :=
  [.call 1 .writeLock, .step 1 0, .step 1 0, .step 0 0]

theorem upgrade_blocks_attempts :
    ∃ s s' : State (Fin 2) Call Hold, (system bracketed twoIds).run upgrade {} = some s ∧
      (system bracketed twoIds).run attempts s = some s' ∧ (s'.threads 0).Waits ∧
      ∀ u, ¬(s'.threads u).HoldsWrite := by
  have hrun : (system bracketed twoIds).run upgrade {} = some _ := rfl
  have hreached : (system bracketed twoIds).Reachable (WithinCapacity twoIds) _ :=
    (System.Reachable.start rfl).run (System.along_of_check (by decide +kernel)) hrun
  exact ⟨_, _, hrun, rfl, upgrade_blocks (by decide) (by decide) hreached (by decide +kernel)
    (System.along_of_check (by decide +kernel))
    (rfl : (system bracketed twoIds).run attempts _ = _) rfl⟩

end TwoThreads

end Lock

end ServerCore
