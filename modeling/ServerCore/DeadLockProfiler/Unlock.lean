import ServerCore.DeadLockProfiler.Soundness

/-!
# What `PopLock` accepts

`PushLock` looks a name up with `find`, and gives a new one the number of names as its
id. `PopLock` uses `operator[]`, which enters an unknown name into `nameToId` with the id
0. So a thread may release the lock with the id 0 under any name that was never locked,
and from then on two names have that id.

The number of names is cast to `int32`, which is an id up to 2^31 names.
-/

namespace ServerCore

namespace DeadLockProfiler

open Interleaving

variable {Tid Name : Type} [DecidableEq Name] [DecidableEq Tid]

/-- Every registered name has an id below the number of names, and `idToName` leads back
from the id to the name. -/
structure Numbered (p : DeadLockProfiler Name) : Prop where
  bounds : ∀ name id, p.nameToId name = some id → 0 ≤ id.toInt ∧ id.toInt < p.nameCount
  back : ∀ name id, p.nameToId name = some id → p.idToName id = some name

/-- `PopLock` returns for the name that its thread pushed last and crashes for all
others, and after the call the ids of the registered names are distinct and numbered. -/
structure Exact (s s' : State Tid Name) (e : Event Tid Name) : Prop where
  accepts : ∀ t name, e = .popLock t name → (s'.fault = none ↔ (s.names t).head? = some name)
  rejects : ∀ t name, e = .popLock t name → (s.names t).head? ≠ some name →
    s'.fault = some .multipleUnlock ∨ s'.fault = some .invalidUnlock
  distinct : ∀ a b id, s'.profiler.nameToId a = some id → s'.profiler.nameToId b = some id → a = b
  numbered : Numbered s'.profiler

/-- Wherever the call leads to, it is exact. -/
def AlwaysExact (s : State Tid Name) (e : Event Tid Name) : Prop :=
  ∀ s', s.next e = some s' → Exact s s' e

/-- The call does not release the lock with the id 0 under a name that is not registered,
and it does not register a name when the number of names is not an `int32`. The rest
concerns a thread that holds a lock: there the search of `PushLock` crashes first. -/
def KeepsIds (s : State Tid Name) : Event Tid Name → Prop
  | .pushLock t name => s.profiler.nameToId name = none →
      s.profiler.nameCount < 2 ^ 31 ∨ s.lockStack t ≠ []
  | .popLock t name => s.profiler.nameToId name = none → (s.lockStack t).head? ≠ some 0

/-- What holds while every call keeps the ids. -/
structure Consistent (s : State Tid Name) : Prop where
  numbered : Numbered s.profiler
  count : s.profiler.nameCount ≤ 2 ^ 31
  targets : ∀ u v, Edge s.profiler.lockHistory u v → 0 ≤ v.toInt
  threads : ∀ t, (s.names t).map s.profiler.nameToId = (s.lockStack t).map some

section Calls

variable {p p' : DeadLockProfiler Name} {lockStack lockStack' : List Int32} {name : Name}

omit [DecidableEq Name] in
theorem Numbered.distinct (h : Numbered p) {a b : Name} {id : Int32} (ha : p.nameToId a = some id)
    (hb : p.nameToId b = some id) : a = b :=
  Option.some.inj ((h.back a id ha).symm.trans (h.back b id hb))

/-- A new name gets an id that is not negative and not in use. -/
theorem Numbered.register (h : Numbered p)
    (hnew : p.nameToId name = none → p.nameCount < 2 ^ 31) :
    Numbered (p.register name).2 := by
  unfold DeadLockProfiler.register
  cases hname : p.nameToId name with
  | some id => exact h
  | none =>
      have hid : (Int32.ofNat p.nameCount).toInt = p.nameCount :=
        Int32.toInt_ofNat_of_lt (hnew hname)
      constructor
      · intro a id ha
        change Function.update p.nameToId name _ a = some id at ha
        change 0 ≤ id.toInt ∧ id.toInt < ((p.nameCount + 1 : ℕ) : ℤ)
        obtain rfl | hne := eq_or_ne a name
        · rw [Function.update_self] at ha
          cases ha
          omega
        · rw [Function.update_of_ne hne] at ha
          have hbounds := h.bounds a id ha
          omega
      · intro a id ha
        change Function.update p.nameToId name _ a = some id at ha
        change Function.update p.idToName (Int32.ofNat p.nameCount) _ id = some a
        obtain rfl | hne := eq_or_ne a name
        · rw [Function.update_self] at ha
          cases ha
          exact Function.update_self ..
        · rw [Function.update_of_ne hne] at ha
          have hbounds := h.bounds a id ha
          rw [Function.update_of_ne, h.back a id ha]
          rintro rfl
          omega

/-- With 2^31 names, a thread that holds a lock cannot register another name: the new
edge is searched for a cycle, and the vectors of the search cannot be made. -/
theorem pushLock_length {prev : Int32} {rest : List Int32} (hnew : p.nameToId name = none)
    (hcount : p.nameCount = 2 ^ 31) (hprev : 0 ≤ prev.toInt)
    (targets : ∀ u v, Edge p.lockHistory u v → 0 ≤ v.toInt) :
    p.pushLock (prev :: rest) name = .error .length := by
  have hnegative : (Int32.ofNat p.nameCount).toInt < 0 := by
    rw [hcount]
    decide
  have hne : Int32.ofNat p.nameCount ≠ prev := by
    rintro rfl
    omega
  have hfresh : Int32.ofNat p.nameCount ∉ (p.lockHistory prev).getD [] := by
    intro hmem
    have hnonneg := targets prev _ hmem
    omega
  have hcheck : ∀ lockHistory, checkCycle lockHistory (p.nameCount + 1) = .error .length := by
    intro lockHistory
    rw [hcount, checkCycle, if_pos (by decide)]
  simp only [pushLock, register, hnew]
  rw [if_pos ⟨hne, hfresh⟩]
  change (checkCycle _ (p.nameCount + 1)).map _ = _
  rw [hcheck]
  rfl

/-- `PopLock` crashes for every name but the last one. -/
theorem popLock_rejects {names : List Name} (h : Numbered p)
    (ids : names.map p.nameToId = lockStack.map some)
    (hzero : p.nameToId name = none → lockStack.head? ≠ some 0)
    (hother : names.head? ≠ some name) :
    p.popLock lockStack name = .error .multipleUnlock ∨
      p.popLock lockStack name = .error .invalidUnlock := by
  cases lockStack with
  | nil => exact .inl rfl
  | cons top rest =>
      right
      cases names with
      | nil => cases ids
      | cons last names =>
          rw [List.map_cons, List.map_cons, List.cons.injEq] at ids
          cases hname : p.nameToId name with
          | some id =>
              have hne : top ≠ id := by
                rintro rfl
                exact hother (congrArg some (h.distinct ids.1 hname))
              have hne' : top.toUInt32 ≠ id.toUInt32 := fun heq => hne (Word.toUInt32_inj heq)
              simp [popLock, hname, hne']
          | none =>
              have hne : top ≠ 0 := fun heq => hzero hname (congrArg some heq)
              have hne' : top.toUInt32 ≠ (0 : Int32).toUInt32 :=
                fun heq => hne (Word.toUInt32_inj heq)
              simp only [popLock, hname]
              rw [if_pos hne']

end Calls

section Steps

variable {s s' : State Tid Name} {e : Event Tid Name}

omit [DecidableEq Name] [DecidableEq Tid] in
theorem consistent_start : Consistent ({} : State Tid Name) where
  numbered := ⟨nofun, nofun⟩
  count := Nat.zero_le _
  targets u v huv := by cases huv
  threads _ := rfl

/-- A call of `PushLock` that returns numbers its name. -/
theorem Consistent.push (h : Consistent s) {t : Tid} {name : Name} {p : DeadLockProfiler Name}
    {stack : List Int32} (hok : KeepsIds s (.pushLock t name))
    (hpush : s.profiler.pushLock (s.lockStack t) name = .ok (p, stack)) :
    Consistent (s.afterPush t name p stack) := by
  have hroom : s.profiler.nameToId name = none → s.profiler.nameCount < 2 ^ 31 := by
    intro hnew
    obtain hlt | hholds := hok hnew
    · exact hlt
    · by_contra hfull
      obtain ⟨prev, rest, hstack⟩ := List.exists_cons_of_ne_nil hholds
      have hids := h.threads t
      rw [hstack] at hpush hids
      obtain ⟨a, -, ha⟩ := exists_name_of_mem hids List.mem_cons_self
      have hnonneg := (h.numbered.bounds a prev ha).1
      have hcount := h.count
      rw [pushLock_length hnew (by omega) hnonneg h.targets] at hpush
      cases hpush
  obtain ⟨rfl, hids, hback, hcount, hedges⟩ := pushLock_ok hpush
  have hgrows := register_grows s.profiler name
  have hself := register_self s.profiler name
  have hnumbered := h.numbered.register hroom
  have hnames : ∀ u, (s.names u).map p.nameToId = (s.lockStack u).map some := by
    intro u
    rw [hids]
    exact hgrows.ids (h.threads u)
  refine ⟨⟨fun a id ha => ?_, fun a id ha => ?_⟩, ?_, fun u v huv => ?_, fun u => ?_⟩
  · change p.nameToId a = some id at ha
    rw [hids] at ha
    change 0 ≤ id.toInt ∧ id.toInt < (p.nameCount : ℤ)
    rw [hcount]
    exact hnumbered.bounds a id ha
  · change p.nameToId a = some id at ha
    rw [hids] at ha
    change p.idToName id = some a
    rw [hback]
    exact hnumbered.back a id ha
  · change p.nameCount ≤ 2 ^ 31
    rw [hcount]
    have hold := h.count
    unfold register
    cases hname : s.profiler.nameToId name with
    | some id => exact hold
    | none => exact hroom hname
  · obtain hold | rfl := hedges u v huv
    · exact h.targets u v hold
    · exact (hnumbered.bounds name _ hself).1
  · change (Function.update s.names t (name :: s.names t) u).map p.nameToId =
      (Function.update s.lockStack t _ u).map some
    obtain rfl | hu := eq_or_ne u t
    · rw [Function.update_self, Function.update_self, List.map_cons, List.map_cons, hnames, hids,
        hself]
    · rw [Function.update_of_ne hu, Function.update_of_ne hu, hnames]

omit [DecidableEq Tid] in
/-- `PopLock` returns for the last name only, and then changes no name. -/
theorem Consistent.popLock_cases (h : Consistent s) {t : Tid} {name : Name}
    (hok : KeepsIds s (.popLock t name)) :
    ((s.names t).head? = some name ∧
      s.profiler.popLock (s.lockStack t) name = .ok (s.profiler, (s.lockStack t).tail)) ∨
    ((s.names t).head? ≠ some name ∧
      (s.profiler.popLock (s.lockStack t) name = .error .multipleUnlock ∨
        s.profiler.popLock (s.lockStack t) name = .error .invalidUnlock)) := by
  by_cases hlast : (s.names t).head? = some name
  · exact .inl ⟨hlast, popLock_eq (h.threads t) hlast⟩
  · exact .inr ⟨hlast, popLock_rejects h.numbered (h.threads t) hok hlast⟩

theorem Consistent.next (h : Consistent s) (hok : KeepsIds s e) (hnext : s.next e = some s') :
    Consistent s' := by
  obtain ⟨-, ⟨t, name, fault, rfl, -, rfl⟩ | ⟨t, name, p, stack, rfl, hpush, rfl⟩ |
    ⟨t, name, fault, rfl, -, rfl⟩ | ⟨t, name, p, stack, rfl, hpop, rfl⟩⟩ := next_cases hnext
  · exact ⟨h.numbered, h.count, h.targets, h.threads⟩
  · exact h.push hok hpush
  · exact ⟨h.numbered, h.count, h.targets, h.threads⟩
  · obtain ⟨-, hreturns⟩ | ⟨-, hcrash | hcrash⟩ := h.popLock_cases hok
    · rw [hreturns] at hpop
      cases hpop
      refine ⟨h.numbered, h.count, h.targets, fun u => ?_⟩
      change (Function.update s.names t (s.names t).tail u).map s.profiler.nameToId =
        (Function.update s.lockStack t (s.lockStack t).tail u).map some
      obtain rfl | hu := eq_or_ne u t
      · rw [Function.update_self, Function.update_self, List.map_tail, List.map_tail, h.threads]
      · rw [Function.update_of_ne hu, Function.update_of_ne hu, h.threads]
    · rw [hcrash] at hpop
      cases hpop
    · rw [hcrash] at hpop
      cases hpop

/-- A call that keeps the ids is exact. -/
theorem Consistent.exact (h : Consistent s) (hok : KeepsIds s e) (hnext : s.next e = some s') :
    Exact s s' e := by
  have hafter := h.next hok hnext
  refine ⟨?_, ?_, fun a b id => hafter.numbered.distinct, hafter.numbered⟩
  · rintro t name rfl
    obtain ⟨hfault, ⟨_, _, _, heq, -⟩ | ⟨_, _, _, _, heq, -⟩ | ⟨_, _, fault, heq, hpop, rfl⟩ |
      ⟨_, _, p, stack, heq, hpop, rfl⟩⟩ := next_cases hnext <;> cases heq
    · obtain ⟨-, hreturns⟩ | ⟨hother, -⟩ := h.popLock_cases hok
      · rw [hreturns] at hpop
        cases hpop
      · exact iff_of_false (Option.some_ne_none fault) hother
    · obtain ⟨hlast, -⟩ | ⟨-, hcrash | hcrash⟩ := h.popLock_cases hok
      · exact iff_of_true hfault hlast
      · rw [hcrash] at hpop
        cases hpop
      · rw [hcrash] at hpop
        cases hpop
  · rintro t name rfl hother
    obtain ⟨hlast, -⟩ | ⟨-, hcrash⟩ := h.popLock_cases hok
    · exact absurd hlast hother
    · obtain ⟨-, ⟨_, _, _, heq, -⟩ | ⟨_, _, _, _, heq, -⟩ | ⟨_, _, fault, heq, hpop, rfl⟩ |
        ⟨_, _, p, stack, heq, hpop, rfl⟩⟩ := next_cases hnext <;> cases heq
      · obtain hcrash | hcrash := hcrash
        · rw [hcrash] at hpop
          cases hpop
          exact .inl rfl
        · rw [hcrash] at hpop
          cases hpop
          exact .inr rfl
      · obtain hcrash | hcrash := hcrash <;> rw [hcrash] at hpop <;> cases hpop

/-- An exact call keeps the ids. -/
theorem Consistent.keepsIds (h : Consistent s) (hnext : s.next e = some s')
    (hexact : Exact s s' e) : KeepsIds s e := by
  cases e with
  | pushLock t name =>
      intro hnew
      by_contra hfull
      rw [not_or, not_not, Nat.not_lt] at hfull
      obtain ⟨hcount, hempty⟩ := hfull
      have hpush : s.profiler.pushLock (s.lockStack t) name =
          .ok ((s.profiler.register name).2, [(s.profiler.register name).1]) := by
        rw [pushLock, hempty]
      obtain ⟨-, ⟨_, _, _, heq, hpush', -⟩ | ⟨_, _, p, stack, heq, hpush', rfl⟩ |
        ⟨_, _, _, heq, -⟩ | ⟨_, _, _, _, heq, -⟩⟩ := next_cases hnext <;> cases heq
      · rw [hpush] at hpush'
        cases hpush'
      · rw [hpush] at hpush'
        cases hpush'
        have hbounds := (hexact.numbered.bounds name _ (register_self s.profiler name)).1
        have hcount' : s.profiler.nameCount = 2 ^ 31 := le_antisymm h.count hcount
        have hnegative : (s.profiler.register name).1 = Int32.ofNat (2 ^ 31) := by
          unfold register
          rw [hnew, ← hcount']
        rw [hnegative] at hbounds
        exact absurd hbounds (by decide)
  | popLock t name =>
      intro hunknown hzero
      have hother : (s.names t).head? ≠ some name := by
        intro hlast
        obtain ⟨id, -, hid⟩ := exists_id_of_mem (h.threads t) (List.mem_of_mem_head? hlast)
        rw [hunknown] at hid
        cases hid
      obtain ⟨rest, hstack⟩ := List.head?_eq_some_iff.mp hzero
      have hreturns : s'.fault = none := by
        obtain ⟨hfault, ⟨_, _, _, heq, -⟩ | ⟨_, _, _, _, heq, -⟩ | ⟨_, _, fault, heq, hpop, rfl⟩ |
          ⟨_, _, p, stack, heq, hpop, rfl⟩⟩ := next_cases hnext <;> cases heq
        · simp [popLock, hstack, hunknown] at hpop
        · exact hfault
      exact hother ((hexact.accepts t name rfl).mp hreturns)

end Steps

/-- In a run of any number of threads, `PopLock` accepts exactly the matching unlock and
the registered names are numbered exactly when every call keeps the ids. -/
theorem popLock_exact_iff (es : List (Event Tid Name)) :
    system.Along AlwaysExact es {} ↔ system.Along KeepsIds es {} := by
  refine System.along_iff_along (I := Consistent) (fun _ _ _ h hok hnext => h.next hok hnext) ?_ es
    consistent_start
  intro s e s' h hnext
  constructor
  · intro hexact
    exact h.keepsIds hnext (hexact s' hnext)
  · intro hok u hu
    exact h.exact hok hu

/-- The first name that was locked is unlocked under a name that was never locked. -/
theorem popLock_unknown :
    ¬∀ (s : State Unit ℕ) (e : Event Unit ℕ), system.Reachable System.anyStep s →
      AlwaysExact s e := by
  intro hall
  have hany : (system.run [.pushLock () 7] ({} : State Unit ℕ)).any (fun s => decide
      (s.names () = [7] ∧ s.lockStack () = [0] ∧ s.profiler.nameToId 8 = none ∧
        s.fault = none)) = true := by
    decide +kernel
  obtain ⟨s, hrun, hnames, hstack, hunknown, hfault⟩ := System.exists_of_run hany
  obtain ⟨p, hpop⟩ : ∃ p, s.profiler.popLock (s.lockStack ()) 8 = .ok (p, []) := by
    simp [popLock, hstack, hunknown]
  have hnext : s.next (.popLock () 8) = some (s.afterPop () p []) := by
    simp [State.next, State.afterPop, hfault, hpop]
  have hexact := hall s (.popLock () 8) (System.reachable_of_run rfl hrun) _ hnext
  have hlast := (hexact.accepts () 8 rfl).mp hfault
  rw [hnames] at hlast
  exact absurd hlast (by decide)

end DeadLockProfiler

end ServerCore
