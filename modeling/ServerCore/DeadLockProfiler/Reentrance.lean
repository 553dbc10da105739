import ServerCore.DeadLockProfiler.Soundness

/-!
# Re-entrance and false alarms

Threads that take their locks in one order, and otherwise only locks that they hold
already, cannot deadlock. `PushLock` leaves out the edge of a lock that is taken again
only if that lock is the innermost one. Every other lock that a thread holds has a path
to the innermost one, so the edge back from it closes a cycle, and `CheckCycle` reports
a deadlock where there is none.
-/

namespace ServerCore

namespace DeadLockProfiler

open Interleaving Reach Relation

variable {Tid Name : Type} [DecidableEq Name] [DecidableEq Tid]

/-- A thread takes a lock that it holds, or one greater than all that it holds. -/
def Ordered (lt : Name → Name → Prop) (s : State Tid Name) (e : Event Tid Name) : Prop :=
  ∀ t name, e = .pushLock t name → name ∈ s.names t ∨ ∀ held ∈ s.names t, lt held name

/-- There is room for one more name. -/
def HasRoom (s : State Tid Name) (_ : Event Tid Name) : Prop := s.profiler.nameCount + 1 < 2 ^ 31

/-- A lock that its thread holds is taken again only as the innermost one. -/
def Innermost (s : State Tid Name) (e : Event Tid Name) : Prop :=
  ∀ t name, e = .pushLock t name → name ∈ s.names t → (s.names t).head? = some name

/-- No call has reported a deadlock. -/
def NoAlarm (s : State Tid Name) : Prop := ∀ edges, s.fault ≠ some (.deadLock edges)

/-- Every edge goes up in the order of the names. -/
def Up (lt : Name → Name → Prop) (p : DeadLockProfiler Name) : Prop :=
  ∀ i j, Edge p.lockHistory i j →
    ∃ a b, p.nameToId a = some i ∧ p.nameToId b = some j ∧ lt a b

section PushLock

variable {lt : Name → Name → Prop} {p p' : DeadLockProfiler Name} {lockStack : List Int32}
  {name : Name}

omit [DecidableEq Name] in
theorem Up.grow (h : Up lt p) (hgrows : Grows p p')
    (hedges : ∀ i j, Edge p'.lockHistory i j → Edge p.lockHistory i j ∨
      ∃ a b, p'.nameToId a = some i ∧ p'.nameToId b = some j ∧ lt a b) : Up lt p' := by
  intro i j hij
  obtain hold | hnew := hedges i j hij
  · obtain ⟨a, b, ha, hb, hab⟩ := h i j hold
    exact ⟨a, b, hgrows.names a i ha, hgrows.names b j hb, hab⟩
  · exact hnew

/-- A push of the innermost name, or of a name above it, returns. -/
theorem pushLock_up [IsStrictOrder Name lt] (h : Sound p) (hup : Up lt p)
    (innermost : ∀ prev ∈ lockStack.head?, ∃ a, p.nameToId a = some prev ∧
      (a = name ∨ lt a name))
    (small : (p.register name).2.nameCount < 2 ^ 31) :
    ∃ p' stack', p.pushLock lockStack name = .ok (p', stack') ∧ Up lt p' := by
  have hgrows : Grows p (p.register name).2 := register_grows p name
  have hself := register_self p name
  have hsound := h.register name (by omega)
  have hhistory := register_lockHistory p name
  obtain ⟨id, q, hregister, ⟨hpush, -⟩ | ⟨prev, hprev, hne, hpush⟩⟩ :=
    pushLock_cases p lockStack name
  · rw [hregister] at hgrows hhistory
    refine ⟨q, _, hpush, hup.grow hgrows fun i j hij => ?_⟩
    rw [← hhistory]
    exact .inl hij
  · rw [hregister] at hgrows hself hsound hhistory small
    obtain ⟨a, ha, hlt⟩ := innermost prev hprev
    have hprevId := hgrows.names a prev ha
    have hlt : lt a name := by
      refine hlt.resolve_left fun heq => hne ?_
      subst heq
      exact Option.some.inj (hself.symm.trans hprevId)
    have hgrown : Up lt (q.addEdge prev id) := by
      refine hup.grow (hgrows.trans (grows_addEdge q prev id)) fun i j hij => ?_
      obtain hold | ⟨rfl, rfl⟩ := (edge_addEdge i j).mp hij
      · rw [← hhistory]
        exact .inl hold
      · exact .inr ⟨a, name, hprevId, hself, hlt⟩
    have hacyclic : Acyclic (Edge (q.addEdge prev id).lockHistory) :=
      acyclic_of_labels (fun i a b => hsound.distinct a b i) hgrown
    have hrecorded := Recorded.addEdge hsound hprevId hself hne small
    obtain ⟨⟨search, hcheck⟩, -⟩ | ⟨-, hcycle⟩ := checkCycle_spec small hrecorded
    · rw [hcheck] at hpush
      exact ⟨_, _, hpush, hgrown⟩
    · exact absurd hacyclic hcycle

end PushLock

section Steps

variable {lt : Name → Name → Prop} {s s' : State Tid Name}

/-- The state is sound, the edges go up, and nothing was reported. -/
structure State.Quiet (lt : Name → Name → Prop) (s : State Tid Name) : Prop where
  sound : s.Sound
  up : Up lt s.profiler
  returned : s.fault = none

omit [DecidableEq Name] [DecidableEq Tid] in
/-- The innermost name that a thread holds. -/
theorem State.Sound.head (h : s.Sound) (t : Tid) {prev : Int32}
    (hprev : prev ∈ (s.lockStack t).head?) :
    ∃ a, (s.names t).head? = some a ∧ s.profiler.nameToId a = some prev := by
  have hids := congrArg List.head? (h.threads t).ids
  rw [List.head?_map, List.head?_map, hprev] at hids
  exact Option.map_eq_some_iff.mp hids

/-- A step in the order returns, unless it takes a lock again that is not the innermost. -/
theorem State.Quiet.next [IsStrictOrder Name lt] (h : s.Quiet lt) {e : Event Tid Name}
    (lifo : Lifo s e) (ordered : Ordered lt s e) (room : HasRoom s e) (innermost : Innermost s e)
    (hnext : s.next e = some s') : s'.Quiet lt := by
  have hroom : s.profiler.nameCount + 1 < 2 ^ 31 := room
  have hpushes : ∀ t name, e = .pushLock t name → ∃ p stack,
      s.profiler.pushLock (s.lockStack t) name = .ok (p, stack) ∧ Up lt p := by
    intro t name heq
    have hcount := register_count s.profiler name
    refine pushLock_up h.sound.profiler h.up (fun prev hprev => ?_) (by omega)
    obtain ⟨a, hhead, ha⟩ := h.sound.head t hprev
    refine ⟨a, ha, ?_⟩
    obtain hheld | habove := ordered t name heq
    · have hname := innermost t name heq hheld
      exact .inl (Option.some.inj (hhead.symm.trans hname))
    · exact .inr (habove a (List.mem_of_mem_head? hhead))
  obtain ⟨-, ⟨t, name, fault, rfl, hpush, rfl⟩ | ⟨t, name, p, stack, rfl, hpush, rfl⟩ |
    ⟨t, name, fault, rfl, hpop, rfl⟩ | ⟨t, name, p, stack, rfl, hpop, rfl⟩⟩ := next_cases hnext
  · obtain ⟨p, stack, hok, -⟩ := hpushes t name rfl
    rw [hpush] at hok
    cases hok
  · obtain ⟨p', stack', hok, hup⟩ := hpushes t name rfl
    rw [hpush] at hok
    cases hok
    have hcount := register_count s.profiler name
    obtain ⟨-, -, -, hnames, -⟩ := pushLock_ok hpush
    exact ⟨h.sound.push hpush (by omega), hup, h.returned⟩
  · rw [popLock_eq (h.sound.threads t).ids (lifo t name rfl)] at hpop
    cases hpop
  · rw [popLock_eq (h.sound.threads t).ids (lifo t name rfl)] at hpop
    cases hpop
    exact ⟨h.sound.pop t, h.up, h.returned⟩

omit [DecidableEq Tid] in
/-- A lock that is taken again below the innermost one closes a cycle. -/
theorem State.Sound.innermost (h : s.Sound) {t : Tid} {name : Name} (hheld : name ∈ s.names t)
    {p : DeadLockProfiler Name} {stack : List Int32}
    (hpush : s.profiler.pushLock (s.lockStack t) name = .ok (p, stack))
    (few : p.nameCount < 2 ^ 32) : (s.names t).head? = some name := by
  obtain ⟨hsound, hgrows, id, hid, rfl, hlink⟩ :=
    pushLock_spec h.profiler (h.threads t).known hpush few
  obtain ⟨i, hi, hname⟩ := exists_id_of_mem (h.threads t).ids hheld
  cases (hgrows.names name i hname).symm.trans hid
  cases hstack : s.lockStack t with
  | nil =>
      rw [hstack] at hi
      cases hi
  | cons top rest =>
      have htop : top ∈ (s.lockStack t).head? := by
        rw [hstack]
        rfl
      obtain ⟨a, hhead, ha⟩ := h.head t htop
      obtain rfl | hedge := hlink top htop
      · rw [hhead, h.profiler.distinct a name top ha hname]
      · have hfollows := (h.threads t).grow hgrows
        rw [hstack] at hfollows hi
        obtain rfl | hrest := List.mem_cons.mp hi
        · exact absurd (.single hedge) (hsound.acyclic id)
        · exact absurd (TransGen.tail' (hfollows.path hrest) hedge) (hsound.acyclic id)

/-- A step that reports nothing takes no lock again but the innermost one. -/
theorem State.Quiet.innermost (h : s.Quiet lt) {e : Event Tid Name} (room : HasRoom s e)
    (hnext : s.next e = some s') (quiet : NoAlarm s') : Innermost s e := by
  rintro t name rfl hheld
  have hroom : s.profiler.nameCount + 1 < 2 ^ 31 := room
  have hcount := register_count s.profiler name
  obtain ⟨-, ⟨u, x, fault, heq, hpush, rfl⟩ | ⟨u, x, p, stack, heq, hpush, rfl⟩ |
    ⟨u, x, fault, heq, -, -⟩ | ⟨u, x, p, stack, heq, -, -⟩⟩ := next_cases hnext
  · cases heq
    obtain ⟨edges, rfl⟩ :=
      pushLock_error h.sound.profiler (h.sound.threads t).known hpush (by omega)
    exact absurd rfl (quiet edges)
  · cases heq
    obtain ⟨-, -, -, hnames, -⟩ := pushLock_ok hpush
    exact h.sound.innermost hheld hpush (by omega)
  · cases heq
  · cases heq

end Steps

section Runs

/-- In a run in one order, no deadlock is reported while the number of names fits and
every lock that is taken again is the innermost one; and while the number fits, every
other lock that is taken again is reported. -/
theorem noAlarm_exact (lt : Name → Name → Prop) [IsStrictOrder Name lt] (es : List (Event Tid Name))
    (ordered : system.Along (fun s e => Lifo s e ∧ Ordered lt s e) es ({} : State Tid Name)) :
    (system.Along (fun s e => HasRoom s e ∧ Innermost s e) es ({} : State Tid Name) →
      system.Throughout NoAlarm es ({} : State Tid Name)) ∧
    (system.Throughout NoAlarm es ({} : State Tid Name) →
      system.Along HasRoom es ({} : State Tid Name) →
        system.Along Innermost es ({} : State Tid Name)) := by
  have hstart : ({} : State Tid Name).Quiet lt := by
    refine ⟨sound_start, fun i j hij => ?_, rfl⟩
    cases hij
  have hiff (few : system.Along HasRoom es ({} : State Tid Name)) :
      system.Throughout NoAlarm es ({} : State Tid Name) ↔
        system.Along Innermost es ({} : State Tid Name) := by
    refine System.throughout_iff_along_within (fun s hs edges => ?_) ?_ ?_ es (ordered.and few)
      hstart
    · rw [hs.returned]
      exact nofun
    · rintro s e s' hs ⟨⟨lifo, ordered⟩, room⟩ innermost hnext
      exact hs.next lifo ordered room innermost hnext
    · rintro s e s' hs ⟨-, room⟩ hnext quiet
      exact hs.innermost room hnext quiet
  refine ⟨fun hall => ?_, fun quiet few => (hiff few).mp quiet⟩
  exact (hiff (hall.mono fun _ _ => And.left)).mpr (hall.mono fun _ _ => And.right)

/-- A thread takes a lock twice, and then one above it. -/
def twiceEvents : List (Event Unit ℕ) :=
  [.pushLock () 0, .pushLock () 0, .pushLock () 1, .popLock () 1, .popLock () 0]

/-- A thread takes a lock, one above it, and the first one again. -/
def reentrantEvents : List (Event Unit ℕ) := [.pushLock () 0, .pushLock () 1, .pushLock () 0]

instance (s : State Tid ℕ) (e : Event Tid ℕ) : Decidable (Ordered (· < ·) s e) :=
  match e with
  | .pushLock t name =>
      decidable_of_iff (name ∈ s.names t ∨ ∀ held ∈ s.names t, held < name)
        ⟨fun h _ _ heq => by cases heq; exact h, fun h => h t name rfl⟩
  | .popLock _ _ => .isTrue fun _ _ heq => nomatch heq

theorem noAlarm_exact_twice :
    (system.Along (fun s e => HasRoom s e ∧ Innermost s e) twiceEvents ({} : State Unit ℕ) →
      system.Throughout NoAlarm twiceEvents ({} : State Unit ℕ)) ∧
    (system.Throughout NoAlarm twiceEvents ({} : State Unit ℕ) →
      system.Along HasRoom twiceEvents ({} : State Unit ℕ) →
        system.Along Innermost twiceEvents ({} : State Unit ℕ)) :=
  noAlarm_exact (· < ·) twiceEvents (System.along_of_check (by decide +kernel))

/-- One thread cannot deadlock, but it is reported. -/
theorem noAlarm_reentrant :
    ¬∀ es : List (Event Unit ℕ),
      system.Along (fun s e => Lifo s e ∧ Ordered (· < ·) s e) es ({} : State Unit ℕ) →
        system.Throughout NoAlarm es ({} : State Unit ℕ) := by
  intro hall
  have hquiet := hall reentrantEvents (System.along_of_check (by decide +kernel))
  have halarm : (system.run reentrantEvents ({} : State Unit ℕ)).any
      (fun s => decide (s.fault = some (.deadLock [(1, 0), (0, 1)]))) = true := by
    decide +kernel
  obtain ⟨s, hrun, hfault⟩ := System.exists_of_run halarm
  exact absurd hfault (hquiet.of_run hrun _)

end Runs

end DeadLockProfiler

end ServerCore
