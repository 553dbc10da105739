import ServerCore.DeadLockProfiler.Search

/-!
# The held-while-acquiring relation has no cycle

`PushLock` records only the edge from the innermost held lock. Neighbours in a thread's
stack are equal or joined by an edge, since edges are never removed; so whatever a
thread holds when it takes a lock has a path to it. A call that enters an edge returns
only if `CheckCycle` finds no cycle (`checkCycle_spec`), and the other calls leave the
edges as they are.

Lock ids are `int32` and `CheckCycle` takes the number of names as an `int32`. With 2^31
names or more its vectors cannot be made, and with 2^32 names it searches nothing
(`lockOrder_cyclic`).
-/

namespace ServerCore

namespace DeadLockProfiler

open Interleaving Reach Relation

variable {Tid Name : Type} [DecidableEq Name] [DecidableEq Tid]

/-- A thread releases the lock that it took last. -/
def Lifo (s : State Tid Name) (e : Event Tid Name) : Prop :=
  ∀ t name, e = .popLock t name → (s.names t).head? = some name

instance (s : State Tid Name) (e : Event Tid Name) : Decidable (Lifo s e) :=
  match e with
  | .pushLock _ _ => .isTrue fun _ _ heq => nomatch heq
  | .popLock t name =>
      decidable_of_iff ((s.names t).head? = some name) ⟨fun h _ _ heq => by cases heq; exact h,
        fun h => h t name rfl⟩

/-- A thread took `y` while it held `x`. -/
def State.Acquired (s : State Tid Name) (x y : Name) : Prop := x ≠ y ∧ (x, y) ∈ s.held

/-- Names have their own ids, and the recorded edges have no cycle. -/
structure Sound (p : DeadLockProfiler Name) : Prop where
  numbered : ∀ name id, p.nameToId name = some id →
    ∃ k, k < p.nameCount ∧ id = Int32.ofNat k
  distinct : ∀ a b id, p.nameToId a = some id → p.nameToId b = some id → a = b
  recorded : Recorded p.lockHistory p.nameCount
  acyclic : Acyclic (Edge p.lockHistory)

/-- The later profiler has the names and the edges of the earlier one. -/
structure Grows (p p' : DeadLockProfiler Name) : Prop where
  count : p.nameCount ≤ p'.nameCount
  names : ∀ name id, p.nameToId name = some id → p'.nameToId name = some id
  edges : ∀ u v, Edge p.lockHistory u v → Edge p'.lockHistory u v

omit [DecidableEq Name] in
theorem Grows.refl (p : DeadLockProfiler Name) : Grows p p :=
  ⟨le_refl _, fun _ _ h => h, fun _ _ h => h⟩

omit [DecidableEq Name] in
theorem Grows.trans {p p' q : DeadLockProfiler Name} (h : Grows p q) (h' : Grows q p') :
    Grows p p' where
  count := h.count.trans h'.count
  names name id hid := h'.names name id (h.names name id hid)
  edges u v huv := h'.edges u v (h.edges u v huv)

omit [DecidableEq Name] in
theorem Recorded.mono {lockHistory : Int32 → Option (List Int32)} {n m : ℕ}
    (h : Recorded lockHistory n) (hnm : n ≤ m) : Recorded lockHistory m := by
  refine ⟨fun u v huv => ?_, fun u v huv => ?_, h.irrefl⟩
  · have := h.source u v huv
    omega
  · have := h.target u v huv
    omega

section Register

variable (p : DeadLockProfiler Name) (name : Name)

/-- A name is entered with the number of names before it. -/
theorem register_grows : Grows p (p.register name).2 := by
  unfold register
  cases hname : p.nameToId name with
  | some id => exact .refl p
  | none =>
      refine ⟨Nat.le_succ _, fun a i ha => ?_, fun _ _ h => h⟩
      have hne : a ≠ name := by
        rintro rfl
        rw [hname] at ha
        cases ha
      change Function.update p.nameToId name _ a = some i
      rwa [Function.update_of_ne hne]

theorem register_self : (p.register name).2.nameToId name = some (p.register name).1 := by
  unfold register
  cases hname : p.nameToId name with
  | some id => exact hname
  | none => exact Function.update_self ..

theorem register_count : (p.register name).2.nameCount ≤ p.nameCount + 1 := by
  unfold register
  cases p.nameToId name with
  | some id => exact Nat.le_succ _
  | none => exact le_refl _

theorem register_lockHistory : (p.register name).2.lockHistory = p.lockHistory := by
  unfold register
  split <;> rfl

variable {p} in
theorem Sound.register (h : Sound p) (few : (p.register name).2.nameCount < 2 ^ 32) :
    Sound (p.register name).2 := by
  unfold DeadLockProfiler.register at few ⊢
  cases hname : p.nameToId name with
  | some id => exact h
  | none =>
      rw [hname] at few
      change p.nameCount + 1 < 2 ^ 32 at few
      have hnew : ∀ a i, Function.update p.nameToId name (some (Int32.ofNat p.nameCount)) a =
          some i → (a = name ∧ i = Int32.ofNat p.nameCount) ∨
            (a ≠ name ∧ p.nameToId a = some i) := by
        intro a i ha
        by_cases heq : a = name
        · subst heq
          rw [Function.update_self] at ha
          exact .inl ⟨rfl, (Option.some.inj ha).symm⟩
        · rw [Function.update_of_ne heq] at ha
          exact .inr ⟨heq, ha⟩
      have hfresh : ∀ a, p.nameToId a ≠ some (Int32.ofNat p.nameCount) := by
        intro a ha
        obtain ⟨k, hk, heq⟩ := h.numbered a _ ha
        have := Word.ofNat_inj (by omega) (by omega) heq
        omega
      refine ⟨fun a i ha => ?_, fun a b i ha hb => ?_, h.recorded.mono (Nat.le_succ _), h.acyclic⟩
      · obtain ⟨-, rfl⟩ | ⟨-, ha⟩ := hnew a i ha
        · exact ⟨p.nameCount, Nat.lt_succ_self _, rfl⟩
        · obtain ⟨k, hk, rfl⟩ := h.numbered a i ha
          exact ⟨k, Nat.lt_succ_of_lt hk, rfl⟩
      · obtain ⟨rfl, rfl⟩ | ⟨-, ha⟩ := hnew a i ha
        · obtain ⟨rfl, -⟩ | ⟨-, hb⟩ := hnew b _ hb
          · rfl
          · exact absurd hb (hfresh b)
        · obtain ⟨-, rfl⟩ | ⟨-, hb⟩ := hnew b i hb
          · exact absurd ha (hfresh a)
          · exact h.distinct a b i ha hb

end Register

section AddEdge

variable {p : DeadLockProfiler Name} {prevLockId currentLockId : Int32}

omit [DecidableEq Name] in
theorem edge_addEdge (u v : Int32) :
    Edge (p.addEdge prevLockId currentLockId).lockHistory u v ↔
      Edge p.lockHistory u v ∨ (u = prevLockId ∧ v = currentLockId) := by
  unfold Edge addEdge history
  by_cases hu : u = prevLockId
  · subst hu
    simp [or_comm]
  · simp [hu]

omit [DecidableEq Name] in
theorem grows_addEdge (p : DeadLockProfiler Name) (prevLockId currentLockId : Int32) :
    Grows p (p.addEdge prevLockId currentLockId) :=
  ⟨le_refl _, fun _ _ h => h, fun u v h => (edge_addEdge u v).mpr (.inl h)⟩

omit [DecidableEq Name] in
/-- An edge is entered between the ids of two names. -/
theorem Recorded.addEdge {prev name : Name} (h : Sound p)
    (hprev : p.nameToId prev = some prevLockId) (hname : p.nameToId name = some currentLockId)
    (hne : currentLockId ≠ prevLockId) (small : p.nameCount < 2 ^ 31) :
    Recorded (p.addEdge prevLockId currentLockId).lockHistory p.nameCount := by
  have hrange : ∀ a i, p.nameToId a = some i → 0 ≤ i.toInt ∧ i.toInt < p.nameCount := by
    intro a i ha
    obtain ⟨k, hk, rfl⟩ := h.numbered a i ha
    rw [Int32.toInt_ofNat_of_lt (by omega)]
    omega
  constructor
  · intro u v huv
    obtain huv | ⟨rfl, -⟩ := (edge_addEdge u v).mp huv
    · exact h.recorded.source u v huv
    · exact hrange prev u hprev
  · intro u v huv
    obtain huv | ⟨-, rfl⟩ := (edge_addEdge u v).mp huv
    · exact h.recorded.target u v huv
    · exact hrange name v hname
  · intro u huu
    obtain huu | ⟨rfl, heq⟩ := (edge_addEdge u u).mp huu
    · exact h.recorded.irrefl u huu
    · exact hne heq.symm

end AddEdge

omit [DecidableEq Name] in
/-- `CheckCycle` does not return when the number of names is negative as an `int32`. -/
theorem checkCycle_small {lockHistory : Int32 → Option (List Int32)} {n : ℕ} {search : Search}
    (hok : checkCycle lockHistory n = .ok search) (few : n < 2 ^ 32) : n < 2 ^ 31 := by
  by_contra hlarge
  have hnegative : Int32.ofNat n < 0 := by
    have hsize : Int32.size = 4294967296 := rfl
    have hzero : (0 : Int32).toInt = 0 := rfl
    rw [Int32.lt_iff_toInt_lt, Int32.toInt_ofNat', hsize, hzero]
    simp only [Int.bmod]
    omega
  rw [checkCycle, if_pos hnegative] at hok
  cases hok

section PushLock

variable {p p' : DeadLockProfiler Name} {lockStack lockStack' : List Int32} {name : Name}

/-- `PushLock` enters no edge and returns, or it enters the edge from the innermost lock
and returns if `CheckCycle` does. -/
theorem pushLock_cases (p : DeadLockProfiler Name) (lockStack : List Int32) (name : Name) :
    ∃ id q, p.register name = (id, q) ∧
      ((p.pushLock lockStack name = .ok (q, id :: lockStack) ∧
          ∀ prev ∈ lockStack.head?, prev = id ∨ Edge q.lockHistory prev id) ∨
        ∃ prev ∈ lockStack.head?, id ≠ prev ∧
          p.pushLock lockStack name =
            (checkCycle (q.addEdge prev id).lockHistory q.nameCount).map
              fun search => ({ q.addEdge prev id with search }, id :: lockStack)) := by
  cases hregister : p.register name with
  | mk id q =>
      refine ⟨id, q, rfl, ?_⟩
      rw [pushLock, hregister]
      cases lockStack with
      | nil => exact .inl ⟨rfl, nofun⟩
      | cons prev rest =>
          simp only
          split
          case isTrue hnew => exact .inr ⟨prev, rfl, hnew.1, rfl⟩
          case isFalse hold =>
            refine .inl ⟨rfl, ?_⟩
            rintro _ ⟨⟩
            by_cases hne : id = prev
            · exact .inl hne.symm
            · exact .inr (not_not.mp fun hnew => hold ⟨hne, hnew⟩)

/-- A call of `PushLock` that returns has entered no edge, or one that closes no cycle. -/
theorem pushLock_returned (hok : p.pushLock lockStack name = .ok (p', lockStack')) :
    ∃ id q, p.register name = (id, q) ∧ lockStack' = id :: lockStack ∧
      ((p' = q ∧ ∀ prev ∈ lockStack.head?, prev = id ∨ Edge q.lockHistory prev id) ∨
        ∃ prev ∈ lockStack.head?, id ≠ prev ∧ ∃ search,
          checkCycle (q.addEdge prev id).lockHistory q.nameCount = .ok search ∧
            p' = { q.addEdge prev id with search }) := by
  obtain ⟨id, q, hregister, ⟨hpush, hlink⟩ | ⟨prev, hprev, hne, hpush⟩⟩ :=
    pushLock_cases p lockStack name
  · rw [hpush] at hok
    cases hok
    exact ⟨id, _, hregister, rfl, .inl ⟨rfl, hlink⟩⟩
  · rw [hpush] at hok
    cases hcheck : checkCycle (q.addEdge prev id).lockHistory q.nameCount with
    | error fault =>
        rw [hcheck] at hok
        cases hok
    | ok search =>
        rw [hcheck] at hok
        cases hok
        exact ⟨id, q, hregister, rfl, .inr ⟨prev, hprev, hne, search, hcheck, rfl⟩⟩

/-- What a call of `PushLock` that returns does. -/
theorem pushLock_spec (h : Sound p)
    (known : ∀ prev ∈ lockStack.head?, ∃ a, p.nameToId a = some prev)
    (hok : p.pushLock lockStack name = .ok (p', lockStack')) (few : p'.nameCount < 2 ^ 32) :
    Sound p' ∧ Grows p p' ∧ ∃ id, p'.nameToId name = some id ∧ lockStack' = id :: lockStack ∧
      ∀ prev ∈ lockStack.head?, prev = id ∨ Edge p'.lockHistory prev id := by
  have hgrows : Grows p (p.register name).2 := register_grows p name
  have hself := register_self p name
  have hsound := h.register name
  obtain ⟨id, q, hregister, rfl, ⟨rfl, hlink⟩ | ⟨prev, hprev, hne, search, hcheck, rfl⟩⟩ :=
    pushLock_returned hok
  · rw [hregister] at hgrows hself hsound
    exact ⟨hsound few, hgrows, id, hself, rfl, hlink⟩
  · rw [hregister] at hgrows hself hsound
    have hsound' := hsound few
    have hsmall : q.nameCount < 2 ^ 31 := checkCycle_small hcheck few
    obtain ⟨a, ha⟩ := known prev hprev
    have hrecorded := Recorded.addEdge hsound' (hgrows.names a prev ha) hself hne hsmall
    obtain ⟨-, hacyclic⟩ | ⟨⟨edges, hcycle⟩, -⟩ := checkCycle_spec hsmall hrecorded
    · have hedges := hgrows.trans (grows_addEdge q prev id)
      refine ⟨⟨hsound'.numbered, hsound'.distinct, hrecorded, hacyclic⟩,
        ⟨hedges.count, hedges.names, hedges.edges⟩, id, hself, rfl, fun i hi => ?_⟩
      cases Option.mem_unique hi hprev
      exact .inr ((edge_addEdge prev id).mpr (.inr ⟨rfl, rfl⟩))
    · rw [hcheck] at hcycle
      cases hcycle

/-- `PushLock` crashes on a cycle only. -/
theorem pushLock_error {fault : ProfilerFault} (h : Sound p)
    (known : ∀ prev ∈ lockStack.head?, ∃ a, p.nameToId a = some prev)
    (herror : p.pushLock lockStack name = .error fault)
    (small : (p.register name).2.nameCount < 2 ^ 31) : ∃ edges, fault = .deadLock edges := by
  have hgrows : Grows p (p.register name).2 := register_grows p name
  have hself := register_self p name
  have hsound := h.register name (by omega)
  obtain ⟨id, q, hregister, ⟨hpush, -⟩ | ⟨prev, hprev, hne, hpush⟩⟩ :=
    pushLock_cases p lockStack name
  · rw [hpush] at herror
    cases herror
  · rw [hregister] at hgrows hself hsound small
    rw [hpush] at herror
    obtain ⟨a, ha⟩ := known prev hprev
    have hrecorded := Recorded.addEdge hsound (hgrows.names a prev ha) hself hne small
    obtain ⟨⟨search, hcheck⟩, -⟩ | ⟨⟨edges, hcheck⟩, -⟩ := checkCycle_spec small hrecorded
    · rw [hcheck] at herror
      cases herror
    · rw [hcheck] at herror
      cases herror
      exact ⟨edges, rfl⟩

/-- What a call of `PushLock` that returns changes. -/
theorem pushLock_ok (hok : p.pushLock lockStack name = .ok (p', lockStack')) :
    lockStack' = (p.register name).1 :: lockStack ∧
      p'.nameToId = (p.register name).2.nameToId ∧ p'.idToName = (p.register name).2.idToName ∧
      p'.nameCount = (p.register name).2.nameCount ∧
      ∀ u v, Edge p'.lockHistory u v → Edge p.lockHistory u v ∨ v = (p.register name).1 := by
  have hhistory := register_lockHistory p name
  obtain ⟨id, q, hregister, rfl, ⟨rfl, -⟩ | ⟨prev, -, -, search, -, rfl⟩⟩ := pushLock_returned hok
  · rw [hregister] at hhistory ⊢
    refine ⟨rfl, rfl, rfl, rfl, fun u v huv => ?_⟩
    rw [← hhistory]
    exact .inl huv
  · rw [hregister] at hhistory ⊢
    refine ⟨rfl, rfl, rfl, rfl, fun u v huv => ?_⟩
    rw [← hhistory]
    exact ((edge_addEdge u v).mp huv).imp_right And.right

theorem pushLock_count (hok : p.pushLock lockStack name = .ok (p', lockStack')) :
    p.nameCount ≤ p'.nameCount := by
  obtain ⟨-, -, -, hcount, -⟩ := pushLock_ok hok
  rw [hcount]
  exact (register_grows p name).count

end PushLock

theorem popLock_count {p p' : DeadLockProfiler Name} {lockStack lockStack' : List Int32}
    {name : Name} (hok : p.popLock lockStack name = .ok (p', lockStack')) :
    p.nameCount ≤ p'.nameCount := by
  unfold popLock at hok
  cases lockStack with
  | nil => cases hok
  | cons top rest =>
      cases hname : p.nameToId name with
      | some id =>
          simp only [hname] at hok
          split at hok <;> cases hok
          exact le_refl _
      | none =>
          simp only [hname] at hok
          split at hok <;> cases hok
          exact Nat.le_succ _

section Ids

variable {p p' : DeadLockProfiler Name} {names : List Name} {lockStack : List Int32}

omit [DecidableEq Name] in
/-- What a thread holds is registered, with an id on the thread's stack. -/
theorem exists_id_of_mem (ids : names.map p.nameToId = lockStack.map some) {name : Name}
    (hname : name ∈ names) : ∃ id ∈ lockStack, p.nameToId name = some id := by
  have hmem : p.nameToId name ∈ lockStack.map some := ids ▸ List.mem_map_of_mem hname
  obtain ⟨id, hid, heq⟩ := List.mem_map.mp hmem
  exact ⟨id, hid, heq.symm⟩

omit [DecidableEq Name] in
/-- Every id on a thread's stack is the id of a name that the thread holds. -/
theorem exists_name_of_mem (ids : names.map p.nameToId = lockStack.map some) {id : Int32}
    (hid : id ∈ lockStack) : ∃ name ∈ names, p.nameToId name = some id := by
  have hmem : some id ∈ names.map p.nameToId := by
    rw [ids]
    exact List.mem_map_of_mem hid
  exact List.mem_map.mp hmem

omit [DecidableEq Name] in
/-- The ids of the names on a stack stay as they are. -/
theorem Grows.ids (hgrows : Grows p p') (ids : names.map p.nameToId = lockStack.map some) :
    names.map p'.nameToId = lockStack.map some := by
  rw [← ids]
  apply List.map_congr_left
  intro name hname
  obtain ⟨id, -, hid⟩ := exists_id_of_mem ids hname
  rw [hid, hgrows.names name id hid]

end Ids

/-- A thread's stack holds the ids of its names, and neighbours are equal or joined by
an edge. -/
structure Follows (p : DeadLockProfiler Name) (names : List Name) (lockStack : List Int32) :
    Prop where
  ids : names.map p.nameToId = lockStack.map some
  linked : lockStack.IsChain fun id prev => prev = id ∨ Edge p.lockHistory prev id

namespace Follows

variable {p p' : DeadLockProfiler Name} {names : List Name} {lockStack : List Int32}

omit [DecidableEq Name] in
theorem known (h : Follows p names lockStack) :
    ∀ prev ∈ lockStack.head?, ∃ a, p.nameToId a = some prev := by
  intro prev hprev
  obtain ⟨a, -, ha⟩ := exists_name_of_mem h.ids (List.mem_of_mem_head? hprev)
  exact ⟨a, ha⟩

omit [DecidableEq Name] in
theorem grow (h : Follows p names lockStack) (hgrows : Grows p p') :
    Follows p' names lockStack := by
  refine ⟨hgrows.ids h.ids, h.linked.imp ?_⟩
  intro id prev hlink
  exact hlink.imp_right (hgrows.edges prev id)

omit [DecidableEq Name] in
theorem push (h : Follows p names lockStack) {name : Name} {id : Int32}
    (hid : p.nameToId name = some id)
    (hlink : ∀ prev ∈ lockStack.head?, prev = id ∨ Edge p.lockHistory prev id) :
    Follows p (name :: names) (id :: lockStack) := by
  refine ⟨?_, h.linked.cons hlink⟩
  rw [List.map_cons, List.map_cons, hid, h.ids]

omit [DecidableEq Name] in
theorem pop (h : Follows p names lockStack) : Follows p names.tail lockStack.tail := by
  refine ⟨?_, h.linked.tail⟩
  rw [List.map_tail, List.map_tail, h.ids]

omit [DecidableEq Name] in
/-- Every lock below the top has a path to it. -/
theorem path {id i : Int32} (h : Follows p names (id :: lockStack)) (hi : i ∈ lockStack) :
    ReflTransGen (Edge p.lockHistory) i id := by
  have hlinked := h.linked
  clear h
  induction lockStack generalizing id with
  | nil => cases hi
  | cons top rest ih =>
      obtain ⟨hlink, hrest⟩ := List.isChain_cons_cons.mp hlinked
      have htop : ReflTransGen (Edge p.lockHistory) top id := by
        obtain rfl | hedge := hlink
        · exact .refl
        · exact .single hedge
      obtain rfl | hi := List.mem_cons.mp hi
      · exact htop
      · exact (ih hi hrest).trans htop

end Follows

/-- `PopLock` of the name that was taken last returns. -/
theorem popLock_eq {p : DeadLockProfiler Name} {names : List Name} {lockStack : List Int32}
    {name : Name} (ids : names.map p.nameToId = lockStack.map some)
    (last : names.head? = some name) : p.popLock lockStack name = .ok (p, lockStack.tail) := by
  obtain ⟨rest, rfl⟩ : ∃ rest, names = name :: rest := ⟨_, List.eq_cons_of_mem_head? last⟩
  cases lockStack with
  | nil => exact absurd ids (by simp)
  | cons top stack =>
      rw [List.map_cons, List.map_cons, List.cons.injEq] at ids
      simp [popLock, ids.1]

/-- The profiler is sound, every thread's stack follows its edges, and whoever held a
lock while it took another left a path. -/
structure State.Sound (s : State Tid Name) : Prop where
  profiler : DeadLockProfiler.Sound s.profiler
  threads : ∀ t, Follows s.profiler (s.names t) (s.lockStack t)
  paths : ∀ x y, (x, y) ∈ s.held → ∃ i j, s.profiler.nameToId x = some i ∧
    s.profiler.nameToId y = some j ∧ ReflTransGen (Edge s.profiler.lockHistory) i j

omit [DecidableEq Name] [DecidableEq Tid] in
theorem sound_start : (({} : State Tid Name)).Sound := by
  refine ⟨⟨?_, ?_, ⟨?_, ?_, ?_⟩, ?_⟩, fun t => ⟨rfl, .nil⟩, ?_⟩
  · intro name id hid
    cases hid
  · intro a b id ha
    cases ha
  · intro u v huv
    cases huv
  · intro u v huv
    cases huv
  · intro u huu
    cases huu
  · intro u hcycle
    obtain ⟨v, hedge, -⟩ := TransGen.head'_iff.mp hcycle
    cases hedge
  · intro x y hxy
    cases hxy

section Steps

/-- The state after a call of `PushLock` that returned. -/
def State.afterPush (s : State Tid Name) (t : Tid) (name : Name) (profiler : DeadLockProfiler Name)
    (stack : List Int32) : State Tid Name :=
  { s with
    profiler
    lockStack := Function.update s.lockStack t stack
    names := Function.update s.names t (name :: s.names t)
    held := s.held ++ (s.names t).map (·, name) }

/-- The state after a call of `PopLock` that returned. -/
def State.afterPop (s : State Tid Name) (t : Tid) (profiler : DeadLockProfiler Name)
    (stack : List Int32) : State Tid Name :=
  { s with
    profiler
    lockStack := Function.update s.lockStack t stack
    names := Function.update s.names t (s.names t).tail }

variable {s s' : State Tid Name} {e : Event Tid Name}

theorem fault_of_next (hnext : s.next e = some s') : s.fault = none := by
  by_contra hfault
  unfold State.next at hnext
  rw [if_pos (Option.ne_none_iff_isSome.mp hfault)] at hnext
  cases hnext

/-- A call faults, and nothing else changes, or it returns. -/
theorem next_cases (hnext : s.next e = some s') :
    s.fault = none ∧
      ((∃ t name fault, e = .pushLock t name ∧
          s.profiler.pushLock (s.lockStack t) name = .error fault ∧
          s' = { s with fault := some fault }) ∨
        (∃ t name p stack, e = .pushLock t name ∧
          s.profiler.pushLock (s.lockStack t) name = .ok (p, stack) ∧
          s' = s.afterPush t name p stack) ∨
        (∃ t name fault, e = .popLock t name ∧
          s.profiler.popLock (s.lockStack t) name = .error fault ∧
          s' = { s with fault := some fault }) ∨
        ∃ t name p stack, e = .popLock t name ∧
          s.profiler.popLock (s.lockStack t) name = .ok (p, stack) ∧
          s' = s.afterPop t p stack) := by
  refine ⟨fault_of_next hnext, ?_⟩
  unfold State.next at hnext
  split at hnext
  · cases hnext
  · cases e with
    | pushLock t name =>
        simp only at hnext
        cases hpush : s.profiler.pushLock (s.lockStack t) name with
        | error fault =>
            rw [hpush] at hnext
            cases hnext
            exact .inl ⟨t, name, fault, rfl, hpush, rfl⟩
        | ok result =>
            rw [hpush] at hnext
            cases hnext
            exact .inr (.inl ⟨t, name, _, _, rfl, hpush, rfl⟩)
    | popLock t name =>
        simp only at hnext
        cases hpop : s.profiler.popLock (s.lockStack t) name with
        | error fault =>
            rw [hpop] at hnext
            cases hnext
            exact .inr (.inr (.inl ⟨t, name, fault, rfl, hpop, rfl⟩))
        | ok result =>
            rw [hpop] at hnext
            cases hnext
            exact .inr (.inr (.inr ⟨t, name, _, _, rfl, hpop, rfl⟩))

/-- The number of names only grows. -/
theorem nameCount_mono (hnext : s.next e = some s') :
    s.profiler.nameCount ≤ s'.profiler.nameCount := by
  obtain ⟨-, ⟨t, name, fault, rfl, -, rfl⟩ | ⟨t, name, p, stack, rfl, hpush, rfl⟩ |
    ⟨t, name, fault, rfl, -, rfl⟩ | ⟨t, name, p, stack, rfl, hpop, rfl⟩⟩ := next_cases hnext
  · exact le_refl _
  · exact pushLock_count hpush
  · exact le_refl _
  · exact popLock_count hpop

/-- A call of `PushLock` that returns keeps the state sound. -/
theorem State.Sound.push {t : Tid} {name : Name} {p : DeadLockProfiler Name} {stack : List Int32}
    (h : s.Sound) (hpush : s.profiler.pushLock (s.lockStack t) name = .ok (p, stack))
    (few : p.nameCount < 2 ^ 32) : (s.afterPush t name p stack).Sound := by
  obtain ⟨hsound, hgrows, id, hid, rfl, hlink⟩ :=
    pushLock_spec h.profiler (h.threads t).known hpush few
  have hpushed := ((h.threads t).grow hgrows).push hid hlink
  refine ⟨hsound, fun u => ?_, fun x y hxy => ?_⟩
  · change Follows p (Function.update s.names t _ u) (Function.update s.lockStack t _ u)
    obtain rfl | hu := eq_or_ne u t
    · rw [Function.update_self, Function.update_self]
      exact hpushed
    · rw [Function.update_of_ne hu, Function.update_of_ne hu]
      exact (h.threads u).grow hgrows
  · obtain hold | hnew := List.mem_append.mp hxy
    · obtain ⟨i, j, hi, hj, hpath⟩ := h.paths x y hold
      exact ⟨i, j, hgrows.names x i hi, hgrows.names y j hj,
        ReflTransGen.mono hgrows.edges i j hpath⟩
    · obtain ⟨a, ha, heq⟩ := List.mem_map.mp hnew
      cases heq
      obtain ⟨i, hi, hix⟩ := exists_id_of_mem (hgrows.ids (h.threads t).ids) ha
      exact ⟨i, id, hix, hid, hpushed.path hi⟩

omit [DecidableEq Name] in
/-- A call of `PopLock` takes the top off both stacks of its thread. -/
theorem State.Sound.pop (h : s.Sound) (t : Tid) :
    (s.afterPop t s.profiler (s.lockStack t).tail).Sound := by
  refine ⟨h.profiler, fun u => ?_, h.paths⟩
  change Follows s.profiler (Function.update s.names t _ u) (Function.update s.lockStack t _ u)
  obtain rfl | hu := eq_or_ne u t
  · rw [Function.update_self, Function.update_self]
    exact (h.threads u).pop
  · rw [Function.update_of_ne hu, Function.update_of_ne hu]
    exact h.threads u

/-- A call that returns keeps the state sound. -/
theorem State.Sound.step (h : s.Sound) (lifo : Lifo s e) (hnext : s.next e = some s')
    (returned : s'.fault = none) (few : s'.profiler.nameCount < 2 ^ 32) : s'.Sound := by
  obtain ⟨-, ⟨t, name, fault, rfl, -, rfl⟩ | ⟨t, name, p, stack, rfl, hpush, rfl⟩ |
    ⟨t, name, fault, rfl, -, rfl⟩ | ⟨t, name, p, stack, rfl, hpop, rfl⟩⟩ := next_cases hnext
  · cases returned
  · exact h.push hpush few
  · cases returned
  · rw [popLock_eq (h.threads t).ids (lifo t name rfl)] at hpop
    cases hpop
    exact h.pop t

end Steps

theorem sound_of_reachable {s : State Tid Name} (h : system.Reachable Lifo s) :
    s.profiler.nameCount < 2 ^ 32 → s.fault = none → s.Sound := by
  induction h with
  | start hs =>
      cases hs
      intro _ _
      exact sound_start
  | step _ lifo hnext ih =>
      intro few returned
      have hcount := nameCount_mono hnext
      exact (ih (by omega) (fault_of_next hnext)).step lifo hnext returned few

/-- While fewer than 2^32 names are known, the relation between held and acquired locks
has no cycle. -/
theorem lockOrder_acyclic {s : State Tid Name} (h : system.Reachable Lifo s)
    (few : s.profiler.nameCount < 2 ^ 32) (returned : s.fault = none) : Acyclic s.Acquired := by
  have hs := sound_of_reachable h few returned
  apply hs.profiler.acyclic.of_paths fun name => (s.profiler.nameToId name).getD 0
  intro x y hxy
  obtain ⟨hne, hheld⟩ := hxy
  obtain ⟨i, j, hi, hj, hpath⟩ := hs.paths x y hheld
  simp only [hi, hj, Option.getD_some]
  obtain heq | hpath := reflTransGen_iff_eq_or_transGen.mp hpath
  · subst heq
    exact absurd (hs.profiler.distinct x y j hi hj) hne
  · exact hpath

def nestedEvents : List (Event (Fin 2) ℕ) :=
  [.pushLock 0 7, .pushLock 0 8, .pushLock 0 9, .popLock 0 9, .pushLock 1 7, .pushLock 1 9]

/-- Two threads that take locks in the same order. -/
theorem lockOrder_acyclic_nested :
    ∃ s : State (Fin 2) ℕ, system.run nestedEvents {} = some s ∧
      (7, 9) ∈ s.held ∧ Acyclic s.Acquired := by
  have hany : (system.run nestedEvents ({} : State (Fin 2) ℕ)).any
      (fun s => decide ((7, 9) ∈ s.held ∧ s.profiler.nameCount < 2 ^ 32 ∧ s.fault = none)) =
        true := by
    decide +kernel
  obtain ⟨s, hrun, hheld, hfew, hreturned⟩ := System.exists_of_run hany
  have hlifo : system.Along Lifo nestedEvents ({} : State (Fin 2) ℕ) :=
    System.along_of_check (by decide +kernel)
  exact ⟨s, hrun, hheld, lockOrder_acyclic ((System.Reachable.start rfl).run hlifo hrun) hfew
    hreturned⟩

/-- While the number of names fits, a call crashes on a cycle only. -/
theorem fault_deadLock {s s' : State Tid Name} {e : Event Tid Name}
    (h : system.Reachable Lifo s) (lifo : Lifo s e) (hnext : system.next s e = some s')
    (small : s.profiler.nameCount + 1 < 2 ^ 31) :
    s'.fault = none ∨ ∃ edges, s'.fault = some (.deadLock edges) := by
  change s.next e = some s' at hnext
  have hfault := fault_of_next hnext
  have hs := sound_of_reachable h (by omega) hfault
  obtain ⟨-, ⟨t, name, fault, rfl, hpush, rfl⟩ | ⟨t, name, p, stack, rfl, -, rfl⟩ |
    ⟨t, name, fault, rfl, hpop, rfl⟩ | ⟨t, name, p, stack, rfl, -, rfl⟩⟩ := next_cases hnext
  · have hcount := register_count s.profiler name
    obtain ⟨edges, rfl⟩ := pushLock_error hs.profiler (hs.threads t).known hpush (by omega)
    exact .inr ⟨edges, rfl⟩
  · exact .inl hfault
  · rw [popLock_eq (hs.threads t).ids (lifo t name rfl)] at hpop
    cases hpop
  · exact .inl hfault

section ManyNames

theorem reachable_push {s : State Tid Name} {t : Tid} {name : Name} {p : DeadLockProfiler Name}
    {stack : List Int32} (h : system.Reachable Lifo s) (hfault : s.fault = none)
    (hpush : s.profiler.pushLock (s.lockStack t) name = .ok (p, stack)) :
    system.Reachable Lifo (s.afterPush t name p stack) := by
  refine h.step (e := .pushLock t name) (fun _ _ heq => by cases heq) ?_
  simp [system, State.next, State.afterPush, hfault, hpush]

theorem reachable_pop {s : State Tid Name} (t : Tid) (name : Name) {p : DeadLockProfiler Name}
    {stack : List Int32} (h : system.Reachable Lifo s) (hfault : s.fault = none)
    (last : (s.names t).head? = some name)
    (hpop : s.profiler.popLock (s.lockStack t) name = .ok (p, stack)) :
    system.Reachable Lifo (s.afterPop t p stack) := by
  refine h.step (e := .popLock t name) (fun _ _ heq => by cases heq; exact last) ?_
  simp [system, State.next, State.afterPop, hfault, hpop]

/-- One thread took and released the locks named 0, 1, ..., n - 1, one after the other. -/
structure Registered (n : ℕ) (s : State Unit ℕ) : Prop where
  reachable : system.Reachable Lifo s
  count : s.profiler.nameCount = n
  ids : ∀ k, s.profiler.nameToId k = if k < n then some (Int32.ofNat k) else none
  lockHistory : s.profiler.lockHistory = fun _ => none
  lockStack : s.lockStack () = []
  names : s.names () = []
  held : s.held = []
  fault : s.fault = none

theorem Registered.succ {n : ℕ} {s : State Unit ℕ} (h : Registered n s) :
    ∃ s', Registered (n + 1) s' := by
  let p : DeadLockProfiler ℕ := { s.profiler with
    nameToId := Function.update s.profiler.nameToId n (some (Int32.ofNat n))
    nameCount := n + 1
    idToName := Function.update s.profiler.idToName (Int32.ofNat n) (some n) }
  have hregister : s.profiler.register n = (Int32.ofNat n, p) := by
    rw [DeadLockProfiler.register, h.ids, if_neg (lt_irrefl n), h.count]
  have hpush : s.profiler.pushLock (s.lockStack ()) n = .ok (p, [Int32.ofNat n]) := by
    rw [pushLock, hregister, h.lockStack]
  have hpop : p.popLock [Int32.ofNat n] n = .ok (p, []) := by
    simp [popLock, p]
  have hpushed := reachable_push h.reachable h.fault hpush
  have hpopped := reachable_pop () n hpushed h.fault
    (by simp [State.afterPush]) hpop
  refine ⟨_, hpopped, rfl, fun k => ?_, h.lockHistory, ?_, ?_, ?_, h.fault⟩
  · change Function.update s.profiler.nameToId n _ k = _
    by_cases hk : k = n
    · subst hk
      simp
    · rw [Function.update_of_ne hk, h.ids]
      have hiff : k < n ↔ k < n + 1 := by omega
      simp only [hiff]
  · simp [State.afterPop]
  · simp [State.afterPop, State.afterPush, h.names]
  · simp [State.afterPop, State.afterPush, h.names, h.held]

theorem exists_registered (n : ℕ) : ∃ s, Registered n s := by
  induction n with
  | zero => exact ⟨{}, .start rfl, rfl, fun k => by simp, rfl, rfl, rfl, rfl, rfl⟩
  | succ n ih =>
      obtain ⟨s, hs⟩ := ih
      exact hs.succ

/-- With 2^32 names `CheckCycle` searches nothing. -/
theorem checkCycle_full (lockHistory : Int32 → Option (List Int32)) :
    checkCycle lockHistory (2 ^ 32) = .ok {} := by
  rfl

/-- With 2^32 names two locks are taken in both orders and nothing is reported. -/
theorem lockOrder_cyclic :
    ¬∀ s : State Unit ℕ, system.Reachable Lifo s → s.fault = none → Acyclic s.Acquired := by
  intro hacyclic
  obtain ⟨s, hs⟩ := exists_registered (2 ^ 32)
  have h0 : s.profiler.nameToId 0 = some 0 := hs.ids 0
  have h1 : s.profiler.nameToId 1 = some 1 := hs.ids 1
  have hcheck : ∀ lockHistory, checkCycle lockHistory s.profiler.nameCount = .ok {} := by
    intro lockHistory
    rw [hs.count]
    exact checkCycle_full lockHistory
  have hfirst : s.profiler.pushLock (s.lockStack ()) 0 = .ok (s.profiler, [0]) := by
    rw [pushLock, register, h0, hs.lockStack]
  let p : DeadLockProfiler ℕ := { s.profiler.addEdge 0 1 with search := {} }
  have hsecond : s.profiler.pushLock [0] 1 = .ok (p, [1, 0]) := by
    simp [pushLock, register, h1, history, hs.lockHistory, addEdge, hcheck, Except.map, p]
  have hrelease1 : p.popLock [1, 0] 1 = .ok (p, [0]) := by
    simp [popLock, p, addEdge, h1]
  have hrelease0 : p.popLock [0] 0 = .ok (p, []) := by
    simp [popLock, p, addEdge, h0]
  have hthird : p.pushLock [] 1 = .ok (p, [1]) := by
    simp [pushLock, register, p, addEdge, h1]
  have hfourth : p.pushLock [1] 0 = .ok ({ p.addEdge 1 0 with search := {} }, [0, 1]) := by
    simp [pushLock, register, h0, history, hs.lockHistory, addEdge, hcheck, Except.map, p]
  have hreach1 := reachable_push hs.reachable hs.fault hfirst
  have hreach2 := reachable_push (t := ()) hreach1 hs.fault
    (by simpa [State.afterPush] using hsecond)
  have hreach3 := reachable_pop () 1 hreach2 hs.fault
    (by simp [State.afterPush]) (by simpa [State.afterPush] using hrelease1)
  have hreach4 := reachable_pop () 0 hreach3 hs.fault
    (by simp [State.afterPush, State.afterPop])
    (by simpa [State.afterPush, State.afterPop] using hrelease0)
  have hreach5 := reachable_push (t := ()) hreach4 hs.fault
    (by simpa [State.afterPush, State.afterPop] using hthird)
  have hreach6 := reachable_push (t := ()) hreach5 hs.fault
    (by simpa [State.afterPush, State.afterPop] using hfourth)
  refine hacyclic _ hreach6 hs.fault 0 ((TransGen.single (b := 1) ?_).tail ?_)
  · simp [State.Acquired, State.afterPush, State.afterPop, hs.names]
  · simp [State.Acquired, State.afterPush, State.afterPop, hs.names]

end ManyNames

end DeadLockProfiler

end ServerCore
