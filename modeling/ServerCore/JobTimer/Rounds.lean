import ServerCore.Interleaving.Threads
import ServerCore.JobTimer.Basic

/-!
# What a `Distribute` call takes and delivers

The flag `distributing` is a lock: it is set exactly while a thread is past the gate, so
one thread at most is past it (`Tracks.gate`) and the vectors `tempItems` of the others
are empty. Each reserved item is in the queue, in that vector, delivered, or cleared,
whatever the threads do (`Tracks.places`).

A round takes the items that were due when its block ran, in the order of their
`executeTick`, and deals with them one after the other; its calls of `JobQueue::Push`
are those for the items whose owner it could lock.
-/

namespace ServerCore

namespace JobTimer

open Interleaving

variable {Tid Q Job : Type}

namespace Pc

/-- The thread set `distributing` and has not yet reset it. -/
def pastGate : Pc → Prop
  | .collect _ => True
  | .distribute _ => True
  | .recycle _ _ => True
  | _ => False

/-- The items of `tempItems` that the loop has not reached. -/
def batch : Pc → List TimerItem
  | .distribute tempItems => tempItems
  | .recycle _ tempItems => tempItems
  | _ => []

/-- The thread is in the loop over `tempItems`. -/
def inLoop : Pc → Prop
  | .distribute _ => True
  | .recycle _ _ => True
  | _ => False

theorem pastGate_of_inLoop {pc : Pc} (h : pc.inLoop) : pc.pastGate := by
  cases pc <;> first | exact h | trivial

theorem batch_of_outside {pc : Pc} (h : ¬pc.pastGate) : pc.batch = [] := by
  cases pc <;> first | rfl | exact absurd trivial h

end Pc

/-- The call of `JobQueue::Push` for an item. -/
def Outcome.pushCall (outcome : Outcome Q Job) : Option (PushCall Q Job) :=
  outcome.ownerJobQueue.map fun queue => { queue, job := outcome.data.job, pushOnly := true }

namespace Round

/-- The items that the call has dealt with. -/
def handled (round : Round Q Job) : List TimerItem := round.outcomes.map Outcome.item

def pushCalls (round : Round Q Job) : List (PushCall Q Job) :=
  round.outcomes.filterMap Outcome.pushCall

/-- The call took what was due, and nothing else, in the order of `executeTick`; it deals
with the items in this order and pushes to the owners that it could lock. -/
structure Exact (round : Round Q Job) : Prop where
  taken : round.taken.Perm (round.present.filter fun item => item.executeTick ≤ round.now)
  left : round.left.Perm (round.present.filter fun item => ¬item.executeTick ≤ round.now)
  sorted : round.taken.Pairwise fun item later => item.executeTick ≤ later.executeTick
  inOrder : round.handled <+: round.taken
  locked : ∀ outcome ∈ round.outcomes,
    outcome.ownerJobQueue = lock outcome.expired outcome.data.owner

/-- The call dealt with everything it took. -/
def Complete (round : Round Q Job) : Prop := round.handled = round.taken

end Round

variable {H : PriorityQueue TimerItem TimerItem.less}

/-- The items that were delivered, or dropped because their owner had expired. -/
def State.handled (s : State H Tid Q Job) : List TimerItem := s.rounds.flatMap Round.handled

/-- The items in the local vectors of the threads. -/
noncomputable def State.batch [Fintype Tid] (s : State H Tid Q Job) : List TimerItem :=
  gather Pc.batch s.threads

/-- What holds in every run, also when an item's `JobData` is not its own. -/
structure Tracks [Fintype Tid] (s : State H Tid Q Job) : Prop where
  gate : ∀ t u, (s.threads t).pastGate → (s.threads u).pastGate → t = u
  flag : ∀ t, (s.threads t).pastGate → s.distributing = true
  places : s.reserved.Perm (H.toList s.items ++ (s.batch ++ (s.handled ++ s.cleared)))
  exact : ∀ round ∈ s.rounds, round.Exact
  current : ∀ t, (s.threads t).inLoop → ∃ round rounds, s.rounds = round :: rounds ∧
    round.handled ++ (s.threads t).batch = round.taken ∧ ∀ r ∈ rounds, r.Complete
  complete : (∀ t, ¬(s.threads t).inLoop) → ∀ round ∈ s.rounds, round.Complete
  pushes : s.pushes = s.rounds.reverse.flatMap Round.pushCalls

section Step

variable [DecidableEq Tid] [DecidableEq Q]

omit [DecidableEq Q] in
@[simp] theorem setPc_self (s : State H Tid Q Job) (t : Tid) (pc : Pc) :
    (s.setPc t pc).threads t = pc := Function.update_self ..

/-- The steps of the system. -/
inductive Step (s : State H Tid Q Job) : Event Tid Q Job → State H Tid Q Job → Prop where
  | reserve {t clock tickAfter owner job} (idle : s.threads t = .idle) :
      Step s (.reserve t clock tickAfter owner job)
        ((s.popForReserve clock tickAfter owner job).setPc t
          (.reserve (clock + tickAfter) s.popped))
  | popJobData {owner job} : Step s (.popJobData owner job) (s.popForClient owner job)
  | reserveItem {timerItem} (handed : timerItem.jobData.all s.handed = true) :
      Step s (.reserveItem timerItem) (s.pushItem timerItem)
  | pushItem {t executeTick jobData} (here : s.threads t = .reserve executeTick jobData) :
      Step s (.step t) ((s.pushItem { executeTick, jobData := some jobData }).setPc t .idle)
  | refused {t now} (idle : s.threads t = .idle) (closed : s.distributing = true) :
      Step s (.distribute t now) s
  | enter {t now} (idle : s.threads t = .idle) (opened : s.distributing = false) :
      Step s (.distribute t now) ({ s with distributing := true }.setPc t (.collect now))
  | collect {t now} (here : s.threads t = .collect now) :
      Step s (.step t) ((s.collect now).2.setPc t (.distribute (s.collect now).1))
  | deliver {t item tempItems data} (here : s.threads t = .distribute (item :: tempItems))
      (found : item.jobData.bind s.pool = some data) :
      Step s (.step t) ((s.deliver item data).setPc t (.recycle item tempItems))
  | dangling {t item tempItems} (here : s.threads t = .distribute (item :: tempItems))
      (lost : item.jobData.bind s.pool = none) : Step s (.step t) { s with crashed := true }
  | recycle {t item tempItems} (here : s.threads t = .recycle item tempItems) :
      Step s (.step t) ((s.pushJobData item.jobData).setPc t (.distribute tempItems))
  | leave {t} (here : s.threads t = .distribute []) :
      Step s (.step t) ({ s with distributing := false }.setPc t .idle)
  | clear : Step s .clear s.clear
  | expire {q} : Step s (.expire q) { s with expired := Function.update s.expired q true }

theorem step_of_next {s s' : State H Tid Q Job} {e : Event Tid Q Job}
    (h : (system H).next s e = some s') : s.crashed = false ∧ Step s e s' := by
  change s.next e = some s' at h
  unfold State.next at h
  split at h
  · cases h
  next hcrashed =>
    refine ⟨eq_false_of_ne_true hcrashed, ?_⟩
    cases e with
    | reserve t clock tickAfter owner job =>
        simp only at h
        split at h <;> cases h
        exact .reserve ‹_›
    | popJobData owner job =>
        cases h
        exact .popJobData
    | reserveItem timerItem =>
        simp only at h
        split at h <;> cases h
        exact .reserveItem ‹_›
    | distribute t now =>
        simp only at h
        split at h
        · split at h
          · cases h
            exact .refused ‹_› ‹_›
          · cases h
            exact .enter ‹_› (eq_false_of_ne_true ‹_›)
        · cases h
    | clear =>
        cases h
        exact .clear
    | expire q =>
        cases h
        exact .expire
    | step t =>
        simp only [State.step] at h
        split at h
        next => cases h
        next here =>
          cases h
          exact .pushItem here
        next here =>
          cases h
          exact .collect here
        next here =>
          cases h
          exact .leave here
        next here =>
          split at h
          · cases h
            exact .dangling here ‹_›
          · cases h
            exact .deliver here ‹_›
        next here =>
          cases h
          exact .recycle here

theorem next_of_step {s s' : State H Tid Q Job} {e : Event Tid Q Job} (h : Step s e s')
    (running : s.crashed = false) : (system H).next s e = some s' := by
  have hrunning : ¬s.crashed = true := by
    rw [running]
    exact Bool.false_ne_true
  change s.next e = some s'
  unfold State.next
  rw [if_neg hrunning]
  cases h with
  | reserve idle => simp [idle]
  | popJobData => rfl
  | reserveItem handed => simp [handed]
  | pushItem here => simp [State.step, here]
  | refused idle closed => simp [idle, closed]
  | enter idle opened => simp [idle, opened]
  | collect here => simp [State.step, here]
  | deliver here found => simp [State.step, here, found]
  | dangling here lost => simp [State.step, here, lost]
  | recycle here => simp [State.step, here]
  | leave here => simp [State.step, here]
  | clear => rfl
  | expire => rfl

end Step

/-- Returning a `JobData` touches the pool only. -/
theorem pushJobData_eq (s : State H Tid Q Job) (jobData : Option ℕ) :
    ∃ pool returned crashed, s.pushJobData jobData = { s with pool, returned, crashed } := by
  unfold State.pushJobData
  cases jobData with
  | none => exact ⟨s.pool, s.returned, true, rfl⟩
  | some id =>
      simp only
      split
      · exact ⟨s.pool, s.returned, true, rfl⟩
      · exact ⟨_, _, s.crashed, rfl⟩

theorem clearItems_eq (popped : List TimerItem) (s : State H Tid Q Job) :
    ∃ pool returned crashed, State.clearItems popped s = { s with pool, returned, crashed } := by
  induction popped generalizing s with
  | nil => exact ⟨s.pool, s.returned, s.crashed, rfl⟩
  | cons timerItem rest ih =>
      obtain ⟨pool, returned, crashed, heq⟩ := pushJobData_eq s timerItem.jobData
      rw [State.clearItems, heq]
      simp only
      split
      · exact ⟨pool, returned, crashed, rfl⟩
      · obtain ⟨pool', returned', crashed', heq'⟩ := ih { s with pool, returned, crashed }
        rw [heq']
        exact ⟨pool', returned', crashed', rfl⟩

/-- `Clear` empties the queue. -/
theorem clear_eq (s : State H Tid Q Job) :
    ∃ items pool returned crashed popped, s.clear = { s with
        items, pool, returned, crashed, cleared := s.cleared ++ popped } ∧
      (H.toList s.items).Perm popped ∧ H.toList items = [] := by
  have hperm := PriorityQueue.takeWhile_perm (fun _ => true) s.items
  have hempty : H.toList (H.takeWhile (fun _ => true) s.items).2 = [] :=
    PriorityQueue.takeWhile_all s.items fun _ => rfl
  rw [hempty, List.append_nil] at hperm
  obtain ⟨pool, returned, crashed, heq⟩ := clearItems_eq (H.takeWhile (fun _ => true) s.items).1
    { s with
      items := (H.takeWhile (fun _ => true) s.items).2
      cleared := s.cleared ++ (H.takeWhile (fun _ => true) s.items).1 }
  exact ⟨_, pool, returned, crashed, _, heq, hperm, hempty⟩

/-- The round of a `Distribute` call after its block. -/
theorem collect_exact (s : State H Tid Q Job) (now : UInt64) : ∃ items round,
    s.collect now = (round.taken, { s with items, rounds := round :: s.rounds }) ∧
      round.now = now ∧ round.present = H.toList s.items ∧ round.left = H.toList items ∧
      round.handled = [] ∧ (H.toList s.items).Perm (round.taken ++ H.toList items) ∧
      round.Exact := by
  let due : TimerItem → Bool := fun timerItem => ¬now < timerItem.executeTick
  have hupward : ∀ a b, ¬TimerItem.less a b → due b = true → due a = true := by
    intro a b hless hb
    simp only [due, decide_eq_true_eq, TimerItem.less, UInt64.lt_iff_toNat_lt] at *
    omega
  obtain ⟨htaken, hleft⟩ := PriorityQueue.takeWhile_filter s.items hupward
  have hdue : due = fun item => decide (item.executeTick ≤ now) := by
    funext item
    simp only [due, UInt64.lt_iff_toNat_lt, UInt64.le_iff_toNat_le, Nat.not_lt]
  have hnotDue : (fun item => !due item) = fun item => decide ¬item.executeTick ≤ now := by
    funext item
    simp only [hdue, decide_not]
  let round : Round Q Job :=
    { now
      present := H.toList s.items
      taken := (H.takeWhile due s.items).1
      left := H.toList (H.takeWhile due s.items).2 }
  refine ⟨_, round, rfl, rfl, rfl, rfl, rfl, PriorityQueue.takeWhile_perm due s.items, ?_⟩
  constructor
  · change round.taken.Perm ((H.toList s.items).filter fun item => item.executeTick ≤ now)
    rw [← hdue]
    exact htaken
  · change round.left.Perm ((H.toList s.items).filter fun item => ¬item.executeTick ≤ now)
    rw [← hnotDue]
    exact hleft
  · refine (PriorityQueue.takeWhile_sorted due s.items).imp ?_
    intro item later hless
    simp only [TimerItem.less, UInt64.lt_iff_toNat_lt, UInt64.le_iff_toNat_le] at *
    omega
  · exact List.nil_prefix
  · intro outcome houtcome
    cases houtcome

namespace Tracks

variable [Fintype Tid] [DecidableEq Tid] {s : State H Tid Q Job} {t : Tid} {pc : Pc}

section Held

variable {β : Type} {held : Pc → List β}

omit [DecidableEq Tid] in
/-- What only threads past the gate hold is held by one thread. -/
theorem gather_eq (h : Tracks s) (outside : ∀ pc : Pc, ¬pc.pastGate → held pc = [])
    (hpast : (s.threads t).pastGate) : gather held s.threads = held (s.threads t) := by
  apply gather_eq_of_others
  intro u hu
  apply outside
  intro hpast'
  exact hu (h.gate u t hpast' hpast)

theorem gather_move (h : Tracks s) (outside : ∀ pc : Pc, ¬pc.pastGate → held pc = [])
    (hpast : (s.threads t).pastGate) : gather held (Function.update s.threads t pc) = held pc := by
  rw [gather_eq_of_others fun u hu => ?_, Function.update_self]
  rw [Function.update_of_ne hu]
  apply outside
  intro hpast'
  exact hu (h.gate u t hpast' hpast)

end Held

omit [DecidableEq Tid] in
/-- Only the thread in the loop has a vector of items. -/
theorem batch_eq (h : Tracks s) (hpast : (s.threads t).pastGate) :
    s.batch = (s.threads t).batch :=
  h.gather_eq (fun _ => Pc.batch_of_outside) hpast

omit [DecidableEq Tid] in
theorem not_past (h : Tracks s) (opened : s.distributing = false) (u : Tid) :
    ¬(s.threads u).pastGate := by
  intro hpast
  have := h.flag u hpast
  rw [opened] at this
  cases this

omit [Fintype Tid] in
/-- What the new place of a thread has in common with its old one, all threads keep. -/
theorem setPc_congr {α : Sort*} (f : Pc → α) (hsame : f pc = f (s.threads t)) (u : Tid) :
    f ((s.setPc t pc).threads u) = f (s.threads u) := by
  change f (Function.update s.threads t pc u) = f (s.threads u)
  obtain rfl | hu := eq_or_ne u t
  · rw [Function.update_self, hsame]
  · rw [Function.update_of_ne hu]

/-- A thread moves within one of the three parts: outside, before the loop, in it. -/
theorem setPc (h : Tracks s) {old : Pc} (here : s.threads t = old)
    (hpast : pc.pastGate ↔ old.pastGate) (hloop : pc.inLoop ↔ old.inLoop)
    (hbatch : pc.batch = old.batch) : Tracks (s.setPc t pc) := by
  subst here
  have hpast' := fun u => iff_of_eq (setPc_congr Pc.pastGate (propext hpast) u)
  have hloop' := fun u => iff_of_eq (setPc_congr Pc.inLoop (propext hloop) u)
  have hbatch' := setPc_congr Pc.batch hbatch
  constructor
  case gate =>
    intro u v hu hv
    exact h.gate u v ((hpast' u).mp hu) ((hpast' v).mp hv)
  case flag =>
    intro u hu
    exact h.flag u ((hpast' u).mp hu)
  case places =>
    have hsame : (s.setPc t pc).batch = s.batch := gather_update hbatch
    rw [hsame]
    exact h.places
  case exact => exact h.exact
  case current =>
    intro u hu
    rw [hbatch' u]
    exact h.current u ((hloop' u).mp hu)
  case complete =>
    intro hnone
    exact h.complete fun u hu => hnone u ((hloop' u).mpr hu)
  case pushes => exact h.pushes

omit [DecidableEq Tid] in
theorem pushItem (h : Tracks s) (timerItem : TimerItem) : Tracks (s.pushItem timerItem) := by
  refine ⟨h.gate, h.flag, ?_, h.exact, h.current, h.complete, h.pushes⟩
  change (s.reserved ++ [timerItem]).Perm (H.toList (H.push s.items timerItem) ++ _)
  have hpushed := H.toList_push s.items timerItem
  exact (List.perm_append_singleton _ _).trans
    ((h.places.cons timerItem).trans (hpushed.symm.append_right _))

/-- The gate is passed by a thread when no other is past it. -/
theorem enter (h : Tracks s) (hidle : s.threads t = .idle) (opened : s.distributing = false)
    (now : UInt64) : Tracks ({ s with distributing := true }.setPc t (.collect now)) := by
  have hother : ∀ u, ((({ s with distributing := true } : State H Tid Q Job).setPc t
      (.collect now)).threads u).pastGate → u = t := by
    intro u hu
    by_contra hne
    simp only [State.setPc, Function.update_of_ne hne] at hu
    exact h.not_past opened u hu
  have hout : ∀ u, ¬((({ s with distributing := true } : State H Tid Q Job).setPc t
      (.collect now)).threads u).inLoop := by
    intro u hu
    obtain rfl := hother u (Pc.pastGate_of_inLoop hu)
    simp [State.setPc, Pc.inLoop] at hu
  constructor
  case gate =>
    intro u v hu hv
    rw [hother u hu, hother v hv]
  case flag =>
    intro u _
    rfl
  case places =>
    have hsame : (({ s with distributing := true } : State H Tid Q Job).setPc t
        (.collect now)).batch = s.batch := gather_update (by rw [hidle]; rfl)
    rw [hsame]
    exact h.places
  case exact => exact h.exact
  case current =>
    intro u hu
    exact absurd hu (hout u)
  case complete =>
    intro _
    exact h.complete fun u hu => h.not_past opened u (Pc.pastGate_of_inLoop hu)
  case pushes => exact h.pushes

/-- After a step of the thread past the gate no other thread is past it. -/
theorem only_past (h : Tracks s) (hpast : (s.threads t).pastGate) {u : Tid}
    (hu : (Function.update s.threads t pc u).pastGate) : u = t := by
  by_contra hne
  rw [Function.update_of_ne hne] at hu
  exact hne (h.gate u t hu hpast)

theorem collect (h : Tracks s) {now : UInt64} (here : s.threads t = .collect now) :
    Tracks ((s.collect now).2.setPc t (.distribute (s.collect now).1)) := by
  obtain ⟨items, round, heq, -, -, -, hhandled, hperm, hexact⟩ := collect_exact s now
  have hpast : (s.threads t).pastGate := by
    rw [here]
    trivial
  have hquiet : ∀ u, ¬(s.threads u).inLoop := by
    intro u hu
    obtain rfl := h.gate u t (Pc.pastGate_of_inLoop hu) hpast
    rw [here] at hu
    exact hu
  have hbatch : s.batch = [] := by
    rw [h.batch_eq hpast, here]
    rfl
  rw [heq]
  constructor
  case gate =>
    intro u v hu hv
    rw [h.only_past hpast hu, h.only_past hpast hv]
  case flag =>
    intro u _
    exact h.flag t hpast
  case places =>
    have hbatch' : gather Pc.batch (Function.update s.threads t (.distribute round.taken)) =
        round.taken := h.gather_move (fun _ => Pc.batch_of_outside) hpast
    have hplaces := h.places
    rw [hbatch, List.nil_append] at hplaces
    change s.reserved.Perm (H.toList items ++ (gather Pc.batch (Function.update s.threads t
      (.distribute round.taken)) ++ ((round.handled ++ s.handled) ++ s.cleared)))
    rw [hbatch', hhandled, List.nil_append]
    refine hplaces.trans ((hperm.append_right _).trans ?_)
    rw [← List.append_assoc (H.toList items)]
    exact List.perm_append_comm.append_right _
  case exact =>
    intro r hr
    obtain rfl | hr := List.mem_cons.mp hr
    · exact hexact
    · exact h.exact r hr
  case current =>
    intro u hu
    obtain rfl := h.only_past hpast (Pc.pastGate_of_inLoop hu)
    refine ⟨round, s.rounds, rfl, ?_, h.complete hquiet⟩
    rw [hhandled]
    simp [State.setPc, Pc.batch]
  case complete =>
    intro hnone
    refine absurd ?_ (hnone t)
    simp [State.setPc, Pc.inLoop]
  case pushes =>
    have hcalls : round.pushCalls = [] := by
      have hempty : round.outcomes = [] := List.map_eq_nil_iff.mp hhandled
      rw [Round.pushCalls, hempty]
      rfl
    change s.pushes = (round :: s.rounds).reverse.flatMap Round.pushCalls
    rw [List.reverse_cons, List.flatMap_append, ← h.pushes]
    simp [hcalls]

omit [Fintype Tid] [DecidableEq Tid] in
/-- The call of `Push` for an item, and the entry in the current round. -/
theorem deliver_eq {round : Round Q Job} {rounds : List (Round Q Job)}
    (hrounds : s.rounds = round :: rounds) (item : TimerItem) (data : JobData Q Job) :
    s.deliver item data = { s with
      pushes := s.pushes ++ (s.outcome item data).pushCall.toList
      rounds := { round with outcomes := round.outcomes ++ [s.outcome item data] } :: rounds } := by
  cases hlock : lock s.expired data.owner with
  | none =>
      simp [State.deliver, State.outcome, State.pushJob, State.record, Outcome.pushCall, hlock,
        hrounds]
  | some queue =>
      simp [State.deliver, State.outcome, State.pushJob, State.record, Outcome.pushCall, hlock,
        hrounds]

theorem deliver (h : Tracks s) {item : TimerItem} {tempItems : List TimerItem}
    {data : JobData Q Job} (here : s.threads t = .distribute (item :: tempItems)) :
    Tracks ((s.deliver item data).setPc t (.recycle item tempItems)) := by
  have hloop : (s.threads t).inLoop := by
    rw [here]
    trivial
  have hpast := Pc.pastGate_of_inLoop hloop
  obtain ⟨round, rounds, hrounds, htaken, hcomplete⟩ := h.current t hloop
  rw [here] at htaken
  change round.handled ++ item :: tempItems = round.taken at htaken
  rw [deliver_eq hrounds]
  let round' : Round Q Job :=
    { round with outcomes := round.outcomes ++ [s.outcome item data] }
  have hhandled' : round'.handled = round.handled ++ [item] := List.map_append
  have htaken' : round'.handled ++ tempItems = round.taken := by
    rw [hhandled', List.append_assoc]
    exact htaken
  constructor
  case gate =>
    intro u v hu hv
    rw [h.only_past hpast hu, h.only_past hpast hv]
  case flag =>
    intro u _
    exact h.flag t hpast
  case places =>
    have hbatch' : gather Pc.batch (Function.update s.threads t (.recycle item tempItems)) =
        tempItems := h.gather_move (fun _ => Pc.batch_of_outside) hpast
    have hplaces := h.places
    rw [h.batch_eq hpast, here, State.handled, hrounds, List.flatMap_cons] at hplaces
    change s.reserved.Perm (H.toList s.items ++ (gather Pc.batch (Function.update s.threads t
      (.recycle item tempItems)) ++ ((round'.handled ++ rounds.flatMap Round.handled) ++
        s.cleared)))
    rw [hbatch', hhandled']
    refine hplaces.trans (List.Perm.append_left _ ?_)
    change (item :: (tempItems ++ _)).Perm _
    rw [List.append_assoc, List.append_assoc, List.append_assoc, List.singleton_append,
      ← List.append_assoc, ← List.append_assoc tempItems]
    exact List.perm_middle.symm
  case exact =>
    intro r hr
    have hround := h.exact round (hrounds ▸ List.mem_cons_self)
    obtain rfl | hr := List.mem_cons.mp hr
    · refine ⟨hround.taken, hround.left, hround.sorted, ⟨tempItems, htaken'⟩, fun o ho => ?_⟩
      obtain ho | ho := List.mem_append.mp ho
      · exact hround.locked o ho
      · obtain rfl := List.mem_singleton.mp ho
        rfl
    · exact h.exact r (hrounds ▸ List.mem_cons_of_mem _ hr)
  case current =>
    intro u hu
    obtain rfl := h.only_past hpast (Pc.pastGate_of_inLoop hu)
    refine ⟨round', rounds, rfl, ?_, hcomplete⟩
    simpa [State.setPc, Pc.batch] using htaken'
  case complete =>
    intro hnone
    refine absurd ?_ (hnone t)
    simp [State.setPc, Pc.inLoop]
  case pushes =>
    change s.pushes ++ (s.outcome item data).pushCall.toList =
      (round' :: rounds).reverse.flatMap Round.pushCalls
    have hcalls : round'.pushCalls =
        round.pushCalls ++ (s.outcome item data).pushCall.toList := by
      rw [Round.pushCalls, Round.pushCalls, List.filterMap_append]
      cases hcall : (s.outcome item data).pushCall <;> simp [hcall]
    rw [h.pushes, hrounds, List.reverse_cons, List.reverse_cons, List.flatMap_append,
      List.flatMap_append, List.flatMap_singleton, List.flatMap_singleton, hcalls,
      List.append_assoc]

/-- When the loop is done the flag is reset. -/
theorem leave (h : Tracks s) (here : s.threads t = .distribute []) :
    Tracks ({ s with distributing := false }.setPc t .idle) := by
  have hloop : (s.threads t).inLoop := by
    rw [here]
    trivial
  have hpast := Pc.pastGate_of_inLoop hloop
  have hout : ∀ u, ¬(Function.update s.threads t Pc.idle u).pastGate := by
    intro u hu
    obtain rfl := h.only_past hpast hu
    rw [Function.update_self] at hu
    exact hu
  constructor
  case gate =>
    intro u v hu
    exact absurd hu (hout u)
  case flag =>
    intro u hu
    exact absurd hu (hout u)
  case places =>
    have hsame : (({ s with distributing := false } : State H Tid Q Job).setPc t .idle).batch =
        s.batch := gather_update (by rw [here]; rfl)
    rw [hsame]
    exact h.places
  case exact => exact h.exact
  case current =>
    intro u hu
    exact absurd (Pc.pastGate_of_inLoop hu) (hout u)
  case complete =>
    intro _ r hr
    obtain ⟨round, rounds, hrounds, htaken, hcomplete⟩ := h.current t hloop
    rw [here] at htaken
    have hround : round.Complete := by
      rw [Round.Complete, ← htaken]
      exact (List.append_nil _).symm
    change r ∈ s.rounds at hr
    rw [hrounds] at hr
    obtain rfl | hr := List.mem_cons.mp hr
    · exact hround
    · exact hcomplete r hr
  case pushes => exact h.pushes

omit [DecidableEq Tid] in
theorem clear (h : Tracks s) : Tracks s.clear := by
  obtain ⟨items, pool, returned, crashed, popped, heq, hperm, hempty⟩ := clear_eq s
  rw [heq]
  refine ⟨h.gate, h.flag, ?_, h.exact, h.current, h.complete, h.pushes⟩
  change s.reserved.Perm (H.toList items ++ (s.batch ++ (s.handled ++ (s.cleared ++ popped))))
  rw [hempty, List.nil_append]
  refine h.places.trans ((hperm.append_right _).trans (List.perm_append_comm.trans ?_))
  rw [List.append_assoc, List.append_assoc]

omit [DecidableEq Tid] in
theorem pushJobData (h : Tracks s) (jobData : Option ℕ) :
    Tracks (s.pushJobData jobData) ∧ (s.pushJobData jobData).threads = s.threads := by
  obtain ⟨pool, returned, crashed, heq⟩ := pushJobData_eq s jobData
  rw [heq]
  exact ⟨⟨h.gate, h.flag, h.places, h.exact, h.current, h.complete, h.pushes⟩, rfl⟩

omit [DecidableEq Tid] in
theorem popForReserve (h : Tracks s) (clock tickAfter : UInt64) (owner : Option Q) (job : Job) :
    Tracks (s.popForReserve clock tickAfter owner job) :=
  ⟨h.gate, h.flag, h.places, h.exact, h.current, h.complete, h.pushes⟩

end Tracks

variable [Fintype Tid] [DecidableEq Tid] [DecidableEq Q]

omit [DecidableEq Tid] [DecidableEq Q] in
theorem tracks_start : Tracks ({} : State H Tid Q Job) := by
  have hbatch : (({} : State H Tid Q Job)).batch = [] := by
    rw [State.batch, gather, List.flatMap_eq_nil_iff]
    intro t _
    rfl
  refine ⟨fun t u ht => ht.elim, fun t ht => ht.elim, ?_, fun r hr => ?_, fun t ht => ht.elim,
    fun _ r hr => ?_, rfl⟩
  · rw [hbatch]
    change List.Perm [] (H.toList H.empty ++ _)
    rw [H.toList_empty]
    exact List.Perm.refl _
  · cases hr
  · cases hr

theorem Tracks.step {s s' : State H Tid Q Job} {e : Event Tid Q Job} (h : Tracks s)
    (hstep : Step s e s') : Tracks s' := by
  cases hstep with
  | reserve idle => exact (h.popForReserve _ _ _ _).setPc idle Iff.rfl Iff.rfl rfl
  | popJobData => exact ⟨h.gate, h.flag, h.places, h.exact, h.current, h.complete, h.pushes⟩
  | reserveItem => exact h.pushItem _
  | pushItem here => exact (h.pushItem _).setPc here Iff.rfl Iff.rfl rfl
  | refused => exact h
  | enter idle opened => exact h.enter idle opened _
  | collect here => exact h.collect here
  | deliver here => exact h.deliver here
  | dangling => exact ⟨h.gate, h.flag, h.places, h.exact, h.current, h.complete, h.pushes⟩
  | recycle here =>
      obtain ⟨htracks, hthreads⟩ := h.pushJobData _
      exact htracks.setPc ((congrFun hthreads _).trans here) Iff.rfl Iff.rfl rfl
  | leave here => exact h.leave here
  | clear => exact h.clear
  | expire => exact ⟨h.gate, h.flag, h.places, h.exact, h.current, h.complete, h.pushes⟩

theorem tracks_of_reachable {ok : State H Tid Q Job → Event Tid Q Job → Prop}
    {s : State H Tid Q Job} (h : (system H).Reachable ok s) : Tracks s := by
  induction h with
  | start hs =>
      cases hs
      exact tracks_start
  | step _ _ hnext ih => exact ih.step (step_of_next hnext).2

end JobTimer

end ServerCore
