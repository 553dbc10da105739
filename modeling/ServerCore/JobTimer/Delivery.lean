import ServerCore.JobTimer.Rounds

/-!
# Timer delivery is exact

The items carry raw pointers, and `Distribute` and `Clear` return what an item points to.
`Reserve` with a delay makes a `JobData` for its item. The other overload takes the
pointer from its caller; `OwnItem` says that it points to an object of its own.

Then no two reserved items share a `JobData` (`Owned.distinct`), so an item is in one
place only, and what was returned, together with what a thread is about to return, is
what the delivered and the cleared items carried (`Owned.returned`). An item that is
passed twice is returned twice (`timerItem_returnedTwice`).
-/

namespace ServerCore

namespace JobTimer

open Interleaving

variable {Tid Q Job : Type} {H : PriorityQueue TimerItem TimerItem.less}

/-- An item passed to `Reserve` carries a `JobData` that no reserved item carries. -/
def OwnItem (s : State H Tid Q Job) (e : Event Tid Q Job) : Prop :=
  ∀ timerItem, e = .reserveItem timerItem →
    timerItem.jobData ≠ none ∧ timerItem.jobData ∉ s.reserved.map TimerItem.jobData

instance (s : State H Tid Q Job) (e : Event Tid Q Job) : Decidable (OwnItem s e) :=
  match e with
  | .reserveItem timerItem =>
      decidable_of_iff (timerItem.jobData ≠ none ∧
        timerItem.jobData ∉ s.reserved.map TimerItem.jobData)
        ⟨fun h _ heq => by cases heq; exact h, fun h => h timerItem rfl⟩
  | .reserve .. => .isTrue fun _ heq => nomatch heq
  | .popJobData .. => .isTrue fun _ heq => nomatch heq
  | .distribute .. => .isTrue fun _ heq => nomatch heq
  | .clear => .isTrue fun _ heq => nomatch heq
  | .step _ => .isTrue fun _ heq => nomatch heq
  | .expire _ => .isTrue fun _ heq => nomatch heq

/-- The `JobData` whose item is delivered and that is still to be returned. -/
def Pc.unreturned : Pc → List (Option ℕ)
  | .recycle item _ => [item.jobData]
  | _ => []

theorem Pc.unreturned_of_outside {pc : Pc} (h : ¬pc.pastGate) : pc.unreturned = [] := by
  cases pc <;> first | rfl | exact absurd trivial h

noncomputable def State.unreturned [Fintype Tid] (s : State H Tid Q Job) : List (Option ℕ) :=
  gather Pc.unreturned s.threads

/-- The items that the timer is done with. -/
def State.finished (s : State H Tid Q Job) : List TimerItem := s.handled ++ s.cleared

/-- Every reserved item carries a `JobData` of its own, and the pool got back exactly
those of the finished items. -/
structure Owned [Fintype Tid] (s : State H Tid Q Job) : Prop where
  running : s.crashed = false
  distinct : (s.reserved.map TimerItem.jobData).Nodup
  carried : ∀ item ∈ s.reserved, ∃ id, item.jobData = some id ∧ id < s.popped
  fresh : ∀ id, s.popped ≤ id → s.made id = none
  handed : ∀ id, s.handed id = true → id < s.popped
  waiting : ∀ t executeTick id, s.threads t = .reserve executeTick id →
    id < s.popped ∧ s.handed id = false ∧ some id ∉ s.reserved.map TimerItem.jobData
  waitingOwn : ∀ t u tick tick' id, s.threads t = .reserve tick id →
    s.threads u = .reserve tick' id → t = u
  pool : ∀ id, id < s.popped → id ∉ s.returned → ∃ data, s.pool id = some data
  made : ∀ id data, s.pool id = some data → s.made id = some data
  returned : (s.returned.map some ++ s.unreturned).Perm (s.finished.map TimerItem.jobData)
  read : ∀ round ∈ s.rounds, ∀ outcome ∈ round.outcomes, ∃ id, outcome.item.jobData = some id ∧
    s.made id = some outcome.data

namespace Owned

variable [Fintype Tid] {s s' : State H Tid Q Job}

/-- Everything that is finished was reserved, and nothing that waits is finished. -/
theorem places_nodup (h : Owned s) (tracks : Tracks s) :
    ((H.toList s.items ++ s.batch ++ s.finished).map TimerItem.jobData).Nodup := by
  have hperm := tracks.places.map TimerItem.jobData
  rw [State.finished, List.append_assoc]
  exact hperm.nodup_iff.mp h.distinct

/-- The `JobData` of an item that is not finished exists. -/
theorem live (h : Owned s) (tracks : Tracks s) {item : TimerItem}
    (hitem : item ∈ H.toList s.items ++ s.batch) :
    ∃ id data, item.jobData = some id ∧ s.pool id = some data ∧ id ∉ s.returned := by
  have hreserved : item ∈ s.reserved := by
    apply tracks.places.mem_iff.mpr
    rw [← List.append_assoc]
    exact List.mem_append_left _ hitem
  obtain ⟨id, hid, hlt⟩ := h.carried item hreserved
  have hnodup := h.places_nodup tracks
  rw [List.map_append] at hnodup
  have hnot : some id ∉ s.finished.map TimerItem.jobData := by
    intro hmem
    exact (List.nodup_append.mp hnodup).2.2 _ (List.mem_map_of_mem hitem) _ hmem hid
  have hreturned : id ∉ s.returned := by
    intro hmem
    apply hnot
    apply h.returned.mem_iff.mp
    exact List.mem_append_left _ (List.mem_map_of_mem hmem)
  obtain ⟨data, hdata⟩ := h.pool id hlt hreturned
  exact ⟨id, data, hid, hdata, hreturned⟩

/-- Nothing is returned twice. -/
theorem returned_nodup (h : Owned s) (tracks : Tracks s) :
    (s.returned.map some ++ s.unreturned).Nodup := by
  have hnodup := h.places_nodup tracks
  rw [List.map_append] at hnodup
  exact h.returned.nodup_iff.mpr (List.nodup_append.mp hnodup).2.1

/-- A step that does not touch the objects, the items and what was done with them. -/
theorem frame (h : Owned s) (crashed : s'.crashed = s.crashed) (reserved : s'.reserved = s.reserved)
    (popped : s'.popped = s.popped) (handed : s'.handed = s.handed) (pool : s'.pool = s.pool)
    (made : s'.made = s.made) (returned : s'.returned = s.returned)
    (threads : ∀ t executeTick id, s'.threads t = .reserve executeTick id →
      s.threads t = .reserve executeTick id)
    (unreturned : s'.unreturned = s.unreturned) (finished : s'.finished = s.finished)
    (rounds : ∀ round ∈ s'.rounds, ∀ outcome ∈ round.outcomes,
      ∃ round' ∈ s.rounds, outcome ∈ round'.outcomes) : Owned s' := by
  constructor
  case running => rw [crashed, h.running]
  case distinct =>
    rw [reserved]
    exact h.distinct
  case carried =>
    rw [reserved, popped]
    exact h.carried
  case fresh =>
    rw [made, popped]
    exact h.fresh
  case handed =>
    rw [handed, popped]
    exact h.handed
  case waiting =>
    intro t executeTick id here
    rw [popped, handed, reserved]
    exact h.waiting t executeTick id (threads t executeTick id here)
  case waitingOwn =>
    intro t u tick tick' id ht hu
    exact h.waitingOwn t u tick tick' id (threads t tick id ht) (threads u tick' id hu)
  case pool =>
    rw [popped, returned, pool]
    exact h.pool
  case made =>
    rw [pool, made]
    exact h.made
  case returned =>
    rw [returned, unreturned, finished]
    exact h.returned
  case read =>
    intro round hround outcome houtcome
    obtain ⟨round', hround', houtcome'⟩ := rounds round hround outcome houtcome
    rw [made]
    exact h.read round' hround' outcome houtcome'

variable [DecidableEq Tid] {t : Tid} {pc : Pc}

theorem setPc (h : Owned s) (outside : ∀ executeTick id, pc ≠ .reserve executeTick id)
    (unreturned : pc.unreturned = (s.threads t).unreturned) : Owned (s.setPc t pc) := by
  refine h.frame rfl rfl rfl rfl rfl rfl rfl ?_ (gather_update unreturned) rfl
    fun round hround outcome houtcome => ⟨round, hround, houtcome⟩
  intro u executeTick id here
  by_cases hu : u = t
  · subst hu
    rw [setPc_self] at here
    exact absurd here (outside executeTick id)
  · simpa [State.setPc, hu] using here

omit [DecidableEq Tid] in
/-- An item with a `JobData` of its own enters the queue. -/
theorem pushItem (h : Owned s) {timerItem : TimerItem} {id : ℕ}
    (hid : timerItem.jobData = some id) (hlt : id < s.popped)
    (hnew : some id ∉ s.reserved.map TimerItem.jobData)
    (hother : ∀ t executeTick, s.threads t ≠ .reserve executeTick id) :
    Owned (s.pushItem timerItem) := by
  have hreserved : (s.pushItem timerItem).reserved.map TimerItem.jobData =
      s.reserved.map TimerItem.jobData ++ [some id] := by
    simp [State.pushItem, hid]
  refine { h with distinct := ?_, carried := ?_, waiting := ?_ }
  · rw [hreserved]
    exact (List.perm_append_singleton _ _).nodup_iff.mpr (List.nodup_cons.mpr ⟨hnew, h.distinct⟩)
  · intro item hitem
    obtain hitem | hitem := List.mem_append.mp hitem
    · exact h.carried item hitem
    · obtain rfl := List.mem_singleton.mp hitem
      exact ⟨id, hid, hlt⟩
  · intro t executeTick id' here
    obtain ⟨hlt', hhanded, hnot⟩ := h.waiting t executeTick id' here
    refine ⟨hlt', hhanded, ?_⟩
    rw [hreserved, List.mem_append, List.mem_singleton, Option.some.injEq]
    rintro (hmem | rfl)
    · exact hnot hmem
    · exact hother t executeTick here

omit [DecidableEq Tid] in
/-- The next id is new. -/
theorem popped_new (h : Owned s) : some s.popped ∉ s.reserved.map TimerItem.jobData ∧
    s.handed s.popped = false ∧ ∀ t executeTick, s.threads t ≠ .reserve executeTick s.popped := by
  refine ⟨fun hmem => ?_, eq_false_of_ne_true fun hhanded => ?_, fun t executeTick here => ?_⟩
  · obtain ⟨item, hitem, heq⟩ := List.mem_map.mp hmem
    obtain ⟨id, hid, hlt⟩ := h.carried item hitem
    rw [hid] at heq
    cases heq
    exact lt_irrefl _ hlt
  · exact lt_irrefl _ (h.handed s.popped hhanded)
  · exact lt_irrefl _ (h.waiting t executeTick s.popped here).1

omit [DecidableEq Tid] in
theorem popJobData (h : Owned s) (owner : Option Q) (job : Job) :
    Owned (s.popJobData owner job) := by
  have hpool : ∀ id, (s.popJobData owner job).pool id =
      if id = s.popped then some ⟨owner, job⟩ else s.pool id :=
    fun id => Function.update_apply ..
  have hmade : ∀ id, (s.popJobData owner job).made id =
      if id = s.popped then some ⟨owner, job⟩ else s.made id :=
    fun id => Function.update_apply ..
  refine { h with
    carried := ?_, fresh := ?_, handed := ?_, waiting := ?_, pool := ?_, made := ?_, read := ?_ }
  · intro item hitem
    obtain ⟨id, hid, hlt⟩ := h.carried item hitem
    exact ⟨id, hid, Nat.lt_succ_of_lt hlt⟩
  · intro id hid
    change s.popped + 1 ≤ id at hid
    rw [hmade, if_neg (by omega)]
    exact h.fresh id (by omega)
  · intro id hhanded
    exact Nat.lt_succ_of_lt (h.handed id hhanded)
  · intro t executeTick id here
    obtain ⟨hlt, hrest⟩ := h.waiting t executeTick id here
    exact ⟨Nat.lt_succ_of_lt hlt, hrest⟩
  · intro id hlt hreturned
    rw [hpool]
    split
    · exact ⟨_, rfl⟩
    · next hne =>
        change id < s.popped + 1 at hlt
        exact h.pool id (by omega) hreturned
  · intro id data hdata
    rw [hpool] at hdata
    rw [hmade]
    split at hdata
    · next heq => rwa [if_pos heq]
    · next hne =>
        rw [if_neg hne]
        exact h.made id data hdata
  · intro round hround outcome houtcome
    obtain ⟨id, hid, hdata⟩ := h.read round hround outcome houtcome
    refine ⟨id, hid, ?_⟩
    rw [hmade, if_neg]
    · exact hdata
    · rintro rfl
      rw [h.fresh s.popped (le_refl _)] at hdata
      cases hdata

omit [DecidableEq Tid] in
theorem popForClient (h : Owned s) (owner : Option Q) (job : Job) :
    Owned (s.popForClient owner job) := by
  have hpopped := h.popJobData owner job
  have hhanded : ∀ id, (s.popForClient owner job).handed id =
      if id = s.popped then true else s.handed id := fun id => Function.update_apply ..
  refine { hpopped with handed := ?_, waiting := ?_ }
  · intro id hid
    rw [hhanded] at hid
    split at hid
    · next heq =>
        subst heq
        exact Nat.lt_succ_self _
    · exact Nat.lt_succ_of_lt (h.handed id hid)
  · intro t executeTick id here
    obtain ⟨hlt, hnot, hnew⟩ := h.waiting t executeTick id here
    refine ⟨Nat.lt_succ_of_lt hlt, ?_, hnew⟩
    rw [hhanded, if_neg (Nat.ne_of_lt hlt)]
    exact hnot

/-- `Reserve` makes a `JobData` that only its item will carry. -/
theorem popForReserve (h : Owned s) (idle : s.threads t = .idle) (clock tickAfter : UInt64)
    (owner : Option Q) (job : Job) : Owned ((s.popForReserve clock tickAfter owner job).setPc t
      (.reserve (clock + tickAfter) s.popped)) := by
  obtain ⟨hnew, hhanded, hother⟩ := h.popped_new
  have hpopped := h.popJobData owner job
  have hwaiting : ∀ u executeTick id, Function.update s.threads t
      (.reserve (clock + tickAfter) s.popped) u = .reserve executeTick id →
      (u = t ∧ id = s.popped) ∨ s.threads u = .reserve executeTick id := by
    intro u executeTick id here
    by_cases hu : u = t
    · subst hu
      rw [Function.update_self] at here
      cases here
      exact .inl ⟨rfl, rfl⟩
    · rw [Function.update_of_ne hu] at here
      exact .inr here
  refine { hpopped with waiting := ?_, waitingOwn := ?_, returned := ?_ }
  · intro u executeTick id here
    obtain ⟨-, rfl⟩ | here := hwaiting u executeTick id here
    · exact ⟨Nat.lt_succ_self _, hhanded, hnew⟩
    · exact hpopped.waiting u executeTick id here
  · intro u v tick tick' id hu hv
    obtain ⟨rfl, rfl⟩ | hu' := hwaiting u tick id hu
    · obtain ⟨rfl, -⟩ | hv' := hwaiting v tick' _ hv
      · rfl
      · exact absurd hv' (hother v tick')
    · obtain ⟨rfl, rfl⟩ | hv' := hwaiting v tick' id hv
      · exact absurd hu' (hother u tick)
      · exact h.waitingOwn u v tick tick' id hu' hv'
  · have hsame : ((s.popForReserve clock tickAfter owner job).setPc t
        (.reserve (clock + tickAfter) s.popped)).unreturned = s.unreturned :=
      gather_update (i := t) (show _ = (s.threads t).unreturned by rw [idle]; rfl)
    rw [hsame]
    exact h.returned

theorem collect (h : Owned s) {now : UInt64} (here : s.threads t = .collect now) :
    Owned ((s.collect now).2.setPc t (.distribute (s.collect now).1)) := by
  obtain ⟨items, round, heq, -, -, -, hhandled, -, -⟩ := collect_exact s now
  rw [heq]
  refine Owned.setPc (h.frame rfl rfl rfl rfl rfl rfl rfl (fun _ _ _ here => here) rfl ?_ ?_) ?_ ?_
  · change (round.handled ++ s.handled) ++ s.cleared = _
    rw [hhandled]
    rfl
  · intro r hr outcome houtcome
    obtain rfl | hr := List.mem_cons.mp hr
    · have hnone : r.outcomes = [] := List.map_eq_nil_iff.mp hhandled
      rw [hnone] at houtcome
      cases houtcome
    · exact ⟨r, hr, houtcome⟩
  · intro executeTick id heq
    cases heq
  · change _ = (s.threads t).unreturned
    rw [here]
    rfl

/-- A delivered item's `JobData` is still to be returned. -/
theorem deliver (h : Owned s) (tracks : Tracks s) {item : TimerItem} {tempItems : List TimerItem}
    {data : JobData Q Job} (here : s.threads t = .distribute (item :: tempItems))
    (found : item.jobData.bind s.pool = some data) :
    Owned ((s.deliver item data).setPc t (.recycle item tempItems)) := by
  have hpast : (s.threads t).pastGate := by
    rw [here]
    trivial
  obtain ⟨round, rounds, hrounds, -, -⟩ := tracks.current t (by rw [here]; trivial)
  obtain ⟨id, hid, hpool⟩ := Option.bind_eq_some_iff.mp found
  rw [Tracks.deliver_eq hrounds]
  have hwaiting : ∀ u executeTick id, Function.update s.threads t (.recycle item tempItems) u =
      .reserve executeTick id → s.threads u = .reserve executeTick id := by
    intro u executeTick id hu
    by_cases heq : u = t
    · subst heq
      rw [Function.update_self] at hu
      cases hu
    · rwa [Function.update_of_ne heq] at hu
  refine { h with waiting := ?_, waitingOwn := ?_, returned := ?_, read := ?_ }
  · intro u executeTick id hu
    exact h.waiting u executeTick id (hwaiting u executeTick id hu)
  · intro u v tick tick' id hu hv
    exact h.waitingOwn u v tick tick' id (hwaiting u tick id hu) (hwaiting v tick' id hv)
  · have hbefore := h.returned
    have hunreturned := tracks.gather_eq (fun _ => Pc.unreturned_of_outside) hpast
    have hunreturned' : gather Pc.unreturned (Function.update s.threads t
        (.recycle item tempItems)) = [item.jobData] :=
      tracks.gather_move (fun _ => Pc.unreturned_of_outside) hpast
    rw [State.unreturned, hunreturned, here, State.finished, State.handled, hrounds,
      List.flatMap_cons] at hbefore
    change (s.returned.map some ++ gather Pc.unreturned (Function.update s.threads t
      (.recycle item tempItems))).Perm ((((round.outcomes ++ [s.outcome item data]).map
        Outcome.item ++ rounds.flatMap Round.handled) ++ s.cleared).map TimerItem.jobData)
    rw [hunreturned', List.map_append (f := Outcome.item), List.append_assoc, List.append_assoc]
    have hmoved : ((round.handled ++ item :: (rounds.flatMap Round.handled ++ s.cleared)).map
        TimerItem.jobData).Perm _ := List.perm_middle.map _
    rw [List.append_assoc] at hbefore
    refine (List.perm_append_singleton _ _).trans (List.Perm.trans ?_ hmoved.symm)
    exact List.Perm.cons _ (by simpa [Pc.unreturned] using hbefore)
  · intro r hr outcome houtcome
    obtain rfl | hr := List.mem_cons.mp hr
    · obtain hold | hnew := List.mem_append.mp houtcome
      · exact h.read round (hrounds ▸ List.mem_cons_self) outcome hold
      · obtain rfl := List.mem_singleton.mp hnew
        exact ⟨id, hid, h.made id data hpool⟩
    · exact h.read r (hrounds ▸ List.mem_cons_of_mem _ hr) outcome houtcome

omit [Fintype Tid] [DecidableEq Tid] in
theorem pushJobData_live {id : ℕ} {data : JobData Q Job} (hlive : s.pool id = some data) :
    s.pushJobData (some id) =
      { s with pool := Function.update s.pool id none, returned := s.returned ++ [id] } := by
  simp [State.pushJobData, hlive]

/-- The return of the `JobData` of the delivered item. -/
theorem recycle (h : Owned s) (tracks : Tracks s) {item : TimerItem} {tempItems : List TimerItem}
    (here : s.threads t = .recycle item tempItems) :
    Owned ((s.pushJobData item.jobData).setPc t (.distribute tempItems)) := by
  have hpast : (s.threads t).pastGate := by
    rw [here]
    trivial
  have hunreturned : s.unreturned = [item.jobData] := by
    rw [State.unreturned, tracks.gather_eq (fun _ => Pc.unreturned_of_outside) hpast, here]
    rfl
  have hreturned := h.returned
  have hnodup := h.returned_nodup tracks
  rw [hunreturned] at hreturned hnodup
  obtain ⟨id, hid, hlt⟩ : ∃ id, item.jobData = some id ∧ id < s.popped := by
    have hmem := hreturned.mem_iff.mp (List.mem_append_right _ (List.mem_singleton_self _))
    obtain ⟨item', hitem', heq⟩ := List.mem_map.mp hmem
    have hreserved : item' ∈ s.reserved := by
      apply tracks.places.mem_iff.mpr
      exact List.mem_append_right _ (List.mem_append_right _ hitem')
    obtain ⟨id, hid, hlt⟩ := h.carried item' hreserved
    exact ⟨id, heq.symm.trans hid, hlt⟩
  rw [hid] at hreturned hnodup ⊢
  have hnot : id ∉ s.returned := by
    intro hmem
    exact (List.nodup_append.mp hnodup).2.2 _ (List.mem_map_of_mem hmem) _
      (List.mem_singleton_self _) rfl
  obtain ⟨data, hdata⟩ := h.pool id hlt hnot
  rw [pushJobData_live hdata]
  have hwaiting : ∀ u executeTick id', Function.update s.threads t (.distribute tempItems) u =
      .reserve executeTick id' → s.threads u = .reserve executeTick id' := by
    intro u executeTick id' hu
    by_cases heq : u = t
    · subst heq
      rw [Function.update_self] at hu
      cases hu
    · rwa [Function.update_of_ne heq] at hu
  refine { h with waiting := ?_, waitingOwn := ?_, pool := ?_, made := ?_, returned := ?_ }
  · intro u executeTick id' hu
    exact h.waiting u executeTick id' (hwaiting u executeTick id' hu)
  · intro u v tick tick' id' hu hv
    exact h.waitingOwn u v tick tick' id' (hwaiting u tick id' hu) (hwaiting v tick' id' hv)
  · intro id' hlt' hnot'
    change id' ∉ s.returned ++ [id] at hnot'
    rw [List.mem_append, List.mem_singleton, not_or] at hnot'
    obtain ⟨data', hdata'⟩ := h.pool id' hlt' hnot'.1
    exact ⟨data', (Function.update_of_ne hnot'.2 _ _).trans hdata'⟩
  · intro id' data' hdata'
    change Function.update s.pool id none id' = some data' at hdata'
    by_cases heq : id' = id
    · subst heq
      rw [Function.update_self] at hdata'
      cases hdata'
    · rw [Function.update_of_ne heq] at hdata'
      exact h.made id' data' hdata'
  · change ((s.returned ++ [id]).map some ++ gather Pc.unreturned (Function.update s.threads t
      (.distribute tempItems))).Perm _
    rw [tracks.gather_move (fun _ => Pc.unreturned_of_outside) hpast, List.map_append]
    exact (List.append_nil _).symm ▸ hreturned

omit [Fintype Tid] [DecidableEq Tid] in
/-- `Clear` returns what its items carry. -/
theorem clearItems_live {popped : List TimerItem} (running : s.crashed = false)
    (hlive : ∀ item ∈ popped, ∃ id data, item.jobData = some id ∧ s.pool id = some data)
    (hnodup : (popped.map TimerItem.jobData).Nodup) : ∃ pool ids,
      State.clearItems popped s = { s with pool, returned := s.returned ++ ids } ∧
        ids.map some = popped.map TimerItem.jobData ∧
        ∀ id, pool id = if id ∈ ids then none else s.pool id := by
  induction popped generalizing s with
  | nil => exact ⟨s.pool, [], by simp [State.clearItems], rfl, fun id => by simp⟩
  | cons timerItem rest ih =>
      obtain ⟨id, data, hid, hdata⟩ := hlive timerItem List.mem_cons_self
      rw [List.map_cons, List.nodup_cons, hid] at hnodup
      have hrest : ∀ item ∈ rest, ∃ id' data', item.jobData = some id' ∧
          Function.update s.pool id none id' = some data' := by
        intro item hitem
        obtain ⟨id', data', hid', hdata'⟩ := hlive item (List.mem_cons_of_mem _ hitem)
        refine ⟨id', data', hid', (Function.update_of_ne ?_ _ _).trans hdata'⟩
        rintro rfl
        exact hnodup.1 (hid' ▸ List.mem_map_of_mem hitem)
      obtain ⟨pool, ids, heq, hids, hpool⟩ := ih (s := { s with
        pool := Function.update s.pool id none, returned := s.returned ++ [id] }) running hrest
        hnodup.2
      refine ⟨pool, id :: ids, ?_, ?_, fun id' => ?_⟩
      · rw [State.clearItems, hid, pushJobData_live hdata]
        have hrunning : ¬s.crashed = true := by
          rw [running]
          exact Bool.false_ne_true
        change (if s.crashed = true then _ else State.clearItems rest { s with
          pool := Function.update s.pool id none, returned := s.returned ++ [id] }) = _
        rw [if_neg hrunning, heq]
        simp only [List.append_assoc, List.singleton_append]
      · rw [List.map_cons, List.map_cons, hids, hid]
      · rw [hpool]
        change (if id' ∈ ids then none else Function.update s.pool id none id') = _
        rw [Function.update_apply]
        by_cases hmem : id' ∈ ids
        · simp [hmem]
        · simp [hmem]

omit [DecidableEq Tid] in
theorem clear (h : Owned s) (tracks : Tracks s) : Owned s.clear := by
  have hperm := PriorityQueue.takeWhile_perm (fun _ => true) s.items
  have hempty : H.toList (H.takeWhile (fun _ => true) s.items).2 = [] :=
    PriorityQueue.takeWhile_all s.items fun _ => rfl
  rw [hempty, List.append_nil] at hperm
  unfold State.clear
  generalize H.takeWhile (fun _ => true) s.items = taken at hperm
  obtain ⟨popped, items⟩ := taken
  change (H.toList s.items).Perm popped at hperm
  have hnodup : (popped.map TimerItem.jobData).Nodup := by
    have hplaces := h.places_nodup tracks
    rw [List.append_assoc, List.map_append] at hplaces
    exact (hperm.map _).nodup_iff.mp (List.nodup_append.mp hplaces).1
  have hlive : ∀ item ∈ popped, ∃ id data, item.jobData = some id ∧ s.pool id = some data := by
    intro item hitem
    obtain ⟨id, data, hid, hdata, -⟩ :=
      h.live tracks (List.mem_append_left _ (hperm.mem_iff.mpr hitem))
    exact ⟨id, data, hid, hdata⟩
  obtain ⟨pool, ids, heq, hids, hpool⟩ := clearItems_live
    (s := { s with items, cleared := s.cleared ++ popped }) h.running hlive hnodup
  simp only
  rw [heq]
  refine { h with pool := ?_, made := ?_, returned := ?_ }
  · intro id hlt hnot
    change id ∉ s.returned ++ ids at hnot
    rw [List.mem_append, not_or] at hnot
    change ∃ data, pool id = some data
    rw [hpool, if_neg hnot.2]
    exact h.pool id hlt hnot.1
  · intro id data hdata
    change pool id = some data at hdata
    rw [hpool] at hdata
    split at hdata
    · cases hdata
    · exact h.made id data hdata
  · change ((s.returned ++ ids).map some ++ s.unreturned).Perm
      ((s.handled ++ (s.cleared ++ popped)).map TimerItem.jobData)
    rw [List.map_append, hids, ← List.append_assoc, List.map_append (f := TimerItem.jobData),
      List.append_assoc]
    refine (List.perm_append_comm.append_left _).trans ?_
    rw [← List.append_assoc]
    exact h.returned.append_right _

variable [DecidableEq Q] {e : Event Tid Q Job}

theorem step (h : Owned s) (tracks : Tracks s) (own : OwnItem s e) (hstep : Step s e s') :
    Owned s' := by
  cases hstep with
  | reserve idle => exact h.popForReserve idle _ _ _ _
  | popJobData => exact h.popForClient _ _
  | @reserveItem timerItem handed =>
      obtain ⟨hsome, hnew⟩ := own timerItem rfl
      obtain ⟨id, hid⟩ := Option.ne_none_iff_exists'.mp hsome
      rw [hid] at hnew handed
      rw [Option.all_some] at handed
      refine h.pushItem hid (h.handed id handed) hnew fun t executeTick here => ?_
      have hprivate := (h.waiting t executeTick id here).2.1
      rw [hprivate] at handed
      cases handed
  | @pushItem t executeTick jobData here =>
      obtain ⟨hlt, -, hnew⟩ := h.waiting t executeTick jobData here
      have hidle : Owned (s.setPc t .idle) :=
        h.setPc (fun _ _ heq => (by cases heq)) (by rw [here]; rfl)
      refine Owned.pushItem hidle (show _ = some jobData from rfl) hlt hnew fun u tick hu => ?_
      by_cases heq : u = t
      · subst heq
        rw [setPc_self] at hu
        cases hu
      · simp only [State.setPc, Function.update_of_ne heq] at hu
        exact heq (h.waitingOwn u t tick executeTick jobData hu here)
  | refused => exact h
  | enter idle =>
      refine Owned.setPc (h.frame rfl rfl rfl rfl rfl rfl rfl (fun _ _ _ here => here) rfl rfl
        fun round hround outcome houtcome => ⟨round, hround, houtcome⟩) ?_ ?_
      · intro _ _ heq
        cases heq
      · change _ = (s.threads _).unreturned
        rw [idle]
        rfl
  | collect here => exact h.collect here
  | deliver here found => exact h.deliver tracks here found
  | @dangling t item tempItems here lost =>
      have hbatch : item ∈ s.batch := by
        rw [tracks.batch_eq (t := t) (by rw [here]; trivial), here]
        exact List.mem_cons_self
      obtain ⟨id, data, hid, hdata, -⟩ := h.live tracks (List.mem_append_right _ hbatch)
      rw [hid, Option.bind_some, hdata] at lost
      cases lost
  | recycle here => exact h.recycle tracks here
  | leave here =>
      refine Owned.setPc (h.frame rfl rfl rfl rfl rfl rfl rfl (fun _ _ _ here => here) rfl rfl
        fun round hround outcome houtcome => ⟨round, hround, houtcome⟩) ?_ ?_
      · intro _ _ heq
        cases heq
      · change _ = (s.threads _).unreturned
        rw [here]
        rfl
  | clear => exact h.clear tracks
  | expire =>
      exact h.frame rfl rfl rfl rfl rfl rfl rfl (fun _ _ _ here => here) rfl rfl
        fun round hround outcome houtcome => ⟨round, hround, houtcome⟩

end Owned

/-- Every reserved item is in one place, the rounds are exact (`Tracks`), and each
`JobData` was returned once its item was done with, and only then. -/
structure ExactDelivery [Fintype Tid] (s : State H Tid Q Job) : Prop extends Tracks s where
  running : s.crashed = false
  onePlace : (H.toList s.items ++ (s.batch ++ (s.handled ++ s.cleared))).Nodup
  returnedOnce : s.returned.Nodup
  returned : (s.returned.map some ++ s.unreturned).Perm
    ((s.handled ++ s.cleared).map TimerItem.jobData)
  read : ∀ round ∈ s.rounds, ∀ outcome ∈ round.outcomes, ∃ id, outcome.item.jobData = some id ∧
    s.made id = some outcome.data

section Runs

variable [Fintype Tid] [DecidableEq Tid] [DecidableEq Q]

omit [DecidableEq Tid] [DecidableEq Q] in
theorem owned_start : Owned ({} : State H Tid Q Job) := by
  have hunreturned : (({} : State H Tid Q Job)).unreturned = [] := by
    rw [State.unreturned, gather, List.flatMap_eq_nil_iff]
    intro t _
    rfl
  constructor
  case running => rfl
  case distinct => exact List.nodup_nil
  case carried =>
    intro item hitem
    cases hitem
  case fresh =>
    intro id _
    rfl
  case handed =>
    intro id hid
    cases hid
  case waiting =>
    intro t executeTick id here
    cases here
  case waitingOwn =>
    intro t u tick tick' id ht
    cases ht
  case pool =>
    intro id hid
    exact absurd hid (Nat.not_lt_zero id)
  case made =>
    intro id data hdata
    cases hdata
  case returned =>
    rw [hunreturned]
    exact List.Perm.refl _
  case read =>
    intro round hround
    cases hround

theorem owned_of_reachable {s : State H Tid Q Job} (h : (system H).Reachable OwnItem s) :
    Owned s := by
  induction h with
  | start hs =>
      cases hs
      exact owned_start
  | step hreach own hnext ih =>
      exact ih.step (tracks_of_reachable hreach) own (step_of_next hnext).2

/-- Timer delivery is exact when every item has a `JobData` of its own. -/
theorem timerDelivery_exact {s : State H Tid Q Job} (h : (system H).Reachable OwnItem s) :
    ExactDelivery s := by
  have htracks := tracks_of_reachable h
  have howned := owned_of_reachable h
  refine { htracks with
    running := howned.running, onePlace := ?_, returnedOnce := ?_, returned := howned.returned,
    read := howned.read }
  · have hnodup := (howned.places_nodup htracks).of_map
    rwa [State.finished, List.append_assoc] at hnodup
  · exact ((List.nodup_append.mp (howned.returned_nodup htracks)).1).of_map

/-- Three items, two of them due: one is delivered and its `JobData` returned, the owner
of the other expires before its turn. -/
def dueEvents : List (Event (Fin 2) ℕ ℕ) :=
  [.reserve 0 100 50 (some 7) 1, .step 0, .reserve 1 100 20 (some 8) 2, .step 1,
    .popJobData (some 7) 3, .reserveItem { executeTick := 90, jobData := some 2 },
    .distribute 0 130, .distribute 1 140, .step 0, .step 0, .step 0, .expire 8, .step 0]

theorem timerDelivery_exact_due :
    ∃ s, (system timerItems).run dueEvents {} = some s ∧
      s.pushes = [{ queue := 7, job := 3, pushOnly := true }] ∧ s.returned = [2] ∧
      ExactDelivery s := by
  have hany : ((system timerItems).run dueEvents {}).any (fun s => decide
      (s.pushes = [{ queue := 7, job := 3, pushOnly := true }] ∧ s.returned = [2])) = true := by
    decide +kernel
  obtain ⟨s, hrun, hpushes, hreturned⟩ := System.exists_of_run hany
  have hown : (system timerItems).Along OwnItem dueEvents {} :=
    System.along_of_check (by decide +kernel)
  exact ⟨s, hrun, hpushes, hreturned,
    timerDelivery_exact ((System.Reachable.start rfl).run hown hrun)⟩

def sharedEvents : List (Event (Fin 1) Unit Unit) :=
  [.popJobData none (), .reserveItem { jobData := some 0 }, .reserveItem { jobData := some 0 },
    .clear]

/-- An item that is passed twice is returned twice. -/
theorem timerItem_returnedTwice :
    ¬∀ s : State timerItems (Fin 1) Unit Unit,
      (system timerItems).Reachable System.anyStep s → ExactDelivery s := by
  intro hexact
  have hany : ((system timerItems).run sharedEvents ({} : State timerItems (Fin 1) Unit Unit)).any
      (fun s => decide (s.crashed = true)) = true := by
    decide +kernel
  obtain ⟨s, hrun, hcrashed⟩ := System.exists_of_run hany
  have hrunning := (hexact s (System.reachable_of_run rfl hrun)).running
  rw [hcrashed] at hrunning
  cases hrunning

end Runs

end JobTimer

end ServerCore
