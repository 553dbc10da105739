import ServerCore.DeadLockProfiler.Search

/-!
# The reported cycle is real

`Round` describes the rounds that the loops of `DFS` come to when `CheckCycle` runs: the
current lock, the lock taken next and the search at that moment. At each of them the
search is at the current lock (`Round.exploring`), so a lock taken next that is visited
and not finished is further up the path, and the loop that goes back over `parent` ends
there. The loop is `BackWalk`, which has no bound on its rounds.

Nothing is assumed of `lockHistory` but that no lock is joined to itself.
-/

namespace ServerCore

namespace DeadLockProfiler

open Reach

variable {lockHistory : Int32 → Option (List Int32)} {s s' : Search} {path : List Int32}
  {lock currentLock nextLock : Int32} {steps nameCount : ℕ} {fault : ProfilerFault}
  {edges : List (Int32 × Int32)}

/-- `loop` takes its steps over a list one after the other, up to the first that fails. -/
structure StopsAtFailure {α σ ε : Type} (step : α → σ → Except ε σ)
    (loop : List α → σ → Except ε σ) : Prop where
  nil : ∀ s, loop [] s = .ok s
  cons : ∀ a rest s, loop (a :: rest) s = (step a s).bind (loop rest)

namespace StopsAtFailure

variable {α σ ε : Type} {step : α → σ → Except ε σ} {loop : List α → σ → Except ε σ}

theorem append (h : StopsAtFailure step loop) (before rest : List α) (s : σ) :
    loop (before ++ rest) s = (loop before s).bind (loop rest) := by
  induction before generalizing s with
  | nil =>
      rw [h.nil]
      rfl
  | cons a before ih =>
      rw [List.cons_append, h.cons, h.cons]
      cases step a s with
      | error failure => rfl
      | ok s' => exact ih s'

/-- A failure of the loop is one of its steps. -/
theorem error (h : StopsAtFailure step loop) {list : List α} {s : σ} {failure : ε}
    (hfails : loop list s = .error failure) :
    ∃ before a after s', list = before ++ a :: after ∧ loop before s = .ok s' ∧
      step a s' = .error failure := by
  induction list generalizing s with
  | nil =>
      rw [h.nil] at hfails
      cases hfails
  | cons a rest ih =>
      rw [h.cons] at hfails
      cases hstep : step a s with
      | error failure' =>
          rw [hstep] at hfails
          cases hfails
          exact ⟨[], a, rest, s, rfl, h.nil s, hstep⟩
      | ok s' =>
          rw [hstep] at hfails
          obtain ⟨before, b, after, s'', rfl, hbefore, hlast⟩ := ih hfails
          refine ⟨a :: before, b, after, s'', rfl, ?_, hlast⟩
          rw [h.cons, hstep]
          exact hbefore

end StopsAtFailure

theorem visitAll_stops (visit : Int32 → Search → Except ProfilerFault Search) (lock : Int32) :
    StopsAtFailure (visitNext visit lock) (visitAll visit lock) :=
  ⟨fun _ => rfl, fun _ _ _ => rfl⟩

theorem searchFrom_stops (lockHistory : Int32 → Option (List Int32)) (steps : ℕ) :
    StopsAtFailure (dfs lockHistory steps) (searchFrom lockHistory steps) :=
  ⟨fun _ => rfl, fun _ _ _ => rfl⟩

/-- The size of the vectors of the search. -/
def vectorSize (nameCount : ℕ) : ℕ := (Int32.ofNat nameCount).toInt.toNat

theorem vectorSize_lt (nameCount : ℕ) : vectorSize nameCount < 2 ^ 31 := by
  have := Int32.toInt_lt (Int32.ofNat nameCount)
  unfold vectorSize
  omega

/-- A call of `DFS` for `lock` visits it, and its loop comes to `nextLock` with the
search `s'`. Calls from the loop are given `steps` steps. -/
def Arrives (lockHistory : Int32 → Option (List Int32)) (steps : ℕ) (lock : Int32) (s : Search)
    (nextLock : Int32) (s' : Search) : Prop :=
  s.InRange lock ∧ s.visitedOrder lock = -1 ∧
    ∃ before after, lockHistory lock = some (before ++ nextLock :: after) ∧
      visitAll (dfs lockHistory steps) lock before (s.visit lock) = .ok s'

/-- The rounds of the loops of `DFS` in a run of `CheckCycle`: those of the calls that
`CheckCycle` makes, and those of a call that a round makes for a lock not yet visited. -/
inductive Round (lockHistory : Int32 → Option (List Int32)) (nameCount : ℕ) :
    ℕ → Int32 → Int32 → Search → Prop where
  | root {lock nextLock : Int32} {before after : List Int32} {s s' : Search}
      (nonneg : ¬Int32.ofNat nameCount < 0)
      (ids : lockIds (vectorSize nameCount) = before ++ lock :: after)
      (searched : searchFrom lockHistory (vectorSize nameCount + 1) before
        { size := vectorSize nameCount } = .ok s)
      (arrives : Arrives lockHistory (vectorSize nameCount) lock s nextLock s') :
      Round lockHistory nameCount (vectorSize nameCount) lock nextLock s'
  | nested {steps : ℕ} {currentLock lock nextLock : Int32} {s s' : Search}
      (round : Round lockHistory nameCount (steps + 1) currentLock lock s)
      (arrives : Arrives lockHistory steps lock (s.setParent lock currentLock) nextLock s') :
      Round lockHistory nameCount steps lock nextLock s'

/-- A call whose loop fails in a round fails. -/
theorem Arrives.fails (h : Arrives lockHistory steps lock s nextLock s')
    (hfault : visitNext (dfs lockHistory steps) lock nextLock s' = .error fault) :
    dfs lockHistory (steps + 1) lock s = .error fault := by
  obtain ⟨hrange, hnew, before, after, hnext, hbefore⟩ := h
  rw [dfs, if_neg (not_not_intro hrange), if_neg (not_not_intro hnew)]
  simp only [hnext, (visitAll_stops _ _).append, hbefore]
  change ((visitNext _ lock nextLock s').bind _).map _ = _
  rw [hfault]
  rfl

/-- What fails in a round ends `CheckCycle`. -/
theorem Round.fails (h : Round lockHistory nameCount steps currentLock nextLock s)
    (hfault : visitNext (dfs lockHistory steps) currentLock nextLock s = .error fault) :
    checkCycle lockHistory nameCount = .error fault := by
  induction h with
  | root nonneg ids searched arrives =>
      rw [checkCycle, if_neg nonneg]
      change searchFrom _ (vectorSize nameCount + 1) (lockIds (vectorSize nameCount))
        { size := vectorSize nameCount } = _
      rw [ids, (searchFrom_stops _ _).append, searched]
      change (dfs lockHistory _ _ _).bind _ = _
      rw [arrives.fails hfault]
      rfl
  | @nested steps currentLock lock nextLock s s' round arrives ih =>
      apply ih
      have hrange : s.InRange lock := arrives.1
      have hnew : s.visitedOrder lock = -1 := arrives.2.1
      rw [visitNext, if_neg (not_not_intro hrange), if_pos hnew, arrives.fails hfault]

/-- A call that ends with a report failed in a round that it came to. -/
theorem arrives_of_deadLock (h : dfs lockHistory (steps + 1) lock s = .error (.deadLock edges)) :
    ∃ nextLock s', Arrives lockHistory steps lock s nextLock s' ∧
      visitNext (dfs lockHistory steps) lock nextLock s' = .error (.deadLock edges) := by
  rw [dfs] at h
  by_cases hrange : s.InRange lock
  swap
  · rw [if_pos hrange] at h
    cases h
  rw [if_neg (not_not_intro hrange)] at h
  by_cases hnew : s.visitedOrder lock = -1
  swap
  · rw [if_pos hnew] at h
    cases h
  rw [if_neg (not_not_intro hnew)] at h
  cases hnext : lockHistory lock with
  | none =>
      simp only [hnext] at h
      cases h
  | some nextSet =>
      simp only [hnext] at h
      cases hall : visitAll (dfs lockHistory steps) lock nextSet (s.visit lock) with
      | ok s' =>
          rw [hall] at h
          cases h
      | error fault =>
          rw [hall] at h
          cases h
          obtain ⟨before, nextLock, after, s', rfl, hbefore, hfails⟩ := (visitAll_stops _ _).error hall
          exact ⟨nextLock, s', ⟨hrange, hnew, before, after, hnext, hbefore⟩, hfails⟩

/-- A round over a lock that was visited earlier and is not finished. -/
structure Closes (s : Search) (currentLock nextLock : Int32) : Prop where
  range : s.InRange nextLock
  visited : s.visitedOrder nextLock ≠ -1
  earlier : ¬s.visitedOrder currentLock < s.visitedOrder nextLock
  unfinished : s.isFinished nextLock = false

/-- Such a round reports. -/
theorem Closes.visitNext (h : Closes s currentLock nextLock)
    (visit : Int32 → Search → Except ProfilerFault Search) :
    visitNext visit currentLock nextLock s = .error (reportCycle s currentLock nextLock) := by
  rw [DeadLockProfiler.visitNext, if_neg (not_not_intro h.range), if_neg h.visited,
    if_neg h.earlier, if_pos h.unfinished]

/-- A round that ends with a report reports itself, or the call that it makes does. -/
theorem visitNext_deadLock {visit : Int32 → Search → Except ProfilerFault Search}
    (h : visitNext visit currentLock nextLock s = .error (.deadLock edges)) :
    (Closes s currentLock nextLock ∧ reportCycle s currentLock nextLock = .deadLock edges) ∨
      visit nextLock (s.setParent nextLock currentLock) = .error (.deadLock edges) := by
  unfold visitNext at h
  split at h
  · cases h
  next hrange =>
    split at h
    · exact .inr h
    next hvisited =>
      split at h
      · cases h
      next hearlier =>
        split at h
        next hunfinished =>
          exact .inl ⟨⟨not_not.mp hrange, hvisited, hearlier, hunfinished⟩, Except.error.inj h⟩
        · cases h

/-- From a round that ends with a report the search comes to the one that reports. -/
theorem Round.reports (round : Round lockHistory nameCount steps currentLock nextLock s)
    (h : visitNext (dfs lockHistory steps) currentLock nextLock s = .error (.deadLock edges)) :
    ∃ steps currentLock nextLock s, Round lockHistory nameCount steps currentLock nextLock s ∧
      Closes s currentLock nextLock ∧ reportCycle s currentLock nextLock = .deadLock edges := by
  induction steps generalizing currentLock nextLock s with
  | zero =>
      obtain hreports | hcall := visitNext_deadLock h
      · exact ⟨0, currentLock, nextLock, s, round, hreports⟩
      · cases hcall
  | succ steps ih =>
      obtain hreports | hcall := visitNext_deadLock h
      · exact ⟨steps + 1, currentLock, nextLock, s, round, hreports⟩
      · obtain ⟨next, s', harrives, hfails⟩ := arrives_of_deadLock hcall
        exact ih (.nested round harrives) hfails

/-- `CheckCycle` reports edges exactly when it comes to a round that reports them. -/
theorem checkCycle_deadLock_iff :
    checkCycle lockHistory nameCount = .error (.deadLock edges) ↔
      ∃ steps currentLock nextLock s, Round lockHistory nameCount steps currentLock nextLock s ∧
        Closes s currentLock nextLock ∧
        reportCycle s currentLock nextLock = .deadLock edges := by
  constructor
  · intro h
    by_cases hnonneg : Int32.ofNat nameCount < 0
    · rw [checkCycle, if_pos hnonneg] at h
      cases h
    rw [checkCycle, if_neg hnonneg] at h
    obtain ⟨before, lock, after, s, hids, hbefore, hcall⟩ := (searchFrom_stops _ _).error h
    obtain ⟨nextLock, s', harrives, hfails⟩ := arrives_of_deadLock hcall
    exact (Round.root hnonneg hids hbefore harrives).reports hfails
  · rintro ⟨steps, currentLock, nextLock, s, round, closes, hreport⟩
    apply round.fails
    rw [closes.visitNext, hreport]

/-- The search at a round: at the current lock, over a recorded edge, with enough steps
for the calls to come. -/
structure AtRound (lockHistory : Int32 → Option (List Int32)) (steps : ℕ)
    (currentLock nextLock : Int32) (s : Search) : Prop where
  exploring : ∃ path, Exploring lockHistory s (currentLock :: path)
  edge : Edge lockHistory currentLock nextLock
  enough : s.size < steps + s.seen.card

/-- The rounds before it leave the search at the visited lock. -/
theorem Arrives.atRound (h : Arrives lockHistory steps lock s nextLock s')
    (irrefl : ∀ u, ¬Edge lockHistory u u) (exploring : Exploring lockHistory s path)
    (head : ∀ parent ∈ path.head?, s.parent lock = parent ∧ Edge lockHistory parent lock)
    (enough : s.size < steps + 1 + s.seen.card) :
    AtRound lockHistory steps lock nextLock s' := by
  obtain ⟨hrange, hnew, before, after, hnext, hbefore⟩ := h
  have hnew' : ¬s.Visited lock := not_not_intro hnew
  have hedges : ∀ i ∈ before ++ nextLock :: after, Edge lockHistory lock i := by
    intro i hi
    simpa [Edge, hnext] using hi
  obtain ⟨hcard, -⟩ := exploring.card_seen_visit hrange hnew'
  have houtcome := visitAll_spec (dfs_explores irrefl steps) before
    (exploring.visit hrange hnew' head) irrefl
    (fun i hi => hedges i (List.mem_append_left _ hi))
    (by rw [hcard, Search.visit_size]; omega)
  rw [hbefore] at houtcome
  obtain ⟨hexploring, hextends, -⟩ := houtcome
  have hmore := hextends.card_seen
  have hsize := hextends.size
  rw [Search.visit_size] at hsize
  exact ⟨⟨path, hexploring⟩, hedges nextLock (by simp), by omega⟩

theorem Round.atRound (h : Round lockHistory nameCount steps currentLock nextLock s)
    (irrefl : ∀ u, ¬Edge lockHistory u u) :
    AtRound lockHistory steps currentLock nextLock s := by
  induction h with
  | root nonneg ids searched arrives =>
      have hsmall := vectorSize_lt nameCount
      have houtcome := searchFrom_explores irrefl (vectorSize nameCount + 1) _
        (exploring_start hsmall)
        (fun i hi => (mem_lockIds hsmall).mp (ids ▸ List.mem_append_left _ hi))
        (by change vectorSize nameCount < _; omega)
      rw [searched] at houtcome
      obtain ⟨hexploring, hextends, -⟩ := houtcome
      have hsize : _ = vectorSize nameCount := hextends.size
      exact arrives.atRound irrefl hexploring (fun _ hmem => by cases hmem) (by omega)
  | @nested steps currentLock lock nextLock s s' round arrives ih =>
      obtain ⟨⟨path, hexploring⟩, hedge, henough⟩ := ih
      have hnew : ¬s.Visited lock := not_not_intro arrives.2.1
      refine arrives.atRound irrefl (hexploring.setParent hnew _) ?_ henough
      rintro parent hmem
      cases hmem
      exact ⟨by simp [Search.setParent], hedge⟩

/-- A round that closes a cycle ends `CheckCycle` with the edges of the walk back. -/
theorem Round.reported (round : Round lockHistory nameCount steps currentLock nextLock s)
    (irrefl : ∀ u, ¬Edge lockHistory u u) (closes : Closes s currentLock nextLock) :
    ∃ edges, BackWalk s.parent s.InRange nextLock currentLock edges ∧
      ClosedCycle (Edge lockHistory) nextLock ((currentLock, nextLock) :: edges) ∧
      checkCycle lockHistory nameCount = .error (.deadLock ((currentLock, nextLock) :: edges)) := by
  obtain ⟨⟨path, hexploring⟩, hedge, -⟩ := round.atRound irrefl
  have hmem := hexploring.mem_of_open irrefl hedge closes.visited closes.unfinished
  obtain ⟨edges, hwalk, hcycle, hreport⟩ := reportCycle_spec hexploring hedge hmem
  refine ⟨edges, hwalk, hcycle, round.fails ?_⟩
  rw [closes.visitNext, hreport]

/-- The loop that prints the cycle ends at `nextLock` with all its indices in range, and
the edges printed are recorded edges that form a directed cycle. -/
theorem reportedCycle_closed (irrefl : ∀ u, ¬Edge lockHistory u u)
    (round : Round lockHistory nameCount steps currentLock nextLock s)
    (visited : s.visitedOrder nextLock ≠ -1)
    (earlier : ¬s.visitedOrder currentLock < s.visitedOrder nextLock)
    (unfinished : s.isFinished nextLock = false) :
    ∃ edges, BackWalk s.parent s.InRange nextLock currentLock edges ∧
      ClosedCycle (Edge lockHistory) nextLock ((currentLock, nextLock) :: edges) ∧
      checkCycle lockHistory nameCount = .error (.deadLock ((currentLock, nextLock) :: edges)) := by
  obtain ⟨⟨path, hexploring⟩, -, -⟩ := round.atRound irrefl
  have hrange := hexploring.range nextLock visited
  exact round.reported irrefl ⟨hrange, visited, earlier, unfinished⟩

/-- Whatever `CheckCycle` reports is a closed cycle of recorded edges. -/
theorem closedCycle_of_deadLock (irrefl : ∀ u, ¬Edge lockHistory u u)
    (h : checkCycle lockHistory nameCount = .error (.deadLock edges)) :
    ∃ lock, ClosedCycle (Edge lockHistory) lock edges := by
  obtain ⟨steps, currentLock, nextLock, s, round, closes, hreport⟩ := checkCycle_deadLock_iff.mp h
  obtain ⟨edges', -, hcycle, hcheck⟩ := round.reported irrefl closes
  rw [h] at hcheck
  cases hcheck
  exact ⟨nextLock, hcycle⟩

/-- The given steps suffice whatever was recorded. -/
theorem checkCycle_ne_steps (irrefl : ∀ u, ¬Edge lockHistory u u) (nameCount : ℕ) :
    checkCycle lockHistory nameCount ≠ .error .steps := by
  intro h
  by_cases hnonneg : Int32.ofNat nameCount < 0
  · rw [checkCycle, if_pos hnonneg] at h
    cases h
  rw [checkCycle, if_neg hnonneg] at h
  have hsmall := vectorSize_lt nameCount
  have houtcome := searchFrom_explores irrefl (vectorSize nameCount + 1) (lockIds _)
    (exploring_start hsmall) (fun i => (mem_lockIds hsmall).mp)
    (by change vectorSize nameCount < _; omega)
  unfold vectorSize at houtcome
  rw [h] at houtcome
  obtain ⟨heq, -⟩ | ⟨lock, edges, heq, -⟩ := houtcome <;> cases heq

/-- The search of `bothOrders` at lock 1, which was taken next from lock 0. -/
def secondLock : Search := (((({ size := 2 } : Search).visit 0).setParent 1 0).visit 1)

theorem round_bothOrders : Round bothOrders 2 1 1 0 secondLock := by
  have hsize : vectorSize 2 = 2 := rfl
  have hfirst : Round bothOrders 2 (vectorSize 2) 0 1 (Search.visit { size := 2 } 0) := by
    have hids : lockIds (vectorSize 2) = [] ++ 0 :: [1] := rfl
    have hsearched : searchFrom bothOrders (vectorSize 2 + 1) [] { size := vectorSize 2 } =
        .ok { size := 2 } := rfl
    exact .root (by decide) hids hsearched ⟨by decide, rfl, [], [], rfl, rfl⟩
  rw [hsize] at hfirst
  exact .nested hfirst ⟨by decide, rfl, [], [], rfl, rfl⟩

theorem reportedCycle_closed_bothOrders :
    ∃ edges, BackWalk secondLock.parent secondLock.InRange 0 1 edges ∧
      ClosedCycle (Edge bothOrders) 0 ((1, 0) :: edges) ∧
      checkCycle bothOrders 2 = .error (.deadLock ((1, 0) :: edges)) := by
  apply reportedCycle_closed _ round_bothOrders (by decide) (by decide) rfl
  intro u h
  obtain ⟨rfl, h⟩ | ⟨rfl, h⟩ := edge_bothOrders h <;> exact absurd h (by decide)

end DeadLockProfiler

end ServerCore
