import Mathlib.Data.Finset.Card
import Mathlib.Data.Finset.Filter
import Mathlib.Data.Finset.Range
import Mathlib.Data.List.Chain
import ServerCore.Acyclic
import ServerCore.BackWalk
import ServerCore.DeadLockProfiler.Basic
import ServerCore.Word

/-!
# `CheckCycle` decides acyclicity

During the search a lock is unvisited, finished, or on the path from the current lock
back to the root. `Exploring` says that the path is linked by `parent`, that its locks
were visited in order, and that the finished locks are cleared: they reach no cycle. A
visit extends the search and leaves the path as it was (`Extends`), so a lock that is
visited and not on the path is finished; this is what the comparison of the visiting
orders relies on.

The search ends within its steps, and it crashes only on a cycle.
-/

namespace ServerCore

open Reach Relation

namespace Search

variable {s s' : Search} {i lock : Int32}

def Visited (s : Search) (i : Int32) : Prop := s.visitedOrder i ≠ -1

/-- The indices that were visited. -/
def seen (s : Search) : Finset ℕ :=
  (Finset.range s.size).filter fun k => s.visitedOrder (Int32.ofNat k) ≠ -1

theorem card_seen_le (s : Search) : s.seen.card ≤ s.size := by
  have hcard := Finset.card_filter_le (Finset.range s.size)
    fun k => s.visitedOrder (Int32.ofNat k) ≠ -1
  rwa [Finset.card_range] at hcard

/-- An index in range is the number that it stands for. -/
theorem InRange.ofNat (h : s.InRange i) : Int32.ofNat i.toInt.toNat = i := by
  have hlt := Int32.toInt_lt i
  have hnonneg := h.1
  rw [← Int32.toInt_inj, Int32.toInt_ofNat_of_lt (by omega)]
  omega

@[simp] theorem visit_size : (s.visit lock).size = s.size := rfl

@[simp] theorem finish_size : (s.finish lock).size = s.size := rfl

@[simp] theorem finish_order : (s.finish lock).visitedOrder = s.visitedOrder := rfl

@[simp] theorem setParent_size (p : Int32) : (s.setParent lock p).size = s.size := rfl

@[simp] theorem setParent_order (p : Int32) :
    (s.setParent lock p).visitedOrder = s.visitedOrder := rfl

@[simp] theorem visit_self : (s.visit lock).visitedOrder lock = s.totalNodeCount := by
  simp [visit]

theorem visit_other (h : i ≠ lock) : (s.visit lock).visitedOrder i = s.visitedOrder i := by
  simp [visit, h]

@[simp] theorem finish_self : (s.finish lock).isFinished lock = true := by
  simp [finish]

theorem finish_other (h : i ≠ lock) : (s.finish lock).isFinished i = s.isFinished i := by
  simp [finish, h]

theorem setParent_other (p : Int32) (h : i ≠ lock) :
    (s.setParent lock p).parent i = s.parent i := by
  simp [setParent, h]

/-- A later search of the same size that keeps what was visited and finished. -/
structure Extends (s s' : Search) : Prop where
  size : s'.size = s.size
  order : ∀ i, s.Visited i → s'.visitedOrder i = s.visitedOrder i
  finished : ∀ i, s.isFinished i = true → s'.isFinished i = true
  parent : ∀ i, s.Visited i → s'.parent i = s.parent i

namespace Extends

theorem refl (s : Search) : Extends s s :=
  ⟨rfl, fun _ _ => rfl, fun _ h => h, fun _ _ => rfl⟩

theorem visited (h : Extends s s') (hi : s.Visited i) : s'.Visited i := by
  rw [Visited, h.order i hi]
  exact hi

theorem trans {s'' : Search} (h : Extends s s') (h' : Extends s' s'') : Extends s s'' where
  size := h'.size.trans h.size
  order i hi := (h'.order i (h.visited hi)).trans (h.order i hi)
  finished i hi := h'.finished i (h.finished i hi)
  parent i hi := (h'.parent i (h.visited hi)).trans (h.parent i hi)

/-- The longer search has seen more. -/
theorem card_seen (h : Extends s s') : s.seen.card ≤ s'.seen.card := by
  apply Finset.card_le_card
  intro k hk
  simp only [seen, Finset.mem_filter, Finset.mem_range, h.size] at hk ⊢
  exact ⟨hk.1, h.visited hk.2⟩

theorem setParent (new : ¬s.Visited lock) (p : Int32) : Extends s (s.setParent lock p) := by
  refine ⟨rfl, fun _ _ => rfl, fun _ h => h, fun i hi => ?_⟩
  apply setParent_other
  rintro rfl
  exact new hi

theorem visit (new : ¬s.Visited lock) : Extends s (s.visit lock) := by
  refine ⟨rfl, fun i hi => ?_, fun _ h => h, fun _ _ => rfl⟩
  apply visit_other
  rintro rfl
  exact new hi

theorem finish (s : Search) (lock : Int32) : Extends s (s.finish lock) := by
  refine ⟨rfl, fun _ _ => rfl, fun i hi => ?_, fun _ _ => rfl⟩
  by_cases h : i = lock
  · subst h
    exact finish_self
  · rw [finish_other h]
    exact hi

end Extends

end Search

namespace DeadLockProfiler

/-- An edge was recorded from `u` to `v`. -/
def Edge (lockHistory : Int32 → Option (List Int32)) (u v : Int32) : Prop :=
  v ∈ (lockHistory u).getD []

instance (lockHistory : Int32 → Option (List Int32)) (u v : Int32) :
    Decidable (Edge lockHistory u v) :=
  inferInstanceAs (Decidable (_ ∈ _))

variable {lockHistory : Int32 → Option (List Int32)} {s s' : Search} {path rest : List Int32}
  {lock currentLock nextLock : Int32} {steps : ℕ}

/-- The search is at the first lock of `path`, which goes back to the root. -/
structure Exploring (lockHistory : Int32 → Option (List Int32)) (s : Search)
    (path : List Int32) : Prop where
  small : s.size < 2 ^ 31
  total : s.totalNodeCount.toInt = s.seen.card
  range : ∀ i, s.Visited i → s.InRange i
  order : ∀ i, s.Visited i → 0 ≤ (s.visitedOrder i).toInt ∧
    (s.visitedOrder i).toInt < s.totalNodeCount.toInt
  visited : ∀ i, s.isFinished i = true → s.Visited i
  onPath : ∀ i, s.Visited i ∧ s.isFinished i = false ↔ i ∈ path
  cleared : Cleared (Edge lockHistory) fun i => s.isFinished i = true
  linked : path.IsChain fun child parent =>
    s.parent child = parent ∧ Edge lockHistory parent child
  sorted : path.Pairwise fun a b => (s.visitedOrder b).toInt < (s.visitedOrder a).toInt

namespace Exploring

/-- A visited lock that is not on the path is finished. -/
theorem finished (h : Exploring lockHistory s path) {i : Int32} (hi : s.Visited i)
    (off : i ∉ path) : s.isFinished i = true := by
  by_contra hunfinished
  exact off ((h.onPath i).mp ⟨hi, Bool.eq_false_iff.mpr hunfinished⟩)

theorem setParent (h : Exploring lockHistory s path) (new : ¬s.Visited lock) (p : Int32) :
    Exploring lockHistory (s.setParent lock p) path := by
  refine ⟨h.small, h.total, h.range, h.order, h.visited, h.onPath, h.cleared, ?_, h.sorted⟩
  apply h.linked.imp_of_mem_imp
  intro child parent hchild _ hlink
  rwa [Search.setParent_other]
  rintro rfl
  exact new ((h.onPath child).mpr hchild).1

theorem total_ne (h : Exploring lockHistory s path) : s.totalNodeCount ≠ -1 := by
  intro heq
  have htotal := h.total
  rw [heq] at htotal
  change (-1 : ℤ) = _ at htotal
  omega

theorem visited_visit (h : Exploring lockHistory s path) (lock i : Int32) :
    (s.visit lock).Visited i ↔ i = lock ∨ s.Visited i := by
  unfold Search.Visited
  by_cases hi : i = lock
  · subst hi
    rw [Search.visit_self]
    exact ⟨fun _ => .inl rfl, fun _ => h.total_ne⟩
  · rw [Search.visit_other hi]
    exact ⟨.inr, fun hor => hor.resolve_left hi⟩

/-- A visit adds one index to those that were seen. -/
theorem seen_visit (h : Exploring lockHistory s path) (hlock : s.InRange lock) :
    (s.visit lock).seen = insert lock.toInt.toNat s.seen := by
  have hsmall := h.small
  obtain ⟨hnonneg, hlt⟩ := hlock
  ext k
  simp only [Search.seen, Finset.mem_filter, Finset.mem_range, Search.visit_size,
    Finset.mem_insert]
  have hk := h.visited_visit lock (Int32.ofNat k)
  unfold Search.Visited at hk
  rw [hk]
  constructor
  · rintro ⟨hrange, heq | hvisited⟩
    · left
      rw [← heq, Int32.toInt_ofNat_of_lt (by omega)]
      rfl
    · exact .inr ⟨hrange, hvisited⟩
  · rintro (rfl | ⟨hrange, hvisited⟩)
    · exact ⟨by omega, .inl (Search.InRange.ofNat ⟨hnonneg, hlt⟩)⟩
    · exact ⟨hrange, .inr hvisited⟩

/-- Visiting a new lock counts it, and there was room for it. -/
theorem card_seen_visit (h : Exploring lockHistory s path) (hlock : s.InRange lock)
    (new : ¬s.Visited lock) :
    (s.visit lock).seen.card = s.seen.card + 1 ∧ s.seen.card < s.size := by
  have hfresh : lock.toInt.toNat ∉ s.seen := by
    intro hmem
    rw [Search.seen, Finset.mem_filter, hlock.ofNat] at hmem
    exact new hmem.2
  have hcard : (s.visit lock).seen.card = s.seen.card + 1 := by
    rw [h.seen_visit hlock, Finset.card_insert_of_notMem hfresh]
  have hle := Search.card_seen_le (s.visit lock)
  rw [Search.visit_size] at hle
  exact ⟨hcard, by omega⟩

/-- Visiting a new lock puts it in front of the path. -/
theorem visit (h : Exploring lockHistory s path) (hlock : s.InRange lock)
    (new : ¬s.Visited lock)
    (head : ∀ parent ∈ path.head?, s.parent lock = parent ∧ Edge lockHistory parent lock) :
    Exploring lockHistory (s.visit lock) (lock :: path) := by
  obtain ⟨hcard, hroom⟩ := h.card_seen_visit hlock new
  have hsmall := h.small
  have htotal := h.total
  have hone : (1 : Int32).toInt = 1 := rfl
  have hsucc : (s.visit lock).totalNodeCount.toInt = s.totalNodeCount.toInt + 1 := by
    change (s.totalNodeCount + 1).toInt = _
    rw [Word.toInt_add_of_fits (by omega) (by omega), hone]
  have hold : ∀ i, s.Visited i → (s.visit lock).visitedOrder i = s.visitedOrder i :=
    (Search.Extends.visit new).order
  have honPath : ∀ i ∈ path, s.Visited i := fun i hi => ((h.onPath i).mpr hi).1
  constructor
  case small => exact h.small
  case total => rw [hsucc, htotal, hcard, Nat.cast_succ]
  case range =>
    intro i hi
    obtain rfl | hi := (h.visited_visit lock i).mp hi
    · exact hlock
    · exact h.range i hi
  case order =>
    intro i hi
    obtain rfl | hi := (h.visited_visit lock i).mp hi
    · rw [Search.visit_self, hsucc]
      omega
    · rw [hold i hi, hsucc]
      have := h.order i hi
      omega
  case visited =>
    intro i hi
    exact (h.visited_visit lock i).mpr (.inr (h.visited i hi))
  case onPath =>
    intro i
    rw [h.visited_visit, List.mem_cons, ← h.onPath]
    constructor
    · rintro ⟨rfl | hi, hopen⟩
      · exact .inl rfl
      · exact .inr ⟨hi, hopen⟩
    · rintro (rfl | ⟨hi, hopen⟩)
      · exact ⟨.inl rfl, Bool.eq_false_iff.mpr fun hdone => new (h.visited i hdone)⟩
      · exact ⟨.inr hi, hopen⟩
  case cleared => exact h.cleared
  case linked =>
    apply h.linked.cons
    intro parent hparent
    exact head parent hparent
  case sorted =>
    apply List.Pairwise.cons
    · intro i hi
      rw [Search.visit_self, hold i (honPath i hi)]
      exact (h.order i (honPath i hi)).2
    · apply h.sorted.imp_of_mem
      intro i j hi hj hij
      rwa [hold i (honPath i hi), hold j (honPath j hj)]

/-- The head of the path is finished when all its successors are. -/
theorem finish (h : Exploring lockHistory s (lock :: path))
    (next : ∀ i, Edge lockHistory lock i → s.isFinished i = true) :
    Exploring lockHistory (s.finish lock) path := by
  have hlock := (h.onPath lock).mpr List.mem_cons_self
  have hoff : lock ∉ path := by
    intro hmem
    exact lt_irrefl _ ((List.pairwise_cons.mp h.sorted).1 lock hmem)
  have hdone : ∀ i, (s.finish lock).isFinished i = true ↔ i = lock ∨ s.isFinished i = true := by
    intro i
    by_cases hi : i = lock
    · subst hi
      simp
    · simp [Search.finish_other hi, hi]
  constructor
  case small => exact h.small
  case total => exact h.total
  case range => exact h.range
  case order => exact h.order
  case visited =>
    intro i hi
    obtain rfl | hi := (hdone i).mp hi
    · exact hlock.1
    · exact h.visited i hi
  case onPath =>
    intro i
    rw [← Bool.not_eq_true, hdone, not_or, Bool.not_eq_true]
    have hmem := h.onPath i
    rw [List.mem_cons] at hmem
    constructor
    · rintro ⟨hi, hne, hopen⟩
      exact (hmem.mp ⟨hi, hopen⟩).resolve_left hne
    · intro hi
      obtain ⟨hvisited, hopen⟩ := hmem.mpr (.inr hi)
      exact ⟨hvisited, fun heq => hoff (heq ▸ hi), hopen⟩
  case cleared =>
    have hcleared := h.cleared.insert (Bool.eq_false_iff.mp hlock.2) next
    exact ⟨fun i j hi hij => (hdone j).mpr (hcleared.closed i j ((hdone i).mp hi) hij),
      fun i hi => hcleared.acyclic i ((hdone i).mp hi)⟩
  case linked => exact h.linked.tail
  case sorted => exact h.sorted.of_cons

/-- A visited lock that is not finished is further up the path than the current one. -/
theorem mem_of_open (h : Exploring lockHistory s (currentLock :: path))
    (irrefl : ∀ u, ¬Edge lockHistory u u) (edge : Edge lockHistory currentLock nextLock)
    (visited : s.Visited nextLock) (unfinished : s.isFinished nextLock = false) :
    nextLock ∈ path := by
  have hmem := (h.onPath nextLock).mp ⟨visited, unfinished⟩
  apply (List.mem_cons.mp hmem).resolve_left
  rintro rfl
  exact irrefl _ edge

theorem nodup (h : Exploring lockHistory s path) : path.Nodup := by
  apply h.sorted.imp
  rintro a b hab rfl
  exact lt_irrefl _ hab

theorem path_range (h : Exploring lockHistory s path) : ∀ i ∈ path, s.InRange i :=
  fun i hi => h.range i ((h.onPath i).mpr hi).1

/-- The path is no longer than the vectors. -/
theorem path_length_le (h : Exploring lockHistory s path) : path.length ≤ s.size := by
  have hnodup : (path.map fun i => i.toInt.toNat).Nodup := by
    apply h.nodup.map_on
    intro i hi j hj hij
    rw [← (h.path_range i hi).ofNat, hij, (h.path_range j hj).ofNat]
  have hsub : (path.map fun i => i.toInt.toNat).toFinset ⊆ Finset.range s.size := by
    intro k hk
    obtain ⟨i, hi, rfl⟩ := List.mem_map.mp (List.mem_toFinset.mp hk)
    obtain ⟨hnonneg, hlt⟩ := h.path_range i hi
    rw [Finset.mem_range]
    omega
  have hcard := Finset.card_le_card hsub
  rwa [List.toFinset_card_of_nodup hnodup, List.length_map, Finset.card_range] at hcard

end Exploring

/-- The loop ends within its steps when they are no fewer than its rounds. -/
theorem cycleEdges_of_backWalk {now : Int32} {edges : List (Int32 × Int32)}
    (h : BackWalk s.parent s.InRange nextLock now edges) (hsteps : edges.length ≤ steps) :
    cycleEdges s nextLock steps now = .ok edges := by
  induction h generalizing steps with
  | arrive readable arrived =>
      obtain ⟨steps, rfl⟩ := Nat.exists_eq_add_of_le' hsteps
      change cycleEdges s nextLock (steps + 1) _ = _
      rw [cycleEdges, if_neg (not_not_intro readable), if_pos arrived]
  | back readable further rest ih =>
      obtain ⟨steps, rfl⟩ := Nat.exists_eq_succ_of_ne_zero (Nat.ne_zero_of_lt hsteps)
      rw [cycleEdges, if_neg (not_not_intro readable), if_neg further,
        ih (Nat.le_of_succ_le_succ hsteps)]
      rfl

/-- The edges join locks in range, and no lock is joined to itself. -/
structure Recorded (lockHistory : Int32 → Option (List Int32)) (size : ℕ) : Prop where
  source : ∀ u v, Edge lockHistory u v → 0 ≤ u.toInt ∧ u.toInt < size
  target : ∀ u v, Edge lockHistory u v → 0 ≤ v.toInt ∧ v.toInt < size
  irrefl : ∀ u, ¬Edge lockHistory u u

/-- An edge back to the path is reported: the loop over `parent` ends at `nextLock`, and
with the edge its edges are a closed cycle. -/
theorem reportCycle_spec (h : Exploring lockHistory s (currentLock :: path))
    (edge : Edge lockHistory currentLock nextLock) (hmem : nextLock ∈ path) :
    ∃ edges, BackWalk s.parent s.InRange nextLock currentLock edges ∧
      ClosedCycle (Edge lockHistory) nextLock ((currentLock, nextLock) :: edges) ∧
      reportCycle s currentLock nextLock = .deadLock ((currentLock, nextLock) :: edges) := by
  obtain ⟨edges, hwalk, hleads, hprefix⟩ := backWalk_of_linked h.linked h.path_range hmem
  refine ⟨edges, hwalk, ⟨hleads.cons edge, ?_⟩, ?_⟩
  · exact ((List.prefix_cons_inj currentLock).mpr hprefix).sublist.nodup h.nodup
  · have hlength := hprefix.length_le
    have hpath := h.path_length_le
    rw [List.length_map] at hlength
    rw [List.length_cons] at hpath
    rw [reportCycle, cycleEdges_of_backWalk hwalk (by omega)]

/-- What a search over edges without self-loops fails with: an edge to a lock out of
range, or a report whose edges are a closed cycle. -/
def Failure (lockHistory : Int32 → Option (List Int32)) (size : ℕ) (fault : ProfilerFault) :
    Prop :=
  (fault = .range ∧ ∃ u v, Edge lockHistory u v ∧ ¬(0 ≤ v.toInt ∧ v.toInt < size)) ∨
    ∃ lock edges, fault = .deadLock edges ∧ ClosedCycle (Edge lockHistory) lock edges

/-- A visit ends with an extended search at the same path, or it fails. -/
def Outcome (lockHistory : Int32 → Option (List Int32)) (path : List Int32) (s : Search)
    (post : Search → Prop) : Except ProfilerFault Search → Prop
  | .ok s' => Exploring lockHistory s' path ∧ Search.Extends s s' ∧ post s'
  | .error fault => Failure lockHistory s.size fault

namespace Outcome

variable {post post' : Search → Prop} {result : Except ProfilerFault Search}

theorem imp (h : Outcome lockHistory path s post result)
    (weaker : ∀ s', Exploring lockHistory s' path → Search.Extends s s' → post s' → post' s') :
    Outcome lockHistory path s post' result := by
  cases result with
  | error fault => exact h
  | ok s' =>
      obtain ⟨hexploring, hextends, hpost⟩ := h
      exact ⟨hexploring, hextends, weaker s' hexploring hextends hpost⟩

/-- Two searches at the same path, one after the other. -/
theorem bind {rest : Search → Except ProfilerFault Search}
    (h : Outcome lockHistory path s post result)
    (next : ∀ s', Exploring lockHistory s' path → Search.Extends s s' → post s' →
      Outcome lockHistory path s' post' (rest s')) :
    Outcome lockHistory path s post' (result.bind rest) := by
  cases result with
  | error fault => exact h
  | ok s' =>
      obtain ⟨hexploring, hextends, hpost⟩ := h
      have hnext := next s' hexploring hextends hpost
      change Outcome _ _ _ _ (rest s')
      cases hrest : rest s' with
      | error fault =>
          rw [hrest] at hnext
          change Failure lockHistory s.size fault
          rw [← hextends.size]
          exact hnext
      | ok s'' =>
          rw [hrest] at hnext
          obtain ⟨hexploring', hextends', hpost'⟩ := hnext
          exact ⟨hexploring', hextends.trans hextends', hpost'⟩

end Outcome

/-- A visit ends with an extended search at the same path, or it reports a cycle. -/
def Searches (lockHistory : Int32 → Option (List Int32)) (path : List Int32) (s : Search)
    (post : Search → Prop) : Except ProfilerFault Search → Prop
  | .ok s' => Exploring lockHistory s' path ∧ Search.Extends s s' ∧ post s'
  | .error fault => (∃ edges, fault = .deadLock edges) ∧ ¬Acyclic (Edge lockHistory)

/-- Where all targets are in range, only a cycle makes a visit fail. -/
theorem Outcome.searches {post : Search → Prop} {result : Except ProfilerFault Search}
    (h : Outcome lockHistory path s post result) (recorded : Recorded lockHistory s.size) :
    Searches lockHistory path s post result := by
  cases result with
  | ok s' => exact h
  | error fault =>
      obtain ⟨-, u, v, hedge, hrange⟩ | ⟨lock, edges, rfl, hcycle⟩ := h
      · exact absurd (recorded.target u v hedge) hrange
      · exact ⟨⟨edges, rfl⟩, fun hacyclic => hacyclic lock hcycle.transGen⟩

/-- What a call of `DFS` from the path does, when the given steps are enough, whatever was
recorded. -/
def Explores (lockHistory : Int32 → Option (List Int32)) (steps : ℕ)
    (visit : Int32 → Search → Except ProfilerFault Search) : Prop :=
  ∀ lock s path, Exploring lockHistory s path → s.InRange lock →
    (¬s.Visited lock → ∀ parent ∈ path.head?,
      s.parent lock = parent ∧ Edge lockHistory parent lock) →
    s.size < steps + s.seen.card →
    Outcome lockHistory path s (fun s' => s'.Visited lock) (visit lock s)

section Visit

variable {visit : Int32 → Search → Except ProfilerFault Search}

/-- After its round, a lock taken next is finished. -/
theorem visitNext_spec (hvisit : Explores lockHistory steps visit)
    (h : Exploring lockHistory s (currentLock :: path))
    (irrefl : ∀ u, ¬Edge lockHistory u u)
    (edge : Edge lockHistory currentLock nextLock) (enough : s.size < steps + s.seen.card) :
    Outcome lockHistory (currentLock :: path) s (fun s' => s'.isFinished nextLock = true)
      (visitNext visit currentLock nextLock s) := by
  unfold visitNext
  by_cases hrange : s.InRange nextLock
  swap
  · rw [if_pos hrange]
    exact .inl ⟨rfl, currentLock, nextLock, edge, hrange⟩
  rw [if_neg (not_not_intro hrange)]
  by_cases hnew : s.visitedOrder nextLock = -1
  · rw [if_pos hnew]
    have hnew' : ¬s.Visited nextLock := not_not_intro hnew
    have hoff : nextLock ∉ currentLock :: path := fun hmem => hnew' ((h.onPath _).mpr hmem).1
    have hparent : (s.setParent nextLock currentLock).parent nextLock = currentLock := by
      simp [Search.setParent]
    have hdone := hvisit nextLock _ _ (h.setParent hnew' currentLock) hrange
      (fun _ parent hmem => by
        cases hmem
        exact ⟨hparent, edge⟩) enough
    cases hresult : visit nextLock (s.setParent nextLock currentLock) with
    | ok s' =>
        rw [hresult] at hdone
        obtain ⟨hexploring, hextends, hvisited⟩ := hdone
        exact ⟨hexploring, (Search.Extends.setParent hnew' _).trans hextends,
          hexploring.finished hvisited hoff⟩
    | error fault =>
        rw [hresult] at hdone
        exact hdone
  · rw [if_neg hnew]
    by_cases horder : s.visitedOrder currentLock < s.visitedOrder nextLock
    · rw [if_pos horder]
      -- the locks on the path were visited no later than the current one
      refine ⟨h, .refl s, h.finished hnew fun hmem => ?_⟩
      rw [Int32.lt_iff_toInt_lt] at horder
      obtain rfl | hmem := List.mem_cons.mp hmem
      · exact lt_irrefl _ horder
      · exact lt_asymm horder ((List.pairwise_cons.mp h.sorted).1 _ hmem)
    · rw [if_neg horder]
      by_cases hopen : s.isFinished nextLock = false
      · rw [if_pos hopen]
        obtain ⟨edges, -, hcycle, hreport⟩ :=
          reportCycle_spec h edge (h.mem_of_open irrefl edge hnew hopen)
        exact .inr ⟨nextLock, _, hreport, hcycle⟩
      · rw [if_neg hopen]
        exact ⟨h, .refl s, eq_true_of_ne_false hopen⟩

theorem visitAll_spec (hvisit : Explores lockHistory steps visit) (nextSet : List Int32)
    (h : Exploring lockHistory s (currentLock :: path))
    (irrefl : ∀ u, ¬Edge lockHistory u u)
    (edges : ∀ i ∈ nextSet, Edge lockHistory currentLock i)
    (enough : s.size < steps + s.seen.card) :
    Outcome lockHistory (currentLock :: path) s
      (fun s' => ∀ i ∈ nextSet, s'.isFinished i = true)
      (visitAll visit currentLock nextSet s) := by
  induction nextSet generalizing s with
  | nil => exact ⟨h, .refl s, fun i hi => absurd hi List.not_mem_nil⟩
  | cons nextLock rest ih =>
      apply (visitNext_spec hvisit h irrefl (edges nextLock List.mem_cons_self) enough).bind
      intro s' hexploring hextends hfinished
      have hmore := hextends.card_seen
      have hsize := hextends.size
      apply (ih hexploring (fun i hi => edges i (List.mem_cons_of_mem _ hi)) (by omega)).imp
      intro s'' _ hextends' hrest i hi
      obtain rfl | hi := List.mem_cons.mp hi
      · exact hextends'.finished _ hfinished
      · exact hrest i hi

end Visit

/-- `DFS` visits its lock or fails, within the steps that it is given. -/
theorem dfs_explores (irrefl : ∀ u, ¬Edge lockHistory u u) (steps : ℕ) :
    Explores lockHistory steps (dfs lockHistory steps) := by
  induction steps with
  | zero =>
      intro lock s path _ _ _ enough
      have := s.card_seen_le
      omega
  | succ steps ih =>
      intro lock s path h hlock head enough
      rw [dfs, if_neg (not_not_intro hlock)]
      by_cases hvisited : s.visitedOrder lock = -1
      swap
      · rw [if_pos hvisited]
        exact ⟨h, .refl s, hvisited⟩
      rw [if_neg (not_not_intro hvisited)]
      have hnew : ¬s.Visited lock := not_not_intro hvisited
      have hstart := h.visit hlock hnew (head hnew)
      have hself : (s.visit lock).Visited lock := (h.visited_visit lock lock).mpr (.inl rfl)
      have hextends := Search.Extends.visit hnew
      obtain ⟨hcard, -⟩ := h.card_seen_visit hlock hnew
      cases hnext : lockHistory lock with
      | none =>
          have hsuccessors : ∀ i, ¬Edge lockHistory lock i := by
            intro i hedge
            simp [Edge, hnext] at hedge
          exact ⟨hstart.finish fun i hi => absurd hi (hsuccessors i),
            hextends.trans (.finish _ _), hself⟩
      | some nextSet =>
          have hedges : ∀ i, Edge lockHistory lock i ↔ i ∈ nextSet := by
            intro i
            simp [Edge, hnext]
          have hall := visitAll_spec ih nextSet hstart irrefl (fun i => (hedges i).mpr)
            (by rw [hcard, Search.visit_size]; omega)
          change Outcome _ _ _ _ ((visitAll _ lock nextSet (s.visit lock)).map _)
          cases hresult : visitAll (dfs lockHistory steps) lock nextSet (s.visit lock) with
          | error fault =>
              rw [hresult] at hall
              exact hall
          | ok s' =>
              rw [hresult] at hall
              obtain ⟨hexploring, hextends', hfinished⟩ := hall
              exact ⟨hexploring.finish fun i hi => hfinished i ((hedges i).mp hi),
                (hextends.trans hextends').trans (.finish _ _), hextends'.visited hself⟩

/-- The loop of `CheckCycle` visits all its locks or fails. -/
theorem searchFrom_explores (irrefl : ∀ u, ¬Edge lockHistory u u) (steps : ℕ)
    (ids : List Int32) (h : Exploring lockHistory s []) (range : ∀ i ∈ ids, s.InRange i)
    (enough : s.size < steps + s.seen.card) :
    Outcome lockHistory [] s (fun s' => ∀ i ∈ ids, s'.Visited i)
      (searchFrom lockHistory steps ids s) := by
  induction ids generalizing s with
  | nil => exact ⟨h, .refl s, fun i hi => absurd hi List.not_mem_nil⟩
  | cons lockId rest ih =>
      apply (dfs_explores irrefl steps lockId s [] h (range lockId List.mem_cons_self)
        (fun _ parent hmem => by cases hmem) enough).bind
      intro s' hexploring hextends hvisited
      have hmore := hextends.card_seen
      have hsize := hextends.size
      have hrange : ∀ i ∈ rest, s'.InRange i := by
        intro i hi
        rw [Search.InRange, hsize]
        exact range i (List.mem_cons_of_mem _ hi)
      apply (ih hexploring hrange (by omega)).imp
      intro s'' _ hextends' hrest i hi
      obtain rfl | hi := List.mem_cons.mp hi
      · exact hextends'.visited hvisited
      · exact hrest i hi

/-- The loop of `CheckCycle` visits all its locks or finds a cycle. -/
theorem searchFrom_spec (steps : ℕ) (ids : List Int32) (h : Exploring lockHistory s [])
    (recorded : Recorded lockHistory s.size) (range : ∀ i ∈ ids, s.InRange i)
    (enough : s.size < steps + s.seen.card) :
    Searches lockHistory [] s (fun s' => ∀ i ∈ ids, s'.Visited i)
      (searchFrom lockHistory steps ids s) :=
  (searchFrom_explores recorded.irrefl steps ids h range enough).searches recorded

/-- Before the search no lock was visited. -/
theorem exploring_start {size : ℕ} (small : size < 2 ^ 31) :
    Exploring lockHistory { size } [] := by
  have hnew : ∀ i, ¬Search.Visited { size } i := fun i hi => hi rfl
  have hseen : Search.seen { size } = ∅ := by
    apply Finset.filter_eq_empty_iff.mpr
    intro k _ hk
    exact hk rfl
  refine ⟨small, ?_, fun i hi => absurd hi (hnew i), fun i hi => absurd hi (hnew i),
    fun i hi => absurd hi (by simp), fun i => ?_, ⟨?_, ?_⟩, .nil, .nil⟩
  · rw [hseen]
    rfl
  · exact ⟨fun hi => absurd hi.1 (hnew i), fun hi => absurd hi List.not_mem_nil⟩
  · intro i _ hi
    cases hi
  · intro i hi
    cases hi

/-- The loop of `CheckCycle` goes over the indices of the vectors. -/
theorem mem_lockIds {size : ℕ} (small : size < 2 ^ 31) {i : Int32} :
    i ∈ lockIds size ↔ Search.InRange { size } i := by
  constructor
  · intro hi
    obtain ⟨k, hk, rfl⟩ := List.mem_map.mp hi
    rw [List.mem_range] at hk
    change 0 ≤ (Int32.ofNat k).toInt ∧ (Int32.ofNat k).toInt < (size : ℤ)
    rw [Int32.toInt_ofNat_of_lt (by omega)]
    omega
  · intro hi
    have hbounds : 0 ≤ i.toInt ∧ i.toInt < (size : ℤ) := hi
    refine List.mem_map.mpr ⟨i.toInt.toNat, List.mem_range.mpr (by omega), ?_⟩
    exact Search.InRange.ofNat hi

/-- `CheckCycle` returns exactly when the recorded edges have no cycle. -/
theorem checkCycle_spec {nameCount : ℕ} (small : nameCount < 2 ^ 31)
    (recorded : Recorded lockHistory nameCount) :
    ((∃ search, checkCycle lockHistory nameCount = .ok search) ∧ Acyclic (Edge lockHistory)) ∨
      ((∃ edges, checkCycle lockHistory nameCount = .error (.deadLock edges)) ∧
        ¬Acyclic (Edge lockHistory)) := by
  have hcount : (Int32.ofNat nameCount).toInt = nameCount := Int32.toInt_ofNat_of_lt small
  have hnonneg : ¬Int32.ofNat nameCount < 0 := by
    rw [Int32.lt_iff_toInt_lt, hcount]
    exact Int.not_lt.mpr (Int.natCast_nonneg nameCount)
  have hcheck : checkCycle lockHistory nameCount =
      searchFrom lockHistory (nameCount + 1) (lockIds nameCount) { size := nameCount } := by
    rw [checkCycle, if_neg hnonneg, hcount]
    rfl
  have hall := searchFrom_spec (nameCount + 1) (lockIds nameCount) (exploring_start small)
    recorded (fun _ => (mem_lockIds small).mp) (by change nameCount < nameCount + 1 + _; omega)
  rw [hcheck]
  cases hresult : searchFrom lockHistory (nameCount + 1) (lockIds nameCount)
      { size := nameCount } with
  | error fault =>
      rw [hresult] at hall
      obtain ⟨⟨edges, rfl⟩, hcycle⟩ := hall
      exact .inr ⟨⟨edges, rfl⟩, hcycle⟩
  | ok s' =>
      rw [hresult] at hall
      obtain ⟨hexploring, -, hvisited⟩ := hall
      refine .inl ⟨⟨s', rfl⟩, hexploring.cleared.acyclic_of_sources fun u v hedge => ?_⟩
      have hu := hvisited u ((mem_lockIds small).mpr (recorded.source u v hedge))
      exact hexploring.finished hu List.not_mem_nil

/-- `CheckCycle` returns or reports a deadlock, with all indices in range and within its
steps. It reports one exactly when the recorded edges contain a cycle. -/
theorem checkCycle_exact {nameCount : ℕ} (small : nameCount < 2 ^ 31)
    (recorded : Recorded lockHistory nameCount) :
    ((∃ search, checkCycle lockHistory nameCount = .ok search) ∨
      ∃ edges, checkCycle lockHistory nameCount = .error (.deadLock edges)) ∧
    ((∃ edges, checkCycle lockHistory nameCount = .error (.deadLock edges)) ↔
      ∃ u, TransGen (Edge lockHistory) u u) := by
  obtain ⟨⟨search, hok⟩, hacyclic⟩ | ⟨hcrash, hcycle⟩ := checkCycle_spec small recorded
  · refine ⟨.inl ⟨search, hok⟩, iff_of_false ?_ fun ⟨u, hu⟩ => hacyclic u hu⟩
    rintro ⟨edges, hcrash⟩
    rw [hok] at hcrash
    cases hcrash
  · rw [Acyclic, not_forall_not] at hcycle
    exact ⟨.inr hcrash, iff_of_true hcrash hcycle⟩

/-- Two ways from lock 0 to lock 3. -/
def diamond (id : Int32) : Option (List Int32) :=
  if id = 0 then some [1, 2] else if id = 1 then some [3] else if id = 2 then some [3] else none

theorem edge_diamond {u v : Int32} (h : Edge diamond u v) :
    (u = 0 ∧ (v = 1 ∨ v = 2)) ∨ ((u = 1 ∨ u = 2) ∧ v = 3) := by
  unfold Edge diamond at h
  split at h
  · next hu => exact .inl ⟨hu, by simpa using h⟩
  · split at h
    · next hu => exact .inr ⟨.inl hu, by simpa using h⟩
    · split at h
      · next hu => exact .inr ⟨.inr hu, by simpa using h⟩
      · cases h

theorem checkCycle_exact_diamond :
    ((∃ search, checkCycle diamond 4 = .ok search) ∨
      ∃ edges, checkCycle diamond 4 = .error (.deadLock edges)) ∧
    ((∃ edges, checkCycle diamond 4 = .error (.deadLock edges)) ↔
      ∃ u, TransGen (Edge diamond) u u) := by
  refine checkCycle_exact (by decide) ⟨fun u v h => ?_, fun u v h => ?_, fun u h => ?_⟩
  · obtain ⟨rfl, -⟩ | ⟨rfl | rfl, -⟩ := edge_diamond h <;> decide
  · obtain ⟨-, rfl | rfl⟩ | ⟨-, rfl⟩ := edge_diamond h <;> decide
  · obtain ⟨rfl, h | h⟩ | ⟨rfl | rfl, h⟩ := edge_diamond h <;> exact absurd h (by decide)

/-- Two locks that were taken in both orders. -/
def bothOrders (id : Int32) : Option (List Int32) :=
  if id = 0 then some [1] else if id = 1 then some [0] else none

theorem edge_bothOrders {u v : Int32} (h : Edge bothOrders u v) :
    (u = 0 ∧ v = 1) ∨ (u = 1 ∧ v = 0) := by
  unfold Edge bothOrders at h
  split at h
  · next hu => exact .inl ⟨hu, by simpa using h⟩
  · split at h
    · next hu => exact .inr ⟨hu, by simpa using h⟩
    · cases h

/-- With 2^31 names the vectors cannot be made, and no cycle is reported. -/
theorem checkCycle_length :
    ¬∀ (nameCount : ℕ) (lockHistory : Int32 → Option (List Int32)), Recorded lockHistory nameCount →
      ((∃ edges, checkCycle lockHistory nameCount = .error (.deadLock edges)) ↔
        ∃ u, TransGen (Edge lockHistory) u u) := by
  intro hall
  have hrecorded : Recorded bothOrders (2 ^ 31) := by
    refine ⟨fun u v h => ?_, fun u v h => ?_, fun u h => ?_⟩
    · obtain ⟨rfl, -⟩ | ⟨rfl, -⟩ := edge_bothOrders h <;> decide
    · obtain ⟨-, rfl⟩ | ⟨-, rfl⟩ := edge_bothOrders h <;> decide
    · obtain ⟨rfl, h⟩ | ⟨rfl, h⟩ := edge_bothOrders h <;> exact absurd h (by decide)
  have hcycle : ∃ u, TransGen (Edge bothOrders) u u :=
    ⟨0, (TransGen.single (b := 1) (by decide)).tail (by decide)⟩
  obtain ⟨edges, hcrash⟩ := (hall _ _ hrecorded).mpr hcycle
  rw [checkCycle, if_pos (by decide)] at hcrash
  cases hcrash

end DeadLockProfiler

end ServerCore
