import Mathlib.Algebra.BigOperators.Fin
import Mathlib.Algebra.BigOperators.Group.Finset.Piecewise
import Mathlib.Algebra.Order.BigOperators.Group.Finset
import Mathlib.Data.Fintype.BigOperators

/-!
# Counting over the threads of a system

The state of a finite family of threads changes one thread at a time. Resources
that threads hold are counted by a sum over the family, so a step changes the
sum by the change in the thread that moved. When the whole sum is at most one,
the thread that accounts for it is the only one.

Data that only one thread holds at a time are gathered from the whole family, in an
order of the threads that then does not matter.

A thread that nests calls carries a stack of frames; its weight is the sum of the
weights of its frames, so a step that replaces the innermost frames changes the
family's total by the same frames.
-/

namespace Interleaving

universe u v

variable {ι : Type u} {α : Type v} [Fintype ι] [DecidableEq ι]

/-- Replacing one thread's state trades its old weight for its new one. -/
theorem sum_update (weight : α → ℕ) (threads : ι → α) (i : ι) (a : α) :
    (∑ j, weight (Function.update threads i a j)) + weight (threads i) =
      (∑ j, weight (threads j)) + weight a := by
  have hupdate : (fun j => weight (Function.update threads i a j)) =
      Function.update (fun j => weight (threads j)) i (weight a) := by
    funext j
    by_cases h : j = i
    · subst h
      simp
    · simp [h]
  rw [hupdate, Finset.sum_update_of_mem (Finset.mem_univ i),
    ← Finset.add_sum_erase Finset.univ (fun j => weight (threads j)) (Finset.mem_univ i),
    Finset.sdiff_singleton_eq_erase]
  omega

/-- Two families that agree elsewhere differ by what they have at one thread. -/
theorem sum_of_others {f g : ι → ℕ} {i : ι} (h : ∀ j, j ≠ i → g j = f j) :
    (∑ j, g j) + f i = (∑ j, f j) + g i := by
  have hupdate : g = Function.update f i (g i) := by
    funext j
    by_cases hj : j = i
    · rw [hj, Function.update_self]
    · rw [Function.update_of_ne hj, h j hj]
  have hsum := sum_update id f i (g i)
  rw [← hupdate] at hsum
  exact hsum

omit [DecidableEq ι] in
/-- No thread weighs more than the family. -/
theorem weight_le_sum (weight : ι → ℕ) (i : ι) : weight i ≤ ∑ j, weight j :=
  Finset.single_le_sum (fun j _ => Nat.zero_le (weight j)) (Finset.mem_univ i)

/-- Two different threads together weigh no more than the family. -/
theorem weight_add_le_sum (weight : ι → ℕ) {i j : ι} (h : i ≠ j) :
    weight i + weight j ≤ ∑ k, weight k := by
  rw [← Finset.add_sum_erase Finset.univ weight (Finset.mem_univ i)]
  have hj : j ∈ Finset.univ.erase i := Finset.mem_erase.mpr ⟨h.symm, Finset.mem_univ j⟩
  have := Finset.single_le_sum (fun k _ => Nat.zero_le (weight k)) hj
  omega

/-- A token held by one thread is held by no other. -/
theorem other_weight_zero {weight : ι → ℕ} (total : ∑ k, weight k ≤ 1) {i j : ι}
    (hi : 0 < weight i) (h : j ≠ i) : weight j = 0 := by
  have := weight_add_le_sum weight h
  omega

omit [DecidableEq ι] in
/-- When the family weighs at most one, its weight is the number of threads with a
positive weight. -/
theorem card_pos_eq_sum (weight : ι → ℕ) (total : ∑ k, weight k ≤ 1) :
    (Finset.univ.filter fun k => 0 < weight k).card = ∑ k, weight k := by
  rw [Finset.card_filter]
  apply Finset.sum_congr rfl
  intro k _
  have hle := weight_le_sum weight k
  split <;> omega

/-- What the threads hold, thread by thread. -/
noncomputable def gather {β : Type*} (held : α → List β) (threads : ι → α) : List β :=
  Finset.univ.toList.flatMap fun i => held (threads i)

theorem gather_update {β : Type*} {held : α → List β} {threads : ι → α} {i : ι} {a : α}
    (h : held a = held (threads i)) :
    gather held (Function.update threads i a) = gather held threads := by
  apply List.flatMap_congr
  intro j _
  by_cases hj : j = i
  · rw [hj, Function.update_self, h]
  · rw [Function.update_of_ne hj]

omit [DecidableEq ι] in
/-- If the others hold nothing, one thread holds everything. -/
theorem gather_eq_of_others {β : Type*} {held : α → List β} {threads : ι → α} {i : ι}
    (others : ∀ j, j ≠ i → held (threads j) = []) : gather held threads = held (threads i) := by
  obtain ⟨before, after, hlist⟩ := List.append_of_mem (Finset.mem_toList.mpr (Finset.mem_univ i))
  have hnodup := Finset.nodup_toList (Finset.univ : Finset ι)
  rw [hlist, List.nodup_middle, List.nodup_cons] at hnodup
  have hempty : ∀ l : List ι, i ∉ l → l.flatMap (fun j => held (threads j)) = [] := by
    intro l hi
    rw [List.flatMap_eq_nil_iff]
    intro j hj
    exact others j fun heq => hi (heq ▸ hj)
  rw [gather, hlist, List.flatMap_append, List.flatMap_cons,
    hempty before fun h => hnodup.1 (List.mem_append_left _ h),
    hempty after fun h => hnodup.1 (List.mem_append_right _ h), List.nil_append, List.append_nil]

omit [Fintype ι] [DecidableEq ι]

/-- The weight of a stack of frames. -/
def weigh (weight : α → ℕ) (stack : List α) : ℕ := (stack.map weight).sum

@[simp] theorem weigh_nil (weight : α → ℕ) : weigh weight [] = 0 := rfl

@[simp] theorem weigh_cons (weight : α → ℕ) (frame : α) (stack : List α) :
    weigh weight (frame :: stack) = weight frame + weigh weight stack := by
  simp [weigh]

@[simp] theorem weigh_append (weight : α → ℕ) (frames stack : List α) :
    weigh weight (frames ++ stack) = weigh weight frames + weigh weight stack := by
  simp [weigh]

theorem weigh_add (weight weight' : α → ℕ) (stack : List α) :
    weigh (fun frame => weight frame + weight' frame) stack =
      weigh weight stack + weigh weight' stack := by
  induction stack with
  | nil => rfl
  | cons frame stack ih =>
      rw [weigh_cons, weigh_cons, weigh_cons, ih]
      omega

theorem weigh_mono {weight weight' : α → ℕ} {stack : List α}
    (h : ∀ frame ∈ stack, weight frame ≤ weight' frame) :
    weigh weight stack ≤ weigh weight' stack := by
  induction stack with
  | nil => exact Nat.le_refl _
  | cons frame stack ih =>
      rw [weigh_cons, weigh_cons]
      exact Nat.add_le_add (h frame List.mem_cons_self)
        (ih fun frame' h' => h frame' (List.mem_cons_of_mem _ h'))

theorem le_weigh (weight : α → ℕ) {frame : α} {stack : List α} (h : frame ∈ stack) :
    weight frame ≤ weigh weight stack :=
  List.single_le_sum (fun _ _ => Nat.zero_le _) _ (List.mem_map_of_mem h)

/-- Replacing one element of a list trades its weight. -/
theorem weigh_set (weight : α → ℕ) {stack : List α} {i : ℕ} {old : α} (h : stack[i]? = some old)
    (new : α) : weigh weight (stack.set i new) + weight old = weigh weight stack + weight new := by
  induction stack generalizing i with
  | nil => cases h
  | cons frame stack ih =>
      cases i with
      | zero =>
          cases h
          rw [List.set_cons_zero, weigh_cons, weigh_cons]
          omega
      | succ i =>
          have hrest := ih (i := i) h
          rw [List.set_cons_succ, weigh_cons, weigh_cons]
          omega

end Interleaving
