import Mathlib.Data.List.Sort
import Mathlib.Order.Basic

/-!
# Priority queues

A priority queue over `less` hands out a greatest element: `top` returns one that is
below no other, and `pop` removes the element that `top` returns. Which of several
greatest elements it is stays open, so a program over an arbitrary queue cannot rely on
it. `takeWhile` is the loop that removes the top as long as it passes a test.

`ofKey` is a queue for a comparison of keys, whose store is a sorted list.
-/

structure PriorityQueue (α : Type) (less : α → α → Prop) where
  Store : Type
  empty : Store
  push : Store → α → Store
  top : Store → Option α
  pop : Store → Store
  toList : Store → List α
  toList_empty : toList empty = []
  toList_push : ∀ s a, (toList (push s a)).Perm (a :: toList s)
  top_eq_none : ∀ s, top s = none ↔ toList s = []
  toList_pop : ∀ s a, top s = some a → (toList s).Perm (a :: toList (pop s))
  top_greatest : ∀ s a, top s = some a → ∀ b ∈ toList s, ¬less a b

namespace PriorityQueue

variable {α : Type} {less : α → α → Prop} (H : PriorityQueue α less)

def size (s : H.Store) : ℕ := (H.toList s).length

/-- Remove the top while it passes the test, at most `n` times. -/
def takeUpTo (test : α → Bool) : ℕ → H.Store → List α × H.Store
  | 0, s => ([], s)
  | n + 1, s =>
      match H.top s with
      | none => ([], s)
      | some a =>
          if test a then
            let (taken, s') := takeUpTo test n (H.pop s)
            (a :: taken, s')
          else ([], s)

/-- Remove the top while it passes the test. -/
def takeWhile (test : α → Bool) (s : H.Store) : List α × H.Store := H.takeUpTo test (H.size s) s

variable {H}

/-- What was taken and what is left are the elements of the queue. -/
theorem takeUpTo_perm (test : α → Bool) (n : ℕ) (s : H.Store) :
    (H.toList s).Perm ((H.takeUpTo test n s).1 ++ H.toList (H.takeUpTo test n s).2) := by
  induction n generalizing s with
  | zero => exact List.Perm.refl _
  | succ n ih =>
      rw [takeUpTo]
      cases htop : H.top s with
      | none => exact List.Perm.refl _
      | some a =>
          by_cases htest : test a = true
          · simp only [htest, if_true]
            exact (H.toList_pop s a htop).trans ((ih (H.pop s)).cons a)
          · simp only [htest]
            exact List.Perm.refl _

theorem takeUpTo_test (test : α → Bool) (n : ℕ) (s : H.Store) :
    ∀ a ∈ (H.takeUpTo test n s).1, test a = true := by
  induction n generalizing s with
  | zero =>
      intro a ha
      cases ha
  | succ n ih =>
      intro a ha
      rw [takeUpTo] at ha
      cases htop : H.top s with
      | none =>
          rw [htop] at ha
          cases ha
      | some b =>
          rw [htop] at ha
          by_cases htest : test b = true
          · simp only [htest, if_true] at ha
            obtain rfl | ha := List.mem_cons.mp ha
            · exact htest
            · exact ih (H.pop s) a ha
          · simp only [htest] at ha
            cases ha

/-- Elements are taken from the greatest down. -/
theorem takeUpTo_sorted (test : α → Bool) (n : ℕ) (s : H.Store) :
    (H.takeUpTo test n s).1.Pairwise fun a b => ¬less a b := by
  induction n generalizing s with
  | zero => exact List.Pairwise.nil
  | succ n ih =>
      rw [takeUpTo]
      cases htop : H.top s with
      | none => exact List.Pairwise.nil
      | some a =>
          by_cases htest : test a = true
          · simp only [htest, if_true]
            refine (ih (H.pop s)).cons fun b hb => ?_
            have hrest := (takeUpTo_perm test n (H.pop s)).mem_iff.mpr (List.mem_append_left _ hb)
            apply H.top_greatest s a htop
            exact (H.toList_pop s a htop).mem_iff.mpr (List.mem_cons_of_mem _ hrest)
          · simp only [htest]
            exact List.Pairwise.nil

/-- With enough rounds nothing that passes the test is left, if the test holds of
everything above an element that passes it. -/
theorem takeUpTo_left {test : α → Bool} (upward : ∀ a b, ¬less a b → test b = true → test a = true)
    {n : ℕ} {s : H.Store} (enough : H.size s ≤ n) :
    ∀ b ∈ H.toList (H.takeUpTo test n s).2, test b = false := by
  induction n generalizing s with
  | zero =>
      intro b hb
      rw [takeUpTo, List.eq_nil_of_length_eq_zero (Nat.le_zero.mp enough)] at hb
      cases hb
  | succ n ih =>
      intro b hb
      rw [takeUpTo] at hb
      cases htop : H.top s with
      | none =>
          rw [htop] at hb
          rw [(H.top_eq_none s).mp htop] at hb
          cases hb
      | some a =>
          rw [htop] at hb
          by_cases htest : test a = true
          · simp only [htest, if_true] at hb
            have hlength := (H.toList_pop s a htop).length_eq
            rw [List.length_cons] at hlength
            exact ih (by unfold size at enough ⊢; omega) b hb
          · simp only [htest] at hb
            by_contra hpass
            exact htest (upward a b (H.top_greatest s a htop b hb) (eq_true_of_ne_false hpass))

section TakeWhile

variable (test : α → Bool) (s : H.Store)

theorem takeWhile_perm :
    (H.toList s).Perm ((H.takeWhile test s).1 ++ H.toList (H.takeWhile test s).2) :=
  takeUpTo_perm test _ s

theorem takeWhile_sorted : (H.takeWhile test s).1.Pairwise fun a b => ¬less a b :=
  takeUpTo_sorted test _ s

variable {test}

/-- The loop takes exactly the elements that pass the test, and leaves the others. -/
theorem takeWhile_filter (upward : ∀ a b, ¬less a b → test b = true → test a = true) :
    (H.takeWhile test s).1.Perm ((H.toList s).filter test) ∧
      (H.toList (H.takeWhile test s).2).Perm ((H.toList s).filter fun a => !test a) := by
  have hperm := takeWhile_perm test s
  have htaken : ∀ a ∈ (H.takeWhile test s).1, test a = true := takeUpTo_test test _ s
  have hleft : ∀ b ∈ H.toList (H.takeWhile test s).2, test b = false :=
    takeUpTo_left upward (le_refl _)
  constructor
  · have hnone : (H.toList (H.takeWhile test s).2).filter test = [] :=
      List.filter_eq_nil_iff.mpr fun b hb => by simp [hleft b hb]
    have hfilter := hperm.filter test
    rw [List.filter_append, List.filter_eq_self.mpr htaken, hnone, List.append_nil] at hfilter
    exact hfilter.symm
  · have hnone : ((H.takeWhile test s).1.filter fun a => !test a) = [] :=
      List.filter_eq_nil_iff.mpr fun a ha => by simp [htaken a ha]
    have hall : ((H.toList (H.takeWhile test s).2).filter fun a => !test a) =
        H.toList (H.takeWhile test s).2 :=
      List.filter_eq_self.mpr fun b hb => by simp [hleft b hb]
    have hfilter := hperm.filter fun a => !test a
    rw [List.filter_append, hnone, hall, List.nil_append] at hfilter
    exact hfilter.symm

/-- When every element passes, the loop empties the queue. -/
theorem takeWhile_all (hall : ∀ a, test a = true) : H.toList (H.takeWhile test s).2 = [] := by
  apply List.eq_nil_iff_forall_not_mem.mpr
  intro b hb
  have := takeUpTo_left (fun a _ _ _ => hall a) (le_refl (H.size s)) b hb
  rw [hall b] at this
  cases this

end TakeWhile

section OfKey

variable {κ : Type} [LinearOrder κ] (key : α → κ)

/-- The queue that hands out an element with the least key, as a sorted list. -/
def ofKey : PriorityQueue α fun a b => key b < key a where
  Store := { l : List α // l.Pairwise fun a b => key a ≤ key b }
  empty := ⟨[], .nil⟩
  push s a := ⟨s.1.orderedInsert (fun a b => key a ≤ key b) a, s.2.orderedInsert a⟩
  top s := s.1.head?
  pop s := ⟨s.1.tail, s.2.tail⟩
  toList s := s.1
  toList_empty := rfl
  toList_push s a := List.perm_orderedInsert _ a s.1
  top_eq_none s := List.head?_eq_none_iff
  toList_pop s a htop := by
    have hcons : s.1 = a :: s.1.tail := List.eq_cons_of_mem_head? htop
    exact hcons ▸ List.Perm.refl _
  top_greatest s a htop b hb := by
    obtain ⟨l, hl⟩ := s
    cases l with
    | nil => cases htop
    | cons c rest =>
        cases htop
        obtain rfl | hb := List.mem_cons.mp hb
        · exact lt_irrefl _
        · exact not_lt_of_ge ((List.pairwise_cons.mp hl).1 b hb)

end OfKey

end PriorityQueue
