import Mathlib.Algebra.GroupWithZero.Nat
import Mathlib.Logic.Basic

/-!
# Labelled systems, their runs and their invariants

A system has an executable transition function. One event is one atomic step of
one party, and carries everything that party does not decide itself: a client's
next call, a clock reading, the outcome of a request. `none` means that the event
is impossible in that state, so a finite list of events is an interleaving.

`Reachable ok` restricts runs by a condition on each step, so the same system
serves for the runs a statement quantifies over and for the runs a sharper
condition singles out.
-/

namespace Interleaving

/-! Runs of one or two parties name them by the numerals of `Fin 1` and `Fin 2`. With these
instances the numerals of two modules are the same terms. -/

instance (priority := 2000) neZeroOne : NeZero 1 := ⟨Nat.one_ne_zero⟩

instance (priority := 2000) neZeroTwo : NeZero 2 := ⟨Nat.succ_ne_zero 1⟩

universe u v

/-- Initial states and the state, if any, that an event leads to. -/
structure System (σ : Type u) (ε : Type v) where
  init : σ → Prop
  next : σ → ε → Option σ

namespace System

variable {σ : Type u} {ε : Type v} {M : System σ ε}

/-- The states reached by the runs all of whose steps satisfy `ok`. -/
inductive Reachable (M : System σ ε) (ok : σ → ε → Prop) : σ → Prop where
  | start {s} : M.init s → Reachable M ok s
  | step {s e t} : Reachable M ok s → ok s e → M.next s e = some t → Reachable M ok t

/-- Every interleaving, without a condition on its steps. -/
def anyStep : σ → ε → Prop := fun _ _ => True

/-- A predicate that holds initially and survives every admitted step holds in
every state reached. -/
theorem Reachable.invariant {ok : σ → ε → Prop} {I : σ → Prop} {s : σ}
    (h : M.Reachable ok s) (start : ∀ s, M.init s → I s)
    (step : ∀ s e t, I s → ok s e → M.next s e = some t → I t) : I s := by
  induction h with
  | start hs => exact start _ hs
  | step _ hok hnext ih => exact step _ _ _ ih hok hnext

theorem Reachable.mono {ok ok' : σ → ε → Prop} {s : σ} (h : M.Reachable ok s)
    (weaker : ∀ s e, ok s e → ok' s e) : M.Reachable ok' s := by
  induction h with
  | start hs => exact .start hs
  | step _ hok hnext ih => exact .step ih (weaker _ _ hok) hnext

/-- Execute a list of events, failing at the first impossible one. -/
def run (M : System σ ε) : List ε → σ → Option σ
  | [], s => some s
  | e :: es, s => (M.next s e).bind (run M es)

@[simp] theorem run_nil (s : σ) : M.run [] s = some s := rfl

theorem run_cons (e : ε) (es : List ε) (s : σ) :
    M.run (e :: es) s = (M.next s e).bind (M.run es) := rfl

theorem run_append (es fs : List ε) (s : σ) :
    M.run (es ++ fs) s = (M.run es s).bind (M.run fs) := by
  induction es generalizing s with
  | nil => rfl
  | cons e es ih =>
      rw [List.cons_append, run_cons, run_cons, Option.bind_assoc]
      exact congrArg _ (funext ih)

/-- Every step that the run of `es` from `s` makes satisfies `ok`. -/
def Along (M : System σ ε) (ok : σ → ε → Prop) : List ε → σ → Prop
  | [], _ => True
  | e :: es, s => ∀ t, M.next s e = some t → ok s e ∧ Along M ok es t

/-- `P` holds in every state that the run of `es` from `s` passes through. -/
def Throughout (M : System σ ε) (P : σ → Prop) : List ε → σ → Prop
  | [], s => P s
  | e :: es, s => P s ∧ ∀ t, M.next s e = some t → Throughout M P es t

/-- A run whose steps satisfy `ok` ends in a state reachable under `ok`. -/
theorem Reachable.run {ok : σ → ε → Prop} {s t : σ} {es : List ε} (h : M.Reachable ok s)
    (along : M.Along ok es s) (hrun : M.run es s = some t) : M.Reachable ok t := by
  induction es generalizing s with
  | nil =>
      cases hrun
      exact h
  | cons e es ih =>
      rw [run_cons, Option.bind_eq_some_iff] at hrun
      obtain ⟨u, hu, hrest⟩ := hrun
      obtain ⟨hok, halong⟩ := along u hu
      exact ih (h.step hok hu) halong hrest

theorem along_cons {ok : σ → ε → Prop} {s t : σ} {e : ε} {es : List ε}
    (hnext : M.next s e = some t) (hok : ok s e) (rest : M.Along ok es t) :
    M.Along ok (e :: es) s := by
  intro u hu
  rw [hnext] at hu
  cases hu
  exact ⟨hok, rest⟩

theorem along_of_forall {ok : σ → ε → Prop} {es : List ε} (h : ∀ s, ∀ e ∈ es, ok s e) (s : σ) :
    M.Along ok es s := by
  induction es generalizing s with
  | nil => trivial
  | cons e es ih =>
      intro t _
      exact ⟨h s e (by simp), ih (fun s e he => h s e (by simp [he])) t⟩

theorem along_anyStep (es : List ε) (s : σ) : M.Along anyStep es s :=
  along_of_forall (fun _ _ _ => trivial) s

theorem Along.and {ok ok' : σ → ε → Prop} {es : List ε} {s : σ} (h : M.Along ok es s)
    (h' : M.Along ok' es s) : M.Along (fun s e => ok s e ∧ ok' s e) es s := by
  induction es generalizing s with
  | nil => trivial
  | cons e es ih =>
      intro t hnext
      obtain ⟨hok, hrest⟩ := h t hnext
      obtain ⟨hok', hrest'⟩ := h' t hnext
      exact ⟨⟨hok, hok'⟩, ih hrest hrest'⟩

theorem Along.mono {ok ok' : σ → ε → Prop} {es : List ε} {s : σ} (h : M.Along ok es s)
    (weaker : ∀ s e, ok s e → ok' s e) : M.Along ok' es s := by
  induction es generalizing s with
  | nil => trivial
  | cons e es ih =>
      intro t hnext
      obtain ⟨hok, hrest⟩ := h t hnext
      exact ⟨weaker s e hok, ih hrest⟩

/-- `Along` as a computation. -/
def checkAlong (M : System σ ε) (ok : σ → ε → Prop) [∀ s e, Decidable (ok s e)] :
    List ε → σ → Bool
  | [], _ => true
  | e :: es, s => (M.next s e).all fun t => decide (ok s e) && checkAlong M ok es t

theorem along_of_check {ok : σ → ε → Prop} [∀ s e, Decidable (ok s e)] {es : List ε} {s : σ}
    (h : M.checkAlong ok es s = true) : M.Along ok es s := by
  induction es generalizing s with
  | nil => trivial
  | cons e es ih =>
      intro t hnext
      rw [checkAlong, hnext, Option.all_some, Bool.and_eq_true] at h
      exact ⟨of_decide_eq_true h.1, ih h.2⟩

/-- Every run ends in a reachable state. -/
theorem reachable_of_run {s t : σ} {es : List ε} (hs : M.init s) (hrun : M.run es s = some t) :
    M.Reachable anyStep t :=
  (Reachable.start hs).run (along_anyStep es s) hrun

/-- A run that computes to a state with a decidable property ends in such a state. -/
theorem exists_of_run {P : σ → Prop} [DecidablePred P] {s : σ} {es : List ε}
    (h : (M.run es s).any (fun t => decide (P t)) = true) : ∃ t, M.run es s = some t ∧ P t := by
  obtain ⟨t, hrun, ht⟩ := (Option.any_eq_true _ _).mp h
  exact ⟨t, hrun, of_decide_eq_true ht⟩

/-- What holds throughout a run holds where it ends. -/
theorem Throughout.of_run {P : σ → Prop} {es : List ε} {s t : σ} (h : M.Throughout P es s)
    (hrun : M.run es s = some t) : P t := by
  induction es generalizing s with
  | nil =>
      cases hrun
      exact h
  | cons e es ih =>
      rw [run_cons, Option.bind_eq_some_iff] at hrun
      obtain ⟨u, hu, hrest⟩ := hrun
      exact ih (h.2 u hu) hrest

/-- In the runs within `pre`, a condition on steps is exact for a state property when
admitted steps carry an invariant that contains the property, and a step between two
states with the property is always admitted. -/
theorem throughout_iff_along_within {P I : σ → Prop} {pre ok : σ → ε → Prop}
    (contains : ∀ s, I s → P s)
    (keeps : ∀ s e t, I s → pre s e → ok s e → M.next s e = some t → I t)
    (forced : ∀ s e t, I s → pre s e → M.next s e = some t → P t → ok s e)
    (es : List ε) {s : σ} (within : M.Along pre es s) (hs : I s) :
    M.Throughout P es s ↔ M.Along ok es s := by
  induction es generalizing s with
  | nil => exact ⟨fun _ => trivial, fun _ => contains s hs⟩
  | cons e es ih =>
      constructor
      · rintro ⟨_, hrest⟩ t hnext
        obtain ⟨hpre, hwithin⟩ := within t hnext
        have ht : P t := by
          have := hrest t hnext
          cases es with
          | nil => exact this
          | cons => exact this.1
        have hok := forced s e t hs hpre hnext ht
        exact ⟨hok, (ih hwithin (keeps s e t hs hpre hok hnext)).mp (hrest t hnext)⟩
      · intro hall
        refine ⟨contains s hs, fun t hnext => ?_⟩
        obtain ⟨hpre, hwithin⟩ := within t hnext
        obtain ⟨hok, hrest⟩ := hall t hnext
        exact (ih hwithin (keeps s e t hs hpre hok hnext)).mpr hrest

/-- The same for all runs. -/
theorem throughout_iff_along {P I : σ → Prop} {ok : σ → ε → Prop}
    (contains : ∀ s, I s → P s)
    (keeps : ∀ s e t, I s → ok s e → M.next s e = some t → I t)
    (forced : ∀ s e t, I s → M.next s e = some t → P t → ok s e)
    (es : List ε) {s : σ} (hs : I s) :
    M.Throughout P es s ↔ M.Along ok es s :=
  throughout_iff_along_within contains (fun s e t hs _ => keeps s e t hs)
    (fun s e t hs _ => forced s e t hs) es (along_anyStep es s) hs

/-- A property that is part of an invariant holds throughout every run. -/
theorem throughout_of_invariant {P I : σ → Prop} (contains : ∀ s, I s → P s)
    (keeps : ∀ s e t, I s → M.next s e = some t → I t) (es : List ε) {s : σ} (hs : I s) :
    M.Throughout P es s := by
  induction es generalizing s with
  | nil => exact contains s hs
  | cons e es ih => exact ⟨contains s hs, fun t hnext => ih (keeps s e t hs hnext)⟩

/-- Two conditions on steps select the same runs when they agree on every step from a
state with an invariant that the admitted steps keep. -/
theorem along_iff_along {I : σ → Prop} {ok ok' : σ → ε → Prop}
    (keeps : ∀ s e t, I s → ok' s e → M.next s e = some t → I t)
    (agree : ∀ s e t, I s → M.next s e = some t → (ok s e ↔ ok' s e))
    (es : List ε) {s : σ} (hs : I s) : M.Along ok es s ↔ M.Along ok' es s := by
  induction es generalizing s with
  | nil => exact Iff.rfl
  | cons e es ih =>
      apply forall_congr'
      intro t
      apply imp_congr_right
      intro hnext
      rw [agree s e t hs hnext]
      exact and_congr_right fun hok => ih (keeps s e t hs hok hnext)

end System

end Interleaving
