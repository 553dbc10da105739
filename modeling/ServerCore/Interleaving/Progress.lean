import Mathlib.Order.WellFounded
import ServerCore.Interleaving.System

/-!
# Runs that come to an end

A state leads to another one when some run within a condition on steps connects them.
If every state that has not arrived leads to one of a smaller measure, every state leads
to one that has arrived.
-/

namespace Interleaving

universe u v w

namespace System

variable {σ : Type u} {ε : Type v} {M : System σ ε} {ok : σ → ε → Prop} {s t t' : σ}

/-- Some run of steps that satisfy `ok` goes from `s` to `t`. -/
def Leads (M : System σ ε) (ok : σ → ε → Prop) (s t : σ) : Prop :=
  ∃ es, M.Along ok es s ∧ M.run es s = some t

theorem Leads.refl (s : σ) : M.Leads ok s s := ⟨[], trivial, rfl⟩

theorem Leads.head {e : ε} (hnext : M.next s e = some t) (hok : ok s e) (h : M.Leads ok t t') :
    M.Leads ok s t' := by
  obtain ⟨es, halong, hrun⟩ := h
  refine ⟨e :: es, along_cons hnext hok halong, ?_⟩
  rw [run_cons, hnext]
  exact hrun

theorem Leads.single {e : ε} (hnext : M.next s e = some t) (hok : ok s e) : M.Leads ok s t :=
  .head hnext hok (.refl t)

theorem Leads.trans (h : M.Leads ok s t) (h' : M.Leads ok t t') : M.Leads ok s t' := by
  obtain ⟨es, halong, hrun⟩ := h
  induction es generalizing s with
  | nil =>
      cases hrun
      exact h'
  | cons e es ih =>
      rw [run_cons, Option.bind_eq_some_iff] at hrun
      obtain ⟨u, hnext, hrest⟩ := hrun
      obtain ⟨hok, hrestAlong⟩ := halong u hnext
      exact .head hnext hok (ih hrestAlong hrest)

/-- What every admitted step keeps, a whole run keeps. -/
theorem Leads.invariant {I : σ → Prop} (h : M.Leads ok s t) (hs : I s)
    (step : ∀ s e t, I s → ok s e → M.next s e = some t → I t) : I t := by
  obtain ⟨es, halong, hrun⟩ := h
  induction es generalizing s with
  | nil =>
      cases hrun
      exact hs
  | cons e es ih =>
      rw [run_cons, Option.bind_eq_some_iff] at hrun
      obtain ⟨u, hnext, hrest⟩ := hrun
      obtain ⟨hok, hrestAlong⟩ := halong u hnext
      exact ih (step s e u hs hok hnext) hrestAlong hrest

/-- A measure that can always be made smaller leads to a state that has arrived. -/
theorem Leads.of_measure {β : Type w} [Preorder β] [WellFoundedLT β] {I G : σ → Prop} (μ : σ → β)
    (progress : ∀ s, I s → ¬G s → ∃ t, M.Leads ok s t ∧ I t ∧ μ t < μ s) (hs : I s) :
    ∃ t, M.Leads ok s t ∧ I t ∧ G t := by
  induction hμ : μ s using WellFoundedLT.induction generalizing s with
  | ind b ih =>
      by_cases hgoal : G s
      · exact ⟨s, .refl s, hs, hgoal⟩
      · obtain ⟨u, hfirst, hu, hless⟩ := progress s hs hgoal
        obtain ⟨t, hrest, ht, harrived⟩ := ih (μ u) (hμ ▸ hless) hu rfl
        exact ⟨t, hfirst.trans hrest, ht, harrived⟩

end System

end Interleaving
