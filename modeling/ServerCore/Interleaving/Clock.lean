import ServerCore.Interleaving.Projection

/-!
# Runs with a clock that does not go back

A system takes every answer of a clock that its events carry. With a clock, the state
remembers the latest answer, and an event with an earlier one is impossible. A run with a
clock is a run of the system (`projects_clocked`). The other way round, a run that reads
the same time at every step is a run during which the clock stands (`Leads.clocked`).
-/

namespace Interleaving

universe u v w

namespace System

variable {σ : Type u} {ε : Type v} {τ : Type w} {reading : ε → Option τ} {ok : σ → ε → Prop}
  {s t : σ} {c : τ} {e : ε}

/-- A step that satisfies `ok` and reads the time `c`, if it reads the clock. -/
def Steady (reading : ε → Option τ) (c : τ) (ok : σ → ε → Prop) (s : σ) (e : ε) : Prop :=
  ok s e ∧ ∀ now ∈ reading e, now = c

/-- A step that does not read the clock. -/
theorem steady_of_none (hread : reading e = none) (hok : ok s e) : Steady reading c ok s e := by
  refine ⟨hok, fun now hnow => ?_⟩
  rw [hread] at hnow
  cases hnow

theorem steady_of_some (hread : reading e = some c) (hok : ok s e) : Steady reading c ok s e := by
  refine ⟨hok, fun now hnow => ?_⟩
  rw [hread] at hnow
  exact (Option.some.inj hnow).symm

variable [LE τ] [DecidableLE τ]

/-- `M` with a clock; `reading e` is what `e` read from it, if anything. -/
def clocked (M : System σ ε) (reading : ε → Option τ) : System (σ × τ) ε where
  init s := M.init s.1
  next s e :=
    match reading e with
    | none => (M.next s.1 e).map fun t => (t, s.2)
    | some now => if s.2 ≤ now then (M.next s.1 e).map fun t => (t, now) else none

variable {M : System σ ε}

theorem next_of_clocked {s t : σ × τ} (h : (M.clocked reading).next s e = some t) :
    M.next s.1 e = some t.1 := by
  simp only [clocked] at h
  split at h
  · obtain ⟨u, hu, rfl⟩ := Option.map_eq_some_iff.mp h
    exact hu
  · split at h
    · obtain ⟨u, hu, rfl⟩ := Option.map_eq_some_iff.mp h
      exact hu
    · cases h

theorem clocked_next (hc : c ≤ c) (hread : ∀ now ∈ reading e, now = c)
    (hnext : M.next s e = some t) : (M.clocked reading).next (s, c) e = some (t, c) := by
  simp only [clocked]
  split
  · rw [hnext]
    rfl
  · next now hnow =>
      obtain rfl := hread now hnow
      rw [if_pos hc, hnext]
      rfl

/-- Without its clock, a run with a clock is a run. -/
theorem projects_clocked (M : System σ ε) (reading : ε → Option τ) (ok : σ → ε → Prop) :
    Projects (M.clocked reading) M (fun s e => ok s.1 e) ok Prod.fst where
  init _ hs := hs
  next _ _ _ hok hnext := exists_run_single (next_of_clocked hnext) hok

/-- While all readings are the same, the clock stands. -/
theorem Leads.clocked (hc : c ≤ c) (h : M.Leads (Steady reading c ok) s t) :
    (M.clocked reading).Leads (fun s e => ok s.1 e) (s, c) (t, c) := by
  obtain ⟨es, halong, hrun⟩ := h
  induction es generalizing s with
  | nil =>
      cases hrun
      exact .refl _
  | cons e es ih =>
      rw [run_cons, Option.bind_eq_some_iff] at hrun
      obtain ⟨u, hnext, hrest⟩ := hrun
      obtain ⟨⟨hok, hread⟩, hrestAlong⟩ := halong u hnext
      exact .head (clocked_next hc hread hnext) hok (ih hrestAlong hrest)

end System

end Interleaving
