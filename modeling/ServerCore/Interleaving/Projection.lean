import ServerCore.Interleaving.Progress

/-!
# Runs of a composed system, seen through one of its parts

A system that is put together from others steps one part, several of them at once, or
none. Seen through one part, each step is a short run of that part's own system. So a
run of the whole is a run of the part, and what holds in every run of the part holds in
the whole (`Projects.reachable`).
-/

namespace Interleaving

namespace System

universe u v u' v'

variable {σ : Type u} {ε : Type v} {τ : Type u'} {δ : Type v'}

/-- Through `f`, each step of `M` that satisfies `ok` is a run of `N` whose steps satisfy
`ok'`. -/
structure Projects (M : System σ ε) (N : System τ δ) (ok : σ → ε → Prop) (ok' : τ → δ → Prop)
    (f : σ → τ) : Prop where
  init : ∀ s, M.init s → N.init (f s)
  next : ∀ s e s', ok s e → M.next s e = some s' →
    ∃ es, N.Along ok' es (f s) ∧ N.run es (f s) = some (f s')

namespace Projects

variable {M : System σ ε} {N : System τ δ} {ok : σ → ε → Prop} {ok' : τ → δ → Prop} {f : σ → τ}

theorem reachable (h : Projects M N ok ok' f) {s : σ} (hs : M.Reachable ok s) :
    N.Reachable ok' (f s) := by
  induction hs with
  | start hinit => exact .start (h.init _ hinit)
  | step _ hok hnext ih =>
      obtain ⟨es, along, hrun⟩ := h.next _ _ _ hok hnext
      exact ih.run along hrun

theorem leads (h : Projects M N ok ok' f) {s t : σ} (hleads : M.Leads ok s t) :
    N.Leads ok' (f s) (f t) := by
  obtain ⟨es, halong, hrun⟩ := hleads
  induction es generalizing s with
  | nil =>
      cases hrun
      exact .refl _
  | cons e es ih =>
      rw [run_cons, Option.bind_eq_some_iff] at hrun
      obtain ⟨u, hnext, hrest⟩ := hrun
      obtain ⟨hok, hrestAlong⟩ := halong u hnext
      exact Leads.trans (h.next _ _ _ hok hnext) (ih hrestAlong hrest)

/-- An invariant of the part holds in the whole. -/
theorem invariant (h : Projects M N ok ok' f) {I : τ → Prop}
    (hI : ∀ t, N.Reachable ok' t → I t) {s : σ} (hs : M.Reachable ok s) : I (f s) :=
  hI _ (h.reachable hs)

end Projects

/-- A part that stands still. -/
theorem exists_run_nil {N : System τ δ} {ok' : τ → δ → Prop} {t t' : τ} (h : t' = t) :
    ∃ es, N.Along ok' es t ∧ N.run es t = some t' :=
  ⟨[], trivial, by rw [h, run_nil]⟩

/-- A part that makes one step of its own. -/
theorem exists_run_single {N : System τ δ} {ok' : τ → δ → Prop} {t t' : τ} {e : δ}
    (hnext : N.next t e = some t') (hok : ok' t e) :
    ∃ es, N.Along ok' es t ∧ N.run es t = some t' :=
  ⟨[e], along_cons hnext hok trivial, by rw [run_cons, hnext, Option.bind_some, run_nil]⟩

end System

end Interleaving
