import Mathlib.Data.List.Chain
import Mathlib.Data.List.Infix
import Mathlib.Logic.Relation

/-!
# Walking back over parents

A search that records the parent of each element walks back from the element it is at
to an element further up its path. `BackWalk` is that loop without a bound on its
rounds: there is a list of edges exactly when the loop ends. On a path whose elements
are linked by their parents the walk ends, and its edges lead from the target down to
the start (`backWalk_of_linked`).
-/

namespace Reach

open Relation

variable {α : Type*} {parent : α → α} {Readable : α → Prop} {r : α → α → Prop}
  {target now v : α} {edges : List (α × α)}

/-- From `now` back to `target`, with the edges in the order of the walk. Each parent
that is read is that of a readable element. -/
inductive BackWalk (parent : α → α) (Readable : α → Prop) (target : α) :
    α → List (α × α) → Prop where
  | arrive {now : α} (readable : Readable now) (arrived : parent now = target) :
      BackWalk parent Readable target now [(parent now, now)]
  | back {now : α} {edges : List (α × α)} (readable : Readable now)
      (further : parent now ≠ target)
      (rest : BackWalk parent Readable target (parent now) edges) :
      BackWalk parent Readable target now ((parent now, now) :: edges)

/-- Edges of `r`, each of which ends where the next one starts, from `first` back to
`last`. -/
structure LeadsBack (r : α → α → Prop) (first last : α) (edges : List (α × α)) : Prop where
  related : ∀ e ∈ edges, r e.1 e.2
  joined : edges.IsChain fun e e' => e'.2 = e.1
  first : edges.head?.map Prod.snd = some first
  last : edges.getLast?.map Prod.fst = some last

/-- A directed cycle through `u`, which passes no element twice. -/
structure ClosedCycle (r : α → α → Prop) (u : α) (edges : List (α × α)) : Prop where
  closed : LeadsBack r u u edges
  once : (edges.map Prod.fst).Nodup

namespace LeadsBack

theorem single (h : r target now) : LeadsBack r now target [(target, now)] where
  related e he := by
    obtain rfl := List.mem_singleton.mp he
    exact h
  joined := .singleton _
  first := rfl
  last := rfl

/-- One more edge in front. -/
theorem cons (h : LeadsBack r now target edges) (hv : r now v) :
    LeadsBack r v target ((now, v) :: edges) := by
  cases edges with
  | nil => cases h.first
  | cons e rest =>
      refine ⟨?_, ?_, rfl, ?_⟩
      · intro e' he'
        obtain rfl | he' := List.mem_cons.mp he'
        · exact hv
        · exact h.related e' he'
      · exact h.joined.cons_cons (Option.some_inj.mp h.first)
      · rw [List.getLast?_cons_cons]
        exact h.last

/-- The edges are a path from the last element to the first one. -/
theorem transGen (h : LeadsBack r now target edges) : TransGen r target now := by
  induction edges generalizing now with
  | nil => cases h.first
  | cons e rest ih =>
      obtain rfl : e.2 = now := Option.some_inj.mp h.first
      have hedge := h.related e List.mem_cons_self
      cases rest with
      | nil =>
          obtain rfl : e.1 = target := Option.some_inj.mp h.last
          exact .single hedge
      | cons e' rest =>
          obtain ⟨hjoin, hchain⟩ := List.isChain_cons_cons.mp h.joined
          refine (ih ⟨fun x hx => h.related x (List.mem_cons_of_mem _ hx), hchain, ?_, ?_⟩).tail
            hedge
          · exact congrArg some hjoin
          · rw [← h.last, List.getLast?_cons_cons]

end LeadsBack

/-- A closed cycle is a cycle of the relation. -/
theorem ClosedCycle.transGen (h : ClosedCycle r target edges) : TransGen r target target :=
  h.closed.transGen

/-- The walk from the head of a linked path finds an element further up, and it passes
only elements of the path. -/
theorem backWalk_of_linked {path : List α}
    (linked : (now :: path).IsChain fun child p => parent child = p ∧ r p child)
    (readable : ∀ x ∈ now :: path, Readable x) (mem : target ∈ path) :
    ∃ edges, BackWalk parent Readable target now edges ∧ LeadsBack r now target edges ∧
      edges.map Prod.fst <+: path := by
  induction path generalizing now with
  | nil => exact absurd mem List.not_mem_nil
  | cons p path ih =>
      obtain ⟨⟨rfl, hedge⟩, hrest⟩ := List.isChain_cons_cons.mp linked
      have hnow := readable now List.mem_cons_self
      by_cases arrived : parent now = target
      · refine ⟨[(parent now, now)], .arrive hnow arrived, ?_, ?_⟩
        · rw [← arrived]
          exact .single hedge
        · exact List.prefix_cons_inj _ |>.mpr List.nil_prefix
      · have hmem : target ∈ path := (List.mem_cons.mp mem).resolve_left fun h => arrived h.symm
        obtain ⟨edges, hwalk, hleads, hprefix⟩ := ih hrest
          (fun x hx => readable x (List.mem_cons_of_mem _ hx)) hmem
        exact ⟨(parent now, now) :: edges, .back hnow arrived hwalk, hleads.cons hedge,
          (List.prefix_cons_inj _).mpr hprefix⟩

end Reach
