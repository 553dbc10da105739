import Mathlib.Logic.Relation
import Mathlib.Order.Defs.Unbundled

/-!
# Acyclic relations

A relation is acyclic when no element reaches itself by one or more steps. A search
that finishes an element only after all its successors keeps the finished elements
`Cleared`: they are closed under the relation, and none of them lies on a cycle.
-/

namespace Reach

open Relation

variable {α β : Type*} {r : α → α → Prop} {s : β → β → Prop}

def Acyclic {α : Type*} (r : α → α → Prop) : Prop := ∀ x, ¬TransGen r x x

/-- A relation whose steps are mapped to paths of an acyclic one is acyclic. -/
theorem Acyclic.of_paths (h : Acyclic s) (f : α → β)
    (paths : ∀ x y, r x y → TransGen s (f x) (f y)) : Acyclic r := by
  intro x hcycle
  exact h (f x) (TransGen.lift' f paths x x hcycle)

/-- A relation that goes up from label to label is acyclic. The labels of an element are
equal, and those of the others need not be known. -/
theorem acyclic_of_labels {lt : β → β → Prop} [IsStrictOrder β lt] {label : α → β → Prop}
    (unique : ∀ x a b, label x a → label x b → a = b)
    (up : ∀ x y, r x y → ∃ a b, label x a ∧ label y b ∧ lt a b) : Acyclic r := by
  have hpath : ∀ x y, TransGen r x y → ∃ a b, label x a ∧ label y b ∧ lt a b := by
    intro x y hxy
    induction hxy with
    | single hstep => exact up _ _ hstep
    | tail _ hstep ih =>
        obtain ⟨a, b, ha, hb, hab⟩ := ih
        obtain ⟨b', c, hb', hc, hbc⟩ := up _ _ hstep
        cases unique _ b b' hb hb'
        exact ⟨a, c, ha, hc, trans_of lt hab hbc⟩
  intro x hcycle
  obtain ⟨a, b, ha, hb, hab⟩ := hpath x x hcycle
  cases unique x a b ha hb
  exact irrefl_of lt a hab

/-- The elements of `done` are closed under `r` and reach no cycle. -/
structure Cleared {α : Type*} (r : α → α → Prop) (done : α → Prop) : Prop where
  closed : ∀ x y, done x → r x y → done y
  acyclic : ∀ x, done x → ¬TransGen r x x

namespace Cleared

variable {done : α → Prop}

/-- Whatever a cleared element reaches is cleared. -/
theorem reaches (h : Cleared r done) {x y : α} (hx : done x) (hxy : TransGen r x y) : done y := by
  induction hxy with
  | single hstep => exact h.closed _ _ hx hstep
  | tail _ hstep ih => exact h.closed _ _ ih hstep

/-- An element whose successors are cleared may be added. -/
theorem insert (h : Cleared r done) {x : α} (new : ¬done x) (next : ∀ y, r x y → done y) :
    Cleared r (fun y => y = x ∨ done y) := by
  constructor
  · rintro y z (rfl | hy) hstep
    · exact .inr (next z hstep)
    · exact .inr (h.closed y z hy hstep)
  · rintro y (rfl | hy) hcycle
    · obtain ⟨z, hstep, hrest⟩ := (TransGen.head'_iff).mp hcycle
      obtain hzy | hzy := reflTransGen_iff_eq_or_transGen.mp hrest
      · exact new (hzy ▸ next z hstep)
      · exact new (h.reaches (next z hstep) hzy)
    · exact h.acyclic y hy hcycle

/-- A relation all of whose sources are cleared is acyclic. -/
theorem acyclic_of_sources (h : Cleared r done) (sources : ∀ x y, r x y → done x) : Acyclic r := by
  intro x hcycle
  obtain ⟨z, hstep, -⟩ := (TransGen.head'_iff).mp hcycle
  exact h.acyclic x (sources x z hstep) hcycle

end Cleared

end Reach
