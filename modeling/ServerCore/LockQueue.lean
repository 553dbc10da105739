import Mathlib.Data.List.Basic

/-!
# The queue behind job queues and the global queue

`LockQueue` holds shared pointers, and null is one of them: `Push` takes any pointer,
`Pop` answers null for an empty queue, and `PopAll` stops at the first null it pops.
Every member function runs under `WRITE_LOCK` and is one atomic operation here.
-/

namespace ServerCore

/-- A queue of shared pointers, front first; `none` is the null pointer. -/
structure LockQueue (α : Type) where
  items : List (Option α) := []
  deriving Repr

namespace LockQueue

variable {α : Type}

def push (q : LockQueue α) (item : Option α) : LockQueue α :=
  { items := q.items ++ [item] }

def pop (q : LockQueue α) : Option α × LockQueue α :=
  match q.items with
  | [] => (none, q)
  | item :: rest => (item, { items := rest })

/-- `while (Type item = Pop()) out.push_back(item)`, by recursion on the items. -/
def popLoop : List (Option α) → List α → List α × LockQueue α
  | [], out => (out, { items := [] })
  | none :: rest, out => (out, { items := rest })
  | some item :: rest, out => popLoop rest (out ++ [item])

def popAll (q : LockQueue α) (out : List α) : List α × LockQueue α :=
  popLoop q.items out

def clear (_ : LockQueue α) : LockQueue α := {}

/-- `PopAll` is the loop around `Pop` that it is written as. -/
theorem popAll_eq (q : LockQueue α) (out : List α) :
    q.popAll out =
      match q.pop with
      | (none, rest) => (out, rest)
      | (some item, rest) => rest.popAll (out ++ [item]) := by
  obtain ⟨items⟩ := q
  cases items with
  | nil => rfl
  | cons item rest => cases item <;> rfl

/-- No item is null. -/
def NonNull (q : LockQueue α) : Prop := ∃ contents : List α, q.items = contents.map some

theorem nonNull_empty : ({} : LockQueue α).NonNull := ⟨[], rfl⟩

theorem NonNull.push {q : LockQueue α} (h : q.NonNull) (item : α) :
    (q.push (some item)).NonNull := by
  obtain ⟨contents, hitems⟩ := h
  exact ⟨contents ++ [item], by simp [LockQueue.push, hitems]⟩

theorem popLoop_map_some (contents out : List α) :
    popLoop (contents.map some) out = (out ++ contents, {}) := by
  induction contents generalizing out with
  | nil => simp [popLoop]
  | cons item rest ih =>
      rw [List.map_cons, popLoop, ih]
      simp

/-- Without null items `PopAll` appends the whole queue in order and empties it. -/
theorem popAll_of_items {q : LockQueue α} {contents : List α}
    (h : q.items = contents.map some) (out : List α) :
    q.popAll out = (out ++ contents, {}) := by
  rw [popAll, h, popLoop_map_some]

theorem count_push [DecidableEq α] (q : LockQueue α) (item a : α) :
    (q.push (some item)).items.count (some a) =
      q.items.count (some a) + if item = a then 1 else 0 := by
  simp [LockQueue.push, List.count_singleton]

/-- A popped item leaves one occurrence less of itself. -/
theorem count_pop [DecidableEq α] {q rest : LockQueue α} {item : Option α}
    (h : q.pop = (item, rest)) (a : α) :
    q.items.count (some a) = rest.items.count (some a) + if item = some a then 1 else 0 := by
  obtain ⟨items⟩ := q
  cases items with
  | nil =>
      cases h
      rfl
  | cons item' items =>
      cases h
      simp [List.count_cons]

theorem head?_of_pop {q rest : LockQueue α} {item : Option α} (h : q.pop = (item, rest)) (a : α) :
    q.items.head? = some (some a) ↔ item = some a := by
  obtain ⟨items⟩ := q
  cases items with
  | nil =>
      cases h
      simp
  | cons item' items =>
      cases h
      simp

/-- Pop `n` times, null answers included. -/
def popTimes : ℕ → LockQueue α → List (Option α) → List (Option α) × LockQueue α
  | 0, q, out => (out, q)
  | n + 1, q, out => popTimes n q.pop.2 (out ++ [q.pop.1])

theorem popTimes_length (items out : List (Option α)) :
    popTimes items.length { items } out = (out ++ items, {}) := by
  induction items generalizing out with
  | nil => simp [popTimes]
  | cons item rest ih =>
      rw [List.length_cons, popTimes]
      show popTimes rest.length { items := rest } (out ++ [item]) = _
      rw [ih, List.append_assoc, List.singleton_append]

/-- `PopAll` onto `out` has popped as often as the queue had items: all of them are
appended in order, and the queue is empty. -/
structure Drains (q : LockQueue α) (out : List α) : Prop where
  appended : (q.popAll out).1.map some = out.map some ++ q.items
  emptied : (q.popAll out).2.items = []
  popped : ((q.popAll out).1.map some, (q.popAll out).2) =
    q.popTimes q.items.length (out.map some)

theorem items_eq_map_some {items : List (Option α)} (h : none ∉ items) :
    ∃ contents : List α, items = contents.map some := by
  induction items with
  | nil => exact ⟨[], rfl⟩
  | cons item rest ih =>
      rw [List.mem_cons, not_or] at h
      obtain ⟨contents, rfl⟩ := ih h.2
      obtain ⟨a, rfl⟩ := Option.ne_none_iff_exists'.mp (Ne.symm h.1)
      exact ⟨a :: contents, rfl⟩

/-- `PopAll` drains the queue exactly when no item is null: null is also its signal that
the queue is empty. -/
theorem popAll_drains_iff (q : LockQueue α) (out : List α) : q.Drains out ↔ none ∉ q.items := by
  constructor
  · intro h hnull
    have hmem : none ∈ (q.popAll out).1.map some :=
      h.appended ▸ List.mem_append_right _ hnull
    obtain ⟨a, -, ha⟩ := List.mem_map.mp hmem
    cases ha
  · intro h
    obtain ⟨contents, hitems⟩ := items_eq_map_some h
    have hall := popAll_of_items hitems out
    have happended : (q.popAll out).1.map some = out.map some ++ q.items := by
      rw [hall, hitems, List.map_append]
    have hemptied : (q.popAll out).2 = {} := by
      rw [hall]
    refine ⟨happended, by rw [hemptied], ?_⟩
    rw [happended, hemptied]
    exact (popTimes_length q.items (out.map some)).symm

/-- A null pointer in front of an item: `PopAll` appends nothing and leaves the item. -/
theorem popAll_stops :
    ¬∀ (pushed : List (Option ℕ)) (out : List ℕ),
      Drains (pushed.foldl LockQueue.push {}) out := by
  intro h
  have := (h [none, some 7] []).emptied
  cases this

end LockQueue

end ServerCore
