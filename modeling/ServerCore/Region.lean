import Mathlib.Tactic.Common

/-!
# Regions of a linear memory

A buffer is a list of cells. `slice` is what a copy out of a range reads, `store` what
a copy into a range leaves behind. Both are exact for ranges inside the buffer; the
lemmas say how a store looks through a slice that lies below it, on it, or ends in it.
-/

namespace Region

variable {α : Type*} {buffer cells : List α} {lo mid hi off : ℕ}

/-- The cells of the range `[lo, hi)`. -/
def slice (buffer : List α) (lo hi : ℕ) : List α := (buffer.drop lo).take (hi - lo)

/-- Overwrite the range that begins at `off`. -/
def store (buffer : List α) (off : ℕ) (cells : List α) : List α :=
  buffer.take off ++ cells ++ buffer.drop (off + cells.length)

@[simp] theorem slice_self : slice buffer lo lo = [] := by
  simp [slice]

theorem length_slice (h : hi ≤ buffer.length) : (slice buffer lo hi).length = hi - lo := by
  rw [slice, List.length_take, List.length_drop]
  omega

/-- Dropping cells from the front of a slice moves its lower end. -/
theorem drop_slice (n : ℕ) : (slice buffer lo hi).drop n = slice buffer (lo + n) hi := by
  rw [slice, slice, List.drop_take, List.drop_drop, Nat.sub_sub]

/-- Adjacent slices join. -/
theorem slice_append (hlo : lo ≤ mid) (hhi : mid ≤ hi) :
    slice buffer lo mid ++ slice buffer mid hi = slice buffer lo hi := by
  have hmid : buffer.drop mid = (buffer.drop lo).drop (mid - lo) := by
    rw [List.drop_drop]
    congr 1
    omega
  have hlen : hi - lo = (mid - lo) + (hi - mid) := by omega
  rw [slice, slice, slice, hmid, hlen, List.take_add]

theorem length_store (h : off + cells.length ≤ buffer.length) :
    (store buffer off cells).length = buffer.length := by
  rw [store, List.length_append, List.length_append, List.length_take, List.length_drop]
  omega

/-- A store does not show below its range. -/
theorem slice_store_below (hhi : hi ≤ off) (hoff : off ≤ buffer.length) :
    slice (store buffer off cells) lo hi = slice buffer lo hi := by
  have htake : ∀ l : List α, slice l lo hi = (l.take hi).drop lo := by
    intro l
    rw [slice, List.drop_take]
  rw [htake, htake, store, List.append_assoc, List.take_append_of_le_length, List.take_take,
    Nat.min_eq_left hhi]
  rw [List.length_take]
  omega

/-- The range of a store holds what was stored. -/
theorem slice_store_self (hoff : off ≤ buffer.length) :
    slice (store buffer off cells) off (off + cells.length) = cells := by
  have hlen : (buffer.take off).length = off := by
    rw [List.length_take]
    omega
  rw [slice, store, List.append_assoc, List.drop_append_of_le_length (Nat.le_of_eq hlen.symm),
    List.drop_eq_nil_of_le (Nat.le_of_eq hlen), List.nil_append, Nat.add_sub_cancel_left]
  exact List.take_left

/-- A slice that reaches the end of a store extends by what was stored. -/
theorem slice_store_extend (hlo : lo ≤ off) (hoff : off ≤ buffer.length) :
    slice (store buffer off cells) lo (off + cells.length) = slice buffer lo off ++ cells := by
  rw [← slice_append hlo (Nat.le_add_right off cells.length), slice_store_below (Nat.le_refl off) hoff,
    slice_store_self hoff]

/-- A store does not show above its range. -/
theorem slice_store_above (hlo : off + cells.length ≤ lo) (hoff : off ≤ buffer.length) :
    slice (store buffer off cells) lo hi = slice buffer lo hi := by
  have hlen : (buffer.take off ++ cells).length = off + cells.length := by
    rw [List.length_append, List.length_take]
    omega
  have hdrop : (store buffer off cells).drop lo = buffer.drop lo := by
    rw [store, List.drop_append, List.drop_eq_nil_of_le (by omega), List.nil_append, hlen,
      List.drop_drop]
    congr 1
    omega
  rw [slice, slice, hdrop]

/-- A store inside a slice is a store to the slice. -/
theorem slice_store_inside (hhi : lo + off + cells.length ≤ hi) (hbuffer : hi ≤ buffer.length) :
    slice (store buffer (lo + off) cells) lo hi = store (slice buffer lo hi) off cells := by
  have hwhole : slice (store buffer (lo + off) cells) lo hi =
      slice buffer lo (lo + off) ++ cells ++ slice buffer (lo + off + cells.length) hi := by
    have hmid : lo ≤ lo + off + cells.length := by omega
    rw [← slice_append hmid hhi, slice_store_extend (Nat.le_add_right lo off) (by omega),
      slice_store_above (Nat.le_refl _) (by omega)]
  have htake : (slice buffer lo hi).take off = slice buffer lo (lo + off) := by
    rw [slice, slice, List.take_take]
    congr 1
    omega
  rw [hwhole, store, htake, drop_slice, Nat.add_assoc]

end Region
