import Mathlib.Algebra.GroupWithZero.Nat
import Mathlib.Tactic.Common

/-!
# Numbers in base 128

A varint is a number in base 128, its low digits first. Every byte but the last has 128
added to its digit. A reader takes a bound on the number of bytes, and fails where the
bytes end inside the number or the bound is used up. It accepts longer forms than the
writer's: what it reads back from a writer is the number, and it never reads further.
-/

namespace Wire

/-- The bytes of a number. -/
def writeVarint (value : ℕ) : List UInt8 :=
  if value < 128 then [UInt8.ofNat value]
  else UInt8.ofNat (value % 128 + 128) :: writeVarint (value / 128)

/-- The number at the front of some bytes, in at most `k` bytes, and the bytes after it. -/
def readVarint : ℕ → List UInt8 → Option (ℕ × List UInt8)
  | 0, _ => none
  | _ + 1, [] => none
  | k + 1, byte :: rest =>
      if byte.toNat < 128 then some (byte.toNat, rest)
      else (readVarint k rest).map fun (value, rest) => (byte.toNat - 128 + 128 * value, rest)

variable {k l value : ℕ} {bytes rest : List UInt8}

theorem writeVarint_of_lt (h : value < 128) : writeVarint value = [UInt8.ofNat value] := by
  rw [writeVarint, if_pos h]

theorem writeVarint_of_le (h : 128 ≤ value) :
    writeVarint value = UInt8.ofNat (value % 128 + 128) :: writeVarint (value / 128) := by
  rw [writeVarint, if_neg (by omega)]

theorem writeVarint_ne_nil (value : ℕ) : writeVarint value ≠ [] := by
  rw [writeVarint]
  split <;> exact List.cons_ne_nil _ _

/-! ## Reading back -/

/-- A reader whose bound is large enough reads back what was written. -/
theorem readVarint_writeVarint (rest : List UInt8) (h : value < 128 ^ (k + 1)) :
    readVarint (k + 1) (writeVarint value ++ rest) = some (value, rest) := by
  induction k generalizing value with
  | zero =>
      have hbyte : (UInt8.ofNat value).toNat = value := by
        rw [UInt8.toNat_ofNat']
        omega
      have hlt : value < 128 := by omega
      rw [writeVarint_of_lt hlt, List.singleton_append, readVarint, hbyte, if_pos hlt]
  | succ k ih =>
      by_cases hlt : value < 128
      · have hbyte : (UInt8.ofNat value).toNat = value := by
          rw [UInt8.toNat_ofNat']
          omega
        rw [writeVarint_of_lt hlt, List.singleton_append, readVarint, hbyte, if_pos hlt]
      · have hbyte : (UInt8.ofNat (value % 128 + 128)).toNat = value % 128 + 128 := by
          rw [UInt8.toNat_ofNat']
          omega
        have hdigits : value / 128 < 128 ^ (k + 1) := by
          rw [Nat.div_lt_iff_lt_mul (by omega), ← Nat.pow_succ]
          exact h
        have hvalue : value % 128 + 128 - 128 + 128 * (value / 128) = value := by omega
        rw [writeVarint_of_le (by omega), List.cons_append, readVarint, hbyte,
          if_neg (by omega), ih hdigits]
        simp only [Option.map_some, hvalue]

/-- Bytes after the number do not change it. -/
theorem readVarint_append (h : readVarint k bytes = some (value, rest)) (more : List UInt8) :
    readVarint k (bytes ++ more) = some (value, rest ++ more) := by
  induction k, bytes using readVarint.induct generalizing value with
  | case1 => cases h
  | case2 => cases h
  | case3 k byte bytes hlt =>
      rw [readVarint, if_pos hlt] at h
      cases h
      rw [List.cons_append, readVarint, if_pos hlt]
  | case4 k byte bytes hlt ih =>
      rw [readVarint, if_neg hlt, Option.map_eq_some_iff] at h
      obtain ⟨⟨digits, tail⟩, hread, hvalue⟩ := h
      cases hvalue
      rw [List.cons_append, readVarint, if_neg hlt, ih hread, Option.map_some]

/-- A number takes at least one byte and at most `k`. -/
theorem readVarint_length (h : readVarint k bytes = some (value, rest)) :
    rest.length < bytes.length ∧ bytes.length ≤ rest.length + k := by
  induction k, bytes using readVarint.induct generalizing value with
  | case1 => cases h
  | case2 => cases h
  | case3 k byte bytes hlt =>
      rw [readVarint, if_pos hlt] at h
      cases h
      rw [List.length_cons]
      omega
  | case4 k byte bytes hlt ih =>
      rw [readVarint, if_neg hlt, Option.map_eq_some_iff] at h
      obtain ⟨⟨digits, tail⟩, hread, hvalue⟩ := h
      cases hvalue
      have := ih hread
      rw [List.length_cons]
      omega

/-! ## Lengths -/

/-- One byte for every seven binary digits, and one for 0. -/
theorem length_writeVarint (value : ℕ) : (writeVarint value).length = value.log2 / 7 + 1 := by
  induction value using Nat.strongRecOn with
  | ind value ih =>
      by_cases hlt : value < 128
      · have hlog : value.log2 < 7 := by
          by_cases hzero : value = 0
          · rw [hzero]
            decide
          · exact (Nat.log2_lt hzero).mpr hlt
        rw [writeVarint_of_lt hlt, List.length_singleton]
        omega
      · have hlog : value.log2 = (value / 128).log2 + 7 := by
          have hlow := Nat.log2_self_le (n := value / 128) (by omega)
          have hhigh := Nat.lt_log2_self (n := value / 128)
          rw [Nat.log2_eq_iff (by omega)]
          have hdouble : 2 ^ ((value / 128).log2 + 7) = 128 * 2 ^ (value / 128).log2 := by
            rw [Nat.pow_add, Nat.mul_comm]
          rw [Nat.pow_succ] at hhigh
          rw [Nat.pow_succ 2 ((value / 128).log2 + 7), hdouble]
          omega
        rw [writeVarint_of_le (by omega), List.length_cons, ih _ (by omega), hlog]
        omega

end Wire
