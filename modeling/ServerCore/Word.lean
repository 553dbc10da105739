import Mathlib.Data.Nat.Bitwise
import Mathlib.Tactic.NormNum

/-!
# Machine words read as numbers

A 32-bit word holds two 16-bit halves. Masks and shifts select a half; these
lemmas turn them into division and remainder, where linear arithmetic applies.
Signed words are compared with natural counters through `Int32.ofNat`, which
wraps, and are exact below the sign bit.
-/

namespace Word

theorem toNat_upper (w : UInt32) : ((w &&& 0xFFFF0000) >>> 16).toNat = w.toNat / 65536 := by
  have hlt := w.toNat_lt
  rw [UInt32.toNat_shiftRight, UInt32.toNat_and]
  change (w.toNat &&& 0xFFFF0000) >>> 16 = _
  rw [Nat.shiftRight_and_distrib, Nat.shiftRight_eq_div_pow]
  change w.toNat / 2 ^ 16 &&& 2 ^ 16 - 1 = _
  rw [Nat.and_two_pow_sub_one_eq_mod]
  omega

theorem toNat_lower (w : UInt32) : (w &&& 0x0000FFFF).toNat = w.toNat % 65536 := by
  rw [UInt32.toNat_and]
  exact Nat.and_two_pow_sub_one_eq_mod w.toNat 16

theorem toNat_shifted (w : UInt32) (h : w.toNat < 65536) :
    ((w <<< 16) &&& 0xFFFF0000).toNat = w.toNat * 65536 := by
  have hshift : (w <<< 16).toNat = w.toNat <<< 16 := by
    rw [UInt32.toNat_shiftLeft]
    change w.toNat <<< 16 % 4294967296 = _
    rw [Nat.shiftLeft_eq]
    omega
  rw [UInt32.toNat_and, hshift]
  change w.toNat <<< 16 &&& 0xFFFF <<< 16 = _
  rw [← Nat.shiftLeft_and_distrib]
  change (w.toNat &&& 2 ^ 16 - 1) <<< 16 = _
  rw [Nat.and_two_pow_sub_one_eq_mod, Nat.shiftLeft_eq]
  omega

theorem toNat_add_one (w : UInt32) (h : w.toNat + 1 < 2 ^ 32) :
    (w + 1).toNat = w.toNat + 1 := by
  rw [UInt32.toNat_add]
  exact Nat.mod_eq_of_lt h

theorem toNat_sub_one (w : UInt32) (h : 0 < w.toNat) : (w - 1).toNat = w.toNat - 1 :=
  UInt32.toNat_sub_of_le w 1 (UInt32.le_iff_toNat_le.mpr h)

theorem toNat_sub_eq_iff (n m : UInt32) : (n - m).toNat = n.toNat - m.toNat ↔ m ≤ n := by
  have hn := n.toNat_lt
  have hm := m.toNat_lt
  rw [UInt32.toNat_sub, UInt32.le_iff_toNat_le]
  omega

theorem toNat_add_one16 (w : UInt16) (h : w.toNat + 1 < 2 ^ 16) :
    (w + 1).toNat = w.toNat + 1 := by
  rw [UInt16.toNat_add]
  exact Nat.mod_eq_of_lt h

theorem toNat_sub_one16 (w : UInt16) (h : 0 < w.toNat) : (w - 1).toNat = w.toNat - 1 :=
  UInt16.toNat_sub_of_le w 1 (UInt16.le_iff_toNat_le.mpr h)

/-- A counter that wraps tells numbers below its range apart. -/
theorem ofNat_inj {n m : ℕ} (hn : n < 2 ^ 32) (hm : m < 2 ^ 32)
    (h : Int32.ofNat n = Int32.ofNat m) : n = m := by
  have htoInt := congrArg Int32.toInt h
  have hsize : Int32.size = 4294967296 := rfl
  rw [Int32.toInt_ofNat', Int32.toInt_ofNat', hsize] at htoInt
  simp only [Int.bmod] at htoInt
  omega

/-- A counter that wraps follows the number it counts. -/
theorem ofNat_ledger {k plus minus k' : ℕ} (hk : k' + minus = k + plus) :
    Int32.ofNat k + Int32.ofNat plus - Int32.ofNat minus = Int32.ofNat k' := by
  rw [← Int32.ofNat_add, ← hk, Int32.ofNat_add]
  grind

/-- A signed counter that is exact stays exact while it fits. -/
theorem toInt_ledger {n : Int32} {k plus minus k' : ℕ} (hn : n.toInt = k)
    (hk : k' + minus = k + plus) (hlt : k + plus < 2 ^ 31) :
    (n + Int32.ofNat plus - Int32.ofNat minus).toInt = k' := by
  have hplus : (Int32.ofNat plus).toInt = plus := Int32.toInt_ofNat_of_lt (by omega)
  have hsum : (k : ℤ) + plus - minus = k' := by omega
  have hsize : Int32.size = 2 ^ 32 := rfl
  rw [Int32.toInt_sub, Int32.toInt_add, hn, hplus, Int32.toInt_ofNat', hsize, Int.bmod_sub_bmod,
    Int.sub_bmod_bmod, hsum]
  apply Int.bmod_eq_of_le <;> omega

/-- A sum of signed words is exact while it fits. -/
theorem toInt_add_of_fits {n m : Int32} (lo : -2 ^ 31 ≤ n.toInt + m.toInt)
    (hi : n.toInt + m.toInt < 2 ^ 31) : (n + m).toInt = n.toInt + m.toInt := by
  rw [Int32.toInt_add]
  apply Int.bmod_eq_of_le <;> omega

theorem toInt_sub_of_fits {n m : Int32} (lo : -2 ^ 31 ≤ n.toInt - m.toInt)
    (hi : n.toInt - m.toInt < 2 ^ 31) : (n - m).toInt = n.toInt - m.toInt := by
  rw [Int32.toInt_sub]
  apply Int.bmod_eq_of_le <;> omega

/-- A difference of two cursors is exact. -/
theorem toInt_sub_of_le {n m : Int32} (hm : 0 ≤ m.toInt) (hle : m.toInt ≤ n.toInt) :
    (n - m).toInt = n.toInt - m.toInt := by
  have := Int32.toInt_lt n
  rw [Int32.toInt_sub]
  apply Int.bmod_eq_of_le <;> omega

/-- The unsigned reading of a word that is not negative. -/
theorem toNat_toUInt32 {n : Int32} (h : 0 ≤ n.toInt) : (n.toUInt32.toNat : ℤ) = n.toInt := by
  rw [Int32.toNat_toUInt32_of_le (Int32.le_iff_toInt_le.mpr h)]
  exact Int.toNat_of_nonneg h

theorem toNat_toUInt64 {n : Int64} (h : 0 ≤ n.toInt) : (n.toUInt64.toNat : ℤ) = n.toInt := by
  rw [Int64.toNat_toUInt64_of_le (Int64.le_iff_toInt_le.mpr h)]
  exact Int.toNat_of_nonneg h

/-- What divides the modulus divides a wrapped number when it divides the number. -/
theorem dvd_bmod {k m : ℕ} (hk : k ∣ m) (x : ℤ) : (k : ℤ) ∣ x.bmod m ↔ (k : ℤ) ∣ x := by
  apply Int.dvd_iff_dvd_of_dvd_sub
  exact (Int.natCast_dvd_natCast.mpr hk).trans Int.dvd_bmod_sub_self

theorem dvd_toInt32 {k : ℕ} (hk : k ∣ 2 ^ 32) (n : UInt32) :
    (k : ℤ) ∣ n.toInt32.toInt ↔ k ∣ n.toNat := by
  have hvalue : n.toInt32.toInt = (n.toNat : ℤ).bmod (2 ^ 32) := BitVec.toInt_eq_toNat_bmod _
  rw [hvalue, dvd_bmod hk, Int.natCast_dvd_natCast]

theorem dvd_toUInt64 {k : ℕ} (hk : k ∣ 2 ^ 64) (n : Int64) :
    k ∣ n.toUInt64.toNat ↔ (k : ℤ) ∣ n.toInt := by
  have hvalue : n.toInt = (n.toUInt64.toNat : ℤ).bmod (2 ^ 64) := BitVec.toInt_eq_toNat_bmod _
  rw [hvalue, dvd_bmod hk, Int.natCast_dvd_natCast]

theorem dvd_toNat_add {k : ℕ} (hk : k ∣ 2 ^ 64) {a : UInt64} (ha : k ∣ a.toNat) (b : UInt64) :
    k ∣ (a + b).toNat ↔ k ∣ b.toNat := by
  rw [UInt64.toNat_add, Nat.dvd_mod_iff hk, Nat.dvd_add_right ha]

theorem dvd_toNat_sub {k : ℕ} (hk : k ∣ 2 ^ 64) {a b : UInt64} (ha : k ∣ a.toNat)
    (hb : k ∣ b.toNat) : k ∣ (a - b).toNat := by
  rw [← dvd_toNat_add hk hb, UInt64.add_comm, UInt64.sub_add_cancel]
  exact ha

/-- Reading a word as unsigned loses nothing. -/
theorem toUInt32_inj {n m : Int32} (h : n.toUInt32 = m.toUInt32) : n = m := by
  rw [← Int32.toInt32_toUInt32 n, h, Int32.toInt32_toUInt32]

/-- The counters that hold the largest value are the full ones. -/
theorem toInt_lt_of_ne_maxValue {n : Int32} (h : n ≠ Int32.maxValue) : n.toInt + 1 < 2 ^ 31 := by
  have hle := Int32.toInt_lt n
  have hne : n.toInt ≠ Int32.maxValue.toInt := fun heq => h (Int32.toInt_inj.mp heq)
  change n.toInt ≠ 2147483647 at hne
  omega

end Word
