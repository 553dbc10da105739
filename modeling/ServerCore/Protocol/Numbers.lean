import ServerCore.Protocol.ParseContext

/-!
# The numbers of the parser

Each reader of numbers adds a byte less 1 at its place, so that the bit that says that
more bytes follow is taken back by the byte after it. `varintAt` is the number that the
bytes at a position spell, without a limit and without a width; the readers compute it
modulo their width.
-/

namespace ServerCore

namespace Protocol

namespace ParseContext

variable (ctx : ParseContext) {p limit k n m i : ℕ}

/-- The number at a position, in at most `k` bytes, and the position after it. -/
def varintAt : ℕ → ℕ → Option (ℕ × ℕ)
  | 0, _ => none
  | k + 1, p =>
      if (ctx.data p).toNat < 128 then some ((ctx.data p).toNat, p + 1)
      else (varintAt k (p + 1)).map fun (value, q) =>
        ((ctx.data p).toNat - 128 + 128 * value, q)

/-- What `n` bytes spell that do not end a number. -/
def digitsAt : ℕ → ℕ → ℕ
  | 0, _ => 0
  | n + 1, p => (ctx.data p).toNat - 128 + 128 * digitsAt n (p + 1)

variable {ctx}

theorem varintAt_of_lt (h : (ctx.data p).toNat < 128) :
    ctx.varintAt (k + 1) p = some ((ctx.data p).toNat, p + 1) := by
  rw [varintAt, if_pos h]

theorem varintAt_of_le (h : ¬(ctx.data p).toNat < 128) :
    ctx.varintAt (k + 1) p = (ctx.varintAt k (p + 1)).map fun (value, q) =>
      ((ctx.data p).toNat - 128 + 128 * value, q) := by
  rw [varintAt, if_neg h]

theorem varintAt_bounds {value q : ℕ} (h : ctx.varintAt k p = some (value, q)) :
    p < q ∧ value < 128 ^ k := by
  induction k generalizing p value with
  | zero => cases h
  | succ k ih =>
      rw [Nat.pow_succ]
      by_cases hlt : (ctx.data p).toNat < 128
      · rw [varintAt_of_lt hlt] at h
        cases h
        have := Nat.one_le_pow k 128 (by omega)
        omega
      · rw [varintAt_of_le hlt] at h
        obtain ⟨⟨value', q'⟩, hread, heq⟩ := Option.map_eq_some_iff.mp h
        cases heq
        have := ih hread
        have := (ctx.data p).toNat_lt
        omega

theorem digitsAt_lt : ctx.digitsAt n p < 128 ^ n := by
  induction n generalizing p with
  | zero => exact Nat.one_pos
  | succ n ih =>
      have := ih (p := p + 1)
      have := (ctx.data p).toNat_lt
      rw [digitsAt, Nat.pow_succ]
      omega

/-- A number that `n` bytes have not ended goes on behind them. -/
theorem varintAt_add (n m p : ℕ) :
    ctx.varintAt (n + m) p =
      match ctx.varintAt n p with
      | some result => some result
      | none => (ctx.varintAt m (p + n)).map fun (value, q) =>
          (ctx.digitsAt n p + 128 ^ n * value, q) := by
  induction n generalizing p with
  | zero =>
      rw [varintAt, digitsAt, Nat.zero_add, Nat.add_zero]
      simp only [Nat.pow_zero, Nat.one_mul, Nat.zero_add]
      exact (congrFun Option.map_id _).symm
  | succ n ih =>
      rw [Nat.succ_add]
      by_cases hlt : (ctx.data p).toNat < 128
      · rw [varintAt_of_lt hlt, varintAt_of_lt hlt]
      · rw [varintAt_of_le hlt, varintAt_of_le hlt, ih]
        cases hn : ctx.varintAt n (p + 1) with
        | some result => rfl
        | none =>
            rw [Option.map_none, show p + 1 + n = p + (n + 1) by omega]
            dsimp only
            rw [Option.map_map]
            refine Option.map_congr fun ⟨value, q⟩ _ => ?_
            simp only [Function.comp_apply, digitsAt, Prod.mk.injEq, and_true]
            rw [Nat.pow_succ, Nat.mul_add, Nat.add_assoc, Nat.mul_comm (128 ^ n) 128,
              Nat.mul_assoc]

/-! ## 32 bits -/

theorem shiftLeft_eq_mul32 (x : UInt32) (h : k < 32) :
    x <<< UInt32.ofNat k = x * UInt32.ofNat (2 ^ k) := by
  have hk : (UInt32.ofNat k).toNat % 32 = k := by
    rw [UInt32.toNat_ofNat']
    omega
  have hpow : 2 ^ k % 2 ^ 32 = 2 ^ k := Nat.mod_eq_of_lt (Nat.pow_lt_pow_right (by omega) h)
  apply UInt32.toNat_inj.mp
  rw [UInt32.toNat_shiftLeft, UInt32.toNat_mul, hk, UInt32.toNat_ofNat', hpow, Nat.shiftLeft_eq]

theorem byte_lt32 : ((ctx.data p).toUInt32 < 128) ↔ (ctx.data p).toNat < 128 := by
  rw [UInt32.lt_iff_toNat_lt, UInt8.toNat_toUInt32]
  rfl

theorem ofNat_pow_succ32 : UInt32.ofNat (2 ^ (7 * (i + 1))) = 128 * UInt32.ofNat (2 ^ (7 * i)) := by
  rw [Nat.mul_succ, Nat.pow_add, Nat.mul_comm, UInt32.ofNat_mul]
  rfl

/-- The digit of a byte that does not end a number, with the number behind it. -/
theorem ofNat_digit32 (h : ¬(ctx.data p).toNat < 128) (value : ℕ) :
    UInt32.ofNat ((ctx.data p).toNat - 128 + 128 * value) =
      (ctx.data p).toUInt32 - 128 + 128 * UInt32.ofNat value := by
  rw [UInt32.ofNat_add, UInt32.ofNat_mul, UInt32.ofNat_sub (by omega),
    UInt32.ofNat_uInt8ToNat]
  rfl

/-- The loop adds the number at its index, less the 1 that takes back the bit before it. -/
theorem accumulate32_eq {after : UInt32 → Option (UInt32 × ℕ)} (hi : i + n ≤ 5) (res : UInt32) :
    ctx.accumulate32 p after n i res =
      match ctx.varintAt n (p + i) with
      | some (value, q) =>
          some (res + (UInt32.ofNat value - 1) * UInt32.ofNat (2 ^ (7 * i)), q)
      | none =>
          after (res + (UInt32.ofNat (ctx.digitsAt n (p + i) + 128 ^ n) - 1) *
            UInt32.ofNat (2 ^ (7 * i))) := by
  induction n generalizing i res with
  | zero =>
      rw [accumulate32, varintAt, digitsAt]
      congr 1
      grind
  | succ n ih =>
      rw [accumulate32, shiftLeft_eq_mul32 _ (by omega)]
      simp only [byte_lt32]
      by_cases hlt : (ctx.data (p + i)).toNat < 128
      · rw [if_pos hlt, varintAt_of_lt hlt, ← UInt32.ofNat_uInt8ToNat]
      · rw [if_neg hlt, varintAt_of_le hlt, ih (by omega), show p + (i + 1) = p + i + 1 by omega,
          ofNat_pow_succ32]
        cases ctx.varintAt n (p + i + 1) with
        | some result =>
            obtain ⟨value, q⟩ := result
            simp only [Option.map_some, Option.some.injEq, Prod.mk.injEq, and_true]
            rw [ofNat_digit32 hlt]
            grind
        | none =>
            simp only [Option.map_none]
            congr 1
            rw [digitsAt, Nat.pow_succ, Nat.mul_comm (128 ^ n), Nat.add_assoc (_ - 128),
              ← Nat.mul_add, ofNat_digit32 hlt]
            grind

/-- The first two bytes are rounds of the loop too, from 1 on. -/
theorem firstBytes_accumulate32 (after : UInt32 → Option (UInt32 × ℕ)) :
    ctx.firstBytes id (ctx.accumulate32 p after n 2) p = ctx.accumulate32 p after (n + 2) 0 1 := by
  have hfirst : (1 : UInt32) + ((ctx.data p).toUInt32 - 1) <<< UInt32.ofNat (7 * 0) =
      (ctx.data p).toUInt32 := by
    rw [shiftLeft_eq_mul32 _ (by omega)]
    grind
  rw [firstBytes, accumulate32, accumulate32]
  simp only [Nat.add_zero, Nat.zero_add, hfirst]
  rfl

theorem skipVarint_eq (res : UInt32) :
    ctx.skipVarint p n i res = (ctx.varintAt n (p + i)).map fun (_, q) => (res, q) := by
  induction n generalizing i with
  | zero => rfl
  | succ n ih =>
      have hbyte : ctx.data (p + i) < 128 ↔ (ctx.data (p + i)).toNat < 128 := UInt8.lt_iff_toNat_lt
      rw [skipVarint]
      simp only [hbyte]
      by_cases hlt : (ctx.data (p + i)).toNat < 128
      · rw [if_pos hlt, varintAt_of_lt hlt, Option.map_some]
      · rw [if_neg hlt, varintAt_of_le hlt, ih, show p + (i + 1) = p + i + 1 by omega,
          Option.map_map]
        rfl

theorem readTag_eq (p : ℕ) :
    ctx.readTag p = (ctx.varintAt 5 p).map fun (value, q) => (UInt32.ofNat value, q) := by
  have hread : ctx.readTag p = ctx.accumulate32 p (fun _ => none) 5 0 1 :=
    firstBytes_accumulate32 _
  rw [hread, accumulate32_eq (by omega), Nat.add_zero]
  cases ctx.varintAt 5 p with
  | none => rfl
  | some result =>
      obtain ⟨value, q⟩ := result
      simp only [Option.map_some, Option.some.injEq, Prod.mk.injEq, and_true]
      grind

/-- The bytes after the fifth have no place in 32 bits. -/
theorem readVarint32_eq (p : ℕ) :
    ctx.readVarint32 p = (ctx.varintAt 10 p).map fun (value, q) => (UInt32.ofNat value, q) := by
  have hread : ctx.readVarint32 p = ctx.accumulate32 p (ctx.skipVarint p 5 5) 5 0 1 :=
    firstBytes_accumulate32 _
  rw [hread, accumulate32_eq (by omega), Nat.add_zero, varintAt_add 5 5]
  cases ctx.varintAt 5 p with
  | some result =>
      obtain ⟨value, q⟩ := result
      simp only [Option.map_some, Option.some.injEq, Prod.mk.injEq, and_true]
      grind
  | none =>
      dsimp only
      rw [skipVarint_eq, Option.map_map]
      refine Option.map_congr fun ⟨value, q⟩ _ => ?_
      have hzero : UInt32.ofNat (128 ^ 5) = 0 := by decide
      simp only [Function.comp_apply, UInt32.ofNat_add, UInt32.ofNat_mul, hzero, Prod.mk.injEq,
        and_true]
      grind

/-- A fifth byte from 8 on makes the size too large, as a sum beyond the bound does. -/
theorem readSizeLast_eq (h : ctx.varintAt 4 p = none) :
    ctx.readSizeLast p (UInt32.ofNat (ctx.digitsAt 4 p + 128 ^ 4)) =
      (ctx.varintAt 5 p).bind fun (value, q) =>
        if value ≤ Wire.maxSize then some (UInt32.ofNat value, q) else none := by
  have hdigits : ctx.digitsAt 4 p < 128 ^ 4 := digitsAt_lt
  have hbyte : (8 ≤ (ctx.data (p + 4)).toUInt32) ↔ 8 ≤ (ctx.data (p + 4)).toNat := by
    rw [UInt32.le_iff_toNat_le, UInt8.toNat_toUInt32]
    rfl
  have hsum : UInt32.ofNat (ctx.digitsAt 4 p + 128 ^ 4) + ((ctx.data (p + 4)).toUInt32 - 1) <<< 28 =
      UInt32.ofNat (ctx.digitsAt 4 p + 128 ^ 4 * (ctx.data (p + 4)).toNat) := by
    have hshift := shiftLeft_eq_mul32 (k := 28) ((ctx.data (p + 4)).toUInt32 - 1) (by omega)
    have hpow : UInt32.ofNat (2 ^ 28) = UInt32.ofNat (128 ^ 4) := by decide
    have hlit : (28 : UInt32) = UInt32.ofNat 28 := rfl
    rw [hlit, hshift, hpow]
    simp only [UInt32.ofNat_add, UInt32.ofNat_mul, UInt32.ofNat_uInt8ToNat]
    grind
  rw [readSizeLast, varintAt_add 4 1, h]
  simp only [hbyte, hsum]
  by_cases hlt : (ctx.data (p + 4)).toNat < 128
  · rw [varintAt_of_lt hlt]
    simp only [Option.map_some, Option.bind_some]
    by_cases height : 8 ≤ (ctx.data (p + 4)).toNat
    · rw [if_pos height, if_neg]
      rw [Wire.maxSize]
      omega
    · have hbound : maxSize < UInt32.ofNat (ctx.digitsAt 4 p + 128 ^ 4 * (ctx.data (p + 4)).toNat) ↔
          ¬ctx.digitsAt 4 p + 128 ^ 4 * (ctx.data (p + 4)).toNat ≤ Wire.maxSize := by
        rw [UInt32.lt_iff_toNat_lt, UInt32.toNat_ofNat', Nat.mod_eq_of_lt (by omega), Nat.not_le]
        rfl
      rw [if_neg height]
      simp only [hbound, ite_not]
  · have height : 8 ≤ (ctx.data (p + 4)).toNat := by omega
    rw [if_pos height, varintAt_of_le hlt]
    rfl

theorem readSize_eq (p : ℕ) :
    ctx.readSize p = (ctx.varintAt 5 p).bind fun (value, q) =>
      if value ≤ Wire.maxSize then some (UInt32.ofNat value, q) else none := by
  have hread : ctx.readSize p = ctx.accumulate32 p (ctx.readSizeLast p) 4 0 1 := by
    have hfirst : (1 : UInt32) + ((ctx.data p).toUInt32 - 1) <<< UInt32.ofNat (7 * 0) =
        (ctx.data p).toUInt32 := by
      rw [shiftLeft_eq_mul32 _ (by omega)]
      grind
    rw [readSize, accumulate32]
    simp only [Nat.add_zero, hfirst]
    rfl
  rw [hread, accumulate32_eq (by omega), Nat.add_zero]
  cases h4 : ctx.varintAt 4 p with
  | some result =>
      obtain ⟨value, q⟩ := result
      have hsmall : value ≤ Wire.maxSize := by
        have := (varintAt_bounds h4).2
        rw [Wire.maxSize]
        omega
      rw [varintAt_add 4 1, h4]
      simp only [Option.bind_some, hsmall, if_true, Option.some.injEq, Prod.mk.injEq, and_true]
      grind
  | none =>
      have hres : ∀ x : UInt32, 1 + (x - 1) * UInt32.ofNat (2 ^ (7 * 0)) = x := by grind
      rw [← readSizeLast_eq h4, hres]

/-! ## 64 bits -/

theorem shiftLeft_eq_mul64 (x : UInt64) (h : k < 64) :
    x <<< UInt64.ofNat k = x * UInt64.ofNat (2 ^ k) := by
  have hk : (UInt64.ofNat k).toNat % 64 = k := by
    rw [UInt64.toNat_ofNat']
    omega
  have hpow : 2 ^ k % 2 ^ 64 = 2 ^ k := Nat.mod_eq_of_lt (Nat.pow_lt_pow_right (by omega) h)
  apply UInt64.toNat_inj.mp
  rw [UInt64.toNat_shiftLeft, UInt64.toNat_mul, hk, UInt64.toNat_ofNat', hpow, Nat.shiftLeft_eq]

theorem byte_lt64 : ((ctx.data p).toUInt64 < 128) ↔ (ctx.data p).toNat < 128 := by
  rw [UInt64.lt_iff_toNat_lt, UInt8.toNat_toUInt64]
  rfl

theorem ofNat_pow_succ64 : UInt64.ofNat (2 ^ (7 * (i + 1))) = 128 * UInt64.ofNat (2 ^ (7 * i)) := by
  rw [Nat.mul_succ, Nat.pow_add, Nat.mul_comm, UInt64.ofNat_mul]
  rfl

theorem ofNat_digit64 (h : ¬(ctx.data p).toNat < 128) (value : ℕ) :
    UInt64.ofNat ((ctx.data p).toNat - 128 + 128 * value) =
      (ctx.data p).toUInt64 - 128 + 128 * UInt64.ofNat value := by
  rw [UInt64.ofNat_add, UInt64.ofNat_mul, UInt64.ofNat_sub (by omega),
    UInt64.ofNat_uInt8ToNat]
  rfl

theorem varintParseSlow64Loop_eq (hi : i + n ≤ 10) (res : UInt64) :
    ctx.varintParseSlow64Loop p n i res = (ctx.varintAt n (p + i)).map fun (value, q) =>
      (res + (UInt64.ofNat value - 1) * UInt64.ofNat (2 ^ (7 * i)), q) := by
  induction n generalizing i res with
  | zero => rfl
  | succ n ih =>
      rw [varintParseSlow64Loop, shiftLeft_eq_mul64 _ (by omega)]
      simp only [byte_lt64]
      by_cases hlt : (ctx.data (p + i)).toNat < 128
      · rw [if_pos hlt, varintAt_of_lt hlt, ← UInt64.ofNat_uInt8ToNat, Option.map_some]
      · rw [if_neg hlt, varintAt_of_le hlt, ih (by omega), show p + (i + 1) = p + i + 1 by omega,
          ofNat_pow_succ64, Option.map_map]
        refine Option.map_congr fun ⟨value, q⟩ _ => ?_
        simp only [Function.comp_apply, Prod.mk.injEq, and_true]
        rw [ofNat_digit64 hlt]
        grind

/-- The first two bytes are added in 32 bits, where they fit. -/
theorem readVarint64_eq (p : ℕ) :
    ctx.readVarint64 p = (ctx.varintAt 10 p).map fun (value, q) => (UInt64.ofNat value, q) := by
  have hfirst := (ctx.data p).toNat_lt
  have hsecond := (ctx.data (p + 1)).toNat_lt
  rw [readVarint64, firstBytes]
  simp only [byte_lt32]
  by_cases hlt : (ctx.data p).toNat < 128
  · rw [if_pos hlt, varintAt_of_lt hlt, Option.map_some, UInt64.ofNat_uInt8ToNat]
    rfl
  · have hres : (ctx.data p).toUInt32 + ((ctx.data (p + 1)).toUInt32 - 1) <<< 7 =
        UInt32.ofNat ((ctx.data p).toNat - 128 + 128 * (ctx.data (p + 1)).toNat) := by
      have hshift := shiftLeft_eq_mul32 (k := 7) ((ctx.data (p + 1)).toUInt32 - 1) (by omega)
      have hlit : (7 : UInt32) = UInt32.ofNat 7 := rfl
      have hpow : UInt32.ofNat (2 ^ 7) = 128 := rfl
      rw [ofNat_digit32 hlt, hlit, hshift, hpow, UInt32.ofNat_uInt8ToNat]
      grind
    have hcast :
        (UInt32.ofNat ((ctx.data p).toNat - 128 + 128 * (ctx.data (p + 1)).toNat)).toUInt64 =
        UInt64.ofNat ((ctx.data p).toNat - 128 + 128 * (ctx.data (p + 1)).toNat) :=
      UInt32.toUInt64_ofNat' (show _ < 2 ^ 32 by omega)
    rw [if_neg hlt, varintAt_of_le hlt, hres]
    by_cases hlt' : (ctx.data (p + 1)).toNat < 128
    · rw [if_pos hlt', varintAt_of_lt hlt', Option.map_some, Option.map_some, hcast]
    · rw [if_neg hlt', varintAt_of_le hlt', varintParseSlow64, hcast,
        varintParseSlow64Loop_eq (by omega), Option.map_map, Option.map_map]
      refine Option.map_congr fun ⟨value, q⟩ _ => ?_
      have hpow : UInt64.ofNat (2 ^ (7 * 2)) = 16384 := rfl
      simp only [Function.comp_apply, Prod.mk.injEq, and_true]
      rw [ofNat_digit64 hlt, ofNat_digit64 hlt, ofNat_digit64 hlt', UInt64.ofNat_uInt8ToNat, hpow]
      grind

end ParseContext

end Protocol

end ServerCore
