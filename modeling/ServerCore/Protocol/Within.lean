import ServerCore.Protocol.Numbers
import ServerCore.Wire.Valid

/-!
# Reading within a limit

The parser's readers run past limits; `Wire` has readers that do not, over the bytes up to
a limit. `within` is what is left of a pointer-level result below a limit: a result that
ends behind the limit counts as a failure. Below the end of the array, each reader agrees
within a limit with its counterpart in `Wire`.
-/

namespace ServerCore

namespace Protocol

namespace ParseContext

variable (ctx : ParseContext) {α β : Type} {p q limit : ℕ}

/-- The bytes between two positions. -/
def bytes (p limit : ℕ) : List UInt8 := ctx.slice p (limit - p)

/-- A result below a limit, with the bytes after it. -/
def within (limit : ℕ) (result : Option (α × ℕ)) : Option (α × List UInt8) :=
  result.bind fun (a, q) => if q ≤ limit then some (a, ctx.bytes q limit) else none

variable {ctx}

theorem length_slice (p n : ℕ) : (ctx.slice p n).length = n := by
  induction n generalizing p with
  | zero => rfl
  | succ n ih => rw [slice, List.length_cons, ih]

theorem slice_add (p n m : ℕ) : ctx.slice p (n + m) = ctx.slice p n ++ ctx.slice (p + n) m := by
  induction n generalizing p with
  | zero => rw [Nat.zero_add, slice, List.nil_append, Nat.add_zero]
  | succ n ih =>
      rw [Nat.succ_add, slice, slice, ih, List.cons_append, show p + 1 + n = p + (n + 1) by omega]

theorem length_bytes (p limit : ℕ) : (ctx.bytes p limit).length = limit - p := length_slice _ _

theorem bytes_of_lt (h : p < limit) :
    ctx.bytes p limit = ctx.data p :: ctx.bytes (p + 1) limit := by
  rw [bytes, bytes, show limit - p = limit - (p + 1) + 1 by omega, slice]

theorem bytes_of_le (h : limit ≤ p) : ctx.bytes p limit = [] := by
  rw [bytes, Nat.sub_eq_zero_of_le h, slice]

theorem bytes_append (hp : p ≤ q) (hq : q ≤ limit) :
    ctx.bytes p limit = ctx.bytes p q ++ ctx.bytes q limit := by
  rw [bytes, bytes, bytes, show limit - p = (q - p) + (limit - q) by omega, slice_add,
    show p + (q - p) = q by omega]

theorem within_some_of_le {a : α} (h : q ≤ limit) :
    ctx.within limit (some (a, q)) = some (a, ctx.bytes q limit) := by
  rw [within, Option.bind_some]
  exact if_pos h

theorem within_some_of_lt {a : α} (h : limit < q) : ctx.within limit (some (a, q)) = none := by
  rw [within, Option.bind_some]
  exact if_neg (by omega)

theorem within_map (f : α → β) (result : Option (α × ℕ)) :
    ctx.within limit (result.map fun (a, q) => (f a, q)) =
      (ctx.within limit result).map fun (a, rest) => (f a, rest) := by
  cases result with
  | none => rfl
  | some result =>
      obtain ⟨a, q⟩ := result
      rw [Option.map_some]
      by_cases h : q ≤ limit
      · rw [within_some_of_le h, within_some_of_le h, Option.map_some]
      · rw [within_some_of_lt (by omega), within_some_of_lt (by omega), Option.map_none]

/-- What follows a result that ends behind the limit ends there too. -/
theorem within_bind {result : Option (α × ℕ)} {f : α → ℕ → Option (β × ℕ)}
    {g : α → List UInt8 → Option (β × List UInt8)}
    (hadvances : ∀ a q b q', f a q = some (b, q') → q ≤ q')
    (hf : ∀ a q, result = some (a, q) → q ≤ limit →
      ctx.within limit (f a q) = g a (ctx.bytes q limit)) :
    ctx.within limit (result.bind fun (a, q) => f a q) =
      (ctx.within limit result).bind fun (a, rest) => g a rest := by
  cases result with
  | none => rfl
  | some result =>
      obtain ⟨a, q⟩ := result
      rw [Option.bind_some]
      by_cases h : q ≤ limit
      · rw [within_some_of_le h, Option.bind_some]
        exact hf a q rfl h
      · rw [within_some_of_lt (by omega), Option.bind_none]
        dsimp only
        cases hb : f a q with
        | none => rfl
        | some next =>
            obtain ⟨b, q'⟩ := next
            have hq' : limit < q' := Nat.lt_of_lt_of_le (by omega) (hadvances a q b q' hb)
            exact within_some_of_lt hq'

/-! ## Values -/

theorem within_varintAt (k p : ℕ) :
    ctx.within limit (ctx.varintAt k p) = Wire.readVarint k (ctx.bytes p limit) := by
  induction k generalizing p with
  | zero => rfl
  | succ k ih =>
      by_cases hp : p < limit
      · rw [bytes_of_lt hp, Wire.readVarint]
        by_cases hlt : (ctx.data p).toNat < 128
        · rw [varintAt_of_lt hlt, within_some_of_le hp, if_pos hlt]
        · rw [varintAt_of_le hlt, if_neg hlt, ← ih,
            within_map fun value => (ctx.data p).toNat - 128 + 128 * value]
      · rw [bytes_of_le (by omega), Wire.readVarint]
        cases hread : ctx.varintAt (k + 1) p with
        | none => rfl
        | some result =>
            obtain ⟨value, q⟩ := result
            have := (varintAt_bounds hread).1
            exact within_some_of_lt (by omega)

theorem within_readVarint64 (p : ℕ) :
    ctx.within limit (ctx.readVarint64 p) =
      (Wire.readVarint 10 (ctx.bytes p limit)).map fun (value, rest) =>
        (UInt64.ofNat value, rest) := by
  rw [readVarint64_eq, within_map UInt64.ofNat, within_varintAt]

theorem within_readVarint32 (p : ℕ) :
    ctx.within limit (ctx.readVarint32 p) =
      (Wire.readVarint 10 (ctx.bytes p limit)).map fun (value, rest) =>
        (UInt32.ofNat value, rest) := by
  rw [readVarint32_eq, within_map UInt32.ofNat, within_varintAt]

theorem within_readTag (p : ℕ) :
    (ctx.within limit (ctx.readTag p)).map (fun (tag, rest) => (tag.toNat, rest)) =
      Wire.readTag (ctx.bytes p limit) := by
  rw [readTag_eq, within_map UInt32.ofNat, within_varintAt, Option.map_map, Wire.readTag]
  rfl

theorem readTag_advances {tag : UInt32} (h : ctx.readTag p = some (tag, q)) : p < q := by
  rw [readTag_eq] at h
  obtain ⟨⟨value, q'⟩, hread, heq⟩ := Option.map_eq_some_iff.mp h
  cases heq
  exact (varintAt_bounds hread).1

theorem readVarint64_advances {value : UInt64} (h : ctx.readVarint64 p = some (value, q)) :
    p < q := by
  rw [readVarint64_eq] at h
  obtain ⟨⟨value', q'⟩, hread, heq⟩ := Option.map_eq_some_iff.mp h
  cases heq
  exact (varintAt_bounds hread).1

theorem readVarint32_advances {value : UInt32} (h : ctx.readVarint32 p = some (value, q)) :
    p < q := by
  rw [readVarint32_eq] at h
  obtain ⟨⟨value', q'⟩, hread, heq⟩ := Option.map_eq_some_iff.mp h
  cases heq
  exact (varintAt_bounds hread).1

theorem readSize_bounds {size : UInt32} (h : ctx.readSize p = some (size, q)) : p < q := by
  rw [readSize_eq] at h
  obtain ⟨⟨value, q'⟩, hread, heq⟩ := Option.bind_eq_some_iff.mp h
  simp only [Option.ite_none_right_eq_some] at heq
  cases heq.2
  exact (varintAt_bounds hread).1

theorem within_readSize (p : ℕ) :
    (ctx.within limit (ctx.readSize p)).map (fun (size, rest) => (size.toNat, rest)) =
      Wire.readSize (ctx.bytes p limit) := by
  rw [readSize_eq, Wire.readSize, ← within_varintAt]
  cases ctx.varintAt 5 p with
  | none => rfl
  | some result =>
      obtain ⟨value, q⟩ := result
      rw [Option.bind_some]
      dsimp only
      by_cases hq : q ≤ limit
      · rw [within_some_of_le hq, Option.bind_some]
        dsimp only
        split
        next hsize =>
          have hcast : (UInt32.ofNat value).toNat = value := by
            rw [Wire.maxSize] at hsize
            rw [UInt32.toNat_ofNat']
            omega
          rw [within_some_of_le hq, Option.map_some, hcast]
        next => rfl
      · rw [within_some_of_lt (by omega), Option.bind_none]
        split
        · rw [within_some_of_lt (by omega), Option.map_none]
        · rfl

theorem within_unalignedLoad (k : ℕ) (hp : p ≤ limit) :
    ctx.within limit (some (ctx.unalignedLoad k p, p + k)) =
      Wire.readFixed k (ctx.bytes p limit) := by
  induction k generalizing p with
  | zero => exact within_some_of_le hp
  | succ k ih =>
      by_cases hlt : p < limit
      · rw [bytes_of_lt hlt, Wire.readFixed, ← ih hlt, unalignedLoad,
          show p + (k + 1) = p + 1 + k by omega,
          ← within_map fun value => (ctx.data p).toNat + 256 * value]
        rfl
      · rw [within_some_of_lt (by omega), bytes_of_le (by omega), Wire.readFixed]

/-! ## Values of a given length -/

theorem readBytes_bytes {n : ℕ} (hq : q ≤ limit) :
    Wire.readBytes n (ctx.bytes q limit) =
      if q + n ≤ limit then some (ctx.bytes q (q + n), ctx.bytes (q + n) limit) else none := by
  rw [Wire.readBytes, length_bytes]
  by_cases h : q + n ≤ limit
  · have hlen : n = (ctx.bytes q (q + n)).length := by
      rw [length_bytes]
      omega
    rw [if_pos (by omega), if_pos h, bytes_append (Nat.le_add_right q n) h,
      List.take_left' hlen.symm, List.drop_left' hlen.symm]
  · rw [if_neg (by omega), if_neg h]

/-- A value behind its size: what the size announces lies within the limit, or nothing is
read. -/
theorem readLengthDelimited_bytes (p : ℕ) :
    Wire.readLengthDelimited (ctx.bytes p limit) =
      (ctx.readSize p).bind fun (size, q) =>
        if q + size.toNat ≤ limit then
          some (ctx.bytes q (q + size.toNat), ctx.bytes (q + size.toNat) limit)
        else none := by
  rw [Wire.readLengthDelimited, ← within_readSize]
  cases ctx.readSize p with
  | none => rfl
  | some result =>
      obtain ⟨size, q⟩ := result
      rw [Option.bind_some]
      dsimp only
      by_cases hq : q ≤ limit
      · rw [within_some_of_le hq, Option.map_some, Option.bind_some]
        exact readBytes_bytes hq
      · rw [within_some_of_lt (by omega), if_neg (by omega)]
        rfl

/-- A reader that goes on behind a size, to where the size says or not at all. -/
theorem within_sized (result : UInt32 → ℕ → Option (α × ℕ)) (f : List UInt8 → Option α)
    (hlimit : ∀ size q a q', result size q = some (a, q') → q' = q + size.toNat)
    (hf : ∀ size q, q + size.toNat ≤ limit →
      (result size q).map Prod.fst = f (ctx.bytes q (q + size.toNat))) (p : ℕ) :
    ctx.within limit ((ctx.readSize p).bind fun (size, q) => result size q) =
      (Wire.readLengthDelimited (ctx.bytes p limit)).bind fun (value, rest) =>
        (f value).map fun a => (a, rest) := by
  rw [readLengthDelimited_bytes]
  cases ctx.readSize p with
  | none => rfl
  | some size =>
      obtain ⟨size, q⟩ := size
      rw [Option.bind_some, Option.bind_some]
      dsimp only
      by_cases h : q + size.toNat ≤ limit
      · rw [if_pos h, Option.bind_some]
        dsimp only
        rw [← hf size q h]
        cases hresult : result size q with
        | none => rfl
        | some a =>
            obtain ⟨a, q'⟩ := a
            rw [hlimit size q a q' hresult, within_some_of_le h]
            rfl
      · rw [if_neg h, Option.bind_none]
        cases hresult : result size q with
        | none => rfl
        | some a =>
            obtain ⟨a, q'⟩ := a
            rw [hlimit size q a q' hresult]
            exact within_some_of_lt (by omega)

theorem readString_eq {size : ℕ} {value : List UInt8}
    (h : ctx.readString p size = some (value, q)) : q = p + size := by
  rw [readString, Option.ite_none_right_eq_some] at h
  cases h.2
  rfl

theorem within_inlineGreedyStringParser (hlimit : limit ≤ ctx.size) (p : ℕ) :
    ctx.within limit (ctx.inlineGreedyStringParser p) =
      Wire.readLengthDelimited (ctx.bytes p limit) := by
  have hsized := within_sized (fun size q => ctx.readString q size.toNat) some
    (fun size q value q' h => readString_eq h)
    (fun size q (h : q + size.toNat ≤ limit) => by
      rw [readString, if_pos (by omega), Option.map_some, bytes, Nat.add_sub_cancel_left]) p
  rw [inlineGreedyStringParser, hsized]
  cases Wire.readLengthDelimited (ctx.bytes p limit) <;> rfl

theorem inlineGreedyStringParser_advances {value : List UInt8}
    (h : ctx.inlineGreedyStringParser p = some (value, q)) : p ≤ q := by
  obtain ⟨⟨size, q'⟩, hsize, hvalue⟩ := Option.bind_eq_some_iff.mp h
  have := readSize_bounds hsize
  have := readString_eq hvalue
  omega

/-- The loop over packed numbers stops at its end, or behind it. -/
theorem readPackedVarintArray_eq {finish fuel : ℕ} (out : List UInt64) (hp : p ≤ finish)
    (hfuel : finish - p < fuel) :
    ((ctx.readPackedVarintArray finish fuel out p).bind fun (out, q) =>
        if q = finish then some (out, q) else none) =
      (Wire.varintsOf (ctx.bytes p finish)).map fun values =>
        (out ++ values.map UInt64.ofNat, finish) := by
  induction fuel generalizing out p with
  | zero => omega
  | succ fuel ih =>
      rw [readPackedVarintArray]
      by_cases hlt : p < finish
      · have hne : ctx.bytes p finish ≠ [] := by
          rw [bytes_of_lt hlt]
          exact List.cons_ne_nil _ _
        rw [if_pos hlt, Wire.varintsOf_of_ne_nil hne, ← within_varintAt, readVarint64_eq]
        cases hread : ctx.varintAt 10 p with
        | none => rfl
        | some result =>
            obtain ⟨value, q⟩ := result
            have hq := (varintAt_bounds hread).1
            rw [Option.map_some, Option.bind_some]
            dsimp only
            by_cases hle : q ≤ finish
            · rw [within_some_of_le hle, Option.bind_some, ih _ hle (by omega)]
              dsimp only
              rw [Option.map_map]
              refine Option.map_congr fun values _ => ?_
              simp only [Function.comp_apply, List.map_cons, List.append_assoc,
                List.singleton_append]
            · rw [within_some_of_lt (by omega), Option.bind_none, Option.map_none]
              cases fuel with
              | zero => rfl
              | succ fuel =>
                  rw [readPackedVarintArray, if_neg (by omega), Option.bind_some]
                  exact if_neg (by omega)
      · obtain rfl : p = finish := by omega
        rw [if_neg hlt, Option.bind_some, bytes_of_le (Nat.le_refl _), Wire.varintsOf_nil]
        simp only [if_true, Option.map_some, List.map_nil, List.append_nil]

theorem readPackedVarint_advances {out victims : List UInt64}
    (h : ctx.readPackedVarint out p = some (victims, q)) : p ≤ q := by
  obtain ⟨⟨size, q'⟩, hsize, hvalue⟩ := Option.bind_eq_some_iff.mp h
  obtain ⟨⟨values, q''⟩, _, hend⟩ := Option.bind_eq_some_iff.mp hvalue
  have := readSize_bounds hsize
  simp only [Option.ite_none_right_eq_some] at hend
  obtain ⟨hfinish, heq⟩ := hend
  cases heq
  omega

theorem within_readPackedVarint (out : List UInt64) (p : ℕ) :
    ctx.within limit (ctx.readPackedVarint out p) =
      (Wire.readLengthDelimited (ctx.bytes p limit)).bind fun (value, rest) =>
        ((Wire.varintsOf value).map fun values => out ++ values.map UInt64.ofNat).map
          fun victims => (victims, rest) := by
  rw [readPackedVarint]
  refine within_sized
    (fun size q =>
      (ctx.readPackedVarintArray (q + size.toNat) (size.toNat + 1) out q).bind fun (out, q') =>
        if q' = q + size.toNat then some (out, q') else none)
    (fun value => (Wire.varintsOf value).map fun values => out ++ values.map UInt64.ofNat) ?_ ?_ p
  · intro size q victims q' h
    rw [readPackedVarintArray_eq out (by omega) (by omega)] at h
    obtain ⟨values, _, heq⟩ := Option.map_eq_some_iff.mp h
    cases heq
    rfl
  · intro size q _
    rw [readPackedVarintArray_eq out (by omega) (by omega), Option.map_map]
    rfl

end ParseContext

end Protocol

end ServerCore
