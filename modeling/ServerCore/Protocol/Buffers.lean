import Mathlib.Algebra.GroupWithZero.Nat
import Mathlib.Algebra.Order.Ring.Int
import ServerCore.Interleaving.System
import ServerCore.Protocol.ParseContext

/-!
# The parser's buffers and its limit

`EpsCopyInputStream` goes through a flat array in two buffers: the array without its last
`kSlopBytes`, and a copy of these. A short array is copied at once. `limit_`, the end of
the innermost message, is an `int` that counts from the end of the buffer at hand. Neither
an array nor a size reaches `INT_MAX`, so no `int` overflows. In every run of `PushLimit`,
`PopLimit`, `Next` and `DoneWithCheck` the tests of the end are therefore a matter of
positions: what they find is `ParseContext.done` at the end of the innermost message
(`reachable_doneWithCheck`).
-/

namespace ServerCore

namespace Protocol

/-- `bufferEnd` is a position in the array, and `nextChunk` says whether the copy of its
last bytes is still to come. -/
structure EpsCopyInputStream where
  bufferEnd : ℕ
  nextChunk : Bool
  limit : Int32

namespace EpsCopyInputStream

/-- `InitFrom` an array. -/
def initFrom (size : ℕ) : EpsCopyInputStream :=
  if kSlopBytes < size then { bufferEnd := size - kSlopBytes, nextChunk := true, limit := 16 }
  else { bufferEnd := size, nextChunk := false, limit := 0 }

section Operations

variable (s : EpsCopyInputStream)

/-- `limit_end_`. -/
def limitEnd : ℤ := s.bufferEnd + min 0 s.limit.toInt

/-- How far a pointer is past `buffer_end_`, as an `int`. -/
def overrun (p : ℕ) : Int32 := Int32.ofInt (p - s.bufferEnd)

/-- `PushLimit`, with the difference of the limits that it returns. -/
def pushLimit (p : ℕ) (size : UInt32) : EpsCopyInputStream × Int32 :=
  let limit := size.toInt32 + s.overrun p
  ({ s with limit }, s.limit - limit)

/-- `PopLimit` at the end of a message. -/
def popLimit (delta : Int32) : EpsCopyInputStream := { s with limit := s.limit + delta }

/-- `NextBuffer`, and `limit_` relative to the new end. -/
def nextBuffer : EpsCopyInputStream :=
  { bufferEnd := s.bufferEnd + kSlopBytes, nextChunk := false, limit := s.limit - 16 }

/-- At the end of the last buffer. -/
def endOfStream (overrun : Int32) : Done := if overrun ≠ 0 then .exceeded else .ended 1

def doneFallback (p : ℕ) : Done × EpsCopyInputStream :=
  if s.limit < s.overrun p then (.exceeded, s)
  else if s.nextChunk = true then
    let s := s.nextBuffer
    -- A pointer that is not inside the copy takes the loop to the end of the stream.
    if 0 ≤ s.overrun p then (endOfStream (s.overrun p), s) else (.more, s)
  else (endOfStream (s.overrun p), s)

def doneWithCheck (p : ℕ) : Done × EpsCopyInputStream :=
  if (p : ℤ) < s.limitEnd then (.more, s)
  else if s.overrun p = s.limit then
    (if 0 < s.overrun p ∧ s.nextChunk = false then .exceeded else .ended 0, s)
  else s.doneFallback p

def dataAvailable (p : ℕ) : Bool := decide ((p : ℤ) < s.limitEnd)

end Operations

/-- The stream goes through an array of `size` bytes, below a limit at position `limit`. -/
structure At (size limit : ℕ) (s : EpsCopyInputStream) : Prop where
  array : s.bufferEnd + (if s.nextChunk = true then kSlopBytes else 0) = size
  limit_eq : s.limit = Int32.ofInt (limit - s.bufferEnd)
  fits : limit ≤ s.bufferEnd + intMax

variable {s s' : EpsCopyInputStream} {size limit p : ℕ}

theorem At.bufferEnd_le (h : At size limit s) : s.bufferEnd ≤ size :=
  h.array ▸ Nat.le_add_right _ _

theorem At.toInt_limit (h : At size limit s) (hsize : size ≤ intMax) :
    s.limit.toInt = limit - s.bufferEnd := by
  have hend := h.bufferEnd_le
  have hfits := h.fits
  rw [h.limit_eq]
  unfold intMax at hsize hfits
  exact Int32.toInt_ofInt_of_le (by omega) (by omega)

theorem toInt_overrun (hend : s.bufferEnd ≤ intMax) (hp : p ≤ s.bufferEnd + kSlopBytes) :
    (s.overrun p).toInt = p - s.bufferEnd := by
  unfold intMax at hend
  unfold kSlopBytes at hp
  exact Int32.toInt_ofInt_of_le (by omega) (by omega)

/-- An array ends where its first limit is. -/
theorem at_initFrom (hsize : size ≤ intMax) : At size size (initFrom size) := by
  unfold initFrom
  split
  · next hlong =>
      refine ⟨Nat.sub_add_cancel (Nat.le_of_lt hlong), ?_, ?_⟩
      · have hdiff : (size : ℤ) - ((size - kSlopBytes : ℕ) : ℤ) = 16 := by
          unfold kSlopBytes at hlong ⊢
          omega
        rw [hdiff]
        rfl
      · exact Nat.le_trans hsize (Nat.le_add_left _ _)
  · refine ⟨rfl, ?_, Nat.le_add_right _ _⟩
    rw [Int.sub_self]
    rfl

/-- The end of a message fits in `limit_`. -/
theorem At.pushLimit (h : At size limit s) (hp : p ≤ s.bufferEnd + kSlopBytes) {n : UInt32}
    (hn : n ≤ maxSize) : At size (p + n.toNat) (s.pushLimit p n).1 := by
  have hlength : n.toNat ≤ 2147483631 := UInt32.le_iff_toNat_le.mp hn
  refine ⟨h.array, ?_, ?_⟩
  · have hcast : n.toInt32 = Int32.ofInt n.toNat := by
      rw [Int32.ofInt_eq_ofNat, ← UInt32.toInt32_ofNat', UInt32.ofNat_toNat]
    change n.toInt32 + Int32.ofInt (p - s.bufferEnd) = Int32.ofInt (_ - s.bufferEnd)
    rw [hcast, ← Int32.ofInt_add]
    congr 1
    push_cast
    omega
  · change p + n.toNat ≤ s.bufferEnd + intMax
    unfold kSlopBytes at hp
    unfold intMax
    omega

/-- `PushLimit` returns the distance of the two limits, which no buffer changes. -/
theorem At.pushLimit_delta (h : At size limit s) (hp : p ≤ s.bufferEnd + kSlopBytes) {n : UInt32}
    (hn : n ≤ maxSize) : (s.pushLimit p n).2 = Int32.ofInt (limit - (p + n.toNat : ℕ)) := by
  have hpush := (h.pushLimit hp hn).limit_eq
  have hsame : (s.pushLimit p n).1.bufferEnd = s.bufferEnd := rfl
  change s.limit - (s.pushLimit p n).1.limit = _
  rw [h.limit_eq, hpush, hsame, ← Int32.ofInt_sub]
  congr 1
  omega

/-- After a message the limit is where it was before, in whatever buffer. -/
theorem At.popLimit {inner : ℕ} (h : At size inner s) (fits : limit ≤ s.bufferEnd + intMax) :
    At size limit (s.popLimit (Int32.ofInt (limit - inner))) := by
  refine ⟨h.array, ?_, fits⟩
  change s.limit + Int32.ofInt (limit - inner) = Int32.ofInt (limit - s.bufferEnd)
  rw [h.limit_eq, ← Int32.ofInt_add]
  congr 1
  omega

theorem At.nextBuffer (h : At size limit s) (hnext : s.nextChunk = true) :
    At size limit s.nextBuffer := by
  refine ⟨?_, ?_, ?_⟩
  · have harray := h.array
    rw [if_pos hnext] at harray
    exact harray
  · change s.limit - 16 = Int32.ofInt (limit - ((s.bufferEnd + kSlopBytes : ℕ) : ℤ))
    have hslop : (16 : Int32) = Int32.ofInt kSlopBytes := rfl
    rw [h.limit_eq, hslop, ← Int32.ofInt_sub]
    congr 1
    push_cast
    omega
  · exact Nat.le_trans h.fits (Nat.add_le_add_right (Nat.le_add_right _ _) _)

section Tests

variable (hend : s.bufferEnd ≤ intMax) (hp : p ≤ s.bufferEnd + kSlopBytes)

include hend hp

theorem overrun_eq_zero_iff : s.overrun p = 0 ↔ p = s.bufferEnd := by
  rw [← Int32.toInt_inj, toInt_overrun hend hp, Int32.toInt_zero]
  omega

theorem zero_le_overrun_iff : 0 ≤ s.overrun p ↔ s.bufferEnd ≤ p := by
  rw [Int32.le_iff_toInt_le, toInt_overrun hend hp, Int32.toInt_zero]
  omega

theorem zero_lt_overrun_iff : 0 < s.overrun p ↔ s.bufferEnd < p := by
  rw [Int32.lt_iff_toInt_lt, toInt_overrun hend hp, Int32.toInt_zero]
  omega

end Tests

namespace At

variable (h : At size limit s) (hsize : size ≤ intMax)

include h hsize

/-- A pointer below `limit_end_` is below the limit and in the buffer at hand. -/
theorem lt_limitEnd_iff : (p : ℤ) < s.limitEnd ↔ p < s.bufferEnd ∧ p < limit := by
  rw [limitEnd, h.toInt_limit hsize]
  omega

theorem dataAvailable_eq :
    s.dataAvailable p = (decide (p < s.bufferEnd) && decide (p < limit)) := by
  rw [dataAvailable, ← Bool.decide_and]
  exact decide_eq_decide.mpr (h.lt_limitEnd_iff hsize)

variable (hp : p ≤ s.bufferEnd + kSlopBytes)

include hp

theorem overrun_eq_limit_iff : s.overrun p = s.limit ↔ p = limit := by
  rw [← Int32.toInt_inj, toInt_overrun (Nat.le_trans h.bufferEnd_le hsize) hp,
    h.toInt_limit hsize]
  omega

theorem limit_lt_overrun_iff : s.limit < s.overrun p ↔ limit < p := by
  rw [Int32.lt_iff_toInt_lt, toInt_overrun (Nat.le_trans h.bufferEnd_le hsize) hp,
    h.toInt_limit hsize]
  omega

end At

variable {ctx : ParseContext}

/-- A test of the end at position `p` has the result `r`. Where there is more, the buffer at
hand has the next byte, so it has `kSlopBytes` more that can be read. -/
structure Finds (ctx : ParseContext) (limit p : ℕ) (s : EpsCopyInputStream)
    (r : Done × EpsCopyInputStream) : Prop where
  done : r.1 = ctx.done limit p
  stays : At ctx.size limit r.2
  forward : s.bufferEnd ≤ r.2.bufferEnd
  room : r.1 = .more → p < r.2.bufferEnd

theorem endOfStream_eq (hend : s.bufferEnd = ctx.size) (hp : p ≤ s.bufferEnd + kSlopBytes)
    (hpast : s.bufferEnd ≤ p) (hlimit : p < limit) :
    endOfStream (s.overrun p) = ctx.done limit p := by
  have hzero := overrun_eq_zero_iff (hend ▸ ctx.size_le) hp
  have hne : p ≠ limit := Nat.ne_of_lt hlimit
  have hnotExceeded : ¬limit < p := Nat.not_lt_of_gt hlimit
  have hnotMore : ¬p < ctx.size := Nat.not_lt.mpr (hend ▸ hpast)
  rw [endOfStream, ParseContext.done, if_neg hne, if_neg hnotExceeded, if_neg hnotMore]
  by_cases hp' : p = s.bufferEnd
  · rw [if_neg (not_not.mpr (hzero.mpr hp')), if_pos (hp'.trans hend)]
  · rw [if_pos (mt hzero.mp hp'), if_neg fun heq => hp' (heq.trans hend.symm)]

theorem endOfStream_ne_more (n : Int32) : endOfStream n ≠ .more := by
  rw [endOfStream]
  split <;> nofun

/-- Behind the buffer at hand, and not at the limit. -/
theorem At.doneFallback (h : At ctx.size limit s) (hp : p ≤ s.bufferEnd + kSlopBytes)
    (hne : p ≠ limit) (hpast : p < limit → s.bufferEnd ≤ p) :
    Finds ctx limit p s (s.doneFallback p) := by
  have hexceeds := h.limit_lt_overrun_iff ctx.size_le hp
  have harray := h.array
  rw [EpsCopyInputStream.doneFallback]
  split
  · next hlt =>
      refine ⟨?_, h, Nat.le_refl _, nofun⟩
      rw [ParseContext.done, if_neg hne, if_pos (hexceeds.mp hlt)]
  · next hle =>
      have hlimit : p < limit := by
        have := mt hexceeds.mpr hle
        omega
      split
      · next hnext =>
          -- The copy of the last bytes, which end with the array.
          have h' := h.nextBuffer hnext
          rw [if_pos hnext] at harray
          have hend : s.nextBuffer.bufferEnd = ctx.size := harray
          have hin : p ≤ s.nextBuffer.bufferEnd := hp
          have hslop : p ≤ s.nextBuffer.bufferEnd + kSlopBytes :=
            Nat.le_trans hin (Nat.le_add_right _ _)
          have hforward : s.bufferEnd ≤ s.nextBuffer.bufferEnd := Nat.le_add_right _ _
          have hzero := zero_le_overrun_iff (hend ▸ ctx.size_le) hslop
          simp only
          split
          · next hout =>
              exact ⟨endOfStream_eq hend hslop (hzero.mp hout) hlimit, h', hforward,
                fun hmore => absurd hmore (endOfStream_ne_more _)⟩
          · next hout =>
              have hlt : p < s.nextBuffer.bufferEnd := Nat.lt_of_not_le (mt hzero.mpr hout)
              refine ⟨?_, h', hforward, fun _ => hlt⟩
              rw [ParseContext.done, if_neg hne, if_neg (Nat.not_lt_of_gt hlimit),
                if_pos (hend ▸ hlt)]
      · next hnext =>
          rw [if_neg hnext] at harray
          exact ⟨endOfStream_eq harray hp (hpast hlimit) hlimit, h, Nat.le_refl _,
            fun hmore => absurd hmore (endOfStream_ne_more _)⟩

/-- `DoneWithCheck` compares positions, in whatever buffer it is called. -/
theorem At.doneWithCheck (h : At ctx.size limit s) (hp : p ≤ s.bufferEnd + kSlopBytes) :
    Finds ctx limit p s (s.doneWithCheck p) := by
  have hbelow := h.lt_limitEnd_iff (p := p) ctx.size_le
  have hat := h.overrun_eq_limit_iff ctx.size_le hp
  have hend := h.bufferEnd_le
  rw [EpsCopyInputStream.doneWithCheck]
  split
  · next hlt =>
      obtain ⟨hbuffer, hlimit⟩ := hbelow.mp hlt
      refine ⟨?_, h, Nat.le_refl _, fun _ => hbuffer⟩
      rw [ParseContext.done, if_neg (Nat.ne_of_lt hlimit), if_neg (Nat.not_lt_of_gt hlimit),
        if_pos (Nat.lt_of_lt_of_le hbuffer hend)]
  · next hge =>
      split
      · next heq =>
          -- Only in the last buffer a limit can lie behind the array.
          have hpast := zero_lt_overrun_iff (Nat.le_trans hend ctx.size_le) hp
          have harray := h.array
          have hout : 0 < s.overrun p ∧ s.nextChunk = false ↔ ctx.size < p := by
            rw [hpast]
            cases hnext : s.nextChunk with
            | true =>
                rw [if_pos hnext] at harray
                exact iff_of_false nofun (by omega)
            | false =>
                rw [if_neg (hnext ▸ Bool.false_ne_true), Nat.add_zero] at harray
                rw [harray]
                exact and_iff_left rfl
          refine ⟨?_, h, Nat.le_refl _, ?_⟩
          · rw [ParseContext.done, if_pos (hat.mp heq)]
            exact if_congr hout rfl rfl
          · intro hmore
            dsimp only at hmore
            split at hmore <;> cases hmore
      · next hne =>
          refine h.doneFallback hp (mt hat.mpr hne) fun hlimit => ?_
          have := mt hbelow.mpr hge
          omega

/-! ## The calls of a parse -/

/-- What the parser asks of the stream. `ReadSize` has read `size`, and strings and packed
numbers that are longer than the buffer at hand call `Next`. -/
inductive Call where
  | pushLimit (p : ℕ) (size : UInt32)
  | popLimit
  | next
  | done (p : ℕ)

/-- The stream, and what `PushLimit` returned for the messages that are being parsed.
`limits` records where these end, the innermost first and the array last. -/
structure Parse where
  stream : EpsCopyInputStream
  deltas : List Int32
  limits : List ℕ

/-- A parse of an array of `size` bytes. -/
def parse (size : ℕ) : Interleaving.System Parse Call where
  init s := s = { stream := initFrom size, deltas := [], limits := [size] }
  next s
    | .pushLimit p n =>
        let (stream, delta) := s.stream.pushLimit p n
        some ⟨stream, delta :: s.deltas, (p + n.toNat) :: s.limits⟩
    | .popLimit =>
        match s.deltas with
        | [] => none
        | delta :: deltas => some ⟨s.stream.popLimit delta, deltas, s.limits.tail⟩
    | .next =>
        if s.stream.nextChunk = true then some { s with stream := s.stream.nextBuffer }
        else none
    | .done p => some { s with stream := (s.stream.doneWithCheck p).2 }

/-- Pointers stay in the slop behind the buffer at hand, and sizes are those of `ReadSize`. -/
def InSlop (s : Parse) : Call → Prop
  | .pushLimit p n => p ≤ s.stream.bufferEnd + kSlopBytes ∧ n ≤ maxSize
  | .popLimit | .next => True
  | .done p => p ≤ s.stream.bufferEnd + kSlopBytes

/-- The distances between the ends of messages inside each other. -/
def distances : List ℕ → List Int32
  | inner :: outer :: limits => Int32.ofInt (outer - inner) :: distances (outer :: limits)
  | _ => []

/-- The stream is at the innermost limit, and can go back to the others. -/
structure Sound (size : ℕ) (s : Parse) : Prop where
  stream : ∃ limit limits, s.limits = limit :: limits ∧ At size limit s.stream
  deltas : s.deltas = distances s.limits
  fits : ∀ limit ∈ s.limits, limit ≤ s.stream.bufferEnd + intMax

/-- A later buffer keeps what does not depend on the buffer. -/
theorem Sound.forward {s : Parse} (h : Sound size s) {stream : EpsCopyInputStream}
    {limits : List ℕ} (hlimits : s.limits = limit :: limits) (hat : At size limit stream)
    (hend : s.stream.bufferEnd ≤ stream.bufferEnd) : Sound size { s with stream } :=
  ⟨⟨limit, limits, hlimits, hat⟩, h.deltas,
    fun l hl => Nat.le_trans (h.fits l hl) (Nat.add_le_add_right hend _)⟩

theorem Sound.next {s s' : Parse} (h : Sound ctx.size s) {e : Call} (hok : InSlop s e)
    (hnext : (parse ctx.size).next s e = some s') : Sound ctx.size s' := by
  obtain ⟨limit, limits, hlimits, hat⟩ := h.stream
  cases e with
  | pushLimit p n =>
      obtain ⟨hp, hn⟩ := hok
      cases hnext
      have hpush := hat.pushLimit hp hn
      refine ⟨⟨_, _, rfl, hpush⟩, ?_, List.forall_mem_cons.mpr ⟨hpush.fits, h.fits⟩⟩
      rw [h.deltas, hlimits]
      exact congrArg (· :: distances (limit :: limits)) (hat.pushLimit_delta hp hn)
  | popLimit =>
      simp only [parse] at hnext
      split at hnext
      · cases hnext
      · next delta deltas hdeltas =>
          cases hnext
          have hfits := h.fits
          have hdistances := h.deltas
          rw [hdeltas, hlimits] at hdistances
          rw [hlimits] at hfits
          cases limits with
          | nil => cases hdistances
          | cons outer limits =>
              obtain ⟨rfl, rfl⟩ := List.cons.inj hdistances
              have hrest := (List.forall_mem_cons.mp hfits).2
              have hpop := hat.popLimit (hrest outer List.mem_cons_self)
              rw [hlimits]
              exact ⟨⟨outer, limits, rfl, hpop⟩, rfl, hrest⟩
  | next =>
      simp only [parse] at hnext
      split at hnext
      · next hchunk =>
          cases hnext
          exact h.forward hlimits (hat.nextBuffer hchunk) (Nat.le_add_right _ _)
      · cases hnext
  | done p =>
      cases hnext
      have hfinds := hat.doneWithCheck hok
      exact h.forward hlimits hfinds.stays hfinds.forward

/-- Whatever the parser has pushed and popped, a test of the end compares its position with
the innermost limit. -/
theorem reachable_doneWithCheck {s : Parse}
    (h : (parse ctx.size).Reachable InSlop s) (hp : p ≤ s.stream.bufferEnd + kSlopBytes) :
    ∃ limit ∈ s.limits.head?, Finds ctx limit p s.stream (s.stream.doneWithCheck p) := by
  have hsound : Sound ctx.size s := by
    apply h.invariant (I := Sound ctx.size)
    · rintro s rfl
      have hat := at_initFrom ctx.size_le
      exact ⟨⟨_, _, rfl, hat⟩, rfl, List.forall_mem_singleton.mpr hat.fits⟩
    · exact fun s e s' h hok hnext => h.next hok hnext
  obtain ⟨limit, limits, hlimits, hat⟩ := hsound.stream
  exact ⟨limit, by rw [hlimits]; rfl, hat.doneWithCheck hp⟩

end EpsCopyInputStream

end Protocol

end ServerCore
