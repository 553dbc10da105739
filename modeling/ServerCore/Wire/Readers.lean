import ServerCore.Wire.Varint

/-!
# Readers of values

A reader takes bytes and returns a value and the bytes after it. `IsReader` is what the
readers here share: they return an end of their bytes, and bytes that follow do not
change what they read. Below it are the forms that a value can have on the wire, each
with its writer: a fixed number of bytes, and a length with that many bytes after it.
-/

namespace Wire

structure IsReader {α : Type} (read : List UInt8 → Option (α × List UInt8)) : Prop where
  shrinks : ∀ {bytes a rest}, read bytes = some (a, rest) → rest.length ≤ bytes.length
  appends : ∀ {bytes a rest}, read bytes = some (a, rest) →
    ∀ more, read (bytes ++ more) = some (a, rest ++ more)

namespace IsReader

variable {α β : Type} {read : List UInt8 → Option (α × List UInt8)}

theorem none : IsReader fun _ => (Option.none : Option (α × List UInt8)) where
  shrinks h := by cases h
  appends h := by cases h

theorem bind {next : α → List UInt8 → Option (β × List UInt8)} (hread : IsReader read)
    (hnext : ∀ a, IsReader (next a)) :
    IsReader fun bytes => (read bytes).bind fun (a, rest) => next a rest where
  shrinks h := by
    obtain ⟨⟨a, middle⟩, ha, hb⟩ := Option.bind_eq_some_iff.mp h
    exact Nat.le_trans ((hnext a).shrinks hb) (hread.shrinks ha)
  appends h more := by
    obtain ⟨⟨a, middle⟩, ha, hb⟩ := Option.bind_eq_some_iff.mp h
    rw [hread.appends ha more, Option.bind_some]
    exact (hnext a).appends hb more

theorem pure (b : β) : IsReader fun bytes => some (b, bytes) where
  shrinks h := by
    cases h
    exact Nat.le_refl _
  appends h more := by
    cases h
    rfl

theorem map (f : α → β) (hread : IsReader read) :
    IsReader fun bytes => (read bytes).map fun (a, rest) => (f a, rest) where
  shrinks h := by
    obtain ⟨⟨a, rest⟩, ha, hb⟩ := Option.map_eq_some_iff.mp h
    cases hb
    exact hread.shrinks ha
  appends h more := by
    obtain ⟨⟨a, rest⟩, ha, hb⟩ := Option.map_eq_some_iff.mp h
    cases hb
    rw [hread.appends ha more, Option.map_some]

end IsReader

theorem isReader_readVarint (k : ℕ) : IsReader (readVarint k) where
  shrinks h := by
    have := readVarint_length h
    omega
  appends h more := readVarint_append h more

/-! ## The forms of a value -/

/-- `k` bytes, the low one first. -/
def writeFixed : ℕ → ℕ → List UInt8
  | 0, _ => []
  | k + 1, value => UInt8.ofNat value :: writeFixed k (value / 256)

def readFixed : ℕ → List UInt8 → Option (ℕ × List UInt8)
  | 0, bytes => some (0, bytes)
  | _ + 1, [] => none
  | k + 1, byte :: rest =>
      (readFixed k rest).map fun (value, rest) => (byte.toNat + 256 * value, rest)

/-- The longest value that a reader takes. -/
def maxSize : ℕ := 2147483631

def readSize (bytes : List UInt8) : Option (ℕ × List UInt8) :=
  (readVarint 5 bytes).bind fun (size, rest) => if size ≤ maxSize then some (size, rest) else none

def readBytes (size : ℕ) (bytes : List UInt8) : Option (List UInt8 × List UInt8) :=
  if size ≤ bytes.length then some (bytes.take size, bytes.drop size) else none

def writeLengthDelimited (value : List UInt8) : List UInt8 :=
  writeVarint value.length ++ value

def readLengthDelimited (bytes : List UInt8) : Option (List UInt8 × List UInt8) :=
  (readSize bytes).bind fun (size, rest) => readBytes size rest

/-- Every number in some bytes. `fuel` bounds their count. -/
def readVarints : ℕ → List UInt8 → Option (List ℕ)
  | 0, _ => none
  | _ + 1, [] => some []
  | fuel + 1, byte :: bytes =>
      (readVarint 10 (byte :: bytes)).bind fun (value, rest) =>
        (readVarints fuel rest).map (value :: ·)

def varintsOf (bytes : List UInt8) : Option (List ℕ) := readVarints (bytes.length + 1) bytes

theorem length_writeFixed (k value : ℕ) : (writeFixed k value).length = k := by
  induction k generalizing value with
  | zero => rfl
  | succ k ih => rw [writeFixed, List.length_cons, ih]

theorem readFixed_writeFixed {k value : ℕ} (rest : List UInt8) (h : value < 256 ^ k) :
    readFixed k (writeFixed k value ++ rest) = some (value, rest) := by
  induction k generalizing value with
  | zero =>
      obtain rfl : value = 0 := by simpa using h
      rfl
  | succ k ih =>
      have hbyte : (UInt8.ofNat value).toNat = value % 256 := UInt8.toNat_ofNat'
      have hdigits : value / 256 < 256 ^ k := by
        rw [Nat.div_lt_iff_lt_mul (by omega), ← Nat.pow_succ]
        exact h
      rw [writeFixed, List.cons_append, readFixed, ih hdigits, hbyte]
      simp only [Option.map_some, Nat.mod_add_div]

theorem isReader_readFixed (k : ℕ) : IsReader (readFixed k) := by
  induction k with
  | zero => exact .pure 0
  | succ k ih =>
      refine ⟨fun {bytes} {a} {rest} h => ?_, fun {bytes} {a} {rest} h more => ?_⟩
      · cases bytes with
        | nil => cases h
        | cons byte bytes =>
            obtain ⟨⟨value, tail⟩, hread, hvalue⟩ := Option.map_eq_some_iff.mp h
            cases hvalue
            exact Nat.le_succ_of_le (ih.shrinks hread)
      · cases bytes with
        | nil => cases h
        | cons byte bytes =>
            obtain ⟨⟨value, tail⟩, hread, hvalue⟩ := Option.map_eq_some_iff.mp h
            cases hvalue
            rw [List.cons_append, readFixed, ih.appends hread more, Option.map_some]

theorem isReader_readSize : IsReader readSize := by
  have hbound (size : ℕ) :
      IsReader fun rest => if size ≤ maxSize then some (size, rest) else none := by
    by_cases h : size ≤ maxSize
    · simp only [h, if_true]
      exact .pure size
    · simp only [h, if_false]
      exact .none
  exact (isReader_readVarint 5).bind hbound

theorem isReader_readBytes (size : ℕ) : IsReader (readBytes size) where
  shrinks {bytes a rest} h := by
    rw [readBytes, Option.ite_none_right_eq_some] at h
    cases h.2
    rw [List.length_drop]
    omega
  appends {bytes a rest} h more := by
    rw [readBytes, Option.ite_none_right_eq_some] at h
    obtain ⟨hle, heq⟩ := h
    cases heq
    rw [readBytes, List.take_append_of_le_length hle, List.drop_append_of_le_length hle, if_pos]
    rw [List.length_append]
    omega

theorem isReader_readLengthDelimited : IsReader readLengthDelimited :=
  isReader_readSize.bind isReader_readBytes

theorem readSize_writeVarint {size : ℕ} (rest : List UInt8) (h : size ≤ maxSize) :
    readSize (writeVarint size ++ rest) = some (size, rest) := by
  have hsmall : size < 128 ^ (4 + 1) := by
    rw [maxSize] at h
    omega
  simp only [readSize, readVarint_writeVarint rest hsmall, Option.bind_some, h, if_true]

theorem readLengthDelimited_write {value : List UInt8} (rest : List UInt8)
    (h : value.length ≤ maxSize) :
    readLengthDelimited (writeLengthDelimited value ++ rest) = some (value, rest) := by
  have hle : value.length ≤ (value ++ rest).length := by
    rw [List.length_append]
    omega
  simp only [writeLengthDelimited, List.append_assoc, readLengthDelimited, readSize_writeVarint _ h,
    Option.bind_some, readBytes, hle, if_true, List.take_left, List.drop_left]

theorem length_le_of_readLengthDelimited {bytes value rest : List UInt8}
    (h : readLengthDelimited bytes = some (value, rest)) : value.length ≤ maxSize := by
  obtain ⟨⟨size, middle⟩, hsize, hvalue⟩ := Option.bind_eq_some_iff.mp h
  obtain ⟨⟨length, tail⟩, _, hbound⟩ := Option.bind_eq_some_iff.mp hsize
  simp only [Option.ite_none_right_eq_some] at hbound
  simp only [readBytes, Option.ite_none_right_eq_some] at hvalue
  obtain ⟨hle, heq⟩ := hbound
  cases heq
  cases hvalue.2
  rw [List.length_take]
  omega

theorem readVarints_fuel {fuel : ℕ} {bytes : List UInt8} (fuel' : ℕ) (hfuel : bytes.length < fuel)
    (hfuel' : bytes.length < fuel') : readVarints fuel bytes = readVarints fuel' bytes := by
  induction fuel generalizing fuel' bytes with
  | zero => omega
  | succ fuel ih =>
      obtain ⟨fuel', rfl⟩ : ∃ n, fuel' = n + 1 := ⟨fuel' - 1, by omega⟩
      cases bytes with
      | nil => rfl
      | cons byte bytes =>
          rw [readVarints, readVarints]
          refine Option.bind_congr fun ⟨value, rest⟩ hread => ?_
          have hrest := (readVarint_length hread).1
          dsimp only
          rw [ih fuel' (by omega) (by omega)]

theorem varintsOf_nil : varintsOf [] = some [] := rfl

/-- The first number of some bytes, and the numbers behind it. -/
theorem varintsOf_of_ne_nil {bytes : List UInt8} (h : bytes ≠ []) :
    varintsOf bytes = (readVarint 10 bytes).bind fun (value, rest) =>
      (varintsOf rest).map (value :: ·) := by
  cases bytes with
  | nil => exact absurd rfl h
  | cons byte bytes =>
      rw [varintsOf, readVarints]
      refine Option.bind_congr fun ⟨value, rest⟩ hread => ?_
      have hrest := (readVarint_length hread).1
      dsimp only
      rw [varintsOf, readVarints_fuel (rest.length + 1) (by omega) (by omega)]

/-- Written numbers are read back. -/
theorem varintsOf_write {values : List ℕ} (h : ∀ value ∈ values, value < 128 ^ 10) :
    varintsOf (values.flatMap writeVarint) = some values := by
  induction values with
  | nil => rfl
  | cons value values ih =>
      rw [List.forall_mem_cons] at h
      have hne : writeVarint value ++ values.flatMap writeVarint ≠ [] :=
        List.append_ne_nil_of_left_ne_nil (writeVarint_ne_nil value) _
      rw [List.flatMap_cons, varintsOf_of_ne_nil hne, readVarint_writeVarint _ h.1,
        Option.bind_some]
      dsimp only
      rw [ih h.2, Option.map_some]

end Wire
