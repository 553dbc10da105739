import ServerCore.Wire.Readers

/-!
# Fields on the wire

A message is a sequence of fields. A field is a tag, which is a field number and a wire
type, and a value in the form of that type. A group is a sequence of fields between a
start tag and the end tag of the same number; groups nest up to a depth.

`readFields` stops where the bytes end, or at a tag that no field has: 0 or the end of a
group. Its loop takes a bound on its rounds, which the number of bytes is
(`readFieldsWith_fuel`). `Field.Valid` says which fields a reader can return.
-/

namespace Wire

/-- A field number and a value in one of the five wire types. -/
inductive Field where
  | varint (number : ℕ) (value : UInt64)
  | fixed64 (number : ℕ) (value : UInt64)
  | lengthDelimited (number : ℕ) (value : List UInt8)
  | group (number : ℕ) (fields : List Field)
  | fixed32 (number : ℕ) (value : UInt32)
  deriving Repr

/-- The field number with the wire type. -/
def Field.tag : Field → ℕ
  | .varint number _ => number * 8
  | .fixed64 number _ => number * 8 + 1
  | .lengthDelimited number _ => number * 8 + 2
  | .group number _ => number * 8 + 3
  | .fixed32 number _ => number * 8 + 5

def writeTag (number type : ℕ) : List UInt8 := writeVarint (number * 8 + type)

mutual

def Field.write : Field → List UInt8
  | .varint number value => writeTag number 0 ++ writeVarint value.toNat
  | .fixed64 number value => writeTag number 1 ++ writeFixed 8 value.toNat
  | .lengthDelimited number value => writeTag number 2 ++ writeLengthDelimited value
  | .group number fields => writeTag number 3 ++ writeFields fields ++ writeTag number 4
  | .fixed32 number value => writeTag number 5 ++ writeFixed 4 value.toNat

def writeFields : List Field → List UInt8
  | [] => []
  | field :: fields => field.write ++ writeFields fields

end

/-- Tags have 32 bits, in at most five bytes. -/
def readTag (bytes : List UInt8) : Option (ℕ × List UInt8) :=
  (readVarint 5 bytes).map fun (tag, rest) => (tag % 4294967296, rest)

/-- The field after its tag. `group` reads a group of a number up to its end tag. -/
def readField (group : ℕ → List UInt8 → Option (List Field × List UInt8)) (tag : ℕ)
    (bytes : List UInt8) : Option (Field × List UInt8) :=
  if tag / 8 = 0 then none
  else
    match tag % 8 with
    | 0 => (readVarint 10 bytes).map fun (value, rest) =>
        (.varint (tag / 8) (UInt64.ofNat value), rest)
    | 1 => (readFixed 8 bytes).map fun (value, rest) =>
        (.fixed64 (tag / 8) (UInt64.ofNat value), rest)
    | 2 => (readLengthDelimited bytes).map fun (value, rest) =>
        (.lengthDelimited (tag / 8) value, rest)
    | 3 => (group (tag / 8) bytes).map fun (fields, rest) => (.group (tag / 8) fields, rest)
    | 5 => (readFixed 4 bytes).map fun (value, rest) =>
        (.fixed32 (tag / 8) (UInt32.ofNat value), rest)
    | _ => none

/-- The result of a loop that read `fields` before. -/
def prepend (fields : List Field) (result : (List Field × Option ℕ) × List UInt8) :
    (List Field × Option ℕ) × List UInt8 :=
  ((fields ++ result.1.1, result.1.2), result.2)

/-- The fields up to the end of the bytes, or up to the tag that is returned. -/
def readFieldsWith (group : ℕ → List UInt8 → Option (List Field × List UInt8)) :
    ℕ → List UInt8 → Option ((List Field × Option ℕ) × List UInt8)
  | 0, _ => none
  | _ + 1, [] => some (([], none), [])
  | fuel + 1, byte :: bytes =>
      (readTag (byte :: bytes)).bind fun (tag, rest) =>
        if tag = 0 ∨ tag % 8 = 4 then some (([], some tag), rest)
        else
          (readField group tag rest).bind fun (field, rest) =>
            (readFieldsWith group fuel rest).map (prepend [field])

/-- A group of a number, with `depth` levels of groups at most. -/
def readGroup : ℕ → ℕ → List UInt8 → Option (List Field × List UInt8)
  | 0, _, _ => none
  | depth + 1, number, bytes =>
      (readFieldsWith (readGroup depth) (bytes.length + 1) bytes).bind
        fun ((fields, last), rest) =>
          if last = some (number * 8 + 4) then some (fields, rest) else none

def readFields (depth : ℕ) (bytes : List UInt8) :
    Option ((List Field × Option ℕ) × List UInt8) :=
  readFieldsWith (readGroup depth) (bytes.length + 1) bytes

/-- The fields that some bytes consist of. -/
def fieldsOf (depth : ℕ) (bytes : List UInt8) : Option (List Field) :=
  (readFields depth bytes).bind fun ((fields, last), _) =>
    if last = none then some fields else none

variable {depth tag number fuel : ℕ} {bytes rest more : List UInt8}

/-! ## Fields by their tags -/

theorem varint_of_tag {field : Field} (number : ℕ) (h : field.tag = number * 8) :
    ∃ value, field = .varint number value := by
  cases field with
  | varint number' value =>
      rw [Field.tag] at h
      obtain rfl : number' = number := by omega
      exact ⟨value, rfl⟩
  | _ => exact absurd h (by rw [Field.tag]; omega)

theorem lengthDelimited_of_tag {field : Field} (number : ℕ) (h : field.tag = number * 8 + 2) :
    ∃ value, field = .lengthDelimited number value := by
  cases field with
  | lengthDelimited number' value =>
      rw [Field.tag] at h
      obtain rfl : number' = number := by omega
      exact ⟨value, rfl⟩
  | _ => exact absurd h (by rw [Field.tag]; omega)

theorem fixed32_of_tag {field : Field} (number : ℕ) (h : field.tag = number * 8 + 5) :
    ∃ value, field = .fixed32 number value := by
  cases field with
  | fixed32 number' value =>
      rw [Field.tag] at h
      obtain rfl : number' = number := by omega
      exact ⟨value, rfl⟩
  | _ => exact absurd h (by rw [Field.tag]; omega)

theorem writeFields_append (fields more : List Field) :
    writeFields (fields ++ more) = writeFields fields ++ writeFields more := by
  induction fields with
  | nil => rfl
  | cons field fields ih =>
      rw [List.cons_append, writeFields, writeFields, ih, List.append_assoc]

/-! ## Readers of fields -/

theorem isReader_readTag : IsReader readTag :=
  (isReader_readVarint 5).map fun tag => tag % 4294967296

theorem readTag_shorter (h : readTag bytes = some (tag, rest)) :
    tag < 4294967296 ∧ rest.length < bytes.length := by
  obtain ⟨⟨value, tail⟩, hread, heq⟩ := Option.map_eq_some_iff.mp h
  cases heq
  exact ⟨Nat.mod_lt _ (by omega), (readVarint_length hread).1⟩

section Loop

variable {group : ℕ → List UInt8 → Option (List Field × List UInt8)}

theorem readField_varint (hnumber : tag / 8 ≠ 0) (htype : tag % 8 = 0) :
    readField group tag bytes = (readVarint 10 bytes).map fun (value, rest) =>
      (.varint (tag / 8) (UInt64.ofNat value), rest) := by
  rw [readField, if_neg hnumber, htype]
  rfl

theorem readField_fixed64 (hnumber : tag / 8 ≠ 0) (htype : tag % 8 = 1) :
    readField group tag bytes = (readFixed 8 bytes).map fun (value, rest) =>
      (.fixed64 (tag / 8) (UInt64.ofNat value), rest) := by
  rw [readField, if_neg hnumber, htype]
  rfl

theorem readField_lengthDelimited (hnumber : tag / 8 ≠ 0) (htype : tag % 8 = 2) :
    readField group tag bytes = (readLengthDelimited bytes).map fun (value, rest) =>
      (.lengthDelimited (tag / 8) value, rest) := by
  rw [readField, if_neg hnumber, htype]
  rfl

theorem readField_group (hnumber : tag / 8 ≠ 0) (htype : tag % 8 = 3) :
    readField group tag bytes = (group (tag / 8) bytes).map fun (fields, rest) =>
      (.group (tag / 8) fields, rest) := by
  rw [readField, if_neg hnumber, htype]
  rfl

theorem readField_fixed32 (hnumber : tag / 8 ≠ 0) (htype : tag % 8 = 5) :
    readField group tag bytes = (readFixed 4 bytes).map fun (value, rest) =>
      (.fixed32 (tag / 8) (UInt32.ofNat value), rest) := by
  rw [readField, if_neg hnumber, htype]
  rfl

theorem tag_of_readField {field : Field} (h : readField group tag bytes = some (field, rest)) :
    field.tag = tag := by
  rw [readField, Option.ite_none_left_eq_some] at h
  obtain ⟨_, h⟩ := h
  split at h
  case h_6 => cases h
  all_goals
    obtain ⟨⟨value, tail⟩, _, heq⟩ := Option.map_eq_some_iff.mp h
    cases heq
    rw [Field.tag]
    omega

theorem isReader_readField (hgroup : ∀ number, IsReader (group number)) (tag : ℕ) :
    IsReader (readField group tag) := by
  unfold readField
  by_cases hzero : tag / 8 = 0
  · simp only [hzero, if_true]
    exact .none
  · simp only [hzero, if_false]
    split
    · exact (isReader_readVarint 10).map fun value => Field.varint (tag / 8) (UInt64.ofNat value)
    · exact (isReader_readFixed 8).map fun value => Field.fixed64 (tag / 8) (UInt64.ofNat value)
    · exact isReader_readLengthDelimited.map (Field.lengthDelimited (tag / 8))
    · exact (hgroup (tag / 8)).map (Field.group (tag / 8))
    · exact (isReader_readFixed 4).map fun value => Field.fixed32 (tag / 8) (UInt32.ofNat value)
    · exact .none

/-- Every round reads a tag, so the number of bytes bounds the rounds. -/
theorem readFieldsWith_fuel (hgroup : ∀ number, IsReader (group number)) (fuel' : ℕ)
    (hfuel : bytes.length < fuel) (hfuel' : bytes.length < fuel') :
    readFieldsWith group fuel bytes = readFieldsWith group fuel' bytes := by
  induction fuel generalizing fuel' bytes with
  | zero => omega
  | succ fuel ih =>
      obtain ⟨fuel', rfl⟩ : ∃ n, fuel' = n + 1 := ⟨fuel' - 1, by omega⟩
      cases bytes with
      | nil => rfl
      | cons byte bytes =>
          rw [readFieldsWith, readFieldsWith]
          refine Option.bind_congr fun ⟨tag, rest⟩ htag => ?_
          have hrest := (readTag_shorter htag).2
          dsimp only
          split
          · rfl
          · refine Option.bind_congr fun ⟨field, rest'⟩ hfield => ?_
            have hrest' := (isReader_readField hgroup tag).shrinks hfield
            dsimp only
            rw [ih fuel' (by omega) (by omega)]

/-- One round of the loop: the tag that ends it, or a field and the loop after it. -/
theorem readFieldsWith_round {fields : List Field} {last : Option ℕ}
    (h : readFieldsWith group (fuel + 1) bytes = some ((fields, last), rest)) :
    (bytes = [] ∧ fields = [] ∧ last = none ∧ rest = []) ∨
      ∃ tag middle, readTag bytes = some (tag, middle) ∧
        (((tag = 0 ∨ tag % 8 = 4) ∧ fields = [] ∧ last = some tag ∧ rest = middle) ∨
          ∃ field fields' tail, ¬(tag = 0 ∨ tag % 8 = 4) ∧
            readField group tag middle = some (field, tail) ∧ fields = field :: fields' ∧
            readFieldsWith group fuel tail = some ((fields', last), rest)) := by
  cases bytes with
  | nil =>
      cases h
      exact .inl ⟨rfl, rfl, rfl, rfl⟩
  | cons byte bytes =>
      obtain ⟨⟨tag, middle⟩, htag, h⟩ := Option.bind_eq_some_iff.mp h
      refine .inr ⟨tag, middle, htag, ?_⟩
      dsimp only at h
      split at h
      next hend =>
        cases h
        exact .inl ⟨hend, rfl, rfl, rfl⟩
      next hend =>
        obtain ⟨⟨field, tail⟩, hfield, h⟩ := Option.bind_eq_some_iff.mp h
        obtain ⟨⟨⟨fields', last'⟩, rest'⟩, hloop, heq⟩ := Option.map_eq_some_iff.mp h
        cases heq
        exact .inr ⟨field, fields', tail, hend, hfield, rfl, hloop⟩

theorem readFieldsWith_shrinks (hgroup : ∀ number, IsReader (group number))
    {result : List Field × Option ℕ} (h : readFieldsWith group fuel bytes = some (result, rest)) :
    rest.length ≤ bytes.length := by
  induction fuel generalizing bytes result with
  | zero => cases h
  | succ fuel ih =>
      obtain ⟨rfl, _, _, rfl⟩ | ⟨tag, middle, htag, hround⟩ := readFieldsWith_round h
      · exact Nat.le_refl _
      · have hmiddle := (readTag_shorter htag).2
        obtain ⟨_, _, _, rfl⟩ | ⟨field, fields, tail, _, hfield, _, hloop⟩ := hround
        · omega
        · have htail := (isReader_readField hgroup tag).shrinks hfield
          have hrest := ih hloop
          omega

/-- Bytes after the tag that ended the loop do not change its result. -/
theorem readFieldsWith_appends_tag (hgroup : ∀ number, IsReader (group number))
    {fields : List Field}
    (h : readFieldsWith group fuel bytes = some ((fields, some tag), rest)) :
    readFieldsWith group fuel (bytes ++ more) = some ((fields, some tag), rest ++ more) := by
  induction fuel generalizing bytes fields with
  | zero => cases h
  | succ fuel ih =>
      obtain ⟨_, _, hlast, _⟩ | ⟨tag', middle, htag, hround⟩ := readFieldsWith_round h
      · cases hlast
      · have hcons : ∃ byte tail, bytes ++ more = byte :: tail := by
          cases bytes with
          | nil => cases htag
          | cons byte bytes => exact ⟨byte, bytes ++ more, rfl⟩
        obtain ⟨byte, tail', hbytes⟩ := hcons
        rw [hbytes, readFieldsWith, ← hbytes, isReader_readTag.appends htag more, Option.bind_some]
        dsimp only
        obtain ⟨hend, rfl, hlast, rfl⟩ | ⟨field, fields', tail, hend, hfield, rfl, hloop⟩ := hround
        · cases hlast
          rw [if_pos hend]
        · rw [if_neg hend, (isReader_readField hgroup tag').appends hfield more, Option.bind_some]
          dsimp only
          rw [ih hloop]
          rfl

end Loop

theorem isReader_readGroup (depth number : ℕ) : IsReader (readGroup depth number) := by
  induction depth generalizing number with
  | zero => exact .none
  | succ depth ih =>
      refine ⟨fun {bytes} {fields} {rest} h => ?_, fun {bytes} {fields} {rest} h more => ?_⟩
      · obtain ⟨⟨⟨fields', last⟩, rest'⟩, hloop, hlast⟩ := Option.bind_eq_some_iff.mp h
        simp only [Option.ite_none_right_eq_some, Option.some.injEq, Prod.mk.injEq] at hlast
        rw [← hlast.2.2]
        exact readFieldsWith_shrinks ih hloop
      · obtain ⟨⟨⟨fields', last⟩, rest'⟩, hloop, hlast⟩ := Option.bind_eq_some_iff.mp h
        simp only [Option.ite_none_right_eq_some, Option.some.injEq, Prod.mk.injEq] at hlast
        obtain ⟨rfl, rfl, rfl⟩ := hlast
        have hshort : bytes.length ≤ (bytes ++ more).length := by
          rw [List.length_append]
          omega
        rw [readFieldsWith_fuel ih ((bytes ++ more).length + 1) (by omega) (by omega)] at hloop
        rw [readGroup, readFieldsWith_appends_tag ih hloop, Option.bind_some]
        simp only [if_true]

/-! ## The loop over some bytes -/

theorem readFields_nil : readFields depth [] = some (([], none), []) := rfl

theorem readFields_of_readTag (h : readTag bytes = some (tag, rest)) :
    readFields depth bytes =
      if tag = 0 ∨ tag % 8 = 4 then some (([], some tag), rest)
      else
        (readField (readGroup depth) tag rest).bind fun (field, rest) =>
          (readFields depth rest).map (prepend [field]) := by
  cases bytes with
  | nil => cases h
  | cons byte bytes =>
      have hrest := (readTag_shorter h).2
      rw [readFields, readFieldsWith, h, Option.bind_some]
      dsimp only
      split
      · rfl
      · refine Option.bind_congr fun ⟨field, rest'⟩ hfield => ?_
        have hrest' := (isReader_readField (isReader_readGroup depth) tag).shrinks hfield
        dsimp only
        rw [readFields, readFieldsWith_fuel (isReader_readGroup depth) (rest'.length + 1) (by omega)
          (by omega)]

theorem readFields_of_no_tag (hbytes : bytes ≠ []) (h : readTag bytes = none) :
    readFields depth bytes = none := by
  cases bytes with
  | nil => exact absurd rfl hbytes
  | cons byte bytes => rw [readFields, readFieldsWith, h, Option.bind_none]

/-- A loop that reads its bytes to their end goes on with the bytes after them. -/
theorem readFields_append {fields : List Field}
    (h : readFields depth bytes = some ((fields, none), rest)) :
    readFields depth (bytes ++ more) = (readFields depth more).map (prepend fields) := by
  induction hlen : bytes.length using Nat.strongRecOn generalizing bytes fields with
  | ind n ih =>
      obtain ⟨rfl, rfl, _, _⟩ | ⟨tag, middle, htag, hround⟩ := readFieldsWith_round h
      · rw [List.nil_append]
        exact (congrFun Option.map_id (readFields depth more)).symm
      · have hmiddle := (readTag_shorter htag).2
        rw [readFields_of_readTag (isReader_readTag.appends htag more)]
        obtain ⟨_, _, hlast, _⟩ | ⟨field, fields', tail, hend, hfield, rfl, hloop⟩ := hround
        · cases hlast
        · have htail := (isReader_readField (isReader_readGroup depth) tag).shrinks hfield
          have hloop' : readFields depth tail = some ((fields', none), rest) := by
            rw [readFields, ← hloop]
            exact readFieldsWith_fuel (isReader_readGroup depth) _ (by omega) (by omega)
          rw [if_neg hend, (isReader_readField (isReader_readGroup depth) tag).appends hfield more,
            Option.bind_some]
          dsimp only
          rw [ih tail.length (by omega) hloop' rfl, Option.map_map]
          rfl

end Wire
