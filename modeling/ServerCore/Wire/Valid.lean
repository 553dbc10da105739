import ServerCore.Wire.Fields

/-!
# The fields that can be read

A field is valid at a depth if its number fits in a tag, its length fits in a size and
its groups nest no deeper. Readers return valid fields only, and what was written for
valid fields is read back as these fields.
-/

namespace Wire

/-- The numbers that a tag of 32 bits can hold; 0 is the number of no field. -/
def ValidNumber (number : ℕ) : Prop := 0 < number ∧ number < 536870912

inductive Field.Valid : ℕ → Field → Prop
  | varint {depth number : ℕ} (h : ValidNumber number) (value : UInt64) :
      Valid depth (.varint number value)
  | fixed64 {depth number : ℕ} (h : ValidNumber number) (value : UInt64) :
      Valid depth (.fixed64 number value)
  | lengthDelimited {depth number : ℕ} (h : ValidNumber number) {value : List UInt8}
      (hvalue : value.length ≤ maxSize) : Valid depth (.lengthDelimited number value)
  | group {depth number : ℕ} (h : ValidNumber number) {fields : List Field}
      (hfields : ∀ field ∈ fields, Valid depth field) : Valid (depth + 1) (.group number fields)
  | fixed32 {depth number : ℕ} (h : ValidNumber number) (value : UInt32) :
      Valid depth (.fixed32 number value)

variable {depth number type : ℕ} {bytes rest : List UInt8} {field : Field} {fields : List Field}

/-! ## Reading back what was written -/

theorem readTag_write (hnumber : number < 536870912) (htype : type < 8) (rest : List UInt8) :
    readTag (writeTag number type ++ rest) = some (number * 8 + type, rest) := by
  have hsmall : number * 8 + type < 128 ^ (4 + 1) := by omega
  have hmod : (number * 8 + type) % 4294967296 = number * 8 + type :=
    Nat.mod_eq_of_lt (by omega)
  rw [readTag, writeTag, readVarint_writeVarint rest hsmall, Option.map_some]
  simp only [hmod]

/-- A written tag and a value that its reader takes are one field. -/
theorem readFields_write_value {value : List UInt8} (hnumber : ValidNumber number)
    (htype : type < 8) (hend : type ≠ 4)
    (h : readField (readGroup depth) (number * 8 + type) (value ++ rest) = some (field, rest)) :
    readFields depth (writeTag number type ++ value ++ rest) =
      (readFields depth rest).map (prepend [field]) := by
  obtain ⟨hpos, hlt⟩ := hnumber
  rw [List.append_assoc, readFields_of_readTag (readTag_write hlt htype (value ++ rest)),
    if_neg (by omega), h, Option.bind_some]

theorem readFields_write_end (hnumber : ValidNumber number) (rest : List UInt8) :
    readFields depth (writeTag number 4 ++ rest) = some (([], some (number * 8 + 4)), rest) := by
  rw [readFields_of_readTag (readTag_write hnumber.2 (by omega) rest), if_pos (by omega)]

/-- If each of some fields is read back, so is their sequence. -/
theorem readFields_write_of_each
    (heach : ∀ field ∈ fields, ∀ rest,
      readFields depth (field.write ++ rest) = (readFields depth rest).map (prepend [field]))
    (rest : List UInt8) :
    readFields depth (writeFields fields ++ rest) =
      (readFields depth rest).map (prepend fields) := by
  induction fields with
  | nil => exact (congrFun Option.map_id (readFields depth rest)).symm
  | cons field fields ih =>
      rw [writeFields, List.append_assoc, heach field List.mem_cons_self,
        ih fun field hfield => heach field (List.mem_cons_of_mem _ hfield), Option.map_map]
      rfl

theorem tag_div (htype : type < 8) : (number * 8 + type) / 8 = number := by omega

theorem readFields_write_field (h : field.Valid depth) (rest : List UInt8) :
    readFields depth (field.write ++ rest) = (readFields depth rest).map (prepend [field]) := by
  induction h generalizing rest with
  | varint hnumber value =>
      rw [Field.write]
      refine readFields_write_value hnumber (by omega) (by omega) ?_
      have hsmall : value.toNat < 128 ^ (9 + 1) := by
        have := value.toNat_lt
        omega
      have hpos := hnumber.1
      rw [readField_varint (by omega) (by omega), tag_div (by omega)]
      simp only [readVarint_writeVarint rest hsmall, Option.map_some, UInt64.ofNat_toNat]
  | fixed64 hnumber value =>
      rw [Field.write]
      refine readFields_write_value hnumber (by omega) (by omega) ?_
      have hpos := hnumber.1
      rw [readField_fixed64 (by omega) (by omega), tag_div (by omega)]
      simp only [readFixed_writeFixed rest (show value.toNat < 256 ^ 8 from value.toNat_lt),
        Option.map_some, UInt64.ofNat_toNat]
  | lengthDelimited hnumber hvalue =>
      rw [Field.write]
      refine readFields_write_value hnumber (by omega) (by omega) ?_
      have hpos := hnumber.1
      rw [readField_lengthDelimited (by omega) (by omega), tag_div (by omega)]
      simp only [readLengthDelimited_write rest hvalue, Option.map_some]
  | @group depth number hnumber fields hfields ih =>
      rw [Field.write, List.append_assoc (writeTag number 3)]
      refine readFields_write_value hnumber (by omega) (by omega) ?_
      have hpos := hnumber.1
      rw [readField_group (by omega) (by omega), tag_div (by omega)]
      have hgroup : readGroup (depth + 1) number (writeFields fields ++ writeTag number 4 ++ rest) =
          some (fields, rest) := by
        have hread := readFields_write_of_each ih (writeTag number 4 ++ rest)
        rw [readFields_write_end hnumber rest, Option.map_some, prepend, List.append_nil,
          ← List.append_assoc] at hread
        rw [readGroup, ← readFields, hread]
        simp only [Option.bind_some, if_true]
      simp only [hgroup, Option.map_some]
  | fixed32 hnumber value =>
      rw [Field.write]
      refine readFields_write_value hnumber (by omega) (by omega) ?_
      have hpos := hnumber.1
      rw [readField_fixed32 (by omega) (by omega), tag_div (by omega)]
      simp only [readFixed_writeFixed rest (show value.toNat < 256 ^ 4 from value.toNat_lt),
        Option.map_some, UInt32.ofNat_toNat]

theorem readFields_write (h : ∀ field ∈ fields, field.Valid depth) (rest : List UInt8) :
    readFields depth (writeFields fields ++ rest) =
      (readFields depth rest).map (prepend fields) :=
  readFields_write_of_each (fun field hfield => readFields_write_field (h field hfield)) rest

/-- Valid fields are read back. -/
theorem fieldsOf_writeFields (h : ∀ field ∈ fields, field.Valid depth) :
    fieldsOf depth (writeFields fields) = some fields := by
  have hread := readFields_write h []
  rw [List.append_nil, readFields_nil, Option.map_some, prepend, List.append_nil] at hread
  rw [fieldsOf, hread]
  simp only [Option.bind_some, if_true]

/-! ## Readers return valid fields -/

section Loop

variable {group : ℕ → List UInt8 → Option (List Field × List UInt8)}

theorem valid_of_readField {tag : ℕ} (htag : tag < 4294967296)
    (hgroup : ∀ {number bytes fields rest}, ValidNumber number →
      group number bytes = some (fields, rest) → (Field.group number fields).Valid depth)
    (h : readField group tag bytes = some (field, rest)) : field.Valid depth := by
  rw [readField, Option.ite_none_left_eq_some] at h
  obtain ⟨hzero, h⟩ := h
  have hnumber : ValidNumber (tag / 8) := ⟨Nat.pos_of_ne_zero hzero, by omega⟩
  split at h
  · obtain ⟨⟨value, tail⟩, _, heq⟩ := Option.map_eq_some_iff.mp h
    cases heq
    exact .varint hnumber _
  · obtain ⟨⟨value, tail⟩, _, heq⟩ := Option.map_eq_some_iff.mp h
    cases heq
    exact .fixed64 hnumber _
  · obtain ⟨⟨value, tail⟩, hread, heq⟩ := Option.map_eq_some_iff.mp h
    cases heq
    exact .lengthDelimited hnumber (length_le_of_readLengthDelimited hread)
  · obtain ⟨⟨fields, tail⟩, hread, heq⟩ := Option.map_eq_some_iff.mp h
    cases heq
    exact hgroup hnumber hread
  · obtain ⟨⟨value, tail⟩, _, heq⟩ := Option.map_eq_some_iff.mp h
    cases heq
    exact .fixed32 hnumber _
  · cases h

theorem valid_of_readFieldsWith {fuel : ℕ} {last : Option ℕ}
    (hgroup : ∀ {number bytes fields rest}, ValidNumber number →
      group number bytes = some (fields, rest) → (Field.group number fields).Valid depth)
    (h : readFieldsWith group fuel bytes = some ((fields, last), rest)) :
    ∀ field ∈ fields, field.Valid depth := by
  induction fuel generalizing bytes fields with
  | zero => cases h
  | succ fuel ih =>
      obtain ⟨_, rfl, _, _⟩ | ⟨tag, middle, htag, hround⟩ := readFieldsWith_round h
      · exact List.forall_mem_nil _
      · obtain ⟨_, rfl, _, _⟩ | ⟨field, fields', tail, _, hfield, rfl, hloop⟩ := hround
        · exact List.forall_mem_nil _
        · rw [List.forall_mem_cons]
          exact ⟨valid_of_readField (readTag_shorter htag).1 hgroup hfield, ih hloop⟩

end Loop

theorem valid_of_readGroup (hnumber : ValidNumber number)
    (h : readGroup depth number bytes = some (fields, rest)) :
    (Field.group number fields).Valid depth := by
  induction depth generalizing number bytes fields rest with
  | zero => cases h
  | succ depth ih =>
      obtain ⟨⟨⟨fields', last⟩, rest'⟩, hloop, hlast⟩ := Option.bind_eq_some_iff.mp h
      simp only [Option.ite_none_right_eq_some, Option.some.injEq, Prod.mk.injEq] at hlast
      rw [← hlast.2.1]
      exact .group hnumber (valid_of_readFieldsWith ih hloop)

/-- The fields of any bytes are valid. -/
theorem valid_of_fieldsOf (h : fieldsOf depth bytes = some fields) :
    ∀ field ∈ fields, field.Valid depth := by
  obtain ⟨⟨⟨fields', last⟩, rest⟩, hloop, hlast⟩ := Option.bind_eq_some_iff.mp h
  simp only [Option.ite_none_right_eq_some, Option.some.injEq] at hlast
  rw [← hlast.2]
  exact valid_of_readFieldsWith valid_of_readGroup hloop

/-- The fields of some bytes and more bytes are the fields of both. -/
theorem fieldsOf_append (h : fieldsOf depth bytes = some fields) (more : List UInt8) :
    fieldsOf depth (bytes ++ more) = (fieldsOf depth more).map (fields ++ ·) := by
  obtain ⟨⟨⟨fields', last⟩, rest⟩, hloop, hlast⟩ := Option.bind_eq_some_iff.mp h
  simp only [Option.ite_none_right_eq_some, Option.some.injEq] at hlast
  obtain ⟨rfl, rfl⟩ := hlast
  rw [fieldsOf, readFields_append hloop, fieldsOf]
  cases hmore : readFields depth more with
  | none => rfl
  | some result =>
      obtain ⟨⟨fields, last⟩, tail⟩ := result
      cases last with
      | none => rfl
      | some tag => rfl

end Wire
