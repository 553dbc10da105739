import ServerCore.Protocol.Fields

/-!
# Serialized messages

`BuffData.fields` and `TestMsg.fields` are the fields that a message is written as, in the
order of the serializers; a field at its default is not written. For messages whose
unknown fields could have been read, the serializers write these fields, and
`ByteSizeLong` is the number of bytes they write. The sizes that they write in front of an
element come from `ByteSizeLong`, through an `int`.
-/

namespace ServerCore

namespace Protocol

open Wire (writeVarint writeFields)

variable {depth inner : ℕ}

/-! ## Sizes of numbers -/

theorem log2_or_one (n : ℕ) : (n ||| 1).log2 = n.log2 := by
  by_cases hzero : n = 0
  · rw [hzero]
    rfl
  · have hne : n ||| 1 ≠ 0 := Nat.pos_iff_ne_zero.mp
      (Nat.lt_of_lt_of_le (Nat.pos_of_ne_zero hzero) Nat.left_le_or)
    have hpow : 1 < 2 ^ (n.log2 + 1) := Nat.one_lt_two_pow (Nat.succ_ne_zero _)
    rw [Nat.log2_eq_iff hne]
    exact ⟨Nat.le_trans (Nat.log2_self_le hzero) Nat.left_le_or,
      Nat.or_lt_two_pow Nat.lt_log2_self hpow⟩

/-- The multiplication by 9 and the division by 64 count groups of seven digits. -/
theorem varintSize_eq {n : ℕ} (h : n < 2 ^ 64) :
    ((n ||| 1).log2 * 9 + 73) / 64 = (writeVarint n).length := by
  have hlog : n.log2 < 64 := by
    by_cases hzero : n = 0
    · rw [hzero]
      decide
    · exact (Nat.log2_lt hzero).mpr h
  rw [Wire.length_writeVarint, log2_or_one]
  omega

theorem varintSize32_eq (value : UInt32) :
    varintSize32 value = (writeVarint value.toNat).length := by
  have := value.toNat_lt
  rw [varintSize32, UInt32.toNat_or]
  exact varintSize_eq (by omega)

theorem varintSize64_eq (value : UInt64) :
    varintSize64 value = (writeVarint value.toNat).length := by
  rw [varintSize64, UInt64.toNat_or]
  exact varintSize_eq value.toNat_lt

theorem varintSize32PlusOne_eq (value : UInt32) :
    varintSize32PlusOne value = (writeVarint value.toNat).length + 1 := by
  rw [← varintSize32_eq, varintSize32PlusOne, varintSize32]
  omega

theorem varintSize64PlusOne_eq (value : UInt64) :
    varintSize64PlusOne value = (writeVarint value.toNat).length + 1 := by
  rw [← varintSize64_eq, varintSize64PlusOne, varintSize64]
  omega

theorem uint64Size_eq (values : List UInt64) :
    uint64Size values = (values.flatMap fun value => writeVarint value.toNat).length := by
  rw [uint64Size, List.length_flatMap]
  congr 1
  exact List.map_congr_left fun value _ => varintSize64_eq value

theorem toNat_ofNat32 {n : ℕ} (h : n < 2 ^ 32) : (UInt32.ofNat n).toNat = n := by
  rw [UInt32.toNat_ofNat']
  omega

theorem lengthDelimitedSize_eq {value : List UInt8} (h : value.length < 2 ^ 32) :
    lengthDelimitedSize value.length = (Wire.writeLengthDelimited value).length := by
  rw [lengthDelimitedSize, varintSize32_eq, toNat_ofNat32 h, Wire.writeLengthDelimited,
    List.length_append, Nat.add_comm]

theorem toUInt32_toCachedSize (n : ℕ) : (toCachedSize n).toUInt32 = UInt32.ofNat n := rfl

theorem toCachedSize_pos {n : ℕ} (h : n < 2 ^ 31) : 0 < toCachedSize n ↔ 0 < n := by
  rw [Int32.lt_iff_toInt_lt, toCachedSize, Int32.toInt_ofNat_of_lt (by exact h)]
  rw [show (0 : Int32).toInt = 0 from rfl]
  omega

theorem int32Size_eq {n : ℕ} (h : n < 2 ^ 31) :
    int32Size (Int32.ofNat n) = (writeVarint n).length := by
  have hwide : (Int32.ofNat n).toInt64 = Int64.ofNat n := by
    apply Int64.toInt_inj.mp
    rw [Int32.toInt_toInt64, Int32.toInt_ofNat_of_lt h, Int64.toInt_ofNat_of_lt (by omega)]
  have hcast : (Int64.ofNat n).toUInt64 = UInt64.ofNat n := rfl
  rw [int32Size, varintSize64_eq, hwide, hcast, UInt64.toNat_ofNat', Nat.mod_eq_of_lt (by omega)]

/-! ## Tags and unknown fields -/

theorem toNat_makeTag {number type : ℕ} (hnumber : number < 536870912) (htype : type < 8) :
    (makeTag number type).toNat = number * 8 + type :=
  toNat_ofNat32 (by omega)

theorem writeTagToArray_eq {number type : ℕ} (hnumber : number < 536870912) (htype : type < 8) :
    writeTagToArray number type = Wire.writeTag number type := by
  rw [writeTagToArray, toNat_makeTag hnumber htype, Wire.writeTag]

theorem writeString_eq {number : ℕ} {s : List UInt8} (hnumber : number < 536870912)
    (hs : s.length < 2 ^ 32) :
    writeString number s = (Wire.Field.lengthDelimited number s).write := by
  rw [writeString, writeLengthDelim, writeTagToArray_eq hnumber (by omega), toNat_ofNat32 hs,
    Wire.Field.write, Wire.writeLengthDelimited, List.append_assoc]

theorem serializeUnknownFields_of_each {fields : List UnknownField}
    (heach : ∀ field ∈ fields, serializeUnknownField field = field.write) :
    serializeUnknownFields fields = writeFields fields := by
  induction fields with
  | nil => rfl
  | cons field fields ih =>
      rw [serializeUnknownFields, Wire.writeFields, heach field List.mem_cons_self,
        ih fun field hfield => heach field (List.mem_cons_of_mem _ hfield)]

theorem serializeUnknownField_eq {field : UnknownField} (h : field.Valid depth) :
    serializeUnknownField field = field.write := by
  induction h with
  | varint hnumber value =>
      rw [serializeUnknownField, writeTagToArray_eq hnumber.2 (by omega), Wire.Field.write]
  | fixed64 hnumber value =>
      rw [serializeUnknownField, writeTagToArray_eq hnumber.2 (by omega), Wire.Field.write]
  | lengthDelimited hnumber hvalue =>
      rw [Wire.maxSize] at hvalue
      rw [serializeUnknownField, writeString_eq hnumber.2 (by omega)]
  | group hnumber hfields ih =>
      rw [serializeUnknownField, writeTagToArray_eq hnumber.2 (by omega),
        writeTagToArray_eq hnumber.2 (by omega), serializeUnknownFields_of_each ih,
        Wire.Field.write]
  | fixed32 hnumber value =>
      rw [serializeUnknownField, writeTagToArray_eq hnumber.2 (by omega), Wire.Field.write]

theorem computeUnknownFieldsSize_of_each {fields : List UnknownField}
    (heach : ∀ field ∈ fields, unknownFieldSize field = field.write.length) :
    computeUnknownFieldsSize fields = (writeFields fields).length := by
  induction fields with
  | nil => rfl
  | cons field fields ih =>
      rw [computeUnknownFieldsSize, Wire.writeFields, heach field List.mem_cons_self,
        ih fun field hfield => heach field (List.mem_cons_of_mem _ hfield), List.length_append]

theorem unknownFieldSize_eq {field : UnknownField} (h : field.Valid depth) :
    unknownFieldSize field = field.write.length := by
  have hsize {number type : ℕ} (hnumber : number < 536870912) (htype : type < 8) :
      varintSize32 (makeTag number type) = (Wire.writeTag number type).length := by
    rw [varintSize32_eq, toNat_makeTag hnumber htype, Wire.writeTag]
  induction h with
  | varint hnumber value =>
      rw [unknownFieldSize, hsize hnumber.2 (by omega), varintSize64_eq, Wire.Field.write,
        List.length_append]
  | fixed64 hnumber value =>
      rw [unknownFieldSize, hsize hnumber.2 (by omega), Wire.Field.write, List.length_append,
        Wire.length_writeFixed]
  | lengthDelimited hnumber hvalue =>
      rw [Wire.maxSize] at hvalue
      rw [unknownFieldSize, hsize hnumber.2 (by omega), varintSize32_eq, toNat_ofNat32 (by omega),
        Wire.Field.write, Wire.writeLengthDelimited, List.length_append, List.length_append,
        Nat.add_assoc]
  | group hnumber hfields ih =>
      rw [unknownFieldSize, hsize hnumber.2 (by omega), hsize hnumber.2 (by omega),
        computeUnknownFieldsSize_of_each ih, Wire.Field.write, List.length_append,
        List.length_append]
  | fixed32 hnumber value =>
      rw [unknownFieldSize, hsize hnumber.2 (by omega), Wire.Field.write, List.length_append,
        Wire.length_writeFixed]

/-! ## Messages -/

theorem writeTag_of_lt {number type : ℕ} (hnumber : number < 16) (htype : type < 8) :
    Wire.writeTag number type = [UInt8.ofNat (number * 8 + type)] :=
  Wire.writeVarint_of_lt (by omega)

theorem writeFields_singleton (field : UnknownField) : writeFields [field] = field.write := by
  rw [Wire.writeFields, Wire.writeFields, List.append_nil]

theorem writeFields_ite (c : Prop) [Decidable c] (field : UnknownField) :
    writeFields (if c then [field] else []) = if c then field.write else [] := by
  split
  · exact writeFields_singleton field
  · rfl

theorem length_write_varint {number : ℕ} (hnumber : number < 16) (value : UInt64) :
    (Wire.Field.varint number value).write.length = varintSize64PlusOne value := by
  rw [Wire.Field.write, writeTag_of_lt hnumber (by omega), varintSize64PlusOne_eq]
  rfl

theorem length_write_fixed32 {number : ℕ} (hnumber : number < 16) (value : UInt32) :
    (Wire.Field.fixed32 number value).write.length = 1 + 4 := by
  rw [Wire.Field.write, writeTag_of_lt hnumber (by omega), List.length_append,
    Wire.length_writeFixed]
  rfl

theorem length_write_lengthDelimited {number : ℕ} (hnumber : number < 16) (value : List UInt8) :
    (Wire.Field.lengthDelimited number value).write.length =
      1 + (writeVarint value.length).length + value.length := by
  rw [Wire.Field.write, writeTag_of_lt hnumber (by omega), Wire.writeLengthDelimited,
    List.length_append, List.length_append, ← Nat.add_assoc]
  rfl

theorem length_ite (c : Prop) [Decidable c] (bytes : List UInt8) :
    (if c then bytes else []).length = if c then bytes.length else 0 := by
  split <;> rfl

namespace BuffData

/-- The elements of `victims` one after the other. -/
def packed (buff : BuffData) : List UInt8 :=
  buff.victims.flatMap fun victim => writeVarint victim.toNat

/-- The fields that an element is written as. -/
def fields (buff : BuffData) : List UnknownField :=
  (if buff.buffId ≠ 0 then [.varint 1 buff.buffId] else []) ++
    (if buff.remainTime ≠ 0 then [.fixed32 2 buff.remainTime] else []) ++
    (if 0 < buff.packed.length then [.lengthDelimited 3 buff.packed] else []) ++
    buff.unknownFields

theorem packed_le (buff : BuffData) : buff.packed.length ≤ buff.byteSizeLong := by
  rw [byteSizeLong, packed, ← uint64Size_eq]
  grind

theorem byteSizeLong_eq {buff : BuffData} (hvalid : ∀ field ∈ buff.unknownFields, field.Valid depth)
    (hsize : buff.byteSizeLong < 2 ^ 31) :
    buff.byteSizeLong = (writeFields buff.fields).length := by
  have hpacked := Nat.lt_of_le_of_lt (packed_le buff) hsize
  have hunknown := computeUnknownFieldsSize_of_each fun field hfield =>
    unknownFieldSize_eq (hvalid field hfield)
  rw [fields, Wire.writeFields_append, Wire.writeFields_append, Wire.writeFields_append,
    writeFields_ite, writeFields_ite, writeFields_ite]
  rw [List.length_append, List.length_append, List.length_append, length_ite, length_ite,
    length_ite, length_write_varint (by omega), length_write_fixed32 (by omega),
    length_write_lengthDelimited (by omega), ← hunknown, byteSizeLong, uint64Size_eq]
  change buff.packed.length < 2 ^ 31 at hpacked
  rw [show (buff.victims.flatMap fun value => writeVarint value.toNat) = buff.packed from rfl,
    int32Size_eq hpacked]
  grind

theorem internalSerialize_eq {buff : BuffData}
    (hvalid : ∀ field ∈ buff.unknownFields, field.Valid depth)
    (hsize : buff.byteSizeLong < 2 ^ 31) : buff.internalSerialize = writeFields buff.fields := by
  have hpacked := Nat.lt_of_le_of_lt (packed_le buff) hsize
  have hunknown := serializeUnknownFields_of_each fun field hfield =>
    serializeUnknownField_eq (hvalid field hfield)
  have hdata : uint64Size buff.victims = buff.packed.length := uint64Size_eq buff.victims
  rw [fields, Wire.writeFields_append, Wire.writeFields_append, Wire.writeFields_append,
    writeFields_ite, writeFields_ite, writeFields_ite, internalSerialize, hunknown, hdata]
  simp only [toCachedSize_pos hpacked]
  rw [toUInt32_toCachedSize, writeLengthDelim, toNat_ofNat32 (by omega),
    writeTagToArray_eq (by omega) (by omega), writeTagToArray_eq (by omega) (by omega),
    writeTagToArray_eq (by omega) (by omega), Wire.Field.write, Wire.Field.write, Wire.Field.write,
    Wire.writeLengthDelimited, List.append_assoc (Wire.writeTag 3 2)]
  rfl

end BuffData

namespace TestMsg

/-- The field of an element of `buffs`. -/
def element (buff : BuffData) : UnknownField := .lengthDelimited 4 (writeFields buff.fields)

/-- The fields that the message is written as. -/
def fields (test : TestMsg) : List UnknownField :=
  (if test.id ≠ 0 then [.varint 1 test.id] else []) ++
    (if test.hp ≠ 0 then [.varint 2 test.hp.toUInt64] else []) ++
    (if test.attack ≠ 0 then [.varint 3 test.attack.toUInt64] else []) ++
    test.buffs.map element ++
    (if test.msg ≠ [] then [.lengthDelimited 5 test.msg] else []) ++
    test.unknownFields

theorem msg_le (test : TestMsg) : test.msg.length ≤ test.byteSizeLong := by
  have hsize : test.msg.length ≤ lengthDelimitedSize test.msg.length := Nat.le_add_right _ _
  rw [byteSizeLong]
  grind

theorem buff_le {test : TestMsg} {buff : BuffData} (h : buff ∈ test.buffs) :
    buff.byteSizeLong ≤ test.byteSizeLong := by
  have hsize : buff.byteSizeLong ≤ lengthDelimitedSize buff.byteSizeLong := Nat.le_add_right _ _
  have hmem : lengthDelimitedSize buff.byteSizeLong ≤
      (test.buffs.map fun buff => lengthDelimitedSize buff.byteSizeLong).sum := by
    obtain ⟨before, after, hbuffs⟩ := List.append_of_mem h
    rw [hbuffs, List.map_append, List.map_cons, List.sum_append, List.sum_cons]
    omega
  rw [byteSizeLong]
  grind

theorem elementsSize_eq {buffs : List BuffData}
    (hvalid : ∀ buff ∈ buffs, ∀ field ∈ buff.unknownFields, field.Valid depth)
    (hsize : ∀ buff ∈ buffs, buff.byteSizeLong < 2 ^ 31) :
    buffs.length + (buffs.map fun buff => lengthDelimitedSize buff.byteSizeLong).sum =
      (writeFields (buffs.map element)).length := by
  induction buffs with
  | nil => rfl
  | cons buff buffs ih =>
      rw [List.forall_mem_cons] at hvalid hsize
      have hbuff := BuffData.byteSizeLong_eq hvalid.1 hsize.1
      have hlength : (writeFields buff.fields).length < 2 ^ 32 := by omega
      rw [List.map_cons, List.map_cons, Wire.writeFields, List.length_append, ← ih hvalid.2 hsize.2,
        element, length_write_lengthDelimited (by omega), List.length_cons, List.sum_cons, hbuff,
        lengthDelimitedSize_eq hlength, Wire.writeLengthDelimited, List.length_append]
      omega

theorem serializeElements_eq {buffs : List BuffData}
    (hvalid : ∀ buff ∈ buffs, ∀ field ∈ buff.unknownFields, field.Valid depth)
    (hsize : ∀ buff ∈ buffs, buff.byteSizeLong < 2 ^ 31) :
    (buffs.flatMap fun buff =>
        writeLengthDelim 4 (toCachedSize buff.byteSizeLong).toUInt32 ++ buff.internalSerialize) =
      writeFields (buffs.map element) := by
  induction buffs with
  | nil => rfl
  | cons buff buffs ih =>
      rw [List.forall_mem_cons] at hvalid hsize
      have hbuff := BuffData.byteSizeLong_eq hvalid.1 hsize.1
      have hlength := hsize.1
      rw [List.flatMap_cons, List.map_cons, Wire.writeFields, ih hvalid.2 hsize.2, element,
        toUInt32_toCachedSize, writeLengthDelim, toNat_ofNat32 (by omega),
        writeTagToArray_eq (by omega) (by omega), BuffData.internalSerialize_eq hvalid.1 hsize.1,
        Wire.Field.write, Wire.writeLengthDelimited, hbuff, List.append_assoc (Wire.writeTag 4 2)]

theorem byteSizeLong_eq {test : TestMsg}
    (hbuffs : ∀ buff ∈ test.buffs, ∀ field ∈ buff.unknownFields, field.Valid inner)
    (hvalid : ∀ field ∈ test.unknownFields, field.Valid depth)
    (hsize : test.byteSizeLong < 2 ^ 31) :
    test.byteSizeLong = (writeFields test.fields).length := by
  have hmsg := Nat.lt_of_le_of_lt (msg_le test) hsize
  have hunknown := computeUnknownFieldsSize_of_each fun field hfield =>
    unknownFieldSize_eq (hvalid field hfield)
  have helements := elementsSize_eq hbuffs fun buff hbuff =>
    Nat.lt_of_le_of_lt (buff_le hbuff) hsize
  have hlength : test.msg.length < 2 ^ 32 := by omega
  rw [fields, Wire.writeFields_append, Wire.writeFields_append, Wire.writeFields_append,
    Wire.writeFields_append, Wire.writeFields_append, writeFields_ite, writeFields_ite,
    writeFields_ite, writeFields_ite]
  rw [List.length_append, List.length_append, List.length_append, List.length_append,
    List.length_append, length_ite, length_ite, length_ite, length_ite,
    length_write_varint (by omega), length_write_varint (by omega), length_write_varint (by omega),
    length_write_lengthDelimited (by omega), ← hunknown, ← helements, byteSizeLong,
    lengthDelimitedSize_eq hlength, Wire.writeLengthDelimited, List.length_append]
  have hwide (value : UInt32) : varintSize64PlusOne value.toUInt64 = varintSize32PlusOne value := by
    rw [varintSize64PlusOne_eq, varintSize32PlusOne_eq, UInt32.toNat_toUInt64]
  rw [hwide, hwide]
  grind

theorem internalSerialize_eq {test : TestMsg}
    (hbuffs : ∀ buff ∈ test.buffs, ∀ field ∈ buff.unknownFields, field.Valid inner)
    (hvalid : ∀ field ∈ test.unknownFields, field.Valid depth)
    (hsize : test.byteSizeLong < 2 ^ 31) : test.internalSerialize = writeFields test.fields := by
  have hmsg := Nat.lt_of_le_of_lt (msg_le test) hsize
  have hunknown := serializeUnknownFields_of_each fun field hfield =>
    serializeUnknownField_eq (hvalid field hfield)
  have helements := serializeElements_eq hbuffs fun buff hbuff =>
    Nat.lt_of_le_of_lt (buff_le hbuff) hsize
  rw [fields, Wire.writeFields_append, Wire.writeFields_append, Wire.writeFields_append,
    Wire.writeFields_append, Wire.writeFields_append, writeFields_ite, writeFields_ite,
    writeFields_ite, writeFields_ite, internalSerialize, hunknown, helements,
    writeString_eq (by omega) (by omega), writeTagToArray_eq (by omega) (by omega),
    writeTagToArray_eq (by omega) (by omega), writeTagToArray_eq (by omega) (by omega),
    Wire.Field.write, Wire.Field.write, Wire.Field.write, UInt32.toNat_toUInt64,
    UInt32.toNat_toUInt64]

end TestMsg

end Protocol

end ServerCore
