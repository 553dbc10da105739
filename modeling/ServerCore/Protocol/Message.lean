import ServerCore.Protocol.ParseContext

/-!
# The messages of `Protocol.proto`

The generated classes `BuffData` and `TEST_MSG`: their parsers over a `ParseContext`,
their serializers, sizes and `MergeFrom`. A `float` is its 32 bits, a string its bytes,
and `utf8` is `IsStructurallyValidUTF8`. A serializer appends bytes to a stream; it reads
sizes that `ByteSizeLong` has cached, so its `static_cast<int>` stays in the model.
-/

namespace ServerCore

namespace Protocol

open Wire (writeVarint writeFixed)

structure BuffData where
  buffId : UInt64 := 0
  remainTime : UInt32 := 0
  victims : List UInt64 := []
  unknownFields : List UnknownField := []

structure TestMsg where
  id : UInt64 := 0
  hp : UInt32 := 0
  attack : UInt32 := 0
  buffs : List BuffData := []
  msg : List UInt8 := []
  unknownFields : List UnknownField := []

/-! ## Parsing -/

namespace BuffData

variable (ctx : ParseContext)

/-- The switch of `_InternalParse`. -/
def parseField (depth limit : ℕ) (tag : UInt32) (buff : BuffData) (p : ℕ) :
    Option (BuffData × ℕ) :=
  if tag >>> 3 = 1 ∧ tag.toUInt8 = 8 then
    (ctx.readVarint64 p).map fun (value, p) => ({ buff with buffId := value }, p)
  else if tag >>> 3 = 2 ∧ tag.toUInt8 = 21 then
    some ({ buff with remainTime := UInt32.ofNat (ctx.unalignedLoad 4 p) }, p + 4)
  else if tag >>> 3 = 3 ∧ tag.toUInt8 = 26 then
    (ctx.readPackedVarint buff.victims p).map fun (victims, p) => ({ buff with victims }, p)
  else if tag >>> 3 = 3 ∧ tag.toUInt8 = 24 then
    (ctx.readVarint64 p).map fun (value, p) =>
      ({ buff with victims := buff.victims ++ [value] }, p)
  else
    (ctx.unknownFieldParse limit depth tag buff.unknownFields p).map
      fun (unknownFields, p) => ({ buff with unknownFields }, p)

def internalParse (depth limit : ℕ) (buff : BuffData) (p : ℕ) :
    Option ((BuffData × UInt32) × ℕ) :=
  ctx.internalParse limit (parseField ctx depth limit) buff p

/-- `ParseMessage` of a new `BuffData`. -/
def parseMessage : ℕ → ℕ → Option (BuffData × ℕ)
  | 0, _ => none
  | depth + 1, p => ctx.parseMessage (fun limit p => internalParse ctx depth limit {} p) p

end BuffData

namespace TestMsg

variable (ctx : ParseContext) (utf8 : List UInt8 → Bool)

/-- The loop over elements of `buffs` that follow each other. `fuel` bounds its rounds. -/
def parseBuffs (depth limit : ℕ) : ℕ → TestMsg → ℕ → Option (TestMsg × ℕ)
  | 0, _, _ => none
  | fuel + 1, test, p =>
      (BuffData.parseMessage ctx depth p).bind fun (buff, p) =>
        let test := { test with buffs := test.buffs ++ [buff] }
        if ctx.dataAvailable limit p = false then some (test, p)
        else if ctx.data p = 34 then parseBuffs depth limit fuel test (p + 1)
        else some (test, p)

/-- The switch of `_InternalParse`. -/
def parseField (depth limit : ℕ) (tag : UInt32) (test : TestMsg) (p : ℕ) :
    Option (TestMsg × ℕ) :=
  if tag >>> 3 = 1 ∧ tag.toUInt8 = 8 then
    (ctx.readVarint64 p).map fun (value, p) => ({ test with id := value }, p)
  else if tag >>> 3 = 2 ∧ tag.toUInt8 = 16 then
    (ctx.readVarint32 p).map fun (value, p) => ({ test with hp := value }, p)
  else if tag >>> 3 = 3 ∧ tag.toUInt8 = 24 then
    (ctx.readVarint32 p).map fun (value, p) => ({ test with attack := value }, p)
  else if tag >>> 3 = 4 ∧ tag.toUInt8 = 34 then
    parseBuffs ctx depth limit (limit - p + 1) test p
  else if tag >>> 3 = 5 ∧ tag.toUInt8 = 42 then
    (ctx.inlineGreedyStringParser p).bind fun (msg, p) =>
      if utf8 msg then some ({ test with msg }, p) else none
  else
    (ctx.unknownFieldParse limit depth tag test.unknownFields p).map
      fun (unknownFields, p) => ({ test with unknownFields }, p)

def internalParse (depth limit : ℕ) (test : TestMsg) (p : ℕ) :
    Option ((TestMsg × UInt32) × ℕ) :=
  ctx.internalParse limit (parseField ctx utf8 depth limit) test p

/-- `GetDefaultRecursionLimit`. -/
def recursionLimit : ℕ := 100

/-- `MergeFromImpl`: the parse of `ParseFromArray`, and `MergeFromString` of at most `INT_MAX`
bytes. -/
def mergeFromImpl (test : TestMsg) : Option TestMsg :=
  (internalParse ctx utf8 recursionLimit ctx.size test 0).bind fun ((test, lastTagMinus1), _) =>
    if lastTagMinus1 = 0 then some test else none

def parseFromArray : Option TestMsg := mergeFromImpl ctx utf8 {}

end TestMsg

/-! ## Sizes -/

def varintSize32 (value : UInt32) : ℕ := ((value ||| 1).toNat.log2 * 9 + 73) / 64

def varintSize64 (value : UInt64) : ℕ := ((value ||| 1).toNat.log2 * 9 + 73) / 64

def varintSize32PlusOne (value : UInt32) : ℕ := ((value ||| 1).toNat.log2 * 9 + 73 + 64) / 64

def varintSize64PlusOne (value : UInt64) : ℕ := ((value ||| 1).toNat.log2 * 9 + 73 + 64) / 64

/-- `VarintSize32SignExtended`. -/
def int32Size (value : Int32) : ℕ := varintSize64 value.toInt64.toUInt64

def uint64Size (values : List UInt64) : ℕ := (values.map varintSize64).sum

def lengthDelimitedSize (length : ℕ) : ℕ := length + varintSize32 (UInt32.ofNat length)

def makeTag (number type : ℕ) : UInt32 := UInt32.ofNat (number * 8 + type)

mutual

/-- A round of `ComputeUnknownFieldsSize`. -/
def unknownFieldSize : UnknownField → ℕ
  | .varint number value => varintSize32 (makeTag number 0) + varintSize64 value
  | .fixed64 number _ => varintSize32 (makeTag number 1) + 8
  | .lengthDelimited number value =>
      varintSize32 (makeTag number 2) + varintSize32 (UInt32.ofNat value.length) + value.length
  | .group number fields =>
      varintSize32 (makeTag number 3) + computeUnknownFieldsSize fields +
        varintSize32 (makeTag number 4)
  | .fixed32 number _ => varintSize32 (makeTag number 5) + 4

def computeUnknownFieldsSize : List UnknownField → ℕ
  | [] => 0
  | field :: fields => unknownFieldSize field + computeUnknownFieldsSize fields

end

/-- `ToCachedSize`. -/
def toCachedSize (size : ℕ) : Int32 := Int32.ofNat size

def BuffData.byteSizeLong (buff : BuffData) : ℕ :=
  let dataSize := uint64Size buff.victims
  let totalSize := if 0 < dataSize then 1 + int32Size (Int32.ofNat dataSize) else 0
  let totalSize := totalSize + dataSize
  let totalSize :=
    if buff.buffId ≠ 0 then totalSize + varintSize64PlusOne buff.buffId else totalSize
  let totalSize := if buff.remainTime ≠ 0 then totalSize + (1 + 4) else totalSize
  totalSize + computeUnknownFieldsSize buff.unknownFields

def TestMsg.byteSizeLong (test : TestMsg) : ℕ :=
  let totalSize := test.buffs.length +
    (test.buffs.map fun buff => lengthDelimitedSize buff.byteSizeLong).sum
  let totalSize :=
    if test.msg ≠ [] then totalSize + (1 + lengthDelimitedSize test.msg.length) else totalSize
  let totalSize := if test.id ≠ 0 then totalSize + varintSize64PlusOne test.id else totalSize
  let totalSize := if test.hp ≠ 0 then totalSize + varintSize32PlusOne test.hp else totalSize
  let totalSize :=
    if test.attack ≠ 0 then totalSize + varintSize32PlusOne test.attack else totalSize
  totalSize + computeUnknownFieldsSize test.unknownFields

/-! ## Serializing -/

def writeTagToArray (number type : ℕ) : List UInt8 := writeVarint (makeTag number type).toNat

/-- `WriteTag` of a length-delimited value, and `UnsafeWriteSize`. -/
def writeLengthDelim (number : ℕ) (size : UInt32) : List UInt8 :=
  writeTagToArray number 2 ++ writeVarint size.toNat

/-- `WriteString` and `WriteStringMaybeAliased`. -/
def writeString (number : ℕ) (s : List UInt8) : List UInt8 :=
  writeLengthDelim number (UInt32.ofNat s.length) ++ s

mutual

/-- A round of `InternalSerializeUnknownFieldsToArray`. -/
def serializeUnknownField : UnknownField → List UInt8
  | .varint number value => writeTagToArray number 0 ++ writeVarint value.toNat
  | .fixed64 number value => writeTagToArray number 1 ++ writeFixed 8 value.toNat
  | .lengthDelimited number value => writeString number value
  | .group number fields =>
      writeTagToArray number 3 ++ serializeUnknownFields fields ++ writeTagToArray number 4
  | .fixed32 number value => writeTagToArray number 5 ++ writeFixed 4 value.toNat

def serializeUnknownFields : List UnknownField → List UInt8
  | [] => []
  | field :: fields => serializeUnknownField field ++ serializeUnknownFields fields

end

/-- `_InternalSerialize` after `ByteSizeLong`. -/
def BuffData.internalSerialize (buff : BuffData) : List UInt8 :=
  let byteSize := toCachedSize (uint64Size buff.victims)
  (if buff.buffId ≠ 0 then writeTagToArray 1 0 ++ writeVarint buff.buffId.toNat else []) ++
    (if buff.remainTime ≠ 0 then writeTagToArray 2 5 ++ writeFixed 4 buff.remainTime.toNat
      else []) ++
    (if 0 < byteSize then
      writeLengthDelim 3 byteSize.toUInt32 ++ buff.victims.flatMap fun victim =>
        writeVarint victim.toNat
      else []) ++
    serializeUnknownFields buff.unknownFields

/-- `_InternalSerialize` after `ByteSizeLong`. -/
def TestMsg.internalSerialize (test : TestMsg) : List UInt8 :=
  (if test.id ≠ 0 then writeTagToArray 1 0 ++ writeVarint test.id.toNat else []) ++
    (if test.hp ≠ 0 then writeTagToArray 2 0 ++ writeVarint test.hp.toNat else []) ++
    (if test.attack ≠ 0 then writeTagToArray 3 0 ++ writeVarint test.attack.toNat else []) ++
    (test.buffs.flatMap fun buff =>
      writeLengthDelim 4 (toCachedSize buff.byteSizeLong).toUInt32 ++ buff.internalSerialize) ++
    (if test.msg ≠ [] then writeString 5 test.msg else []) ++
    serializeUnknownFields test.unknownFields

/-- `AppendToString`: nothing longer than `INT_MAX` is serialized. -/
def TestMsg.appendToString (test : TestMsg) : Option (List UInt8) :=
  if 2147483647 < test.byteSizeLong then none else some test.internalSerialize

/-! ## Merging -/

def BuffData.mergeFrom (buff other : BuffData) : BuffData where
  buffId := if other.buffId ≠ 0 then other.buffId else buff.buffId
  remainTime := if other.remainTime ≠ 0 then other.remainTime else buff.remainTime
  victims := buff.victims ++ other.victims
  unknownFields := buff.unknownFields ++ other.unknownFields

def TestMsg.mergeFrom (test other : TestMsg) : TestMsg where
  id := if other.id ≠ 0 then other.id else test.id
  hp := if other.hp ≠ 0 then other.hp else test.hp
  attack := if other.attack ≠ 0 then other.attack else test.attack
  buffs := test.buffs ++ other.buffs
  msg := if other.msg ≠ [] then other.msg else test.msg
  unknownFields := test.unknownFields ++ other.unknownFields

end Protocol

end ServerCore
