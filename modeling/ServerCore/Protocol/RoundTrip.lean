import ServerCore.Protocol.Size

/-!
# Round trips

A message that a parse can return, and that is small enough to be written, is read back
from what its serializer writes; merging these bytes into a message is `MergeFrom`. Every
message that a parse returns is of this kind: its fields can be written, its unknown
fields are not fields that the message knows, and its string has passed the test.
-/

namespace ServerCore

namespace Protocol

open Wire (writeVarint writeFields)

variable {depth : ℕ} {utf8 : List UInt8 → Bool}

theorem forall_mem_ite {c : Prop} [Decidable c] {P : UnknownField → Prop} {field : UnknownField}
    (h : c → P field) : ∀ other ∈ (if c then [field] else []), P other := by
  intro other hother
  split at hother
  next hc =>
    rw [List.mem_singleton] at hother
    rw [hother]
    exact h hc
  next => cases hother

theorem foldlM_ite {M : Type} (c : Prop) [Decidable c] (apply : M → UnknownField → Option M)
    (field : UnknownField) (msg : M) :
    (if c then [field] else []).foldlM apply msg = if c then apply msg field else some msg := by
  split
  · rw [List.foldlM_cons]
    cases apply msg field <;> rfl
  · rfl

theorem validNumber {number : ℕ} (h : 0 < number) (hlt : number < 16) : Wire.ValidNumber number :=
  ⟨h, by omega⟩

/-- Steps that keep a property keep it in a fold. -/
theorem foldlM_keeps {M : Type} {apply : M → UnknownField → Option M} {P : M → Prop}
    {fields : List UnknownField} {msg msg' : M}
    (hstep : ∀ field ∈ fields, ∀ {msg msg'}, P msg → apply msg field = some msg' → P msg')
    (hmsg : P msg) (h : fields.foldlM apply msg = some msg') : P msg' := by
  induction fields generalizing msg with
  | nil =>
      cases h
      exact hmsg
  | cons field fields ih =>
      rw [List.foldlM_cons] at h
      obtain ⟨next, hnext, h⟩ := Option.bind_eq_some_iff.mp h
      exact ih (fun field hfield => hstep field (List.mem_cons_of_mem _ hfield))
        (hstep field List.mem_cons_self hmsg hnext) h

/-! ## One element of `buffs` -/

namespace BuffData

/-- The tags of the fields that an element knows. -/
def knownTags : List ℕ := [8, 21, 26, 24]

/-- The unknown fields could have been read, as unknown fields. -/
def ReadableUnknown (depth : ℕ) (buff : BuffData) : Prop :=
  ∀ field ∈ buff.unknownFields, field.Valid depth ∧ field.tag ∉ knownTags

variable {buff other : BuffData}

theorem packed_pos : 0 < buff.packed.length ↔ buff.victims ≠ [] := by
  rw [packed, List.length_pos_iff]
  cases buff.victims with
  | nil => exact iff_of_false (not_not_intro rfl) (not_not_intro rfl)
  | cons victim victims =>
      refine iff_of_true ?_ (List.cons_ne_nil _ _)
      rw [List.flatMap_cons]
      exact List.append_ne_nil_of_left_ne_nil (Wire.writeVarint_ne_nil _) _

theorem varintsOf_packed : Wire.varintsOf buff.packed = some (buff.victims.map UInt64.toNat) := by
  have hpacked : buff.packed = (buff.victims.map UInt64.toNat).flatMap writeVarint :=
    (List.flatMap_map _ _ _).symm
  rw [hpacked]
  refine Wire.varintsOf_write fun value hvalue => ?_
  obtain ⟨victim, _, rfl⟩ := List.mem_map.mp hvalue
  have := victim.toNat_lt
  omega

theorem valid_fields (hvalid : buff.ReadableUnknown depth)
    (hsize : buff.byteSizeLong ≤ Wire.maxSize) :
    ∀ field ∈ buff.fields, field.Valid depth := by
  rw [fields, List.forall_mem_append, List.forall_mem_append, List.forall_mem_append]
  refine ⟨⟨⟨?_, ?_⟩, ?_⟩, fun field hfield => (hvalid field hfield).1⟩
  · exact forall_mem_ite fun _ => .varint (validNumber (by omega) (by omega)) _
  · exact forall_mem_ite fun _ => .fixed32 (validNumber (by omega) (by omega)) _
  · exact forall_mem_ite fun _ => .lengthDelimited (validNumber (by omega) (by omega))
      (Nat.le_trans (packed_le buff) hsize)

theorem apply_packed (buff other : BuffData) :
    apply buff (.lengthDelimited 3 other.packed) =
      some { buff with victims := buff.victims ++ other.victims } := by
  have happly : apply buff (.lengthDelimited 3 other.packed) =
    (Wire.varintsOf other.packed).map fun victims =>
      { buff with victims := buff.victims ++ victims.map UInt64.ofNat } := rfl
  have hvictims : (other.victims.map UInt64.toNat).map UInt64.ofNat = other.victims := by
    rw [List.map_map]
    exact List.map_id'' (fun victim => UInt64.ofNat_toNat) _
  rw [happly, varintsOf_packed, Option.map_some, hvictims]

theorem foldlM_unknown {fields : List UnknownField} (h : ∀ field ∈ fields, field.tag ∉ knownTags)
    (buff : BuffData) : fields.foldlM apply buff =
      some { buff with unknownFields := buff.unknownFields ++ fields } := by
  refine foldlM_collects
    (fun buff fields => { buff with unknownFields := buff.unknownFields ++ fields }) ?_ ?_ ?_ buff
  · intro buff
    rw [List.append_nil]
  · intro buff field fields
    rw [List.append_assoc, List.singleton_append]
  · intro field hfield buff
    have htag := h field hfield
    simp only [knownTags, List.mem_cons, List.not_mem_nil, or_false, not_or] at htag
    exact apply_unknown htag.1 htag.2.1 htag.2.2.1 htag.2.2.2

/-- The fields that an element is written as merge it into another one. -/
theorem foldlM_fields (h : ∀ field ∈ other.unknownFields, field.tag ∉ knownTags)
    (buff : BuffData) : other.fields.foldlM apply buff = some (buff.mergeFrom other) := by
  have hbuffId (buff : BuffData) :
      (if other.buffId ≠ 0 then [Wire.Field.varint 1 other.buffId] else []).foldlM apply buff =
        some { buff with buffId := if other.buffId ≠ 0 then other.buffId else buff.buffId } := by
    rw [foldlM_ite]
    split <;> rfl
  have hremainTime (buff : BuffData) :
      (if other.remainTime ≠ 0 then [Wire.Field.fixed32 2 other.remainTime] else []).foldlM
          apply buff =
        some { buff with
          remainTime := if other.remainTime ≠ 0 then other.remainTime else buff.remainTime } := by
    rw [foldlM_ite]
    split <;> rfl
  have hvictims (buff : BuffData) :
      (if 0 < other.packed.length then [Wire.Field.lengthDelimited 3 other.packed] else []).foldlM
          apply buff =
        some { buff with victims := buff.victims ++ other.victims } := by
    rw [foldlM_ite, apply_packed]
    split
    next => rfl
    next hempty =>
      rw [packed_pos, not_not] at hempty
      rw [hempty, List.append_nil]
  rw [fields, List.foldlM_append, List.foldlM_append, List.foldlM_append]
  simp only [hbuffId, hremainTime, hvictims, Option.bind_eq_bind, Option.bind_some]
  exact foldlM_unknown h _

theorem mergeFrom_new (buff : BuffData) : ({} : BuffData).mergeFrom buff = buff := by
  have hbuffId : (if buff.buffId ≠ 0 then buff.buffId else 0) = buff.buffId := by
    split <;> simp_all only [ne_eq, not_not]
  have hremainTime : (if buff.remainTime ≠ 0 then buff.remainTime else 0) = buff.remainTime := by
    split <;> simp_all only [ne_eq, not_not]
  rw [mergeFrom, hbuffId, hremainTime]
  rfl

theorem ofBytes_fields (hvalid : buff.ReadableUnknown depth)
    (hsize : buff.byteSizeLong ≤ Wire.maxSize) :
    ofBytes (depth + 1) (writeFields buff.fields) = some buff := by
  rw [ofBytes, mergeBytes, Wire.fieldsOf_writeFields (valid_fields hvalid hsize), Option.bind_some,
    foldlM_fields fun field hfield => (hvalid field hfield).2, mergeFrom_new]

/-- A known field leaves the unknown fields as they are. -/
theorem apply_known {field : UnknownField} (hknown : field.tag ∈ knownTags)
    (happly : apply buff field = some other) : buff.unknownFields = other.unknownFields := by
  simp only [knownTags, List.mem_cons, List.not_mem_nil, or_false] at hknown
  obtain htag | htag | htag | htag := hknown
  · obtain ⟨value, rfl⟩ := Wire.varint_of_tag 1 htag
    cases happly
    rfl
  · obtain ⟨value, rfl⟩ := Wire.fixed32_of_tag 2 htag
    cases happly
    rfl
  · obtain ⟨value, rfl⟩ := Wire.lengthDelimited_of_tag 3 htag
    obtain ⟨victims, _, heq⟩ := Option.map_eq_some_iff.mp happly
    cases heq
    rfl
  · obtain ⟨value, rfl⟩ := Wire.varint_of_tag 3 htag
    cases happly
    rfl

/-- A field that a reader returns leaves unknown fields that can be read. -/
theorem apply_keeps {field : UnknownField} (hfield : field.Valid depth)
    (h : buff.ReadableUnknown depth) (happly : apply buff field = some other) :
    other.ReadableUnknown depth := by
  by_cases hknown : field.tag ∈ knownTags
  · rw [ReadableUnknown, ← apply_known hknown happly]
    exact h
  · have htag := hknown
    simp only [knownTags, List.mem_cons, List.not_mem_nil, or_false, not_or] at htag
    rw [apply_unknown htag.1 htag.2.1 htag.2.2.1 htag.2.2.2] at happly
    cases happly
    exact List.forall_mem_append.mpr ⟨h, List.forall_mem_singleton.mpr ⟨hfield, hknown⟩⟩

theorem readable_of_ofBytes {bytes : List UInt8} (h : ofBytes (depth + 1) bytes = some buff) :
    buff.ReadableUnknown depth := by
  obtain ⟨fields, hfields, hfold⟩ := Option.bind_eq_some_iff.mp h
  have hvalid := Wire.valid_of_fieldsOf hfields
  have hnew : ({} : BuffData).ReadableUnknown depth := List.forall_mem_nil _
  exact foldlM_keeps (fun field hfield _ _ hbuff happly =>
    apply_keeps (hvalid field hfield) hbuff happly) hnew hfold

end BuffData

/-! ## The message -/

namespace TestMsg

/-- The tags of the fields that the message knows. -/
def knownTags : List ℕ := [8, 16, 24, 34, 42]

/-- What a parse can return. -/
structure Readable (utf8 : List UInt8 → Bool) (test : TestMsg) : Prop where
  buffs : ∀ buff ∈ test.buffs, buff.ReadableUnknown 99
  msg : test.msg ≠ [] → utf8 test.msg = true
  unknownFields : ∀ field ∈ test.unknownFields,
    field.Valid recursionLimit ∧ field.tag ∉ knownTags

/-- The values that are written behind a size are short enough to be read back. -/
structure Sized (test : TestMsg) : Prop where
  buffs : ∀ buff ∈ test.buffs, buff.byteSizeLong ≤ Wire.maxSize
  msg : test.msg.length ≤ Wire.maxSize

variable {test other : TestMsg} {ctx ctx' : ParseContext} {bytes : List UInt8}

theorem foldlM_unknown {fields : List UnknownField} (h : ∀ field ∈ fields, field.tag ∉ knownTags)
    (test : TestMsg) : fields.foldlM (apply depth utf8) test =
      some { test with unknownFields := test.unknownFields ++ fields } := by
  refine foldlM_collects
    (fun test fields => { test with unknownFields := test.unknownFields ++ fields }) ?_ ?_ ?_ test
  · intro test
    rw [List.append_nil]
  · intro test field fields
    rw [List.append_assoc, List.singleton_append]
  · intro field hfield test
    have htag := h field hfield
    simp only [knownTags, List.mem_cons, List.not_mem_nil, or_false, not_or] at htag
    exact apply_unknown htag.1 htag.2.1 htag.2.2.1 htag.2.2.2.1 htag.2.2.2.2

theorem foldlM_elements {buffs : List BuffData}
    (hvalid : ∀ buff ∈ buffs, buff.ReadableUnknown depth)
    (hsize : ∀ buff ∈ buffs, buff.byteSizeLong ≤ Wire.maxSize) (test : TestMsg) :
    (buffs.map element).foldlM (apply (depth + 1) utf8) test =
      some { test with buffs := test.buffs ++ buffs } := by
  rw [List.foldlM_map]
  refine foldlM_collects
    (fun test buffs => { test with buffs := test.buffs ++ buffs }) ?_ ?_ ?_ test
  · intro test
    rw [List.append_nil]
  · intro test buff buffs
    rw [List.append_assoc, List.singleton_append]
  · intro buff hbuff test
    have happly : apply (depth + 1) utf8 test (element buff) =
      (BuffData.ofBytes (depth + 1) (writeFields buff.fields)).map fun buff =>
        { test with buffs := test.buffs ++ [buff] } := rfl
    rw [happly, BuffData.ofBytes_fields (hvalid buff hbuff) (hsize buff hbuff), Option.map_some]

theorem valid_fields (hreadable : other.Readable utf8) (hsized : other.Sized) :
    ∀ field ∈ other.fields, field.Valid recursionLimit := by
  rw [fields, List.forall_mem_append, List.forall_mem_append, List.forall_mem_append,
    List.forall_mem_append, List.forall_mem_append]
  refine ⟨⟨⟨⟨⟨?_, ?_⟩, ?_⟩, ?_⟩, ?_⟩, fun field hfield =>
    (hreadable.unknownFields field hfield).1⟩
  · exact forall_mem_ite fun _ => .varint (validNumber (by omega) (by omega)) _
  · exact forall_mem_ite fun _ => .varint (validNumber (by omega) (by omega)) _
  · exact forall_mem_ite fun _ => .varint (validNumber (by omega) (by omega)) _
  · intro field hfield
    obtain ⟨buff, hbuff, rfl⟩ := List.mem_map.mp hfield
    have hsize := hsized.buffs buff hbuff
    have hlength := BuffData.byteSizeLong_eq
      (fun field hfield => (hreadable.buffs buff hbuff field hfield).1)
      (by rw [Wire.maxSize] at hsize; omega)
    exact .lengthDelimited (validNumber (by omega) (by omega)) (hlength ▸ hsize)
  · exact forall_mem_ite fun _ => .lengthDelimited (validNumber (by omega) (by omega)) hsized.msg

/-- The fields that a message is written as merge it into another one. -/
theorem foldlM_fields (hreadable : other.Readable utf8) (hsized : other.Sized) (test : TestMsg) :
    other.fields.foldlM (apply recursionLimit utf8) test = some (test.mergeFrom other) := by
  have hid (test : TestMsg) :
      (if other.id ≠ 0 then [Wire.Field.varint 1 other.id] else []).foldlM
          (apply recursionLimit utf8) test =
        some { test with id := if other.id ≠ 0 then other.id else test.id } := by
    rw [foldlM_ite]
    split <;> rfl
  have hhp (test : TestMsg) :
      (if other.hp ≠ 0 then [Wire.Field.varint 2 other.hp.toUInt64] else []).foldlM
          (apply recursionLimit utf8) test =
        some { test with hp := if other.hp ≠ 0 then other.hp else test.hp } := by
    have happly : apply recursionLimit utf8 test (.varint 2 other.hp.toUInt64) =
      some { test with hp := other.hp.toUInt64.toUInt32 } := rfl
    rw [foldlM_ite, happly, UInt32.toUInt32_toUInt64]
    split <;> rfl
  have hattack (test : TestMsg) :
      (if other.attack ≠ 0 then [Wire.Field.varint 3 other.attack.toUInt64] else []).foldlM
          (apply recursionLimit utf8) test =
        some { test with attack := if other.attack ≠ 0 then other.attack else test.attack } := by
    have happly : apply recursionLimit utf8 test (.varint 3 other.attack.toUInt64) =
      some { test with attack := other.attack.toUInt64.toUInt32 } := rfl
    rw [foldlM_ite, happly, UInt32.toUInt32_toUInt64]
    split <;> rfl
  have helements (test : TestMsg) :
      (other.buffs.map element).foldlM (apply recursionLimit utf8) test =
        some { test with buffs := test.buffs ++ other.buffs } :=
    foldlM_elements hreadable.buffs hsized.buffs test
  have hmsg (test : TestMsg) :
      (if other.msg ≠ [] then [Wire.Field.lengthDelimited 5 other.msg] else []).foldlM
          (apply recursionLimit utf8) test =
        some { test with msg := if other.msg ≠ [] then other.msg else test.msg } := by
    have happly : apply recursionLimit utf8 test (.lengthDelimited 5 other.msg) =
      if utf8 other.msg then some { test with msg := other.msg } else none := rfl
    rw [foldlM_ite, happly]
    split
    next hne => rw [if_pos (hreadable.msg hne)]
    next => rfl
  rw [fields, List.foldlM_append, List.foldlM_append, List.foldlM_append, List.foldlM_append,
    List.foldlM_append]
  simp only [hid, hhp, hattack, helements, hmsg, Option.bind_eq_bind, Option.bind_some]
  exact foldlM_unknown (fun field hfield => (hreadable.unknownFields field hfield).2) _

theorem mergeFrom_new (test : TestMsg) : ({} : TestMsg).mergeFrom test = test := by
  have hdefault {α : Type} [DecidableEq α] (value default : α) :
      (if value ≠ default then value else default) = value := by
    by_cases h : value = default
    · rw [if_neg (not_not_intro h), h]
    · exact if_pos h
  rw [mergeFrom, hdefault, hdefault, hdefault, hdefault]
  rfl

/-- What the serializer writes are the fields of the message, as many bytes as
`ByteSizeLong` has announced. -/
theorem appendToString_eq (hreadable : other.Readable utf8)
    (h : other.appendToString = some bytes) :
    bytes = writeFields other.fields ∧ bytes.length = other.byteSizeLong := by
  rw [appendToString, Option.ite_none_left_eq_some, Option.some.injEq] at h
  obtain ⟨hsize, rfl⟩ := h
  have hbuffs : ∀ buff ∈ other.buffs, ∀ field ∈ buff.unknownFields, field.Valid 99 :=
    fun buff hbuff field hfield => (hreadable.buffs buff hbuff field hfield).1
  have hunknown : ∀ field ∈ other.unknownFields, field.Valid recursionLimit :=
    fun field hfield => (hreadable.unknownFields field hfield).1
  have hbytes := internalSerialize_eq hbuffs hunknown (by omega)
  exact ⟨hbytes, hbytes ▸ (byteSizeLong_eq hbuffs hunknown (by omega)).symm⟩

/-- A field that a reader returns leaves a message that can be read. -/
theorem apply_keeps {field : UnknownField} (hfield : field.Valid recursionLimit)
    (h : test.Readable utf8) (happly : apply recursionLimit utf8 test field = some other) :
    other.Readable utf8 := by
  by_cases hknown : field.tag ∈ knownTags
  · simp only [knownTags, List.mem_cons, List.not_mem_nil, or_false] at hknown
    obtain htag | htag | htag | htag | htag := hknown
    · obtain ⟨value, rfl⟩ := Wire.varint_of_tag 1 htag
      cases happly
      exact ⟨h.buffs, h.msg, h.unknownFields⟩
    · obtain ⟨value, rfl⟩ := Wire.varint_of_tag 2 htag
      cases happly
      exact ⟨h.buffs, h.msg, h.unknownFields⟩
    · obtain ⟨value, rfl⟩ := Wire.varint_of_tag 3 htag
      cases happly
      exact ⟨h.buffs, h.msg, h.unknownFields⟩
    · obtain ⟨value, rfl⟩ := Wire.lengthDelimited_of_tag 4 htag
      obtain ⟨buff, hbuff, heq⟩ := Option.map_eq_some_iff.mp happly
      cases heq
      have hreadable : buff.ReadableUnknown 99 := BuffData.readable_of_ofBytes hbuff
      exact ⟨List.forall_mem_append.mpr ⟨h.buffs, List.forall_mem_singleton.mpr hreadable⟩, h.msg,
        h.unknownFields⟩
    · obtain ⟨value, rfl⟩ := Wire.lengthDelimited_of_tag 5 htag
      obtain ⟨hutf8, heq⟩ := Option.ite_none_right_eq_some.mp happly
      cases heq
      exact ⟨h.buffs, fun _ => hutf8, h.unknownFields⟩
  · have htag := hknown
    simp only [knownTags, List.mem_cons, List.not_mem_nil, or_false, not_or] at htag
    rw [apply_unknown htag.1 htag.2.1 htag.2.2.1 htag.2.2.2.1 htag.2.2.2.2] at happly
    cases happly
    exact ⟨h.buffs, h.msg, List.forall_mem_append.mpr
      ⟨h.unknownFields, List.forall_mem_singleton.mpr ⟨hfield, hknown⟩⟩⟩

theorem readable_new : ({} : TestMsg).Readable utf8 :=
  ⟨List.forall_mem_nil _, fun h => absurd rfl h, List.forall_mem_nil _⟩

theorem readable_of_mergeFromImpl (hreadable : test.Readable utf8)
    (h : mergeFromImpl ctx utf8 test = some other) : other.Readable utf8 := by
  rw [mergeFromImpl_eq] at h
  obtain ⟨fields, hfields, hfold⟩ := Option.bind_eq_some_iff.mp h
  have hvalid := Wire.valid_of_fieldsOf hfields
  exact foldlM_keeps (fun field hfield _ _ htest happly =>
    apply_keeps (hvalid field hfield) htest happly) hreadable hfold

theorem mergeFromImpl_serialized (hreadable : other.Readable utf8) (hsized : other.Sized)
    (hwrite : other.appendToString = some bytes) (hctx : ctx.bytes 0 ctx.size = bytes)
    (test : TestMsg) : mergeFromImpl ctx utf8 test = some (test.mergeFrom other) := by
  rw [mergeFromImpl_eq, hctx, (appendToString_eq hreadable hwrite).1, mergeBytes,
    Wire.fieldsOf_writeFields (valid_fields hreadable hsized), Option.bind_some,
    foldlM_fields hreadable hsized]

/-- The serializer writes exactly the bytes that were allocated for it, and they consist of
the fields of the message. -/
theorem appendToString_exact (hreadable : other.Readable utf8) (hsized : other.Sized)
    (hwrite : other.appendToString = some bytes) :
    bytes.length = other.byteSizeLong ∧
      Wire.fieldsOf recursionLimit bytes = some other.fields := by
  obtain ⟨hbytes, hlength⟩ := appendToString_eq hreadable hwrite
  refine ⟨hlength, ?_⟩
  rw [hbytes]
  exact Wire.fieldsOf_writeFields (valid_fields hreadable hsized)

/-- A message with one element and one unknown field. -/
def oneElement : TestMsg where
  id := 5
  buffs := [{ buffId := 7, victims := [1, 300] }]
  msg := [104, 105]
  unknownFields := [.fixed32 9 4]

theorem readable_oneElement : oneElement.Readable fun _ => true where
  buffs := List.forall_mem_singleton.mpr (List.forall_mem_nil _)
  msg _ := rfl
  unknownFields := List.forall_mem_singleton.mpr
    ⟨.fixed32 (validNumber (by omega) (by omega)) 4, by decide⟩

theorem sized_oneElement : oneElement.Sized where
  buffs := List.forall_mem_singleton.mpr (by decide)
  msg := by decide

theorem appendToString_oneElement : oneElement.appendToString = some oneElement.internalSerialize :=
  if_neg (by decide)

theorem appendToString_exact_oneElement :
    oneElement.internalSerialize.length = oneElement.byteSizeLong ∧
      Wire.fieldsOf recursionLimit oneElement.internalSerialize = some oneElement.fields :=
  appendToString_exact readable_oneElement sized_oneElement appendToString_oneElement

/-- Merging what was written is `MergeFrom`, and a new message becomes the one that was
written. -/
theorem appendToString_roundTrip (hreadable : other.Readable utf8) (hsized : other.Sized)
    (hwrite : other.appendToString = some bytes) (hctx : ctx.bytes 0 ctx.size = bytes)
    (test : TestMsg) :
    mergeFromImpl ctx utf8 test = some (test.mergeFrom other) ∧
      parseFromArray ctx utf8 = some other := by
  refine ⟨mergeFromImpl_serialized hreadable hsized hwrite hctx test, ?_⟩
  rw [parseFromArray, mergeFromImpl_serialized hreadable hsized hwrite hctx {}, mergeFrom_new]

theorem appendToString_roundTrip_oneElement :
    mergeFromImpl (.ofArray oneElement.internalSerialize (by decide +kernel)) (fun _ => true)
        { hp := 3 } = some (({ hp := 3 } : TestMsg).mergeFrom oneElement) ∧
      parseFromArray (.ofArray oneElement.internalSerialize (by decide +kernel)) (fun _ => true) =
        some oneElement :=
  appendToString_roundTrip readable_oneElement sized_oneElement appendToString_oneElement
    (ParseContext.bytes_ofArray _ _) { hp := 3 }

/-- A message that was parsed, whatever its bytes were, is well formed, and what is written
for it parses to the same message. -/
theorem parseFromArray_stable (hparse : parseFromArray ctx utf8 = some test) :
    test.Readable utf8 ∧ ∀ {bytes : List UInt8} {ctx' : ParseContext}, test.Sized →
      test.appendToString = some bytes → ctx'.bytes 0 ctx'.size = bytes →
        parseFromArray ctx' utf8 = some test := by
  have hreadable := readable_of_mergeFromImpl readable_new hparse
  refine ⟨hreadable, fun hsized hwrite hctx => ?_⟩
  rw [parseFromArray, mergeFromImpl_serialized hreadable hsized hwrite hctx {}, mergeFrom_new]

/-- Two victims that are not packed are written packed from then on. -/
theorem parseFromArray_stable_unpacked :
    ({ buffs := [{ victims := [1, 2] }] } : TestMsg).Readable (fun _ => true) ∧
      parseFromArray
          (.ofArray ({ buffs := [{ victims := [1, 2] }] } : TestMsg).internalSerialize
            (by decide +kernel))
          (fun _ => true) = some { buffs := [{ victims := [1, 2] }] } := by
  have hparse : parseFromArray (.ofArray [34, 4, 24, 1, 24, 2] (by decide)) (fun _ => true) =
      some { buffs := [{ victims := [1, 2] }] } := rfl
  have hsized : ({ buffs := [{ victims := [1, 2] }] } : TestMsg).Sized :=
    ⟨List.forall_mem_singleton.mpr (by decide), by decide⟩
  obtain ⟨hreadable, hstable⟩ := parseFromArray_stable hparse
  exact ⟨hreadable, hstable hsized (if_neg (by decide)) (ParseContext.bytes_ofArray _ _)⟩

end TestMsg

end Protocol

end ServerCore
