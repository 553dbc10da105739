import ServerCore.Protocol.Loop
import ServerCore.Protocol.Message

/-!
# Parsing is applying fields

`BuffData.apply` and `TestMsg.apply` say what one field of each wire type does to a
message. A field whose number or wire type the message does not know is kept, so a
message with an unexpected wire type is accepted. The parser agrees with them: whatever
lies behind the array, and wherever the parser's buffers end, what it makes of a message
is what the fields of the array's bytes make of it, one after the other.
-/

namespace ServerCore

namespace Protocol

open ParseContext

variable {ctx : ParseContext} {utf8 : List UInt8 → Bool} {depth limit p q : ℕ}

/-- An array with zeros behind it. -/
def ParseContext.ofArray (bytes : List UInt8) (h : bytes.length ≤ intMax) : ParseContext where
  data p := bytes.getD p 0
  size := bytes.length
  size_le := h

theorem ParseContext.bytes_ofArray (bytes : List UInt8) (h : bytes.length ≤ intMax) :
    (ofArray bytes h).bytes 0 (ofArray bytes h).size = bytes := by
  have hslice (rest : List UInt8) (p : ℕ) (hrest : bytes.drop p = rest) :
      (ofArray bytes h).slice p rest.length = rest := by
    induction rest generalizing p with
    | nil => rfl
    | cons byte rest ih =>
        have hbyte : (ofArray bytes h).data p = byte := by
          have hhead := congrArg List.head? hrest
          rw [List.head?_drop] at hhead
          simp [ofArray, hhead]
        have htail : bytes.drop (p + 1) = rest := by
          rw [← List.tail_drop, hrest, List.tail_cons]
        rw [List.length_cons, slice, hbyte, ih (p + 1) htail]
  exact hslice bytes 0 rfl

/-! ## One element of `buffs` -/

namespace BuffData

/-- The effect of one field. -/
def apply (buff : BuffData) : UnknownField → Option BuffData
  | .varint 1 value => some { buff with buffId := value }
  | .fixed32 2 value => some { buff with remainTime := value }
  | .lengthDelimited 3 value =>
      (Wire.varintsOf value).map fun victims =>
        { buff with victims := buff.victims ++ victims.map UInt64.ofNat }
  | .varint 3 value => some { buff with victims := buff.victims ++ [value] }
  | field => some { buff with unknownFields := buff.unknownFields ++ [field] }

/-- The element that some bytes make, with `depth` levels of messages and groups left. -/
def ofBytes : ℕ → List UInt8 → Option BuffData
  | 0, _ => none
  | depth + 1, bytes => mergeBytes depth apply {} bytes

theorem apply_unknown {buff : BuffData} {field : UnknownField} (hbuffId : field.tag ≠ 8)
    (hremainTime : field.tag ≠ 21) (hpacked : field.tag ≠ 26) (hvictim : field.tag ≠ 24) :
    apply buff field = some { buff with unknownFields := buff.unknownFields ++ [field] } := by
  unfold apply
  split
  · exact absurd rfl hbuffId
  · exact absurd rfl hremainTime
  · exact absurd rfl hpacked
  · exact absurd rfl hvictim
  · rfl

theorem within_parseField (hlimit : limit ≤ ctx.size) (tag : UInt32) (buff : BuffData)
    (hp : p ≤ limit) :
    ctx.within limit (parseField ctx depth limit tag buff p) =
      (Wire.readField (Wire.readGroup depth) tag.toNat (ctx.bytes p limit)).bind
        fun (field, rest) => (apply buff field).map fun buff => (buff, rest) := by
  have hbuffId : (tag >>> 3 = 1 ∧ tag.toUInt8 = 8) ↔ tag.toNat = 8 :=
    tag_iff tag 1 0 (by omega) (by omega)
  have hremainTime : (tag >>> 3 = 2 ∧ tag.toUInt8 = 21) ↔ tag.toNat = 21 :=
    tag_iff tag 2 5 (by omega) (by omega)
  have hpacked : (tag >>> 3 = 3 ∧ tag.toUInt8 = 26) ↔ tag.toNat = 26 :=
    tag_iff tag 3 2 (by omega) (by omega)
  have hvictim : (tag >>> 3 = 3 ∧ tag.toUInt8 = 24) ↔ tag.toNat = 24 :=
    tag_iff tag 3 0 (by omega) (by omega)
  simp only [parseField, hbuffId, hremainTime, hpacked, hvictim]
  split
  next htag =>
    refine (within_map (fun value => { buff with buffId := value }) _).trans ?_
    rw [within_readVarint64, Wire.readField_varint (by omega) (by omega), htag]
    cases Wire.readVarint 10 (ctx.bytes p limit) <;> rfl
  next hbuffId =>
    split
    next htag =>
      refine (within_map (fun value => { buff with remainTime := UInt32.ofNat value })
        (some (ctx.unalignedLoad 4 p, p + 4))).trans ?_
      rw [within_unalignedLoad 4 hp, Wire.readField_fixed32 (by omega) (by omega), htag]
      cases Wire.readFixed 4 (ctx.bytes p limit) <;> rfl
    next hremainTime =>
      split
      next htag =>
        refine (within_map (fun victims => { buff with victims }) _).trans ?_
        rw [within_readPackedVarint, Wire.readField_lengthDelimited (by omega) (by omega), htag]
        cases Wire.readLengthDelimited (ctx.bytes p limit) with
        | none => rfl
        | some result =>
            obtain ⟨value, rest⟩ := result
            have happly : apply buff (.lengthDelimited (26 / 8) value) =
              (Wire.varintsOf value).map fun victims =>
                { buff with victims := buff.victims ++ victims.map UInt64.ofNat } := rfl
            rw [Option.map_some, Option.bind_some, Option.bind_some]
            dsimp only
            rw [happly, Option.map_map, Option.map_map, Option.map_map]
            rfl
      next hpacked =>
        split
        next htag =>
          refine (within_map (fun value => { buff with victims := buff.victims ++ [value] })
            _).trans ?_
          rw [within_readVarint64, Wire.readField_varint (by omega) (by omega), htag]
          cases Wire.readVarint 10 (ctx.bytes p limit) <;> rfl
        next hvictim =>
          refine within_keepUnknown hlimit hp buff.unknownFields
            (fun unknownFields => { buff with unknownFields }) fun field htag => ?_
          exact apply_unknown (htag ▸ hbuffId) (htag ▸ hremainTime) (htag ▸ hpacked)
            (htag ▸ hvictim)

theorem parseField_advances {tag : UInt32} {buff buff' : BuffData}
    (h : parseField ctx depth limit tag buff p = some (buff', q)) : p ≤ q := by
  unfold parseField at h
  split at h
  · obtain ⟨⟨value, q'⟩, hread, heq⟩ := Option.map_eq_some_iff.mp h
    cases heq
    exact Nat.le_of_lt (readVarint64_advances hread)
  · split at h
    · cases h
      omega
    · split at h
      · obtain ⟨⟨victims, q'⟩, hread, heq⟩ := Option.map_eq_some_iff.mp h
        cases heq
        exact readPackedVarint_advances hread
      · split at h
        · obtain ⟨⟨value, q'⟩, hread, heq⟩ := Option.map_eq_some_iff.mp h
          cases heq
          exact Nat.le_of_lt (readVarint64_advances hread)
        · obtain ⟨⟨unknownFields, q'⟩, hread, heq⟩ := Option.map_eq_some_iff.mp h
          cases heq
          exact unknownFieldParse_advances hread

theorem simulates_parseField (hlimit : limit ≤ ctx.size) :
    Simulates ctx limit depth apply (parseField ctx depth limit) where
  advances h := parseField_advances h
  agrees {tag} buff _ hp _ := mergeField_of_within (within_parseField hlimit tag buff hp)

/-- An element agrees below the limit of the message around it, which its own size may
exceed. -/
theorem within_parseMessage (hlimit : limit ≤ ctx.size) (depth p : ℕ) :
    ctx.within limit (parseMessage ctx depth p) =
      (Wire.readLengthDelimited (ctx.bytes p limit)).bind fun (value, rest) =>
        (ofBytes depth value).map fun buff => (buff, rest) := by
  cases depth with
  | zero =>
      simp only [parseMessage, ofBytes, Option.map_none]
      cases Wire.readLengthDelimited (ctx.bytes p limit) <;> rfl
  | succ depth =>
      refine within_sized
        (fun size q =>
          (internalParse ctx depth (q + size.toNat) {} q).bind fun result =>
            if result.1.2 = 0 then some (result.1.1, result.2) else none)
        (ofBytes (depth + 1)) ?_ ?_ p
      · intro size q buff q' h
        obtain ⟨⟨⟨buff', lastTagMinus1⟩, q''⟩, hloop, hlast⟩ := Option.bind_eq_some_iff.mp h
        simp only [Option.ite_none_right_eq_some, Option.some.injEq, Prod.mk.injEq] at hlast
        obtain ⟨rfl, rfl, rfl⟩ := hlast
        exact parseLoop_ended hloop
      · intro size q hq
        rw [ofBytes, ← internalParse_ended (simulates_parseField (by omega)) (by omega) {}
          (Nat.le_add_right q size.toNat), Option.map_bind]
        refine Option.bind_congr fun result _ => ?_
        dsimp only [Function.comp_apply]
        split <;> rfl

theorem parseMessage_advances {depth : ℕ} {buff : BuffData}
    (h : parseMessage ctx depth p = some (buff, q)) : p < q := by
  cases depth with
  | zero => cases h
  | succ depth =>
      obtain ⟨⟨size, q'⟩, hsize, h⟩ := Option.bind_eq_some_iff.mp h
      obtain ⟨⟨⟨buff', lastTagMinus1⟩, q''⟩, hloop, hlast⟩ := Option.bind_eq_some_iff.mp h
      simp only [Option.ite_none_right_eq_some, Option.some.injEq, Prod.mk.injEq] at hlast
      have := readSize_bounds hsize
      have := parseLoop_advances parseField_advances hloop
      omega

end BuffData

/-! ## The message -/

namespace TestMsg

/-- The effect of one field. -/
def apply (depth : ℕ) (utf8 : List UInt8 → Bool) (test : TestMsg) : UnknownField → Option TestMsg
  | .varint 1 value => some { test with id := value }
  | .varint 2 value => some { test with hp := value.toUInt32 }
  | .varint 3 value => some { test with attack := value.toUInt32 }
  | .lengthDelimited 4 value =>
      (BuffData.ofBytes depth value).map fun buff => { test with buffs := test.buffs ++ [buff] }
  | .lengthDelimited 5 value => if utf8 value then some { test with msg := value } else none
  | field => some { test with unknownFields := test.unknownFields ++ [field] }

theorem apply_unknown {test : TestMsg} {field : UnknownField} (hid : field.tag ≠ 8)
    (hhp : field.tag ≠ 16) (hattack : field.tag ≠ 24) (hbuffs : field.tag ≠ 34)
    (hmsg : field.tag ≠ 42) :
    apply depth utf8 test field =
      some { test with unknownFields := test.unknownFields ++ [field] } := by
  unfold apply
  split
  · exact absurd rfl hid
  · exact absurd rfl hhp
  · exact absurd rfl hattack
  · exact absurd rfl hbuffs
  · exact absurd rfl hmsg
  · rfl

/-- An element of `buffs` and what follows it. -/
theorem mergeField_buffs (hlimit : limit ≤ ctx.size) (test : TestMsg) (p : ℕ) :
    mergeField depth (apply depth utf8) 34 test (ctx.bytes p limit) =
      (ctx.within limit (BuffData.parseMessage ctx depth p)).bind fun (buff, rest) =>
        mergeFields depth (apply depth utf8) { test with buffs := test.buffs ++ [buff] } rest := by
  have happly (value : List UInt8) : apply depth utf8 test (.lengthDelimited (34 / 8) value) =
    (BuffData.ofBytes depth value).map fun buff =>
      { test with buffs := test.buffs ++ [buff] } := rfl
  rw [mergeField, Wire.readField_lengthDelimited (by omega) (by omega), Option.bind_map,
    BuffData.within_parseMessage hlimit, Option.bind_assoc]
  refine Option.bind_congr fun result _ => ?_
  dsimp only [Function.comp_apply]
  rw [happly, Option.bind_map, Option.bind_map]
  rfl

/-- The loop over `buffs` reads tags that the loop over fields would read. -/
theorem mergeField_parseBuffs (hlimit : limit ≤ ctx.size) {fuel : ℕ} (test : TestMsg)
    (hp : p ≤ limit) (hfuel : limit - p < fuel) :
    mergeField depth (apply depth utf8) 34 test (ctx.bytes p limit) =
      (ctx.within limit (parseBuffs ctx depth limit fuel test p)).bind fun (test, rest) =>
        mergeFields depth (apply depth utf8) test rest := by
  induction fuel generalizing test p with
  | zero => omega
  | succ fuel ih =>
      rw [mergeField_buffs hlimit, parseBuffs]
      cases hbuff : BuffData.parseMessage ctx depth p with
      | none => rfl
      | some result =>
          obtain ⟨buff, q⟩ := result
          have hq := BuffData.parseMessage_advances hbuff
          rw [Option.bind_some]
          dsimp only
          by_cases hle : q ≤ limit
          · rw [within_some_of_le hle, Option.bind_some]
            split
            · rw [within_some_of_le hle, Option.bind_some]
            next havailable =>
              split
              next htag =>
                have hlt : q < limit := by
                  rw [dataAvailable] at havailable
                  grind
                have hread : Wire.readTag (ctx.bytes q limit) =
                    some (34, ctx.bytes (q + 1) limit) := by
                  rw [bytes_of_lt hlt, htag]
                  rfl
                dsimp only
                rw [mergeFields_of_readTag hread, if_neg (by omega)]
                exact ih _ hlt (by omega)
              next => rw [within_some_of_le hle, Option.bind_some]
          · have havailable : ctx.dataAvailable limit q = false := by
              rw [dataAvailable]
              grind
            rw [if_pos havailable, within_some_of_lt (by omega), within_some_of_lt (by omega)]
            rfl

theorem parseBuffs_advances {fuel : ℕ} {test test' : TestMsg}
    (h : parseBuffs ctx depth limit fuel test p = some (test', q)) : p ≤ q := by
  induction fuel generalizing test p with
  | zero => cases h
  | succ fuel ih =>
      obtain ⟨⟨buff, q'⟩, hbuff, h⟩ := Option.bind_eq_some_iff.mp h
      have hq' := BuffData.parseMessage_advances hbuff
      dsimp only at h
      split at h
      · cases h
        omega
      · split at h
        · have := ih h
          omega
        · cases h
          omega

theorem parseField_advances {tag : UInt32} {test test' : TestMsg}
    (h : parseField ctx utf8 depth limit tag test p = some (test', q)) : p ≤ q := by
  unfold parseField at h
  split at h
  · obtain ⟨⟨value, q'⟩, hread, heq⟩ := Option.map_eq_some_iff.mp h
    cases heq
    exact Nat.le_of_lt (readVarint64_advances hread)
  · split at h
    · obtain ⟨⟨value, q'⟩, hread, heq⟩ := Option.map_eq_some_iff.mp h
      cases heq
      exact Nat.le_of_lt (readVarint32_advances hread)
    · split at h
      · obtain ⟨⟨value, q'⟩, hread, heq⟩ := Option.map_eq_some_iff.mp h
        cases heq
        exact Nat.le_of_lt (readVarint32_advances hread)
      · split at h
        · exact parseBuffs_advances h
        · split at h
          · obtain ⟨⟨msg, q'⟩, hread, h⟩ := Option.bind_eq_some_iff.mp h
            rw [Option.ite_none_right_eq_some] at h
            cases h.2
            exact inlineGreedyStringParser_advances hread
          · obtain ⟨⟨unknownFields, q'⟩, hread, heq⟩ := Option.map_eq_some_iff.mp h
            cases heq
            exact unknownFieldParse_advances hread

/-- Every field but the elements of `buffs` is read alone. -/
theorem within_parseField (hlimit : limit ≤ ctx.size) (tag : UInt32) (test : TestMsg)
    (hp : p ≤ limit) (hbuffs : tag.toNat ≠ 34) :
    ctx.within limit (parseField ctx utf8 depth limit tag test p) =
      (Wire.readField (Wire.readGroup depth) tag.toNat (ctx.bytes p limit)).bind
        fun (field, rest) => (apply depth utf8 test field).map fun test => (test, rest) := by
  have hid : (tag >>> 3 = 1 ∧ tag.toUInt8 = 8) ↔ tag.toNat = 8 :=
    tag_iff tag 1 0 (by omega) (by omega)
  have hhp : (tag >>> 3 = 2 ∧ tag.toUInt8 = 16) ↔ tag.toNat = 16 :=
    tag_iff tag 2 0 (by omega) (by omega)
  have hattack : (tag >>> 3 = 3 ∧ tag.toUInt8 = 24) ↔ tag.toNat = 24 :=
    tag_iff tag 3 0 (by omega) (by omega)
  have hbuffs' : (tag >>> 3 = 4 ∧ tag.toUInt8 = 34) ↔ tag.toNat = 34 :=
    tag_iff tag 4 2 (by omega) (by omega)
  have hmsg : (tag >>> 3 = 5 ∧ tag.toUInt8 = 42) ↔ tag.toNat = 42 :=
    tag_iff tag 5 2 (by omega) (by omega)
  simp only [parseField, hid, hhp, hattack, hbuffs', hmsg, if_neg hbuffs]
  split
  next htag =>
    refine (within_map (fun value => { test with id := value }) _).trans ?_
    rw [within_readVarint64, Wire.readField_varint (by omega) (by omega), htag]
    cases Wire.readVarint 10 (ctx.bytes p limit) <;> rfl
  next hid =>
    split
    next htag =>
      refine (within_map (fun value => { test with hp := value }) _).trans ?_
      rw [within_readVarint32, Wire.readField_varint (by omega) (by omega), htag]
      simp only [← UInt64.toUInt32_ofNat']
      cases Wire.readVarint 10 (ctx.bytes p limit) <;> rfl
    next hhp =>
      split
      next htag =>
        refine (within_map (fun value => { test with attack := value }) _).trans ?_
        rw [within_readVarint32, Wire.readField_varint (by omega) (by omega), htag]
        simp only [← UInt64.toUInt32_ofNat']
        cases Wire.readVarint 10 (ctx.bytes p limit) <;> rfl
      next hattack =>
        split
        next htag =>
          refine (within_bind
            (f := fun msg q => if utf8 msg then some ({ test with msg }, q) else none)
            (g := fun msg rest => if utf8 msg then some ({ test with msg }, rest) else none)
            ?_ ?_).trans ?_
          · intro msg q test' q' h
            rw [Option.ite_none_right_eq_some] at h
            cases h.2
            exact Nat.le_refl _
          · intro msg q _ hq
            split
            · exact within_some_of_le hq
            · rfl
          · rw [within_inlineGreedyStringParser hlimit,
              Wire.readField_lengthDelimited (by omega) (by omega), htag, Option.bind_map]
            refine Option.bind_congr fun result _ => ?_
            obtain ⟨msg, rest⟩ := result
            have happly : apply depth utf8 test (.lengthDelimited (42 / 8) msg) =
              if utf8 msg then some { test with msg } else none := rfl
            dsimp only [Function.comp_apply]
            rw [happly]
            split <;> rfl
        next hmsg =>
          refine within_keepUnknown hlimit hp test.unknownFields
            (fun unknownFields => { test with unknownFields }) fun field htag => ?_
          exact apply_unknown (htag ▸ hid) (htag ▸ hhp) (htag ▸ hattack) (htag ▸ hbuffs)
            (htag ▸ hmsg)

theorem simulates_parseField (hlimit : limit ≤ ctx.size) :
    Simulates ctx limit depth (apply depth utf8) (parseField ctx utf8 depth limit) where
  advances h := parseField_advances h
  agrees {tag} test p hp _ := by
    by_cases hbuffs : tag.toNat = 34
    · have htag : tag = 34 := UInt32.toNat_inj.mp hbuffs
      have hfield : parseField ctx utf8 depth limit tag test p =
          parseBuffs ctx depth limit (limit - p + 1) test p := by
        rw [htag]
        rfl
      rw [hbuffs, hfield]
      exact mergeField_parseBuffs hlimit test hp (Nat.lt_succ_self _)
    · exact mergeField_of_within (within_parseField hlimit tag test hp hbuffs)

theorem mergeFromImpl_eq (ctx : ParseContext) (utf8 : List UInt8 → Bool) (test : TestMsg) :
    mergeFromImpl ctx utf8 test =
      mergeBytes recursionLimit (apply recursionLimit utf8) test (ctx.bytes 0 ctx.size) :=
  internalParse_ended (simulates_parseField (Nat.le_refl _)) (Nat.le_refl _) test (Nat.zero_le _)

/-- What a parse makes of a message is what the fields of its array make of it. -/
theorem mergeFromImpl_appliesFields (ctx : ParseContext) (utf8 : List UInt8 → Bool)
    (test : TestMsg) :
    mergeFromImpl ctx utf8 test =
      (Wire.fieldsOf recursionLimit (ctx.bytes 0 ctx.size)).bind fun fields =>
        fields.foldlM (apply recursionLimit utf8) test := by
  rw [mergeFromImpl_eq]
  rfl

/-- A parse of an array is a parse of its front, and one of the rest into what that made. -/
theorem mergeFromImpl_append {whole front rest : ParseContext} {test test' : TestMsg}
    (hwhole : whole.bytes 0 whole.size = front.bytes 0 front.size ++ rest.bytes 0 rest.size)
    (hfront : mergeFromImpl front utf8 test = some test') :
    mergeFromImpl whole utf8 test = mergeFromImpl rest utf8 test' := by
  rw [mergeFromImpl_eq] at hfront
  obtain ⟨fields, hfields, happly⟩ := Option.bind_eq_some_iff.mp hfront
  rw [mergeFromImpl_eq, mergeFromImpl_eq, mergeBytes, hwhole, Wire.fieldsOf_append hfields,
    mergeBytes, Option.bind_map]
  refine Option.bind_congr fun more _ => ?_
  rw [Function.comp_apply, List.foldlM_append, happly]
  rfl

/-- The elements of `buffs` on both sides of the cut follow each other. -/
theorem mergeFromImpl_append_buffs :
    mergeFromImpl (.ofArray [8, 1, 34, 2, 8, 7, 34, 2, 8, 9] (by decide)) (fun _ => true) {} =
      mergeFromImpl (.ofArray [34, 2, 8, 9] (by decide)) (fun _ => true)
        { id := 1, buffs := [{ buffId := 7 }] } :=
  have hfront : mergeFromImpl (.ofArray [8, 1, 34, 2, 8, 7] (by decide)) (fun _ => true) {} =
      some { id := 1, buffs := [{ buffId := 7 }] } := rfl
  mergeFromImpl_append rfl hfront

end TestMsg

end Protocol

end ServerCore
