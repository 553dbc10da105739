import ServerCore.Protocol.Within

/-!
# Loops over fields

`mergeFields` is what the fields of some bytes make of a message, when `apply` is the
effect of one field. A loop of the parser does the same within its limit, if its switch
does for each tag what reading the field, applying it and going on with the bytes behind
it does (`Simulates`); a switch may take several fields at once. The loop over the fields
of a group is the first instance: its message is a list of unknown fields.
-/

namespace ServerCore

namespace Protocol

variable {M : Type}

/-- The message after the fields of some bytes, with the tag that ended them. -/
def mergeFields (depth : ℕ) (apply : M → UnknownField → Option M) (msg : M)
    (bytes : List UInt8) : Option ((M × Option ℕ) × List UInt8) :=
  (Wire.readFields depth bytes).bind fun ((fields, last), rest) =>
    (fields.foldlM apply msg).map fun msg => ((msg, last), rest)

/-- The message after the field behind a tag and the fields that follow it. -/
def mergeField (depth : ℕ) (apply : M → UnknownField → Option M) (tag : ℕ) (msg : M)
    (bytes : List UInt8) : Option ((M × Option ℕ) × List UInt8) :=
  (Wire.readField (Wire.readGroup depth) tag bytes).bind fun (field, rest) =>
    (apply msg field).bind fun msg => mergeFields depth apply msg rest

/-- The message that some bytes make of a message, up to their end. -/
def mergeBytes (depth : ℕ) (apply : M → UnknownField → Option M) (msg : M)
    (bytes : List UInt8) : Option M :=
  (Wire.fieldsOf depth bytes).bind fun fields => fields.foldlM apply msg

/-- The tag of `last_tag_minus_1_`, which is 0 where a limit ended the loop. -/
def lastTag (lastTagMinus1 : UInt32) : Option ℕ :=
  if lastTagMinus1 = 0 then none else some (lastTagMinus1 + 1).toNat

variable {depth tag limit p q : ℕ} {apply : M → UnknownField → Option M} {msg : M}
  {bytes rest : List UInt8}

theorem mergeFields_of_no_tag (hbytes : bytes ≠ []) (h : Wire.readTag bytes = none) :
    mergeFields depth apply msg bytes = none := by
  rw [mergeFields, Wire.readFields_of_no_tag hbytes h, Option.bind_none]

/-- The first tag ends the fields, or the field behind it is applied first. -/
theorem mergeFields_of_readTag (h : Wire.readTag bytes = some (tag, rest)) :
    mergeFields depth apply msg bytes =
      if tag = 0 ∨ tag % 8 = 4 then some ((msg, some tag), rest)
      else mergeField depth apply tag msg rest := by
  rw [mergeFields, Wire.readFields_of_readTag h]
  split
  · rfl
  · rw [mergeField, Option.bind_assoc]
    refine Option.bind_congr fun result _ => ?_
    obtain ⟨field, rest'⟩ := result
    dsimp only
    cases hread : Wire.readFields depth rest' with
    | none => cases apply msg field <;> simp only [Option.map_none, Option.bind_none,
        Option.bind_some, mergeFields, hread]
    | some result =>
        obtain ⟨⟨fields, last⟩, tail⟩ := result
        rw [Option.map_some, Option.bind_some, Wire.prepend]
        dsimp only
        rw [List.singleton_append, List.foldlM_cons]
        cases apply msg field with
        | none => rfl
        | some msg => rw [Option.bind_eq_bind, Option.bind_some, Option.bind_some, mergeFields,
            hread, Option.bind_some]

/-- Steps that each collect one value collect all of them. -/
theorem foldlM_collects {α : Type} {step : M → α → Option M} (collect : M → List α → M)
    (hnil : ∀ msg, collect msg [] = msg)
    (hcons : ∀ msg a values, collect (collect msg [a]) values = collect msg (a :: values))
    {values : List α} (hstep : ∀ a ∈ values, ∀ msg, step msg a = some (collect msg [a]))
    (msg : M) : values.foldlM step msg = some (collect msg values) := by
  induction values generalizing msg with
  | nil =>
      rw [hnil]
      rfl
  | cons a values ih =>
      rw [List.forall_mem_cons] at hstep
      rw [List.foldlM_cons, hstep.1, Option.bind_eq_bind, Option.bind_some, ih hstep.2, hcons]

/-- A loop that no tag ended has read the fields of its bytes. -/
theorem mergeBytes_eq :
    mergeBytes depth apply msg bytes =
      (mergeFields depth apply msg bytes).bind fun ((msg, last), _) =>
        if last = none then some msg else none := by
  rw [mergeBytes, mergeFields, Wire.fieldsOf, Option.bind_assoc, Option.bind_assoc]
  refine Option.bind_congr fun result _ => ?_
  obtain ⟨⟨fields, last⟩, rest⟩ := result
  dsimp only
  cases last with
  | none =>
      rw [if_pos rfl, Option.bind_some, Option.bind_map]
      cases fields.foldlM apply msg <;> rfl
  | some tag =>
      rw [if_neg (Option.some_ne_none tag), Option.bind_none, Option.bind_map]
      cases fields.foldlM apply msg <;> rfl

namespace ParseContext

variable {ctx : ParseContext} {field : UInt32 → M → ℕ → Option (M × ℕ)}

/-- The switch does for every tag that ends no message what the fields do. -/
structure Simulates (ctx : ParseContext) (limit depth : ℕ) (apply : M → UnknownField → Option M)
    (field : UInt32 → M → ℕ → Option (M × ℕ)) : Prop where
  advances : ∀ {tag msg p msg' q}, field tag msg p = some (msg', q) → p ≤ q
  agrees : ∀ {tag : UInt32} (msg : M) {p : ℕ}, p ≤ limit → ¬(tag = 0 ∨ tag &&& 7 = 4) →
    mergeField depth apply tag.toNat msg (ctx.bytes p limit) =
      (ctx.within limit (field tag msg p)).bind fun (msg, rest) =>
        mergeFields depth apply msg rest

/-- A field that is read alone. -/
theorem mergeField_of_within {result : Option (M × ℕ)}
    (h : ctx.within limit result =
      (Wire.readField (Wire.readGroup depth) tag bytes).bind
        fun (field, rest) => (apply msg field).map fun msg => (msg, rest)) :
    mergeField depth apply tag msg bytes =
      (ctx.within limit result).bind fun (msg, rest) => mergeFields depth apply msg rest := by
  rw [h, mergeField, Option.bind_assoc]
  refine Option.bind_congr fun result _ => ?_
  rw [Option.bind_map]
  rfl

theorem ends_iff (tag : UInt32) :
    (tag = 0 ∨ tag &&& 7 = 4) ↔ (tag.toNat = 0 ∨ tag.toNat % 8 = 4) := by
  have hand : (tag &&& 7).toNat = tag.toNat % 8 := by
    rw [UInt32.toNat_and]
    exact Nat.and_two_pow_sub_one_eq_mod tag.toNat 3
  rw [← UInt32.toNat_inj, ← UInt32.toNat_inj, hand]
  rfl

theorem lastTag_of_ends {tag : UInt32} (h : tag = 0 ∨ tag &&& 7 = 4) :
    lastTag (tag - 1) = some tag.toNat := by
  have hne : tag - 1 ≠ 0 := by
    intro hzero
    obtain rfl : tag = 1 := by grind
    exact absurd h (by decide)
  have hback : tag - 1 + 1 = tag := by grind
  rw [lastTag, if_neg hne, hback]

/-- Behind its limit a loop fails. -/
theorem parseLoop_of_lt {fuel : ℕ} (h : limit < p) :
    ctx.parseLoop limit field fuel msg p = none := by
  cases fuel with
  | zero => rfl
  | succ fuel =>
      have hdone : ctx.done limit p = .exceeded := by
        rw [done, if_neg (by omega), if_pos h]
      rw [parseLoop, hdone]

/-- One round of a loop of the parser is one round over the fields. -/
theorem parseLoop_agrees (hfield : Simulates ctx limit depth apply field)
    (hlimit : limit ≤ ctx.size) {fuel : ℕ} (msg : M) (hp : p ≤ limit) (hfuel : limit - p < fuel) :
    mergeFields depth apply msg (ctx.bytes p limit) =
      (ctx.within limit (ctx.parseLoop limit field fuel msg p)).map
        fun ((msg, lastTagMinus1), rest) => ((msg, lastTag lastTagMinus1), rest) := by
  induction fuel generalizing msg p with
  | zero => omega
  | succ fuel ih =>
      rw [parseLoop]
      by_cases hend : p = limit
      · have hdone : ctx.done limit p = .ended 0 := by
          rw [done, if_pos hend, if_neg (by omega)]
        rw [hdone, hend, bytes_of_le (Nat.le_refl _)]
        dsimp only
        rw [within_some_of_le (Nat.le_refl _), bytes_of_le (Nat.le_refl _)]
        rfl
      · have hdone : ctx.done limit p = .more := by
          rw [done, if_neg hend, if_neg (by omega), if_pos (by omega)]
        have hne : ctx.bytes p limit ≠ [] := by
          rw [bytes_of_lt (by omega)]
          exact List.cons_ne_nil _ _
        have htag := @within_readTag ctx limit p
        rw [hdone]
        dsimp only
        cases hread : ctx.readTag p with
        | none =>
            rw [hread] at htag
            rw [mergeFields_of_no_tag hne htag.symm]
            rfl
        | some result =>
            obtain ⟨tag, q⟩ := result
            have hq := readTag_advances hread
            rw [hread] at htag
            rw [Option.bind_some]
            dsimp only
            by_cases hle : q ≤ limit
            · rw [within_some_of_le hle, Option.map_some] at htag
              rw [mergeFields_of_readTag htag.symm]
              by_cases hstop : tag = 0 ∨ tag &&& 7 = 4
              · rw [if_pos ((ends_iff tag).mp hstop), if_pos hstop, within_some_of_le hle,
                  Option.map_some, lastTag_of_ends hstop]
              · rw [if_neg (mt (ends_iff tag).mpr hstop), if_neg hstop,
                  hfield.agrees msg hle hstop]
                cases hnext : field tag msg q with
                | none => rfl
                | some next =>
                    obtain ⟨msg', q'⟩ := next
                    have hq' := hfield.advances hnext
                    rw [Option.bind_some]
                    dsimp only
                    by_cases hle' : q' ≤ limit
                    · rw [within_some_of_le hle', Option.bind_some]
                      exact ih msg' hle' (by omega)
                    · rw [within_some_of_lt (by omega), parseLoop_of_lt (by omega)]
                      rfl
            · rw [within_some_of_lt (by omega)] at htag
              rw [mergeFields_of_no_tag hne htag.symm]
              by_cases hstop : tag = 0 ∨ tag &&& 7 = 4
              · rw [if_pos hstop, within_some_of_lt (by omega), Option.map_none]
              · rw [if_neg hstop]
                cases hnext : field tag msg q with
                | none => rfl
                | some next =>
                    obtain ⟨msg', q'⟩ := next
                    have hq' := hfield.advances hnext
                    rw [Option.bind_some]
                    dsimp only
                    rw [parseLoop_of_lt (by omega)]
                    rfl

theorem internalParse_agrees (hfield : Simulates ctx limit depth apply field)
    (hlimit : limit ≤ ctx.size) (msg : M) (hp : p ≤ limit) :
    mergeFields depth apply msg (ctx.bytes p limit) =
      (ctx.within limit (ctx.internalParse limit field msg p)).map
        fun ((msg, lastTagMinus1), rest) => ((msg, lastTag lastTagMinus1), rest) :=
  parseLoop_agrees hfield hlimit msg hp (Nat.lt_succ_self _)

theorem parseLoop_advances
    (hadvances : ∀ {tag msg p msg' q}, field tag msg p = some (msg', q) → p ≤ q)
    {fuel : ℕ} {msg : M} {result : M × UInt32}
    (h : ctx.parseLoop limit field fuel msg p = some (result, q)) : p ≤ q := by
  induction fuel generalizing msg p with
  | zero => cases h
  | succ fuel ih =>
      rw [parseLoop] at h
      cases hdone : ctx.done limit p with
      | exceeded =>
          rw [hdone] at h
          cases h
      | ended lastTagMinus1 =>
          rw [hdone] at h
          cases h
          exact Nat.le_refl _
      | more =>
          rw [hdone] at h
          obtain ⟨⟨tag, q'⟩, htag, h⟩ := Option.bind_eq_some_iff.mp h
          have hq' := readTag_advances htag
          dsimp only at h
          split at h
          · cases h
            omega
          · obtain ⟨⟨msg', q''⟩, hnext, h⟩ := Option.bind_eq_some_iff.mp h
            have hq'' := hadvances hnext
            have := ih h
            omega

/-- A loop that ends with 0 has come to its limit. -/
theorem parseLoop_ended {fuel : ℕ} {msg msg' : M}
    (h : ctx.parseLoop limit field fuel msg p = some ((msg', 0), q)) : q = limit := by
  induction fuel generalizing msg p with
  | zero => cases h
  | succ fuel ih =>
      rw [parseLoop] at h
      cases hdone : ctx.done limit p with
      | exceeded =>
          rw [hdone] at h
          cases h
      | ended lastTagMinus1 =>
          rw [hdone] at h
          cases h
          rw [done] at hdone
          grind
      | more =>
          rw [hdone] at h
          obtain ⟨⟨tag, q'⟩, htag, h⟩ := Option.bind_eq_some_iff.mp h
          dsimp only at h
          split at h
          next hstop =>
            have hlast := lastTag_of_ends hstop
            simp only [Option.some.injEq, Prod.mk.injEq] at h
            rw [h.1.2] at hlast
            cases hlast
          next =>
            obtain ⟨⟨msg'', q''⟩, hnext, h⟩ := Option.bind_eq_some_iff.mp h
            exact ih h

/-- A parse that has to end at its limit makes what its bytes make. -/
theorem internalParse_ended (hfield : Simulates ctx limit depth apply field)
    (hlimit : limit ≤ ctx.size) (msg : M) (hp : p ≤ limit) :
    ((ctx.internalParse limit field msg p).bind fun ((msg, lastTagMinus1), _) =>
        if lastTagMinus1 = 0 then some msg else none) =
      mergeBytes depth apply msg (ctx.bytes p limit) := by
  rw [mergeBytes_eq, internalParse_agrees hfield hlimit msg hp]
  cases hloop : ctx.internalParse limit field msg p with
  | none => rfl
  | some result =>
      obtain ⟨⟨msg', lastTagMinus1⟩, q⟩ := result
      rw [Option.bind_some]
      dsimp only
      by_cases hzero : lastTagMinus1 = 0
      · obtain rfl := hzero
        rw [parseLoop_ended hloop, within_some_of_le (Nat.le_refl _)]
        rfl
      · have hlast : lastTag lastTagMinus1 ≠ none := by
          rw [lastTag, if_neg hzero]
          exact Option.some_ne_none _
        rw [if_neg hzero]
        by_cases hq : q ≤ limit
        · rw [within_some_of_le hq, Option.map_some, Option.bind_some]
          exact (if_neg hlast).symm
        · rw [within_some_of_lt (by omega)]
          rfl

/-! ## Unknown fields -/

variable {group : ℕ → ℕ → Option (List UnknownField × ℕ)}

theorem tag_number (tag : UInt32) : (tag >>> 3).toNat = tag.toNat / 8 := by
  rw [UInt32.toNat_shiftRight]
  exact Nat.shiftRight_eq_div_pow _ _

theorem tag_type (tag : UInt32) : (tag &&& 7).toNat = tag.toNat % 8 := by
  rw [UInt32.toNat_and]
  exact Nat.and_two_pow_sub_one_eq_mod tag.toNat 3

/-- The second test of a switch is of the low byte of the tag. -/
theorem tag_iff (tag : UInt32) (number type : ℕ) (hnumber : number < 16) (htype : type < 8) :
    (tag >>> 3 = UInt32.ofNat number ∧ tag.toUInt8 = UInt8.ofNat (number * 8 + type)) ↔
      tag.toNat = number * 8 + type := by
  rw [← UInt32.toNat_inj, ← UInt8.toNat_inj, tag_number, UInt32.toNat_ofNat', UInt32.toNat_toUInt8,
    UInt8.toNat_ofNat']
  omega

/-- A field after its tag, if groups agree. -/
theorem within_fieldParser (hlimit : limit ≤ ctx.size)
    (hgroup : ∀ number p, number < 536870912 → p ≤ limit →
      ctx.within limit (group number p) = Wire.readGroup depth number (ctx.bytes p limit))
    (tag : UInt32) (hp : p ≤ limit) :
    ctx.within limit (ctx.fieldParser group tag p) =
      Wire.readField (Wire.readGroup depth) tag.toNat (ctx.bytes p limit) := by
  have htag := tag.toNat_lt
  rw [fieldParser, Wire.readField, tag_number, tag_type]
  dsimp only
  split
  · rfl
  · have htype : tag.toNat % 8 < 8 := Nat.mod_lt _ (by omega)
    generalize tag.toNat % 8 = type at htype ⊢
    obtain rfl | rfl | rfl | rfl | rfl | rfl | rfl | rfl :
        type = 0 ∨ type = 1 ∨ type = 2 ∨ type = 3 ∨ type = 4 ∨ type = 5 ∨ type = 6 ∨ type = 7 := by
      omega
    · refine (within_map (Wire.Field.varint (tag.toNat / 8)) _).trans ?_
      rw [within_readVarint64, Option.map_map]
      rfl
    · rw [← within_unalignedLoad 8 hp]
      exact within_map (fun value => Wire.Field.fixed64 (tag.toNat / 8) (UInt64.ofNat value))
        (some (ctx.unalignedLoad 8 p, p + 8))
    · refine (within_map (Wire.Field.lengthDelimited (tag.toNat / 8)) _).trans ?_
      rw [within_inlineGreedyStringParser hlimit]
      rfl
    · refine (within_map (Wire.Field.group (tag.toNat / 8)) _).trans ?_
      rw [hgroup _ _ (by omega) hp]
      rfl
    · rfl
    · rw [← within_unalignedLoad 4 hp]
      exact within_map (fun value => Wire.Field.fixed32 (tag.toNat / 8) (UInt32.ofNat value))
        (some (ctx.unalignedLoad 4 p, p + 4))
    · rfl
    · rfl

theorem fieldParser_advances
    (hgroup : ∀ {number p fields q}, group number p = some (fields, q) → p ≤ q) {tag : UInt32}
    {field : UnknownField} (h : ctx.fieldParser group tag p = some (field, q)) : p ≤ q := by
  rw [fieldParser, Option.ite_none_left_eq_some] at h
  obtain ⟨_, h⟩ := h
  split at h
  · obtain ⟨⟨value, q'⟩, hread, heq⟩ := Option.map_eq_some_iff.mp h
    cases heq
    exact Nat.le_of_lt (readVarint64_advances hread)
  · cases h
    omega
  · obtain ⟨⟨value, q'⟩, hread, heq⟩ := Option.map_eq_some_iff.mp h
    cases heq
    exact inlineGreedyStringParser_advances hread
  · obtain ⟨⟨value, q'⟩, hread, heq⟩ := Option.map_eq_some_iff.mp h
    cases heq
    exact hgroup hread
  · cases h
    omega
  · cases h

/-- The effect of a field on a list of unknown fields. -/
def addUnknown (fields : List UnknownField) (field : UnknownField) : Option (List UnknownField) :=
  some (fields ++ [field])

theorem foldlM_addUnknown (fields more : List UnknownField) :
    more.foldlM addUnknown fields = some (fields ++ more) :=
  foldlM_collects (· ++ ·) List.append_nil (fun _ _ _ => List.append_assoc _ _ _)
    (fun _ _ _ => rfl) fields

theorem mergeFields_addUnknown (bytes : List UInt8) :
    mergeFields depth addUnknown [] bytes = Wire.readFields depth bytes := by
  rw [mergeFields]
  cases Wire.readFields depth bytes with
  | none => rfl
  | some result =>
      obtain ⟨⟨fields, last⟩, rest⟩ := result
      rw [Option.bind_some]
      dsimp only
      rw [foldlM_addUnknown, List.nil_append, Option.map_some]

theorem simulates_unknownField (hlimit : limit ≤ ctx.size)
    (hgroup : ∀ number p, number < 536870912 → p ≤ limit →
      ctx.within limit (group number p) = Wire.readGroup depth number (ctx.bytes p limit))
    (hadvances : ∀ {number p fields q}, group number p = some (fields, q) → p ≤ q) :
    Simulates ctx limit depth addUnknown (ctx.unknownField group) where
  advances {tag fields p fields' q} h := by
    obtain ⟨⟨field, q'⟩, hread, heq⟩ := Option.map_eq_some_iff.mp h
    cases heq
    exact fieldParser_advances hadvances hread
  agrees {tag} fields p hp _ := by
    rw [unknownField, within_map (fun field => fields ++ [field]),
      within_fieldParser hlimit hgroup tag hp, mergeField, Option.bind_map]
    rfl

theorem parseGroup_advances {number : ℕ} {fields : List UnknownField}
    (h : ctx.parseGroup limit depth number p = some (fields, q)) : p ≤ q := by
  induction depth generalizing number p fields q with
  | zero => cases h
  | succ depth ih =>
      obtain ⟨⟨⟨fields', lastTagMinus1⟩, q'⟩, hloop, hlast⟩ := Option.bind_eq_some_iff.mp h
      simp only [Option.ite_none_right_eq_some, Option.some.injEq, Prod.mk.injEq] at hlast
      rw [← hlast.2.2]
      refine parseLoop_advances (fun {tag fields p fields' q} hnext => ?_) hloop
      obtain ⟨⟨field, q''⟩, hread, heq⟩ := Option.map_eq_some_iff.mp hnext
      cases heq
      exact fieldParser_advances ih hread

theorem lastTag_eq_end {number : ℕ} (hnumber : number < 536870912) (lastTagMinus1 : UInt32) :
    lastTag lastTagMinus1 = some (number * 8 + 4) ↔
      lastTagMinus1 = UInt32.ofNat (number * 8 + 3) := by
  rw [lastTag, Option.ite_none_left_eq_some, Option.some.injEq]
  constructor
  · rintro ⟨_, h⟩
    have hback : lastTagMinus1 = UInt32.ofNat (lastTagMinus1 + 1).toNat - 1 := by
      rw [UInt32.ofNat_toNat]
      grind
    rw [hback, h, show number * 8 + 4 = number * 8 + 3 + 1 by omega, UInt32.ofNat_add]
    grind
  · rintro rfl
    have hnext : (UInt32.ofNat (number * 8 + 3) + 1).toNat = number * 8 + 4 := by
      rw [UInt32.toNat_add, UInt32.toNat_ofNat']
      have : (1 : UInt32).toNat = 1 := rfl
      omega
    refine ⟨fun hzero => ?_, hnext⟩
    rw [hzero] at hnext
    have : (0 + 1 : UInt32).toNat = 1 := rfl
    omega

/-- A group is read as deep as the depth allows, up to the end tag of its number. -/
theorem within_parseGroup (hlimit : limit ≤ ctx.size) (depth number p : ℕ)
    (hnumber : number < 536870912) (hp : p ≤ limit) :
    ctx.within limit (ctx.parseGroup limit depth number p) =
      Wire.readGroup depth number (ctx.bytes p limit) := by
  induction depth generalizing number p with
  | zero => rfl
  | succ depth ih =>
      have hloop := internalParse_agrees
        (simulates_unknownField hlimit (fun number p hnumber hp => ih number p hnumber hp)
          parseGroup_advances) hlimit [] hp
      rw [mergeFields_addUnknown] at hloop
      rw [parseGroup, Wire.readGroup, ← Wire.readFields, hloop]
      cases ctx.internalParse limit (ctx.unknownField (ctx.parseGroup limit depth)) [] p with
      | none => rfl
      | some result =>
          obtain ⟨⟨fields, lastTagMinus1⟩, q⟩ := result
          rw [Option.bind_some]
          dsimp only
          by_cases hq : q ≤ limit
          · rw [within_some_of_le hq, Option.map_some, Option.bind_some]
            simp only [lastTag_eq_end hnumber]
            split
            · exact within_some_of_le hq
            · rfl
          · rw [within_some_of_lt (by omega), Option.map_none, Option.bind_none]
            split
            · exact within_some_of_lt (by omega)
            · rfl

/-- What `UnknownFieldParse` adds to the unknown fields of a message is the field. -/
theorem within_unknownFieldParse (hlimit : limit ≤ ctx.size) (tag : UInt32)
    (fields : List UnknownField) (hp : p ≤ limit) :
    ctx.within limit (ctx.unknownFieldParse limit depth tag fields p) =
      (Wire.readField (Wire.readGroup depth) tag.toNat (ctx.bytes p limit)).map
        fun (field, rest) => (fields ++ [field], rest) := by
  rw [unknownFieldParse, unknownField, within_map (fun field => fields ++ [field]),
    within_fieldParser hlimit (within_parseGroup hlimit depth) tag hp]

/-- The switch of a message hands a field on that it does not know. -/
theorem within_keepUnknown (hlimit : limit ≤ ctx.size) {tag : UInt32} (hp : p ≤ limit)
    (unknownFields : List UnknownField) (keep : List UnknownField → M)
    (happly : ∀ field : UnknownField, field.tag = tag.toNat →
      apply msg field = some (keep (unknownFields ++ [field]))) :
    ctx.within limit ((ctx.unknownFieldParse limit depth tag unknownFields p).map
        fun (unknownFields, p) => (keep unknownFields, p)) =
      (Wire.readField (Wire.readGroup depth) tag.toNat (ctx.bytes p limit)).bind
        fun (field, rest) => (apply msg field).map fun msg => (msg, rest) := by
  rw [within_map keep, within_unknownFieldParse hlimit tag _ hp, Option.map_map]
  cases hread : Wire.readField (Wire.readGroup depth) tag.toNat (ctx.bytes p limit) with
  | none => rfl
  | some result =>
      obtain ⟨field, rest⟩ := result
      rw [Option.bind_some]
      dsimp only
      rw [happly field (Wire.tag_of_readField hread)]
      rfl

theorem unknownFieldParse_advances {tag : UInt32} {fields fields' : List UnknownField}
    (h : ctx.unknownFieldParse limit depth tag fields p = some (fields', q)) : p ≤ q := by
  obtain ⟨⟨field, q'⟩, hread, heq⟩ := Option.map_eq_some_iff.mp h
  cases heq
  exact fieldParser_advances parseGroup_advances hread

end ParseContext

end Protocol

end ServerCore
