import ServerCore.Wire.Fields

/-!
# The parser's input

`ParseContext` parses a flat array. `data` is what its pointers see: the array, of `size`
bytes, and whatever lies behind its end. `ParseFromArray` takes its size as an `int`, and no
longer array is considered here, although `MergeFromString` accepts one. Readers do not look
for the end of the array or of a message. They may run past it, as far as `kSlopBytes`;
`Done` finds out before the next field. `limit` is the end of the innermost message, which a
size on the wire pushes and nobody compares with the limits outside. It is a position here;
that `limit_`, an `int` relative to a buffer, comes to the same is shown for
`EpsCopyInputStream`.

A pointer is a position in `data`, and a null pointer is `none`. The parser works through
a copy of the last bytes of the array; `inBuffer` says which positions it takes to be in
the buffer at hand. A parse ends with `last_tag_minus_1_`, which is 0 at a limit, 1 at
the end of the array, and one less than the tag at a tag that ends a message.
-/

namespace ServerCore

namespace Protocol

abbrev UnknownField := Wire.Field

/-- `INT_MAX`. -/
def intMax : ℕ := 2147483647

structure ParseContext where
  data : ℕ → UInt8
  size : ℕ
  size_le : size ≤ intMax
  inBuffer : ℕ → Bool := fun _ => true

def kSlopBytes : ℕ := 16

/-- `INT_MAX - kSlopBytes`. -/
def maxSize : UInt32 := 2147483631

/-- What `Done` finds: more bytes, the end with `last_tag_minus_1_`, or an error. -/
inductive Done where
  | more
  | ended (lastTagMinus1 : UInt32)
  | exceeded
  deriving DecidableEq, Repr

namespace ParseContext

variable (ctx : ParseContext)

/-- `DoneWithCheck` and `DoneFallback`. -/
def done (limit p : ℕ) : Done :=
  if p = limit then
    if ctx.size < p then .exceeded else .ended 0
  else if limit < p then .exceeded
  else if p < ctx.size then .more
  else if p = ctx.size then .ended 1
  else .exceeded

def dataAvailable (limit p : ℕ) : Bool := ctx.inBuffer p && decide (p < limit)

/-! ## Numbers -/

/-- The loop of the 32-bit readers over the bytes from index `i` on. `after` is what they
do when `n` bytes have not ended the number. -/
def accumulate32 (p : ℕ) (after : UInt32 → Option (UInt32 × ℕ)) :
    ℕ → ℕ → UInt32 → Option (UInt32 × ℕ)
  | 0, _, res => after res
  | n + 1, i, res =>
      let byte := (ctx.data (p + i)).toUInt32
      let res := res + (byte - 1) <<< UInt32.ofNat (7 * i)
      if byte < 128 then some (res, p + i + 1) else accumulate32 p after n (i + 1) res

/-- The loop of `VarintParseSlow32` over the bytes that no longer count. -/
def skipVarint (p : ℕ) : ℕ → ℕ → UInt32 → Option (UInt32 × ℕ)
  | 0, _, _ => none
  | n + 1, i, res =>
      if ctx.data (p + i) < 128 then some (res, p + i + 1) else skipVarint p n (i + 1) res

def varintParseSlow32 (p : ℕ) (res : UInt32) : Option (UInt32 × ℕ) :=
  ctx.accumulate32 p (ctx.skipVarint p 5 5) 3 2 res

def varintParseSlow64Loop (p : ℕ) : ℕ → ℕ → UInt64 → Option (UInt64 × ℕ)
  | 0, _, _ => none
  | n + 1, i, res =>
      let byte := (ctx.data (p + i)).toUInt64
      let res := res + (byte - 1) <<< UInt64.ofNat (7 * i)
      if byte < 128 then some (res, p + i + 1) else varintParseSlow64Loop p n (i + 1) res

def varintParseSlow64 (p : ℕ) (res : UInt32) : Option (UInt64 × ℕ) :=
  ctx.varintParseSlow64Loop p 8 2 res.toUInt64

def readTagFallback (p : ℕ) (res : UInt32) : Option (UInt32 × ℕ) :=
  ctx.accumulate32 p (fun _ => none) 3 2 res

/-- The fifth byte of a size. -/
def readSizeLast (p : ℕ) (res : UInt32) : Option (UInt32 × ℕ) :=
  let byte := (ctx.data (p + 4)).toUInt32
  if 8 ≤ byte then none
  else
    let res := res + (byte - 1) <<< 28
    if maxSize < res then none else some (res, p + 5)

def readSizeFallback (p : ℕ) (res : UInt32) : Option (UInt32 × ℕ) :=
  ctx.accumulate32 p (ctx.readSizeLast p) 3 1 res

/-- The first two bytes of `VarintParse` and `ReadTag`. A byte is below 128 where its bit 7
is not set. -/
def firstBytes {α : Type} (cast : UInt32 → α) (slow : UInt32 → Option (α × ℕ)) (p : ℕ) :
    Option (α × ℕ) :=
  let res := (ctx.data p).toUInt32
  if res < 128 then some (cast res, p + 1)
  else
    let byte := (ctx.data (p + 1)).toUInt32
    let res := res + (byte - 1) <<< 7
    if byte < 128 then some (cast res, p + 2) else slow res

def readVarint32 (p : ℕ) : Option (UInt32 × ℕ) :=
  ctx.firstBytes id (ctx.varintParseSlow32 p) p

def readVarint64 (p : ℕ) : Option (UInt64 × ℕ) :=
  ctx.firstBytes UInt32.toUInt64 (ctx.varintParseSlow64 p) p

def readTag (p : ℕ) : Option (UInt32 × ℕ) :=
  ctx.firstBytes id (ctx.readTagFallback p) p

def readSize (p : ℕ) : Option (UInt32 × ℕ) :=
  let res := (ctx.data p).toUInt32
  if res < 128 then some (res, p + 1) else ctx.readSizeFallback p res

/-- `UnalignedLoad` of `k` bytes, on a little-endian machine. -/
def unalignedLoad : ℕ → ℕ → ℕ
  | 0, _ => 0
  | k + 1, p => (ctx.data p).toNat + 256 * unalignedLoad k (p + 1)

/-! ## Values of a given length -/

/-- `n` bytes from a position on. -/
def slice : ℕ → ℕ → List UInt8
  | _, 0 => []
  | p, n + 1 => ctx.data p :: slice (p + 1) n

/-- A string that runs past the slop behind the array is refused at once. -/
def readString (p size : ℕ) : Option (List UInt8 × ℕ) :=
  if p + size ≤ ctx.size + kSlopBytes then some (ctx.slice p size, p + size) else none

def inlineGreedyStringParser (p : ℕ) : Option (List UInt8 × ℕ) :=
  (ctx.readSize p).bind fun (size, p) => ctx.readString p size.toNat

/-- `fuel` bounds the rounds; each takes at least one byte. -/
def readPackedVarintArray (finish : ℕ) :
    ℕ → List UInt64 → ℕ → Option (List UInt64 × ℕ)
  | 0, _, _ => none
  | fuel + 1, out, p =>
      if p < finish then
        (ctx.readVarint64 p).bind fun (varint, p) =>
          readPackedVarintArray finish fuel (out ++ [varint]) p
      else some (out, p)

/-- `PackedUInt64Parser`, which adds to `out`. -/
def readPackedVarint (out : List UInt64) (p : ℕ) : Option (List UInt64 × ℕ) :=
  (ctx.readSize p).bind fun (size, p) =>
    (ctx.readPackedVarintArray (p + size.toNat) (size.toNat + 1) out p).bind fun (out, q) =>
      if q = p + size.toNat then some (out, q) else none

/-! ## Messages -/

/-- The loop of every `_InternalParse`. `field` is its switch, with `UnknownFieldParse`
behind it; no case of a switch takes a tag that ends a message. -/
def parseLoop {M : Type} (limit : ℕ) (field : UInt32 → M → ℕ → Option (M × ℕ)) :
    ℕ → M → ℕ → Option ((M × UInt32) × ℕ)
  | 0, _, _ => none
  | fuel + 1, msg, p =>
      match ctx.done limit p with
      | .exceeded => none
      | .ended lastTagMinus1 => some ((msg, lastTagMinus1), p)
      | .more =>
          (ctx.readTag p).bind fun (tag, p) =>
            if tag = 0 ∨ tag &&& 7 = 4 then some ((msg, tag - 1), p)
            else (field tag msg p).bind fun (msg, p) => parseLoop limit field fuel msg p

/-- `_InternalParse` from a position on. Every round takes at least one byte. -/
def internalParse {M : Type} (limit : ℕ) (field : UInt32 → M → ℕ → Option (M × ℕ)) (msg : M)
    (p : ℕ) : Option ((M × UInt32) × ℕ) :=
  ctx.parseLoop limit field (limit - p + 1) msg p

/-- `ParseMessage` at a depth of at least 1. `parse` is `_InternalParse` below a limit. -/
def parseMessage {M : Type} (parse : ℕ → ℕ → Option ((M × UInt32) × ℕ)) (p : ℕ) :
    Option (M × ℕ) :=
  (ctx.readSize p).bind fun (size, p) =>
    (parse (p + size.toNat) p).bind fun ((msg, lastTagMinus1), p) =>
      if lastTagMinus1 = 0 then some (msg, p) else none

/-- `FieldParser`. An end-group tag does not come here. -/
def fieldParser (group : ℕ → ℕ → Option (List UnknownField × ℕ)) (tag : UInt32) (p : ℕ) :
    Option (UnknownField × ℕ) :=
  let number := (tag >>> 3).toNat
  if number = 0 then none
  else
    match (tag &&& 7).toNat with
    | 0 => (ctx.readVarint64 p).map fun (value, p) => (.varint number value, p)
    | 1 => some (.fixed64 number (UInt64.ofNat (ctx.unalignedLoad 8 p)), p + 8)
    | 2 => (ctx.inlineGreedyStringParser p).map fun (value, p) => (.lengthDelimited number value, p)
    | 3 => (group number p).map fun (fields, p) => (.group number fields, p)
    | 5 => some (.fixed32 number (UInt32.ofNat (ctx.unalignedLoad 4 p)), p + 4)
    | _ => none

/-- The fields of `WireFormatParser`, which all are unknown. -/
def unknownField (group : ℕ → ℕ → Option (List UnknownField × ℕ)) (tag : UInt32)
    (fields : List UnknownField) (p : ℕ) : Option (List UnknownField × ℕ) :=
  (ctx.fieldParser group tag p).map fun (field, p) => (fields ++ [field], p)

/-- `ParseGroup`, for a group of a number. -/
def parseGroup (limit : ℕ) : ℕ → ℕ → ℕ → Option (List UnknownField × ℕ)
  | 0, _, _ => none
  | depth + 1, number, p =>
      (ctx.internalParse limit (ctx.unknownField (parseGroup limit depth)) [] p).bind
        fun ((fields, lastTagMinus1), p) =>
          if lastTagMinus1 = UInt32.ofNat (number * 8 + 3) then some (fields, p) else none

/-- `UnknownFieldParse`, which adds to the unknown fields of a message. -/
def unknownFieldParse (limit depth : ℕ) (tag : UInt32) (fields : List UnknownField) (p : ℕ) :
    Option (List UnknownField × ℕ) :=
  ctx.unknownField (ctx.parseGroup limit depth) tag fields p

end ParseContext

end Protocol

end ServerCore
