import Mathlib.Data.List.TakeWhile

/-!
# Socket addresses from text

The constructors of `NetAddress` fill a `SOCKADDR_IN` from the text of an address, in
`char` or `WCHAR`, and a port. `Bind` and `ConnectEx` pass the structure on as it is; the
address and the port that they then use are its `endpoint`, in which the bytes of the port
are in network order.

`inet_pton` and `InetPtonW` are parameters. They leave the variable that they are given as
it was when they reject the text, so its content before the call is a parameter too.
-/

namespace ServerCore

namespace Net

/-- `IN_ADDR`, with the bytes in the order of the dotted-decimal text. -/
structure InAddr where
  b1 : UInt8 := 0
  b2 : UInt8 := 0
  b3 : UInt8 := 0
  b4 : UInt8 := 0
  deriving DecidableEq, Repr

def AF_INET : UInt16 := 2

/-- `SOCKADDR_IN`, as `memset` leaves it. -/
structure SockAddrIn where
  sinFamily : UInt16 := 0
  sinPort : UInt16 := 0
  sinAddr : InAddr := {}
  sinZero : UInt64 := 0
  deriving DecidableEq, Repr

/-- The two bytes in the other order, on a little-endian host. -/
def ntohs (port : UInt16) : UInt16 :=
  UInt16.ofNat (256 * (port.toNat % 256) + port.toNat / 256)

theorem toNat_ntohs (port : UInt16) :
    (ntohs port).toNat = 256 * (port.toNat % 256) + port.toNat / 256 := by
  have hport := port.toNat_lt
  exact UInt16.toNat_ofNat_of_lt' (show _ < 65536 by omega)

/-- Only a port with two equal bytes reads the same in both orders. -/
theorem ntohs_eq_self (port : UInt16) :
    ntohs port = port ↔ port.toNat / 256 = port.toNat % 256 := by
  rw [← UInt16.toNat_inj, toNat_ntohs]
  omega

/-- The address and the port that `bind` and `ConnectEx` read. -/
def SockAddrIn.endpoint (sockAddr : SockAddrIn) : InAddr × UInt16 :=
  (sockAddr.sinAddr, ntohs sockAddr.sinPort)

/-- What `c_str` shows: the characters before the first `nul`. -/
def cStr {Unit : Type} [DecidableEq Unit] (nul : Unit) (text : List Unit) : List Unit :=
  text.takeWhile (· ≠ nul)

section Constructors

variable (inetPton : List UInt8 → Option InAddr) (inetPtonW : List UInt16 → Option InAddr)

/-- `IP2Address`. The parsed address is dropped. -/
def ip2Address (address : InAddr) (ip : List UInt8) : InAddr :=
  let _address := (inetPton ip).getD address
  {}

/-- `IP2AddressW`. -/
def ip2AddressW (address : InAddr) (ip : List UInt16) : InAddr :=
  (inetPtonW ip).getD address

/-- `NetAddress(string, uint16)`. -/
def ofString (address : InAddr) (ip : List UInt8) (port : UInt16) : SockAddrIn :=
  { sinFamily := AF_INET
    sinAddr := ip2Address inetPton address (cStr 0 ip)
    sinPort := port }

/-- `NetAddress(wstring, uint16)`. -/
def ofWString (address : InAddr) (ip : List UInt16) (port : UInt16) : SockAddrIn :=
  { sinFamily := AF_INET
    sinAddr := ip2AddressW inetPtonW address (cStr 0 ip)
    sinPort := port }

end Constructors

/-- The characters of dotted-decimal text. -/
def Dotted (text : List Char) : Prop := ∀ c ∈ text, c.isDigit ∨ c = '.'

instance (text : List Char) : Decidable (Dotted text) :=
  List.decidableBAll (fun c : Char => c.isDigit ∨ c = '.') text

/-- ASCII text in `char`. -/
def narrow (text : List Char) : List UInt8 := text.map fun c => UInt8.ofNat c.toNat

/-- ASCII text in `WCHAR`. -/
def wide (text : List Char) : List UInt16 := text.map fun c => UInt16.ofNat c.toNat

/-- Such a character is neither zero nor outside ASCII. -/
theorem Dotted.code {text : List Char} (dotted : Dotted text) {c : Char} (hc : c ∈ text) :
    0 < c.toNat ∧ c.toNat < 128 := by
  obtain hdigit | rfl := dotted c hc
  · have hcode : 48 ≤ c.toNat ∧ c.toNat ≤ 57 := Char.isDigit_iff_toNat.mp hdigit
    omega
  · decide

theorem cStr_map {Unit : Type} [DecidableEq Unit] {nul : Unit} {f : Char → Unit}
    {text : List Char} (h : ∀ c ∈ text, f c ≠ nul) : cStr nul (text.map f) = text.map f := by
  apply List.takeWhile_eq_self_iff.mpr
  intro u hu
  obtain ⟨c, hc, rfl⟩ := List.mem_map.mp hu
  exact decide_eq_true (h c hc)

/-- The parser sees the whole text. -/
theorem cStr_wide {text : List Char} (dotted : Dotted text) : cStr 0 (wide text) = wide text := by
  apply cStr_map
  intro c hc hzero
  have hcode := dotted.code hc
  have htoNat : (UInt16.ofNat c.toNat).toNat = c.toNat :=
    UInt16.toNat_ofNat_of_lt' (show c.toNat < 65536 by omega)
  rw [hzero, UInt16.toNat_zero] at htoNat
  omega

section Endpoints

variable {inetPton : List UInt8 → Option InAddr} {inetPtonW : List UInt16 → Option InAddr}

/-- From `char` the address is 0.0.0.0 whatever the text is. -/
theorem ofString_endpoint (address : InAddr) (ip : List UInt8) (port : UInt16) :
    (ofString inetPton address ip port).endpoint = ({}, ntohs port) := rfl

/-- From `WCHAR` the address is the parsed one. -/
theorem ofWString_endpoint {ip : List UInt16} {parsed : InAddr}
    (h : inetPtonW (cStr 0 ip) = some parsed) (address : InAddr) (port : UInt16) :
    (ofWString inetPtonW address ip port).endpoint = (parsed, ntohs port) := by
  rw [SockAddrIn.endpoint, ofWString, ip2AddressW, h]
  rfl

/-- The constructors differ in the address only. -/
theorem ofString_eq_ofWString {ip : List UInt8} {ipW : List UInt16}
    (address addressW : InAddr) (port : UInt16) :
    ofString inetPton address ip port = ofWString inetPtonW addressW ipW port ↔
      (ofWString inetPtonW addressW ipW port).sinAddr = {} := by
  constructor
  · intro h
    rw [← h]
    rfl
  · intro h
    rw [ofString, ofWString, SockAddrIn.mk.injEq]
    exact ⟨rfl, rfl, h.symm, rfl⟩

end Endpoints

/-- Both constructors build one structure, which is read as the address and the port. -/
def SameAddress (inetPton : List UInt8 → Option InAddr) (inetPtonW : List UInt16 → Option InAddr)
    (address addressW : InAddr) (text : List Char) (port : UInt16) (parsed : InAddr) : Prop :=
  ofString inetPton address (narrow text) port = ofWString inetPtonW addressW (wide text) port ∧
    (ofString inetPton address (narrow text) port).endpoint = (parsed, port)

/-- The constructors agree on the parsed address and the port exactly for the text of
0.0.0.0 and a port with two equal bytes. -/
theorem sameAddress_iff {inetPton : List UInt8 → Option InAddr}
    {inetPtonW : List UInt16 → Option InAddr}
    (agree : ∀ text, Dotted text → inetPtonW (wide text) = inetPton (narrow text))
    {text : List Char} (dotted : Dotted text) {parsed : InAddr}
    (parses : inetPton (narrow text) = some parsed) (address addressW : InAddr) (port : UInt16) :
    SameAddress inetPton inetPtonW address addressW text port parsed ↔
      parsed = {} ∧ port.toNat / 256 = port.toNat % 256 := by
  have hwide : inetPtonW (cStr 0 (wide text)) = some parsed := by
    rw [cStr_wide dotted, agree text dotted, parses]
  have hsinAddr : (ofWString inetPtonW addressW (wide text) port).sinAddr = parsed :=
    congrArg Prod.fst (ofWString_endpoint hwide addressW port)
  rw [SameAddress, ofString_eq_ofWString, hsinAddr, ofString_endpoint, Prod.mk.injEq,
    ntohs_eq_self]
  constructor
  · rintro ⟨hparsed, -, hport⟩
    exact ⟨hparsed, hport⟩
  · rintro ⟨hparsed, hport⟩
    exact ⟨hparsed, hparsed.symm, hport⟩

/-- A number of one to three digits that fits in a byte. -/
def parseByte (digits : List UInt8) : Option UInt8 :=
  let value := digits.foldl (fun value d => 10 * value + (d.toNat - 48)) 0
  if digits ≠ [] ∧ digits.length ≤ 3 ∧ digits.all (fun d => 48 ≤ d ∧ d ≤ 57) ∧ value < 256 then
    some (UInt8.ofNat value)
  else none

/-- Four bytes in decimal, separated by dots. -/
def parseDotted (text : List UInt8) : Option InAddr :=
  match (text.splitOn 46).map parseByte with
  | [some b1, some b2, some b3, some b4] => some ⟨b1, b2, b3, b4⟩
  | _ => none

def parseDottedW (text : List UInt16) : Option InAddr :=
  parseDotted (text.map fun u => UInt8.ofNat u.toNat)

theorem parseDottedW_wide (text : List Char) (dotted : Dotted text) :
    parseDottedW (wide text) = parseDotted (narrow text) := by
  rw [parseDottedW, wide, narrow, List.map_map]
  congr 1
  apply List.map_congr_left
  intro c hc
  have hcode := dotted.code hc
  change UInt8.ofNat (UInt16.ofNat c.toNat).toNat = UInt8.ofNat c.toNat
  rw [UInt16.toNat_ofNat_of_lt' (show c.toNat < 65536 by omega)]

theorem sameAddress_iff_any :
    SameAddress parseDotted parseDottedW ⟨9, 9, 9, 9⟩ {} "0.0.0.0".toList 257 {} ↔
      ({} : InAddr) = {} ∧ (257 : UInt16).toNat / 256 = (257 : UInt16).toNat % 256 :=
  sameAddress_iff parseDottedW_wide (by decide) (by decide) _ _ _

/-- From the text of the loopback address the constructors build two addresses. -/
theorem sameAddress_loopback :
    ¬∀ (inetPton : List UInt8 → Option InAddr) (inetPtonW : List UInt16 → Option InAddr),
      (∀ text, Dotted text → inetPtonW (wide text) = inetPton (narrow text)) →
      ∀ (text : List Char) (parsed : InAddr), Dotted text → inetPton (narrow text) = some parsed →
      ∀ (address addressW : InAddr) (port : UInt16),
        SameAddress inetPton inetPtonW address addressW text port parsed := by
  intro hall
  have hsame := hall parseDotted parseDottedW parseDottedW_wide "127.0.0.1".toList ⟨127, 0, 0, 1⟩
    (by decide) (by decide) {} {} 7777
  exact absurd hsame.2 (by decide)

end Net

end ServerCore
