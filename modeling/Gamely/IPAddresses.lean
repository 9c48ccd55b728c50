import Gamely.Digits

/-!
# IP addresses as text

Parsing and printing as `ipaddress` of the standard library does them. An IPv6
address is printed with its longest run of zero hextets left out, and an
IPv4-mapped one with its last 32 bits in dotted form.
-/

set_option autoImplicit false

namespace Gamely.IPAddresses
open Gamely.Digits

/-! ## Addresses -/

structure IPv4Address where
  ip : BitVec 32
  deriving DecidableEq, Repr

structure IPv6Address where
  ip : BitVec 128
  scopeId : Option (List Char)
  deriving DecidableEq, Repr

/-- What `ip_address` returns. -/
inductive Address where
  | v4 (address : IPv4Address)
  | v6 (address : IPv6Address)
  deriving DecidableEq, Repr

/-- `_parse_octet`: leading zeros are not permitted. -/
def parseOctet (octet : List Char) : Option ℕ :=
  if octet = [] || !octet.all Char.isDigit || 3 < octet.length then none
  else if octet ≠ ['0'] && octet.head? = some '0' then none
  else
    let n := Nat.ofDigitChars 10 octet 0
    if 255 < n then none else some n

def ipv4Address (text : List Char) : Option IPv4Address :=
  if '/' ∈ text then none
  else
    let octets := text.splitOn '.'
    if octets.length ≠ 4 then none
    else (octets.mapM parseOctet).map (fun bytes => ⟨.ofNat 32 (fromBigEndian 256 bytes)⟩)

/-! ## IPv6 text -/

/-- `_parse_hextet`; `int` rejects the empty string. -/
def parseHextet (hextet : List Char) : Option ℕ :=
  if hextet = [] || 4 < hextet.length then none
  else (hextet.mapM hexValue).map (fromBigEndian 16)

/-- An IPv4-style suffix becomes two hextets. -/
def expandSuffix (parts : List (List Char)) : Option (List (List Char)) :=
  match parts.getLast? with
  | some last => if '.' ∈ last then (ipv4Address last).map (fun a =>
      parts.dropLast ++ (bigEndian 65536 2 a.ip.toNat).map hexText)
    else some parts
  | none => some parts

/-- Where `::` stands: the empty parts that are not at an end. -/
def skips (parts : List (List Char)) : List ℕ :=
  (List.range parts.length).filter (fun i => 0 < i && i+1 < parts.length && parts[i]? = some [])

/-- A part at the end that is empty belongs to the `::` next to it. -/
def endpoint (parts : List (List Char)) : List (List Char) := if parts = [[]] then [] else parts

/-- The eight hextets. An empty part in any other place has no value. -/
def parseHextets (parts : List (List Char)) : Option (List ℕ) :=
  match skips parts with
  | [] => if parts.length = 8 then parts.mapM parseHextet else none
  | [i] =>
    let high := endpoint (parts.take i)
    let low := endpoint (parts.drop (i+1))
    if high.length+low.length < 8 then do
      let hs ← high.mapM parseHextet
      let ls ← low.mapM parseHextet
      return hs ++ List.replicate (8-(high.length+low.length)) 0 ++ ls
    else none
  | _ => none

/-- `_ip_int_from_string`. -/
def ipv6Int (text : List Char) : Option (BitVec 128) :=
  let parts := text.splitOn ':'
  if parts.length < 3 then none
  else do
    let parts ← expandSuffix parts
    if 9 < parts.length then none
    else (parseHextets parts).map (fun hs => .ofNat 128 (fromBigEndian 65536 hs))

def splitScopeId (text : List Char) : Option (List Char × Option (List Char)) :=
  match text.span (· ≠ '%') with
  | (addr, []) => some (addr, none)
  | (addr, _::scopeId) => if scopeId = [] || '%' ∈ scopeId then none else some (addr, some scopeId)

def ipv6Address (text : List Char) : Option IPv6Address :=
  if '/' ∈ text then none
  else do
    let (addr, scopeId) ← splitScopeId text
    return ⟨← ipv6Int addr, scopeId⟩

def ipAddress (text : List Char) : Option Address :=
  match ipv4Address text with
  | some a => some (.v4 a)
  | none => (ipv6Address text).map .v6

/-! ## Printing -/

def IPv4Address.str (a : IPv4Address) : List Char :=
  ['.'].intercalate ((bigEndian 256 4 a.ip.toNat).map (Nat.toDigits 10))

/-- The start and the length of the first longest run of zeros, after `i` hextets of which the
last `len` are zero. -/
def longestZeros : List (List Char) → ℕ → ℕ → ℕ × ℕ → ℕ × ℕ
  | [], _, _, best => best
  | hextet::rest, i, len, best =>
    if hextet = ['0'] then
      longestZeros rest (i+1) (len+1) (if best.2 < len+1 then (i-len, len+1) else best)
    else longestZeros rest (i+1) 0 best

def compressHextets (hextets : List (List Char)) : List (List Char) :=
  let best := longestZeros hextets 0 0 (0, 0)
  if 1 < best.2 then
    (if best.1 = 0 then [[]] else hextets.take best.1) ++ [] ::
      (if best.1+best.2 = hextets.length then [[]] else hextets.drop (best.1+best.2))
  else hextets

def stringFromIpInt (ip : ℕ) : List Char :=
  [':'].intercalate (compressHextets ((bigEndian 65536 8 ip).map hexText))

def IPv6Address.ipv4Mapped (a : IPv6Address) : Option IPv4Address :=
  if a.ip.toNat/2^32 = 65535 then some ⟨.ofNat 32 (a.ip.toNat%2^32)⟩ else none

def IPv6Address.str (a : IPv6Address) : List Char :=
  let text := match a.ipv4Mapped with
    | some mapped => stringFromIpInt (a.ip.toNat/2^32) ++ ':' :: mapped.str
    | none => stringFromIpInt a.ip.toNat
  match a.scopeId with
  | some scopeId => text ++ '%' :: scopeId
  | none => text

def Address.str : Address → List Char
  | .v4 a => a.str
  | .v6 a => a.str

def Address.scopeId : Address → Option (List Char)
  | .v4 _ => none
  | .v6 a => a.scopeId

/-! ## Networks -/

/-- `_prefix_from_prefix_string`. -/
def prefixLength (text : List Char) : Option ℕ :=
  if text = [] || !text.all Char.isDigit then none
  else
    let n := Nat.ofDigitChars 10 text 0
    if 128 < n then none else some n

/-- `IPv6Network(text, strict=False).network_address`: an address that is masked loses its
scope. -/
def networkAddress (text : List Char) : Option IPv6Address := do
  let (addr, length) ← match text.splitOn '/' with
    | [addr] => some (addr, 128)
    | [addr, mask] => (prefixLength mask).map (fun length => (addr, length))
    | _ => none
  let a ← ipv6Address addr
  let masked := BitVec.ofNat 128 (a.ip.toNat/2^(128-length)*2^(128-length))
  return if masked = a.ip then a else ⟨masked, none⟩

end Gamely.IPAddresses
