import OpenClaw.Text.Basic

/-!
# Classifying addresses

`ip.ts`.
-/

namespace OpenClaw

/-! ## Addresses and the library that parses them

An address is what `ipaddr.js` makes of a text. Which texts it accepts and how it labels the ranges
is left open; `Ipaddr.Laws` is what the code relies on. -/

structure Ipv4 where
  octets : BitVec 8 × BitVec 8 × BitVec 8 × BitVec 8
deriving DecidableEq

/-- The eight `parts` of an address. -/
structure Ipv6 where
  (p0 p1 p2 p3 p4 p5 p6 p7 : BitVec 16)
deriving DecidableEq

inductive ParsedIpAddress where
  | ipv4 (address : Ipv4)
  | ipv6 (address : Ipv6)
deriving DecidableEq

/-- The labels of `range()`. -/
inductive Ipv4Range where
  | unicast | unspecified | broadcast | multicast | linkLocal | loopback | carrierGradeNat
  | privateUse | reserved | as112 | amt
deriving DecidableEq

inductive Ipv6Range where
  | unicast | unspecified | linkLocal | multicast | loopback | uniqueLocal | ipv4Mapped | discard
  | rfc6145 | rfc6052 | sixToFour | teredo | benchmarking | amt | as112v6 | deprecatedOrchid
  | orchid2 | droneRemoteId | reserved
deriving DecidableEq

/-- `ipaddr.js`. -/
structure Ipaddr where
  /-- `IPv4.isValid` and `IPv4.parse`. -/
  parseIpv4 : Str → Option Ipv4
  /-- `IPv4.isValidFourPartDecimal`. -/
  isValidFourPartDecimal : Str → Bool
  /-- `IPv6.isValid` and `IPv6.parse`. -/
  parseIpv6 : Str → Option Ipv6
  rangeIpv4 : Ipv4 → Ipv4Range
  rangeIpv6 : Ipv6 → Ipv6Range
  /-- `address.match([base, bits])`. -/
  matchIpv4 : Ipv4 → Ipv4 → ℕ → Bool
  /-- `isIPv4MappedAddress()`. -/
  isIPv4MappedAddress : Ipv6 → Bool
  /-- `toIPv4Address()`. -/
  toIPv4Address : Ipv6 → Ipv4

/-- `ipaddr.isValid` and `ipaddr.parse`. -/
def Ipaddr.parse (lib : Ipaddr) (text : Str) : Option ParsedIpAddress :=
  match lib.parseIpv6 text with
  | some address => some (.ipv6 address)
  | none => (lib.parseIpv4 text).map .ipv4

/-! ## Forms of addresses -/

/-- `String(n)` -/
def octetText (octet : BitVec 8) : Str := (Nat.repr octet.toNat).toList

/-- `w.x.y.z` -/
def dottedDecimal (w x y z : BitVec 8) : Str :=
  octetText w ++ '.' :: (octetText x ++ '.' :: (octetText y ++ '.' :: octetText z))

/-- The address in two parts. -/
def ipv4OfParts (high low : BitVec 16) : Ipv4 :=
  ⟨high.extractLsb' 8 8, high.extractLsb' 0 8, low.extractLsb' 8 8, low.extractLsb' 0 8⟩

variable (a : Ipv6)

def Ipv6.last32 : Ipv4 := ipv4OfParts a.p6 a.p7

/-- `::ffff:0:0/96` -/
def Ipv6.isMapped : Bool :=
  a.p0 = 0 && a.p1 = 0 && a.p2 = 0 && a.p3 = 0 && a.p4 = 0 && a.p5 = 0xffff

/-- `::ffff:0:0:0/96` -/
def Ipv6.isTranslated : Bool :=
  a.p0 = 0 && a.p1 = 0 && a.p2 = 0 && a.p3 = 0 && a.p4 = 0xffff && a.p5 = 0

/-- `64:ff9b::/96` -/
def Ipv6.isNat64 : Bool :=
  a.p0 = 0x64 && a.p1 = 0xff9b && a.p2 = 0 && a.p3 = 0 && a.p4 = 0 && a.p5 = 0

/-! ## What the library does -/

def isIpTextChar (c : Char) : Bool := c.isAlphanum || c = ':' || c = '.' || c = '%'

/-- The texts among which the addresses are. -/
structure IsIpText (text : Str) : Prop where
  ne_nil : text ≠ []
  chars : ∀ c ∈ text, isIpTextChar c = true
  last : text.getLast? ≠ some '.'

/-- `isNumericIpv4LiteralPart` -/
def isNumericIpv4LiteralPart (value : Str) : Bool :=
  (!value.isEmpty && value.all Char.isDigit) ||
    match value with
    | '0' :: x :: digits => (x = 'x' || x = 'X') && !digits.isEmpty &&
        digits.all fun c => c.isDigit || ('a' ≤ c && c ≤ 'f') || ('A' ≤ c && c ≤ 'F')
    | _ => false

/-- The library parses correctly and labels the ranges of the embedding forms as they are
registered. -/
structure Ipaddr.Laws (lib : Ipaddr) : Prop where
  text_of_parseIpv4 : ∀ {text a}, lib.parseIpv4 text = some a → IsIpText text ∧ ':' ∉ text
  parts_of_parseIpv4 : ∀ {text a}, lib.parseIpv4 text = some a →
    (text.splitOn '.').length ≤ 4 ∧ ∀ part ∈ text.splitOn '.', isNumericIpv4LiteralPart part = true
  text_of_parseIpv6 : ∀ {text a}, lib.parseIpv6 text = some a → IsIpText text ∧ ':' ∈ text
  /-- Letter case does not matter. -/
  parseIpv4_lower : ∀ text, lib.parseIpv4 (text.map Char.toLower) = lib.parseIpv4 text
  parseIpv6_lower : ∀ text, lib.parseIpv6 (text.map Char.toLower) = lib.parseIpv6 text
  isValidFourPartDecimal_iff : ∀ text,
    lib.isValidFourPartDecimal text = true ↔ ∃ w x y z, text = dottedDecimal w x y z
  parseIpv4_dottedDecimal : ∀ w x y z,
    lib.parseIpv4 (dottedDecimal w x y z) = some ⟨w, x, y, z⟩
  matchIpv4_rfc2544 : ∀ a, lib.matchIpv4 a ⟨198, 18, 0, 0⟩ 15 =
    (decide (a.octets.1 = 198) && decide (a.octets.2.1 &&& 0xfe = 18))
  isIPv4MappedAddress_eq : ∀ a, lib.isIPv4MappedAddress a = a.isMapped
  toIPv4Address_eq : ∀ a, a.isMapped = true → lib.toIPv4Address a = a.last32
  rfc6145_iff : ∀ a, lib.rangeIpv6 a = .rfc6145 ↔ a.isTranslated = true
  rfc6052_iff : ∀ a, lib.rangeIpv6 a = .rfc6052 ↔ a.isNat64 = true

/-! ## Classifying addresses -/

section

variable (lib : Ipaddr)

/-! ## Parsing -/

def stripIpv6Brackets (value : Str) : Str :=
  if startsWith value "[".toList ∧ endsWith value "]".toList then (value.drop 1).dropLast else value

variable (raw : Str)

def normalizeIpParseInput : Option Str :=
  (normalizeOptionalString (some raw)).map stripIpv6Brackets

/-- `parseInt(part, 10)` of decimal digits. -/
def decimalValue (digits : Str) : ℕ := Nat.ofDigitChars 10 digits 0

/-- `n.toString(16)` -/
def hexText (n : ℕ) : Str := Nat.toDigits 16 n

/-- The part of a text up to its last colon, and the rest. -/
def splitAfterLastColon : Str × Str :=
  (raw.rdropWhile (· ≠ ':'), raw.rtakeWhile (· ≠ ':'))

/-- The regular expression splits at the last colon and at the per cent sign behind it. The shape
of its middle group is part of `isValidFourPartDecimal`. -/
def parseIpv6WithEmbeddedIpv4 : Option Ipv6 :=
  if ':' ∉ raw ∨ '.' ∉ raw then none
  else
    let (before, tail) := splitAfterLastColon raw
    let embeddedIpv4 := tail.takeWhile (· ≠ '%')
    let zoneSuffix := tail.dropWhile (· ≠ '%')
    if before.any (fun c => c = '\n' || c = '\r' || c.toNat = 0x2028 || c.toNat = 0x2029) then none
    else if zoneSuffix ≠ [] ∧ (zoneSuffix.tail = [] ∨ ¬zoneSuffix.tail.all Char.isAlphanum) then none
    else if lib.isValidFourPartDecimal embeddedIpv4 then
      match (embeddedIpv4.splitOn '.').map decimalValue with
      | [w, x, y, z] =>
        let high := hexText (w <<< 8 ||| x)
        let low := hexText (y <<< 8 ||| z)
        lib.parseIpv6 (before ++ (high ++ ':' :: (low ++ zoneSuffix)))
      | _ => none
    else none

def parseCanonicalIpAddress : Option ParsedIpAddress :=
  match normalizeIpParseInput raw with
  | none => none
  | some normalized =>
    if normalized = [] then none
    else
      match lib.parseIpv4 normalized with
      | some address =>
        if lib.isValidFourPartDecimal normalized then some (.ipv4 address) else none
      | none =>
        match lib.parseIpv6 normalized with
        | some address => some (.ipv6 address)
        | none => (parseIpv6WithEmbeddedIpv4 lib normalized).map .ipv6

def parseLooseIpAddress : Option ParsedIpAddress :=
  match normalizeIpParseInput raw with
  | none => none
  | some normalized =>
    if normalized = [] then none
    else
      match lib.parse normalized with
      | some address => some address
      | none => (parseIpv6WithEmbeddedIpv4 lib normalized).map .ipv6

def isCanonicalDottedDecimalIPv4 : Bool :=
  match normalizeIpParseInput raw with
  | none => false
  | some normalized => normalized ≠ [] && lib.isValidFourPartDecimal normalized

def isLegacyIpv4Literal : Bool :=
  match normalizeIpParseInput raw with
  | none => false
  | some normalized =>
    if normalized = [] ∨ ':' ∈ normalized then false
    else if isCanonicalDottedDecimalIPv4 lib normalized then false
    else
      let parts := normalized.splitOn '.'
      decide (parts.length ≤ 4) && !parts.any List.isEmpty && parts.all isNumericIpv4LiteralPart

/-! ## Special use -/

structure Ipv4SpecialUseBlockOptions where
  allowRfc2544BenchmarkRange : Bool

structure Ipv6SpecialUseBlockOptions where
  allowUniqueLocalRange : Bool

/-- `BLOCKED_IPV4_SPECIAL_USE_RANGES` -/
def blockedIpv4Ranges : List Ipv4Range :=
  [.unspecified, .broadcast, .multicast, .linkLocal, .loopback, .carrierGradeNat, .privateUse,
    .reserved]

/-- `BLOCKED_IPV6_SPECIAL_USE_RANGES` -/
def blockedIpv6Ranges : List Ipv6Range :=
  [.unspecified, .loopback, .linkLocal, .uniqueLocal, .multicast, .reserved, .benchmarking,
    .discard, .orchid2]

/-- `198.18.0.0` -/
def rfc2544Base : Ipv4 := ⟨198, 18, 0, 0⟩

def isBlockedSpecialUseIpv4Address (address : Ipv4) (options : Ipv4SpecialUseBlockOptions) : Bool :=
  let inRfc2544BenchmarkRange := lib.matchIpv4 address rfc2544Base 15
  if inRfc2544BenchmarkRange && options.allowRfc2544BenchmarkRange then false
  else decide (lib.rangeIpv4 address ∈ blockedIpv4Ranges) || inRfc2544BenchmarkRange

def isBlockedSpecialUseIpv6Address (address : Ipv6) (options : Ipv6SpecialUseBlockOptions) : Bool :=
  if lib.rangeIpv6 address = .uniqueLocal ∧ options.allowUniqueLocalRange = true then false
  else if lib.rangeIpv6 address ∈ blockedIpv6Ranges then true
  else address.p0 &&& 0xffc0 = 0xfec0

/-! ## Embedded addresses -/

structure EmbeddedIpv4Rule where
  applies : Ipv6 → Bool
  toHextets : Ipv6 → BitVec 16 × BitVec 16

/-- `EMBEDDED_IPV4_SENTINEL_RULES` -/
def embeddedIpv4SentinelRules : List EmbeddedIpv4Rule :=
  [ -- IPv4-compatible form
    { applies := fun a => a.p0 = 0 && a.p1 = 0 && a.p2 = 0 && a.p3 = 0 && a.p4 = 0 && a.p5 = 0
      toHextets := fun a => (a.p6, a.p7) },
    -- NAT64 local-use prefix
    { applies := fun a =>
        a.p0 = 0x0064 && a.p1 = 0xff9b && a.p2 = 0x0001 && a.p3 = 0 && a.p4 = 0 && a.p5 = 0
      toHextets := fun a => (a.p6, a.p7) },
    -- 6to4 prefix
    { applies := fun a => a.p0 = 0x2002
      toHextets := fun a => (a.p1, a.p2) },
    -- Teredo prefix
    { applies := fun a => a.p0 = 0x2001 && a.p1 = 0x0000
      toHextets := fun a => (a.p6 ^^^ 0xffff, a.p7 ^^^ 0xffff) },
    -- ISATAP marker
    { applies := fun a => a.p4 &&& 0xfcff = 0 && a.p5 = 0x5efe
      toHextets := fun a => (a.p6, a.p7) }]

/-- The octets are joined to a text that is parsed. -/
def decodeIpv4FromHextets (high low : BitVec 16) : Option Ipv4 :=
  lib.parseIpv4 (dottedDecimal (high.extractLsb' 8 8) (high.extractLsb' 0 8)
    (low.extractLsb' 8 8) (low.extractLsb' 0 8))

def extractEmbeddedIpv4FromIpv6 (address : Ipv6) : Option Ipv4 :=
  if lib.isIPv4MappedAddress address then some (lib.toIPv4Address address)
  else if lib.rangeIpv6 address = .rfc6145 then decodeIpv4FromHextets lib address.p6 address.p7
  else if lib.rangeIpv6 address = .rfc6052 then decodeIpv4FromHextets lib address.p6 address.p7
  else
    (embeddedIpv4SentinelRules.find? (·.applies address)).bind fun rule =>
      let hextets := rule.toHextets address
      decodeIpv4FromHextets lib hextets.1 hextets.2

end

end OpenClaw
