import OpenClaw.Ssrf.Dotted

/-!
# Internal addresses

An address is internal when it is for special use or carries an IPv4 address that is. Which of them
pass the checks: of an IPv6 address only the first form that applies is looked at, and of the
local-use NAT64 prefix only a part.
-/

namespace OpenClaw

open List

/-! ## Special use -/

section

variable (lib : Ipaddr) (policy : Option SsrFPolicy)

/-- `198.18.0.0/15` -/
def Ipv4.isBenchmark (a : Ipv4) : Bool :=
  decide (a.octets.1 = 198) && decide (a.octets.2.1 &&& 0xfe = 18)

def IsSpecialUseIpv4 (a : Ipv4) : Prop :=
  (lib.rangeIpv4 a ∈ blockedIpv4Ranges ∨ a.isBenchmark = true) ∧
    ¬(a.isBenchmark = true ∧ (policy.map (·.allowRfc2544BenchmarkRange)).getD false = true)

variable (a : Ipv6)

/-- `fec0::/10` -/
def Ipv6.isSiteLocal : Bool := a.p0 &&& 0xffc0 = 0xfec0

def IsSpecialUseIpv6 : Prop :=
  (lib.rangeIpv6 a ∈ blockedIpv6Ranges ∨ a.isSiteLocal = true) ∧
    ¬(lib.rangeIpv6 a = .uniqueLocal ∧
      (policy.map (·.allowIpv6UniqueLocalRange)).getD false = true)

/-! ## Embedded addresses -/

/-- The ways in which an IPv6 address carries an IPv4 address. -/
inductive EmbeddingForm where
  | mapped | compatible | nat64 | nat64Local | sixToFour | teredo | isatap
deriving DecidableEq

def Ipv6.isSixToFour : Bool := a.p0 = 0x2002

def Ipv6.isTeredo : Bool := a.p0 = 0x2001 && a.p1 = 0

/-- `0000:5efe` with the two bits for universal and group addresses left aside. -/
def Ipv6.isIsatap : Bool := a.p4 &&& 0xfcff = 0 && a.p5 = 0x5efe

/-- `64:ff9b:1::/48` -/
def Ipv6.isNat64Local : Bool := a.p0 = 0x64 && a.p1 = 0xff9b && a.p2 = 1

/-- `::/96` -/
def Ipv6.isCompatible : Bool :=
  a.p0 = 0 && a.p1 = 0 && a.p2 = 0 && a.p3 = 0 && a.p4 = 0 && a.p5 = 0

def EmbeddingForm.carries (form : EmbeddingForm) (a : Ipv6) : Option Ipv4 :=
  match form with
  | .mapped => if a.isMapped then some a.last32 else none
  | .compatible => if a.isCompatible then some a.last32 else none
  | .nat64 => if a.isNat64 then some a.last32 else none
  | .nat64Local => if a.isNat64Local then some a.last32 else none
  | .sixToFour => if a.isSixToFour then some (ipv4OfParts a.p1 a.p2) else none
  | .teredo => if a.isTeredo then some (ipv4OfParts (a.p6 ^^^ 0xffff) (a.p7 ^^^ 0xffff)) else none
  | .isatap => if a.isIsatap then some a.last32 else none

def IsInternal : ParsedIpAddress → Prop
  | .ipv4 a => IsSpecialUseIpv4 lib policy a
  | .ipv6 a => IsSpecialUseIpv6 lib policy a ∨
      ∃ (form : EmbeddingForm) (embedded : Ipv4), form.carries a = some embedded ∧
        IsSpecialUseIpv4 lib policy embedded

/-- The two kinds of addresses whose embedded address is not looked at: the local-use NAT64 prefix
with bits set behind its first 48, and an ISATAP address under the prefix of 6to4 or Teredo. -/
def Ipv6.hidesEmbedded : Bool :=
  (a.isNat64Local && !(a.p3 = 0 && a.p4 = 0 && a.p5 = 0)) ||
    (a.isIsatap && (a.isSixToFour || a.isTeredo))

end

/-! ## The checks -/

section

variable {lib : Ipaddr} {policy : Option SsrFPolicy}

theorem isBlockedSpecialUseIpv4Address_iff (hlib : lib.Laws) (a : Ipv4) :
    isBlockedSpecialUseIpv4Address lib a (resolveIpv4SpecialUseBlockOptions policy) = true ↔
      IsSpecialUseIpv4 lib policy a := by
  have hmatch : lib.matchIpv4 a rfc2544Base 15 = a.isBenchmark := hlib.matchIpv4_rfc2544 a
  unfold isBlockedSpecialUseIpv4Address IsSpecialUseIpv4 resolveIpv4SpecialUseBlockOptions
  rw [hmatch]
  dsimp only
  by_cases hexempt : a.isBenchmark = true ∧
      (policy.map (·.allowRfc2544BenchmarkRange)).getD false = true
  · rw [if_pos (Bool.and_eq_true_iff.mpr hexempt)]
    exact ⟨fun h => (nomatch h), fun h => absurd hexempt h.2⟩
  · rw [if_neg fun h => hexempt (Bool.and_eq_true_iff.mp h), Bool.or_eq_true, decide_eq_true_eq]
    exact ⟨fun h => ⟨h, hexempt⟩, fun h => h.1⟩

theorem isBlockedSpecialUseIpv6Address_iff (a : Ipv6) :
    isBlockedSpecialUseIpv6Address lib a (resolveIpv6SpecialUseBlockOptions policy) = true ↔
      IsSpecialUseIpv6 lib policy a := by
  unfold isBlockedSpecialUseIpv6Address IsSpecialUseIpv6 resolveIpv6SpecialUseBlockOptions
  dsimp only
  by_cases hexempt : lib.rangeIpv6 a = .uniqueLocal ∧
      (policy.map (·.allowIpv6UniqueLocalRange)).getD false = true
  · rw [if_pos hexempt]
    exact ⟨fun h => (nomatch h), fun h => absurd hexempt h.2⟩
  · rw [if_neg hexempt]
    by_cases hrange : lib.rangeIpv6 a ∈ blockedIpv6Ranges
    · rw [if_pos hrange]
      exact ⟨fun _ => ⟨Or.inl hrange, hexempt⟩, fun _ => rfl⟩
    · rw [if_neg hrange]
      exact ⟨fun h => ⟨Or.inr h, hexempt⟩, fun h => h.1.resolve_left hrange⟩

theorem decodeIpv4FromHextets_eq (hlib : lib.Laws) (high low : BitVec 16) :
    decodeIpv4FromHextets lib high low = some (ipv4OfParts high low) :=
  hlib.parseIpv4_dottedDecimal _ _ _ _

/-- The forms that are tried, in the order in which they are tried. -/
theorem extractEmbeddedIpv4FromIpv6_eq (hlib : lib.Laws) (a : Ipv6) :
    extractEmbeddedIpv4FromIpv6 lib a =
      if a.isMapped || a.isTranslated || a.isNat64 || a.isCompatible ||
          (a.isNat64Local && a.p3 = 0 && a.p4 = 0 && a.p5 = 0) then some a.last32
      else if a.isSixToFour then some (ipv4OfParts a.p1 a.p2)
      else if a.isTeredo then some (ipv4OfParts (a.p6 ^^^ 0xffff) (a.p7 ^^^ 0xffff))
      else if a.isIsatap then some a.last32
      else none := by
  unfold extractEmbeddedIpv4FromIpv6
  rw [hlib.isIPv4MappedAddress_eq]
  cases hmapped : a.isMapped with
  | true => exact congrArg some (hlib.toIPv4Address_eq a hmapped)
  | false =>
    rw [if_neg Bool.false_ne_true]
    cases htranslated : a.isTranslated with
    | true =>
      rw [if_pos ((hlib.rfc6145_iff a).mpr htranslated), decodeIpv4FromHextets_eq hlib]
      rfl
    | false =>
      have hnot : lib.rangeIpv6 a ≠ .rfc6145 := by
        intro hrange
        rw [(hlib.rfc6145_iff a).mp hrange] at htranslated
        cases htranslated
      rw [if_neg hnot]
      cases hnat64 : a.isNat64 with
      | true =>
        rw [if_pos ((hlib.rfc6052_iff a).mpr hnat64), decodeIpv4FromHextets_eq hlib]
        rfl
      | false =>
        have hnot' : lib.rangeIpv6 a ≠ .rfc6052 := by
          intro hrange
          rw [(hlib.rfc6052_iff a).mp hrange] at hnat64
          cases hnat64
        rw [if_neg hnot']
        -- the rules, one after the other
        unfold embeddedIpv4SentinelRules
        have hcompatible : (decide (a.p0 = 0) && decide (a.p1 = 0) && decide (a.p2 = 0) &&
            decide (a.p3 = 0) && decide (a.p4 = 0) && decide (a.p5 = 0)) = a.isCompatible := rfl
        have hlocal : (decide (a.p0 = 0x0064) && decide (a.p1 = 0xff9b) && decide (a.p2 = 0x0001) &&
            decide (a.p3 = 0) && decide (a.p4 = 0) && decide (a.p5 = 0)) =
              (a.isNat64Local && decide (a.p3 = 0) && decide (a.p4 = 0) && decide (a.p5 = 0)) := rfl
        have hsix : decide (a.p0 = 0x2002) = a.isSixToFour := rfl
        have hteredo : (decide (a.p0 = 0x2001) && decide (a.p1 = 0x0000)) = a.isTeredo := rfl
        have hisatap : (decide (a.p4 &&& 0xfcff = 0) && decide (a.p5 = 0x5efe)) = a.isIsatap := rfl
        simp only [find?_cons, hcompatible, hlocal, hsix, hteredo, hisatap]
        cases a.isCompatible with
        | true => exact decodeIpv4FromHextets_eq hlib _ _
        | false =>
          cases a.isNat64Local && decide (a.p3 = 0) && decide (a.p4 = 0) && decide (a.p5 = 0) with
          | true => exact decodeIpv4FromHextets_eq hlib _ _
          | false =>
            cases a.isSixToFour with
            | true => exact decodeIpv4FromHextets_eq hlib _ _
            | false =>
              cases a.isTeredo with
              | true => exact decodeIpv4FromHextets_eq hlib _ _
              | false =>
                cases a.isIsatap with
                | true => exact decodeIpv4FromHextets_eq hlib _ _
                | false => rfl

/-- An address under another first part has none of the forms that are tried first. -/
theorem not_first_forms {a : Ipv6} (h0 : a.p0 ≠ 0) (h64 : a.p0 ≠ 0x64) :
    (a.isMapped || a.isTranslated || a.isNat64 || a.isCompatible ||
      (a.isNat64Local && a.p3 = 0 && a.p4 = 0 && a.p5 = 0)) = false := by
  unfold Ipv6.isMapped Ipv6.isTranslated Ipv6.isNat64 Ipv6.isCompatible Ipv6.isNat64Local
  rw [decide_eq_false h0, decide_eq_false h64]
  simp only [Bool.false_and, Bool.or_self]

/-- What is looked at is the embedded address, unless it is hidden. -/
theorem extract_of_carries (hlib : lib.Laws) {form : EmbeddingForm} {a : Ipv6} {embedded : Ipv4}
    (h : form.carries a = some embedded) : extractEmbeddedIpv4FromIpv6 lib a = some embedded ∨
      a.hidesEmbedded = true ∧ embedded = a.last32 := by
  rw [extractEmbeddedIpv4FromIpv6_eq hlib]
  have hlast : ∀ condition : Bool, (if condition then some a.last32 else none) = some embedded →
      condition = true ∧ a.last32 = embedded := by
    intro condition hsome
    cases condition with
    | true => exact ⟨rfl, Option.some.inj hsome⟩
    | false => cases hsome
  cases form with
  | mapped =>
    obtain ⟨hform, hembedded⟩ := hlast _ h
    left
    rw [hform, Bool.true_or, Bool.true_or, Bool.true_or, Bool.true_or, if_pos rfl, hembedded]
  | compatible =>
    obtain ⟨hform, hembedded⟩ := hlast _ h
    left
    rw [hform, Bool.or_true, Bool.true_or, if_pos rfl, hembedded]
  | nat64 =>
    obtain ⟨hform, hembedded⟩ := hlast _ h
    left
    rw [hform, Bool.or_true, Bool.true_or, Bool.true_or, if_pos rfl, hembedded]
  | nat64Local =>
    obtain ⟨hform, hembedded⟩ := hlast _ h
    cases hbits : decide (a.p3 = 0) && decide (a.p4 = 0) && decide (a.p5 = 0) with
    | true =>
      left
      rw [hform, Bool.true_and, hbits, Bool.or_true, if_pos rfl, hembedded]
    | false =>
      refine Or.inr ⟨?_, hembedded.symm⟩
      unfold Ipv6.hidesEmbedded
      rw [hform, hbits]
      rfl
  | sixToFour =>
    left
    by_cases hform : a.isSixToFour = true
    · have hp0 : a.p0 = 0x2002 := of_decide_eq_true hform
      rw [EmbeddingForm.carries, if_pos hform] at h
      rw [not_first_forms (by rw [hp0]; decide) (by rw [hp0]; decide), if_neg Bool.false_ne_true,
        if_pos hform]
      exact h
    · rw [EmbeddingForm.carries, if_neg hform] at h
      cases h
  | teredo =>
    left
    by_cases hform : a.isTeredo = true
    · have hp0 : a.p0 = 0x2001 := of_decide_eq_true (Bool.and_eq_true_iff.mp hform).1
      have hsix : ¬a.isSixToFour = true := by
        unfold Ipv6.isSixToFour
        rw [hp0]
        decide
      rw [EmbeddingForm.carries, if_pos hform] at h
      rw [not_first_forms (by rw [hp0]; decide) (by rw [hp0]; decide), if_neg Bool.false_ne_true,
        if_neg hsix, if_pos hform]
      exact h
    · rw [EmbeddingForm.carries, if_neg hform] at h
      cases h
  | isatap =>
    obtain ⟨hform, hembedded⟩ := hlast _ h
    cases hother : a.isSixToFour || a.isTeredo with
    | true =>
      refine Or.inr ⟨?_, hembedded.symm⟩
      unfold Ipv6.hidesEmbedded
      rw [hform, hother, Bool.true_and, Bool.or_true]
    | false =>
      obtain ⟨hsix, hteredo⟩ := Bool.or_eq_false_iff.mp hother
      left
      rw [hsix, hteredo, if_neg Bool.false_ne_true, if_neg Bool.false_ne_true, if_pos hform,
        hembedded, ite_self]

/-- A hidden address is embedded all the same. -/
theorem carries_of_hidesEmbedded {a : Ipv6} (h : a.hidesEmbedded = true) :
    ∃ form : EmbeddingForm, form.carries a = some a.last32 := by
  rcases Bool.or_eq_true_iff.mp h with hlocal | hmarker
  · exact ⟨.nat64Local, if_pos (Bool.and_eq_true_iff.mp hlocal).1⟩
  · exact ⟨.isatap, if_pos (Bool.and_eq_true_iff.mp hmarker).1⟩

/-! ## Returned texts -/

variable {host : Host} {text : Str}

/-- What the checks make of the normal form of a text. -/
inductive Classified (lib : Ipaddr) (normalized : Str) : ParsedIpAddress → Prop
  | canonical {address : ParsedIpAddress} :
      parseCanonicalIpAddress lib normalized = some address → Classified lib normalized address
  | legacy {address : Ipv4} : parseCanonicalIpAddress lib normalized = none → ':' ∉ normalized →
      isCanonicalDottedDecimalIPv4 lib normalized = false →
      isLegacyIpv4Literal lib normalized = true → Classified lib normalized (.ipv4 address)

theorem isNumericIpv4LiteralPart_ne_nil {part : Str} (h : isNumericIpv4LiteralPart part = true) :
    part.isEmpty = false := by
  cases part with
  | nil => cases h
  | cons c rest => rfl

theorem classified_ipv4 (hlib : lib.Laws) {a : Ipv4} (h : lib.parseIpv4 text = some a) :
    IsIpText text ∧ Classified lib (text.map Char.toLower) (.ipv4 a) := by
  obtain ⟨htext, hcolon⟩ := hlib.text_of_parseIpv4 h
  have hlower : lib.parseIpv4 (text.map Char.toLower) = some a := by
    rw [hlib.parseIpv4_lower]
    exact h
  have hcolon' := (hlib.text_of_parseIpv4 hlower).2
  have hinput := normalizeIpParseInput_of_isIpText htext.lower
  have hcanonical : isCanonicalDottedDecimalIPv4 lib (text.map Char.toLower) =
      lib.isValidFourPartDecimal (text.map Char.toLower) := by
    unfold isCanonicalDottedDecimalIPv4
    rw [hinput]
    dsimp only
    rw [decide_eq_true htext.lower.ne_nil, Bool.true_and]
  refine ⟨htext, ?_⟩
  cases hfour : lib.isValidFourPartDecimal (text.map Char.toLower) with
  | true =>
    apply Classified.canonical
    unfold parseCanonicalIpAddress
    rw [hinput]
    dsimp only
    rw [if_neg htext.lower.ne_nil, hlower]
    dsimp only
    rw [if_pos hfour]
  | false =>
    rw [hfour] at hcanonical
    apply Classified.legacy
    · unfold parseCanonicalIpAddress
      rw [hinput]
      dsimp only
      rw [if_neg htext.lower.ne_nil, hlower]
      dsimp only
      rw [hfour]
      rfl
    · exact hcolon'
    · exact hcanonical
    · obtain ⟨hlength, hparts⟩ := hlib.parts_of_parseIpv4 hlower
      have hempty : ((text.map Char.toLower).splitOn '.').any List.isEmpty = false := by
        rw [any_eq_false]
        intro part hpart
        rw [isNumericIpv4LiteralPart_ne_nil (hparts part hpart)]
        exact Bool.false_ne_true
      have hall : ((text.map Char.toLower).splitOn '.').all isNumericIpv4LiteralPart = true :=
        all_eq_true.mpr hparts
      unfold isLegacyIpv4Literal
      rw [hinput]
      dsimp only
      rw [if_neg (not_or.mpr ⟨htext.lower.ne_nil, hcolon'⟩), hcanonical,
        if_neg Bool.false_ne_true, decide_eq_true hlength, hempty, hall]
      rfl

theorem classified_ipv6 (hlib : lib.Laws) {a : Ipv6} (h : lib.parseIpv6 text = some a) :
    IsIpText text ∧ Classified lib (text.map Char.toLower) (.ipv6 a) := by
  obtain ⟨htext, _⟩ := hlib.text_of_parseIpv6 h
  have hlower : lib.parseIpv6 (text.map Char.toLower) = some a := by
    rw [hlib.parseIpv6_lower]
    exact h
  have hnone : lib.parseIpv4 (text.map Char.toLower) = none := by
    cases hparse : lib.parseIpv4 (text.map Char.toLower) with
    | none => rfl
    | some b =>
      exact absurd (hlib.text_of_parseIpv6 hlower).2 (hlib.text_of_parseIpv4 hparse).2
  refine ⟨htext, .canonical ?_⟩
  unfold parseCanonicalIpAddress
  rw [normalizeIpParseInput_of_isIpText htext.lower]
  dsimp only
  rw [if_neg htext.lower.ne_nil, hnone, hlower]

theorem classified_of_denotes (hlib : lib.Laws) {address : ParsedIpAddress}
    (h : Denotes lib text address) :
    IsIpText text ∧ Classified lib (text.map Char.toLower) address := by
  cases h with
  | parsed h =>
    unfold Ipaddr.parse at h
    cases hparse : lib.parseIpv6 text with
    | some a =>
      rw [hparse] at h
      rw [← Option.some.inj h]
      exact classified_ipv6 hlib hparse
    | none =>
      rw [hparse] at h
      obtain ⟨a, hparse', rfl⟩ := Option.map_eq_some_iff.mp h
      exact classified_ipv4 hlib hparse'
  | @dotted before zone w x y z a hnone htext hzone hparse =>
    have hip := isIpText_dotted hlib hzone hparse
    have hhex := (hlib.text_of_parseIpv6 hparse).1
    have hbefore : ∀ c ∈ before, isIpTextChar c = true :=
      fun c hc => hhex.chars c (mem_append_left _ hc)
    have hzoneLower : IsZoneSuffix (zone.map Char.toLower) := by
      rcases hzone with rfl | ⟨name, rfl, hne, hname⟩
      · exact Or.inl rfl
      · refine Or.inr ⟨name.map Char.toLower, rfl, ?_, ?_⟩
        · intro hnil
          exact hne (map_eq_nil_iff.mp hnil)
        · intro c hc
          obtain ⟨d, hd, rfl⟩ := mem_map.mp hc
          have hchar : isIpTextChar d = true := by
            unfold isIpTextChar
            rw [hname d hd]
            rfl
          exact (lower_of_isIpTextChar hchar).2.2.2.2.2.2.2 (hname d hd)
    rw [← htext] at hip
    have hnormal : text.map Char.toLower = before.map Char.toLower ++
        ':' :: (dottedDecimal w x y z ++ zone.map Char.toLower) := by
      rw [htext, map_append, map_cons, map_append, lower_dottedDecimal]
      rfl
    -- the text in hexadecimal, with all but its new part in lower case
    have hsame : lib.parseIpv6 (before.map Char.toLower ++
        ':' :: (hexTail w x y z ++ zone.map Char.toLower)) = some a := by
      have hlowerChars : ∀ c ∈ zone, isIpTextChar c = true := fun c hc =>
        hhex.chars c (mem_append_right _ (mem_cons_of_mem _ (mem_append_right _ hc)))
      rw [← hparse, ← hlib.parseIpv6_lower, ← hlib.parseIpv6_lower (before ++ _)]
      simp only [map_append, map_cons, lower_lower hbefore, lower_lower hlowerChars]
    have hnone6 : lib.parseIpv6 (text.map Char.toLower) = none ∧
        lib.parseIpv4 (text.map Char.toLower) = none := by
      rw [hlib.parseIpv6_lower, hlib.parseIpv4_lower]
      unfold Ipaddr.parse at hnone
      cases hparse6 : lib.parseIpv6 text with
      | some b =>
        rw [hparse6] at hnone
        cases hnone
      | none =>
        rw [hparse6] at hnone
        exact ⟨rfl, Option.map_eq_none_iff.mp hnone⟩
    refine ⟨hip, .canonical ?_⟩
    unfold parseCanonicalIpAddress
    rw [normalizeIpParseInput_of_isIpText hip.lower]
    dsimp only
    rw [if_neg hip.lower.ne_nil, hnone6.2, hnone6.1]
    dsimp only
    rw [hnormal, parseIpv6WithEmbeddedIpv4_dotted hlib
      (fun c hc => by
        obtain ⟨d, hd, rfl⟩ := mem_map.mp hc
        exact (lower_of_isIpTextChar (hbefore d hd)).2.2.1) hzoneLower, hsame]
    rfl

/-- A text that passes the checks denotes no internal address, unless the embedded one is
hidden. -/
theorem isInternal_iff_of_passes (hlib : lib.Laws) (hlower : LowersAscii host)
    (hpasses : isBlockedHostnameOrIp host lib text policy = false) {address : ParsedIpAddress}
    (h : Denotes lib text address) : IsInternal lib policy address ↔
      ∃ a, address = .ipv6 a ∧ a.hidesEmbedded = true ∧ IsSpecialUseIpv4 lib policy a.last32 := by
  obtain ⟨htext, hclassified⟩ := classified_of_denotes hlib h
  -- the check looks at the text in lower case
  have hprivate : isPrivateIpAddress host lib (text.map Char.toLower) policy = false := by
    unfold isBlockedHostnameOrIp at hpasses
    rw [normalizeHostname_of_isIpText hlower htext] at hpasses
    dsimp only at hpasses
    rw [if_neg htext.lower.ne_nil] at hpasses
    exact (Bool.or_eq_false_iff.mp hpasses).2
  unfold isPrivateIpAddress at hprivate
  rw [normalizeHostname_of_isIpText hlower htext.lower, lower_lower htext.chars] at hprivate
  dsimp only at hprivate
  rw [if_neg htext.lower.ne_nil] at hprivate
  cases hclassified with
  | canonical hparse =>
    rw [hparse] at hprivate
    cases address with
    | ipv4 a =>
      dsimp only at hprivate
      constructor
      · intro hinternal
        rw [(isBlockedSpecialUseIpv4Address_iff hlib a).mpr hinternal] at hprivate
        cases hprivate
      · rintro ⟨_, heq, _⟩
        cases heq
    | ipv6 a =>
      dsimp only at hprivate
      have hspecial : ¬IsSpecialUseIpv6 lib policy a := by
        intro hspecial
        rw [(isBlockedSpecialUseIpv6Address_iff a).mpr hspecial, if_pos rfl] at hprivate
        cases hprivate
      rw [if_neg (fun hblocked => hspecial
        ((isBlockedSpecialUseIpv6Address_iff a).mp hblocked))] at hprivate
      constructor
      · rintro (hinternal | ⟨form, embedded, hcarries, hembedded⟩)
        · exact absurd hinternal hspecial
        · rcases extract_of_carries hlib hcarries with hextract | ⟨hidden, rfl⟩
          · rw [hextract] at hprivate
            dsimp only at hprivate
            rw [(isBlockedSpecialUseIpv4Address_iff hlib embedded).mpr hembedded] at hprivate
            cases hprivate
          · exact ⟨a, rfl, hidden, hembedded⟩
      · rintro ⟨b, heq, hidden, hembedded⟩
        cases heq
        obtain ⟨form, hcarries⟩ := carries_of_hidesEmbedded hidden
        exact Or.inr ⟨form, _, hcarries, hembedded⟩
  | legacy hparse hcolon hcanonical hlegacy =>
    rw [hparse] at hprivate
    dsimp only at hprivate
    rw [if_neg (fun hand => hcolon hand.1), hcanonical, hlegacy] at hprivate
    cases hprivate

end

end OpenClaw
