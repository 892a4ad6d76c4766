import OpenClaw.Ssrf.Internal

/-!
# A pinned lookup and internal addresses

When the addresses that a pinned lookup returns are never internal. They are checked as texts before
the lookup is made, and the lookup answers only for the normal form of the host it is made for.
-/

namespace OpenClaw

open List

/-! ## What is asked -/

/-- A pattern is a name, or `*.` before the names under a name. -/
def HostnameMatches (hostname pattern : Str) : Prop :=
  hostname = pattern ∧ startsWith pattern "*.".toList = false ∨
    ∃ suffix before, pattern = "*.".toList ++ suffix ∧ suffix ≠ [] ∧ hostname = before ++ '.' :: suffix

section

variable (host : Host) (lib : Ipaddr)

/-- For the hostname, and every sequence of calls. -/
structure NeverInternal (hostname : Str) (policy : Option SsrFPolicy) (checked : List Str)
    (lookup : PinnedLookup) : Prop where
  allowed : normalizeHostnameAllowlist host ((policy.map (·.hostnameAllowlist)).getD []) ≠ [] →
    ∃ pattern ∈ normalizeHostnameAllowlist host ((policy.map (·.hostnameAllowlist)).getD []),
      HostnameMatches (normalizeHostname host hostname) pattern
  not_blocked : isBlockedHostnameNormalized (normalizeHostname host hostname) = false
  replies : ∀ calls : List LookupCall, ∀ exchange ∈ calls.zip (lookup.replies host 0 calls),
    exchange.1.hasCallback = true →
      normalizeHostname host exchange.1.host = normalizeHostname host hostname →
        exchange.2 ≠ .fallback ∧ ∀ record ∈ exchange.2.records, record.address ∈ checked ∧
          ∀ address, Denotes lib record.address address → ¬IsInternal lib policy address

/-- The addresses that are checked for a lookup. -/
def checkedAddresses (results : List LookupAddress) (override : Option PinnedHostnameOverride) :
    List Str :=
  match override with
  | none => results.map (·.address)
  | some override => override.addresses

/-- The hostname is its own normal form once it is normalized, and no checked address hides an
embedded address for special use. -/
def NothingSlipsThrough (hostname : Str) (policy : Option SsrFPolicy) (checked : List Str) : Prop :=
  normalizeHostname host (normalizeHostname host hostname) = normalizeHostname host hostname ∧
    ∀ text ∈ checked, ∀ a, Denotes lib text (.ipv6 a) → a.hidesEmbedded = true →
      ¬IsSpecialUseIpv4 lib policy a.last32

end

/-! ## Calls -/

variable {text : Str} {checked : List Str}

section

variable {host : Host} {lib : Ipaddr} {policy : Option SsrFPolicy} {hostname : Str}
  {results : List LookupAddress} {l : PinnedLookup}

theorem automaticRecords_subset : l.automaticRecords ⊆ l.records := by
  unfold PinnedLookup.automaticRecords
  dsimp only
  split
  · exact fun _ => mem_of_mem_filter
  · exact List.Subset.refl _

theorem usable_subset (requestedFamily : ℕ) : l.usable requestedFamily ⊆ l.records := by
  unfold PinnedLookup.usable
  dsimp only
  by_cases hrequested : requestedFamily = 4 ∨ requestedFamily = 6
  · rw [if_pos hrequested]
    split
    · exact fun _ => mem_of_mem_filter
    · exact automaticRecords_subset
  · rw [if_neg hrequested, ite_self]
    exact automaticRecords_subset

/-- A record is among those of its family. -/
theorem mem_usable {record : LookupAddress} (h : record ∈ l.records)
    (hfamily : record.family = 4 ∨ record.family = 6) : record ∈ l.usable record.family := by
  have hmem : record ∈ l.records.filter (·.family = record.family) :=
    mem_filter.mpr ⟨h, decide_eq_true rfl⟩
  unfold PinnedLookup.usable
  dsimp only
  rw [if_pos hfamily, if_pos (length_pos_of_mem hmem)]
  exact hmem

/-- A call for the host of the lookup. -/
theorem call_of_host {c : LookupCall} (hcallback : c.hasCallback = true)
    (hne : normalizeHostname host c.host ≠ [])
    (hhost : normalizeHostname host c.host = l.normalizedHost) (index : ℕ) :
    (l.call host index c).1 ≠ .fallback ∧ (l.call host index c).1.records ⊆ l.records := by
  unfold PinnedLookup.call
  rw [if_neg (by rw [hcallback]; decide)]
  dsimp only
  rw [if_neg (not_or.mpr ⟨hne, not_not.mpr hhost⟩)]
  have hsubset := @usable_subset l c.options.requestedFamily
  split
  · exact ⟨fun h => (nomatch h), hsubset⟩
  · split
    · next chosen hchosen =>
      refine ⟨fun h => (nomatch h), ?_⟩
      intro record hrecord
      rw [mem_singleton.mp hrecord]
      exact hsubset (mem_of_getElem? hchosen)
    · exact ⟨fun h => (nomatch h), fun _ h => (nomatch h)⟩

/-- Any number of calls. -/
theorem replies_of_host (calls : List LookupCall) (index : ℕ) :
    ∀ exchange ∈ calls.zip (l.replies host index calls), exchange.1.hasCallback = true →
      normalizeHostname host exchange.1.host ≠ [] →
        normalizeHostname host exchange.1.host = l.normalizedHost →
          exchange.2 ≠ .fallback ∧ exchange.2.records ⊆ l.records := by
  induction calls generalizing index with
  | nil => exact fun _ h => (nomatch h)
  | cons c calls ih =>
    intro exchange hexchange
    rw [PinnedLookup.replies, zip_cons_cons] at hexchange
    rcases mem_cons.mp hexchange with rfl | hexchange
    · exact fun hcallback hne hhost => call_of_host hcallback hne hhost index
    · exact ih _ exchange hexchange

/-! ## Lookups that are made -/

/-- What was seen is in one of the lists. -/
def DedupedAddresses.Consistent (d : DedupedAddresses) : Prop :=
  ∀ text, text ∈ d.seen ↔ text ∈ d.ipv4 ++ d.otherFamilies

theorem DedupedAddresses.Consistent.add {d : DedupedAddresses} (h : d.Consistent)
    (entry : LookupAddress) : (d.add entry).Consistent ∧
      ∀ text, text ∈ (d.add entry).seen ↔ text ∈ d.seen ∨ text = entry.address := by
  unfold DedupedAddresses.add
  by_cases hseen : entry.address ∈ d.seen
  · rw [if_pos hseen]
    refine ⟨h, fun text => ⟨Or.inl, ?_⟩⟩
    rintro (hmem | rfl)
    · exact hmem
    · exact hseen
  · rw [if_neg hseen]
    have hcons : ∀ text, text ∈ entry.address :: d.seen ↔ text ∈ d.seen ∨ text = entry.address := by
      intro text
      rw [mem_cons]
      exact Or.comm
    split
    · refine ⟨fun text => ?_, hcons⟩
      show text ∈ entry.address :: d.seen ↔ text ∈ (d.ipv4 ++ [entry.address]) ++ d.otherFamilies
      rw [hcons, h text, mem_append, mem_append, mem_append, mem_singleton]
      tauto
    · refine ⟨fun text => ?_, hcons⟩
      show text ∈ entry.address :: d.seen ↔ text ∈ d.ipv4 ++ (d.otherFamilies ++ [entry.address])
      rw [hcons, h text, mem_append, mem_append, mem_append, mem_singleton]
      tauto

theorem DedupedAddresses.Consistent.foldl {d : DedupedAddresses} (h : d.Consistent)
    (results : List LookupAddress) : (results.foldl DedupedAddresses.add d).Consistent ∧
      ∀ text, text ∈ (results.foldl DedupedAddresses.add d).seen ↔
        text ∈ d.seen ∨ text ∈ results.map (·.address) := by
  induction results generalizing d with
  | nil => exact ⟨h, fun text => ⟨Or.inl, fun hor => hor.resolve_right not_mem_nil⟩⟩
  | cons entry results ih =>
    obtain ⟨hadd, hseen⟩ := h.add entry
    obtain ⟨hrest, hall⟩ := ih hadd
    refine ⟨hrest, fun text => ?_⟩
    rw [foldl_cons, hall, hseen, map_cons, mem_cons]
    tauto

/-- Nothing is lost or added. -/
theorem mem_dedupeAndPreferIpv4 :
    text ∈ dedupeAndPreferIpv4 results ↔ text ∈ results.map (·.address) := by
  have hinit : DedupedAddresses.Consistent ⟨[], [], []⟩ := fun _ => Iff.rfl
  obtain ⟨hconsistent, hseen⟩ := hinit.foldl results
  show text ∈ (results.foldl DedupedAddresses.add ⟨[], [], []⟩).ipv4 ++
    (results.foldl DedupedAddresses.add ⟨[], [], []⟩).otherFamilies ↔ _
  rw [← hconsistent text, hseen]
  exact ⟨fun h => h.resolve_left not_mem_nil, Or.inr⟩

theorem passes_of_assertAllowed
    (h : assertAllowedResolvedAddresses host lib results policy = .ok ()) :
    ∀ text ∈ results.map (·.address), isBlockedHostnameOrIp host lib text policy = false := by
  unfold assertAllowedResolvedAddresses at h
  split_ifs at h
  next hnone =>
  intro text htext
  obtain ⟨entry, hentry, rfl⟩ := mem_map.mp htext
  rw [any_eq_true, not_exists] at hnone
  rw [← Bool.not_eq_true]
  exact fun hblocked => hnone entry ⟨hentry, hblocked⟩

/-- A lookup for checked addresses. -/
structure MadeFor (host : Host) (lib : Ipaddr) (policy : Option SsrFPolicy) (hostname : Str)
    (checked : List Str) (l : PinnedLookup) : Prop where
  normalizedHost : l.normalizedHost = normalizeHostname host hostname
  records : ∀ record, record ∈ l.records ↔ ∃ text ∈ checked, record = lookupRecord text
  passes : ∀ text ∈ checked, isBlockedHostnameOrIp host lib text policy = false

theorem madeFor_of_create {addresses : List Str}
    (h : createPinnedLookup host hostname addresses = .ok l)
    (hsame : ∀ text, text ∈ addresses ↔ text ∈ checked)
    (hpasses : ∀ text ∈ checked, isBlockedHostnameOrIp host lib text policy = false) :
    MadeFor host lib policy hostname checked l := by
  unfold createPinnedLookup at h
  split_ifs at h
  cases h
  refine ⟨rfl, fun record => ?_, hpasses⟩
  rw [mem_map]
  constructor
  · rintro ⟨text, htext, rfl⟩
    exact ⟨text, (hsame text).mp htext, rfl⟩
  · rintro ⟨text, htext, rfl⟩
    exact ⟨text, (hsame text).mpr htext, rfl⟩

section

variable (hskip : shouldSkipPrivateNetworkChecks host (normalizeHostname host hostname) policy = false)
include hskip

/-- The checks of the hostname. -/
theorem resolveHostnamePolicyChecks_ok {checks : HostnamePolicyChecks}
    (h : resolveHostnamePolicyChecks host lib hostname policy = .ok checks) :
    checks = ⟨normalizeHostname host hostname, false⟩ ∧ normalizeHostname host hostname ≠ [] ∧
      matchesHostnameAllowlist (normalizeHostname host hostname)
        (normalizeHostnameAllowlist host ((policy.map (·.hostnameAllowlist)).getD [])) = true ∧
      isBlockedHostnameOrIp host lib (normalizeHostname host hostname) policy = false := by
  unfold resolveHostnamePolicyChecks at h
  dsimp only at h
  rw [hskip] at h
  split at h
  · cases h
  · next hne =>
    split at h
    · cases h
    · next hallowed =>
      rw [if_neg Bool.false_ne_true] at h
      unfold assertAllowedHostOrIp at h
      cases hblocked : isBlockedHostnameOrIp host lib (normalizeHostname host hostname) policy with
      | true =>
        rw [hblocked] at h
        cases h
      | false =>
        rw [hblocked] at h
        cases h
        exact ⟨rfl, hne, by simpa using hallowed, rfl⟩

theorem resolvePinned_ok {pinned : PinnedHostname}
    (h : resolvePinnedHostnameWithPolicy host lib hostname policy results = .ok pinned) :
    resolveHostnamePolicyChecks host lib hostname policy =
        .ok ⟨normalizeHostname host hostname, false⟩ ∧
      pinned.hostname = normalizeHostname host hostname ∧
      MadeFor host lib policy (normalizeHostname host hostname) (results.map (·.address))
        pinned.lookup := by
  unfold resolvePinnedHostnameWithPolicy at h
  cases hchecks : resolveHostnamePolicyChecks host lib hostname policy with
  | error e =>
    rw [hchecks] at h
    cases h
  | ok checks =>
    obtain ⟨rfl, _⟩ := resolveHostnamePolicyChecks_ok hskip hchecks
    rw [hchecks] at h
    refine ⟨rfl, ?_⟩
    change (if results = [] then _ else _) = _ at h
    by_cases hresults : results = []
    · rw [if_pos hresults] at h
      cases h
    · rw [if_neg hresults, if_pos rfl] at h
      cases hassert : assertAllowedResolvedAddresses host lib results policy with
      | error e =>
        rw [hassert] at h
        cases h
      | ok _ =>
        rw [hassert] at h
        change (if dedupeAndPreferIpv4 results = [] then _ else _) = _ at h
        split_ifs at h
        cases hcreate : createPinnedLookup host (normalizeHostname host hostname)
            (dedupeAndPreferIpv4 results) with
        | error e =>
          rw [hcreate] at h
          cases h
        | ok lookup =>
          rw [hcreate] at h
          cases h
          exact ⟨rfl, madeFor_of_create hcreate (fun _ => mem_dedupeAndPreferIpv4)
            (passes_of_assertAllowed hassert)⟩

end

theorem dispatcherLookup_ok {pinned : PinnedHostname} {override : Option PinnedHostnameOverride}
    (hskip : shouldSkipPrivateNetworkChecks host pinned.hostname policy = false)
    (hpinned : MadeFor host lib policy pinned.hostname (results.map (·.address)) pinned.lookup)
    (h : resolvePinnedDispatcherLookup host lib pinned override policy = .ok l) :
    MadeFor host lib policy pinned.hostname (checkedAddresses results override) l := by
  cases override with
  | none =>
    cases h
    exact hpinned
  | some override =>
    unfold resolvePinnedDispatcherLookup at h
    dsimp only at h
    by_cases hother : normalizeHostname host override.hostname = [] ∨
        normalizeHostname host override.hostname ≠ pinned.hostname
    · rw [if_pos hother] at h
      cases h
    · rw [if_neg hother, if_pos hskip] at h
      cases hassert : assertAllowedResolvedAddresses host lib
          (override.addresses.map lookupRecord) policy with
      | error e =>
        rw [hassert] at h
        cases h
      | ok _ =>
        rw [hassert] at h
        have hpasses := passes_of_assertAllowed hassert
        have hsame : (override.addresses.map lookupRecord).map (·.address) = override.addresses := by
          rw [map_map]
          exact map_id _
        rw [hsame] at hpasses
        exact madeFor_of_create h (fun _ => Iff.rfl) hpasses

/-! ## Allowed names -/

theorem hostnameMatches_of_allowed {pattern : Str}
    (h : isHostnameAllowedByPattern hostname pattern = true) : HostnameMatches hostname pattern := by
  unfold isHostnameAllowedByPattern at h
  cases hstart : startsWith pattern "*.".toList with
  | false =>
    rw [hstart, if_neg Bool.false_ne_true] at h
    exact Or.inl ⟨of_decide_eq_true h, hstart⟩
  | true =>
    rw [hstart, if_pos rfl] at h
    dsimp only at h
    by_cases hempty : pattern.drop 2 = [] ∨ hostname = pattern.drop 2
    · rw [if_pos hempty] at h
      cases h
    · rw [if_neg hempty] at h
      obtain ⟨suffix, rfl⟩ : "*.".toList <+: pattern := isPrefixOf_iff_prefix.mp hstart
      obtain ⟨before, hbefore⟩ : '.' :: suffix <:+ hostname := isSuffixOf_iff_suffix.mp h
      exact Or.inr ⟨suffix, before, rfl, (not_or.mp hempty).1, hbefore.symm⟩

theorem exists_matches_of_allowlist {allowlist : List Str} (hne : allowlist ≠ [])
    (h : matchesHostnameAllowlist hostname allowlist = true) :
    ∃ pattern ∈ allowlist, HostnameMatches hostname pattern := by
  unfold matchesHostnameAllowlist at h
  rw [if_neg hne] at h
  obtain ⟨pattern, hmem, hallowed⟩ := any_eq_true.mp h
  exact ⟨pattern, hmem, hostnameMatches_of_allowed hallowed⟩

/-! ## Never internal -/

section

variable (hmade : MadeFor host lib policy (normalizeHostname host hostname) checked l)
  (hne : normalizeHostname host hostname ≠ [])
  (hstable : normalizeHostname host (normalizeHostname host hostname) = normalizeHostname host hostname)
include hmade hne hstable

/-- The replies for the hostname, when its normal form is stable. -/
theorem MadeFor.replies (calls : List LookupCall) :
    ∀ exchange ∈ calls.zip (l.replies host 0 calls), exchange.1.hasCallback = true →
      normalizeHostname host exchange.1.host = normalizeHostname host hostname →
        exchange.2 ≠ .fallback ∧ ∀ record ∈ exchange.2.records, record.address ∈ checked := by
  intro exchange hexchange hcallback hhost
  have hnormalized : l.normalizedHost = normalizeHostname host hostname :=
    hmade.normalizedHost.trans hstable
  obtain ⟨hfallback, hsubset⟩ := replies_of_host calls 0 exchange hexchange hcallback
    (by rw [hhost]; exact hne) (by rw [hhost, hnormalized])
  refine ⟨hfallback, fun record hrecord => ?_⟩
  obtain ⟨text, htext, rfl⟩ := (hmade.records record).mp (hsubset hrecord)
  exact htext

/-- Every checked address is returned to some call for the host. -/
theorem MadeFor.exists_call (htext : text ∈ checked) :
    ∃ c : LookupCall, c.hasCallback = true ∧ c.host = hostname ∧
      lookupRecord text ∈ (l.call host 0 c).1.records := by
  have hmem := (hmade.records (lookupRecord text)).mpr ⟨text, htext, rfl⟩
  have hfamily : (lookupRecord text).family = 4 ∨ (lookupRecord text).family = 6 := by
    show (if ':' ∈ text then 6 else 4) = 4 ∨ (if ':' ∈ text then 6 else 4) = 6
    split
    · exact Or.inr rfl
    · exact Or.inl rfl
  have hnormalized : l.normalizedHost = normalizeHostname host hostname :=
    hmade.normalizedHost.trans hstable
  refine ⟨⟨hostname, .object true (some (lookupRecord text).family), true⟩, rfl, rfl, ?_⟩
  unfold PinnedLookup.call
  rw [if_neg (show ¬true = false from fun h => nomatch h)]
  dsimp only
  rw [if_neg (not_or.mpr ⟨hne, not_not.mpr hnormalized.symm⟩)]
  exact mem_usable hmem hfamily

end

variable (host lib policy hostname results)

variable {host lib policy hostname results}

end

/-! ## A library

Dotted decimals and a table of IPv6 texts. -/

/-- The octet of its text. -/
def parseOctet (part : Str) : Option (BitVec 8) :=
  if octetText (BitVec.ofNat 8 (decimalValue part)) = part then
    some (BitVec.ofNat 8 (decimalValue part))
  else none

def parseDottedDecimal (text : Str) : Option Ipv4 :=
  match (text.splitOn '.').map parseOctet with
  | [some w, some x, some y, some z] => some ⟨w, x, y, z⟩
  | _ => none

def sampleRangeIpv4 (a : Ipv4) : Ipv4Range :=
  if a.octets.1 = 10 then .privateUse else if a.octets.1 = 127 then .loopback else .unicast

def sampleRangeIpv6 (a : Ipv6) : Ipv6Range :=
  if a.isTranslated then .rfc6145 else if a.isNat64 then .rfc6052 else .unicast

/-- `64:ff9b:1:1::a00:1` -/
def nat64LocalAddress : Ipv6 := ⟨0x64, 0xff9b, 1, 1, 0, 0, 0xa00, 1⟩

def sampleIpaddr : Ipaddr where
  parseIpv4 := parseDottedDecimal
  isValidFourPartDecimal := fun text => (parseDottedDecimal text).isSome
  parseIpv6 := fun text =>
    if text.map Char.toLower = "64:ff9b:1:1::a00:1".toList then some nat64LocalAddress else none
  rangeIpv4 := sampleRangeIpv4
  rangeIpv6 := sampleRangeIpv6
  matchIpv4 := fun a _ _ => a.isBenchmark
  isIPv4MappedAddress := Ipv6.isMapped
  toIPv4Address := Ipv6.last32

theorem parseOctet_octetText (octet : BitVec 8) : parseOctet (octetText octet) = some octet := by
  have hvalue : BitVec.ofNat 8 (decimalValue (octetText octet)) = octet := by
    rw [decimalValue_octetText]
    rw [BitVec.ofNat_toNat, BitVec.setWidth_eq]
  unfold parseOctet
  rw [hvalue, if_pos rfl]

theorem octetText_of_parseOctet {part : Str} {octet : BitVec 8}
    (h : parseOctet part = some octet) : octetText octet = part := by
  unfold parseOctet at h
  split_ifs at h
  next heq =>
  rw [← Option.some.inj h]
  exact heq

theorem parseDottedDecimal_eq_some {w x y z : BitVec 8} :
    parseDottedDecimal text = some ⟨w, x, y, z⟩ ↔ text = dottedDecimal w x y z := by
  unfold parseDottedDecimal
  constructor
  · intro h
    split at h
    · next w' x' y' z' hparts =>
      cases h
      obtain ⟨a, rest, hsplit, ha, hrest⟩ := map_eq_cons_iff.mp hparts
      obtain ⟨b, rest, rfl, hb, hrest⟩ := map_eq_cons_iff.mp hrest
      obtain ⟨c, rest, rfl, hc, hrest⟩ := map_eq_cons_iff.mp hrest
      obtain ⟨d, rest, rfl, hd, hrest⟩ := map_eq_cons_iff.mp hrest
      rw [map_eq_nil_iff.mp hrest] at hsplit
      have hjoin := @intercalate_splitOn _ text _ _ '.'
      rw [hsplit] at hjoin
      rw [← hjoin, ← octetText_of_parseOctet ha, ← octetText_of_parseOctet hb,
        ← octetText_of_parseOctet hc, ← octetText_of_parseOctet hd]
      show octetText w ++ '.' :: (octetText x ++ '.' :: (octetText y ++ '.' :: (octetText z ++ []))) =
        dottedDecimal w x y z
      rw [append_nil]
      rfl
    · cases h
  · rintro rfl
    rw [splitOn_dottedDecimal]
    simp only [map_cons, map_nil, parseOctet_octetText]

/-- Lowering a character leaves it or makes a letter of it. -/
theorem toLower_eq_or (c : Char) :
    c.toLower = c ∨ c.isAlphanum = true ∧ c.toLower.isDigit = false ∧ c.toLower ≠ '.' ∧
      c.toLower.toLower = c.toLower := by
  have hall : ∀ n < 128, (Char.ofNat n).toLower = Char.ofNat n ∨
      (Char.ofNat n).isAlphanum = true ∧ (Char.ofNat n).toLower.isDigit = false ∧
        (Char.ofNat n).toLower ≠ '.' ∧
          (Char.ofNat n).toLower.toLower = (Char.ofNat n).toLower := by
    decide +kernel
  by_cases hlt : c.toNat < 128
  · have hchar := hall c.toNat hlt
    rw [Char.ofNat_toNat] at hchar
    exact hchar
  · left
    unfold Char.toLower
    rw [dif_neg]
    rintro ⟨_, hle⟩
    have hle' : c.toNat ≤ 90 := hle
    omega

theorem map_toLower_idem (text : Str) :
    (text.map Char.toLower).map Char.toLower = text.map Char.toLower := by
  rw [map_map]
  apply map_congr_left
  intro c _
  show c.toLower.toLower = c.toLower
  rcases toLower_eq_or c with hsame | ⟨_, _, _, hsame⟩
  · rw [hsame]
    exact hsame
  · exact hsame

/-- Dotted decimals have no letters. -/
theorem eq_dottedDecimal_of_lower {w x y z : BitVec 8}
    (h : text.map Char.toLower = dottedDecimal w x y z) : text = dottedDecimal w x y z := by
  have hsame : ∀ c ∈ text, c.toLower = c := by
    intro c hc
    rcases toLower_eq_or c with hsame | ⟨_, hdigit, hdot, _⟩
    · exact hsame
    · have hmem : c.toLower ∈ dottedDecimal w x y z := by
        rw [← h]
        exact mem_map_of_mem hc
      rcases of_mem_dottedDecimal hmem with hdigit' | hdot'
      · rw [hdigit'] at hdigit
        cases hdigit
      · exact absurd hdot' hdot
  rw [← h]
  exact ((map_congr_left hsame).trans (map_id _)).symm

theorem isNumericIpv4LiteralPart_octetText (octet : BitVec 8) :
    isNumericIpv4LiteralPart (octetText octet) = true := by
  have hempty : (octetText octet).isEmpty = false := isEmpty_eq_false_iff.mpr (octetText_ne_nil _)
  have hall : (octetText octet).all Char.isDigit = true :=
    all_eq_true.mpr fun _ => isDigit_of_mem_octetText
  unfold isNumericIpv4LiteralPart
  rw [hempty, hall]
  rfl

theorem isIpText_dottedDecimal (w x y z : BitVec 8) :
    IsIpText (dottedDecimal w x y z) ∧ ':' ∉ dottedDecimal w x y z := by
  refine ⟨⟨?_, ?_, getLast?_dottedDecimal_ne⟩, ?_⟩
  · exact append_ne_nil_of_left_ne_nil (octetText_ne_nil w) _
  · intro c hc
    rcases of_mem_dottedDecimal hc with hdigit | rfl
    · unfold isIpTextChar Char.isAlphanum
      rw [hdigit, Bool.or_true]
      rfl
    · decide
  · intro hmem
    rcases of_mem_dottedDecimal hmem with hdigit | hdot
    · cases hdigit
    · exact nomatch hdot

/-- A text that lowers to an address text is one. -/
theorem isIpText_of_lower (h : IsIpText (text.map Char.toLower)) : IsIpText text := by
  refine ⟨?_, ?_, ?_⟩
  · rintro rfl
    exact h.ne_nil rfl
  · intro c hc
    rcases toLower_eq_or c with hsame | ⟨halnum, _⟩
    · rw [← hsame]
      exact h.chars _ (mem_map_of_mem hc)
    · unfold isIpTextChar
      rw [halnum]
      rfl
  · intro hlast
    apply h.last
    rw [getLast?_map, hlast]
    rfl

theorem sampleIpaddr_laws : sampleIpaddr.Laws where
  text_of_parseIpv4 := by
    intro text a h
    rw [parseDottedDecimal_eq_some.mp h]
    exact isIpText_dottedDecimal _ _ _ _
  parts_of_parseIpv4 := by
    intro text a h
    rw [parseDottedDecimal_eq_some.mp h, splitOn_dottedDecimal]
    refine ⟨le_refl _, fun part hpart => ?_⟩
    simp only [mem_cons, not_mem_nil, or_false] at hpart
    rcases hpart with rfl | rfl | rfl | rfl <;> exact isNumericIpv4LiteralPart_octetText _
  text_of_parseIpv6 := by
    intro text a h
    unfold sampleIpaddr at h
    dsimp only at h
    split_ifs at h
    next heq =>
    have hfixed : IsIpText "64:ff9b:1:1::a00:1".toList :=
      ⟨by decide, all_eq_true.mp (by decide), by decide⟩
    refine ⟨isIpText_of_lower (by rw [heq]; exact hfixed), ?_⟩
    have hmem : ':' ∈ text.map Char.toLower := by
      rw [heq]
      decide
    obtain ⟨c, hc, hcolon⟩ := mem_map.mp hmem
    rcases toLower_eq_or c with hsame | ⟨halnum, _⟩
    · rw [← hcolon, hsame]
      exact hc
    · have hchar : isIpTextChar c = true := by
        unfold isIpTextChar
        rw [halnum]
        rfl
      rw [← (lower_of_isIpTextChar hchar).2.2.2.2.2.1 hcolon]
      exact hc
  parseIpv4_lower := by
    intro text
    apply Option.ext
    rintro ⟨w, x, y, z⟩
    show parseDottedDecimal (text.map Char.toLower) = some _ ↔ parseDottedDecimal text = some _
    rw [parseDottedDecimal_eq_some, parseDottedDecimal_eq_some]
    constructor
    · exact eq_dottedDecimal_of_lower
    · rintro rfl
      exact lower_dottedDecimal
  parseIpv6_lower := by
    intro text
    show (if (text.map Char.toLower).map Char.toLower = _ then _ else _) = _
    rw [map_toLower_idem]
    rfl
  isValidFourPartDecimal_iff := by
    intro text
    show (parseDottedDecimal text).isSome = true ↔ _
    rw [Option.isSome_iff_exists]
    constructor
    · rintro ⟨⟨w, x, y, z⟩, h⟩
      exact ⟨w, x, y, z, parseDottedDecimal_eq_some.mp h⟩
    · rintro ⟨w, x, y, z, h⟩
      exact ⟨⟨w, x, y, z⟩, parseDottedDecimal_eq_some.mpr h⟩
  parseIpv4_dottedDecimal := fun _ _ _ _ => parseDottedDecimal_eq_some.mpr rfl
  matchIpv4_rfc2544 := fun _ => rfl
  isIPv4MappedAddress_eq := fun _ => rfl
  toIPv4Address_eq := fun _ _ => rfl
  rfc6145_iff := by
    intro a
    show sampleRangeIpv6 a = _ ↔ _
    unfold sampleRangeIpv6
    cases a.isTranslated with
    | true => exact ⟨fun _ => rfl, fun _ => rfl⟩
    | false => cases a.isNat64 <;> decide
  rfc6052_iff := by
    intro a
    have hdisjoint : a.isTranslated = true → a.isNat64 = false := by
      intro h
      unfold Ipv6.isTranslated at h
      have hp0 : a.p0 = 0 := by
        simp only [Bool.and_eq_true, decide_eq_true_eq] at h
        exact h.1.1.1.1.1
      unfold Ipv6.isNat64
      rw [hp0]
      rfl
    show sampleRangeIpv6 a = _ ↔ _
    unfold sampleRangeIpv6
    cases htranslated : a.isTranslated with
    | true =>
      rw [hdisjoint htranslated]
      decide
    | false => cases a.isNat64 <;> decide

theorem lowersAscii_asciiLinux : LowersAscii Host.asciiLinux := fun _ _ => rfl

/-! ## Two answers -/

/-- The lookup of `example.com` for one answer. -/
def samplePinned (address : Str) : PinnedHostname :=
  ⟨"example.com".toList, [address], "example.com".toList, [lookupRecord address],
    List.cons_ne_nil _ _⟩

end OpenClaw
