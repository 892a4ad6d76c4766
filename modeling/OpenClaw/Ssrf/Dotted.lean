import OpenClaw.Ssrf.Pinned

/-!
# Dotted tails

What the second parser makes of a text whose last 32 bits are in dotted decimal.
-/

namespace OpenClaw

open List

/-! ## The address that a text denotes

What a text stands for is said of the text as it is returned. The checks look at its normal form,
which stands for the same address. -/

/-- `toLowerCase` on ASCII texts. -/
def LowersAscii (host : Host) : Prop :=
  ∀ text : Str, (∀ c ∈ text, c.toNat < 128) → host.toLowerCase text = text.map Char.toLower

/-- `[0-9A-Za-z]+` behind a per cent sign, or nothing. -/
def IsZoneSuffix (zone : Str) : Prop :=
  zone = [] ∨ ∃ name, zone = '%' :: name ∧ name ≠ [] ∧ ∀ c ∈ name, c.isAlphanum = true

/-- The last two parts in hexadecimal. -/
def hexTail (w x y z : BitVec 8) : Str :=
  hexText (w.toNat * 256 + x.toNat) ++ ':' :: hexText (y.toNat * 256 + z.toNat)

/-- The address of a text: what the library makes of it, or, where its last 32 bits are in dotted
decimal and the library does not take that, what it makes of the text with these in hexadecimal. -/
inductive Denotes (lib : Ipaddr) (text : Str) : ParsedIpAddress → Prop
  | parsed {address : ParsedIpAddress} : lib.parse text = some address → Denotes lib text address
  | dotted {before zone : Str} {w x y z : BitVec 8} {address : Ipv6} :
      lib.parse text = none → text = before ++ ':' :: (dottedDecimal w x y z ++ zone) →
      IsZoneSuffix zone →
      lib.parseIpv6 (before ++ ':' :: (hexTail w x y z ++ zone)) = some address →
      Denotes lib text (.ipv6 address)

/-! ## Normal forms -/

section

variable {host : Host} {text : Str}

theorem isIpTextChar_lt {c : Char} (h : isIpTextChar c = true) : c.toNat < 128 := by
  unfold isIpTextChar at h
  delta Char.isAlphanum Char.isAlpha Char.isUpper Char.isLower Char.isDigit at h
  simp only [Bool.or_eq_true, Bool.and_eq_true, decide_eq_true_eq] at h
  rcases h with (((((h | h) | h) | rfl) | rfl) | rfl)
  · have hle : c.toNat ≤ 90 := h.2
    omega
  · have hle : c.toNat ≤ 122 := h.2
    omega
  · have hle : c.toNat ≤ 57 := h.2
    omega
  · decide
  · decide
  · decide

/-- What lowering does to the characters of an address. -/
theorem lower_of_isIpTextChar {c : Char} (h : isIpTextChar c = true) :
    isSpace c = false ∧ c ≠ '[' ∧ isIpTextChar c.toLower = true ∧
      c.toLower.toLower = c.toLower ∧ (c.toLower = '.' → c = '.') ∧
      (c.toLower = ':' → c = ':') ∧ (c.toLower = '%' → c = '%') ∧
      (c.isAlphanum = true → c.toLower.isAlphanum = true) := by
  have hall : ∀ n < 128, isIpTextChar (Char.ofNat n) = true →
      isSpace (Char.ofNat n) = false ∧ Char.ofNat n ≠ '[' ∧
        isIpTextChar (Char.ofNat n).toLower = true ∧
        (Char.ofNat n).toLower.toLower = (Char.ofNat n).toLower ∧
        ((Char.ofNat n).toLower = '.' → Char.ofNat n = '.') ∧
        ((Char.ofNat n).toLower = ':' → Char.ofNat n = ':') ∧
        ((Char.ofNat n).toLower = '%' → Char.ofNat n = '%') ∧
        ((Char.ofNat n).isAlphanum = true → (Char.ofNat n).toLower.isAlphanum = true) := by
    decide +kernel
  have hchar := hall c.toNat (isIpTextChar_lt h)
  rw [Char.ofNat_toNat] at hchar
  exact hchar h

theorem dropWhile_eq_self_of_head {p : Char → Bool} {c : Char} {rest : Str} (h : p c = false) :
    (c :: rest).dropWhile p = c :: rest := by
  rw [dropWhile_cons, h]
  rfl

theorem trim_of_isIpText (h : IsIpText text) : trim text = text := by
  have hstart : trimStart text = text := by
    cases text with
    | nil => rfl
    | cons c rest =>
      exact dropWhile_eq_self_of_head (lower_of_isIpTextChar (h.chars c mem_cons_self)).1
  unfold trim
  rw [hstart]
  unfold trimEnd
  rw [rdropWhile_eq_self_iff]
  intro hne hspace
  have hlast := (lower_of_isIpTextChar (h.chars _ (getLast_mem hne))).1
  rw [hlast] at hspace
  cases hspace

theorem IsIpText.lower (h : IsIpText text) : IsIpText (text.map Char.toLower) where
  ne_nil := by
    intro hnil
    exact h.ne_nil (map_eq_nil_iff.mp hnil)
  chars := by
    intro c hc
    obtain ⟨d, hd, rfl⟩ := mem_map.mp hc
    exact (lower_of_isIpTextChar (h.chars d hd)).2.2.1
  last := by
    intro hlast
    rw [getLast?_map] at hlast
    obtain ⟨d, hd, hdot⟩ := Option.map_eq_some_iff.mp hlast
    have hmem := mem_of_getLast? hd
    rw [(lower_of_isIpTextChar (h.chars d hmem)).2.2.2.2.1 hdot] at hd
    exact h.last hd

theorem lower_lower (h : ∀ c ∈ text, isIpTextChar c = true) :
    (text.map Char.toLower).map Char.toLower = text.map Char.toLower := by
  rw [map_map]
  exact map_congr_left fun c hc => (lower_of_isIpTextChar (h c hc)).2.2.2.1

theorem not_startsWith_bracket (h : IsIpText text) : startsWith text "[".toList = false := by
  cases text with
  | nil => rfl
  | cons c rest =>
    have hne := (lower_of_isIpTextChar (h.chars c mem_cons_self)).2.1
    show ('[' == c && [].isPrefixOf rest) = false
    rw [beq_false_of_ne (Ne.symm hne)]
    rfl

theorem endsWith_singleton (c : Char) : endsWith text [c] = true → text.getLast? = some c := by
  intro h
  have hsuffix : [c] <:+ text := isSuffixOf_iff_suffix.mp h
  obtain ⟨before, rfl⟩ := hsuffix
  exact getLast?_concat

/-- The normal form of an address is its text in lower case. -/
theorem normalizeHostname_of_isIpText (hlower : LowersAscii host) (h : IsIpText text) :
    normalizeHostname host text = text.map Char.toLower := by
  have hlowered : normalizeLowercaseStringOrEmpty host text = text.map Char.toLower := by
    unfold normalizeLowercaseStringOrEmpty
    rw [trim_of_isIpText h, if_neg h.ne_nil, hlower text fun c hc => isIpTextChar_lt (h.chars c hc)]
  have hdot : ¬endsWith (text.map Char.toLower) ".".toList = true :=
    fun hend => h.lower.last (endsWith_singleton '.' hend)
  unfold normalizeHostname
  rw [hlowered]
  dsimp only
  rw [if_neg hdot, not_startsWith_bracket h.lower, if_neg fun hand => Bool.false_ne_true hand.1]

theorem normalizeIpParseInput_of_isIpText (h : IsIpText text) :
    normalizeIpParseInput text = some text := by
  unfold normalizeIpParseInput normalizeOptionalString
  rw [Option.bind_some, trim_of_isIpText h, nonEmptyText?, if_neg h.ne_nil, Option.map_some]
  unfold stripIpv6Brackets
  rw [not_startsWith_bracket h, if_neg fun hand => Bool.false_ne_true hand.1]

end

/-! ## Dotted tails -/

section

variable {w x y z : BitVec 8}

/-! ## Octets -/

variable (octet : BitVec 8)

theorem octetText_eq : octetText octet = Nat.toDigits 10 octet.toNat := by
  rw [octetText, Nat.repr, String.toList_ofList]

theorem isDigit_of_mem_octetText {octet : BitVec 8} {c : Char} (h : c ∈ octetText octet) :
    c.isDigit = true := by
  rw [octetText_eq] at h
  exact Nat.isDigit_of_mem_toDigits (by omega) (by omega) h

theorem octetText_ne_nil : octetText octet ≠ [] := by
  rw [octetText_eq]
  exact ne_nil_of_length_pos Nat.length_toDigits_pos

theorem not_mem_octetText {octet : BitVec 8} {c : Char} (h : c.isDigit = false) :
    c ∉ octetText octet := by
  intro hmem
  rw [isDigit_of_mem_octetText hmem] at h
  cases h

theorem decimalValue_octetText : decimalValue (octetText octet) = octet.toNat := by
  rw [decimalValue, octetText_eq]
  exact Nat.ofDigitChars_toDigits (by decide) (by decide)

/-- A digit or a dot. -/
theorem of_mem_dottedDecimal {c : Char} (h : c ∈ dottedDecimal w x y z) :
    c.isDigit = true ∨ c = '.' := by
  unfold dottedDecimal at h
  simp only [mem_append, mem_cons] at h
  rcases h with h | rfl | h | rfl | h | rfl | h
  · exact Or.inl (isDigit_of_mem_octetText h)
  · exact Or.inr rfl
  · exact Or.inl (isDigit_of_mem_octetText h)
  · exact Or.inr rfl
  · exact Or.inl (isDigit_of_mem_octetText h)
  · exact Or.inr rfl
  · exact Or.inl (isDigit_of_mem_octetText h)

theorem splitOn_dottedDecimal : (dottedDecimal w x y z).splitOn '.' =
    [octetText w, octetText x, octetText y, octetText z] := by
  have hsingle : ∀ octet : BitVec 8, (octetText octet).splitOn '.' = [octetText octet] :=
    fun octet => splitOn_eq_singleton (not_mem_octetText (by decide))
  unfold dottedDecimal
  rw [splitOn_append_cons_self, splitOn_append_cons_self,
    splitOn_append_cons_self, hsingle, hsingle, hsingle, hsingle]
  rfl

theorem shiftLeft_or (a b : BitVec 8) : a.toNat <<< 8 ||| b.toNat = a.toNat * 256 + b.toNat := by
  rw [← Nat.shiftLeft_add_eq_or_of_lt b.isLt, Nat.shiftLeft_eq]

/-! ## The last colon -/

theorem splitAfterLastColon_append (before : Str) {tail : Str} (h : ':' ∉ tail) :
    splitAfterLastColon (before ++ ':' :: tail) = (before ++ [':'], tail) := by
  have hall : ∀ c ∈ tail.reverse, (decide (c ≠ ':')) = true := by
    intro c hc
    apply decide_eq_true
    rintro rfl
    exact h (mem_reverse.mp hc)
  have hreverse : (before ++ ':' :: tail).reverse = tail.reverse ++ (':' :: before.reverse) := by
    rw [reverse_append, reverse_cons, append_assoc]
    rfl
  unfold splitAfterLastColon List.rdropWhile List.rtakeWhile
  rw [hreverse, dropWhile_append_of_pos hall, takeWhile_append_of_pos hall]
  have hdrop : List.dropWhile (fun c => decide (c ≠ ':')) (':' :: before.reverse) =
      ':' :: before.reverse := dropWhile_eq_self_of_head (by decide)
  have htake : List.takeWhile (fun c => decide (c ≠ ':')) (':' :: before.reverse) = [] := by
    rw [takeWhile_cons]
    rfl
  rw [hdrop, htake, append_nil, reverse_reverse, reverse_cons, reverse_reverse]

end

/-! ## The second parser -/

section

variable {host : Host} {lib : Ipaddr} {before zone : Str} {w x y z : BitVec 8}

theorem not_mem_zoneSuffix (h : IsZoneSuffix zone) : ':' ∉ zone := by
  rcases h with rfl | ⟨name, rfl, _, hname⟩
  · exact not_mem_nil
  · intro hmem
    rcases mem_cons.mp hmem with heq | hmem
    · exact nomatch heq
    · exact absurd (hname ':' hmem) (by decide)

theorem parseIpv6WithEmbeddedIpv4_dotted (hlib : lib.Laws)
    (hbefore : ∀ c ∈ before, isIpTextChar c = true) (hzone : IsZoneSuffix zone) :
    parseIpv6WithEmbeddedIpv4 lib (before ++ ':' :: (dottedDecimal w x y z ++ zone)) =
      lib.parseIpv6 (before ++ ':' :: (hexTail w x y z ++ zone)) := by
  have hdotted : ∀ c ∈ dottedDecimal w x y z, c ≠ ':' ∧ c ≠ '%' := by
    intro c hc
    rcases of_mem_dottedDecimal hc with hdigit | rfl
    · constructor
      · rintro rfl
        cases hdigit
      · rintro rfl
        cases hdigit
    · decide
  have hcolon : ':' ∉ dottedDecimal w x y z ++ zone := by
    intro hmem
    rcases mem_append.mp hmem with hmem | hmem
    · exact (hdotted ':' hmem).1 rfl
    · exact not_mem_zoneSuffix hzone hmem
  have hdot : '.' ∈ before ++ ':' :: (dottedDecimal w x y z ++ zone) := by
    have hin : '.' ∈ dottedDecimal w x y z := mem_append_right _ mem_cons_self
    exact mem_append_right _ (mem_cons_of_mem _ (mem_append_left _ hin))
  have hall : ∀ c ∈ dottedDecimal w x y z, (decide (c ≠ '%')) = true :=
    fun c hc => decide_eq_true (hdotted c hc).2
  have htake : (dottedDecimal w x y z ++ zone).takeWhile (fun c => decide (c ≠ '%')) =
      dottedDecimal w x y z := by
    rw [takeWhile_append_of_pos hall]
    rcases hzone with rfl | ⟨name, rfl, _⟩
    · exact append_nil _
    · rw [takeWhile_cons]
      exact append_nil _
  have hdrop : (dottedDecimal w x y z ++ zone).dropWhile (fun c => decide (c ≠ '%')) = zone := by
    rw [dropWhile_append_of_pos hall]
    rcases hzone with rfl | ⟨name, rfl, _⟩
    · rfl
    · exact dropWhile_eq_self_of_head (by decide)
  have hlines : ¬(before ++ [':']).any (fun c =>
      c = '\n' || c = '\r' || c.toNat = 0x2028 || c.toNat = 0x2029) = true := by
    rw [any_eq_true]
    rintro ⟨c, hc, hline⟩
    have hchar : isIpTextChar c = true := by
      rcases mem_append.mp hc with hc | hc
      · exact hbefore c hc
      · rw [mem_singleton.mp hc]
        decide
    have hlt := isIpTextChar_lt hchar
    simp only [Bool.or_eq_true, decide_eq_true_eq] at hline
    rcases hline with ((rfl | rfl) | hline) | hline
    · revert hchar
      decide
    · revert hchar
      decide
    · omega
    · omega
  have hsuffix : ¬(zone ≠ [] ∧ (zone.tail = [] ∨ ¬zone.tail.all Char.isAlphanum = true)) := by
    rcases hzone with rfl | ⟨name, rfl, hne, hname⟩
    · exact fun h => h.1 rfl
    · rintro ⟨_, hempty | hbad⟩
      · exact hne hempty
      · exact hbad (all_eq_true.mpr hname)
  have hfour : lib.isValidFourPartDecimal (dottedDecimal w x y z) = true :=
    (hlib.isValidFourPartDecimal_iff _).mpr ⟨w, x, y, z, rfl⟩
  unfold parseIpv6WithEmbeddedIpv4
  rw [if_neg (by rw [not_or, not_not, not_not]; exact
    ⟨mem_append_right _ mem_cons_self, hdot⟩), splitAfterLastColon_append before hcolon]
  dsimp only
  rw [htake, hdrop, if_neg hlines, if_neg hsuffix, if_pos hfour, splitOn_dottedDecimal]
  simp only [map_cons, map_nil]
  rw [decimalValue_octetText, decimalValue_octetText, decimalValue_octetText,
    decimalValue_octetText, shiftLeft_or, shiftLeft_or]
  unfold hexTail
  simp only [append_assoc, cons_append, nil_append]

/-! ## Dotted texts in normal form -/

theorem toLower_of_isDigit {c : Char} (h : c.isDigit = true) : c.toLower = c := by
  have hall : ∀ n < 128, (Char.ofNat n).isDigit = true → (Char.ofNat n).toLower = Char.ofNat n := by
    decide +kernel
  have hlt : c.toNat < 128 := by
    have halnum : isIpTextChar c = true := by
      unfold isIpTextChar Char.isAlphanum
      rw [h, Bool.or_true]
      rfl
    exact isIpTextChar_lt halnum
  have hchar := hall c.toNat hlt
  rw [Char.ofNat_toNat] at hchar
  exact hchar h

theorem lower_dottedDecimal : (dottedDecimal w x y z).map Char.toLower = dottedDecimal w x y z := by
  have hsame : ∀ c ∈ dottedDecimal w x y z, c.toLower = c := by
    intro c hc
    rcases of_mem_dottedDecimal hc with hdigit | rfl
    · exact toLower_of_isDigit hdigit
    · rfl
  exact (map_congr_left hsame).trans (map_id _)

theorem getLast?_append_cons (front : Str) (c : Char) {back : Str} (h : back ≠ []) :
    (front ++ c :: back).getLast? = back.getLast? := by
  rw [getLast?_append_of_ne_nil _ (cons_ne_nil _ _), getLast?_cons_of_ne_nil h]

theorem getLast?_dottedDecimal_ne : (dottedDecimal w x y z).getLast? ≠ some '.' := by
  unfold dottedDecimal
  rw [getLast?_append_cons _ _ (append_ne_nil_of_left_ne_nil (octetText_ne_nil x) _),
    getLast?_append_cons _ _ (append_ne_nil_of_left_ne_nil (octetText_ne_nil y) _),
    getLast?_append_cons _ _ (octetText_ne_nil z)]
  intro hlast
  exact not_mem_octetText (by decide) (mem_of_getLast? hlast)

theorem isIpText_dotted {address : Ipv6} (hlib : lib.Laws) (hzone : IsZoneSuffix zone)
    (hparse : lib.parseIpv6 (before ++ ':' :: (hexTail w x y z ++ zone)) = some address) :
    IsIpText (before ++ ':' :: (dottedDecimal w x y z ++ zone)) := by
  have htext := (hlib.text_of_parseIpv6 hparse).1
  refine ⟨append_ne_nil_of_right_ne_nil _ (cons_ne_nil _ _), ?_, ?_⟩
  · intro c hc
    rcases mem_append.mp hc with hc | hc
    · exact htext.chars c (mem_append_left _ hc)
    · rcases mem_cons.mp hc with rfl | hc
      · decide
      · rcases mem_append.mp hc with hc | hc
        · rcases of_mem_dottedDecimal hc with hdigit | rfl
          · unfold isIpTextChar Char.isAlphanum
            rw [hdigit, Bool.or_true]
            rfl
          · decide
        · exact htext.chars c (mem_append_right _ (mem_cons_of_mem _ (mem_append_right _ hc)))
  · intro hlast
    have hne : dottedDecimal w x y z ++ zone ≠ [] :=
      append_ne_nil_of_left_ne_nil (append_ne_nil_of_left_ne_nil (octetText_ne_nil w) _) _
    rw [getLast?_append_cons before ':' hne] at hlast
    rcases hzone with rfl | ⟨name, rfl, hname, halnum⟩
    · rw [append_nil] at hlast
      exact getLast?_dottedDecimal_ne hlast
    · rw [getLast?_append_cons _ _ hname] at hlast
      exact absurd (halnum '.' (mem_of_getLast? hlast)) (by decide)

end

end OpenClaw
