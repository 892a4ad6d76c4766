import OpenClaw.Routing.Separation

/-!
# Stored keys and request keys

`parseAgentSessionKey` and the translations between the key under which a session is stored and
the key that a request names. A stored key is read by its segments between colons, and empty ones
are dropped.
-/

namespace OpenClaw

open List

section

variable (host : RouteHost)

/-! ## Reading a key -/

structure ParsedAgentSessionKey where
  agentId : Str
  rest : Str
deriving DecidableEq

/-- `value.split(":").filter(Boolean)`. -/
def keySegments (value : Str) : List Str := (value.splitOn ':').filter (· ≠ [])

variable (sessionKey : Option Str)

def parseAgentSessionKey : Option ParsedAgentSessionKey :=
  match (normalizeOptionalString sessionKey).map host.toLowerCase with
  | none => none
  | some raw =>
    match keySegments raw with
    | first :: second :: third :: parts =>
      if first ≠ "agent".toList then none
      else
        let rest := joinWith ":".toList (third :: parts)
        match normalizeOptionalString (some second) with
        | none => none
        | some agentId => if rest = [] then none else some ⟨agentId, rest⟩
    | _ => none

def resolveAgentIdFromSessionKey : Str :=
  normalizeAgentId host (some (((parseAgentSessionKey host sessionKey).map (·.agentId)).getD
    "main".toList))

def toAgentRequestSessionKey (storeKey : Option Str) : Option Str :=
  let raw := trim (storeKey.getD [])
  if raw = [] then none
  else match parseAgentSessionKey host (some raw) with
    | some parsed => some parsed.rest
    | none => some raw

def toAgentStoreSessionKey (agentId : Str) (requestKey mainKey : Option Str) : Str :=
  let raw := trim (requestKey.getD [])
  let lowered := normalizeToken host raw
  if raw = [] ∨ lowered = "main".toList then buildAgentMainSessionKey host agentId mainKey
  else match parseAgentSessionKey host (some raw) with
    | some parsed => "agent:".toList ++ parsed.agentId ++ ":".toList ++ parsed.rest
    | none =>
      if startsWith lowered "agent:".toList then lowered
      else "agent:".toList ++ normalizeAgentId host (some agentId) ++ ":".toList ++ lowered

/-- The part of a key behind the agent. -/
def keyTail (params : PeerSessionParams) : Str :=
  match params.peerKind.getD .direct with
  | .direct =>
    let dmScope := params.dmScope.getD .main
    let peerId := trim (params.peerId.getD [])
    let linkedPeerId :=
      if dmScope = .main then none
      else resolveLinkedPeerId host params.identityLinks params.channel peerId
    let peerId := normalizeToken host (linkedPeerId.getD peerId)
    (directPeerKey host dmScope params.channel peerId params.accountId).getD
      (normalizeMainKey host params.mainKey)
  | kind =>
    orElse (normalizeToken host params.channel) "unknown".toList ++ ":".toList ++ kind.text ++
      ":".toList ++ orElse (normalizeToken host (params.peerId.getD [])) "unknown".toList

def agentKey (agentId rest : Str) : Str := "agent:".toList ++ agentId ++ ":".toList ++ rest

theorem buildAgentPeerSessionKey_eq (params : PeerSessionParams) :
    buildAgentPeerSessionKey host params =
      agentKey (normalizeAgentId host (some params.agentId)) (keyTail host params) := by
  unfold buildAgentPeerSessionKey keyTail agentKey
  dsimp only
  cases params.peerKind.getD .direct with
  | direct =>
    dsimp only
    generalize directPeerKey host _ params.channel _ params.accountId = key
    cases key with
    | none => rfl
    | some key => rfl
  | group => simp only [append_assoc]
  | channel => simp only [append_assoc]

end

/-! ## Lower case, letter by letter -/

/-- `toLowerCase` leaves a string alone where it leaves its characters alone: what the place of a
letter in the string decides is only the lower case of a capital sigma. -/
structure LowerCasesLetters (toLowerCase : Str → Str) : Prop extends LowerCases toLowerCase where
  fixed : ∀ s, toLowerCase s = s ↔ ∀ c ∈ s, toLowerCase [c] = [c]

variable {s value rest agentId raw : Str} {c : Char} {parts : List Str}

section Tidy

variable {host : RouteHost} (hlower : LowerCasesLetters host.toLowerCase)

/-- In lower case, and not blank at either end. -/
structure IsTidy (host : RouteHost) (s : Str) : Prop where
  nonempty : s ≠ []
  lower : host.toLowerCase s = s
  first : ∀ c ∈ s.head?, isSpace c = false
  last : ∀ c ∈ s.getLast?, isSpace c = false

theorem trim_eq_self_iff (s : Str) :
    trim s = s ↔ (∀ c ∈ s.head?, isSpace c = false) ∧ ∀ c ∈ s.getLast?, isSpace c = false := by
  constructor
  · intro h
    constructor
    · intro c hc
      have hstart : trimStart s = s := by
        have hprefix : trim s <+: trimStart s := rdropWhile_prefix isSpace (trimStart s)
        have hsuffix : trimStart s <:+ s := dropWhile_suffix isSpace
        rw [h] at hprefix
        exact hsuffix.eq_of_length (le_antisymm hsuffix.length_le hprefix.length_le)
      cases s with
      | nil => exact nomatch hc
      | cons first rest =>
        obtain rfl : first = c := Option.some.inj hc
        have hself := dropWhile_eq_self_iff.mp hstart (Nat.succ_pos _)
        exact Bool.eq_false_iff.mpr hself
    · intro c hc
      have hend : trimEnd s = s := by
        have htrim : trimEnd (trimStart s) = s := h
        have hidem := rdropWhile_idempotent isSpace (trimStart s)
        show s.rdropWhile isSpace = s
        conv_lhs => rw [← htrim]
        exact hidem.trans htrim
      have hne : s ≠ [] := by
        intro hnil
        rw [hnil] at hc
        exact nomatch hc
      have hself := (rdropWhile_eq_self_iff (p := isSpace) (l := s)).mp hend hne
      rw [getLast?_eq_some_getLast hne] at hc
      rw [← Option.some.inj hc]
      exact Bool.eq_false_iff.mpr hself
  · intro ⟨hfirst, hlast⟩
    have hstart : trimStart s = s := by
      apply dropWhile_eq_self_iff.mpr
      intro hpos
      have hhead : s.head? = some (s[0]) := head?_eq_getElem? ▸ getElem?_eq_getElem hpos
      exact Bool.eq_false_iff.mp (hfirst _ hhead)
    unfold trim
    rw [hstart]
    apply rdropWhile_eq_self_iff.mpr
    intro hne
    exact Bool.eq_false_iff.mp (hlast _ (getLast?_eq_some_getLast hne))

theorem length_trim_le (s : Str) : (trim s).length ≤ s.length := by
  have hend : (trim s).length ≤ (trimStart s).length :=
    ( rdropWhile_prefix isSpace (trimStart s)).length_le
  have hstart : (trimStart s).length ≤ s.length := (dropWhile_suffix isSpace).length_le
  omega

theorem IsTidy.trim (h : IsTidy host s) : trim s = s :=
  (trim_eq_self_iff s).mpr ⟨h.first, h.last⟩

theorem IsTidy.normalizeToken (h : IsTidy host s) : normalizeToken host s = s := by
  unfold OpenClaw.normalizeToken normalizeLowercaseStringOrEmpty
  rw [h.trim, if_neg h.nonempty, h.lower]

include hlower

theorem lower_append {t : Str} (hs : host.toLowerCase s = s) (ht : host.toLowerCase t = t) :
    host.toLowerCase (s ++ t) = s ++ t := by
  apply (hlower.fixed _).mpr
  intro c hc
  rcases mem_append.mp hc with hmem | hmem
  · exact (hlower.fixed s).mp hs c hmem
  · exact (hlower.fixed t).mp ht c hmem

omit hlower in
theorem toLower_of_isAccountIdChar (hc : isAccountIdChar c = true) : c.toLower = c := by
  unfold Char.toLower
  split_ifs with hupper
  · exfalso
    have hlow : 65 ≤ c.toNat := hupper.1
    have hhigh : c.toNat ≤ 90 := hupper.2
    unfold isAccountIdChar at hc
    simp only [Bool.or_eq_true, Bool.and_eq_true, decide_eq_true_eq] at hc
    rcases hc with ((hc | hc) | rfl) | rfl
    · have hle : 97 ≤ c.toNat := hc.1
      omega
    · have hle : c.toNat ≤ 57 := hc.2
      omega
    · exact nomatch hhigh
    · exact nomatch hlow
  · rfl

theorem lower_of_isAccountIdChar (h : ∀ c ∈ s, isAccountIdChar c = true) :
    host.toLowerCase s = s := by
  have hself : ∀ c ∈ s, isAccountIdChar c.toLower = true := by
    intro c hc
    rw [toLower_of_isAccountIdChar (h c hc)]
    exact h c hc
  rw [hlower.ascii s fun c hc => ascii_of_isAccountIdChar_toLower (hself c hc)]
  calc s.map Char.toLower = s.map id :=
        map_congr_left fun c hc => toLower_of_isAccountIdChar (h c hc)
    _ = s := map_id s

theorem IsTidy.append {middle t : Str} (hs : IsTidy host s)
    (hmiddle : host.toLowerCase middle = middle) (ht : IsTidy host t) :
    IsTidy host (s ++ middle ++ t) where
  nonempty := by
    intro hnil
    exact ht.nonempty (append_eq_nil_iff.mp hnil).2
  lower := lower_append hlower (lower_append hlower hs.lower hmiddle) ht.lower
  first := by
    intro c hc
    obtain ⟨a, rest, rfl⟩ := exists_cons_of_ne_nil hs.nonempty
    exact hs.first c hc
  last := by
    intro c hc
    rw [getLast?_append_of_ne_nil _ ht.nonempty] at hc
    exact ht.last c hc

omit hlower in
theorem isSpace_of_isAccountIdChar (h : isAccountIdChar c = true) : isSpace c = false := by
  unfold isAccountIdChar at h
  simp only [Bool.or_eq_true, Bool.and_eq_true, decide_eq_true_eq] at h
  have hrange : (97 ≤ c.toNat ∧ c.toNat ≤ 122) ∨ (48 ≤ c.toNat ∧ c.toNat ≤ 57) ∨
      c.toNat = 95 ∨ c.toNat = 45 := by
    rcases h with ((h | h) | rfl) | rfl
    · exact .inl h
    · exact .inr (.inl h)
    · exact .inr (.inr (.inl rfl))
    · exact .inr (.inr (.inr rfl))
  unfold isSpace
  simp only [Bool.or_eq_false_iff, Bool.and_eq_false_iff, decide_eq_false_iff_not]
  omega

/-- Ids are tidy. -/
theorem isTidy_of_isAccountIdChar (hne : s ≠ [])
    (h : ∀ c ∈ s, isAccountIdChar c = true) : IsTidy host s where
  nonempty := hne
  lower := lower_of_isAccountIdChar hlower h
  first := fun c hc => isSpace_of_isAccountIdChar (h c (mem_of_mem_head? hc))
  last := fun c hc => isSpace_of_isAccountIdChar (h c (mem_of_mem_getLast? hc))

theorem isTidy_normalizeToken (hne : normalizeToken host s ≠ []) :
    IsTidy host (normalizeToken host s) := by
  have hblank : trim s ≠ [] := fun hnil =>
    hne ((normalizeToken_eq_nil_iff hlower.toLowerCases s).mpr hnil)
  have htoken : normalizeToken host s = host.toLowerCase (trim s) := if_neg hblank
  have htrim : trim (host.toLowerCase (trim s)) = host.toLowerCase (trim s) :=
    hlower.trimmed _ (trim_trim s)
  have hends := (trim_eq_self_iff _).mp htrim
  rw [htoken] at hne ⊢
  exact ⟨hne, hlower.idempotent _, hends.1, hends.2⟩

theorem isTidy_orElse_normalizeToken {fallback : Str} (hne : fallback ≠ [])
    (hfallback : ∀ c ∈ fallback, isAccountIdChar c = true) (s : Str) :
    IsTidy host (orElse (normalizeToken host s) fallback) := by
  unfold orElse
  split
  · exact isTidy_of_isAccountIdChar hlower hne hfallback
  · next htoken => exact isTidy_normalizeToken hlower htoken

theorem isAccountIdChar_normalizeAgentId (value : Option Str) :
    ∀ c ∈ normalizeAgentId host value, isAccountIdChar c = true := by
  have hmain : ∀ c ∈ "main".toList, isAccountIdChar c = true := all_eq_true.mp (by decide)
  have hcanonical := isAccountIdChar_canonicalizeAccountId hlower.toLowerCases
    (trim (value.getD []))
  unfold normalizeAgentId
  dsimp only
  split_ifs with hblank hvalid
  · exact hmain
  · unfold canonicalizeAccountId at hcanonical
    dsimp only at hcanonical
    rw [if_pos hvalid] at hcanonical
    exact hcanonical
  · unfold orElse
    split
    · exact hmain
    · exact hcanonical

theorem normalizeAgentId_ne_nil (value : Option Str) : normalizeAgentId host value ≠ [] := by
  unfold normalizeAgentId orElse
  dsimp only
  split_ifs with hblank hvalid hnil
  · decide
  · intro htoken
    rw [normalizeToken_eq_nil_iff hlower.toLowerCases, trim_trim] at htoken
    exact hblank htoken
  · decide
  · exact hnil

theorem isTidy_normalizeAgentId (value : Option Str) : IsTidy host (normalizeAgentId host value) :=
  isTidy_of_isAccountIdChar hlower (normalizeAgentId_ne_nil hlower value)
    (isAccountIdChar_normalizeAgentId hlower value)

theorem isTidy_normalizeAccountId (value : Option Str) :
    IsTidy host (normalizeAccountId host value) := by
  refine isTidy_of_isAccountIdChar hlower ?_
    (isAccountIdChar_normalizeAccountId hlower.toLowerCases value)
  have hdefault : "default".toList ≠ [] := by decide
  unfold normalizeAccountId normalizeOptionalAccountId
  cases normalizeNonEmptyString value with
  | none => exact hdefault
  | some trimmed =>
    rw [Option.bind_some]
    dsimp only
    split
    · exact hdefault
    · next hne => exact (not_or.mp hne).1

/-- What stands behind the agent is tidy. -/
theorem isTidy_keyTail (params : PeerSessionParams) : IsTidy host (keyTail host params) := by
  have hid : ∀ s : Str, s.all isAccountIdChar = true → ∀ c ∈ s, isAccountIdChar c = true :=
    fun s h => all_eq_true.mp h
  have hunknown := fun s => isTidy_orElse_normalizeToken hlower (by decide)
    (hid "unknown".toList (by decide)) s
  have hmain : IsTidy host (normalizeMainKey host params.mainKey) :=
    isTidy_orElse_normalizeToken hlower (by decide) (hid _ (by decide)) _
  have hdirect : IsTidy host "direct".toList :=
    isTidy_of_isAccountIdChar hlower (by decide) (hid _ (by decide))
  have hcolon : host.toLowerCase ":".toList = ":".toList := hlower.ascii ":".toList (by simp)
  have hjoin : ∀ {s t : Str}, IsTidy host s → IsTidy host t → IsTidy host (s ++ ":".toList ++ t) :=
    fun hs ht => hs.append hlower hcolon ht
  have hgroup : ∀ kind : ChatType, kind.text.all isAccountIdChar = true →
      IsTidy host (orElse (normalizeToken host params.channel) "unknown".toList ++ ":".toList ++
        kind.text ++ ":".toList ++
          orElse (normalizeToken host (params.peerId.getD [])) "unknown".toList) := by
    intro kind hkind
    have hne : kind.text ≠ [] := by cases kind <;> decide
    exact hjoin (hjoin (hunknown _) (isTidy_of_isAccountIdChar hlower hne (hid _ hkind)))
      (hunknown _)
  unfold keyTail
  dsimp only
  cases params.peerKind.getD .direct with
  | group => exact hgroup .group (by decide)
  | channel => exact hgroup .channel (by decide)
  | direct =>
    dsimp only
    generalize hpeer : normalizeToken host _ = peerId
    cases params.dmScope.getD .main with
    | main => exact hmain
    | perPeer =>
      show IsTidy host ((if peerId = [] then none else some _).getD _)
      split_ifs with hnil
      · exact hmain
      · exact hjoin hdirect (hpeer ▸ isTidy_normalizeToken hlower (hpeer ▸ hnil))
    | perChannelPeer =>
      show IsTidy host ((if peerId = [] then none else some _).getD _)
      split_ifs with hnil
      · exact hmain
      · have htidy : IsTidy host peerId := hpeer ▸ isTidy_normalizeToken hlower (hpeer ▸ hnil)
        have h := hjoin (hjoin (hunknown params.channel) hdirect) htidy
        simpa using h
    | perAccountChannelPeer =>
      show IsTidy host ((if peerId = [] then none else some _).getD _)
      split_ifs with hnil
      · exact hmain
      · have htidy : IsTidy host peerId := hpeer ▸ isTidy_normalizeToken hlower (hpeer ▸ hnil)
        have h := hjoin (hjoin (hjoin (hunknown params.channel)
          (isTidy_normalizeAccountId hlower params.accountId)) hdirect) htidy
        simpa using h

end Tidy

/-! ## Segments -/

/-- The segments are put together again without the empty ones. -/
def compactKey (value : Str) : Str := joinWith ":".toList (keySegments value)

theorem length_joinWith (sep : Char) (hne : parts ≠ []) :
    (joinWith [sep] parts).length + 1 = (parts.map List.length).sum + parts.length := by
  induction parts with
  | nil => exact absurd rfl hne
  | cons part rest ih =>
    cases rest with
    | nil =>
      unfold joinWith
      rw [intercalate_singleton]
      simp
    | cons next rest =>
      have hrest := ih (cons_ne_nil _ _)
      have hcons : joinWith [sep] (part :: next :: rest) =
          part ++ [sep] ++ joinWith [sep] (next :: rest) := intercalate_cons_cons
      rw [hcons]
      simp only [length_append, length_cons, length_nil, map_cons, sum_cons] at hrest ⊢
      omega

theorem sum_length_filter (parts : List Str) :
    ((parts.filter (· ≠ [])).map List.length).sum = (parts.map List.length).sum := by
  induction parts with
  | nil => rfl
  | cons part rest ih =>
    by_cases hnil : part = []
    · rw [filter_cons_of_neg (by simpa using hnil), ih, hnil]
      simp
    · rw [filter_cons_of_pos (by simpa using hnil), map_cons, map_cons, sum_cons, sum_cons, ih]

theorem joinWith_splitOn (value : Str) : joinWith ":".toList (value.splitOn ':') = value :=
  intercalate_splitOn ':'

theorem ne_nil_of_mem_keySegments {segment : Str} (h : segment ∈ keySegments value) :
    segment ≠ [] := by
  have hmem := (mem_filter.mp h).2
  simpa using hmem

theorem keySegments_eq_splitOn_iff (value : Str) :
    keySegments value = value.splitOn ':' ↔ [] ∉ value.splitOn ':' := by
  unfold keySegments
  rw [filter_eq_self]
  constructor
  · intro h hmem
    simpa using h [] hmem
  · intro h segment hmem
    have hne : segment ≠ [] := fun hnil => h (hnil ▸ hmem)
    simpa using hne

theorem compactKey_eq_self (h : [] ∉ value.splitOn ':') : compactKey value = value := by
  unfold compactKey
  rw [(keySegments_eq_splitOn_iff value).mpr h]
  exact joinWith_splitOn value

theorem length_compactKey (h : keySegments value ≠ []) :
    (compactKey value).length + (value.splitOn ':').length =
      value.length + (keySegments value).length := by
  have hcompact : (compactKey value).length + 1 = _ := length_joinWith ':' h
  have hwhole : (joinWith ":".toList (value.splitOn ':')).length + 1 = _ :=
    length_joinWith ':' (splitOn_ne_nil ':' value)
  have hsum : ((keySegments value).map List.length).sum = _ := sum_length_filter (value.splitOn ':')
  rw [joinWith_splitOn] at hwhole
  omega

theorem length_compactKey_le (h : keySegments value ≠ []) :
    (compactKey value).length ≤ value.length := by
  have hlength := length_compactKey h
  have hfilter : (keySegments value).length ≤ (value.splitOn ':').length := length_filter_le _ _
  omega

/-- A dropped segment leaves the key shorter by its colon. -/
theorem length_compactKey_lt (h : keySegments value ≠ [])
    (hempty : [] ∈ value.splitOn ':') : (compactKey value).length < value.length := by
  have hlength := length_compactKey h
  have hfilter : (keySegments value).length < (value.splitOn ':').length := by
    apply length_filter_lt_length_iff_exists.mpr
    exact ⟨[], hempty, by simp⟩
  omega

theorem keySegments_append {segment : Str} (hne : segment ≠ []) (hcolon : ':' ∉ segment)
    (rest : Str) : keySegments (segment ++ ':' :: rest) = segment :: keySegments rest := by
  unfold keySegments
  rw [splitOn_append_cons_self_of_not_mem hcolon]
  exact filter_cons_of_pos (by simpa using hne)

theorem joinWith_subset {sep : Char} :
    ∀ c ∈ joinWith [sep] parts, c = sep ∨ ∃ part ∈ parts, c ∈ part := by
  induction parts with
  | nil => exact fun c hc => absurd hc not_mem_nil
  | cons part rest ih =>
    intro c hc
    cases rest with
    | nil =>
      unfold joinWith at hc
      rw [intercalate_singleton] at hc
      exact .inr ⟨part, mem_cons_self, hc⟩
    | cons next rest =>
      have hcons : joinWith [sep] (part :: next :: rest) =
          part ++ [sep] ++ joinWith [sep] (next :: rest) := intercalate_cons_cons
      rw [hcons, mem_append, mem_append] at hc
      rcases hc with (hpart | hsep) | hrest
      · exact .inr ⟨part, mem_cons_self, hpart⟩
      · exact .inl (mem_singleton.mp hsep)
      · rcases ih c hrest with hsep | ⟨other, hother, hmem⟩
        · exact .inl hsep
        · exact .inr ⟨other, mem_cons_of_mem _ hother, hmem⟩

theorem subset_joinWith {sep : Char} {part : Str} (h : part ∈ parts) :
    part ⊆ joinWith [sep] parts := by
  induction parts with
  | nil => exact absurd h not_mem_nil
  | cons first rest ih =>
    cases rest with
    | nil =>
      unfold joinWith
      rw [intercalate_singleton, mem_singleton.mp h]
      exact List.Subset.refl _
    | cons next rest =>
      have hcons : joinWith [sep] (first :: next :: rest) =
          first ++ [sep] ++ joinWith [sep] (next :: rest) := intercalate_cons_cons
      rw [hcons]
      intro c hc
      rcases mem_cons.mp h with rfl | hrest
      · exact mem_append_left _ (mem_append_left _ hc)
      · exact mem_append_right _ (ih hrest hc)

theorem mem_of_mem_compactKey (h : c ∈ compactKey value) : c = ':' ∨ c ∈ value := by
  rcases joinWith_subset c h with hsep | ⟨segment, hsegment, hmem⟩
  · exact .inl hsep
  · right
    have hsplit : segment ∈ value.splitOn ':' := (mem_filter.mp hsegment).1
    have hsub : segment ⊆ joinWith ":".toList (value.splitOn ':') := subset_joinWith hsplit
    rw [joinWith_splitOn] at hsub
    exact hsub hmem

/-! ## Agent ids -/

/-- A text that is not an id, with its dashes removed at both ends and not yet cut. -/
def uncutAgentId (host : RouteHost) (value : Str) : Str :=
  ((replaceInvalidChars false (normalizeToken host (trim value))).dropWhile (· = '-')).rdropWhile
    (· = '-')

/-- The text begins with an underscore, so what the replacements leave is no id either, and the
cut comes right behind a dash. -/
def IsCutAtDash (host : RouteHost) (value : Str) : Prop :=
  isValidAccountId (trim value) = false ∧ (uncutAgentId host value).head? = some '_' ∧
    (uncutAgentId host value)[63]? = some '-'

theorem replaceInvalidChars_eq_self (h : ∀ c ∈ s, isAccountIdChar c = true) :
    replaceInvalidChars false s = s := by
  induction s with
  | nil => rfl
  | cons c rest ih =>
    unfold replaceInvalidChars
    rw [if_pos (h c mem_cons_self), ih fun d hd => h d (mem_cons_of_mem _ hd)]

section AgentIds

variable {host : RouteHost} (hlower : LowerCasesLetters host.toLowerCase)
include hlower

omit hlower in
/-- Only letters come from another character. -/
theorem eq_of_toLower_eq {d : Char} (h : c.toLower = d) (hd : d.toNat < 97) : c = d := by
  unfold Char.toLower at h
  split_ifs at h with hupper
  · exfalso
    have hlow : 65 ≤ c.val.toNat := hupper.1
    have hhigh : c.val.toNat ≤ 90 := hupper.2
    have hval : d.toNat = (c.val + 32).toNat := by
      rw [← h]
      rfl
    rw [UInt32.toNat_add] at hval
    have hlit : (32 : UInt32).toNat = 32 := rfl
    omega
  · exact h

omit hlower in
theorem isValidAccountId_of_chars
    (hchars : ∀ d ∈ c :: rest, isAccountIdChar d = true) (hunderscore : c ≠ '_') (hdash : c ≠ '-')
    (hlength : rest.length ≤ 63) : isValidAccountId (c :: rest) = true := by
  have hself : ∀ d ∈ c :: rest, isAccountIdChar d.toLower = true := by
    intro d hd
    rw [toLower_of_isAccountIdChar (hchars d hd)]
    exact hchars d hd
  unfold isValidAccountId
  simp only [Bool.and_eq_true, bne_iff_ne, decide_eq_true_eq, all_eq_true]
  exact ⟨⟨⟨⟨hself c mem_cons_self, hunderscore⟩, hdash⟩, hlength⟩,
    fun d hd => hself d (mem_cons_of_mem _ hd)⟩

/-- Lower case keeps an id an id. -/
theorem isValidAccountId_normalizeToken (hvalid : isValidAccountId s = true)
    (htrim : trim s = s) : isValidAccountId (normalizeToken host s) = true := by
  cases s with
  | nil => exact nomatch hvalid
  | cons first rest =>
    unfold isValidAccountId at hvalid
    simp only [Bool.and_eq_true, bne_iff_ne, decide_eq_true_eq, all_eq_true] at hvalid
    obtain ⟨⟨⟨⟨hfirst, hunderscore⟩, hdash⟩, hlength⟩, hrest⟩ := hvalid
    have hchars : ∀ c ∈ first :: rest, isAccountIdChar c.toLower = true := by
      intro c hc
      rcases mem_cons.mp hc with rfl | hmem
      · exact hfirst
      · exact hrest c hmem
    have htoken : normalizeToken host (first :: rest) = (first :: rest).map Char.toLower := by
      unfold normalizeToken normalizeLowercaseStringOrEmpty
      rw [htrim, if_neg (cons_ne_nil _ _)]
      exact hlower.ascii _ fun c hc => ascii_of_isAccountIdChar_toLower (hchars c hc)
    rw [htoken]
    have hlowered : ∀ c ∈ (first :: rest).map Char.toLower, isAccountIdChar c = true := by
      intro c hc
      obtain ⟨d, hd, rfl⟩ := mem_map.mp hc
      exact hchars d hd
    refine isValidAccountId_of_chars hlowered ?_ ?_ ?_
    · exact fun heq => hunderscore (eq_of_toLower_eq heq (by decide))
    · exact fun heq => hdash (eq_of_toLower_eq heq (by decide))
    · rw [length_map]
      exact hlength

/-- An id in lower case is its own normal form. -/
theorem normalizeAgentId_of_isValid (hchars : ∀ c ∈ s, isAccountIdChar c = true)
    (hvalid : isValidAccountId s = true) : normalizeAgentId host (some s) = s := by
  have hne : s ≠ [] := by
    intro hnil
    rw [hnil] at hvalid
    exact nomatch hvalid
  have htidy := isTidy_of_isAccountIdChar hlower hne hchars
  unfold normalizeAgentId
  dsimp only
  rw [Option.getD_some, htidy.trim, if_neg hne, if_pos hvalid]
  exact htidy.normalizeToken

theorem normalizeAgentId_main : normalizeAgentId host (some "main".toList) = "main".toList :=
  normalizeAgentId_of_isValid hlower (all_eq_true.mp (by decide)) (by decide)

/-- A text of id characters that begins with an underscore loses only the dashes at its end. -/
theorem normalizeAgentId_of_underscore
    (hchars : ∀ c ∈ '_' :: rest, isAccountIdChar c = true) (hlength : rest.length ≤ 63)
    (hlast : ('_' :: rest).getLast? ≠ some '-') :
    normalizeAgentId host (some ('_' :: rest)) = '_' :: rest := by
  have hne : '_' :: rest ≠ [] := cons_ne_nil _ _
  have htidy := isTidy_of_isAccountIdChar hlower hne hchars
  have hinvalid : isValidAccountId ('_' :: rest) = false := by
    unfold isValidAccountId
    simp
  have hend : ('_' :: rest).rdropWhile (fun c => decide (c = '-')) = '_' :: rest := by
    apply rdropWhile_eq_self_iff.mpr
    intro h hdash
    apply hlast
    rw [getLast?_eq_some_getLast h, of_decide_eq_true hdash]
  have htake : ('_' :: rest).take 64 = '_' :: rest := take_of_length_le (by
    rw [length_cons]
    omega)
  have hcanonical : canonicalizeAccountId host ('_' :: rest) = '_' :: rest := by
    have htoken : normalizeLowercaseStringOrEmpty host.toHost ('_' :: rest) = '_' :: rest :=
      htidy.normalizeToken
    have hstart : ('_' :: rest).dropWhile (fun c => decide (c = '-')) = '_' :: rest := rfl
    unfold canonicalizeAccountId
    dsimp only
    rw [if_neg (by rw [hinvalid]; exact Bool.false_ne_true), htoken,
      replaceInvalidChars_eq_self hchars, hstart, hend, htake]
  unfold normalizeAgentId
  dsimp only
  rw [Option.getD_some, htidy.trim, if_neg hne, if_neg (by rw [hinvalid]; exact Bool.false_ne_true),
    hcanonical]
  rfl

omit hlower in
/-- Where the text is not an id, its normal form is cut at 64 characters. -/
theorem normalizeAgentId_of_not_isValid (hinvalid : isValidAccountId (trim value) = false)
    (hne : (uncutAgentId host value).take 64 ≠ []) :
    normalizeAgentId host (some value) = (uncutAgentId host value).take 64 := by
  have hcanonical : canonicalizeAccountId host (trim value) = (uncutAgentId host value).take 64 := by
    unfold canonicalizeAccountId
    dsimp only
    rw [if_neg (by rw [hinvalid]; exact Bool.false_ne_true)]
    rfl
  have hblank : trim value ≠ [] := by
    intro hnil
    apply hne
    unfold uncutAgentId
    rw [hnil]
    rfl
  unfold normalizeAgentId
  dsimp only
  rw [Option.getD_some, if_neg hblank, if_neg (by rw [hinvalid]; exact Bool.false_ne_true),
    hcanonical]
  exact if_neg hne

omit hlower in
/-- The dashes in front are gone. -/
theorem head_uncutAgentId_ne (h : (uncutAgentId host value).head? = some c) : c ≠ '-' := by
  intro hc
  let start := (replaceInvalidChars false (normalizeToken host (trim value))).dropWhile
    (fun c => decide (c = '-'))
  have hprefix : uncutAgentId host value <+: start := rdropWhile_prefix _ _
  have hhead : start.head? = some c := by
    obtain ⟨rest, hrest⟩ := head?_eq_some_iff.mp h
    obtain ⟨after, hafter⟩ := hprefix
    rw [← hafter, hrest]
    rfl
  have hnot := head?_dropWhile_not (fun c => decide (c = '-'))
    (replaceInvalidChars false (normalizeToken host (trim value)))
  rw [show (replaceInvalidChars false (normalizeToken host (trim value))).dropWhile
    (fun c => decide (c = '-')) = start from rfl, hhead] at hnot
  simp [hc] at hnot

omit hlower in
/-- The dashes at the end are gone before the cut, so only the cut leaves one there. -/
theorem isCutAtDash_of_getLast (hinvalid : isValidAccountId (trim value) = false)
    (hhead : (uncutAgentId host value).take 64 = '_' :: rest)
    (hlast : ((uncutAgentId host value).take 64).getLast? = some '-') : IsCutAtDash host value := by
  have hhead? : (uncutAgentId host value).head? = some '_' := by
    have htake := congrArg List.head? hhead
    rw [head?_take, if_neg (by decide)] at htake
    exact htake
  refine ⟨hinvalid, hhead?, ?_⟩
  rw [getLast?_take, if_neg (by decide)] at hlast
  cases hcut : (uncutAgentId host value)[64 - 1]? with
  | some c =>
    rw [hcut] at hlast
    rw [← hlast]
    rfl
  | none =>
    exfalso
    rw [hcut] at hlast
    have hend : (uncutAgentId host value).getLast? = some '-' := hlast
    have hne : uncutAgentId host value ≠ [] := by
      intro hnil
      rw [hnil] at hend
      exact nomatch hend
    rw [getLast?_eq_some_getLast hne] at hend
    have hnot := rdropWhile_last_not (fun c => decide (c = '-')) _ hne
    exact hnot (decide_eq_true (Option.some.inj hend))

/-- `normalizeAgentId` is idempotent where the cut does not leave a dash behind. -/
theorem normalizeAgentId_idem (hcut : ¬ IsCutAtDash host value) :
    normalizeAgentId host (some (normalizeAgentId host (some value))) =
      normalizeAgentId host (some value) := by
  have hchars := isAccountIdChar_normalizeAgentId hlower (some value)
  have hmain : normalizeAgentId host (some value) = "main".toList →
      normalizeAgentId host (some (normalizeAgentId host (some value))) =
        normalizeAgentId host (some value) := by
    intro h
    rw [h]
    exact normalizeAgentId_main hlower
  by_cases hblank : trim value = []
  · exact hmain (if_pos hblank)
  cases hvalid : isValidAccountId (trim value) with
  | true =>
    have htoken : normalizeAgentId host (some value) = normalizeToken host (trim value) := by
      unfold normalizeAgentId
      dsimp only
      rw [Option.getD_some, if_neg hblank, if_pos hvalid]
    have hkept := isValidAccountId_normalizeToken hlower hvalid (trim_trim value)
    rw [htoken] at hchars ⊢
    exact normalizeAgentId_of_isValid hlower hchars hkept
  | false =>
    cases hcutted : (uncutAgentId host value).take 64 with
    | nil =>
      apply hmain
      unfold normalizeAgentId canonicalizeAccountId
      dsimp only
      rw [Option.getD_some, if_neg hblank, hvalid]
      exact if_pos hcutted
    | cons first rest =>
      have hne : (uncutAgentId host value).take 64 ≠ [] := by
        rw [hcutted]
        exact cons_ne_nil _ _
      rw [normalizeAgentId_of_not_isValid hvalid hne, hcutted] at hchars ⊢
      have hlength : rest.length ≤ 63 := by
        have htake : ((uncutAgentId host value).take 64).length ≤ 64 := length_take_le _ _
        rw [hcutted, length_cons] at htake
        omega
      by_cases hunderscore : first = '_'
      · rw [hunderscore] at hchars hcutted ⊢
        refine normalizeAgentId_of_underscore hlower hchars hlength ?_
        intro hlast
        rw [← hcutted] at hlast
        exact hcut (isCutAtDash_of_getLast hvalid hcutted hlast)
      · have hdash : first ≠ '-' := by
          have hhead : (uncutAgentId host value).head? = some first := by
            have htake := congrArg List.head? hcutted
            rw [head?_take, if_neg (by decide)] at htake
            exact htake
          exact head_uncutAgentId_ne hhead
        exact normalizeAgentId_of_isValid hlower hchars
          (isValidAccountId_of_chars hchars hunderscore hdash hlength)

end AgentIds

/-! ## Reading stored keys -/

section Keys

variable {host : RouteHost} (hlower : LowerCasesLetters host.toLowerCase)

theorem length_agentKey (agentId rest : Str) :
    (agentKey agentId rest).length = 7 + agentId.length + rest.length := by
  unfold agentKey
  simp only [length_append]
  have hagent : "agent:".toList.length = 6 := by decide
  have hcolon : ":".toList.length = 1 := by decide
  omega

theorem agentKey_right_inj {rest' : Str}
    (h : agentKey agentId rest = agentKey agentId rest') : rest = rest' :=
  append_cancel_left h

theorem startsWith_agentKey (agentId rest : Str) :
    startsWith (agentKey agentId rest) "agent:".toList = true := by
  unfold startsWith agentKey
  rw [ isPrefixOf_iff_prefix, append_assoc, append_assoc]
  exact prefix_append _ _

theorem keySegments_agentKey (hne : agentId ≠ []) (hcolon : ':' ∉ agentId) (rest : Str) :
    keySegments (agentKey agentId rest) = "agent".toList :: agentId :: keySegments rest := by
  have hkey : agentKey agentId rest = "agent".toList ++ ':' :: (agentId ++ ':' :: rest) := by
    unfold agentKey
    rw [append_assoc, append_assoc]
    rfl
  rw [hkey, keySegments_append (by decide) (by decide), keySegments_append hne hcolon]

/-- What a key that is read as an agent's consists of. -/
theorem parseAgentSessionKey_eq_some {parsed : ParsedAgentSessionKey}
    (htrim : trim raw = raw) (hlow : host.toLowerCase raw = raw)
    (h : parseAgentSessionKey host (some raw) = some parsed) :
    ∃ second segments, keySegments raw = "agent".toList :: second :: segments ∧ segments ≠ [] ∧
      parsed.agentId = trim second ∧ parsed.rest = joinWith ":".toList segments := by
  unfold parseAgentSessionKey at h
  have hvalue : (normalizeOptionalString (some raw)).map host.toLowerCase =
      if raw = [] then none else some raw := by
    show (if trim raw = [] then none else some (trim raw)).map host.toLowerCase = _
    rw [htrim]
    split
    · rfl
    · rw [Option.map_some, hlow]
  rw [hvalue] at h
  by_cases hblank : raw = []
  · rw [if_pos hblank] at h
    exact nomatch h
  rw [if_neg hblank] at h
  dsimp only at h
  split at h
  · next first second third parts hsegments =>
    by_cases hfirst : first ≠ "agent".toList
    · rw [if_pos hfirst] at h
      exact nomatch h
    rw [if_neg hfirst] at h
    split at h
    · exact nomatch h
    · next agentId hagent =>
      have htrimmed : (if trim second = [] then none else some (trim second)) = some agentId :=
        hagent
      have hid : trim second = agentId := by
        split_ifs at htrimmed
        exact Option.some.inj htrimmed
      by_cases hrest : joinWith ":".toList (third :: parts) = []
      · rw [if_pos hrest] at h
        exact nomatch h
      · rw [if_neg hrest] at h
        obtain rfl := Option.some.inj h
        refine ⟨second, third :: parts, ?_, cons_ne_nil _ _, hid.symm, rfl⟩
        rw [hsegments, not_not.mp hfirst]
  · exact nomatch h

theorem compactKey_of_segments {second : Str} {segments : List Str}
    (h : keySegments raw = "agent".toList :: second :: segments) (hne : segments ≠ []) :
    compactKey raw = agentKey second (joinWith ":".toList segments) := by
  obtain ⟨third, parts, rfl⟩ := exists_cons_of_ne_nil hne
  unfold compactKey agentKey joinWith
  rw [h, intercalate_cons_cons, intercalate_cons_cons]
  simp only [append_assoc]
  rfl

/-- Reading a key as an agent's makes it no longer. -/
theorem length_parsed_le {parsed : ParsedAgentSessionKey} (htrim : trim raw = raw)
    (hlow : host.toLowerCase raw = raw) (h : parseAgentSessionKey host (some raw) = some parsed) :
    (agentKey parsed.agentId parsed.rest).length ≤ raw.length := by
  obtain ⟨second, segments, hsegments, hne, hagent, hrest⟩ :=
    parseAgentSessionKey_eq_some htrim hlow h
  have hlength : (compactKey raw).length ≤ raw.length := by
    apply length_compactKey_le
    rw [hsegments]
    exact cons_ne_nil _ _
  have hid : (trim second).length ≤ second.length := length_trim_le second
  rw [compactKey_of_segments hsegments hne, length_agentKey] at hlength
  rw [length_agentKey, hagent, hrest]
  omega

/-- A key whose segments are not empty is an agent's only where it says so. -/
theorem parseAgentSessionKey_eq_none (htidy : IsTidy host rest)
    (hsegments : [] ∉ rest.splitOn ':') (hagent : startsWith rest "agent:".toList = false) :
    parseAgentSessionKey host (some rest) = none := by
  cases hparsed : parseAgentSessionKey host (some rest) with
  | none => rfl
  | some parsed =>
    exfalso
    obtain ⟨second, segments, hwhole, hne, -⟩ :=
      parseAgentSessionKey_eq_some htidy.trim htidy.lower hparsed
    have hself := compactKey_eq_self hsegments
    rw [compactKey_of_segments hwhole hne] at hself
    rw [← hself, startsWith_agentKey] at hagent
    exact nomatch hagent

theorem normalizeToken_of_trimmed (htrim : trim raw = raw)
    (hlow : host.toLowerCase raw = raw) : normalizeToken host raw = raw := by
  unfold normalizeToken normalizeLowercaseStringOrEmpty
  rw [htrim]
  split
  · next hnil => exact hnil.symm
  · exact hlow

theorem toAgentStoreSessionKey_trim (agentId raw : Str) (mainKey : Option Str) :
    toAgentStoreSessionKey host agentId (some (trim raw)) mainKey =
      toAgentStoreSessionKey host agentId (some raw) mainKey := by
  unfold toAgentStoreSessionKey
  dsimp only
  rw [Option.getD_some, Option.getD_some, trim_trim]

/-- A request key is read as the main one, is kept as a key of an agent, or is put behind the
agent. -/
theorem toAgentStoreSessionKey_cases (agentId : Str) (htrim : trim raw = raw)
    (hlow : host.toLowerCase raw = raw) : toAgentStoreSessionKey host agentId (some raw) none =
        agentKey (normalizeAgentId host (some agentId)) "main".toList ∨
      (toAgentStoreSessionKey host agentId (some raw) none).length ≤ raw.length ∨
      startsWith raw "agent:".toList = false ∧ toAgentStoreSessionKey host agentId (some raw) none =
          agentKey (normalizeAgentId host (some agentId)) raw := by
  unfold toAgentStoreSessionKey
  dsimp only
  rw [Option.getD_some, htrim, normalizeToken_of_trimmed htrim hlow]
  by_cases hmain : raw = [] ∨ raw = "main".toList
  · left
    rw [if_pos hmain]
    rfl
  right
  rw [if_neg hmain]
  cases hparsed : parseAgentSessionKey host (some raw) with
  | some parsed => exact .inl (length_parsed_le htrim hlow hparsed)
  | none =>
    dsimp only
    by_cases hagent : startsWith raw "agent:".toList = true
    · left
      rw [if_pos hagent]
    · right
      rw [if_neg hagent]
      exact ⟨Bool.eq_false_iff.mpr hagent, rfl⟩

include hlower

theorem isTidy_agentKey (hagent : IsTidy host agentId)
    (hrest : IsTidy host rest) : IsTidy host (agentKey agentId rest) := by
  have hcolon : host.toLowerCase ":".toList = ":".toList := hlower.ascii ":".toList (by simp)
  have hword : IsTidy host "agent".toList :=
    isTidy_of_isAccountIdChar hlower (by decide) (all_eq_true.mp (by decide))
  have hkey := (hword.append hlower hcolon hagent).append hlower hcolon hrest
  exact hkey

omit hlower in
theorem joinWith_ne_nil_of_mem {part : Str} (hmem : part ∈ parts)
    (hne : part ≠ []) : joinWith ":".toList parts ≠ [] := by
  intro hnil
  have hsub : part ⊆ joinWith ":".toList parts := subset_joinWith hmem
  rw [hnil] at hsub
  exact hne (subset_nil.mp hsub)

/-- A stored key is read as its agent and the segments behind it. -/
theorem parseAgentSessionKey_agentKey (hagent : IsTidy host agentId)
    (hcolon : ':' ∉ agentId) (hrest : IsTidy host rest) :
    parseAgentSessionKey host (some (agentKey agentId rest)) =
      if keySegments rest = [] then none else some ⟨agentId, compactKey rest⟩ := by
  have htidy := isTidy_agentKey hlower hagent hrest
  have hvalue : normalizeOptionalString (some (agentKey agentId rest)) =
      some (agentKey agentId rest) := by
    show (if trim (agentKey agentId rest) = [] then none else some (trim (agentKey agentId rest))) = _
    rw [htidy.trim, if_neg htidy.nonempty]
  have hid : normalizeOptionalString (some agentId) = some agentId := by
    show (if trim agentId = [] then none else some (trim agentId)) = _
    rw [hagent.trim, if_neg hagent.nonempty]
  unfold parseAgentSessionKey
  rw [hvalue, Option.map_some, htidy.lower]
  dsimp only
  rw [keySegments_agentKey hagent.nonempty hcolon]
  cases hsegments : keySegments rest with
  | nil => rfl
  | cons third parts =>
    have hjoin : joinWith ":".toList (third :: parts) ≠ [] := by
      have hmem : third ∈ keySegments rest := hsegments ▸ mem_cons_self
      exact joinWith_ne_nil_of_mem mem_cons_self (ne_nil_of_mem_keySegments hmem)
    unfold compactKey
    dsimp only
    rw [if_neg (not_not.mpr rfl), hid, hsegments, if_neg (cons_ne_nil _ _)]
    exact if_neg hjoin

/-- The agent of a stored key is read from it where something stands behind it. -/
theorem resolveAgentIdFromSessionKey_agentKey (hagent : IsTidy host agentId)
    (hcolon : ':' ∉ agentId) (hidem : normalizeAgentId host (some agentId) = agentId)
    (hrest : IsTidy host rest) :
    resolveAgentIdFromSessionKey host (some (agentKey agentId rest)) = agentId ↔
      keySegments rest ≠ [] ∨ agentId = "main".toList := by
  unfold resolveAgentIdFromSessionKey
  rw [parseAgentSessionKey_agentKey hlower hagent hcolon hrest]
  by_cases hsegments : keySegments rest = []
  · rw [if_pos hsegments]
    show normalizeAgentId host (some "main".toList) = agentId ↔ _
    rw [normalizeAgentId_main hlower]
    constructor
    · exact fun h => .inr h.symm
    · rintro (hne | hmain)
      · exact absurd hsegments hne
      · exact hmain.symm
  · rw [if_neg hsegments]
    show normalizeAgentId host (some agentId) = agentId ↔ _
    exact iff_of_true hidem (.inl hsegments)

/-- What stands behind the agent can be taken for a request key: its segments are not empty and
it is not itself a key of an agent. A key with nothing behind the agent stays as it is. -/
def SurvivesRequest (rest : Str) : Prop :=
  keySegments rest = [] ∨ [] ∉ rest.splitOn ':' ∧ startsWith rest "agent:".toList = false

theorem toAgentRequestSessionKey_agentKey (hagent : IsTidy host agentId)
    (hcolon : ':' ∉ agentId) (hrest : IsTidy host rest) :
    toAgentRequestSessionKey host (some (agentKey agentId rest)) =
      some (if keySegments rest = [] then agentKey agentId rest else compactKey rest) := by
  have htidy := isTidy_agentKey hlower hagent hrest
  unfold toAgentRequestSessionKey
  dsimp only
  rw [Option.getD_some, htidy.trim, if_neg htidy.nonempty,
    parseAgentSessionKey_agentKey hlower hagent hcolon hrest]
  by_cases hsegments : keySegments rest = []
  · rw [if_pos hsegments, if_pos hsegments]
  · rw [if_neg hsegments, if_neg hsegments]

theorem lower_trim_compactKey (hrest : host.toLowerCase rest = rest) :
    host.toLowerCase (trim (compactKey rest)) = trim (compactKey rest) := by
  apply (hlower.fixed _).mpr
  intro c hc
  rcases mem_of_mem_compactKey (trim_subset _ hc) with rfl | hmem
  · exact hlower.ascii [':'] (by simp)
  · exact (hlower.fixed rest).mp hrest c hmem

/-- A stored key comes back from its request key in exactly these cases. -/
theorem toAgentStoreSessionKey_agentKey (agentId : Str) (hrest : IsTidy host rest) :
    let key := agentKey (normalizeAgentId host (some agentId)) rest
    toAgentStoreSessionKey host agentId (toAgentRequestSessionKey host (some key)) none = key ↔
      SurvivesRequest rest := by
  intro key
  have hagent := isTidy_normalizeAgentId hlower (some agentId)
  have hcolon := colon_notMem_normalizeAgentId hlower.toLowerCases (some agentId)
  have hkey : IsTidy host key := isTidy_agentKey hlower hagent hrest
  rw [toAgentRequestSessionKey_agentKey hlower hagent hcolon hrest]
  unfold SurvivesRequest
  by_cases hnone : keySegments rest = []
  · rw [if_pos hnone]
    refine iff_of_true ?_ (.inl hnone)
    have hparse : parseAgentSessionKey host (some key) = none :=
      (parseAgentSessionKey_agentKey hlower hagent hcolon hrest).trans (if_pos hnone)
    have hstart : startsWith key "agent:".toList = true := startsWith_agentKey _ _
    have hmain : ¬ (key = [] ∨ key = "main".toList) := by
      rintro (hnil | hmain)
      · exact hkey.nonempty hnil
      · rw [hmain] at hstart
        exact nomatch hstart
    show toAgentStoreSessionKey host agentId (some key) none = key
    unfold toAgentStoreSessionKey
    dsimp only
    rw [Option.getD_some, hkey.trim, hkey.normalizeToken, if_neg hmain, hparse]
    exact if_pos hstart
  rw [if_neg hnone]
  by_cases hempty : [] ∈ rest.splitOn ':'
  · -- the key comes back without its empty segments
    refine iff_of_false ?_ ?_
    · have hshort : (trim (compactKey rest)).length < rest.length :=
        lt_of_le_of_lt (length_trim_le _) (length_compactKey_lt hnone hempty)
      have hlength : key.length = _ := length_agentKey _ rest
      intro heq
      rw [← toAgentStoreSessionKey_trim] at heq
      rcases toAgentStoreSessionKey_cases agentId (trim_trim _)
        (lower_trim_compactKey hlower hrest.lower) with hmain | hle | ⟨-, hput⟩
      · have hrestMain : rest = "main".toList := agentKey_right_inj (heq.symm.trans hmain)
        rw [hrestMain] at hempty
        exact nomatch hempty
      · rw [heq] at hle
        omega
      · have hsame : rest = trim (compactKey rest) := agentKey_right_inj (heq.symm.trans hput)
        rw [← hsame] at hshort
        exact lt_irrefl _ hshort
    · rintro (hnil | ⟨hfull, -⟩)
      · exact hnone hnil
      · exact hfull hempty
  rw [compactKey_eq_self hempty]
  cases hstart : startsWith rest "agent:".toList with
  | true =>
    refine iff_of_false ?_ ?_
    · have hlength : key.length = _ := length_agentKey _ rest
      intro heq
      rcases toAgentStoreSessionKey_cases agentId hrest.trim hrest.lower with
        hmain | hle | ⟨hother, -⟩
      · have hrestMain : rest = "main".toList := agentKey_right_inj (heq.symm.trans hmain)
        rw [hrestMain] at hstart
        exact nomatch hstart
      · rw [heq] at hle
        omega
      · rw [hstart] at hother
        exact nomatch hother
    · rintro (hnil | ⟨-, hother⟩)
      · exact hnone hnil
      · exact nomatch hother
  | false =>
    refine iff_of_true ?_ (.inr ⟨hempty, rfl⟩)
    have hparse := parseAgentSessionKey_eq_none hrest hempty hstart
    show toAgentStoreSessionKey host agentId (some rest) none = key
    unfold toAgentStoreSessionKey
    dsimp only
    rw [Option.getD_some, hrest.trim, hrest.normalizeToken, hparse]
    by_cases hmain : rest = [] ∨ rest = "main".toList
    · have hrestMain : rest = "main".toList := hmain.resolve_left hrest.nonempty
      rw [if_pos hmain]
      show agentKey (normalizeAgentId host (some agentId)) "main".toList = agentKey _ rest
      rw [hrestMain]
    · rw [if_neg hmain]
      dsimp only
      rw [hstart]
      rfl

end Keys

/-! ## Round trips -/

/-- Two keys of one agent that survive the request form do not collapse in it. -/
theorem toAgentRequestSessionKey_inj {host : RouteHost}
    (hlower : LowerCasesLetters host.toLowerCase) {params params' : PeerSessionParams}
    (hagent : params'.agentId = params.agentId) (hrest : SurvivesRequest (keyTail host params))
    (hrest' : SurvivesRequest (keyTail host params'))
    (heq : toAgentRequestSessionKey host (some (buildAgentPeerSessionKey host params)) =
      toAgentRequestSessionKey host (some (buildAgentPeerSessionKey host params'))) :
    buildAgentPeerSessionKey host params = buildAgentPeerSessionKey host params' := by
  have hback := (toAgentStoreSessionKey_agentKey hlower params.agentId
    (isTidy_keyTail hlower params)).mpr hrest
  have hback' := (toAgentStoreSessionKey_agentKey hlower params'.agentId
    (isTidy_keyTail hlower params')).mpr hrest'
  rw [← buildAgentPeerSessionKey_eq] at hback hback'
  rw [← hback, ← hback', heq, hagent]

/-- Agent ids are their own normal form, and keys give back their agent and come back from
their request form, but for the cases named here. -/
theorem storedKey_roundTrip (host : RouteHost) (hlower : LowerCasesLetters host.toLowerCase)
    (params : PeerSessionParams) : let agentId := normalizeAgentId host (some params.agentId)
    let key := buildAgentPeerSessionKey host params
    let rest := keyTail host params
    (¬ IsCutAtDash host params.agentId → normalizeAgentId host (some agentId) = agentId ∧
      (resolveAgentIdFromSessionKey host (some key) = agentId ↔
        keySegments rest ≠ [] ∨ agentId = "main".toList)) ∧
    (toAgentStoreSessionKey host params.agentId (toAgentRequestSessionKey host (some key)) none =
      key ↔ SurvivesRequest rest) ∧
    ∀ params' : PeerSessionParams, params'.agentId = params.agentId → SurvivesRequest rest →
      SurvivesRequest (keyTail host params') →
      toAgentRequestSessionKey host (some key) =
        toAgentRequestSessionKey host (some (buildAgentPeerSessionKey host params')) →
      key = buildAgentPeerSessionKey host params' := by
  intro agentId key rest
  have hagent := isTidy_normalizeAgentId hlower (some params.agentId)
  have hcolon := colon_notMem_normalizeAgentId hlower.toLowerCases (some params.agentId)
  have hrest := isTidy_keyTail hlower params
  have hkey : key = agentKey agentId rest := buildAgentPeerSessionKey_eq host params
  refine ⟨fun hcut => ?_, ?_, ?_⟩
  · have hidem := normalizeAgentId_idem hlower hcut
    refine ⟨hidem, ?_⟩
    rw [hkey]
    exact resolveAgentIdFromSessionKey_agentKey hlower hagent hcolon hidem hrest
  · rw [hkey]
    exact toAgentStoreSessionKey_agentKey hlower params.agentId hrest
  · intro params' hsame hsurvives hsurvives' heq
    exact toAgentRequestSessionKey_inj hlower hsame hsurvives hsurvives' heq

/-- Lower-casing the ASCII letters works letter by letter. -/
theorem lowerCasesLetters_ascii : LowerCasesLetters RouteHost.telegramOnly.toLowerCase where
  toLowerCases := lowerCases_ascii
  fixed s := by
    show s.map Char.toLower = s ↔ ∀ c ∈ s, [c].map Char.toLower = [c]
    have hletter : ∀ c : Char, [c].map Char.toLower = [c] ↔ c.toLower = c := by simp
    simp only [hletter]
    induction s with
    | nil => simp
    | cons c s ih => simp [ih]

/-- A group of a chat provider. -/
def groupParams (agentId channel peer : String) : PeerSessionParams where
  agentId := agentId.toList
  mainKey := none
  channel := channel.toList
  accountId := none
  peerKind := some .group
  peerId := some peer.toList
  identityLinks := none
  dmScope := none

theorem storedKey_roundTrip_telegramGroup : let key := "agent:work:telegram:group:-100".toList
    resolveAgentIdFromSessionKey .telegramOnly (some key) = "work".toList ∧
      toAgentStoreSessionKey .telegramOnly "Work".toList
        (toAgentRequestSessionKey .telegramOnly (some key)) none = key := by
  intro key
  have h := storedKey_roundTrip .telegramOnly lowerCasesLetters_ascii
    (groupParams "Work" "telegram" "-100")
  have hcut : ¬ IsCutAtDash .telegramOnly "Work".toList := fun hcut => nomatch hcut.1
  have hagent := (h.1 hcut).2.mpr (.inl (by decide +kernel))
  have hback := h.2.1.mpr (.inr (by decide +kernel))
  have hkey : buildAgentPeerSessionKey .telegramOnly (groupParams "Work" "telegram" "-100") = key := by
    decide +kernel
  have hid : normalizeAgentId .telegramOnly (some (groupParams "Work" "telegram" "-100").agentId) =
      "work".toList := by
    decide +kernel
  rw [hkey, hid] at hagent
  rw [hkey] at hback
  exact ⟨hagent, hback⟩

/-- A second pass removes the dash that the cut left behind, empty segments of a peer are
dropped, and a key on a channel that is named `agent` is taken for the key of another agent. -/
theorem not_storedKey_roundTrip :
    (∃ value, normalizeAgentId .telegramOnly (some (normalizeAgentId .telegramOnly (some value))) ≠
      normalizeAgentId .telegramOnly (some value)) ∧
    (∃ params params' : PeerSessionParams, params'.agentId = params.agentId ∧
      buildAgentPeerSessionKey .telegramOnly params' ≠
        buildAgentPeerSessionKey .telegramOnly params ∧
      toAgentRequestSessionKey .telegramOnly
          (some (buildAgentPeerSessionKey .telegramOnly params')) =
        toAgentRequestSessionKey .telegramOnly
          (some (buildAgentPeerSessionKey .telegramOnly params))) ∧
    ∃ params : PeerSessionParams, toAgentStoreSessionKey .telegramOnly params.agentId
        (toAgentRequestSessionKey .telegramOnly
          (some (buildAgentPeerSessionKey .telegramOnly params))) none ≠
        buildAgentPeerSessionKey .telegramOnly params := by
  refine ⟨⟨'_' :: List.replicate 62 'a' ++ "-b".toList, ?_⟩,
    ⟨groupParams "main" "telegram" "a:b", groupParams "main" "telegram" "a::b", rfl, ?_, ?_⟩,
    ⟨groupParams "main" "agent" "42", ?_⟩⟩
  all_goals decide +kernel

end OpenClaw
