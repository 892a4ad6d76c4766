import OpenClaw.Pairing.Bootstrap

/-!
# What a profile allows and what redemptions cover

The checks of `device-bootstrap.ts` said of roles and scopes, and the normal form of public keys.
-/

namespace OpenClaw

open List

/-! ## Public keys -/

def isBase64UrlChar (c : Char) : Bool := c.isAlphanum || c = '-' || c = '_'

/-- What Node documents: the base64 alphabet with padding at the end, and that a PEM text is more
than one word. -/
structure KeyHost.Laws (keys : KeyHost) : Prop where
  toBase64 : ∀ buf, ∃ (body : Str) (padding : ℕ), keys.toBase64 buf = body ++ List.replicate padding '=' ∧
    ∀ c ∈ body, c.isAlphanum = true ∨ c = '+' ∨ c = '/'
  spkiOfPem : ∀ text : Str, (∀ c ∈ text, isBase64UrlChar c = true) → keys.spkiOfPem text = none

section

variable {keys : KeyHost}

theorem isBase64UrlChar_lt {c : Char} (h : isBase64UrlChar c = true) : c.toNat < 128 := by
  unfold isBase64UrlChar at h
  delta Char.isAlphanum Char.isAlpha Char.isUpper Char.isLower Char.isDigit at h
  simp only [Bool.or_eq_true, Bool.and_eq_true, decide_eq_true_eq] at h
  rcases h with ((((h | h) | h) | rfl) | rfl)
  · have hle : c.toNat ≤ 90 := h.2
    omega
  · have hle : c.toNat ≤ 122 := h.2
    omega
  · have hle : c.toNat ≤ 57 := h.2
    omega
  · decide
  · decide

theorem of_isBase64UrlChar {c : Char} (h : isBase64UrlChar c = true) :
    isSpace c = false ∧ c ≠ '+' ∧ c ≠ '/' ∧ c ≠ '=' := by
  have hall : ∀ n < 128, isBase64UrlChar (Char.ofNat n) = true → isSpace (Char.ofNat n) = false ∧
      Char.ofNat n ≠ '+' ∧ Char.ofNat n ≠ '/' ∧ Char.ofNat n ≠ '=' := by
    decide +kernel
  have hchar := hall c.toNat (isBase64UrlChar_lt h)
  rw [Char.ofNat_toNat] at hchar
  exact hchar h

theorem isBase64UrlChar_of_mem_encode (hkeys : keys.Laws) {buf : List UInt8} {c : Char}
    (h : c ∈ base64UrlEncode keys buf) : isBase64UrlChar c = true := by
  obtain ⟨body, padding, hbody, hchars⟩ := hkeys.toBase64 buf
  have hword : ∀ c ∈ body.map (fun c => if c = '+' then '-' else if c = '/' then '_' else c),
      isBase64UrlChar c = true := by
    intro c hc
    obtain ⟨d, hd, rfl⟩ := mem_map.mp hc
    rcases hchars d hd with halnum | rfl | rfl
    · split
      · decide
      · split
        · decide
        · unfold isBase64UrlChar
          rw [halnum]
          rfl
    · decide
    · decide
  unfold base64UrlEncode at h
  rw [hbody, map_append, map_replicate, if_neg (by decide), if_neg (by decide)] at h
  have hfront : (body.map (fun c => if c = '+' then '-' else if c = '/' then '_' else c) ++
      List.replicate padding '=').rdropWhile (· = '=') <+:
        body.map (fun c => if c = '+' then '-' else if c = '/' then '_' else c) := by
    rw [List.rdropWhile, reverse_append, reverse_replicate,
      dropWhile_append_of_pos (fun d hd => decide_eq_true (eq_of_mem_replicate hd))]
    exact rdropWhile_prefix _ _
  exact hword c (hfront.subset h)

theorem trim_of_isBase64Url {text : Str} (h : ∀ c ∈ text, isBase64UrlChar c = true) :
    trim text = text := by
  have hstart : trimStart text = text := by
    unfold trimStart
    rw [dropWhile_eq_self_iff]
    intro hpos
    rw [(of_isBase64UrlChar (h _ (getElem_mem hpos))).1]
    exact Bool.false_ne_true
  unfold trim
  rw [hstart]
  unfold trimEnd
  rw [rdropWhile_eq_self_iff]
  intro hne
  rw [(of_isBase64UrlChar (h _ (getLast_mem hne))).1]
  exact Bool.false_ne_true

/-- A word of the alphabet is its own normal form. -/
theorem normalizeBootstrapPublicKey_of_word (hkeys : keys.Laws) {text : Str}
    (h : ∀ c ∈ text, isBase64UrlChar c = true) : normalizeBootstrapPublicKey keys text = text := by
  unfold normalizeBootstrapPublicKey
  rw [trim_of_isBase64Url h]
  dsimp only
  have hmarks : text.any (fun c => c = '+' || c = '/' || c = '=') = false := by
    rw [any_eq_false]
    intro c hc
    obtain ⟨_, hplus, hslash, hequals⟩ := of_isBase64UrlChar (h c hc)
    rw [decide_eq_false hplus, decide_eq_false hslash, decide_eq_false hequals]
    exact Bool.false_ne_true
  by_cases hempty : text = []
  · rw [if_pos hempty, hempty]
  · rw [if_neg hempty, hmarks]
    by_cases hbegin : "BEGIN".toList <:+: text
    · rw [if_pos (Or.inl hbegin)]
      unfold normalizeDevicePublicKeyBase64Url derivePublicKeyRaw
      rw [if_pos hbegin, hkeys.spkiOfPem text h]
      rfl
    · rw [if_neg (not_or.mpr ⟨hbegin, Bool.false_ne_true⟩)]

theorem normalizeBootstrapPublicKey_idem (hkeys : keys.Laws) (publicKey : Str) :
    normalizeBootstrapPublicKey keys (normalizeBootstrapPublicKey keys publicKey) =
      normalizeBootstrapPublicKey keys publicKey := by
  have htrim : normalizeBootstrapPublicKey keys (trim publicKey) =
      normalizeBootstrapPublicKey keys publicKey := by
    unfold normalizeBootstrapPublicKey
    rw [trim_trim]
  cases hnormal : normalizeDevicePublicKeyBase64Url keys (trim publicKey) with
  | none =>
    have hsame : normalizeBootstrapPublicKey keys publicKey = trim publicKey := by
      unfold normalizeBootstrapPublicKey
      dsimp only
      rw [hnormal, Option.getD_none, ite_self]
      split
      · next hempty => exact hempty.symm
      · rfl
    rw [hsame, htrim, hsame]
  | some word =>
    have hword : ∀ c ∈ word, isBase64UrlChar c = true := by
      unfold normalizeDevicePublicKeyBase64Url at hnormal
      split at hnormal
      · obtain ⟨raw, _, rfl⟩ := Option.map_eq_some_iff.mp hnormal
        exact fun c => isBase64UrlChar_of_mem_encode hkeys
      · dsimp only at hnormal
        split_ifs at hnormal
        rw [← Option.some.inj hnormal]
        exact fun c => isBase64UrlChar_of_mem_encode hkeys
    by_cases hempty : trim publicKey = []
    · have hnil : normalizeBootstrapPublicKey keys publicKey = [] := if_pos hempty
      rw [hnil]
      rfl
    · by_cases hmarks : "BEGIN".toList <:+: trim publicKey ∨
          (trim publicKey).any (fun c => c = '+' || c = '/' || c = '=') = true
      · have hsome : normalizeBootstrapPublicKey keys publicKey = word := by
          unfold normalizeBootstrapPublicKey
          dsimp only
          rw [if_neg hempty, if_pos hmarks, hnormal, Option.getD_some]
        rw [hsome]
        exact normalizeBootstrapPublicKey_of_word hkeys hword
      · have hsame : normalizeBootstrapPublicKey keys publicKey = trim publicKey := by
          unfold normalizeBootstrapPublicKey
          dsimp only
          rw [if_neg hempty, if_neg hmarks]
        rw [hsame, htrim, hsame]

end

/-! ## What a profile allows -/

/-- A scope that a list of scopes grants to a role. -/
def GrantsScope (granted : List Str) (role scope : Str) : Prop :=
  if role = operatorRole then
    startsWith scope operatorScopePrefix = true ∧
      (operatorAdminScope ∈ granted ∨ scope ∈ granted ∨
        scope = operatorReadScope ∧ operatorWriteScope ∈ granted)
  else startsWith scope (role ++ ".".toList) = true ∧ scope ∈ granted

/-- A request for a role of the profile and for scopes that it grants. -/
structure DeviceBootstrapProfile.Allows (p : DeviceBootstrapProfile) (role : Str)
    (scopes : List Str) : Prop where
  role_mem : trim role ∈ p.roles
  grants : ∀ scope ∈ normalizeScopeList scopes, GrantsScope p.scopes (trim role) scope

section

variable {role scope : Str} {scopes granted : List Str} {p q : DeviceBootstrapProfile}

theorem operatorScopeSatisfied_iff : operatorScopeSatisfied scope granted = true ↔
    startsWith scope operatorScopePrefix = true ∧
      (operatorAdminScope ∈ granted ∨ scope ∈ granted ∨
        scope = operatorReadScope ∧ operatorWriteScope ∈ granted) := by
  unfold operatorScopeSatisfied
  cases hstarts : startsWith scope operatorScopePrefix with
  | false => exact ⟨fun h => (nomatch h), fun h => (nomatch h.1)⟩
  | true =>
    rw [if_neg (fun h => nomatch h), and_iff_right rfl]
    by_cases hadmin : operatorAdminScope ∈ granted
    · rw [if_pos hadmin]
      exact ⟨fun _ => Or.inl hadmin, fun _ => rfl⟩
    · rw [if_neg hadmin, or_iff_right hadmin]
      by_cases hread : scope = operatorReadScope
      · rw [if_pos hread, Bool.or_eq_true, decide_eq_true_eq, decide_eq_true_eq, hread,
          and_iff_right rfl]
      · rw [if_neg hread]
        have hnot : ¬(scope = operatorReadScope ∧ operatorWriteScope ∈ granted) :=
          fun h => hread h.1
        rw [or_iff_left hnot]
        split
        · next hwrite => rw [decide_eq_true_eq, hwrite]
        · rw [decide_eq_true_eq]

/-- The check of a request, for granted scopes in normal form. -/
theorem roleScopesAllow_iff (hgranted : IsScopeList granted) :
    roleScopesAllow role scopes granted = true ↔
      ∀ scope ∈ normalizeScopeList scopes, GrantsScope granted (trim role) scope := by
  unfold roleScopesAllow GrantsScope
  dsimp only
  rw [hgranted.normalize_eq]
  by_cases hnone : normalizeScopeList scopes = []
  · rw [if_pos hnone, hnone]
    exact ⟨fun _ _ h => (nomatch h), fun _ => rfl⟩
  · rw [if_neg hnone]
    by_cases hempty : granted = []
    · rw [if_pos hempty, hempty]
      refine ⟨fun h => (nomatch h), fun h => ?_⟩
      obtain ⟨scope, hscope⟩ := exists_mem_of_ne_nil _ hnone
      have hgrant := h scope hscope
      split at hgrant
      · rcases hgrant.2 with h | h | h
        · cases h
        · cases h
        · cases h.2
      · cases hgrant.2
    · rw [if_neg hempty]
      by_cases hrole : trim role = operatorRole
      · rw [if_neg (not_not.mpr hrole), all_eq_true]
        simp only [operatorScopeSatisfied_iff, if_pos hrole]
      · rw [if_pos hrole, all_eq_true]
        simp only [Bool.and_eq_true, decide_eq_true_eq, if_neg hrole]

theorem bootstrapProfileAllowsRequest_iff (hp : p.Normal) (hrole : trim role = role) :
    bootstrapProfileAllowsRequest p role scopes = true ↔ p.Allows role scopes := by
  have hscopes : IsScopeList p.scopes := by
    have hnormal : normalizeDeviceAuthScopes p.scopes = p.scopes :=
      congrArg DeviceBootstrapProfile.scopes hp
    rw [← hnormal]
    exact isScopeList_normalizeDeviceAuthScopes _
  unfold bootstrapProfileAllowsRequest
  rw [Bool.and_eq_true, decide_eq_true_eq, roleScopesAllow_iff hscopes]
  constructor
  · rintro ⟨hmem, hgrants⟩
    refine ⟨?_, hgrants⟩
    rw [hrole]
    exact hmem
  · rintro ⟨hmem, hgrants⟩
    rw [hrole] at hmem
    exact ⟨hmem, hgrants⟩

theorem sameBootstrapProfile_iff : sameBootstrapProfile p q = true ↔ p = q := by
  have hlists : ∀ left right : List Str, left.length = right.length →
      ((left.zip right).all (fun pair => decide (pair.1 = pair.2)) = true ↔ left = right) := by
    intro left
    induction left with
    | nil =>
      intro right hlength
      rw [eq_nil_of_length_eq_zero hlength.symm]
      exact ⟨fun _ => rfl, fun _ => rfl⟩
    | cons a left ih =>
      intro right hlength
      cases right with
      | nil => cases hlength
      | cons b right =>
        rw [zip_cons_cons, all_cons, Bool.and_eq_true, decide_eq_true_eq,
          ih right (Nat.succ.inj hlength), List.cons.injEq]
  unfold sameBootstrapProfile
  obtain ⟨roles, scopes⟩ := p
  obtain ⟨roles', scopes'⟩ := q
  rw [DeviceBootstrapProfile.mk.injEq]
  dsimp only
  by_cases hlength : roles.length ≠ roles'.length ∨ scopes.length ≠ scopes'.length
  · rw [if_pos hlength]
    refine ⟨fun h => (nomatch h), ?_⟩
    rintro ⟨rfl, rfl⟩
    rcases hlength with h | h
    · exact absurd rfl h
    · exact absurd rfl h
  · rw [not_or, not_not, not_not] at hlength
    rw [if_neg (not_or.mpr ⟨not_not.mpr hlength.1, not_not.mpr hlength.2⟩), Bool.and_eq_true,
      hlists _ _ hlength.1, hlists _ _ hlength.2]

/-! ## Handoff scopes -/

theorem mem_resolveScopesForRole : scope ∈ resolveBootstrapProfileScopesForRole role scopes ↔
      trim role = operatorRole ∧ scope ∈ normalizeDeviceAuthScopes scopes ∧
        scope ∈ bootstrapHandoffOperatorScopes := by
  unfold resolveBootstrapProfileScopesForRole
  split
  · next hrole =>
    rw [mem_filter, decide_eq_true_eq, and_iff_right hrole]
  · next hrole => exact ⟨fun h => (nomatch h), fun h => absurd h.1 hrole⟩

theorem not_mem_handoff_admin : operatorAdminScope ∉ bootstrapHandoffOperatorScopes := by decide

theorem startsWith_of_mem_handoff (h : scope ∈ bootstrapHandoffOperatorScopes) :
    startsWith scope operatorScopePrefix = true ∧ trim scope = scope ∧ scope ≠ [] := by
  have hall : bootstrapHandoffOperatorScopes.all (fun scope =>
      startsWith scope operatorScopePrefix && decide (trim scope = scope) && decide (scope ≠ [])) =
        true := by decide
  have hscope := all_eq_true.mp hall scope h
  rw [Bool.and_eq_true, Bool.and_eq_true, decide_eq_true_eq, decide_eq_true_eq] at hscope
  exact ⟨hscope.1.1, hscope.1.2, hscope.2⟩

/-- Scopes of the operator role that may be handed off. -/
structure DeviceBootstrapProfile.Handoff (p : DeviceBootstrapProfile) : Prop where
  normal : p.Normal
  scopes_mem : ∀ scope ∈ p.scopes, scope ∈ bootstrapHandoffOperatorScopes ∧ operatorRole ∈ p.roles

/-- Scopes that are kept for a role, and those that come with them, are kept for it. -/
theorem resolve_of_mem_normalize
    (h : scope ∈ normalizeDeviceAuthScopes (resolveBootstrapProfileScopesForRole role scopes)) :
    scope ∈ resolveBootstrapProfileScopesForRole role scopes := by
  have hmem : ∀ s, s ∈ normalizeScopeList (resolveBootstrapProfileScopesForRole role scopes) →
      s ∈ resolveBootstrapProfileScopesForRole role scopes := by
    intro s hs
    obtain ⟨_, raw, hraw, rfl⟩ := mem_normalizeScopeList.mp hs
    rw [(startsWith_of_mem_handoff (mem_resolveScopesForRole.mp hraw).2.2).2.1]
    exact hraw
  rcases mem_addImpliedScopes.mp (mem_normalizeDeviceAuthScopes.mp h) with
    hscope | ⟨rfl, hadmin | hwrite⟩ | ⟨rfl, hadmin⟩
  · exact hmem scope hscope
  · exact absurd (mem_resolveScopesForRole.mp (hmem _ hadmin)).2.2 not_mem_handoff_admin
  · obtain ⟨hrole, hnormal, _⟩ := mem_resolveScopesForRole.mp (hmem _ hwrite)
    exact mem_resolveScopesForRole.mpr
      ⟨hrole, (hasImplied_normalizeDeviceAuthScopes scopes).write hnormal, by decide⟩
  · exact absurd (mem_resolveScopesForRole.mp (hmem _ hadmin)).2.2 not_mem_handoff_admin

theorem mem_normalizeDeviceAuthScopes_of_trimmed (h : scope ∈ scopes) (htrim : trim scope = scope)
    (hne : scope ≠ []) : scope ∈ normalizeDeviceAuthScopes scopes :=
  mem_normalizeDeviceAuthScopes.mpr (mem_addImpliedScopes.mpr
    (Or.inl (mem_normalizeScopeList.mpr ⟨hne, scope, h, htrim⟩)))

theorem mem_requestedScopes : scope ∈ (resolveRequestedBootstrapProfile role scopes).scopes ↔
      scope ∈ resolveBootstrapProfileScopesForRole role scopes := by
  constructor
  · exact resolve_of_mem_normalize
  · intro h
    obtain ⟨_, htrim, hne⟩ := startsWith_of_mem_handoff (mem_resolveScopesForRole.mp h).2.2
    exact mem_normalizeDeviceAuthScopes_of_trimmed h htrim hne

theorem mem_requestedRoles {r : Str} (hne : trim role ≠ []) :
    r ∈ (resolveRequestedBootstrapProfile role scopes).roles ↔ r = trim role := by
  show r ∈ normalizeBootstrapRoles [role] ↔ _
  rw [mem_normalizeBootstrapRoles]
  constructor
  · rintro ⟨_, s, hs, rfl⟩
    rw [mem_singleton.mp hs]
  · rintro rfl
    exact ⟨hne, role, mem_singleton_self _, rfl⟩

theorem handoff_requested (role : Str) (scopes : List Str) :
    (resolveRequestedBootstrapProfile role scopes).Handoff where
  normal := normal_normalize _
  scopes_mem := by
    intro scope h
    obtain ⟨hrole, _, hhandoff⟩ := mem_resolveScopesForRole.mp (mem_requestedScopes.mp h)
    exact ⟨hhandoff, (mem_requestedRoles (by rw [hrole]; decide)).mpr hrole.symm⟩

/-- Only handoff scopes of the operator role are issued. -/
theorem handoff_issued (params : IssueParams) : (resolveIssuedBootstrapProfile params).Handoff := by
  unfold resolveIssuedBootstrapProfile
  split
  · next input _ =>
    refine ⟨normal_handoff input, fun scope h => ?_⟩
    -- a scope of one of the roles, or one that comes with it
    have hmem : ∀ s, s ∈ normalizeScopeList ((normalizeDeviceBootstrapProfile input).roles.flatMap
        fun role => resolveBootstrapProfileScopesForRole role
          (normalizeDeviceBootstrapProfile input).scopes) →
        s ∈ bootstrapHandoffOperatorScopes ∧
          operatorRole ∈ (normalizeDeviceBootstrapProfile input).roles := by
      intro s hs
      obtain ⟨_, raw, hraw, rfl⟩ := mem_normalizeScopeList.mp hs
      obtain ⟨role, hrole, hraw⟩ := mem_flatMap.mp hraw
      obtain ⟨hoperator, _, hhandoff⟩ := mem_resolveScopesForRole.mp hraw
      rw [(startsWith_of_mem_handoff hhandoff).2.1]
      obtain ⟨_, r, _, rfl⟩ := mem_normalizeBootstrapRoles.mp hrole
      rw [trim_trim] at hoperator
      rw [hoperator] at hrole
      exact ⟨hhandoff, hrole⟩
    rcases mem_addImpliedScopes.mp (mem_normalizeDeviceAuthScopes.mp h) with
      hscope | ⟨rfl, hadmin | hwrite⟩ | ⟨rfl, hadmin⟩
    · exact hmem scope hscope
    · exact absurd (hmem _ hadmin).1 not_mem_handoff_admin
    · exact ⟨by decide, (hmem _ hwrite).2⟩
    · exact absurd (hmem _ hadmin).1 not_mem_handoff_admin
  · refine ⟨?_, fun _ h => (nomatch h)⟩
    show normalizeDeviceBootstrapProfile pairingSetupBootstrapProfile.input = _
    decide +kernel

/-! ## What redemptions cover -/

/-- The roles were redeemed, and each scope, or one that it comes with, with the operator role. -/
structure Covers (redemptions : List RedeemParams) (p : DeviceBootstrapProfile) : Prop where
  roles : ∀ role ∈ p.roles, ∃ r ∈ redemptions, trim r.role = role
  scopes : ∀ scope ∈ p.scopes, ∃ r ∈ redemptions, trim r.role = operatorRole ∧
    scope ∈ normalizeDeviceAuthScopes r.scopes

/-- The profile that is recorded for redemptions. -/
structure Redeemed (redemptions : List RedeemParams) (p : DeviceBootstrapProfile) : Prop where
  normal : p.Normal
  roles : ∀ role ∈ p.roles, ∃ r ∈ redemptions, trim r.role = role
  scopes : ∀ scope ∈ p.scopes, scope ∈ bootstrapHandoffOperatorScopes ∧
    ∃ r ∈ redemptions, trim r.role = operatorRole ∧ scope ∈ normalizeDeviceAuthScopes r.scopes

theorem redeemed_nil : Redeemed [] (normalizeDeviceBootstrapProfile ⟨none, none⟩) :=
  ⟨normal_normalize _, fun _ h => (nomatch h), fun _ h => (nomatch h)⟩

/-- What the check compares is what was redeemed. -/
theorem covers_of_satisfies {redemptions : List RedeemParams} (hp : Redeemed redemptions p)
    (hq : q.Handoff) (h : bootstrapProfileSatisfiesProfile p q = true) : Covers redemptions q := by
  have hrole : ∀ role ∈ q.roles, role ∈ p.roles ∧
      (resolveBootstrapProfileScopesForRole role q.scopes = [] ∨
        bootstrapProfileAllowsRequest p role (resolveBootstrapProfileScopesForRole role q.scopes) =
          true) := by
    intro role hmem
    have hall := all_eq_true.mp h role hmem
    rw [Bool.and_eq_true, decide_eq_true_eq, Bool.or_eq_true, List.isEmpty_iff] at hall
    exact hall
  refine ⟨fun role hmem => hp.roles role (hrole role hmem).1, fun scope hmem => ?_⟩
  obtain ⟨hhandoff, hoperator⟩ := hq.scopes_mem scope hmem
  obtain ⟨hstart, htrim, hne⟩ := startsWith_of_mem_handoff hhandoff
  have hresolved : scope ∈ resolveBootstrapProfileScopesForRole operatorRole q.scopes :=
    mem_resolveScopesForRole.mpr
      ⟨by decide, mem_normalizeDeviceAuthScopes_of_trimmed hmem htrim hne, hhandoff⟩
  have hallows : p.Allows operatorRole (resolveBootstrapProfileScopesForRole operatorRole q.scopes) := by
    rcases (hrole operatorRole hoperator).2 with hnil | hallows
    · rw [hnil] at hresolved
      cases hresolved
    · exact (bootstrapProfileAllowsRequest_iff hp.normal (by decide)).mp hallows
  have hgrants := hallows.grants scope (mem_normalizeScopeList.mpr ⟨hne, scope, hresolved, htrim⟩)
  unfold GrantsScope at hgrants
  rw [if_pos (by decide)] at hgrants
  rcases hgrants.2 with hadmin | hscope | ⟨rfl, hwrite⟩
  · exact absurd (hp.scopes _ hadmin).1 not_mem_handoff_admin
  · exact (hp.scopes scope hscope).2
  · obtain ⟨r, hr, hrole, hmem⟩ := (hp.scopes _ hwrite).2
    exact ⟨r, hr, hrole, (hasImplied_normalizeDeviceAuthScopes r.scopes).write hmem⟩

/-- One more redemption. -/
theorem Redeemed.add {redemptions : List RedeemParams} (hp : Redeemed redemptions p)
    (r : RedeemParams) : Redeemed (redemptions ++ [r]) (normalizeDeviceBootstrapProfile
      ⟨some (p.roles ++ [r.role]),
        some (p.scopes ++ resolveBootstrapProfileScopesForRole r.role r.scopes)⟩) := by
  have hlast : r ∈ redemptions ++ [r] := mem_append_right _ (mem_singleton_self r)
  have hmem : ∀ s, s ∈ normalizeScopeList
      (p.scopes ++ resolveBootstrapProfileScopesForRole r.role r.scopes) →
      s ∈ bootstrapHandoffOperatorScopes ∧ ∃ r' ∈ redemptions ++ [r],
        trim r'.role = operatorRole ∧ s ∈ normalizeDeviceAuthScopes r'.scopes := by
    intro s hs
    obtain ⟨_, raw, hraw, rfl⟩ := mem_normalizeScopeList.mp hs
    rcases mem_append.mp hraw with hraw | hraw
    · obtain ⟨hhandoff, r', hr', hmem⟩ := hp.scopes raw hraw
      rw [(startsWith_of_mem_handoff hhandoff).2.1]
      exact ⟨hhandoff, r', mem_append_left _ hr', hmem⟩
    · obtain ⟨hrole, hnormal, hhandoff⟩ := mem_resolveScopesForRole.mp hraw
      rw [(startsWith_of_mem_handoff hhandoff).2.1]
      exact ⟨hhandoff, r, hlast, hrole, hnormal⟩
  refine ⟨normal_normalize _, ?_, ?_⟩
  · intro role hrole
    obtain ⟨hne, s, hs, rfl⟩ := mem_normalizeBootstrapRoles.mp hrole
    rcases mem_append.mp hs with hs | hs
    · obtain ⟨r', hr', hsame⟩ := hp.roles s hs
      refine ⟨r', mem_append_left _ hr', ?_⟩
      rw [← hsame, trim_trim]
    · rw [mem_singleton.mp hs]
      exact ⟨r, hlast, rfl⟩
  · intro scope hscope
    rcases mem_addImpliedScopes.mp (mem_normalizeDeviceAuthScopes.mp hscope) with
      hscope | ⟨rfl, hadmin | hwrite⟩ | ⟨rfl, hadmin⟩
    · exact hmem scope hscope
    · exact absurd (hmem _ hadmin).1 not_mem_handoff_admin
    · obtain ⟨_, r', hr', hrole, hnormal⟩ := hmem _ hwrite
      exact ⟨by decide, r', hr', hrole,
        (hasImplied_normalizeDeviceAuthScopes r'.scopes).write hnormal⟩
    · exact absurd (hmem _ hadmin).1 not_mem_handoff_admin

/-- Redeeming the role and scopes of a request satisfies it. -/
theorem satisfies_requested {params : RedeemParams} (hrole : trim params.role = trim role)
    (hscopes : resolveBootstrapProfileScopesForRole role scopes ⊆
      resolveBootstrapProfileScopesForRole params.role params.scopes) :
    bootstrapProfileSatisfiesProfile
      (normalizeDeviceBootstrapProfile ⟨some (p.roles ++ [params.role]),
        some (p.scopes ++ resolveBootstrapProfileScopesForRole params.role params.scopes)⟩)
      (resolveRequestedBootstrapProfile role scopes) = true := by
  apply all_eq_true.mpr
  intro r hr
  have hne : trim role ≠ [] := by
    obtain ⟨hne, s, hs, rfl⟩ := mem_normalizeBootstrapRoles.mp hr
    rw [mem_singleton.mp hs] at hne
    exact hne
  rw [(mem_requestedRoles hne).mp hr]
  have hmem : trim role ∈ (normalizeDeviceBootstrapProfile ⟨some (p.roles ++ [params.role]),
      some (p.scopes ++ resolveBootstrapProfileScopesForRole params.role params.scopes)⟩).roles :=
    mem_normalizeBootstrapRoles.mpr ⟨hne, params.role,
      mem_append_right _ (mem_singleton_self _), hrole⟩
  rw [Bool.and_eq_true, decide_eq_true_eq, Bool.or_eq_true]
  refine ⟨hmem, Or.inr ?_⟩
  rw [bootstrapProfileAllowsRequest_iff (normal_normalize _) (trim_trim role)]
  refine ⟨?_, ?_⟩
  · rw [trim_trim]
    exact hmem
  · intro scope hscope
    obtain ⟨_, raw, hraw, rfl⟩ := mem_normalizeScopeList.mp hscope
    obtain ⟨hoperator, hraw, hhandoff⟩ := mem_resolveScopesForRole.mp hraw
    obtain ⟨hstart, htrim, hne'⟩ := startsWith_of_mem_handoff hhandoff
    have hresolved : raw ∈ resolveBootstrapProfileScopesForRole role scopes := by
      have hsame : normalizeDeviceAuthScopes (resolveRequestedBootstrapProfile role scopes).scopes =
          (resolveRequestedBootstrapProfile role scopes).scopes := normalizeDeviceAuthScopes_idem _
      rw [hsame] at hraw
      exact mem_requestedScopes.mp hraw
    rw [htrim, trim_trim]
    unfold GrantsScope
    rw [trim_trim] at hoperator
    rw [if_pos hoperator]
    exact ⟨hstart, Or.inr (Or.inl (mem_normalizeDeviceAuthScopes_of_trimmed
      (mem_append_right _ (hscopes hresolved)) htrim hne'))⟩

end

end OpenClaw
