import Mathlib.Algebra.Order.Floor.Semiring
import Mathlib.Data.Rat.Floor
import Mathlib.Order.WithBot
import OpenClaw.Exec.CommandCarriers
import OpenClaw.Lib.Keyed
import OpenClaw.Lib.StableSort
import OpenClaw.Routing.StoredKey

/-!
# Maintenance of the session store

`store-maintenance.ts`: stale sessions are pruned, the store is capped to the sessions that were
updated last, and a warning says whether the cap would hit the active one. Sessions of threads,
groups and channels are protected.
-/

namespace OpenClaw

open List Keyed

/-! ## Protected sessions -/

/-- The fields of a session entry that maintenance reads. -/
structure SessionEntry where
  updatedAt : Option ℚ
  chatType : Option Str
  originChatType : Option Str
deriving DecidableEq

structure SessionConversationHookResult where
  id : Str
  threadId : Option Str

/-- `resolveSessionConversation` is the hook of the channel's loaded plugin; `none` also stands for
a channel without one. -/
structure SessionKeyHost extends RouteHost where
  resolveSessionConversation : Str → Str → Str → Option SessionConversationHookResult

section Protection

variable (host : SessionKeyHost)

def normalizeOptionalLowercaseString (value : Option Str) : Option Str :=
  (normalizeOptionalString value).map host.toLowerCase

/-- The start of the last occurrence, `lastIndexOf`. -/
def lastIndexOf? (s part : Str) : Option ℕ :=
  (List.range (s.length + 1)).reverse.find? fun i => startsWith (s.drop i) part

variable (sessionKey : Str)

/-- The thread id of `parseThreadSessionSuffix`. -/
def threadSuffixId : Option Str :=
  (normalizeOptionalString (some sessionKey)).bind fun raw =>
    (lastIndexOf? (normalizeToken host.toRouteHost raw) ":thread:".toList).bind fun index =>
      normalizeOptionalString (some (raw.drop (index + ":thread:".length)))

structure RawSessionConversationRef where
  channel : Str
  kind : Str
  rawId : Str

def parseRawSessionConversationRef : Option RawSessionConversationRef :=
  (normalizeOptionalString (some sessionKey)).bind fun raw =>
    let rawParts := keySegments raw
    let bodyStartIndex := if 3 ≤ rawParts.length ∧
      normalizeOptionalLowercaseString host rawParts[0]? = some "agent".toList then 2 else 0
    match rawParts.drop bodyStartIndex with
    | channel :: kind :: third :: parts =>
      match normalizeOptionalLowercaseString host (some channel),
          normalizeOptionalLowercaseString host (some kind) with
      | some channel, some kind =>
        if kind ≠ "group".toList ∧ kind ≠ "channel".toList then none
        else
          let prefixParts := rawParts.take (bodyStartIndex + 2)
          match normalizeOptionalString (some (joinWith ":".toList (third :: parts))),
              normalizeOptionalString (some (joinWith ":".toList prefixParts)) with
          | some rawId, some _ => some ⟨channel, kind, rawId⟩
          | _, _ => none
      | _, _ => none
    | _ => none

/-- The thread id of `parseSessionThreadInfoFast`. -/
def sessionThreadId : Option Str :=
  let resolved := (parseRawSessionConversationRef host sessionKey).bind fun raw =>
    (host.resolveSessionConversation raw.channel raw.kind raw.rawId).filter fun resolved =>
      trim resolved.id ≠ []
  match resolved with
  | some resolved => normalizeOptionalString resolved.threadId
  | none => threadSuffixId host sessionKey

/-- What stands behind the agent, or the whole key. -/
def sessionKeyRest : Str :=
  normalizeToken host.toRouteHost
    (((parseAgentSessionKey host.toRouteHost (some sessionKey)).map (·.rest)).getD sessionKey)

/-- `isSubagentSessionKey` and `isAcpSessionKey`: the key or what stands behind its agent begins
with the text. -/
def isSessionKeyOfKind (kind sessionKey : Str) : Bool :=
  match normalizeOptionalString (some sessionKey) with
  | none => false
  | some raw => startsWith (normalizeToken host.toRouteHost raw) kind ||
      ((parseAgentSessionKey host.toRouteHost (some raw)).any fun parsed =>
        (normalizeOptionalLowercaseString host (some parsed.rest)).any (startsWith · kind))

def isCronSessionKey : Bool :=
  (parseAgentSessionKey host.toRouteHost (some sessionKey)).any fun parsed =>
    (normalizeOptionalLowercaseString host (some parsed.rest)).any (startsWith · "cron:".toList)

def isSyntheticSessionMaintenanceKey : Bool :=
  let rest := sessionKeyRest host sessionKey
  isSessionKeyOfKind host "subagent:".toList sessionKey ||
    isSessionKeyOfKind host "acp:".toList sessionKey || isCronSessionKey host sessionKey ||
    startsWith rest "hook:".toList || startsWith rest "node:".toList ||
    rest = "heartbeat".toList || endsWith rest ":heartbeat".toList ||
    rest.tails.any (startsWith · ":heartbeat:".toList)

/-- `.+`, with nothing in front or behind. -/
def isNonEmptyLine (s : Str) : Bool := s ≠ [] && s.all fun c => !isLineTerminator c

/-- `/^telegram:(?:group|channel|direct|dm):.+:topic:[^:]+$/`, read by the segments of the key. -/
def isTelegramTopicSessionKey : Bool :=
  match (sessionKeyRest host sessionKey).splitOn ':' with
  | channel :: kind :: parts =>
    match parts.reverse with
    | topicId :: topic :: chat =>
      channel = "telegram".toList && topic = "topic".toList && topicId ≠ [] &&
        ["group", "channel", "direct", "dm"].any (·.toList = kind) &&
        isNonEmptyLine (joinWith ":".toList chat.reverse)
    | _ => false
  | _ => false

/-- `/^[^:]+:(?:group|channel):.+$/`. -/
def isExternalGroupOrChannelSessionKey : Bool :=
  match (sessionKeyRest host sessionKey).splitOn ':' with
  | channel :: kind :: parts =>
    channel ≠ [] && (kind = "group".toList || kind = "channel".toList) &&
      isNonEmptyLine (joinWith ":".toList parts)
  | _ => false

def isProtectedSessionMaintenanceEntry (entry : SessionEntry) : Bool :=
  if isSyntheticSessionMaintenanceKey host sessionKey then false
  else if (sessionThreadId host sessionKey).isSome then true
  else if isTelegramTopicSessionKey host sessionKey then true
  else if isExternalGroupOrChannelSessionKey host sessionKey then true
  else
    let chatType := normalizeToken host.toRouteHost
      ((entry.chatType.or entry.originChatType).getD [])
    chatType = "group".toList || chatType = "channel".toList || chatType = "thread".toList

end Protection

/-! ## The store -/

/-- `Record<string, SessionEntry>`, in the order of `Object.entries`. -/
abbrev SessionStore := Keyed (Str × SessionEntry) Prod.fst

/-- `getEntryUpdatedAt`; the bottom is minus infinity. -/
def getEntryUpdatedAt (entry : SessionEntry) : WithBot ℚ := entry.updatedAt

section Store

variable (host : SessionKeyHost)

/-- Without a set of keys to preserve, `preserveKeys` is empty. -/
def shouldPreserveMaintenanceEntry (preserveKeys : List Str) (item : Str × SessionEntry) : Bool :=
  preserveKeys.contains item.1 || isProtectedSessionMaintenanceEntry host item.1 item.2

variable (store : SessionStore)

/-- `pruneStaleEntries` with its `maxAgeMs` and `Date.now()`. Each round of the loop deletes at most
its own key. -/
def pruneStaleEntries (maxAgeMs now : ℚ) (preserveKeys : List Str) : SessionStore × ℕ :=
  let cutoffMs := now - maxAgeMs
  let pruned := store.filter fun item =>
    shouldPreserveMaintenanceEntry host preserveKeys item ||
      !(item.2.updatedAt.any fun updatedAt => updatedAt < cutoffMs)
  (pruned, store.entries.length - pruned.entries.length)

/-- The order in which `capEntryCount` sorts: the sessions updated last come first. -/
def UpdatedNoEarlier (a b : Str × SessionEntry) : Prop :=
  getEntryUpdatedAt b.2 ≤ getEntryUpdatedAt a.2

instance : DecidableRel UpdatedNoEarlier := fun a b =>
  inferInstanceAs (Decidable (getEntryUpdatedAt b.2 ≤ getEntryUpdatedAt a.2))

instance : Std.Total UpdatedNoEarlier := ⟨fun _ b => le_total (getEntryUpdatedAt b.2) _⟩

instance : IsTrans (Str × SessionEntry) UpdatedNoEarlier := ⟨fun _ _ _ hab hbc => hbc.trans hab⟩

/-- `capEntryCount` with its `maxEntries`. -/
def capEntryCount (maxEntries : ℚ) (preserveKeys : List Str) : SessionStore × ℕ :=
  let preservedCount := store.entries.countP (shouldPreserveMaintenanceEntry host preserveKeys)
  let maxRemovableEntries := max 0 (maxEntries - preservedCount)
  let items := store.entries.filter fun item =>
    !shouldPreserveMaintenanceEntry host preserveKeys item
  if (items.length : ℚ) ≤ maxRemovableEntries then (store, 0)
  else
    let toRemove := (items.insertionSort UpdatedNoEarlier).drop ⌊maxRemovableEntries⌋₊
    (store.filter fun item => item ∉ toRemove, toRemove.length)

structure SessionMaintenanceWarning where
  activeSessionKey : Str
  activeUpdatedAt : Option ℚ
  totalEntries : ℕ
  pruneAfterMs : ℚ
  maxEntries : ℚ
  wouldPrune : Bool
  wouldCap : Bool

/-- The loop of `wouldCapActiveSession`. -/
def countsToLimit (activeSessionKey : Str) (activeUpdatedAt : WithBot ℚ) (maxRemovableEntries : ℚ) :
    Bool → ℕ → List (Str × SessionEntry) → Bool
  | _, _, [] => false
  | seenActive, newerOrTieBeforeActive, item :: rest =>
    if item.1 = activeSessionKey then
      countsToLimit activeSessionKey activeUpdatedAt maxRemovableEntries true
        newerOrTieBeforeActive rest
    else if isProtectedSessionMaintenanceEntry host item.1 item.2 then
      countsToLimit activeSessionKey activeUpdatedAt maxRemovableEntries seenActive
        newerOrTieBeforeActive rest
    else if activeUpdatedAt < getEntryUpdatedAt item.2 ∨
        seenActive = false ∧ getEntryUpdatedAt item.2 = activeUpdatedAt then
      if maxRemovableEntries ≤ (newerOrTieBeforeActive + 1 : ℕ) then true
      else countsToLimit activeSessionKey activeUpdatedAt maxRemovableEntries seenActive
        (newerOrTieBeforeActive + 1) rest
    else countsToLimit activeSessionKey activeUpdatedAt maxRemovableEntries seenActive
      newerOrTieBeforeActive rest

variable (activeSessionKey : Str)

def wouldCapActiveSession (activeEntry : SessionEntry) (maxEntries : ℚ) : Bool :=
  if (store.entries.length : ℚ) ≤ maxEntries then false
  else if maxEntries ≤ 0 then true
  else
    let protectedCount := store.entries.countP fun item =>
      item.1 ≠ activeSessionKey && isProtectedSessionMaintenanceEntry host item.1 item.2
    let maxRemovableEntries := max 0 (maxEntries - protectedCount)
    if maxRemovableEntries ≤ 0 then true
    else countsToLimit host activeSessionKey (getEntryUpdatedAt activeEntry) maxRemovableEntries
      false 0 store.entries

def getActiveSessionMaintenanceWarning
    (pruneAfterMs maxEntries now : ℚ) : Option SessionMaintenanceWarning :=
  let activeSessionKey := trim activeSessionKey
  if activeSessionKey = [] then none
  else (store.find activeSessionKey).bind fun active =>
    let activeEntry := active.2
    if isProtectedSessionMaintenanceEntry host activeSessionKey activeEntry then none
    else
      let cutoffMs := now - pruneAfterMs
      let wouldPrune := activeEntry.updatedAt.any fun updatedAt => updatedAt < cutoffMs
      let wouldCap := wouldCapActiveSession host store activeSessionKey activeEntry maxEntries
      if wouldPrune = false ∧ wouldCap = false then none
      else some ⟨activeSessionKey, activeEntry.updatedAt, store.entries.length, pruneAfterMs,
        maxEntries, wouldPrune, wouldCap⟩

end Store

/-! ## What the cap removes -/

section Cap

variable {host : SessionKeyHost} {store : SessionStore} {maxEntries : ℚ} {preserveKeys : List Str}

def removableItems (host : SessionKeyHost) (store : SessionStore) (preserveKeys : List Str) :
    List (Str × SessionEntry) :=
  store.entries.filter fun item => !shouldPreserveMaintenanceEntry host preserveKeys item

variable (host store maxEntries preserveKeys)

/-- How many of them the cap leaves at most. -/
def removableRoom : ℕ :=
  ⌊max 0 (maxEntries -
    store.entries.countP (shouldPreserveMaintenanceEntry host preserveKeys))⌋₊

def cappedItems : List (Str × SessionEntry) :=
  ((removableItems host store preserveKeys).insertionSort UpdatedNoEarlier).drop
    (removableRoom host store maxEntries preserveKeys)

theorem capEntryCount_entries : (capEntryCount host store maxEntries preserveKeys).1.entries =
      store.entries.filter fun item => item ∉ cappedItems host store maxEntries preserveKeys := by
  unfold capEntryCount
  dsimp only
  split
  · next hfew =>
    have hnone : cappedItems host store maxEntries preserveKeys = [] := by
      apply drop_eq_nil_of_le
      rw [length_insertionSort]
      exact Nat.le_floor hfew
    symm
    apply filter_eq_self.mpr
    intro item _
    rw [hnone]
    simp
  · rfl

variable {host store maxEntries preserveKeys}

theorem nodup_storeEntries (store : SessionStore) : store.entries.Nodup := store.nodup.of_map

theorem nodup_cappedItems : (cappedItems host store maxEntries preserveKeys).Nodup := by
  have hitems : (removableItems host store preserveKeys).Nodup := (nodup_storeEntries store).filter _
  exact ((perm_insertionSort _ _).nodup_iff.mpr hitems).sublist (drop_sublist _ _)

theorem mem_removableItems_of_capped {item : Str × SessionEntry}
    (h : item ∈ cappedItems host store maxEntries preserveKeys) :
    item ∈ removableItems host store preserveKeys :=
  (mem_insertionSort UpdatedNoEarlier).mp (mem_of_mem_drop h)

theorem not_preserved_of_capped {item : Str × SessionEntry}
    (h : item ∈ cappedItems host store maxEntries preserveKeys) :
    shouldPreserveMaintenanceEntry host preserveKeys item = false := by
  have hkept := (mem_filter.mp (mem_removableItems_of_capped h)).2
  simpa using hkept

/-- The cap leaves as many entries as it may, or the preserved ones where these are more. -/
theorem length_capEntryCount_le (host : SessionKeyHost) (store : SessionStore) (maxEntries : ℚ)
    (preserveKeys : List Str) :
    ((capEntryCount host store maxEntries preserveKeys).1.entries.length : ℚ) ≤
      max maxEntries (store.entries.countP (shouldPreserveMaintenanceEntry host preserveKeys)) := by
  rw [capEntryCount_entries]
  have hremoved : (store.entries.filter fun item =>
      item ∈ cappedItems host store maxEntries preserveKeys).length =
        (cappedItems host store maxEntries preserveKeys).length := by
    apply List.Perm.length_eq
    rw [perm_ext_iff_of_nodup ((nodup_storeEntries store).filter _) nodup_cappedItems]
    intro item
    rw [mem_filter, decide_eq_true_iff]
    constructor
    · exact fun h => h.2
    · exact fun h => ⟨(mem_filter.mp (mem_removableItems_of_capped h)).1, h⟩
  have hsplit := store.entries.length_eq_length_filter_add fun item =>
    item ∈ cappedItems host store maxEntries preserveKeys
  have hkept : (store.entries.filter fun item =>
      !decide (item ∈ cappedItems host store maxEntries preserveKeys)) =
        store.entries.filter fun item =>
          item ∉ cappedItems host store maxEntries preserveKeys :=
    filter_congr fun item _ => by simp
  have hitems : store.entries.length =
      store.entries.countP (shouldPreserveMaintenanceEntry host preserveKeys) +
        (removableItems host store preserveKeys).length := by
    rw [countP_eq_length_filter]
    exact store.entries.length_eq_length_filter_add _
  have hdropped : (cappedItems host store maxEntries preserveKeys).length =
      (removableItems host store preserveKeys).length -
        removableRoom host store maxEntries preserveKeys := by
    unfold cappedItems
    rw [length_drop, length_insertionSort]
  rw [hremoved, hkept] at hsplit
  have hcount : (store.entries.filter fun item =>
      item ∉ cappedItems host store maxEntries preserveKeys).length ≤
        store.entries.countP (shouldPreserveMaintenanceEntry host preserveKeys) +
          removableRoom host store maxEntries preserveKeys := by
    omega
  have hroom : (removableRoom host store maxEntries preserveKeys : ℚ) ≤ max 0 (maxEntries -
      store.entries.countP (shouldPreserveMaintenanceEntry host preserveKeys)) :=
    Nat.floor_le (le_max_left 0 _)
  calc _ ≤ ((store.entries.countP (shouldPreserveMaintenanceEntry host preserveKeys) +
          removableRoom host store maxEntries preserveKeys : ℕ) : ℚ) := Nat.cast_le.mpr hcount
    _ ≤ store.entries.countP (shouldPreserveMaintenanceEntry host preserveKeys) +
        max 0 (maxEntries -
          store.entries.countP (shouldPreserveMaintenanceEntry host preserveKeys)) := by
      rw [Nat.cast_add]
      exact add_le_add_right hroom _
    _ = _ := by
      rw [← max_add_add_left, add_zero, add_sub_cancel, max_comm]

/-- What the cap removes was updated no later than what it leaves of the entries it may remove. -/
theorem updatedAt_le_of_capped {removed kept : Str × SessionEntry}
    (hremoved : removed ∈ cappedItems host store maxEntries preserveKeys)
    (hkept : kept ∈ (capEntryCount host store maxEntries preserveKeys).1.entries)
    (hremovable : shouldPreserveMaintenanceEntry host preserveKeys kept = false) :
    getEntryUpdatedAt removed.2 ≤ getEntryUpdatedAt kept.2 := by
  rw [capEntryCount_entries, mem_filter, decide_eq_true_iff] at hkept
  have hitem : kept ∈ removableItems host store preserveKeys :=
    mem_filter.mpr ⟨hkept.1, by rw [hremovable]; rfl⟩
  have hsorted := (mem_insertionSort UpdatedNoEarlier).mpr hitem
  rw [← take_append_drop (removableRoom host store maxEntries preserveKeys)
    ((removableItems host store preserveKeys).insertionSort UpdatedNoEarlier),
    mem_append] at hsorted
  have hrel : UpdatedNoEarlier kept removed :=
    StableSort.rel_of_mem_drop (hsorted.resolve_right hkept.2) hremoved
  exact hrel

/-- An entry that may be removed is removed where its place among these is not below the room. -/
theorem mem_cappedItems_iff {before after : List (Str × SessionEntry)}
    {active : Str × SessionEntry} (hentries : store.entries = before ++ active :: after)
    (hactive : shouldPreserveMaintenanceEntry host preserveKeys active = false) :
    active ∈ cappedItems host store maxEntries preserveKeys ↔
      removableRoom host store maxEntries preserveKeys ≤ StableSort.rank UpdatedNoEarlier
          (before.filter fun item => !shouldPreserveMaintenanceEntry host preserveKeys item) active
          (after.filter fun item => !shouldPreserveMaintenanceEntry host preserveKeys item) := by
  have hitems : removableItems host store preserveKeys =
      (before.filter fun item => !shouldPreserveMaintenanceEntry host preserveKeys item) ++
        active :: after.filter fun item =>
          !shouldPreserveMaintenanceEntry host preserveKeys item := by
    unfold removableItems
    rw [hentries, filter_append, filter_cons_of_pos (by rw [hactive]; rfl)]
  have hnodup : (removableItems host store preserveKeys).Nodup := (nodup_storeEntries store).filter _
  unfold cappedItems
  rw [hitems] at hnodup ⊢
  exact StableSort.mem_drop_iff hnodup

end Cap

/-! ## What the warning predicts -/

section Warning

variable {host : SessionKeyHost} {active : Str × SessionEntry} {limit : ℚ}

/-- What the loop counts before it has seen the active session, and after. -/
def countsInFront (host : SessionKeyHost) (active : Str × SessionEntry) (seenActive : Bool)
    (item : Str × SessionEntry) : Bool :=
  !isProtectedSessionMaintenanceEntry host item.1 item.2 &&
    (getEntryUpdatedAt active.2 < getEntryUpdatedAt item.2 ||
      !seenActive && getEntryUpdatedAt item.2 = getEntryUpdatedAt active.2)

theorem countsToLimit_append (host : SessionKeyHost) (seen : Bool) {l : List (Str × SessionEntry)} {n : ℕ}
    (hkeys : ∀ item ∈ l, item.1 ≠ active.1) (hn : (n : ℚ) < limit)
    (rest : List (Str × SessionEntry)) :
    countsToLimit host active.1 (getEntryUpdatedAt active.2) limit seen n (l ++ rest) =
      if limit ≤ (n + l.countP (countsInFront host active seen) : ℕ) then true
      else countsToLimit host active.1 (getEntryUpdatedAt active.2) limit seen
        (n + l.countP (countsInFront host active seen)) rest := by
  induction l generalizing n with
  | nil => rw [countP_nil, Nat.add_zero, if_neg (not_le.mpr hn), nil_append]
  | cons item l ih =>
    have hrest : ∀ item ∈ l, item.1 ≠ active.1 := fun x hx => hkeys x (mem_cons_of_mem _ hx)
    rw [cons_append]
    conv_lhs => unfold countsToLimit
    rw [if_neg (hkeys item mem_cons_self)]
    by_cases hprotected : isProtectedSessionMaintenanceEntry host item.1 item.2 = true
    · have hnot : countsInFront host active seen item = false := by
        unfold countsInFront
        rw [hprotected]
        rfl
      rw [if_pos hprotected, ih hrest hn, countP_cons_of_neg (by rw [hnot]; decide)]
    · have hcounts : countsInFront host active seen item = true ↔
          getEntryUpdatedAt active.2 < getEntryUpdatedAt item.2 ∨
            seen = false ∧ getEntryUpdatedAt item.2 = getEntryUpdatedAt active.2 := by
        unfold countsInFront
        simp [Bool.eq_false_iff.mpr hprotected]
      rw [if_neg hprotected]
      by_cases hfront : countsInFront host active seen item = true
      · rw [if_pos (hcounts.mp hfront), countP_cons_of_pos hfront]
        by_cases hlimit : limit ≤ (n + 1 : ℕ)
        · have hmore : limit ≤ (n + (l.countP (countsInFront host active seen) + 1) : ℕ) :=
            hlimit.trans (Nat.cast_le.mpr (by omega))
          rw [if_pos hlimit, if_pos hmore]
        · rw [if_neg hlimit, ih hrest (not_le.mp hlimit), Nat.add_assoc, Nat.add_comm 1]
      · rw [if_neg fun h => hfront (hcounts.mpr h), ih hrest hn, countP_cons_of_neg hfront]

/-- The loop finds the place of the active session among the unprotected ones. -/
theorem countsToLimit_iff {before after : List (Str × SessionEntry)} (hlimit : 0 < limit)
    (hbefore : ∀ item ∈ before, item.1 ≠ active.1) (hafter : ∀ item ∈ after, item.1 ≠ active.1) :
    countsToLimit host active.1 (getEntryUpdatedAt active.2) limit false 0
        (before ++ active :: after) = true ↔
      limit ≤ StableSort.rank UpdatedNoEarlier
        (before.filter fun item => !shouldPreserveMaintenanceEntry host [] item) active
        (after.filter fun item => !shouldPreserveMaintenanceEntry host [] item) := by
  have hpreserve : ∀ item, shouldPreserveMaintenanceEntry host [] item =
      isProtectedSessionMaintenanceEntry host item.1 item.2 := fun item => rfl
  have hfront : ∀ items : List (Str × SessionEntry),
      (items.filter fun item => !shouldPreserveMaintenanceEntry host [] item).countP
        (fun item => decide (UpdatedNoEarlier item active)) =
          items.countP (countsInFront host active false) := by
    intro items
    rw [countP_filter]
    refine countP_congr fun item _ => ?_
    have hrel : UpdatedNoEarlier item active ↔
        getEntryUpdatedAt active.2 < getEntryUpdatedAt item.2 ∨
          getEntryUpdatedAt item.2 = getEntryUpdatedAt active.2 := by
      show getEntryUpdatedAt active.2 ≤ getEntryUpdatedAt item.2 ↔ _
      rw [le_iff_lt_or_eq, eq_comm]
    unfold countsInFront
    simp [hpreserve, hrel, and_comm]
  have hback : ∀ items : List (Str × SessionEntry),
      (items.filter fun item => !shouldPreserveMaintenanceEntry host [] item).countP
        (fun item => decide ¬ UpdatedNoEarlier active item) =
          items.countP (countsInFront host active true) := by
    intro items
    rw [countP_filter]
    refine countP_congr fun item _ => ?_
    have hrel : UpdatedNoEarlier active item ↔
        ¬ getEntryUpdatedAt active.2 < getEntryUpdatedAt item.2 := not_lt.symm
    unfold countsInFront
    simp [hpreserve, hrel, and_comm]
  unfold StableSort.rank
  rw [hfront, hback, countsToLimit_append host false hbefore (by simpa using hlimit)]
  generalize before.countP (countsInFront host active false) = newer
  split_ifs with hreached
  · refine iff_of_true rfl (hreached.trans (Nat.cast_le.mpr ?_))
    omega
  · conv_lhs => unfold countsToLimit
    have hafter' := countsToLimit_append host true hafter (not_le.mp hreached) []
    rw [append_nil] at hafter'
    rw [if_pos rfl, hafter', Nat.zero_add]
    split_ifs with hlate
    · exact iff_of_true rfl hlate
    · exact iff_of_false (fun h => nomatch h) hlate

/-- For whole limits the warning says what the cap without preserved keys would do. -/
theorem wouldCapActiveSession_iff {store : SessionStore} (hmem : active ∈ store.entries)
    (hactive : isProtectedSessionMaintenanceEntry host active.1 active.2 = false) (limit : ℤ) :
    wouldCapActiveSession host store active.1 active.2 limit = true ↔
      active ∈ cappedItems host store limit [] := by
  obtain ⟨before, after, hentries⟩ := append_of_mem hmem
  have hkeys : ∀ item ∈ before ++ after, item.1 ≠ active.1 := by
    have hnodup := store.nodup
    rw [hentries, map_append, map_cons, nodup_append, nodup_cons] at hnodup
    intro item hitem heq
    rcases mem_append.mp hitem with hfront | hback
    · exact hnodup.2.2 _ (mem_map_of_mem hfront) _ mem_cons_self heq
    · exact hnodup.2.1.1 (heq ▸ mem_map_of_mem hback)
  have hprotected : (store.entries.countP fun item =>
      item.1 ≠ active.1 && isProtectedSessionMaintenanceEntry host item.1 item.2) =
        store.entries.countP (shouldPreserveMaintenanceEntry host []) := by
    refine countP_congr fun item hitem => ?_
    show _ ↔ isProtectedSessionMaintenanceEntry host item.1 item.2 = true
    by_cases hkey : item.1 = active.1
    · obtain rfl := inj_on_of_nodup_map store.nodup hitem hmem hkey
      simp [hactive]
    · simp [hkey]
  have hitems := store.entries.length_eq_length_filter_add (shouldPreserveMaintenanceEntry host [])
  rw [← countP_eq_length_filter] at hitems
  have hremovable : shouldPreserveMaintenanceEntry host [] active = false := hactive
  have hplace : StableSort.rank UpdatedNoEarlier
      (before.filter fun item => !shouldPreserveMaintenanceEntry host [] item) active
      (after.filter fun item => !shouldPreserveMaintenanceEntry host [] item) <
        (store.entries.filter fun item => !shouldPreserveMaintenanceEntry host [] item).length := by
    rw [hentries, filter_append, length_append,
      filter_cons_of_pos (by rw [hremovable]; rfl), length_cons]
    exact Nat.lt_of_le_of_lt StableSort.rank_le (Nat.add_lt_add_left (Nat.lt_succ_self _) _)
  rw [mem_cappedItems_iff hentries hremovable]
  unfold wouldCapActiveSession removableRoom
  dsimp only
  rw [hprotected]
  generalize store.entries.countP (shouldPreserveMaintenanceEntry host []) = count at *
  have hroom : max 0 ((limit : ℚ) - count) = ((limit - count).toNat : ℚ) := by
    have hcast : (((limit - count).toNat : ℤ) : ℚ) = ((max (limit - count) 0 : ℤ) : ℚ) := by
      rw [Int.toNat_eq_max]
    push_cast at hcast
    rw [max_comm, ← hcast]
  rw [hroom, Nat.floor_natCast]
  by_cases hfew : (store.entries.length : ℚ) ≤ limit
  · rw [if_pos hfew]
    have hfew' : (store.entries.length : ℤ) ≤ limit := by exact_mod_cast hfew
    refine iff_of_false (fun h => nomatch h) ?_
    omega
  rw [if_neg hfew]
  by_cases hzero : (limit : ℚ) ≤ 0
  · rw [if_pos hzero]
    have hzero' : limit ≤ 0 := by exact_mod_cast hzero
    refine iff_of_true rfl ?_
    omega
  rw [if_neg hzero]
  by_cases hfull : ((limit - count).toNat : ℚ) ≤ 0
  · rw [if_pos hfull]
    have hfull' : (limit - count).toNat ≤ 0 := by exact_mod_cast hfull
    refine iff_of_true rfl ?_
    omega
  rw [if_neg hfull, hentries, countsToLimit_iff (not_le.mp hfull)
    (fun item hitem => hkeys item (mem_append_left _ hitem))
    fun item hitem => hkeys item (mem_append_right _ hitem)]
  exact Nat.cast_le

end Warning

/-- Maintenance keeps preserved and protected sessions, leaves the newest of the others within the
limit, and warns of a capped session exactly when the cap would remove it. -/
theorem sessionMaintenance_spec (host : SessionKeyHost) (store : SessionStore)
    (preserveKeys : List Str) : (∀ maxAgeMs now : ℚ, ∀ item ∈ store.entries,
      shouldPreserveMaintenanceEntry host preserveKeys item = true →
        item ∈ (pruneStaleEntries host store maxAgeMs now preserveKeys).1.entries) ∧
    (∀ maxEntries : ℚ, let capped := (capEntryCount host store maxEntries preserveKeys).1
      (∀ item ∈ store.entries, shouldPreserveMaintenanceEntry host preserveKeys item = true →
        item ∈ capped.entries) ∧
      (capped.entries.length : ℚ) ≤ max maxEntries
        (store.entries.countP (shouldPreserveMaintenanceEntry host preserveKeys)) ∧
      ∀ removed ∈ store.entries, removed ∉ capped.entries → ∀ kept ∈ capped.entries,
        shouldPreserveMaintenanceEntry host preserveKeys kept = false →
          getEntryUpdatedAt removed.2 ≤ getEntryUpdatedAt kept.2) ∧
    ∀ (activeSessionKey : Str) (pruneAfterMs now : ℚ) (limit : ℤ), trim activeSessionKey ≠ [] →
      ∀ active, store.find (trim activeSessionKey) = some active →
        isProtectedSessionMaintenanceEntry host active.1 active.2 = false →
          ((getActiveSessionMaintenanceWarning host store activeSessionKey pruneAfterMs limit
              now).any (·.wouldCap) = true ↔
            (capEntryCount host store limit []).1.find (trim activeSessionKey) = none) := by
  have hcapped : ∀ (maxEntries : ℚ) (keys : List Str) (item : Str × SessionEntry),
      item ∈ (capEntryCount host store maxEntries keys).1.entries ↔
        item ∈ store.entries ∧ item ∉ cappedItems host store maxEntries keys := by
    intro maxEntries keys item
    rw [capEntryCount_entries, mem_filter, decide_eq_true_iff]
  refine ⟨fun maxAgeMs now item hitem hpreserve => ?_, fun maxEntries => ⟨?_, ?_, ?_⟩, ?_⟩
  · refine mem_filter.mpr ⟨hitem, ?_⟩
    rw [hpreserve]
    rfl
  · intro item hitem hpreserve
    refine (hcapped _ _ _).mpr ⟨hitem, fun hmem => ?_⟩
    rw [not_preserved_of_capped hmem] at hpreserve
    exact nomatch hpreserve
  · exact length_capEntryCount_le host store maxEntries preserveKeys
  · intro removed hremoved hgone kept hkept hremovable
    have hmem : removed ∈ cappedItems host store maxEntries preserveKeys := by
      by_contra hnot
      exact hgone ((hcapped _ _ _).mpr ⟨hremoved, hnot⟩)
    exact updatedAt_le_of_capped hmem hkept hremovable
  · intro activeSessionKey pruneAfterMs now limit hkey active hfind hactive
    have hwould := wouldCapActiveSession_iff (mem_of_find hfind) hactive limit
    have hid : active.1 = trim activeSessionKey := key_of_find hfind
    rw [hid] at hwould hactive
    have hgone : (capEntryCount host store limit []).1.find (trim activeSessionKey) = none ↔
        active ∈ cappedItems host store limit [] := by
      constructor
      · intro hnone
        by_contra hnot
        have hkept := (hcapped _ _ _).mpr ⟨mem_of_find hfind, hnot⟩
        have hfound := find_of_mem hkept
        rw [hid, hnone] at hfound
        exact nomatch hfound
      · intro hmem
        cases hkept : (capEntryCount host store limit []).1.find (trim activeSessionKey) with
        | none => rfl
        | some item =>
          exfalso
          obtain ⟨hitem, hnot⟩ := (hcapped _ _ _).mp (mem_of_find hkept)
          have hsame : item = active := inj_on_of_nodup_map store.nodup hitem
            (mem_of_find hfind) ((key_of_find hkept).trans hid.symm)
          exact hnot (hsame ▸ hmem)
    rw [hgone, ← hwould]
    unfold getActiveSessionMaintenanceWarning
    dsimp only
    rw [if_neg hkey, hfind, Option.bind_some, if_neg (by rw [hactive]; exact Bool.false_ne_true)]
    split
    · next hnone => simp [hnone.2]
    · rfl

end OpenClaw
