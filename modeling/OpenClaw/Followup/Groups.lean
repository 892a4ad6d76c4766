import OpenClaw.Followup.Drain
import Mathlib.Data.List.Chain

/-!
# The route and the authorization of a group

The messages of a group have one authorization key, since the split compares neighbours. The
routing of the group is put together field by field from the first message that has the
field. It is the route of the messages if they have one compact key and that key stands for
one route.
-/

namespace OpenClaw

open List Option

variable {host : RouteHost}

/-! ## Authorizations -/

/-- The messages have one authorization key. -/
def SameAuthorization (group : List QueuedRun) : Prop :=
  ∀ m ∈ group, ∀ m' ∈ group, m.authorizationKey = m'.authorizationKey

variable (items : List QueuedRun)

theorem sameAuthorization_splitLoop {groups : List (List QueuedRun)}
    {currentGroup : List QueuedRun} {currentKey : Option Str}
    (hgroups : ∀ group ∈ groups, SameAuthorization group)
    (hcurrent : ∀ m ∈ currentGroup, some m.authorizationKey = currentKey) :
    ∀ group ∈ splitLoop groups currentGroup currentKey items, SameAuthorization group := by
  have hsame : SameAuthorization currentGroup := fun m hm m' hm' =>
    some.inj ((hcurrent m hm).trans (hcurrent m' hm').symm)
  induction items generalizing groups currentGroup currentKey with
  | nil =>
    rw [splitLoop]
    split
    · exact hgroups
    · intro group hgroup
      rcases mem_append.mp hgroup with hold | hlast
      · exact hgroups group hold
      · rw [mem_singleton] at hlast
        exact hlast ▸ hsame
  | cons item rest ih =>
    simp only [splitLoop]
    split
    · next hjoin =>
      have hnext : ∀ m ∈ currentGroup ++ [item], some m.authorizationKey =
          some item.authorizationKey := by
        intro m hm
        rcases mem_append.mp hm with hold | hnew
        · rcases hjoin with hempty | hkey
          · rw [hempty] at hold
            cases hold
          · exact (hcurrent m hold).trans hkey
        · rw [mem_singleton] at hnew
          rw [hnew]
      exact ih hgroups hnext fun m hm m' hm' =>
        some.inj ((hnext m hm).trans (hnext m' hm').symm)
    · refine ih ?_ ?_ ?_
      · intro group hgroup
        rcases mem_append.mp hgroup with hold | hlast
        · exact hgroups group hold
        · rw [mem_singleton] at hlast
          exact hlast ▸ hsame
      · intro m hm
        rw [mem_singleton] at hm
        rw [hm]
      · intro m hm m' hm'
        rw [mem_singleton] at hm hm'
        rw [hm, hm']

theorem sameAuthorization_split {items group : List QueuedRun}
    (h : group ∈ splitCollectItemsByAuthorization items) : SameAuthorization group := by
  unfold splitCollectItemsByAuthorization at h
  split at h
  · next hshort =>
    split at h
    · exact nomatch h
    · next hne =>
      rw [mem_singleton] at h
      have hone : items.length = 1 := by omega
      obtain ⟨item, hitem⟩ := length_eq_one_iff.mp hone
      intro m hm m' hm'
      rw [h, hitem, mem_singleton] at hm hm'
      rw [hm, hm']
  · exact sameAuthorization_splitLoop items (by simp) (by simp) group h

/-! ## The test of the channels -/

theorem crossChannelLoop_eq_false {keys : List Str} {hasUnkeyed : Bool}
    {resolved : List CrossChannelKey} (h : crossChannelLoop keys hasUnkeyed resolved = false) :
    (keys = [] ∧ ∀ r ∈ resolved, r = .unkeyed) ∨
      (hasUnkeyed = false ∧ ∃ key, (∀ k ∈ keys, k = key) ∧ ∀ r ∈ resolved, r = .key key) := by
  induction resolved generalizing keys hasUnkeyed with
  | nil =>
    rw [crossChannelLoop] at h
    split at h
    · next hnone => exact .inl ⟨length_eq_zero_iff.mp hnone, by simp⟩
    · next hsome =>
      split_ifs at h
      next hunkeyed =>
      have hone : keys.length = 1 := by
        rw [decide_eq_false_iff_not] at h
        omega
      obtain ⟨key, rfl⟩ := length_eq_one_iff.mp hone
      exact .inr ⟨by simpa using hunkeyed, key, by simp, by simp⟩
  | cons r rest ih =>
    cases r with
    | cross => exact absurd h (by simp [crossChannelLoop])
    | unkeyed =>
      rw [crossChannelLoop] at h
      rcases ih h with ⟨hkeys, hrest⟩ | ⟨htrue, _⟩
      · refine .inl ⟨hkeys, fun r hr => ?_⟩
        rcases mem_cons.mp hr with rfl | hin
        · rfl
        · exact hrest r hin
      · exact nomatch htrue
    | key k =>
      rw [crossChannelLoop] at h
      have hmem : k ∈ keys.insert k := mem_insert_self
      rcases ih h with ⟨hkeys, _⟩ | ⟨hunkeyed, key, hkeys, hrest⟩
      · rw [hkeys] at hmem
        exact nomatch hmem
      · refine .inr ⟨hunkeyed, key, fun k' hk' => hkeys k' (mem_insert_of_mem hk'),
          fun r hr => ?_⟩
        rcases mem_cons.mp hr with rfl | hin
        · rw [hkeys k hmem]
        · exact hrest r hin

/-- The messages have one key, and it is not that of a message that must be run alone. -/
def SameKey (host : RouteHost) (group : List QueuedRun) : Prop :=
  ∃ key, key ≠ .cross ∧ ∀ m ∈ group, m.crossChannelKey host = key

theorem sameKey_of_not_cross {items : List QueuedRun} (h : hasCrossChannelItems host items = false) :
    SameKey host items := by
  rcases crossChannelLoop_eq_false h with ⟨_, hall⟩ | ⟨_, key, _, hall⟩
  · exact ⟨.unkeyed, by simp, fun m hm => hall _ (mem_map_of_mem hm)⟩
  · exact ⟨.key key, by simp, fun m hm => hall _ (mem_map_of_mem hm)⟩

/-! ## The routing of a group -/

theorem fillFrom_eq (metadata : OriginRoutingMetadata) (items : List QueuedRun) :
    fillFrom metadata items =
      { originatingChannel := metadata.originatingChannel.or
          (items.findSome? fun m => truthyString m.followup.originatingChannel)
        originatingTo := metadata.originatingTo.or
          (items.findSome? fun m => truthyString m.followup.originatingTo)
        originatingAccountId := metadata.originatingAccountId.or
          (items.findSome? fun m => truthyString m.followup.originatingAccountId)
        originatingThreadId := metadata.originatingThreadId.or
          (items.findSome? fun m => presentThreadId m.followup.originatingThreadId) } := by
  have hor : ∀ {α : Type} (a b c : Option α), (a.or b).or c = a.or (b.or c) := by
    intro α a b c
    cases a <;> rfl
  have hcons : ∀ {α : Type} (f : QueuedRun → Option α) (m : QueuedRun) (rest : List QueuedRun),
      (m :: rest).findSome? f = (f m).or (rest.findSome? f) := by
    intro α f m rest
    rw [findSome?_cons]
    cases f m <;> rfl
  induction items generalizing metadata with
  | nil => simp [fillFrom]
  | cons item rest ih =>
    simp only [fillFrom, hcons, ← hor]
    split
    · next hcomplete =>
      -- the loop is left when every field is set, and later messages would not change them
      simp only [OriginRoutingMetadata.isComplete, Bool.and_eq_true, isSome_iff_exists,
        OriginRoutingMetadata.fill] at hcomplete
      obtain ⟨⟨⟨⟨c, hc⟩, t, ht⟩, a, ha⟩, i, hi⟩ := hcomplete
      simp [OriginRoutingMetadata.fill, hc, ht, ha, hi]
    · rw [ih]
      rfl

theorem resolveOriginRoutingMetadata_eq : resolveOriginRoutingMetadata items =
      { originatingChannel := items.findSome? fun m => truthyString m.followup.originatingChannel
        originatingTo := items.findSome? fun m => truthyString m.followup.originatingTo
        originatingAccountId :=
          items.findSome? fun m => truthyString m.followup.originatingAccountId
        originatingThreadId :=
          items.findSome? fun m => presentThreadId m.followup.originatingThreadId } := by
  rw [resolveOriginRoutingMetadata, fillFrom_eq]
  rfl

theorem truthyString_eq_some {value : Option Str} {s : Str} (h : truthyString value = some s) :
    value = some s := by
  unfold truthyString at h
  exact (Option.filter_eq_some_iff.mp h).1

theorem presentThreadId_eq_some {value : Option RouteThreadId} {id : RouteThreadId}
    (h : presentThreadId value = some id) : value = some id := by
  unfold presentThreadId at h
  exact (Option.filter_eq_some_iff.mp h).1

/-- Messages with one compact key have one route. -/
def FaithfulKeys (host : RouteHost) (items : List QueuedRun) : Prop :=
  ∀ m ∈ items, ∀ m' ∈ items, ∀ key, m.crossChannelKey host = .key key →
    m'.crossChannelKey host = .key key →
      normalizeChannelRouteRef host m.followup.toOriginRoutingMetadata =
        normalizeChannelRouteRef host m'.followup.toOriginRoutingMetadata

/-! ### The key of what was put together -/

variable {input : OriginRoutingMetadata}

theorem isBlank_of_unkeyed
    (h : resolveCrossChannelKey host input = .unkeyed) : input.isBlank = true := by
  unfold resolveCrossChannelKey at h
  split at h
  · next hblank => exact hblank
  · split_ifs at h
    split at h <;> exact nomatch h

theorem fields_of_isBlank (h : input.isBlank = true) :
    truthyString input.originatingChannel = none ∧ truthyString input.originatingTo = none ∧
      truthyString input.originatingAccountId = none ∧
      presentThreadId input.originatingThreadId = none := by
  simp only [OriginRoutingMetadata.isBlank, Bool.and_eq_true, isNone_iff_eq_none] at h
  exact ⟨h.1.1.1, h.1.1.2, h.1.2, h.2⟩

/-- What a message with a compact key has. -/
theorem fields_of_key {key : Str} (h : resolveCrossChannelKey host input = .key key) :
    (∃ channel, truthyString input.originatingChannel = some channel) ∧
      (∃ target, truthyString input.originatingTo = some target) ∧
      isRoutableChannel host input.originatingChannel = true ∧
      channelRouteCompactKey host input = some key := by
  unfold resolveCrossChannelKey at h
  split at h
  · exact nomatch h
  · split_ifs at h
    next hfields =>
    rw [Bool.or_eq_true, not_or, Bool.not_eq_true', Bool.not_eq_false, Bool.not_eq_true,
      isNone_eq_false_iff, isSome_iff_exists] at hfields
    have hchannel : ∃ channel, truthyString input.originatingChannel = some channel := by
      have hroutable := hfields.1
      unfold isRoutableChannel at hroutable
      obtain ⟨channel, hchannel, _⟩ := (Option.any_eq_true _ _).mp hroutable
      exact ⟨channel, hchannel⟩
    split at h
    · next key' hkey' =>
      rw [CrossChannelKey.key.injEq] at h
      exact ⟨hchannel, hfields.2, hfields.1, h ▸ hkey'⟩
    · exact nomatch h

theorem normalizeChannelRouteRef_fields {route : ChannelRouteRef}
    (h : normalizeChannelRouteRef host input = some route) :
    route.accountId = normalizeOptionalAccountId host input.originatingAccountId ∧
      route.threadId = normalizeRouteThreadId input.originatingThreadId := by
  unfold normalizeChannelRouteRef at h
  dsimp only at h
  split at h
  · exact nomatch h
  · rw [some.injEq] at h
    exact h ▸ ⟨rfl, rfl⟩

/-- An account id that does not count as true is no account id. -/
theorem normalizeOptionalAccountId_of_blank {value : Option Str} (h : truthyString value = none) :
    normalizeOptionalAccountId host value = normalizeOptionalAccountId host none := by
  cases value with
  | none => rfl
  | some s =>
    have hempty : s = [] := by simpa [truthyString, Option.filter] using h
    rw [hempty]
    rfl

theorem normalizeRouteThreadId_of_blank {value : Option RouteThreadId}
    (h : presentThreadId value = none) :
    normalizeRouteThreadId value = normalizeRouteThreadId none := by
  cases value with
  | none => rfl
  | some id =>
    have hempty : id = .text [] := by simpa [presentThreadId, Option.filter] using h
    rw [hempty]
    rfl

/-- The field that is found first has the normal form of the field of the first message, where
all messages have one normal form and a missing field has that of no field. -/
theorem normalize_findSome {α β : Type} (normalize : Option α → β) (field : QueuedRun → Option α)
    (present : Option α → Option α) (hpresent : ∀ {v x}, present v = some x → v = some x)
    (hblank : ∀ {v}, present v = none → normalize v = normalize none) {first : QueuedRun}
    {rest : List QueuedRun}
    (hsame : ∀ m ∈ first :: rest, normalize (field m) = normalize (field first)) :
    normalize ((first :: rest).findSome? fun m => present (field m)) = normalize (field first) := by
  cases hfind : (first :: rest).findSome? fun m => present (field m) with
  | none =>
    rw [findSome?_eq_none_iff] at hfind
    exact (hblank (hfind first mem_cons_self)).symm
  | some x =>
    obtain ⟨m, hm, hx⟩ := exists_of_findSome?_eq_some hfind
    rw [← hpresent hx]
    exact hsame m hm

/-- The routing that is put together from messages of one key has that key. -/
theorem crossChannelKey_resolve {group : List QueuedRun} {key : CrossChannelKey}
    (hne : group ≠ []) (hcross : key ≠ .cross)
    (hkey : ∀ m ∈ group, m.crossChannelKey host = key) (hfaithful : FaithfulKeys host group) :
    resolveCrossChannelKey host (resolveOriginRoutingMetadata group) = key := by
  rw [resolveOriginRoutingMetadata_eq]
  cases key with
  | cross => exact absurd rfl hcross
  | unkeyed =>
    have hblank := fun m hm => fields_of_isBlank (isBlank_of_unkeyed (hkey m hm))
    rw [findSome?_eq_none_iff.mpr fun m hm => (hblank m hm).1,
      findSome?_eq_none_iff.mpr fun m hm => (hblank m hm).2.1,
      findSome?_eq_none_iff.mpr fun m hm => (hblank m hm).2.2.1,
      findSome?_eq_none_iff.mpr fun m hm => (hblank m hm).2.2.2]
    rfl
  | key key =>
    obtain ⟨first, rest, rfl⟩ := exists_cons_of_ne_nil hne
    have hfirst := hkey first mem_cons_self
    obtain ⟨⟨channel, hchannel⟩, ⟨target, htarget⟩, hroutable, hcompact⟩ := fields_of_key hfirst
    obtain ⟨route, hroute, _⟩ := Option.bind_eq_some_iff.mp hcompact
    -- every message has the normalized account and thread of the first one
    have hsame : ∀ m ∈ first :: rest,
        normalizeOptionalAccountId host m.followup.originatingAccountId =
            normalizeOptionalAccountId host first.followup.originatingAccountId ∧
          normalizeRouteThreadId m.followup.originatingThreadId =
            normalizeRouteThreadId first.followup.originatingThreadId := by
      intro m hm
      have href := hfaithful m hm first mem_cons_self key (hkey m hm) hfirst
      have hm' := normalizeChannelRouteRef_fields (href.trans hroute)
      have hfirst' := normalizeChannelRouteRef_fields hroute
      exact ⟨hm'.1.symm.trans hfirst'.1, hm'.2.symm.trans hfirst'.2⟩
    have haccount := normalize_findSome (normalizeOptionalAccountId host)
      (fun m => m.followup.originatingAccountId) truthyString truthyString_eq_some
      normalizeOptionalAccountId_of_blank fun m hm => (hsame m hm).1
    have hthread := normalize_findSome normalizeRouteThreadId
      (fun m => m.followup.originatingThreadId) presentThreadId presentThreadId_eq_some
      normalizeRouteThreadId_of_blank fun m hm => (hsame m hm).2
    have hchannels : ((first :: rest).findSome? fun m =>
        truthyString m.followup.originatingChannel) = first.followup.originatingChannel := by
      rw [findSome?_cons, hchannel, truthyString_eq_some hchannel]
    have htargets : ((first :: rest).findSome? fun m =>
        truthyString m.followup.originatingTo) = first.followup.originatingTo := by
      rw [findSome?_cons, htarget, truthyString_eq_some htarget]
    rw [hchannels, htargets]
    have hcompact' : channelRouteCompactKey host
        { originatingChannel := first.followup.originatingChannel
          originatingTo := first.followup.originatingTo
          originatingAccountId := (first :: rest).findSome? fun m =>
            truthyString m.followup.originatingAccountId
          originatingThreadId := (first :: rest).findSome? fun m =>
            presentThreadId m.followup.originatingThreadId } = some key := by
      rw [← hcompact]
      unfold channelRouteCompactKey normalizeChannelRouteRef
      dsimp only at haccount hthread ⊢
      rw [haccount, hthread]
    unfold resolveCrossChannelKey
    rw [if_neg (by simp [OriginRoutingMetadata.isBlank, hchannel]), hroutable, hcompact',
      if_neg (by simp [htarget])]

end OpenClaw
