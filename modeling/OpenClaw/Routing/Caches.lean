import OpenClaw.Routing.Plain
import OpenClaw.Routing.Separation

/-!
# Cached routing

Each cache holds what the configuration objects that it was built from give. The bindings
and the agents are found under keys that cannot be confused. A route is found under the key
of an earlier query, and it is the route of that query: the key joins ids and lists of roles
that the sender chooses, and two queries may share it.
-/

namespace OpenClaw

open List Option Function

/-! ## Sound caches -/

/-- What is cached of the bindings is what the bindings give. -/
structure EvaluatedBindingsCache.Sound (host : RouteHost) (heap : ConfigHeap)
    (cache : EvaluatedBindingsCache) : Prop where
  byChannel : cache.byChannel =
    buildEvaluatedBindingsByChannel host (heap.bindings cache.bindingsRef)
  byChannelAccount : Memo.Sound (fun key evaluated => ∀ channel accountId, '\t' ∉ accountId →
    key = evaluatedCacheKey channel accountId →
      evaluated = plainBindings host (heap.bindings cache.bindingsRef) channel accountId)
    cache.byChannelAccount
  byChannelAccountIndex : Memo.Sound (fun key index => ∀ channel accountId, '\t' ∉ accountId →
    key = evaluatedCacheKey channel accountId → index = buildEvaluatedBindingsIndex
      (plainBindings host (heap.bindings cache.bindingsRef) channel accountId))
    cache.byChannelAccountIndex

/-- A cached route is the plain route of an earlier query with its key, for the same objects. -/
def ResolvedRouteCache.Sound (host : RouteHost) (heap : ConfigHeap) (earlier : List RouteQuery)
    (cfg : ℕ) (cache : ResolvedRouteCache) : Prop :=
  Memo.Sound (fun key route => ∃ query ∈ earlier, query.usesRouteCache heap = true ∧
    query.cfg = ⟨cfg, cache.bindingsRef, cache.agentsRef, cache.sessionRef⟩ ∧
    query.cacheKey host heap = key ∧ plainRoute host heap query = route) cache.byKey

structure RouteCaches.Sound (host : RouteHost) (heap : ConfigHeap) (earlier : List RouteQuery)
    (caches : RouteCaches) : Prop where
  evaluated : ∀ cfg, ∀ cache ∈ caches.evaluated cfg, cache.Sound host heap
  agentLookup : ∀ cfg, ∀ cache ∈ caches.agentLookup cfg,
    cache.lookup = buildAgentLookup host (heap.agents cache.agentsRef)
  resolved : ∀ cfg, ∀ cache ∈ caches.resolved cfg, cache.Sound host heap earlier cfg

section

variable {host : RouteHost} {heap : ConfigHeap} {earlier : List RouteQuery} {caches : RouteCaches}

theorem sound_emptyCaches : RouteCaches.empty.Sound host heap earlier := by
  constructor
  · exact fun _ _ hcache => nomatch hcache
  · exact fun _ _ hcache => nomatch hcache
  · exact fun _ _ hcache => nomatch hcache

theorem RouteCaches.Sound.mono (h : caches.Sound host heap earlier) {more : List RouteQuery}
    (hsub : earlier ⊆ more) : caches.Sound host heap more where
  evaluated := h.evaluated
  agentLookup := h.agentLookup
  resolved cfg cache hcache := by
    refine (h.resolved cfg cache hcache).mono ?_
    rintro key route ⟨query, hquery, hrest⟩
    exact ⟨query, hsub hquery, hrest⟩

/-- The account has no tab, so the last tab of the key ends the channel. -/
theorem evaluatedCacheKey_inj {channel channel' accountId accountId' : Str}
    (haccount : '\t' ∉ accountId) (haccount' : '\t' ∉ accountId')
    (h : evaluatedCacheKey channel accountId = evaluatedCacheKey channel' accountId') :
    channel = channel' ∧ accountId = accountId' := by
  have hreverse := congrArg List.reverse h
  unfold evaluatedCacheKey at hreverse
  have htab : "\t".toList = ['\t'] := rfl
  simp only [htab, reverse_append, reverse_cons, append_assoc, singleton_append] at hreverse
  have hparts := (Segments.append_sep_eq_iff (by simpa using haccount)
    (by simpa using haccount')).mp hreverse
  exact ⟨reverse_injective hparts.2, reverse_injective hparts.1⟩

/-! ## One look into a cache -/

variable (cfg : ConfigRef) (channel : Str) {accountId : Str}

theorem sound_evaluatedBindingsCache (h : caches.Sound host heap earlier) :
    (evaluatedBindingsCache host heap cfg caches).Sound host heap ∧
      (evaluatedBindingsCache host heap cfg caches).bindingsRef = cfg.bindings := by
  unfold evaluatedBindingsCache
  cases hcached : (caches.evaluated cfg.cfg).filter (·.bindingsRef = cfg.bindings) with
  | some existing =>
    obtain ⟨hexisting, href⟩ := Option.filter_eq_some_iff.mp hcached
    exact ⟨h.evaluated _ existing hexisting, of_decide_eq_true href⟩
  | none => exact ⟨⟨rfl, Memo.sound_empty, Memo.sound_empty⟩, rfl⟩

theorem RouteCaches.Sound.withEvaluated (h : caches.Sound host heap earlier) {id : ℕ}
    {cache : EvaluatedBindingsCache} (hcache : cache.Sound host heap) :
    RouteCaches.Sound host heap earlier
      { caches with evaluated := Function.update caches.evaluated id (some cache) } where
  evaluated other found hfound := by
    dsimp only at hfound
    rw [update_apply] at hfound
    split_ifs at hfound
    · rw [← some.inj hfound]
      exact hcache
    · exact h.evaluated other found hfound
  agentLookup := h.agentLookup
  resolved := h.resolved

theorem EvaluatedBindingsCache.Sound.store {cache : EvaluatedBindingsCache}
    (h : cache.Sound host heap) (haccount : '\t' ∉ accountId) :
    (cache.store (evaluatedCacheKey channel accountId)
      (plainBindings host (heap.bindings cache.bindingsRef) channel accountId)).Sound host heap ∧
    (cache.store (evaluatedCacheKey channel accountId)
      (plainBindings host (heap.bindings cache.bindingsRef) channel accountId)).bindingsRef =
        cache.bindingsRef := by
  have hbindings : ∀ channel' accountId', '\t' ∉ accountId' →
      evaluatedCacheKey channel accountId = evaluatedCacheKey channel' accountId' →
      plainBindings host (heap.bindings cache.bindingsRef) channel accountId =
        plainBindings host (heap.bindings cache.bindingsRef) channel' accountId' := by
    intro channel' accountId' haccount' heq
    obtain ⟨rfl, rfl⟩ := evaluatedCacheKey_inj haccount haccount' heq
    rfl
  have hindex : ∀ channel' accountId', '\t' ∉ accountId' →
      evaluatedCacheKey channel accountId = evaluatedCacheKey channel' accountId' →
      buildEvaluatedBindingsIndex
        (plainBindings host (heap.bindings cache.bindingsRef) channel accountId) =
      buildEvaluatedBindingsIndex
        (plainBindings host (heap.bindings cache.bindingsRef) channel' accountId') := by
    intro channel' accountId' haccount' heq
    rw [hbindings channel' accountId' haccount' heq]
  unfold EvaluatedBindingsCache.store
  dsimp only
  split_ifs
  · exact ⟨⟨h.byChannel, Memo.sound_empty.set hbindings, Memo.sound_empty.set hindex⟩, rfl⟩
  · exact ⟨⟨h.byChannel, h.byChannelAccount.set hbindings, h.byChannelAccountIndex.set hindex⟩, rfl⟩

/-- The bindings of a channel and account, cached or not. -/
theorem getEvaluatedBindingsForChannelAccount_spec (h : caches.Sound host heap earlier)
    (haccount : '\t' ∉ accountId) :
    let found := getEvaluatedBindingsForChannelAccount host heap cfg channel accountId caches
    found.1 = plainBindings host (heap.bindings cfg.bindings) channel accountId ∧
      found.2.Sound host heap earlier ∧ found.2.resolved = caches.resolved ∧
      ∃ cache, found.2.evaluated cfg.cfg = some cache ∧ cache.bindingsRef = cfg.bindings := by
  obtain ⟨hcache, href⟩ := sound_evaluatedBindingsCache cfg h
  unfold getEvaluatedBindingsForChannelAccount
  dsimp only
  generalize evaluatedBindingsCache host heap cfg caches = cache at hcache href
  cases hhit : Memo.get cache.byChannelAccount (evaluatedCacheKey channel accountId) with
  | some hit =>
    refine ⟨?_, h.withEvaluated hcache, rfl, cache, update_self .., href⟩
    rw [← href]
    exact hcache.byChannelAccount.get hhit channel accountId haccount rfl
  | none =>
    have hmerged : mergeEvaluatedBindingsInSourceOrder
        (cache.byChannel.byAccount (channel, accountId)) (cache.byChannel.byAnyAccount channel) =
          plainBindings host (heap.bindings cache.bindingsRef) channel accountId := by
      rw [hcache.byChannel]
      exact mergeEvaluatedBindingsInSourceOrder_eq host _ channel accountId
    have hstore := hcache.store channel haccount
    dsimp only
    rw [hmerged]
    exact ⟨by rw [href], h.withEvaluated hstore.1, rfl, _, update_self .., hstore.2.trans href⟩

theorem getEvaluatedBindingIndexForChannelAccount_spec (h : caches.Sound host heap earlier)
    (haccount : '\t' ∉ accountId) :
    let found := getEvaluatedBindingIndexForChannelAccount host heap cfg channel accountId caches
    found.1 = buildEvaluatedBindingsIndex
        (plainBindings host (heap.bindings cfg.bindings) channel accountId) ∧
      found.2.Sound host heap earlier ∧ found.2.resolved = caches.resolved := by
  obtain ⟨hbindings, hsound, hresolved, cache, hcached, href⟩ :=
    getEvaluatedBindingsForChannelAccount_spec cfg channel h haccount
  unfold getEvaluatedBindingIndexForChannelAccount
  generalize getEvaluatedBindingsForChannelAccount host heap cfg channel accountId caches = found
    at hbindings hsound hresolved hcached
  obtain ⟨bindings, caches'⟩ := found
  dsimp only at hbindings hsound hresolved hcached ⊢
  have hcache := hsound.evaluated _ cache hcached
  rw [hcached, bind_some]
  cases hhit : Memo.get cache.byChannelAccountIndex (evaluatedCacheKey channel accountId) with
  | some indexed =>
    refine ⟨?_, hsound, hresolved⟩
    rw [← href]
    exact hcache.byChannelAccountIndex.get hhit channel accountId haccount rfl
  | none =>
    dsimp only
    rw [hbindings]
    refine ⟨rfl, hsound.withEvaluated ⟨hcache.byChannel, hcache.byChannelAccount, ?_⟩, hresolved⟩
    apply hcache.byChannelAccountIndex.set
    intro channel' accountId' haccount' heq
    obtain ⟨rfl, rfl⟩ := evaluatedCacheKey_inj haccount haccount' heq
    rw [href]

theorem resolveAgentLookupCache_spec (h : caches.Sound host heap earlier) :
    let found := resolveAgentLookupCache host heap cfg caches
    found.1 = buildAgentLookup host (heap.agents cfg.agents) ∧
      found.2.Sound host heap earlier ∧ found.2.resolved = caches.resolved := by
  unfold resolveAgentLookupCache
  dsimp only
  cases hcached : (caches.agentLookup cfg.cfg).filter (·.agentsRef = cfg.agents) with
  | some existing =>
    obtain ⟨hexisting, href⟩ := Option.filter_eq_some_iff.mp hcached
    refine ⟨?_, h, rfl⟩
    rw [← of_decide_eq_true href]
    exact h.agentLookup _ existing hexisting
  | none =>
    refine ⟨rfl, ⟨h.evaluated, ?_, h.resolved⟩, rfl⟩
    intro other found hfound
    dsimp only at hfound
    rw [update_apply] at hfound
    split_ifs at hfound
    · rw [← some.inj hfound]
    · exact h.agentLookup other found hfound

end

/-! ## Queries -/

section

variable {host : RouteHost} {heap : ConfigHeap} {earlier : List RouteQuery} {caches : RouteCaches}

/-- The same question; a list of roles counts as a set, and a parent without an id as none. -/
structure SameQuestion (q q' : RouteQuestion) : Prop where
  channel : q.channel = q'.channel
  accountId : q.accountId = q'.accountId
  peer : q.peer = q'.peer
  parentPeer : q.parentPeer.filter (·.id ≠ []) = q'.parentPeer.filter (·.id ≠ [])
  guildId : q.guildId = q'.guildId
  teamId : q.teamId = q'.teamId
  memberRoleIds : ∀ role, role ∈ q.memberRoleIds ↔ role ∈ q'.memberRoleIds

theorem SameQuestion.matchBinding_eq {q q' : RouteQuestion} (h : SameQuestion q q')
    (bindings : List EvaluatedBinding) :
    (matchBinding q fun _ => bindings) = matchBinding q' fun _ => bindings := by
  have hempty : q.memberRoleIds = [] ↔ q'.memberRoleIds = [] := by
    rw [eq_nil_iff_forall_not_mem, eq_nil_iff_forall_not_mem]
    exact forall_congr' fun role => not_congr (h.memberRoleIds role)
  have hroles : ∀ role, q.memberRoleIds.contains role = q'.memberRoleIds.contains role := by
    intro role
    rw [Bool.eq_iff_iff, contains_iff_mem, contains_iff_mem]
    exact h.memberRoleIds role
  have henabled : ∀ tier : RouteTier, tier.enabled q = tier.enabled q' := by
    intro tier
    cases tier with
    | peerParent => exact congrArg Option.isSome h.parentPeer
    | _ => simp [RouteTier.enabled, h.peer, h.guildId, h.teamId, hempty]
  have hscope : ∀ tier : RouteTier, tier.scopePeer q = tier.scopePeer q' := by
    intro tier
    cases tier with
    | peerParent => exact h.parentPeer
    | _ => exact h.peer
  have htakes : ∀ tier : RouteTier, tier.takes q = tier.takes q' := by
    intro tier
    funext b
    unfold RouteTier.takes matchesBindingScope routeBindingScopeMatches
    simp only [hscope tier, h.guildId, h.teamId, hroles]
  unfold matchBinding
  simp only [henabled, htakes]

theorem SameQuestion.plainRoute_eq {query query' : RouteQuery} (hcfg : query.cfg = query'.cfg)
    (h : SameQuestion (query.input.question host) (query'.input.question host)) :
    plainRoute host heap query = plainRoute host heap query' := by
  unfold plainRoute
  dsimp only
  rw [hcfg, h.channel, h.accountId]
  unfold routeOver
  rw [h.matchBinding_eq]
  unfold chooseRoute
  rw [h.channel, h.accountId, h.peer]

/-- Queries to the same configuration that share a key ask the same question. -/
def KeysFaithful (host : RouteHost) (heap : ConfigHeap) (queries : List RouteQuery) : Prop :=
  ∀ a ∈ queries, ∀ b ∈ queries, a.cfg = b.cfg → a.usesRouteCache heap = true →
    b.usesRouteCache heap = true → a.cacheKey host heap = b.cacheKey host heap →
    SameQuestion (a.input.question host) (b.input.question host)

theorem KeysFaithful.subset {queries fewer : List RouteQuery} (h : KeysFaithful host heap queries)
    (hsub : fewer ⊆ queries) : KeysFaithful host heap fewer :=
  fun a ha b hb => h a (hsub ha) b (hsub hb)

variable (hlower : LowerCases host.toLowerCase)
include hlower

theorem tab_notMem_accountId (input : ResolveAgentRouteInput) :
    '\t' ∉ (input.question host).accountId := by
  intro hmem
  have hchar := isAccountIdChar_normalizeAccountId hlower input.accountId '\t' hmem
  exact nomatch hchar

/-- A route that is computed is the plain route. -/
theorem computeRoute_spec (h : caches.Sound host heap earlier) (query : RouteQuery) :
    let computed := computeRoute host heap query.cfg (query.input.question host) caches
    computed.1 = plainRoute host heap query ∧ computed.2.Sound host heap earlier ∧
      computed.2.resolved = caches.resolved := by
  have haccount := tab_notMem_accountId hlower query.input
  have htrimmed := trimmed_question host query.input
  unfold computeRoute plainRoute
  dsimp only
  generalize query.input.question host = q at haccount htrimmed ⊢
  obtain ⟨-, hsound, hresolved, -⟩ :=
    getEvaluatedBindingsForChannelAccount_spec query.cfg q.channel h haccount
  generalize getEvaluatedBindingsForChannelAccount host heap query.cfg q.channel q.accountId caches
    = found at hsound hresolved ⊢
  obtain ⟨hindex, hsound', hresolved'⟩ :=
    getEvaluatedBindingIndexForChannelAccount_spec query.cfg q.channel hsound haccount
  generalize getEvaluatedBindingIndexForChannelAccount host heap query.cfg q.channel q.accountId
    found.2 = indexed at hindex hsound' hresolved' ⊢
  obtain ⟨hlookup, hsound'', hresolved''⟩ := resolveAgentLookupCache_spec query.cfg hsound'
  generalize resolveAgentLookupCache host heap query.cfg indexed.2 = looked
    at hlookup hsound'' hresolved'' ⊢
  refine ⟨?_, hsound'', hresolved''.trans (hresolved'.trans hresolved)⟩
  have hproper : ∀ b ∈ plainBindings host (heap.bindings query.cfg.bindings) q.channel q.accountId,
      b.normalized.Proper := by
    intro b hb
    have hmem := (mem_filter.mp hb).1
    obtain ⟨entry, -, rfl⟩ := mem_map.mp hmem
    exact proper_normalizeBindingMatch host _
  have hmatch := matchBinding_index htrimmed
    (nodup_plainBindings host (heap.bindings query.cfg.bindings) q.channel q.accountId) hproper
  unfold routeOver
  rw [hindex, hlookup, hmatch]

omit hlower in
theorem sound_resolvedRouteCache (cfg : ConfigRef) (h : caches.Sound host heap earlier) :
    (resolvedRouteCache cfg caches).Sound host heap earlier cfg.cfg ∧
      (⟨cfg.cfg, (resolvedRouteCache cfg caches).bindingsRef,
        (resolvedRouteCache cfg caches).agentsRef, (resolvedRouteCache cfg caches).sessionRef⟩ :
          ConfigRef) = cfg := by
  unfold resolvedRouteCache
  cases hcached : (caches.resolved cfg.cfg).filter fun existing =>
      existing.bindingsRef = cfg.bindings && existing.agentsRef = cfg.agents &&
        existing.sessionRef = cfg.session with
  | some existing =>
    obtain ⟨hexisting, hrefs⟩ := Option.filter_eq_some_iff.mp hcached
    simp only [Bool.and_eq_true, decide_eq_true_eq] at hrefs
    refine ⟨h.resolved _ existing hexisting, ?_⟩
    dsimp only
    rw [hrefs.1.1, hrefs.1.2, hrefs.2]
  | none => exact ⟨Memo.sound_empty, rfl⟩

omit hlower in
theorem RouteCaches.Sound.withResolved (h : caches.Sound host heap earlier) {id : ℕ}
    {cache : ResolvedRouteCache} (hcache : cache.Sound host heap earlier id) :
    RouteCaches.Sound host heap earlier
      { caches with resolved := Function.update caches.resolved id (some cache) } where
  evaluated := h.evaluated
  agentLookup := h.agentLookup
  resolved other found hfound := by
    dsimp only at hfound
    rw [update_apply] at hfound
    split_ifs at hfound with hother
    · rw [← some.inj hfound, hother]
      exact hcache
    · exact h.resolved other found hfound

/-- A query whose key is that of no other question is answered by the plain route. -/
theorem resolveAgentRoute_spec (h : caches.Sound host heap earlier) {query : RouteQuery}
    (hkeys : KeysFaithful host heap (query :: earlier)) :
    (resolveAgentRoute host heap query caches).1 = plainRoute host heap query ∧
      (resolveAgentRoute host heap query caches).2.Sound host heap (query :: earlier) := by
  have hmono := h.mono (subset_cons_self query earlier)
  unfold resolveAgentRoute
  dsimp only
  split_ifs with huses
  · obtain ⟨hcache, hcfg⟩ := sound_resolvedRouteCache query.cfg hmono
    generalize resolvedRouteCache query.cfg caches = cache at hcache hcfg ⊢
    have hstart := hmono.withResolved hcache
    cases hhit : Memo.get cache.byKey (query.cacheKey host heap) with
    | some cachedRoute =>
      obtain ⟨other, hother, huses', hcfg', hkey, hroute⟩ := hcache.get hhit
      have hsame := hkeys other hother query mem_cons_self (hcfg'.trans hcfg) huses' huses hkey
      exact ⟨hroute.symm.trans (hsame.plainRoute_eq (hcfg'.trans hcfg)), hstart⟩
    | none =>
      obtain ⟨hroute, hsound, -⟩ := computeRoute_spec hlower hstart query
      refine ⟨hroute, hsound.withResolved ?_⟩
      apply hcache.remember
      exact ⟨query, mem_cons_self, huses, hcfg.symm, rfl, hroute.symm⟩
  · obtain ⟨hroute, hsound, -⟩ := computeRoute_spec hlower hmono query
    exact ⟨hroute, hsound⟩

omit hlower in
theorem resolveAgentRoutes_cons (query : RouteQuery) (queries : List RouteQuery)
    (caches : RouteCaches) : resolveAgentRoutes host heap (query :: queries) caches =
      (resolveAgentRoute host heap query caches).1 ::
        resolveAgentRoutes host heap queries (resolveAgentRoute host heap query caches).2 := rfl

theorem resolveAgentRoutes_of_sound (h : caches.Sound host heap earlier) {queries : List RouteQuery}
    (hkeys : KeysFaithful host heap (earlier ++ queries)) :
    resolveAgentRoutes host heap queries caches = queries.map (plainRoute host heap) := by
  induction queries generalizing caches earlier with
  | nil => rfl
  | cons query queries ih =>
    have hsub : query :: earlier ⊆ earlier ++ query :: queries := by
      intro q hq
      simp only [mem_cons, mem_append] at hq ⊢
      tauto
    have hrest : query :: earlier ++ queries ⊆ earlier ++ query :: queries := by
      intro q hq
      simp only [mem_cons, mem_append] at hq ⊢
      tauto
    obtain ⟨hroute, hsound⟩ := resolveAgentRoute_spec hlower h (hkeys.subset hsub)
    rw [resolveAgentRoutes_cons, hroute, ih hsound (hkeys.subset hrest)]
    rfl

end

/-! ## Two lists of roles with one key -/

/-- Members with the role `a` of the guild `g` are sent to the agent `mod`. -/
def moderatorHeap : ConfigHeap where
  bindings _ := [{
    agentId := "mod".toList
    bindingMatch := {
      channel := some "discord".toList
      accountId := some anyAccount
      guildId := some "g".toList
      roles := some ["a".toList] } }]
  agents _ := [{ id := some "main".toList, isDefault := true }, { id := some "mod".toList }]
  session _ := {}

def guildQuery (memberRoleIds : List Str) : RouteQuery where
  cfg := ⟨0, 0, 0, 0⟩
  input := {
    channel := "discord".toList
    peer := some ⟨.channel, "42".toList⟩
    guildId := some "g".toList
    memberRoleIds := memberRoleIds }

theorem keysFaithful_single (host : RouteHost) (heap : ConfigHeap) (query : RouteQuery) :
    KeysFaithful host heap [query] := by
  intro a ha b hb _ _ _ _
  rw [mem_singleton.mp ha, mem_singleton.mp hb]
  exact ⟨rfl, rfl, rfl, rfl, rfl, rfl, fun _ => Iff.rfl⟩

end OpenClaw
