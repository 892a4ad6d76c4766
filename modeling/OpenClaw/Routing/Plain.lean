import OpenClaw.Lib.Segments
import OpenClaw.Routing.Router
import Mathlib.Data.List.Find

/-!
# The plain rule

Plain routing asks each tier in order for the first binding that it takes, of all bindings of
the channel and the account in the order of the configuration. The index asks a bucket
instead. A binding that a tier takes and that is in another bucket is one that an earlier
tier takes, so the first tier that takes a binding finds it in its own bucket.
-/

namespace OpenClaw

open List Buckets

/-- The bindings of a channel and an account, or of any account, in order. -/
def plainBindings (host : RouteHost) (bindings : List AgentBinding) (channel accountId : Str) :
    List EvaluatedBinding :=
  (evaluatedBindings host bindings).filter fun evaluated =>
    evaluated.channel host = channel &&
      (evaluated.normalized.accountPattern = anyAccount ||
        resolveAccountPatternKey host evaluated.normalized.accountPattern = accountId)

/-- The route of a query, computed from the configuration alone. -/
def plainRoute (host : RouteHost) (heap : ConfigHeap) (query : RouteQuery) : ResolvedAgentRoute :=
  let q := query.input.question host
  let agents := heap.agents query.cfg.agents
  routeOver host agents (heap.session query.cfg.session) (buildAgentLookup host agents) q
    fun _ => plainBindings host (heap.bindings query.cfg.bindings) q.channel q.accountId

/-! ## Bindings of an account -/

section Account

variable (host : RouteHost) (bindings : List AgentBinding) (channel accountId : Str)

theorem pairwise_zipIdx {α : Type*} (xs : List α) (n : ℕ) :
    (xs.zipIdx n).Pairwise fun a b => a.2 < b.2 := by
  induction xs generalizing n with
  | nil => exact List.Pairwise.nil
  | cons x xs ih =>
    rw [zipIdx_cons, pairwise_cons]
    refine ⟨?_, ih (n + 1)⟩
    intro b hb
    have hle : n + 1 ≤ b.2 := (mem_zipIdx hb).1
    omega

theorem pairwise_evaluatedBindings :
    (evaluatedBindings host bindings).Pairwise fun a b => a.order < b.order := by
  unfold evaluatedBindings
  rw [pairwise_map]
  exact pairwise_zipIdx _ 0

theorem nodup_plainBindings : (plainBindings host bindings channel accountId).Nodup := by
  have hsorted := pairwise_evaluatedBindings host bindings
  apply List.Nodup.filter
  refine hsorted.imp ?_
  intro a b hlt heq
  rw [heq] at hlt
  exact Nat.lt_irrefl _ hlt

theorem mergeEvaluatedBindingsInSourceOrder_eq_merge (accountScoped anyAccount : List EvaluatedBinding) :
    mergeEvaluatedBindingsInSourceOrder accountScoped anyAccount =
      accountScoped.merge anyAccount fun a b => a.order ≤ b.order := by
  unfold mergeEvaluatedBindingsInSourceOrder
  split_ifs with hscoped hany
  · rw [hscoped, nil_merge]
  · rw [hany, merge_right]
  · rfl

/-- The merged buckets of an account are its bindings in order. -/
theorem mergeEvaluatedBindingsInSourceOrder_eq : mergeEvaluatedBindingsInSourceOrder
      ((buildEvaluatedBindingsByChannel host bindings).byAccount (channel, accountId))
      ((buildEvaluatedBindingsByChannel host bindings).byAnyAccount channel) =
        plainBindings host bindings channel accountId := by
  have haccount : (buildEvaluatedBindingsByChannel host bindings).byAccount (channel, accountId) =
      (evaluatedBindings host bindings).filter fun evaluated =>
        evaluated.normalized.accountPattern ≠ anyAccount && (evaluated.channel host = channel &&
          resolveAccountPatternKey host evaluated.normalized.accountPattern = accountId) := by
    show Buckets.collect _ _ _ = _
    rw [collect_apply (by intro a; split_ifs <;> simp)]
    apply filter_congr
    intro evaluated _
    by_cases hany : evaluated.normalized.accountPattern = anyAccount
    · simp [hany]
    · simp [hany, Prod.ext_iff, eq_comm]
  have hany : (buildEvaluatedBindingsByChannel host bindings).byAnyAccount channel =
      (evaluatedBindings host bindings).filter fun evaluated =>
        evaluated.normalized.accountPattern = anyAccount && evaluated.channel host = channel := by
    show Buckets.collect _ _ _ = _
    rw [collect_apply (by intro a; split_ifs <;> simp)]
    apply filter_congr
    intro evaluated _
    by_cases hany : evaluated.normalized.accountPattern = anyAccount
    · simp [hany, eq_comm]
    · simp [hany]
  have hsorted := pairwise_evaluatedBindings host bindings
  rw [haccount, hany, mergeEvaluatedBindingsInSourceOrder_eq_merge, merge_filter]
  · unfold plainBindings
    apply filter_congr
    intro evaluated _
    by_cases hany : evaluated.normalized.accountPattern = anyAccount
    · simp [hany]
    · simp [hany]
  · refine hsorted.imp ?_
    intro a b hlt
    exact ⟨decide_eq_true hlt.le, decide_eq_false (by omega)⟩
  · intro evaluated _ htaken
    simp only [Bool.and_eq_true, decide_eq_true_eq] at htaken
    simp [htaken.1]

end Account

/-! ## Buckets of the index -/

section Index

variable {bindings : List EvaluatedBinding}

variable (kind : ChatType) (id : Str)

theorem nodup_peerLookupKeys : (peerLookupKeys kind id).Nodup := by
  cases kind <;> simp [peerLookupKeys]

/-- The kinds of peer that a lookup tries. -/
def lookupKinds : ChatType → List ChatType
  | .group => [.group, .channel]
  | .channel => [.channel, .group]
  | .direct => [.direct]

theorem peerLookupKeys_eq :
    peerLookupKeys kind id = (lookupKinds kind).map fun kind => kind.text ++ ':' :: id := by
  cases kind <;> rfl

theorem mem_lookupKinds_iff (kind kind' : ChatType) :
    kind ∈ lookupKinds kind' ↔ peerKindMatches kind' kind = true := by
  cases kind <;> cases kind' <;> decide

/-- Two peers share a key if and only if their kinds match and their ids are the same. -/
theorem peerKey_mem_iff (kind kind' : ChatType) (id id' : Str) :
    kind.text ++ ':' :: id ∈ peerLookupKeys kind' id' ↔ peerKindMatches kind' kind ∧ id' = id := by
  rw [peerLookupKeys_eq, mem_map, ← mem_lookupKinds_iff]
  constructor
  · rintro ⟨tried, htried, heq⟩
    have hparts := (Segments.append_sep_eq_iff (colon_notMem_kind tried)
      (colon_notMem_kind kind)).mp heq
    rw [← kindText_injective hparts.1]
    exact ⟨htried, hparts.2⟩
  · rintro ⟨htried, rfl⟩
    exact ⟨kind, htried, rfl⟩

def atPeer (peer : RoutePeer) (evaluated : EvaluatedBinding) : Bool :=
  match evaluated.normalized.peer with
  | .valid kind id => peerKindMatches kind peer.kind && id = peer.id
  | _ => false

theorem peerKeys_bucket (evaluated : EvaluatedBinding) : evaluated.bucket.peerKeys =
    match evaluated.normalized.peer with
    | .valid kind id => peerLookupKeys kind id
    | _ => [] := by
  unfold EvaluatedBinding.bucket indexBucket
  cases evaluated.normalized.peer with
  | valid kind id => rfl
  | wildcardKind kind => rfl
  | none =>
    dsimp only
    split
    · rfl
    · rfl
    · rfl
    · split_ifs <;> rfl
  | invalid =>
    dsimp only
    split
    · rfl
    · rfl
    · rfl
    · split_ifs <;> rfl

theorem byPeer_apply : (buildEvaluatedBindingsIndex bindings).byPeer (kind.text ++ ':' :: id) =
      bindings.filter (atPeer ⟨kind, id⟩) := by
  show Buckets.collect _ _ _ = _
  rw [collect_apply]
  · apply filter_congr
    intro evaluated _
    unfold atPeer
    rw [peerKeys_bucket]
    cases evaluated.normalized.peer with
    | valid kind' id' => simp [peerKey_mem_iff]
    | _ => rfl
  · intro evaluated
    rw [peerKeys_bucket]
    cases evaluated.normalized.peer with
    | valid kind' id' => exact nodup_peerLookupKeys kind' id'
    | _ => exact nodup_nil

theorem atPeer_of_mem_lookupKinds {kind kind' : ChatType} (h : kind' ∈ lookupKinds kind) (id : Str) :
    atPeer ⟨kind', id⟩ = atPeer ⟨kind, id⟩ := by
  have hkinds : ∀ bindingKind,
      peerKindMatches bindingKind kind' = peerKindMatches bindingKind kind := by
    intro bindingKind
    cases kind <;> cases kind' <;> first
      | exact absurd h (by decide)
      | (cases bindingKind <;> rfl)
  funext evaluated
  unfold atPeer
  cases evaluated.normalized.peer with
  | valid bindingKind _ => simp [hkinds]
  | _ => rfl

/-- A group and a channel of one id are looked up under both names, and found once. -/
theorem collectPeerIndexedBindings_eq (hnodup : bindings.Nodup) (peer : RoutePeer) :
    collectPeerIndexedBindings (buildEvaluatedBindingsIndex bindings) (some peer) =
      bindings.filter (atPeer peer) := by
  have hfilter : (bindings.filter (atPeer peer)).Nodup := hnodup.filter _
  have hlookups : (peerLookupKeys peer.kind peer.id).flatMap
      (buildEvaluatedBindingsIndex bindings).byPeer =
        (lookupKinds peer.kind).flatMap fun _ => bindings.filter (atPeer peer) := by
    rw [peerLookupKeys_eq, flatMap_map]
    apply flatMap_congr
    intro kind hkind
    rw [byPeer_apply, atPeer_of_mem_lookupKinds hkind]
  unfold collectPeerIndexedBindings
  dsimp only
  rw [hlookups]
  generalize bindings.filter (atPeer peer) = found at hfilter
  cases peer.kind with
  | direct =>
    show Buckets.takeNew (found ++ []) = found
    rw [append_nil, takeNew_of_nodup hfilter]
  | group =>
    show Buckets.takeNew (found ++ (found ++ [])) = found
    rw [append_nil, takeNew_append_self hfilter]
  | channel =>
    show Buckets.takeNew (found ++ (found ++ [])) = found
    rw [append_nil, takeNew_append_self hfilter]

end Index

/-! ## The first tier that takes a binding -/

/-- Two searches agree if, at each place, they agree when the second found nothing before. -/
theorem findSome?_congr_ranked {ι β : Type*} {rank : ι → ℕ} {f g : ι → Option β} {xs : List ι}
    (hsorted : xs.Pairwise fun a b => rank a < rank b)
    (h : ∀ i ∈ xs, (∀ j ∈ xs, rank j < rank i → g j = none) → f i = g i) :
    xs.findSome? f = xs.findSome? g := by
  induction xs with
  | nil => rfl
  | cons x xs ih =>
    obtain ⟨hx, hxs⟩ := pairwise_cons.mp hsorted
    have hhead : f x = g x := by
      apply h x mem_cons_self
      intro j hj hlt
      rcases mem_cons.mp hj with rfl | hj
      · exact absurd hlt (Nat.lt_irrefl _)
      · exact absurd (hx j hj) (Nat.lt_asymm hlt)
    rw [findSome?_cons, findSome?_cons, hhead]
    cases hg : g x with
    | some b => rfl
    | none =>
      apply ih hxs
      intro i hi hnone
      apply h i (mem_cons_of_mem _ hi)
      intro j hj hlt
      rcases mem_cons.mp hj with rfl | hj
      · exact hg
      · exact hnone j hj hlt

theorem find?_filter_of_imp {α : Type*} {p r : α → Bool} {xs : List α}
    (h : ∀ a ∈ xs, r a = true → p a = true) : (xs.filter p).find? r = xs.find? r := by
  rw [find?_filter]
  apply find?_congr
  intro a ha
  cases hr : r a with
  | false => simp
  | true => simp [h a ha hr]

def RouteTier.rank : RouteTier → ℕ
  | peer => 0
  | peerParent => 1
  | peerWildcard => 2
  | guildRoles => 3
  | guild => 4
  | team => 5
  | account => 6
  | channel => 7

/-- Ids and role lists that count are not empty. -/
structure NormalizedBindingMatch.Proper (normalized : NormalizedBindingMatch) : Prop where
  guildId : normalized.guildId ≠ some []
  teamId : normalized.teamId ≠ some []
  roles : normalized.roles ≠ some []

theorem proper_normalizeBindingMatch (host : RouteHost) (bindingMatch : BindingMatch) :
    (normalizeBindingMatch host bindingMatch).Proper := by
  have htext : ∀ value : Str, nonEmptyText? value ≠ some [] := by
    intro value
    unfold nonEmptyText?
    split_ifs with hvalue
    · exact nofun
    · exact fun heq => hvalue (Option.some.inj heq)
  refine ⟨htext _, htext _, ?_⟩
  intro hroles
  have hparts := Option.filter_eq_some_iff.mp hroles
  simp at hparts

/-- The ids of a question are trimmed. -/
structure RouteQuestion.Trimmed (q : RouteQuestion) : Prop where
  guildId : trim q.guildId = q.guildId
  teamId : trim q.teamId = q.teamId

theorem trimmed_question (host : RouteHost) (input : ResolveAgentRouteInput) :
    (input.question host).Trimmed := ⟨trim_trim _, trim_trim _⟩

section Tiers

variable {q : RouteQuestion} {bindings : List EvaluatedBinding} {b : EvaluatedBinding}

def RouteQuestion.scope (q : RouteQuestion) (peer : Option RoutePeer) : BindingScope where
  peer := peer
  guildId := q.guildId
  teamId := q.teamId
  memberRoleIds := q.memberRoleIds

/-- What a matching binding asks of the guild, the team and the roles. -/
theorem scopeMatches_parts (hq : q.Trimmed) (hproper : b.normalized.Proper) {peer : Option RoutePeer}
    (h : routeBindingScopeMatches b.normalized (q.scope peer) = true) :
    (∀ guildId ∈ b.normalized.guildId, guildId = q.guildId ∧ q.guildId ≠ []) ∧
      (∀ teamId ∈ b.normalized.teamId, teamId = q.teamId ∧ q.teamId ≠ []) ∧
      (b.normalized.roles.isSome → q.memberRoleIds ≠ []) := by
  have hid : ∀ (constraint : Option Str) (exact : Str), constraint ≠ some [] →
      scopeIdMatches constraint exact [] = true →
      ∀ id ∈ constraint, id = exact ∧ exact ≠ [] := by
    rintro constraint exact hne hmatch id rfl
    have hid : id ≠ [] := fun heq => hne (by rw [heq])
    unfold scopeIdMatches at hmatch
    simp [hid] at hmatch
    exact ⟨hmatch, hmatch ▸ hid⟩
  unfold routeBindingScopeMatches at h
  have hguild : normalizeRouteBindingId (some q.guildId) = q.guildId := hq.guildId
  have hteam : normalizeRouteBindingId (some q.teamId) = q.teamId := hq.teamId
  have hgroup : normalizeRouteBindingId none = [] := rfl
  simp only [RouteQuestion.scope, hguild, hteam, hgroup, Bool.and_eq_true] at h
  refine ⟨hid _ _ hproper.guildId h.1.1, hid _ _ hproper.teamId h.1.2, ?_⟩
  intro hroles hnone
  obtain ⟨roles, hsome⟩ := Option.isSome_iff_exists.mp hroles
  have hfilter : normalizeRouteBindingRoles (some roles) = some roles := by
    have hne : roles ≠ [] := fun heq => hproper.roles (heq ▸ hsome)
    exact Option.filter_eq_some_iff.mpr ⟨rfl, decide_eq_true hne⟩
  rw [hsome, hfilter, hnone] at h
  simp at h

theorem takes_eq (tier : RouteTier) : tier.takes q b =
    (tier.predicate b.normalized && matchesBindingScope b.normalized (q.scope (tier.scopePeer q))) :=
  rfl

variable (q bindings)

/-- Whether the bindings hold nothing that an enabled tier takes. -/
def TakesNone (tier : RouteTier) : Prop :=
  tier.enabled q = true → ∀ b ∈ bindings, tier.takes q b = false

variable {q bindings}

/-- A binding that is left after the peer tiers has no peer. -/
theorem peer_eq_none (hb : b ∈ bindings) (hpeer : TakesNone q bindings .peer)
    (hwildcard : TakesNone q bindings .peerWildcard)
    (hmatch : matchesBindingScope b.normalized (q.scope q.peer) = true) :
    b.normalized.peer = .none := by
  have hscope : (RouteTier.peer.scopePeer q) = q.peer ∧ (RouteTier.peerWildcard.scopePeer q) = q.peer :=
    ⟨rfl, rfl⟩
  cases hkind : b.normalized.peer with
  | none => rfl
  | invalid =>
    unfold matchesBindingScope at hmatch
    rw [hkind] at hmatch
    exact nomatch hmatch
  | valid kind id =>
    have henabled : q.peer.isSome = true := by
      unfold matchesBindingScope at hmatch
      rw [hkind] at hmatch
      cases hq : q.peer with
      | none =>
        rw [hq] at hmatch
        exact nomatch hmatch
      | some peer => rfl
    have hnot := hpeer henabled b hb
    rw [takes_eq, hscope.1, hmatch] at hnot
    simp [RouteTier.predicate, hkind] at hnot
  | wildcardKind kind =>
    have henabled : q.peer.isSome = true := by
      unfold matchesBindingScope at hmatch
      rw [hkind] at hmatch
      cases hq : q.peer with
      | none =>
        rw [hq] at hmatch
        exact nomatch hmatch
      | some peer => rfl
    have hnot := hwildcard henabled b hb
    rw [takes_eq, hscope.2, hmatch] at hnot
    simp [RouteTier.predicate, hkind] at hnot

theorem scopeMatches_of_matches {peer : Option RoutePeer}
    (h : matchesBindingScope b.normalized (q.scope peer) = true) :
    routeBindingScopeMatches b.normalized (q.scope peer) = true := by
  unfold matchesBindingScope at h
  exact ((Bool.and_eq_true _ _).mp h).2

/-- A binding that is left after the guild tiers has no guild. -/
theorem guildId_eq_none (hq : q.Trimmed) (hproper : b.normalized.Proper) (hb : b ∈ bindings)
    (hroles : TakesNone q bindings .guildRoles) (hguild : TakesNone q bindings .guild)
    (hmatch : matchesBindingScope b.normalized (q.scope q.peer) = true) :
    b.normalized.guildId = none := by
  have hparts := scopeMatches_parts hq hproper (scopeMatches_of_matches hmatch)
  have hscope : RouteTier.guildRoles.scopePeer q = q.peer ∧ RouteTier.guild.scopePeer q = q.peer :=
    ⟨rfl, rfl⟩
  cases hid : b.normalized.guildId with
  | none => rfl
  | some guildId =>
    have hne := (hparts.1 guildId hid).2
    cases hlist : b.normalized.roles with
    | none =>
      have henabled : RouteTier.guild.enabled q = true := decide_eq_true hne
      have hnot := hguild henabled b hb
      rw [takes_eq, hscope.2, hmatch] at hnot
      simp [RouteTier.predicate, hid, hlist] at hnot
    | some roles =>
      have hmembers := hparts.2.2 (by rw [hlist]; rfl)
      have henabled : RouteTier.guildRoles.enabled q = true := by
        simp [RouteTier.enabled, hne, hmembers]
      have hnot := hroles henabled b hb
      rw [takes_eq, hscope.1, hmatch] at hnot
      simp [RouteTier.predicate, hid, hlist] at hnot

theorem teamId_eq_none (hq : q.Trimmed) (hproper : b.normalized.Proper) (hb : b ∈ bindings)
    (hteam : TakesNone q bindings .team)
    (hmatch : matchesBindingScope b.normalized (q.scope q.peer) = true) :
    b.normalized.teamId = none := by
  have hparts := scopeMatches_parts hq hproper (scopeMatches_of_matches hmatch)
  have hscope : RouteTier.team.scopePeer q = q.peer := rfl
  cases hid : b.normalized.teamId with
  | none => rfl
  | some teamId =>
    have henabled : RouteTier.team.enabled q = true := decide_eq_true (hparts.2.1 teamId hid).2
    have hnot := hteam henabled b hb
    rw [takes_eq, hscope, hmatch] at hnot
    simp [RouteTier.predicate, hid] at hnot

/-- A binding of a peer tier is at the peer that the tier asks for. -/
theorem atPeer_of_takes {peer : RoutePeer} (hpredicate : RouteTier.peer.predicate b.normalized = true)
    (hmatch : matchesBindingScope b.normalized (q.scope (some peer)) = true) :
    atPeer peer b = true := by
  unfold RouteTier.predicate at hpredicate
  unfold matchesBindingScope at hmatch
  unfold atPeer
  cases hkind : b.normalized.peer with
  | valid kind id =>
    rw [hkind] at hmatch
    simp only [RouteQuestion.scope, Option.any_some, Bool.and_eq_true, decide_eq_true_eq] at hmatch
    simp [hmatch.1.1, hmatch.1.2]
  | none => simp [hkind] at hpredicate
  | invalid => simp [hkind] at hpredicate
  | wildcardKind kind => simp [hkind] at hpredicate

/-- Keys other than those of peers come one at a time. -/
theorem nodup_bucketKeys (bucket : IndexBucket) :
    bucket.guildWithRolesKeys.Nodup ∧ bucket.guildKeys.Nodup ∧ bucket.teamKeys.Nodup := by
  cases bucket <;> simp [IndexBucket.guildWithRolesKeys, IndexBucket.guildKeys, IndexBucket.teamKeys]

section

variable (hq : q.Trimmed) (hnodup : bindings.Nodup) (hproper : ∀ b ∈ bindings, b.normalized.Proper)
include hq hnodup hproper

/-- Where the tiers before it take nothing, a tier takes nothing that is not in its bucket. -/
theorem candidates_find {tier : RouteTier} (henabled : tier.enabled q = true)
    (hearlier : ∀ earlier : RouteTier, earlier.rank < tier.rank → TakesNone q bindings earlier) :
    (tier.candidates q (buildEvaluatedBindingsIndex bindings)).find? (tier.takes q) =
      bindings.find? (tier.takes q) := by
  have hpeer : 2 < tier.rank → ∀ b ∈ bindings,
      matchesBindingScope b.normalized (q.scope q.peer) = true → b.normalized.peer = .none := by
    intro hrank b hb
    have hfirst : RouteTier.peer.rank < tier.rank := by
      show 0 < tier.rank
      omega
    exact peer_eq_none hb (hearlier .peer hfirst) (hearlier .peerWildcard hrank)
  have hguild : 4 < tier.rank → ∀ b ∈ bindings,
      matchesBindingScope b.normalized (q.scope q.peer) = true → b.normalized.guildId = none := by
    intro hrank b hb
    have hroles : RouteTier.guildRoles.rank < tier.rank := by
      show 3 < tier.rank
      omega
    exact guildId_eq_none hq (hproper b hb) hb (hearlier .guildRoles hroles) (hearlier .guild hrank)
  have hteam : 5 < tier.rank → ∀ b ∈ bindings,
      matchesBindingScope b.normalized (q.scope q.peer) = true → b.normalized.teamId = none :=
    fun hrank b hb => teamId_eq_none hq (hproper b hb) hb (hearlier .team hrank)
  have htakes : ∀ b, tier.takes q b = true → tier.predicate b.normalized = true ∧
      matchesBindingScope b.normalized (q.scope (tier.scopePeer q)) = true :=
    fun b htaken => (Bool.and_eq_true _ _).mp htaken
  cases tier with
  | peer =>
    obtain ⟨peer, hsome⟩ := Option.isSome_iff_exists.mp henabled
    show (collectPeerIndexedBindings _ q.peer).find? _ = _
    rw [hsome, collectPeerIndexedBindings_eq hnodup]
    apply find?_filter_of_imp
    intro b _ htaken
    have hparts := htakes b htaken
    have hscope : RouteTier.peer.scopePeer q = some peer := hsome
    rw [hscope] at hparts
    exact atPeer_of_takes hparts.1 hparts.2
  | peerParent =>
    obtain ⟨peer, hsome⟩ := Option.isSome_iff_exists.mp henabled
    have hparent : q.parentPeer = some peer := (Option.filter_eq_some_iff.mp hsome).1
    show (collectPeerIndexedBindings _ q.parentPeer).find? _ = _
    rw [hparent, collectPeerIndexedBindings_eq hnodup]
    apply find?_filter_of_imp
    intro b _ htaken
    have hparts := htakes b htaken
    have hscope : RouteTier.peerParent.scopePeer q = some peer := hsome
    rw [hscope] at hparts
    exact atPeer_of_takes hparts.1 hparts.2
  | peerWildcard =>
    apply find?_filter_of_imp
    intro b _ htaken
    have hpredicate := (htakes b htaken).1
    apply decide_eq_true
    unfold EvaluatedBinding.bucket indexBucket
    cases hkind : b.normalized.peer with
    | wildcardKind kind => rfl
    | none => simp [RouteTier.predicate, hkind] at hpredicate
    | invalid => simp [RouteTier.predicate, hkind] at hpredicate
    | valid kind id => simp [RouteTier.predicate, hkind] at hpredicate
  | guildRoles =>
    have hne : q.guildId ≠ [] := of_decide_eq_true ((Bool.and_eq_true _ _).mp henabled).1
    show (if q.guildId = [] then [] else Buckets.collect _ bindings q.guildId).find? _ = _
    rw [if_neg hne, collect_apply fun b : EvaluatedBinding => (nodup_bucketKeys b.bucket).1]
    apply find?_filter_of_imp
    intro b hb htaken
    obtain ⟨hpredicate, hmatch⟩ := htakes b htaken
    have hnone := hpeer (by decide) b hb hmatch
    have hids := (scopeMatches_parts hq (hproper b hb) (scopeMatches_of_matches hmatch)).1
    simp only [RouteTier.predicate, Bool.and_eq_true] at hpredicate
    obtain ⟨guildId, hguildId⟩ := Option.isSome_iff_exists.mp hpredicate.1
    obtain ⟨roles, hroles⟩ := Option.isSome_iff_exists.mp hpredicate.2
    have hmem : q.guildId ∈ b.bucket.guildWithRolesKeys := by
      unfold EvaluatedBinding.bucket indexBucket
      rw [hnone, hguildId, hroles, (hids guildId hguildId).1]
      exact mem_cons_self
    simpa using hmem
  | guild =>
    have hne : q.guildId ≠ [] := of_decide_eq_true henabled
    show (if q.guildId = [] then [] else Buckets.collect _ bindings q.guildId).find? _ = _
    rw [if_neg hne, collect_apply fun b : EvaluatedBinding => (nodup_bucketKeys b.bucket).2.1]
    apply find?_filter_of_imp
    intro b hb htaken
    obtain ⟨hpredicate, hmatch⟩ := htakes b htaken
    have hnone := hpeer (by decide) b hb hmatch
    have hids := (scopeMatches_parts hq (hproper b hb) (scopeMatches_of_matches hmatch)).1
    simp only [RouteTier.predicate, Bool.and_eq_true] at hpredicate
    obtain ⟨guildId, hguildId⟩ := Option.isSome_iff_exists.mp hpredicate.1
    have hroles : b.normalized.roles = none := by simpa using hpredicate.2
    have hmem : q.guildId ∈ b.bucket.guildKeys := by
      unfold EvaluatedBinding.bucket indexBucket
      rw [hnone, hguildId, hroles, (hids guildId hguildId).1]
      exact mem_cons_self
    simpa using hmem
  | team =>
    have hne : q.teamId ≠ [] := of_decide_eq_true henabled
    show (if q.teamId = [] then [] else Buckets.collect _ bindings q.teamId).find? _ = _
    rw [if_neg hne, collect_apply fun b : EvaluatedBinding => (nodup_bucketKeys b.bucket).2.2]
    apply find?_filter_of_imp
    intro b hb htaken
    obtain ⟨hpredicate, hmatch⟩ := htakes b htaken
    have hnone := hpeer (by decide) b hb hmatch
    have hnoGuild := hguild (by decide) b hb hmatch
    have hids := (scopeMatches_parts hq (hproper b hb) (scopeMatches_of_matches hmatch)).2.1
    obtain ⟨teamId, hteamId⟩ := Option.isSome_iff_exists.mp hpredicate
    have hmem : q.teamId ∈ b.bucket.teamKeys := by
      unfold EvaluatedBinding.bucket indexBucket
      rw [hnone, hnoGuild, hteamId, (hids teamId hteamId).1]
      exact mem_cons_self
    simpa using hmem
  | account =>
    apply find?_filter_of_imp
    intro b hb htaken
    obtain ⟨hpredicate, hmatch⟩ := htakes b htaken
    have hany : b.normalized.accountPattern ≠ anyAccount := of_decide_eq_true hpredicate
    apply decide_eq_true
    unfold EvaluatedBinding.bucket indexBucket
    rw [hpeer (by decide) b hb hmatch, hguild (by decide) b hb hmatch,
      hteam (by decide) b hb hmatch]
    exact if_pos hany
  | channel =>
    apply find?_filter_of_imp
    intro b hb htaken
    obtain ⟨hpredicate, hmatch⟩ := htakes b htaken
    have hany : b.normalized.accountPattern = anyAccount := of_decide_eq_true hpredicate
    apply decide_eq_true
    unfold EvaluatedBinding.bucket indexBucket
    rw [hpeer (by decide) b hb hmatch, hguild (by decide) b hb hmatch,
      hteam (by decide) b hb hmatch]
    exact if_neg fun hne => hne hany

/-- The index routes as the plain rule does. -/
theorem matchBinding_index :
    (matchBinding q fun tier => tier.candidates q (buildEvaluatedBindingsIndex bindings)) =
      matchBinding q fun _ => bindings := by
  unfold matchBinding
  apply findSome?_congr_ranked (show routeTiers.Pairwise fun a b => a.rank < b.rank by decide)
  intro tier _ hnone
  dsimp only
  split_ifs with henabled
  · rw [candidates_find hq hnodup hproper henabled]
    intro earlier hrank hon b hb
    have hmem : earlier ∈ routeTiers := by cases earlier <;> decide
    have hfound := hnone earlier hmem hrank
    rw [if_pos hon, Option.map_eq_none_iff, find?_eq_none] at hfound
    exact Bool.eq_false_iff.mpr (hfound b hb)
  · rfl

end

end Tiers

end OpenClaw
