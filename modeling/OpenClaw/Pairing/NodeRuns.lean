import OpenClaw.Lib.Run
import OpenClaw.Pairing.NodeSurfaces

/-!
# Runs of node pairing

Any sequence of connects, requests, approvals and changes. Request ids come from the random source
once. What the events say of a node is compared with what is stored for it.
-/

namespace OpenClaw

open List Option Keyed

/-! ## Steps -/

inductive NodeEvent where
  | connected (nowMs : ℤ) (d : NodeDeclaration) (result : NodeConnectResult)
  | requested (input : NodePairingRequestInput) (result : RequestNodePairingResult)
  | approved (requestId : Str) (callerScopes : Option (List Str)) (node : NodePairingPairedNode)
  | notApproved (requestId : Str)
  | rejected (requestId : Str)
  | removed (nodeId : Str)
  | renamed (nodeId displayName : Str)
  | updated (nodeId : Str) (patch : NodeMetadata)
  /-- A connect or request without a node id. -/
  | failed

structure NodeSystem where
  file : NodePairingState
  /-- The request ids that were generated. -/
  usedIds : List Str

def NodeSystem.fresh : NodeSystem := ⟨⟨.empty, .empty⟩, []⟩

inductive NodeStep (locale : Locale) : NodeSystem → NodeEvent → NodeSystem → Prop
  | connect {s : NodeSystem} {nowMs : ℤ} {newId : Str} {d : NodeDeclaration}
      {result : NodeConnectResult} {file : NodePairingState} : newId ∉ s.usedIds →
      reconcileNodePairingOnConnect locale s.file nowMs newId d = .ok (result, file) →
      NodeStep locale s (.connected nowMs d result) ⟨file, newId :: s.usedIds⟩
  | request {s : NodeSystem} {nowMs : ℤ} {newId : Str} {input : NodePairingRequestInput}
      {result : RequestNodePairingResult} {file : NodePairingState} : newId ∉ s.usedIds →
      requestNodePairing locale s.file nowMs newId input = .ok (result, file) →
      NodeStep locale s (.requested input result) ⟨file, newId :: s.usedIds⟩
  | approve {s : NodeSystem} {nowMs : ℤ} {newToken requestId requestId' : Str}
      {callerScopes : Option (List Str)} {node : NodePairingPairedNode} {file : NodePairingState} :
      approveNodePairing s.file nowMs newToken requestId callerScopes =
        (.approved requestId' node, file) →
      NodeStep locale s (.approved requestId callerScopes node) ⟨file, s.usedIds⟩
  | notApprove {s : NodeSystem} {requestId : Str} : NodeStep locale s (.notApproved requestId) s
  | reject {s : NodeSystem} {nowMs : ℤ} {requestId : Str} :
      NodeStep locale s (.rejected requestId) ⟨rejectNodePairing s.file nowMs requestId, s.usedIds⟩
  | remove {s : NodeSystem} {nowMs : ℤ} {nodeId : Str} :
      NodeStep locale s (.removed nodeId) ⟨removePairedNode s.file nowMs nodeId, s.usedIds⟩
  | rename {s : NodeSystem} {nowMs : ℤ} {nodeId displayName : Str} :
      NodeStep locale s (.renamed nodeId displayName)
        ⟨renamePairedNode s.file nowMs nodeId displayName, s.usedIds⟩
  | update {s : NodeSystem} {nowMs : ℤ} {nodeId : Str} {patch : NodeMetadata} :
      NodeStep locale s (.updated nodeId patch)
        ⟨updatePairedNodeMetadata s.file nowMs nodeId patch, s.usedIds⟩
  | fail {s : NodeSystem} : NodeStep locale s .failed s

/-! ## What the events say of a node -/

/-- The request that an event returned. -/
def NodeEvent.asks : NodeEvent → Option NodePairingPendingRequest
  | .connected _ _ result => result.pendingPairing.map (·.request)
  | .requested _ result => some result.request
  | _ => none

/-- The events that decide what is approved for a node. -/
def NodeEvent.decides (event : NodeEvent) (nodeId : Str) : Prop :=
  match event with
  | .approved _ _ node => node.nodeId = nodeId
  | .removed id => trim id = nodeId ∧ nodeId ≠ []
  | _ => False

/-- The last decision about a node is this approval. -/
def LastApproval (events : List NodeEvent) (requestId : Str) (callerScopes : Option (List Str))
    (node : NodePairingPairedNode) : Prop :=
  ∃ before after, events = before ++ .approved requestId callerScopes node :: after ∧
    ∀ event ∈ after, ¬event.decides node.nodeId

/-- A system-run command is approved with the admin scope only. -/
def Entitled (callerScopes : Option (List Str)) (node : NodePairingPairedNode) : Prop :=
  ∀ command ∈ node.surface.commands.getD [], command ∈ nodeSystemRunCommands →
    operatorAdminScope ∈ normalizeScopeList (callerScopes.getD [])

variable {file : NodePairingState} {nowMs : ℤ}

section

variable {locale : Locale} {events : List NodeEvent} {event : NodeEvent} {requestId : Str}
  {callerScopes : Option (List Str)} {node : NodePairingPairedNode}

theorem LastApproval.snoc (h : LastApproval events requestId callerScopes node)
    (hnot : ¬event.decides node.nodeId) :
    LastApproval (events ++ [event]) requestId callerScopes node := by
  obtain ⟨before, after, rfl, hafter⟩ := h
  refine ⟨before, after ++ [event], by rw [append_assoc, cons_append], ?_⟩
  intro event' hmem
  rcases mem_append.mp hmem with hmem | hmem
  · exact hafter event' hmem
  · rw [mem_singleton.mp hmem]
    exact hnot

theorem lastApproval_self : LastApproval (events ++ [.approved requestId callerScopes node])
    requestId callerScopes node :=
  ⟨events, [], rfl, fun _ h => nomatch h⟩

/-- An approval that is last after another event was last before it, or is that event. -/
theorem LastApproval.of_snoc (h : LastApproval (events ++ [event]) requestId callerScopes node) :
    event = .approved requestId callerScopes node ∨
      LastApproval events requestId callerScopes node ∧ ¬event.decides node.nodeId := by
  obtain ⟨before, after, hsplit, hafter⟩ := h
  rcases eq_nil_or_concat after with rfl | ⟨after', last, rfl⟩
  · exact Or.inl (singleton_inj.mp (append_inj' hsplit rfl).2)
  · right
    rw [concat_eq_append, ← cons_append, ← append_assoc] at hsplit
    obtain ⟨hevents, hlast⟩ := append_inj' hsplit rfl
    rw [concat_eq_append] at hafter
    rw [singleton_inj.mp hlast]
    exact ⟨⟨before, after', hevents, fun e he => hafter e (mem_append_left _ he)⟩,
      hafter last (mem_append_right _ (mem_singleton_self _))⟩

/-! ## The invariant -/

/-- What is stored is what the events say. -/
structure NodeInv (locale : Locale) (s : NodeSystem) (events : List NodeEvent) : Prop where
  trimmed : ∀ pending ∈ s.file.pendingById.entries, pending.surface.Trimmed
  pending : ∀ pending ∈ s.file.pendingById.entries, ∃ event ∈ events, event.asks = some pending
  used : ∀ event ∈ events, ∀ request, event.asks = some request → request.requestId ∈ s.usedIds
  same : ∀ event ∈ events, ∀ event' ∈ events, ∀ request request', event.asks = some request →
    event'.asks = some request' → request.requestId = request'.requestId →
      request.nodeId = request'.nodeId ∧ request.surface.Same locale request'.surface
  approved : ∀ requestId callerScopes node, .approved requestId callerScopes node ∈ events →
    Entitled callerScopes node ∧ node.surface.Trimmed ∧
      ∃ event ∈ events, ∃ request, event.asks = some request ∧ request.requestId = requestId ∧
        request.nodeId = node.nodeId ∧ request.surface = node.surface
  paired : ∀ nodeId surface, (s.file.pairedByNodeId.find nodeId).map (·.surface) = some surface ↔
    ∃ requestId callerScopes node, LastApproval events requestId callerScopes node ∧
      node.nodeId = nodeId ∧ node.surface = surface

theorem NodeInv.fresh : NodeInv locale .fresh [] where
  trimmed := fun _ h => (nomatch h)
  pending := fun _ h => (nomatch h)
  used := fun _ h => (nomatch h)
  same := fun _ h => (nomatch h)
  approved := fun _ _ _ h => (nomatch h)
  paired := by
    intro nodeId surface
    constructor
    · intro h
      cases h
    · rintro ⟨requestId, callerScopes, node, ⟨before, after, hsplit, _⟩, _⟩
      exact absurd hsplit.symm (append_ne_nil_of_right_ne_nil _ (cons_ne_nil _ _))

variable {s : NodeSystem}

/-- Events that ask for nothing and decide nothing, with changes that keep every surface. -/
theorem NodeInv.quiet (h : NodeInv locale s events)
    (hasks : event.asks = none) (hdecides : ∀ nodeId, ¬event.decides nodeId)
    (hpending : ∀ pending ∈ file.pendingById.entries, pending ∈ s.file.pendingById.entries)
    (hpaired : ∀ nodeId, (file.pairedByNodeId.find nodeId).map (·.surface) =
      (s.file.pairedByNodeId.find nodeId).map (·.surface)) :
    NodeInv locale ⟨file, s.usedIds⟩ (events ++ [event]) where
  trimmed := fun pending hmem => h.trimmed pending (hpending pending hmem)
  pending := by
    intro pending hmem
    obtain ⟨event', hevent', hasks'⟩ := h.pending pending (hpending pending hmem)
    exact ⟨event', mem_append_left _ hevent', hasks'⟩
  used := by
    intro event' hmem request hasks'
    rcases mem_append.mp hmem with hmem | hmem
    · exact h.used event' hmem request hasks'
    · rw [mem_singleton.mp hmem, hasks] at hasks'
      cases hasks'
  same := by
    intro event' hmem' event'' hmem'' request request' hasks' hasks''
    rcases mem_append.mp hmem' with hmem' | hmem'
    · rcases mem_append.mp hmem'' with hmem'' | hmem''
      · exact h.same event' hmem' event'' hmem'' request request' hasks' hasks''
      · rw [mem_singleton.mp hmem'', hasks] at hasks''
        cases hasks''
    · rw [mem_singleton.mp hmem', hasks] at hasks'
      cases hasks'
  approved := by
    intro requestId callerScopes node hmem
    rcases mem_append.mp hmem with hmem | hmem
    · obtain ⟨hentitled, htrimmed, event', hevent', hrequest⟩ :=
        h.approved requestId callerScopes node hmem
      exact ⟨hentitled, htrimmed, event', mem_append_left _ hevent', hrequest⟩
    · rw [← mem_singleton.mp hmem] at hdecides
      exact (hdecides node.nodeId rfl).elim
  paired := by
    intro nodeId surface
    dsimp only
    rw [hpaired, h.paired]
    refine exists_congr fun requestId => exists_congr fun callerScopes => exists_congr fun node => ?_
    refine and_congr_left fun _ => ⟨fun hlast => hlast.snoc (hdecides _), fun hlast => ?_⟩
    rcases hlast.of_snoc with rfl | ⟨hlast, _⟩
    · exact (hdecides node.nodeId rfl).elim
    · exact hlast

/-- An event that asks for a request, which is pending then. -/
theorem NodeInv.asked (h : NodeInv locale s events)
    {newId : Str} {req : NodePairingRequestInput} {request : NodePairingPendingRequest}
    (hfresh : newId ∉ s.usedIds) (hspec : RequestSpec locale s.file nowMs newId req request file)
    (hasks : event.asks = some request) (hdecides : ∀ nodeId, ¬event.decides nodeId) :
    NodeInv locale ⟨file, newId :: s.usedIds⟩ (events ++ [event]) := by
  have hlast : event ∈ events ++ [event] := mem_append_right _ (mem_singleton_self event)
  -- an earlier request with the id is the one that this one joined
  have hearlier : ∀ event' ∈ events, ∀ request', event'.asks = some request' →
      request'.requestId = request.requestId →
        request'.nodeId = request.nodeId ∧ request'.surface.Same locale request.surface := by
    intro event' hmem request' hasks' hid
    rcases hspec.asked with hnew | ⟨pending, hpending, hid', hnode, hsame⟩
    · have hused := h.used event' hmem request' hasks'
      rw [hid, hnew] at hused
      exact absurd hused hfresh
    · obtain ⟨event'', hmem'', hasks''⟩ := h.pending pending hpending
      obtain ⟨hnode', hsame'⟩ := h.same event' hmem event'' hmem'' request' pending hasks' hasks''
        (hid.trans hid'.symm)
      exact ⟨hnode'.trans hnode, hsame'.trans hsame⟩
  have hid : request.requestId ∈ newId :: s.usedIds := by
    rcases hspec.asked with hnew | ⟨pending, hpending, hid, _⟩
    · rw [hnew]
      exact mem_cons_self
    · obtain ⟨event', hmem, hasks'⟩ := h.pending pending hpending
      rw [← hid]
      exact mem_cons_of_mem _ (h.used event' hmem pending hasks')
  refine ⟨?_, ?_, ?_, ?_, ?_, ?_⟩
  · intro pending hmem
    rcases hspec.pending pending hmem with rfl | ⟨hmem, _⟩
    · exact hspec.trimmed h.trimmed
    · exact h.trimmed pending hmem
  · intro pending hmem
    rcases hspec.pending pending hmem with rfl | ⟨hmem, _⟩
    · exact ⟨event, hlast, hasks⟩
    · obtain ⟨event', hmem', hasks'⟩ := h.pending pending hmem
      exact ⟨event', mem_append_left _ hmem', hasks'⟩
  · intro event' hmem request' hasks'
    rcases mem_append.mp hmem with hmem | hmem
    · exact mem_cons_of_mem _ (h.used event' hmem request' hasks')
    · rw [mem_singleton.mp hmem, hasks] at hasks'
      rw [← some.inj hasks']
      exact hid
  · intro event' hmem' event'' hmem'' request' request'' hasks' hasks'' hsame
    rcases mem_append.mp hmem' with hmem' | hmem'
    · rcases mem_append.mp hmem'' with hmem'' | hmem''
      · exact h.same event' hmem' event'' hmem'' request' request'' hasks' hasks'' hsame
      · rw [mem_singleton.mp hmem'', hasks] at hasks''
        cases hasks''
        exact hearlier event' hmem' request' hasks' hsame
    · rw [mem_singleton.mp hmem', hasks] at hasks'
      cases hasks'
      rcases mem_append.mp hmem'' with hmem'' | hmem''
      · obtain ⟨hnode, hsame'⟩ := hearlier event'' hmem'' request'' hasks'' hsame.symm
        exact ⟨hnode.symm, hsame'.symm⟩
      · rw [mem_singleton.mp hmem'', hasks] at hasks''
        cases hasks''
        exact ⟨rfl, .refl _⟩
  · intro requestId callerScopes node hmem
    rcases mem_append.mp hmem with hmem | hmem
    · obtain ⟨hentitled, htrimmed, event', hevent', hrequest⟩ :=
        h.approved requestId callerScopes node hmem
      exact ⟨hentitled, htrimmed, event', mem_append_left _ hevent', hrequest⟩
    · rw [← mem_singleton.mp hmem] at hdecides
      exact (hdecides node.nodeId rfl).elim
  · intro nodeId surface
    dsimp only
    rw [hspec.paired, h.paired]
    refine exists_congr fun requestId => exists_congr fun callerScopes => exists_congr fun node => ?_
    refine and_congr_left fun _ => ⟨fun hlast => hlast.snoc (hdecides _), fun hlast => ?_⟩
    rcases hlast.of_snoc with rfl | ⟨hlast, _⟩
    · exact (hdecides node.nodeId rfl).elim
    · exact hlast

/-! ## Approving -/

theorem normalizeScopeList_singleton {scope : Str} (htrim : trim scope = scope) (hne : scope ≠ []) :
    normalizeScopeList [scope] = [scope] :=
  IsScopeList.normalize_eq ⟨nodup_singleton scope, by
    intro s hs
    rw [mem_singleton.mp hs]
    exact ⟨htrim, hne⟩⟩

/-- Only the admin scope grants the admin scope. -/
theorem admin_of_allow {allowed : List Str}
    (h : roleScopesAllow operatorRole [operatorAdminScope] allowed = true) :
    operatorAdminScope ∈ normalizeScopeList allowed := by
  unfold roleScopesAllow at h
  dsimp only at h
  rw [normalizeScopeList_singleton (by decide) (by decide), if_neg (by decide)] at h
  split at h
  · cases h
  · rw [if_neg (by decide), all_cons, Bool.and_eq_true] at h
    have hscope := h.1
    unfold operatorScopeSatisfied at hscope
    rw [if_neg (by decide)] at hscope
    split at hscope
    · next hadmin => exact hadmin
    · rw [if_neg (by decide), if_neg (by decide)] at hscope
      exact of_decide_eq_true hscope

/-- What an approval found and left. -/
structure ApproveSpec (file : NodePairingState) (requestId : Str) (callerScopes : Option (List Str))
    (node : NodePairingPairedNode) (state : NodePairingState) : Prop where
  found : ∃ pending ∈ file.pendingById.entries, pending.requestId = requestId ∧
    pending.nodeId = node.nodeId ∧ pending.surface = node.surface
  entitled : Entitled callerScopes node
  pending : ∀ other ∈ state.pendingById.entries, other ∈ file.pendingById.entries
  paired : state.pairedByNodeId = file.pairedByNodeId.set node

theorem approveNodePairing_spec {state : NodePairingState} {newToken requestId requestId' : Str}
    (h : approveNodePairing file nowMs newToken requestId callerScopes =
      (.approved requestId' node, state)) : ApproveSpec file requestId callerScopes node state := by
  unfold approveNodePairing at h
  dsimp only at h
  cases hfind : (file.load nowMs).pendingById.find requestId with
  | none =>
    rw [hfind] at h
    cases h
  | some pending =>
    rw [hfind] at h
    dsimp only at h
    cases hmissing : resolveMissingRequestedScope operatorRole
        (resolveNodeApprovalRequiredScopes pending) (callerScopes.getD []) with
    | some missingScope =>
      rw [hmissing] at h
      cases h
    | none =>
      rw [hmissing] at h
      cases h
      refine ⟨⟨pending, mem_load (mem_of_find hfind), key_of_find hfind, rfl, rfl⟩, ?_,
        fun other hother => mem_load (mem_of_mem_filter hother), rfl⟩
      intro command hcommand hsystem
      apply admin_of_allow
      have hrequired : operatorAdminScope ∈ resolveNodeApprovalRequiredScopes pending := by
        unfold resolveNodeApprovalRequiredScopes resolveNodePairApprovalScopes
        rw [if_pos (any_eq_true.mpr ⟨command, hcommand, decide_eq_true hsystem⟩)]
        exact mem_cons_of_mem _ mem_cons_self
      have hallowed := find?_eq_none.mp hmissing operatorAdminScope hrequired
      simpa using hallowed

theorem NodeInv.approve (h : NodeInv locale s events)
    (hspec : ApproveSpec s.file requestId callerScopes node file) :
    NodeInv locale ⟨file, s.usedIds⟩ (events ++ [.approved requestId callerScopes node]) := by
  obtain ⟨pending, hmem, hid, hnode, hsurface⟩ := hspec.found
  obtain ⟨asked, hasked, hasks⟩ := h.pending pending hmem
  have hnone : (NodeEvent.approved requestId callerScopes node).asks = none := rfl
  refine ⟨fun other hother => h.trimmed other (hspec.pending other hother), ?_, ?_, ?_, ?_, ?_⟩
  · intro other hother
    obtain ⟨event', hevent', hasks'⟩ := h.pending other (hspec.pending other hother)
    exact ⟨event', mem_append_left _ hevent', hasks'⟩
  · intro event' hmem' request hasks'
    rcases mem_append.mp hmem' with hmem' | hmem'
    · exact h.used event' hmem' request hasks'
    · rw [mem_singleton.mp hmem', hnone] at hasks'
      cases hasks'
  · intro event' hmem' event'' hmem'' request request' hasks' hasks''
    rcases mem_append.mp hmem' with hmem' | hmem'
    · rcases mem_append.mp hmem'' with hmem'' | hmem''
      · exact h.same event' hmem' event'' hmem'' request request' hasks' hasks''
      · rw [mem_singleton.mp hmem'', hnone] at hasks''
        cases hasks''
    · rw [mem_singleton.mp hmem', hnone] at hasks'
      cases hasks'
  · intro requestId' callerScopes' node' hmem'
    rcases mem_append.mp hmem' with hmem' | hmem'
    · obtain ⟨hentitled, htrimmed, event', hevent', hrequest⟩ :=
        h.approved requestId' callerScopes' node' hmem'
      exact ⟨hentitled, htrimmed, event', mem_append_left _ hevent', hrequest⟩
    · cases mem_singleton.mp hmem'
      have htrimmed : node.surface.Trimmed := by
        rw [← hsurface]
        exact h.trimmed pending hmem
      exact ⟨hspec.entitled, htrimmed, asked, mem_append_left _ hasked, pending, hasks, hid,
        hnode, hsurface⟩
  · intro nodeId surface
    dsimp only
    rw [hspec.paired, find_set]
    by_cases heq : nodeId = node.nodeId
    · rw [if_pos heq, map_some, some.injEq]
      constructor
      · intro hsame
        exact ⟨requestId, callerScopes, node, lastApproval_self, heq.symm, hsame⟩
      · rintro ⟨requestId', callerScopes', node', hlast, hnode', hsame⟩
        rcases hlast.of_snoc with happroved | ⟨_, hnot⟩
        · cases happroved
          exact hsame
        · exact (hnot (heq.symm.trans hnode'.symm)).elim
    · rw [if_neg heq, h.paired]
      refine exists_congr fun requestId' => exists_congr fun callerScopes' =>
        exists_congr fun node' => ?_
      constructor
      · rintro ⟨hlast, hnode', hsame⟩
        refine ⟨hlast.snoc fun hdecides => heq ?_, hnode', hsame⟩
        have hsame : node.nodeId = node'.nodeId := hdecides
        exact (hsame.trans hnode').symm
      · rintro ⟨hlast, hnode', hsame⟩
        rcases hlast.of_snoc with happroved | ⟨hlast, _⟩
        · cases happroved
          exact absurd hnode'.symm heq
        · exact ⟨hlast, hnode', hsame⟩

/-! ## The other steps -/

variable (file)

theorem removePairedNode_spec (nowMs : ℤ) (id : Str) :
    (∀ pending ∈ (removePairedNode file nowMs id).pendingById.entries,
        pending ∈ file.pendingById.entries) ∧
      ∀ nodeId, (removePairedNode file nowMs id).pairedByNodeId.find nodeId =
        if trim id = nodeId ∧ nodeId ≠ [] then none else file.pairedByNodeId.find nodeId := by
  unfold removePairedNode
  dsimp only
  by_cases hgone : trim id = [] ∨ (file.load nowMs).pairedByNodeId.find (trim id) = none
  · rw [if_pos hgone]
    refine ⟨fun _ hmem => hmem, fun nodeId => ?_⟩
    by_cases hdecides : trim id = nodeId ∧ nodeId ≠ []
    · rw [if_pos hdecides]
      obtain ⟨rfl, hne⟩ := hdecides
      exact hgone.resolve_left hne
    · rw [if_neg hdecides]
  · rw [if_neg hgone]
    refine ⟨fun _ hmem => mem_load hmem, fun nodeId => ?_⟩
    show ((file.load nowMs).pairedByNodeId.erase (trim id)).find nodeId = _
    rw [find_erase]
    by_cases heq : nodeId = trim id
    · rw [if_pos heq, if_pos]
      refine ⟨heq.symm, ?_⟩
      rw [heq]
      exact (not_or.mp hgone).1
    · rw [if_neg heq, if_neg fun hdecides => heq hdecides.1.symm]
      rfl

theorem NodeInv.remove (h : NodeInv locale s events) (nowMs : ℤ) (id : Str) :
    NodeInv locale ⟨removePairedNode s.file nowMs id, s.usedIds⟩ (events ++ [.removed id]) := by
  obtain ⟨hpending, hpaired⟩ := removePairedNode_spec s.file nowMs id
  have hnone : (NodeEvent.removed id).asks = none := rfl
  refine ⟨fun pending hmem => h.trimmed pending (hpending pending hmem), ?_, ?_, ?_, ?_, ?_⟩
  · intro pending hmem
    obtain ⟨event', hevent', hasks'⟩ := h.pending pending (hpending pending hmem)
    exact ⟨event', mem_append_left _ hevent', hasks'⟩
  · intro event' hmem request hasks'
    rcases mem_append.mp hmem with hmem | hmem
    · exact h.used event' hmem request hasks'
    · rw [mem_singleton.mp hmem, hnone] at hasks'
      cases hasks'
  · intro event' hmem' event'' hmem'' request request' hasks' hasks''
    rcases mem_append.mp hmem' with hmem' | hmem'
    · rcases mem_append.mp hmem'' with hmem'' | hmem''
      · exact h.same event' hmem' event'' hmem'' request request' hasks' hasks''
      · rw [mem_singleton.mp hmem'', hnone] at hasks''
        cases hasks''
    · rw [mem_singleton.mp hmem', hnone] at hasks'
      cases hasks'
  · intro requestId callerScopes node hmem
    rcases mem_append.mp hmem with hmem | hmem
    · obtain ⟨hentitled, htrimmed, event', hevent', hrequest⟩ :=
        h.approved requestId callerScopes node hmem
      exact ⟨hentitled, htrimmed, event', mem_append_left _ hevent', hrequest⟩
    · cases mem_singleton.mp hmem
  · intro nodeId surface
    dsimp only
    rw [hpaired]
    by_cases hdecides : trim id = nodeId ∧ nodeId ≠ []
    · rw [if_pos hdecides]
      refine ⟨fun hnone => (nomatch hnone), ?_⟩
      rintro ⟨requestId, callerScopes, node, hlast, rfl, _⟩
      rcases hlast.of_snoc with heq | ⟨_, hnot⟩
      · cases heq
      · exact absurd hdecides hnot
    · rw [if_neg hdecides, h.paired]
      refine exists_congr fun requestId => exists_congr fun callerScopes =>
        exists_congr fun node => ?_
      refine and_congr_left fun hand => ⟨fun hlast => hlast.snoc ?_, fun hlast => ?_⟩
      · rw [hand.1]
        exact hdecides
      · rcases hlast.of_snoc with heq | ⟨hlast, _⟩
        · cases heq
        · exact hlast

/-- Other metadata for a paired node. -/
theorem map_surface_set {paired : Keyed NodePairingPairedNode (·.nodeId)} {id : Str}
    {existing : NodePairingPairedNode} (hfind : paired.find id = some existing)
    (metadata : NodeMetadata) (nodeId : Str) :
    ((paired.set { existing with metadata := metadata }).find nodeId).map (·.surface) =
      (paired.find nodeId).map (·.surface) := by
  have hkey : existing.nodeId = id := key_of_find hfind
  rw [find_set]
  dsimp only
  by_cases heq : nodeId = existing.nodeId
  · rw [if_pos heq, heq, hkey, hfind]
    rfl
  · rw [if_neg heq]

theorem renamePairedNode_spec (nowMs : ℤ) (id displayName : Str) :
    (∀ pending ∈ (renamePairedNode file nowMs id displayName).pendingById.entries,
        pending ∈ file.pendingById.entries) ∧
      ∀ nodeId, ((renamePairedNode file nowMs id displayName).pairedByNodeId.find nodeId).map
        (·.surface) = (file.pairedByNodeId.find nodeId).map (·.surface) := by
  unfold renamePairedNode
  dsimp only
  cases hfind : (file.load nowMs).pairedByNodeId.find (trim id) with
  | none => exact ⟨fun _ hmem => hmem, fun _ => rfl⟩
  | some existing =>
    dsimp only
    split
    · exact ⟨fun _ hmem => hmem, fun _ => rfl⟩
    · refine ⟨fun _ hmem => mem_load hmem, fun nodeId => ?_⟩
      exact map_surface_set hfind _ nodeId

theorem updatePairedNodeMetadata_spec (nowMs : ℤ) (id : Str) (patch : NodeMetadata) :
    (∀ pending ∈ (updatePairedNodeMetadata file nowMs id patch).pendingById.entries,
        pending ∈ file.pendingById.entries) ∧
      ∀ nodeId, ((updatePairedNodeMetadata file nowMs id patch).pairedByNodeId.find nodeId).map
        (·.surface) = (file.pairedByNodeId.find nodeId).map (·.surface) := by
  unfold updatePairedNodeMetadata
  dsimp only
  cases hfind : (file.load nowMs).pairedByNodeId.find (trim id) with
  | none => exact ⟨fun _ hmem => hmem, fun _ => rfl⟩
  | some existing =>
    refine ⟨fun _ hmem => mem_load hmem, fun nodeId => ?_⟩
    exact map_surface_set hfind _ nodeId

theorem rejectNodePairing_spec (nowMs : ℤ) (requestId : Str) :
    (∀ pending ∈ (rejectNodePairing file nowMs requestId).pendingById.entries,
        pending ∈ file.pendingById.entries) ∧
      (rejectNodePairing file nowMs requestId).pairedByNodeId = file.pairedByNodeId := by
  unfold rejectNodePairing
  dsimp only
  split
  · exact ⟨fun _ hmem => hmem, rfl⟩
  · exact ⟨fun _ hmem => mem_load (mem_of_mem_filter hmem), rfl⟩

variable {file}

/-- A connect keeps its file, or makes a request. -/
theorem reconcile_cases {state : NodePairingState} {newId : Str}
    {d : NodeDeclaration} {result : NodeConnectResult}
    (h : reconcileNodePairingOnConnect locale file nowMs newId d = .ok (result, state)) :
    (connectRequest locale (file.pairedByNodeId.find (trim d.nodeId)) d = none ∧ state = file ∧
      result = connectResult locale (file.pairedByNodeId.find (trim d.nodeId)) d none) ∨
    ∃ req pendingPairing, connectRequest locale (file.pairedByNodeId.find (trim d.nodeId)) d = some req ∧
      RequestSpec locale file nowMs newId req pendingPairing.request state ∧
        result = connectResult locale (file.pairedByNodeId.find (trim d.nodeId)) d
          (some pendingPairing) := by
  unfold reconcileNodePairingOnConnect at h
  dsimp only at h
  cases hrequest : connectRequest locale (file.pairedByNodeId.find (trim d.nodeId)) d with
  | none =>
    rw [hrequest] at h
    cases h
    exact Or.inl ⟨rfl, rfl, rfl⟩
  | some req =>
    rw [hrequest] at h
    dsimp only at h
    cases hpairing : requestNodePairing locale file nowMs newId req with
    | error e =>
      rw [hpairing] at h
      cases h
    | ok outcome =>
      obtain ⟨pendingPairing, state'⟩ := outcome
      rw [hpairing] at h
      cases h
      exact Or.inr ⟨req, pendingPairing, rfl, requestNodePairing_spec hpairing, rfl⟩

theorem pendingPairing_connectResult (pairedNode : Option NodePairingPairedNode) (d : NodeDeclaration)
    (pendingPairing : Option RequestNodePairingResult) :
    (connectResult locale pairedNode d pendingPairing).pendingPairing = pendingPairing := by
  unfold connectResult
  cases pairedNode with
  | none => rfl
  | some pairedNode =>
    dsimp only
    split
    · rfl
    · rfl

theorem NodeInv.use (h : NodeInv locale s events) (newId : Str) :
    NodeInv locale ⟨s.file, newId :: s.usedIds⟩ events :=
  ⟨h.trimmed, h.pending,
    fun event hmem request hasks => mem_cons_of_mem _ (h.used event hmem request hasks),
    h.same, h.approved, h.paired⟩

/-- What every step preserves. -/
theorem NodeStep.preserves {s' : NodeSystem} (hstep : NodeStep locale s event s')
    (h : NodeInv locale s events) : NodeInv locale s' (events ++ [event]) := by
  cases hstep with
  | @connect nowMs newId d result file hfresh hconnect =>
    rcases reconcile_cases hconnect with ⟨_, rfl, hresult⟩ | ⟨req, pendingPairing, _, hspec, hresult⟩
    · have hasks : (NodeEvent.connected nowMs d result).asks = none := by
        show Option.map _ result.pendingPairing = _
        rw [hresult, pendingPairing_connectResult]
        rfl
      exact (h.quiet hasks (fun _ hfalse => hfalse) (fun _ hmem => hmem) fun _ => rfl).use newId
    · have hasks : (NodeEvent.connected nowMs d result).asks = some pendingPairing.request := by
        show Option.map _ result.pendingPairing = _
        rw [hresult, pendingPairing_connectResult]
        rfl
      exact h.asked hfresh hspec hasks fun _ hfalse => hfalse
  | request hfresh hrequest =>
    exact h.asked hfresh (requestNodePairing_spec hrequest) rfl fun _ hfalse => hfalse
  | approve happrove => exact h.approve (approveNodePairing_spec happrove)
  | notApprove =>
    exact h.quiet rfl (fun _ hfalse => hfalse) (fun _ hmem => hmem) fun _ => rfl
  | @reject nowMs requestId =>
    obtain ⟨hpending, hpaired⟩ := rejectNodePairing_spec s.file nowMs requestId
    exact h.quiet rfl (fun _ hfalse => hfalse) hpending fun _ => by rw [hpaired]
  | @remove nowMs id => exact h.remove nowMs id
  | @rename nowMs id displayName =>
    obtain ⟨hpending, hpaired⟩ := renamePairedNode_spec s.file nowMs id displayName
    exact h.quiet rfl (fun _ hfalse => hfalse) hpending hpaired
  | @update nowMs id patch =>
    obtain ⟨hpending, hpaired⟩ := updatePairedNodeMetadata_spec s.file nowMs id patch
    exact h.quiet rfl (fun _ hfalse => hfalse) hpending hpaired
  | fail => exact h.quiet rfl (fun _ hfalse => hfalse) (fun _ hmem => hmem) fun _ => rfl

end

end OpenClaw
