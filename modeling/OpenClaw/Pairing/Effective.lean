import OpenClaw.Pairing.NodeRuns

/-!
# The effective surface of a node

What is effective on a connect was approved last. An approved request settles the declaration that
asked for it, unless permissions of an older request were carried over into it.
-/

namespace OpenClaw

/-! ## What is asked -/

/-- The same sets of caps, commands and permissions. -/
structure NodeSurface.SameSets (a b : NodeSurface) : Prop where
  caps : ∀ cap, cap ∈ normalizeApprovalSurfaceList a.caps ↔ cap ∈ normalizeApprovalSurfaceList b.caps
  commands : ∀ command, command ∈ normalizeApprovalSurfaceList a.commands ↔
    command ∈ normalizeApprovalSurfaceList b.commands
  permissions : ∀ entry, entry ∈ a.permissions.getD [] ↔ entry ∈ b.permissions.getD []

/-- The last decision about a node approved a request that meets a condition and asked for the same
since its id was issued, by an operator who may approve its commands. -/
def ApprovedLast (events : List NodeEvent) (nodeId : Str) (meets : NodeSurface → Prop) : Prop :=
  ∃ requestId callerScopes node, LastApproval events requestId callerScopes node ∧
    node.nodeId = nodeId ∧ meets node.surface ∧ Entitled callerScopes node ∧
      ∀ event ∈ events, ∀ request, event.asks = some request → request.requestId = requestId →
        request.surface.SameSets node.surface

/-- Everything effective is declared and was approved last. -/
structure EffectiveFrom (before : List NodeEvent) (d : NodeDeclaration) (result : NodeConnectResult) :
    Prop where
  caps : ∀ cap ∈ result.effectiveCaps, cap ∈ normalizeApprovalSurfaceList d.caps ∧
    ApprovedLast before (trim d.nodeId) fun surface => cap ∈ surface.caps.getD []
  commands : ∀ command ∈ result.effectiveCommands,
    command ∈ normalizeApprovalSurfaceList d.commands ∧
      ApprovedLast before (trim d.nodeId) fun surface => command ∈ surface.commands.getD []
  permissions : ∀ key, (key, true) ∈ result.effectivePermissions.getD [] →
    (key, true) ∈ d.permissions.getD [] ∧
      ApprovedLast before (trim d.nodeId) fun surface => (key, true) ∈ surface.permissions.getD []

/-- The same declaration under the same configuration. -/
structure NodeDeclaration.Same (d' d : NodeDeclaration) : Prop where
  nodeId : d'.nodeId = d.nodeId
  caps : d'.caps = d.caps
  commands : d'.commands = d.commands
  permissions : d'.permissions = d.permissions
  allowlist : d'.allowlist = d.allowlist

/-- A connect that asks for nothing and has all that is declared. -/
structure Settled (locale : Locale) (d : NodeDeclaration) (result : NodeConnectResult) : Prop where
  pending : result.pendingPairing = none
  caps : result.effectiveCaps = d.declaredCaps
  commands : result.effectiveCommands = d.declaredCommands
  permissions : result.effectivePermissions = d.declaredPermissions locale

/-- When the request of a connect is approved, a later connect with the same declaration is settled,
as long as nothing else is decided about the node. -/
def ApprovalSettles (locale : Locale) (events : List NodeEvent) : Prop :=
  ∀ before nowMs d result pendingPairing middle callerScopes node later nowMs' d' result' after,
    events = before ++ .connected nowMs d result :: (middle ++
      .approved pendingPairing.request.requestId callerScopes node ::
        (later ++ .connected nowMs' d' result' :: after)) →
      result.pendingPairing = some pendingPairing → d'.Same d →
        (∀ event ∈ later, ¬event.decides (trim d.nodeId)) → Settled locale d' result'

/-- The surface of a node is what was approved for it, and approval converges. -/
structure SurfaceApproved (locale : Locale) (events : List NodeEvent) : Prop where
  effective : ∀ before nowMs d result after, events = before ++ .connected nowMs d result :: after →
    EffectiveFrom before d result
  settles : ApprovalSettles locale events

/-- A connect that asks without permissions finds none in the requests of its node. -/
def NothingCarriedOver (locale : Locale) (s : NodeSystem) (event : NodeEvent) : Prop :=
  match event with
  | .connected nowMs d _ =>
    ∀ req, connectRequest locale (s.file.pairedByNodeId.find (trim d.nodeId)) d = some req →
      req.surface.permissions = none →
        ∀ pending ∈ (s.file.load nowMs).pendingById.entries, pending.nodeId = trim d.nodeId →
          pending.surface.permissions.getD [] = []
  | _ => True

section

variable {locale : Locale} {events : List NodeEvent} {event : NodeEvent} {s s' : NodeSystem}
  {d : NodeDeclaration} {node : NodePairingPairedNode}

theorem NodeSurface.Same.sets {a b : NodeSurface} (h : a.Same locale b) : a.SameSets b :=
  ⟨h.caps, h.commands, h.mem_permissions⟩

/-! ## What is effective -/

/-- What is stored for a node was approved last. -/
theorem NodeInv.exists_approval (h : NodeInv locale s events) {nodeId : Str}
    (hpaired : s.file.pairedByNodeId.find nodeId = some node) :
    ∃ requestId callerScopes approved, LastApproval events requestId callerScopes approved ∧
      .approved requestId callerScopes approved ∈ events ∧ approved.nodeId = nodeId ∧
        approved.surface = node.surface := by
  have hsurface : (s.file.pairedByNodeId.find nodeId).map (·.surface) = some node.surface := by
    rw [hpaired]
    rfl
  obtain ⟨requestId, callerScopes, approved, hlast, hnode, hsame⟩ :=
    (h.paired nodeId node.surface).mp hsurface
  refine ⟨requestId, callerScopes, approved, hlast, ?_, hnode, hsame⟩
  obtain ⟨before, after, rfl, _⟩ := hlast
  exact List.mem_append_right _ List.mem_cons_self

theorem NodeInv.trimmed_of_find (h : NodeInv locale s events) {nodeId : Str}
    (hpaired : s.file.pairedByNodeId.find nodeId = some node) : node.surface.Trimmed := by
  obtain ⟨requestId, callerScopes, approved, _, hmem, _, hsame⟩ := h.exists_approval hpaired
  rw [← hsame]
  exact (h.approved requestId callerScopes approved hmem).2.1

theorem NodeInv.approvedLast (h : NodeInv locale s events) {nodeId : Str}
    (hpaired : s.file.pairedByNodeId.find nodeId = some node) {meets : NodeSurface → Prop}
    (hmeets : meets node.surface) : ApprovedLast events nodeId meets := by
  obtain ⟨requestId, callerScopes, approved, hlast, hmem, hnode, hsame⟩ := h.exists_approval hpaired
  obtain ⟨hentitled, _, asked, hasked, request, hasks, hid, _, hrequest⟩ :=
    h.approved requestId callerScopes approved hmem
  refine ⟨requestId, callerScopes, approved, hlast, hnode, ?_, hentitled, ?_⟩
  · rw [hsame]
    exact hmeets
  · intro event hevent other hother hotherId
    have heq := (h.same event hevent asked hasked other request hother hasks
      (hotherId.trans hid.symm)).2
    rw [hrequest] at heq
    exact heq.sets

theorem mem_intersectApprovalSurfaceList {entry : Str} {approved declared : List Str}
    (h : entry ∈ intersectApprovalSurfaceList approved declared) :
    entry ∈ normalizeTrimmedStringList declared ∧ entry ∈ normalizeTrimmedStringList approved := by
  obtain ⟨hdeclared, happroved⟩ := List.mem_filter.mp h
  exact ⟨hdeclared, of_decide_eq_true happroved⟩

theorem mem_of_normalize_of_trimmed {entry : Str} {value : List Str}
    (hvalue : ∀ e ∈ value, trim e = e) (h : entry ∈ normalizeTrimmedStringList value) :
    entry ∈ value := by
  obtain ⟨_, raw, hraw, rfl⟩ := mem_normalizeTrimmedStringList.mp h
  rw [hvalue raw hraw]
  exact hraw

theorem trim_of_mem_surfaceList {entry : Str} {value : Option (List Str)}
    (h : entry ∈ normalizeApprovalSurfaceList value) : trim entry = entry ∧ entry ≠ [] := by
  cases value with
  | none => cases h
  | some value =>
    obtain ⟨hne, raw, _, rfl⟩ := mem_normalizeTrimmedStringList.mp h
    exact ⟨trim_trim raw, hne⟩

/-- A granted permission of the intersection is granted on both sides. -/
theorem mem_intersectPermissionSurface {approved declared : Option Permissions} {key : Str}
    (h : (key, true) ∈ (intersectPermissionSurface approved declared).getD []) :
    (key, true) ∈ declared.getD [] ∧ (key, true) ∈ approved.getD [] := by
  unfold intersectPermissionSurface at h
  dsimp only at h
  split at h
  · rw [Option.getD_some] at h
    obtain ⟨⟨key', value⟩, hmem, hentry⟩ := List.mem_filterMap.mp h
    dsimp only at hentry
    cases value with
    | false =>
      rw [if_pos rfl] at hentry
      cases hentry
    | true =>
      rw [if_neg (fun h => nomatch h)] at hentry
      cases hvalue : permissionValue approved key' with
      | none =>
        rw [hvalue] at hentry
        cases hentry
      | some value =>
        rw [hvalue] at hentry
        cases value with
        | false => cases hentry
        | true =>
          cases hentry
          refine ⟨hmem, ?_⟩
          obtain ⟨⟨key'', value⟩, hfind, rfl⟩ := Option.map_eq_some_iff.mp hvalue
          have hkey := List.find?_some hfind
          rw [decide_eq_true_eq] at hkey
          dsimp only at hkey
          rw [← hkey]
          exact List.mem_of_find?_eq_some hfind
  · cases h

theorem mem_normalizePermissionMap {entry : Str × Bool} {value : Option Permissions} :
    entry ∈ (normalizePermissionMap locale value).getD [] ↔ entry ∈ value.getD [] := by
  rw [insertionSort_getD_normalizePermissionMap, mem_sortPermissions]

/-- What a node that needs no pairing declares is what is stored for it. -/
structure Agrees (locale : Locale) (node : NodePairingPairedNode) (d : NodeDeclaration) : Prop where
  commands : ∀ command ∈ d.declaredCommands,
    command ∈ normalizeDeclaredNodeCommands node.surface.commands d.allowlist
  caps : ∀ cap, cap ∈ normalizeApprovalSurfaceList node.surface.caps ↔
    cap ∈ normalizeApprovalSurfaceList (some d.declaredCaps)
  permissions : sortPermissions locale (node.surface.permissions.getD []) =
    sortPermissions locale ((d.declaredPermissions locale).getD [])

theorem needsPairing_eq_false_iff : needsPairing locale node d = false ↔ Agrees locale node d := by
  unfold needsPairing hasPermissionChange
  dsimp only
  rw [Bool.or_eq_false_iff, Bool.or_eq_false_iff, List.any_eq_false, Bool.not_eq_false',
    Bool.not_eq_false', sameApprovalSurfaceSet_iff, samePermissions_iff]
  constructor
  · rintro ⟨⟨hcommands, hcaps⟩, hpermissions⟩
    refine ⟨fun command hmem => ?_, hcaps, hpermissions⟩
    have hnot := hcommands command hmem
    rw [decide_eq_true_eq, not_not] at hnot
    exact hnot
  · rintro ⟨hcommands, hcaps, hpermissions⟩
    refine ⟨⟨fun command hmem => ?_, hcaps⟩, hpermissions⟩
    rw [decide_eq_true_eq, not_not]
    exact hcommands command hmem

theorem mem_declaredCaps {cap : Str} :
    cap ∈ normalizeApprovalSurfaceList (some d.declaredCaps) ↔ cap ∈ d.declaredCaps := by
  show cap ∈ normalizeTrimmedStringList (normalizeApprovalSurfaceList d.caps) ↔ _
  cases hcaps : d.caps with
  | none =>
    unfold NodeDeclaration.declaredCaps
    rw [hcaps]
    exact Iff.rfl
  | some caps =>
    unfold NodeDeclaration.declaredCaps
    rw [hcaps]
    show cap ∈ normalizeTrimmedStringList (normalizeTrimmedStringList caps) ↔ _
    rw [normalizeTrimmedStringList_idem]
    exact Iff.rfl

/-- The caps, commands and permissions of a result come from the node that is stored. -/
theorem effective_of_connectResult (h : NodeInv locale s events)
    (pendingPairing : Option RequestNodePairingResult) :
    EffectiveFrom events d (connectResult locale (s.file.pairedByNodeId.find (trim d.nodeId)) d
      pendingPairing) := by
  cases hpaired : s.file.pairedByNodeId.find (trim d.nodeId) with
  | none =>
    exact ⟨fun _ hmem => (nomatch hmem), fun _ hmem => (nomatch hmem), fun _ hmem => (nomatch hmem)⟩
  | some node =>
    have htrimmed := h.trimmed_of_find hpaired
    have hcaps : normalizeApprovalSurfaceList node.surface.caps = node.surface.caps.getD [] :=
      normalizeApprovalSurfaceList_of_trimmed htrimmed.caps
    have hcommands : ∀ command,
        command ∈ normalizeDeclaredNodeCommands node.surface.commands d.allowlist →
          command ∈ node.surface.commands.getD [] := by
      intro command hmem
      rw [← normalizeApprovalSurfaceList_of_trimmed htrimmed.commands]
      exact (mem_normalizeDeclaredNodeCommands.mp hmem).1
    unfold connectResult
    dsimp only
    cases hneeds : needsPairing locale node d with
    | true =>
      rw [if_pos rfl]
      constructor
      · intro cap hcap
        obtain ⟨hdeclared, happroved⟩ := mem_intersectApprovalSurfaceList hcap
        have hdeclared' : cap ∈ normalizeApprovalSurfaceList d.caps :=
          mem_of_normalize_of_trimmed (fun e he => (trim_of_mem_surfaceList he).1) hdeclared
        have happroved' : cap ∈ normalizeApprovalSurfaceList node.surface.caps :=
          mem_of_normalize_of_trimmed (fun e he => (trim_of_mem_surfaceList he).1) happroved
        rw [hcaps] at happroved'
        exact ⟨hdeclared', h.approvedLast hpaired happroved'⟩
      · intro command hcommand
        obtain ⟨hdeclared, happroved⟩ := mem_intersectApprovalSurfaceList hcommand
        have hdeclared' : command ∈ d.declaredCommands := by
          refine mem_of_normalize_of_trimmed (fun e he => ?_) hdeclared
          exact (trim_of_mem_surfaceList (mem_normalizeDeclaredNodeCommands.mp he).1).1
        have happroved' : command ∈
            normalizeDeclaredNodeCommands node.surface.commands d.allowlist := by
          refine mem_of_normalize_of_trimmed (fun e he => ?_) happroved
          exact (trim_of_mem_surfaceList (mem_normalizeDeclaredNodeCommands.mp he).1).1
        exact ⟨(mem_normalizeDeclaredNodeCommands.mp hdeclared').1,
          h.approvedLast hpaired (hcommands command happroved')⟩
      · intro key hkey
        obtain ⟨hdeclared, happroved⟩ := mem_intersectPermissionSurface hkey
        exact ⟨mem_normalizePermissionMap.mp hdeclared,
          h.approvedLast hpaired (mem_normalizePermissionMap.mp happroved)⟩
    | false =>
      rw [if_neg (fun h => nomatch h)]
      have hagrees := needsPairing_eq_false_iff.mp hneeds
      constructor
      · intro cap hcap
        have happroved := (hagrees.caps cap).mpr (mem_declaredCaps.mpr hcap)
        rw [hcaps] at happroved
        exact ⟨hcap, h.approvedLast hpaired happroved⟩
      · intro command hcommand
        exact ⟨(mem_normalizeDeclaredNodeCommands.mp hcommand).1,
          h.approvedLast hpaired (hcommands command (hagrees.commands command hcommand))⟩
      · intro key hkey
        have happroved : (key, true) ∈ node.surface.permissions.getD [] := by
          rw [← @mem_sortPermissions locale, hagrees.permissions, mem_sortPermissions]
          exact hkey
        exact ⟨mem_normalizePermissionMap.mp hkey, h.approvedLast hpaired happroved⟩

theorem effective_of_reconcile (h : NodeInv locale s events) {nowMs : ℤ} {newId : Str}
    {result : NodeConnectResult} {file : NodePairingState}
    (hconnect : reconcileNodePairingOnConnect locale s.file nowMs newId d = .ok (result, file)) :
    EffectiveFrom events d result := by
  rcases reconcile_cases hconnect with ⟨_, _, rfl⟩ | ⟨_, pendingPairing, _, _, rfl⟩
  · exact effective_of_connectResult h none
  · exact effective_of_connectResult h (some pendingPairing)

end

end OpenClaw
