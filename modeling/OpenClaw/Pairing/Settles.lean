import OpenClaw.Pairing.Effective

/-!
# Approval converges

A request that was made for a declaration asks for what is declared, unless permissions are carried
over into it. Once it is approved, the declaration needs no pairing.
-/

namespace OpenClaw

open List

section

variable {locale : Locale} {events : List NodeEvent} {event : NodeEvent} {s s' : NodeSystem}
  {d : NodeDeclaration} {node : NodePairingPairedNode}

/-! ## Requests for a declaration -/

/-- The surface that is declared. -/
def NodeDeclaration.surface (d : NodeDeclaration) (locale : Locale) : NodeSurface :=
  ⟨some d.declaredCaps, some d.declaredCommands, d.declaredPermissions locale⟩

/-- Every request of a connect asks for what was declared. -/
def AsksForDeclared (locale : Locale) (event : NodeEvent) : Prop :=
  match event with
  | .connected _ d result => ∀ pendingPairing, result.pendingPairing = some pendingPairing →
      pendingPairing.request.nodeId = trim d.nodeId ∧
        pendingPairing.request.surface.Same locale (d.surface locale)
  | _ => True

/-- The request of a connect has the declared caps and commands, and the declared permissions or none. -/
theorem connectRequest_eq {pairedNode : Option NodePairingPairedNode} {req : NodePairingRequestInput}
    (h : connectRequest locale pairedNode d = some req) :
    req.nodeId = d.nodeId ∧ req.surface.caps = some d.declaredCaps ∧
      req.surface.commands = some d.declaredCommands ∧
        req.surface.permissions.getD [] = (d.declaredPermissions locale).getD [] := by
  unfold connectRequest at h
  cases pairedNode with
  | none =>
    cases h
    exact ⟨rfl, rfl, rfl, rfl⟩
  | some node =>
    dsimp only at h
    split at h
    · cases h
      refine ⟨rfl, rfl, rfl, ?_⟩
      show (d.declaredPermissions locale <|> _).getD [] = _
      cases d.declaredPermissions locale with
      | some permissions => rfl
      | none =>
        show (if hasPermissionChange locale node d = true then some [] else none).getD [] = []
        split
        · rfl
        · rfl
    · cases h

theorem asksForDeclared_connect {nowMs : ℤ} {newId : Str} {result : NodeConnectResult}
    {file : NodePairingState}
    (hconnect : reconcileNodePairingOnConnect locale s.file nowMs newId d = .ok (result, file))
    (hcondition : NothingCarriedOver locale s (.connected nowMs d result)) :
    AsksForDeclared locale (.connected nowMs d result) := by
  intro pendingPairing hpending
  rcases reconcile_cases hconnect with ⟨_, _, rfl⟩ | ⟨req, pendingPairing', hrequest, hspec, rfl⟩
  · rw [pendingPairing_connectResult] at hpending
    cases hpending
  · rw [pendingPairing_connectResult] at hpending
    cases hpending
    obtain ⟨hnode, hcaps, hcommands, hpermissions⟩ := connectRequest_eq hrequest
    have hcaps' := hspec.caps _ hcaps
    have hcommands' := hspec.commands _ hcommands
    have hpermissions' : pendingPairing.request.surface.permissions.getD [] =
        (d.declaredPermissions locale).getD [] := by
      rw [← hpermissions]
      rcases hspec.permissions with hsame | ⟨hnone, pending, hmem, hnodeId, hsame⟩
      · rw [hsame]
      · rw [hsame, hnone, hcondition req hrequest hnone pending hmem (by rw [hnodeId, hnode])]
        rfl
    refine ⟨by rw [hspec.nodeId, hnode], ?_, ?_, ?_⟩
    · intro cap
      rw [hcaps']
      show cap ∈ normalizeTrimmedStringList (normalizeTrimmedStringList _) ↔ _
      rw [normalizeTrimmedStringList_idem]
      exact Iff.rfl
    · intro command
      rw [hcommands']
      show command ∈ normalizeTrimmedStringList (normalizeTrimmedStringList _) ↔ _
      rw [normalizeTrimmedStringList_idem]
      exact Iff.rfl
    · rw [hpermissions']
      rfl

/-! ## Settled declarations -/

/-- A stored surface that is the declared one needs no pairing. -/
theorem agrees_of_same {d' : NodeDeclaration} (hd : d'.Same d)
    (h : node.surface.Same locale (d.surface locale)) : Agrees locale node d' := by
  have hcaps : d'.declaredCaps = d.declaredCaps := by
    unfold NodeDeclaration.declaredCaps
    rw [hd.caps]
  have hcommands : d'.declaredCommands = d.declaredCommands := by
    unfold NodeDeclaration.declaredCommands
    rw [hd.commands, hd.allowlist]
  have hpermissions : d'.declaredPermissions locale = d.declaredPermissions locale := by
    unfold NodeDeclaration.declaredPermissions
    rw [hd.permissions]
  constructor
  · intro command hmem
    rw [hcommands] at hmem
    obtain ⟨hdeclared, hallowed⟩ := mem_normalizeDeclaredNodeCommands.mp hmem
    obtain ⟨htrim, hne⟩ := trim_of_mem_surfaceList hdeclared
    refine mem_normalizeDeclaredNodeCommands.mpr ⟨(h.commands command).mpr ?_, ?_⟩
    · exact mem_normalizeTrimmedStringList.mpr ⟨hne, command, hmem, htrim⟩
    · rw [hd.allowlist]
      exact hallowed
  · rw [hcaps]
    exact h.caps
  · rw [hpermissions]
    exact h.permissions

theorem settled_of_agrees (h : Agrees locale node d) : connectRequest locale (some node) d = none ∧
      Settled locale d (connectResult locale (some node) d none) := by
  have hneeds := needsPairing_eq_false_iff.mpr h
  constructor
  · unfold connectRequest
    dsimp only
    rw [hneeds]
    rfl
  · unfold connectResult
    dsimp only
    rw [hneeds]
    exact ⟨rfl, rfl, rfl, rfl⟩

/-- The step that a settled declaration takes. -/
theorem NodeInv.settles (h : NodeInv locale s events) (hasked : ∀ event ∈ events, AsksForDeclared locale event)
    {nowMs nowMs' : ℤ} {newId : Str} {result result' : NodeConnectResult} {d' : NodeDeclaration}
    {pendingPairing : RequestNodePairingResult} {callerScopes : Option (List Str)}
    {file : NodePairingState}
    (hconnected : .connected nowMs d result ∈ events) (hpending : result.pendingPairing = some pendingPairing)
    (before : List NodeEvent) {later : List NodeEvent} (hsplit : events = before ++
      .approved pendingPairing.request.requestId callerScopes node :: later)
    (hlater : ∀ event ∈ later, ¬event.decides (trim d.nodeId)) (hd : d'.Same d)
    (hconnect : reconcileNodePairingOnConnect locale s.file nowMs' newId d' = .ok (result', file)) :
    Settled locale d' result' := by
  obtain ⟨hnodeId, hsurface⟩ := hasked _ hconnected pendingPairing hpending
  have happroved : .approved pendingPairing.request.requestId callerScopes node ∈ events := by
    rw [hsplit]
    exact mem_append_right _ mem_cons_self
  obtain ⟨_, _, asked, hmem, request, hasks, hid, hnode, hrequest⟩ := h.approved _ _ _ happroved
  have hasks' : (NodeEvent.connected nowMs d result).asks = some pendingPairing.request := by
    show result.pendingPairing.map _ = _
    rw [hpending]
    rfl
  obtain ⟨hnodes, hsame⟩ := h.same asked hmem _ hconnected request pendingPairing.request hasks hasks' hid
  have hnode' : node.nodeId = trim d.nodeId := by rw [← hnode, hnodes, hnodeId]
  have hlast : LastApproval events pendingPairing.request.requestId callerScopes node :=
    ⟨before, later, hsplit, by rw [hnode']; exact hlater⟩
  have hstored := (h.paired (trim d.nodeId) node.surface).mpr ⟨_, _, node, hlast, hnode', rfl⟩
  obtain ⟨stored, hfind, hstoredSurface⟩ := Option.map_eq_some_iff.mp hstored
  have hagrees : Agrees locale stored d' := by
    refine agrees_of_same hd ?_
    rw [hstoredSurface, ← hrequest]
    exact hsame.trans hsurface
  obtain ⟨hnone, hsettled⟩ := settled_of_agrees hagrees
  have hfind' : s.file.pairedByNodeId.find (trim d'.nodeId) = some stored := by
    rw [hd.nodeId]
    exact hfind
  rcases reconcile_cases hconnect with ⟨_, _, rfl⟩ | ⟨req, _, hrequest', _, _⟩
  · rw [hfind']
    exact hsettled
  · rw [hfind', hnone] at hrequest'
    cases hrequest'

/-! ## Every run -/

section

variable (hrun : Lts.Run (fun s event s' => NodeStep locale s event s' ∧ NothingCarriedOver locale s event) .fresh events s)
include hrun

/-- What holds after any sequence of operations whose connects carry nothing over. -/
theorem surfaceApproved_of_run :
    (NodeInv locale s events ∧ ∀ event ∈ events, AsksForDeclared locale event) ∧
      SurfaceApproved locale events := by
  refine hrun.historyInvariant (fun s events => (NodeInv locale s events ∧
    ∀ event ∈ events, AsksForDeclared locale event) ∧ SurfaceApproved locale events) ?_
      ⟨⟨.fresh, fun _ h => (nomatch h)⟩, ?_, ?_⟩
  · rintro s events event s' ⟨⟨hinv, hasked⟩, hsurface⟩ ⟨hstep, hcondition⟩
    have hasks : AsksForDeclared locale event := by
      cases hstep with
      | connect _ hconnect => exact asksForDeclared_connect hconnect hcondition
      | request => exact trivial
      | approve => exact trivial
      | notApprove => exact trivial
      | reject => exact trivial
      | remove => exact trivial
      | rename => exact trivial
      | update => exact trivial
      | fail => exact trivial
    refine ⟨⟨hstep.preserves hinv, ?_⟩, ?_, ?_⟩
    · intro event' hmem
      rcases mem_append.mp hmem with hmem | hmem
      · exact hasked event' hmem
      · rw [mem_singleton.mp hmem]
        exact hasks
    · intro before nowMs d result after hsplit
      rcases eq_nil_or_concat after with rfl | ⟨after', last, rfl⟩
      · obtain ⟨rfl, hlast⟩ := append_inj' hsplit rfl
        cases singleton_inj.mp hlast
        cases hstep with
        | connect _ hconnect => exact effective_of_reconcile hinv hconnect
      · rw [concat_eq_append, ← cons_append, ← append_assoc] at hsplit
        exact hsurface.effective before nowMs d result after' (append_inj' hsplit rfl).1
    · intro before nowMs d result pendingPairing middle callerScopes node later nowMs' d' result' after
        hsplit hpending hd hlater
      rcases eq_nil_or_concat after with rfl | ⟨after', last, rfl⟩
      · have hevents : events ++ [event] = (before ++ .connected nowMs d result :: (middle ++
            .approved pendingPairing.request.requestId callerScopes node :: later)) ++
              [.connected nowMs' d' result'] := by
          rw [hsplit]
          simp only [append_assoc, cons_append]
        obtain ⟨rfl, hlast⟩ := append_inj' hevents rfl
        cases singleton_inj.mp hlast
        cases hstep with
        | connect _ hconnect =>
          have happroved : before ++ .connected nowMs d result :: (middle ++
              .approved pendingPairing.request.requestId callerScopes node :: later) =
                (before ++ .connected nowMs d result :: middle) ++
                  .approved pendingPairing.request.requestId callerScopes node :: later := by
            rw [append_assoc, cons_append]
          exact hinv.settles hasked (mem_append_right _ mem_cons_self) hpending _ happroved
            hlater hd hconnect
      · have hevents : events ++ [event] = (before ++ .connected nowMs d result :: (middle ++
            .approved pendingPairing.request.requestId callerScopes node ::
              (later ++ .connected nowMs' d' result' :: after'))) ++ [last] := by
          rw [hsplit]
          simp only [append_assoc, cons_append, concat_eq_append]
        exact hsurface.settles before nowMs d result pendingPairing middle callerScopes node later
          nowMs' d' result' after' (append_inj' hevents rfl).1 hpending hd hlater
  · intro before nowMs d result after hsplit
    exact absurd hsplit.symm (append_ne_nil_of_right_ne_nil _ (cons_ne_nil _ _))
  · intro before nowMs d result pendingPairing middle callerScopes node later nowMs' d' result' after
      hsplit
    exact absurd hsplit.symm (append_ne_nil_of_right_ne_nil _ (cons_ne_nil _ _))

end

end

/-! ## A permission that is carried over -/

def codeUnitLocale : Locale := ⟨fun left right => decide (stringLe left right)⟩

def noMetadata : NodeMetadata := ⟨none, none, none, none, none, none, none, none⟩

/-- The first declaration of a node. -/
def cameraDeclaration : NodeDeclaration :=
  ⟨"node-1".toList, noMetadata, none, none, some [("camera".toList, true)], []⟩

/-- Its next one, without permissions. -/
def talkDeclaration : NodeDeclaration :=
  ⟨"node-1".toList, noMetadata, some ["talk".toList], none, none, []⟩

/-- The file that a connect leaves. -/
def fileAfterConnect (file : NodePairingState) (newId : String) (d : NodeDeclaration) :
    NodePairingState :=
  match reconcileNodePairingOnConnect codeUnitLocale file 0 newId.toList d with
  | .ok (_, state) => state
  | .error _ => file

theorem exists_result {file : NodePairingState} {newId : String} {d : NodeDeclaration}
    {p : NodeConnectResult → Bool}
    (h : ((reconcileNodePairingOnConnect codeUnitLocale file 0 newId.toList d).toOption.any
      fun outcome => p outcome.1) = true) :
    ∃ result, reconcileNodePairingOnConnect codeUnitLocale file 0 newId.toList d =
      .ok (result, fileAfterConnect file newId d) ∧ p result = true := by
  unfold fileAfterConnect
  cases hconnect : reconcileNodePairingOnConnect codeUnitLocale file 0 newId.toList d with
  | error e =>
    rw [hconnect] at h
    cases h
  | ok outcome =>
    rw [hconnect] at h
    exact ⟨outcome.1, rfl, h⟩

/-- What the first connect of the node returns. -/
def cameraResult : NodeConnectResult where
  declaredCaps := []
  effectiveCaps := []
  declaredCommands := []
  effectiveCommands := []
  declaredPermissions := some [("camera".toList, true)]
  effectivePermissions := none
  pendingPairing := some
    ⟨⟨"request-1".toList, "node-1".toList, noMetadata, ⟨some [], some [], some [("camera".toList, true)]⟩,
      some false, 0⟩, true, []⟩

theorem reconcile_camera :
    reconcileNodePairingOnConnect codeUnitLocale NodeSystem.fresh.file 0 "request-1".toList
      cameraDeclaration =
        .ok (cameraResult, fileAfterConnect NodeSystem.fresh.file "request-1" cameraDeclaration) := by
  obtain ⟨result, hconnect, hresult⟩ := @exists_result NodeSystem.fresh.file "request-1"
    cameraDeclaration (fun result => decide (result = cameraResult)) (by decide +kernel)
  rw [of_decide_eq_true hresult] at hconnect
  exact hconnect

end OpenClaw
