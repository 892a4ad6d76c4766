import Mathlib.Data.List.Perm.Subperm
import OpenClaw.Pairing.NodeRequests

/-!
# Surfaces that ask for the same

The comparisons of surfaces as sets, and what a pairing request leads to.
-/

namespace OpenClaw

open List Bool

/-- The same caps and commands, and the same permissions once they are sorted. -/
structure NodeSurface.Same (locale : Locale) (a b : NodeSurface) : Prop where
  caps : ∀ cap, cap ∈ normalizeApprovalSurfaceList a.caps ↔ cap ∈ normalizeApprovalSurfaceList b.caps
  commands : ∀ command, command ∈ normalizeApprovalSurfaceList a.commands ↔
    command ∈ normalizeApprovalSurfaceList b.commands
  permissions : sortPermissions locale (a.permissions.getD []) =
    sortPermissions locale (b.permissions.getD [])

/-- Lists of trimmed entries. -/
structure NodeSurface.Trimmed (a : NodeSurface) : Prop where
  caps : a.caps.map normalizeTrimmedStringList = a.caps
  commands : a.commands.map normalizeTrimmedStringList = a.commands

section

variable {locale : Locale} {a b c : NodeSurface} {left right : Option (List Str)}
  {p q : Option Permissions}

/-! ## Lists -/

theorem mem_normalizeTrimmedStringList {entry : Str} {value : List Str} :
    entry ∈ normalizeTrimmedStringList value ↔ entry ≠ [] ∧ ∃ raw ∈ value, trim raw = entry := by
  unfold normalizeTrimmedStringList
  rw [mem_filter, mem_map, decide_eq_true_eq]
  exact and_comm

@[simp]
theorem normalizeTrimmedStringList_idem (value : List Str) :
    normalizeTrimmedStringList (normalizeTrimmedStringList value) = normalizeTrimmedStringList value := by
  have hentry : ∀ entry ∈ normalizeTrimmedStringList value, trim entry = entry ∧ entry ≠ [] := by
    intro entry hmem
    obtain ⟨hne, raw, _, rfl⟩ := mem_normalizeTrimmedStringList.mp hmem
    exact ⟨trim_trim raw, hne⟩
  have hmap : (normalizeTrimmedStringList value).map trim = normalizeTrimmedStringList value :=
    (map_congr_left fun entry hmem => (hentry entry hmem).1).trans (map_id _)
  calc normalizeTrimmedStringList (normalizeTrimmedStringList value)
      = ((normalizeTrimmedStringList value).map trim).filter (· ≠ []) := rfl
    _ = (normalizeTrimmedStringList value).filter (· ≠ []) := by rw [hmap]
    _ = normalizeTrimmedStringList value :=
      filter_eq_self.mpr fun entry hmem => decide_eq_true (hentry entry hmem).2

theorem normalizeApprovalSurfaceList_of_trimmed (h : left.map normalizeTrimmedStringList = left) :
    normalizeApprovalSurfaceList left = left.getD [] := by
  unfold normalizeApprovalSurfaceList
  rw [h]

theorem sameApprovalSurfaceSet_iff : sameApprovalSurfaceSet left right = true ↔
    ∀ entry, entry ∈ normalizeApprovalSurfaceList left ↔ entry ∈ normalizeApprovalSurfaceList right := by
  unfold sameApprovalSurfaceSet
  dsimp only
  have hleft := nodup_dedup (normalizeApprovalSurfaceList left)
  have hright := nodup_dedup (normalizeApprovalSurfaceList right)
  constructor
  · intro h
    split_ifs at h
    next hlength =>
    have hsubset : (normalizeApprovalSurfaceList left).dedup ⊆
        (normalizeApprovalSurfaceList right).dedup :=
      fun entry hmem => of_decide_eq_true (all_eq_true.mp h entry hmem)
    have hperm := (subperm_of_subset hleft hsubset).perm_of_length_le (not_not.mp hlength).ge
    intro entry
    rw [← mem_dedup, hperm.mem_iff, mem_dedup]
  · intro h
    have hperm : (normalizeApprovalSurfaceList left).dedup.Perm
        (normalizeApprovalSurfaceList right).dedup := by
      rw [perm_ext_iff_of_nodup hleft hright]
      intro entry
      rw [mem_dedup, mem_dedup]
      exact h entry
    rw [if_neg (not_not.mpr hperm.length_eq), all_eq_true]
    exact fun entry hmem => decide_eq_true (hperm.mem_iff.mp hmem)

theorem mem_normalizeDeclaredNodeCommands {commands : Option (List Str)} {allowlist : List Str}
    {command : Str} : command ∈ normalizeDeclaredNodeCommands commands allowlist ↔
      command ∈ normalizeApprovalSurfaceList commands ∧ command ∈ allowlist := by
  unfold normalizeDeclaredNodeCommands
  rw [mem_filter, mem_eraseDups, decide_eq_true_eq]

/-! ## Permissions -/

theorem mem_sortPermissions {entry : Str × Bool} {permissions : Permissions} :
    entry ∈ sortPermissions locale permissions ↔ entry ∈ permissions :=
  mem_insertionSort _

theorem zip_all_eq_iff {left right : Permissions} (h : left.length = right.length) :
    ((left.zip right).all fun entries => decide (entries.1 = entries.2)) = true ↔ left = right := by
  induction left generalizing right with
  | nil =>
    rw [eq_nil_of_length_eq_zero h.symm]
    exact ⟨fun _ => rfl, fun _ => rfl⟩
  | cons entry left ih =>
    cases right with
    | nil => cases h
    | cons entry' right =>
      rw [zip_cons_cons, all_cons, and_eq_true, decide_eq_true_eq,
        ih (Nat.succ.inj h), List.cons.injEq]

theorem samePermissions_iff : samePermissions locale p q = true ↔
    sortPermissions locale (p.getD []) = sortPermissions locale (q.getD []) := by
  unfold samePermissions
  dsimp only
  split
  · next hlength =>
    refine ⟨fun h => (nomatch h), fun h => ?_⟩
    rw [h] at hlength
    exact absurd rfl hlength
  · next hlength => exact zip_all_eq_iff (not_not.mp hlength)

theorem insertionSort_getD_normalizePermissionMap :
    (normalizePermissionMap locale p).getD [] = sortPermissions locale (p.getD []) := by
  unfold normalizePermissionMap
  cases p with
  | none => rfl
  | some permissions =>
    show (if 0 < (sortPermissions locale permissions).length then
      some (sortPermissions locale permissions) else none).getD [] = _
    split
    · rfl
    · next hlength =>
      exact (eq_nil_of_length_eq_zero (Nat.eq_zero_of_not_pos hlength)).symm

/-! ## Same surfaces -/

theorem NodeSurface.Same.refl (a : NodeSurface) : a.Same locale a :=
  ⟨fun _ => Iff.rfl, fun _ => Iff.rfl, rfl⟩

theorem NodeSurface.Same.symm (h : a.Same locale b) : b.Same locale a :=
  ⟨fun cap => (h.caps cap).symm, fun command => (h.commands command).symm, h.permissions.symm⟩

theorem NodeSurface.Same.trans (h : a.Same locale b) (h' : b.Same locale c) : a.Same locale c :=
  ⟨fun cap => (h.caps cap).trans (h'.caps cap),
    fun command => (h.commands command).trans (h'.commands command),
    h.permissions.trans h'.permissions⟩

theorem NodeSurface.Same.mem_permissions (h : a.Same locale b) (entry : Str × Bool) :
    entry ∈ a.permissions.getD [] ↔ entry ∈ b.permissions.getD [] := by
  rw [← @mem_sortPermissions locale, h.permissions, mem_sortPermissions]

theorem same_of_samePending {existing : NodePairingPendingRequest}
    {incoming : NodePairingRequestInput}
    (h : samePendingApprovalSurface locale existing incoming = true) :
    existing.surface.Same locale (existing.surface.refresh incoming.surface) := by
  unfold samePendingApprovalSurface at h
  dsimp only at h
  rw [and_eq_true, and_eq_true] at h
  exact ⟨sameApprovalSurfaceSet_iff.mp h.1.1, sameApprovalSurfaceSet_iff.mp h.1.2,
    samePermissions_iff.mp h.2⟩

theorem map_orElse_trimmed {incoming existing : Option (List Str)}
    (h : existing.map normalizeTrimmedStringList = existing) :
    (incoming.map normalizeTrimmedStringList <|> existing).map normalizeTrimmedStringList =
      (incoming.map normalizeTrimmedStringList <|> existing) := by
  cases incoming with
  | none => exact h
  | some value => exact congrArg some (normalizeTrimmedStringList_idem value)

theorem NodeSurface.Trimmed.refresh (h : a.Trimmed) (incoming : NodeSurface) :
    (a.refresh incoming).Trimmed :=
  ⟨map_orElse_trimmed h.caps, map_orElse_trimmed h.commands⟩

/-! ## What a request leads to -/

variable {file state : NodePairingState} {nowMs : ℤ} {newId : Str} {req : NodePairingRequestInput}
  {result : RequestNodePairingResult}

/-- The request that a pairing request ends up as, and what is pending then. -/
structure RequestSpec (locale : Locale) (file : NodePairingState) (nowMs : ℤ) (newId : Str)
    (req : NodePairingRequestInput) (request : NodePairingPendingRequest)
    (state : NodePairingState) : Prop where
  nodeId : request.nodeId = trim req.nodeId
  caps : ∀ caps, req.surface.caps = some caps →
    request.surface.caps = some (normalizeTrimmedStringList caps)
  commands : ∀ commands, req.surface.commands = some commands →
    request.surface.commands = some (normalizeTrimmedStringList commands)
  permissions : request.surface.permissions = req.surface.permissions ∨
    req.surface.permissions = none ∧ ∃ pending ∈ (file.load nowMs).pendingById.entries,
      pending.nodeId = trim req.nodeId ∧ request.surface.permissions = pending.surface.permissions
  trimmed : (∀ pending ∈ file.pendingById.entries, pending.surface.Trimmed) →
    request.surface.Trimmed
  asked : request.requestId = newId ∨ ∃ pending ∈ file.pendingById.entries,
    pending.requestId = request.requestId ∧ pending.nodeId = request.nodeId ∧
      pending.surface.Same locale request.surface
  pending : ∀ other ∈ state.pendingById.entries, other = request ∨
    other ∈ file.pendingById.entries ∧ other.requestId ≠ request.requestId
  paired : state.pairedByNodeId = file.pairedByNodeId

theorem mem_load {pending : NodePairingPendingRequest}
    (h : pending ∈ (file.load nowMs).pendingById.entries) : pending ∈ file.pendingById.entries :=
  mem_of_mem_filter h

theorem mem_foldl_erase {P : Type} {key : P → Str} {pending : P} (existing : List P)
    (m : Keyed P key) (h : pending ∈ (existing.foldl (fun m old => m.erase (key old)) m).entries) :
    pending ∈ m.entries := by
  induction existing generalizing m with
  | nil => exact h
  | cons old existing ih => exact mem_of_mem_filter (ih _ h)

/-- A request that joins one that is pending. -/
theorem requestSpec_refresh {only : NodePairingPendingRequest}
    (honly : only ∈ (file.load nowMs).pendingById.entries) (hnode : only.nodeId = trim req.nodeId)
    (hsame : samePendingApprovalSurface locale only { req with nodeId := trim req.nodeId } = true) :
    RequestSpec locale file nowMs newId req
      (refreshPendingNodePairingRequest nowMs only { req with nodeId := trim req.nodeId })
      { file.load nowMs with
        pendingById := (file.load nowMs).pendingById.set
          (refreshPendingNodePairingRequest nowMs only { req with nodeId := trim req.nodeId }) } where
  nodeId := hnode
  caps := by
    intro caps hcaps
    show (req.surface.caps.map _ <|> only.surface.caps) = _
    rw [hcaps]
    rfl
  commands := by
    intro commands hcommands
    show (req.surface.commands.map _ <|> only.surface.commands) = _
    rw [hcommands]
    rfl
  permissions := by
    cases hpermissions : req.surface.permissions with
    | some permissions =>
      left
      show (req.surface.permissions <|> only.surface.permissions) = _
      rw [hpermissions]
      rfl
    | none =>
      refine Or.inr ⟨rfl, only, honly, hnode, ?_⟩
      show (req.surface.permissions <|> only.surface.permissions) = _
      rw [hpermissions]
      rfl
  trimmed := fun h => (h only (mem_load honly)).refresh _
  asked := Or.inr ⟨only, mem_load honly, rfl, rfl, same_of_samePending hsame⟩
  pending := by
    intro other hother
    rcases Keyed.mem_set.mp hother with rfl | ⟨hmem, hne⟩
    · exact Or.inl rfl
    · exact Or.inr ⟨mem_load hmem, hne⟩
  paired := rfl

/-- A request of its own. -/
theorem requestSpec_replace {existing : List NodePairingPendingRequest}
    {pendingById : Keyed NodePairingPendingRequest (·.requestId)}
    (hexisting : ∀ pending ∈ existing, pending ∈ (file.load nowMs).pendingById.entries ∧
      pending.nodeId = trim req.nodeId)
    (hpending : ∀ pending ∈ pendingById.entries, pending ∈ (file.load nowMs).pendingById.entries) :
    RequestSpec locale file nowMs newId req
      (buildPendingNodePairingRequest newId
        (mergeNodePairingReplacementInput existing { req with nodeId := trim req.nodeId }) nowMs)
      { file.load nowMs with
        pendingById := pendingById.set (buildPendingNodePairingRequest newId
          (mergeNodePairingReplacementInput existing { req with nodeId := trim req.nodeId })
            nowMs) } where
  nodeId := rfl
  caps := by
    intro caps hcaps
    show ((req.surface.caps <|> existing.head?.bind _).map _) = _
    rw [hcaps]
    rfl
  commands := by
    intro commands hcommands
    show ((req.surface.commands <|> existing.head?.bind _).map _) = _
    rw [hcommands]
    rfl
  permissions := by
    show (req.surface.permissions <|> existing.head?.bind (·.surface.permissions)) = _ ∨ _ ∧ ∃ pending ∈
      _, _ ∧ (req.surface.permissions <|> existing.head?.bind (·.surface.permissions)) = _
    cases hpermissions : req.surface.permissions with
    | some permissions => exact Or.inl rfl
    | none =>
      cases hhead : existing.head? with
      | none => exact Or.inl rfl
      | some latest =>
        obtain ⟨hmem, hnode⟩ := hexisting latest (mem_of_head? hhead)
        exact Or.inr ⟨rfl, latest, hmem, hnode, rfl⟩
  trimmed := by
    intro _
    constructor
    · show (Option.map _ (Option.map _ _)) = Option.map _ _
      rw [Option.map_map]
      exact congrArg (Option.map · _) (funext normalizeTrimmedStringList_idem)
    · show (Option.map _ (Option.map _ _)) = Option.map _ _
      rw [Option.map_map]
      exact congrArg (Option.map · _) (funext normalizeTrimmedStringList_idem)
  asked := Or.inl rfl
  pending := by
    intro other hother
    rcases Keyed.mem_set.mp hother with rfl | ⟨hmem, hne⟩
    · exact Or.inl rfl
    · exact Or.inr ⟨mem_load (hpending other hmem), hne⟩
  paired := rfl

theorem requestNodePairing_spec
    (h : requestNodePairing locale file nowMs newId req = .ok (result, state)) :
    RequestSpec locale file nowMs newId req result.request state := by
  unfold requestNodePairing at h
  dsimp only at h
  by_cases hnode : trim req.nodeId = []
  · rw [if_pos hnode] at h
    cases h
  · rw [if_neg hnode] at h
    have hexisting : ∀ pending ∈ ((file.load nowMs).pendingById.entries.filter
        (·.nodeId = trim req.nodeId)).insertionSort (fun left right => right.ts ≤ left.ts),
        pending ∈ (file.load nowMs).pendingById.entries ∧ pending.nodeId = trim req.nodeId := by
      intro pending hmem
      obtain ⟨hmem, hnode⟩ := mem_filter.mp ((mem_insertionSort _).mp hmem)
      exact ⟨hmem, of_decide_eq_true hnode⟩
    revert h hexisting
    generalize ((file.load nowMs).pendingById.entries.filter
      (·.nodeId = trim req.nodeId)).insertionSort (fun left right => right.ts ≤ left.ts) = existing
    intro h hexisting
    cases h
    unfold reconcilePendingPairingRequests
    split
    · next only =>
      obtain ⟨honly, hnodeId⟩ := hexisting only (mem_singleton_self only)
      split
      · next hsame => exact requestSpec_refresh honly hnodeId hsame
      · exact requestSpec_replace hexisting fun _ => mem_of_mem_filter
    · exact requestSpec_replace hexisting fun _ => mem_foldl_erase _ _

end

end OpenClaw
