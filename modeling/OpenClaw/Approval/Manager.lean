import OpenClaw.Approval.Binding

/-!
# The approval manager

`exec-approval-manager.ts`: approval records by id, from their registration until the end
of the grace period after they are resolved or expire. Records are objects that are
replaced when an id is registered again later, and the grace timer compares objects; every
entry therefore has a key of its own. Timers are calls that may come at any time.
-/

namespace OpenClaw

open List

inductive ExecApprovalDecision where
  | allowOnce | allowAlways | deny
deriving DecidableEq

/-- `resolvedBy` may be missing, `null` or a name. -/
structure ExecApprovalRecord where
  id : Str
  request : ExecApprovalRequestPayload
  createdAtMs : ℤ
  expiresAtMs : ℤ
  requestedByConnId : Option Str
  requestedByDeviceId : Option Str
  requestedByClientId : Option Str
  requestedByDeviceTokenAuth : Bool
  resolvedAtMs : Option ℤ
  decision : Option ExecApprovalDecision
  consumedDecision : Option ExecApprovalDecision
  resolvedBy : Option (Option Str)

/-- An entry of the map `pending`. -/
structure PendingEntry where
  key : ℕ
  record : ExecApprovalRecord

/-- The map, with its keys in the order of insertion, and the key of the next entry. -/
structure ExecApprovalManager where
  nextKey : ℕ
  pending : List PendingEntry

namespace ExecApprovalManager

def empty : ExecApprovalManager := ⟨0, []⟩

/-! ## The methods -/

/-- Who asks for the approval, as the callers of `create` note it on the record. -/
structure Requester where
  connId : Option Str
  deviceId : Option Str
  clientId : Option Str
  deviceTokenAuth : Bool
deriving DecidableEq

/-- `create`; `uuid` is the fresh id taken when none is given. -/
def create (now : ℤ) (request : ExecApprovalRequestPayload) (timeoutMs : ℤ) (id : Option Str)
    (uuid : Str) (requester : Requester) : ExecApprovalRecord where
  id := (normalizeNonEmptyString id).getD uuid
  request := request
  createdAtMs := now
  expiresAtMs := now + timeoutMs
  requestedByConnId := requester.connId
  requestedByDeviceId := requester.deviceId
  requestedByClientId := requester.clientId
  requestedByDeviceTokenAuth := requester.deviceTokenAuth
  resolvedAtMs := none
  decision := none
  consumedDecision := none
  resolvedBy := none

variable (m : ExecApprovalManager)

/-- `pending.get(id)`. -/
def entryAt (id : Str) : Option PendingEntry :=
  m.pending.find? (·.record.id = id)

/-- Assignments to the fields of the record that `pending.get(id)` holds. -/
def modifyRecord (id : Str) (f : ExecApprovalRecord → ExecApprovalRecord) : ExecApprovalManager :=
  { m with pending := m.pending.map fun entry =>
      if entry.record.id = id then { entry with record := f entry.record } else entry }

/-- `register`: the entry that stands for the record, and whether it is a new one. -/
def register (record : ExecApprovalRecord) : Except Str (PendingEntry × ExecApprovalManager) :=
  match m.entryAt record.id with
  | some existing =>
    if existing.record.resolvedAtMs = none then .ok (existing, m)
    else .error ("approval id '" ++ record.id ++ "' already resolved")
  | none =>
    let entry : PendingEntry := ⟨m.nextKey, record⟩
    .ok (entry, ⟨m.nextKey + 1, m.pending ++ [entry]⟩)

variable (recordId : Str)

variable (now : ℤ)

/-- The body that `resolve` and `expire` share; the key of the entry that was settled. -/
def settle (decision : Option ExecApprovalDecision) (resolvedBy : Option Str) :
    Option (ℕ × ExecApprovalManager) :=
  match m.entryAt recordId with
  | none => none
  | some pending =>
    if pending.record.resolvedAtMs ≠ none then none
    else some (pending.key, m.modifyRecord recordId fun record =>
      { record with resolvedAtMs := some now, decision, resolvedBy := some resolvedBy })

def resolve (decision : ExecApprovalDecision) (resolvedBy : Option Str) :
    Option (ℕ × ExecApprovalManager) :=
  m.settle recordId now (some decision) resolvedBy

def expire (resolvedBy : Option Str) : Option (ℕ × ExecApprovalManager) :=
  m.settle recordId now none resolvedBy

/-- The callback of `scheduleResolvedEntryCleanup` for the entry with this key. -/
def cleanup (key : ℕ) : ExecApprovalManager :=
  { m with pending := m.pending.filter fun entry =>
      !(entry.key == key && entry.record.resolvedAtMs.isSome) }

def getSnapshot : Option ExecApprovalRecord :=
  (m.entryAt recordId).map (·.record)

def consumeAllowOnce : Option (ℕ × ExecApprovalManager) :=
  match m.entryAt recordId with
  | none => none
  | some entry =>
    if entry.record.decision ≠ some .allowOnce then none
    else some (entry.key, m.modifyRecord recordId fun record =>
      { record with consumedDecision := record.decision, decision := none })

/-! ## Entries -/

variable {m : ExecApprovalManager}

theorem mem_of_entryAt {id : Str} {entry : PendingEntry}
    (h : m.entryAt id = some entry) : entry ∈ m.pending ∧ entry.record.id = id :=
  ⟨mem_of_find?_eq_some h, by simpa using find?_some h⟩

/-- Ids and keys of the map are those of one entry each. -/
structure WellFormed (m : ExecApprovalManager) : Prop where
  ids : (m.pending.map (·.record.id)).Nodup
  keys : (m.pending.map (·.key)).Nodup
  lt_nextKey : ∀ entry ∈ m.pending, entry.key < m.nextKey

theorem WellFormed.eq_of_id (h : m.WellFormed) {a b : PendingEntry}
    (ha : a ∈ m.pending) (hb : b ∈ m.pending) (hid : a.record.id = b.record.id) : a = b :=
  inj_on_of_nodup_map h.ids ha hb hid

theorem WellFormed.eq_of_key (h : m.WellFormed) {a b : PendingEntry}
    (ha : a ∈ m.pending) (hb : b ∈ m.pending) (hkey : a.key = b.key) : a = b :=
  inj_on_of_nodup_map h.keys ha hb hkey

/-- An assignment to a record changes the entry with its id and no other. -/
theorem mem_modifyRecord {id : Str}
    {f : ExecApprovalRecord → ExecApprovalRecord} {entry' : PendingEntry} :
    entry' ∈ (m.modifyRecord id f).pending ↔
      (entry' ∈ m.pending ∧ entry'.record.id ≠ id) ∨
      ∃ entry ∈ m.pending, entry.record.id = id ∧ entry' = { entry with record := f entry.record } := by
  simp only [modifyRecord, mem_map]
  constructor
  · rintro ⟨entry, hmem, rfl⟩
    by_cases hid : entry.record.id = id
    · exact .inr ⟨entry, hmem, hid, if_pos hid⟩
    · rw [if_neg hid]
      exact .inl ⟨hmem, hid⟩
  · rintro (⟨hmem, hid⟩ | ⟨entry, hmem, hid, rfl⟩)
    · exact ⟨entry', hmem, if_neg hid⟩
    · exact ⟨entry, hmem, if_pos hid⟩

theorem WellFormed.empty : WellFormed .empty := ⟨.nil, .nil, by simp [ExecApprovalManager.empty]⟩

theorem WellFormed.modifyRecord (h : m.WellFormed) (id : Str)
    {f : ExecApprovalRecord → ExecApprovalRecord} (hf : ∀ record, (f record).id = record.id) :
    (m.modifyRecord id f).WellFormed := by
  have hids : (m.modifyRecord id f).pending.map (·.record.id) = m.pending.map (·.record.id) := by
    simp only [ExecApprovalManager.modifyRecord, map_map]
    apply map_congr_left
    intro entry _
    by_cases hid : entry.record.id = id <;> simp [hid, hf]
  have hkeys : (m.modifyRecord id f).pending.map (·.key) = m.pending.map (·.key) := by
    simp only [ExecApprovalManager.modifyRecord, map_map]
    apply map_congr_left
    intro entry _
    by_cases hid : entry.record.id = id <;> simp [hid]
  refine ⟨hids ▸ h.ids, hkeys ▸ h.keys, fun entry hentry => ?_⟩
  have hkey : entry.key ∈ m.pending.map (·.key) := hkeys ▸ mem_map_of_mem hentry
  obtain ⟨old, hold, hold'⟩ := mem_map.mp hkey
  exact hold' ▸ h.lt_nextKey old hold

theorem WellFormed.add (h : m.WellFormed)
    {record : ExecApprovalRecord} (hnone : m.entryAt record.id = none) :
    WellFormed ⟨m.nextKey + 1, m.pending ++ [⟨m.nextKey, record⟩]⟩ := by
  have hnew : ∀ entry ∈ m.pending, entry.record.id ≠ record.id := by
    simpa [entryAt] using hnone
  refine ⟨?_, ?_, fun entry hentry => ?_⟩
  · rw [map_append, nodup_append']
    refine ⟨h.ids, by simp, ?_⟩
    simpa using fun entry hentry => hnew entry hentry
  · rw [map_append, nodup_append']
    refine ⟨h.keys, by simp, ?_⟩
    simpa using fun entry hentry => (h.lt_nextKey entry hentry).ne
  · rcases mem_append.mp hentry with hold | hlast
    · have := h.lt_nextKey entry hold
      show entry.key < m.nextKey + 1
      omega
    · obtain rfl := mem_singleton.mp hlast
      exact Nat.lt_succ_self m.nextKey

theorem WellFormed.cleanup (h : m.WellFormed) (key : ℕ) : (m.cleanup key).WellFormed :=
  ⟨h.ids.sublist (filter_sublist.map _), h.keys.sublist (filter_sublist.map _),
    fun entry hentry => h.lt_nextKey entry (mem_of_mem_filter hentry)⟩

end ExecApprovalManager

end OpenClaw
