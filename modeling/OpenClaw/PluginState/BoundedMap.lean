import OpenClaw.Lib.Run
import OpenClaw.PluginState.Limits

/-!
# The store is a bounded map with expiry

What a lookup finds is what was registered last and has neither expired nor been deleted, consumed
or evicted. Only a registration evicts, and only the oldest entries of its namespace.
-/

namespace OpenClaw

open PluginStateTable Option PluginStateRow Keyed

variable {Value : Type*} {parse : Str → Option Value} {table table' : PluginStateTable}
  {id key : PluginStateKey} {row row' : PluginStateRow} {now now' : ℕ} {maxEntries : ℕ+}
  {valueJson : Str} {ttlMs : Option ℕ+}

/-! ## Calls -/

inductive PluginStateCall where
  | register (id : PluginStateKey) (valueJson : Str) (maxEntries : ℕ+) (ttlMs : Option ℕ+)
  | registerIfAbsent (id : PluginStateKey) (valueJson : Str) (maxEntries : ℕ+) (ttlMs : Option ℕ+)
  | lookup (id : PluginStateKey)
  | consume (id : PluginStateKey)
  | delete (id : PluginStateKey)
  | entries (pluginId ns : Str)
  | clear (pluginId ns : Str)
  | sweep
deriving DecidableEq

inductive PluginStateResult (Value : Type*) where
  | done
  | inserted (inserted : Bool)
  | value (value : Option Value)
  | deleted (deleted : Bool)
  | entries (entries : List (PluginStateEntry Value))
  | swept (count : ℕ)

namespace PluginStateCall

variable (parse table now)

def perform :
    PluginStateCall → PluginStateTable × Except PluginStateStoreError (PluginStateResult Value)
  | register id valueJson maxEntries ttlMs =>
    let (table, result) := pluginStateRegister id valueJson maxEntries ttlMs now table
    (table, result.map fun _ => .done)
  | registerIfAbsent id valueJson maxEntries ttlMs =>
    let (table, result) := pluginStateRegisterIfAbsent id valueJson maxEntries ttlMs now table
    (table, result.map .inserted)
  | lookup id => (table, (pluginStateLookup parse id now table).map .value)
  | consume id =>
    let (table, result) := pluginStateConsume parse id now table
    (table, result.map .value)
  | delete id =>
    let (table, deleted) := pluginStateDelete id table
    (table, .ok (.deleted deleted))
  | entries pluginId ns => (table, (pluginStateEntries parse pluginId ns now table).map .entries)
  | clear pluginId ns => (pluginStateClear pluginId ns table, .ok .done)
  | sweep =>
    let (table, count) := sweepExpiredPluginStateEntries now table
    (table, .ok (.swept count))

variable {parse table now}

/-- The call is for the namespace. -/
def Concerns (pluginId ns : Str) : PluginStateCall → Prop
  | register id _ _ _ | registerIfAbsent id _ _ _ | lookup id | consume id | delete id =>
    id.pluginId = pluginId ∧ id.ns = ns
  | entries pluginId' ns' | clear pluginId' ns' => pluginId' = pluginId ∧ ns' = ns
  | sweep => False

/-- The entry that the call registered, with the limit of its namespace. -/
def registration? (now : ℕ) (result : Except PluginStateStoreError (PluginStateResult Value)) :
    PluginStateCall → Option (PluginStateRow × ℕ+)
  | register id valueJson maxEntries ttlMs =>
    match result with
    | .ok _ => some (registeredRow id valueJson ttlMs now, maxEntries)
    | .error _ => none
  | registerIfAbsent id valueJson maxEntries ttlMs =>
    match result with
    | .ok (.inserted true) => some (registeredRow id valueJson ttlMs now, maxEntries)
    | _ => none
  | _ => none

/-- The call removes the entry. -/
def Removes (key : PluginStateKey) (result : Except PluginStateStoreError (PluginStateResult Value)) :
    PluginStateCall → Prop
  | consume id => id = key ∧ result.isOk = true
  | delete id => id = key
  | clear pluginId ns => key.pluginId = pluginId ∧ key.ns = ns
  | _ => False

instance (key : PluginStateKey)
    (result : Except PluginStateStoreError (PluginStateResult Value)) (call : PluginStateCall) :
    Decidable (call.Removes key result) := by
  cases call <;> unfold Removes <;> infer_instance

end PluginStateCall

/-! ## What was registered last -/

structure RegisteredValue where
  valueJson : Str
  expiresAt : Option ℕ
deriving DecidableEq

def PluginStateRow.registered (row : PluginStateRow) : RegisteredValue :=
  ⟨row.valueJson, row.expiresAt⟩

/-- The live entry is gone. -/
def evictedAt (table table' : PluginStateTable) (now : ℕ) (key : PluginStateKey) : Bool :=
  (table.selectEntry key now).isSome && (table'.selectEntry key now).isNone

/-- The database with the clock, and for each key what was registered last, unless it was
deleted, consumed or evicted since. -/
structure PluginStateWorld where
  table : PluginStateTable
  clock : ℕ
  registered : PluginStateKey → Option RegisteredValue

def PluginStateWorld.initial (clock : ℕ) : PluginStateWorld := ⟨Keyed.empty, clock, fun _ => none⟩

variable (parse)

def PluginStateWorld.after (world : PluginStateWorld)
    (call : PluginStateCall) (now : ℕ) : PluginStateWorld :=
  let result := call.perform parse world.table now
  { table := result.1
    clock := now
    registered := fun key =>
      match call.registration? now result.2 with
      | some (row, _) =>
        if key = row.id then some row.registered
        else if evictedAt world.table result.1 now key then none
        else world.registered key
      | none => if call.Removes key result.2 then none else world.registered key }

/-- A call at a time that is not before the last one. -/
def PluginStateStep (world : PluginStateWorld)
    (label : PluginStateCall × ℕ) (world' : PluginStateWorld) : Prop :=
  world.clock ≤ label.2 ∧ world' = world.after parse label.1 label.2

variable {parse}

/-! ## The property -/

/-- What a registration that succeeds does to the live entries. -/
structure RegistrationLaw (table table' : PluginStateTable) (row : PluginStateRow)
    (maxEntries : ℕ+) (now : ℕ) : Prop where
  own : table'.selectEntry row.id now = some row
  namespaceBound : table'.countLiveNamespace row.id.pluginId row.id.ns now ≤ maxEntries
  pluginBound : table'.countLivePlugin row.id.pluginId now ≤ maxEntriesPerPlugin
  /-- Another live entry stays as it is, or its namespace is full and no other entry that stays
  in it is older. -/
  others : ∀ key other, key ≠ row.id → table.selectEntry key now = some other →
    table'.selectEntry key now = some other ∨
      (table'.selectEntry key now = none ∧ key.pluginId = row.id.pluginId ∧
        key.ns = row.id.ns ∧
        table'.countLiveNamespace row.id.pluginId row.id.ns now = maxEntries ∧
        ∀ key' other', key' ≠ row.id → key'.pluginId = row.id.pluginId → key'.ns = row.id.ns →
          table'.selectEntry key' now = some other' → other.createdAt ≤ other'.createdAt)
  /-- No entry comes to life. -/
  fresh : ∀ key, key ≠ row.id → table.selectEntry key now = none →
    table'.selectEntry key now = none

structure BoundedMap (parse : Str → Option Value) (world : PluginStateWorld) : Prop where
  /-- A lookup returns the value that was registered last and has not expired. -/
  lookup : ∀ key now, world.clock ≤ now → ((PluginStateCall.lookup key).perform parse world.table now).2 =
    match (world.registered key).filter fun value => notExpired now value.expiresAt with
    | some value => (parseStoredJson parse value.valueJson .lookup).map fun value =>
        .value (some value)
    | none => .ok (.value none)
  registration : ∀ (call : PluginStateCall) now row maxEntries, world.clock ≤ now →
    PluginStateCall.registration? now (call.perform parse world.table now).2 call =
      some (row, maxEntries) →
    RegistrationLaw world.table (call.perform parse world.table now).1 row maxEntries now
  throws : ∀ (call : PluginStateCall) now error, (call.perform parse world.table now).2 = .error error →
    (call.perform parse world.table now).1 = world.table
  otherNamespaces : ∀ (call : PluginStateCall) now now' (key : PluginStateKey), now ≤ now' →
    ¬call.Concerns key.pluginId key.ns →
      (call.perform parse world.table now).1.selectEntry key now' =
        world.table.selectEntry key now'

/-! ## Reading the table -/

theorem notExpired_mono {expiresAt : Option ℕ} (hle : now ≤ now')
    (h : notExpired now' expiresAt = true) : notExpired now expiresAt = true := by
  cases expiresAt with
  | none => rfl
  | some expiresAt => exact decide_eq_true (hle.trans_lt (of_decide_eq_true h))

theorem selectEntry_eq_some_iff : table.selectEntry key now = some row ↔
    table.find key = some row ∧ row.live now = true := filter_eq_some_iff

/-- What is live later is what is live now and has not expired until then. -/
theorem selectEntry_of_le (hle : now ≤ now') (table : PluginStateTable) (key : PluginStateKey) :
    table.selectEntry key now' =
      (table.selectEntry key now).filter (PluginStateRow.live now') := by
  ext row
  rw [selectEntry_eq_some_iff, filter_eq_some_iff, selectEntry_eq_some_iff]
  constructor
  · rintro ⟨hrow, hlive⟩
    exact ⟨⟨hrow, notExpired_mono hle hlive⟩, hlive⟩
  · rintro ⟨⟨hrow, _⟩, hlive⟩
    exact ⟨hrow, hlive⟩

variable (table)

theorem selectEntry_filter (p : PluginStateRow → Bool)
    (key : PluginStateKey) (now : ℕ) : PluginStateTable.selectEntry (table.filter p) key now =
      (table.selectEntry key now).filter p := by
  ext row
  rw [selectEntry_eq_some_iff, filter_eq_some_iff, selectEntry_eq_some_iff,
    find_filter, filter_eq_some_iff]
  tauto

theorem selectEntry_pruneExpiredNamespace (pluginId ns : Str) (key : PluginStateKey) (now : ℕ) :
    (table.pruneExpiredNamespace pluginId ns now).selectEntry key now =
      table.selectEntry key now := by
  rw [pruneExpiredNamespace, selectEntry_filter]
  cases hrow : table.selectEntry key now with
  | none => rfl
  | some row =>
    rw [filter_some, (selectEntry_eq_some_iff.mp hrow).2]
    simp

variable {table}

/-! ## Registrations -/

/-- The table before the limits are looked at. -/
def beforeLimits (table : PluginStateTable) (row : PluginStateRow) (now : ℕ) : PluginStateTable :=
  (table.pruneExpiredNamespace row.id.pluginId row.id.ns now).upsertEntry row

theorem runWriteTransaction_bind {α : Type} (limits : Except PluginStateStoreError PluginStateTable)
    (result : α) (table : PluginStateTable) :
    runWriteTransaction (fun _ => do let table ← limits; return (table, result)) table =
      match limits with
      | .ok table' => (table', .ok result)
      | .error error => (table, .error error) := by
  cases limits <;> rfl

variable (id valueJson)

theorem pluginStateRegister_eq (maxEntries : ℕ+)
    (ttlMs : Option ℕ+) (now : ℕ) (table : PluginStateTable) :
    pluginStateRegister id valueJson maxEntries ttlMs now table = match enforcePostRegisterLimits
          (beforeLimits table (registeredRow id valueJson ttlMs now) now) id maxEntries now with
      | .ok table' => (table', .ok ())
      | .error error => (table, .error error) :=
  runWriteTransaction_bind _ () table

theorem pluginStateRegisterIfAbsent_eq (maxEntries : ℕ+)
    (ttlMs : Option ℕ+) (now : ℕ) (table : PluginStateTable) :
    pluginStateRegisterIfAbsent id valueJson maxEntries ttlMs now table =
      if ((table.pruneExpiredNamespace id.pluginId id.ns now).find id).isSome then
        (table.pruneExpiredNamespace id.pluginId id.ns now, .ok false)
      else
        match enforcePostRegisterLimits
            (beforeLimits table (registeredRow id valueJson ttlMs now) now) id maxEntries now with
        | .ok table' => (table', .ok true)
        | .error error => (table, .error error) := by
  rw [← runWriteTransaction_bind _ true table]
  unfold pluginStateRegisterIfAbsent insertEntryIfAbsent
  show runWriteTransaction _ table = _
  cases hrow : (table.pruneExpiredNamespace id.pluginId id.ns now).find id with
  | some row =>
    rw [isSome_some, if_pos rfl]
    unfold runWriteTransaction
    dsimp only
    rw [show (registeredRow id valueJson ttlMs now).id = id from rfl, hrow]
    rfl
  | none =>
    unfold runWriteTransaction
    dsimp only
    rw [show (registeredRow id valueJson ttlMs now).id = id from rfl, hrow]
    rfl

variable {id valueJson}

variable (parse id now)

theorem pluginStateConsume_eq (table : PluginStateTable) : pluginStateConsume parse id now table =
      match table.selectEntry id now with
      | none => (table, .ok none)
      | some row =>
        match parseStoredJson parse row.valueJson .consume with
        | .ok value => (table.erase id, .ok (some value))
        | .error error => (table, .error error) := by
  unfold pluginStateConsume runWriteTransaction
  dsimp only
  cases table.selectEntry id now with
  | none => rfl
  | some row =>
    dsimp only
    cases parseStoredJson parse row.valueJson .consume <;> rfl

variable {parse id now}

/-- A registration within the limit of its plugin obeys the law. -/
theorem registrationLaw_of_limits (hlive : row.live now = true)
    (h : enforcePostRegisterLimits (beforeLimits table row now) row.id maxEntries now =
      .ok table') : RegistrationLaw table table' row maxEntries now := by
  unfold enforcePostRegisterLimits at h
  dsimp only at h
  split_ifs at h with hplugin
  cases h
  set before := beforeLimits table row now with hbefore
  have hown : before.find row.id = some row := find_set_self _ row
  have hothers : ∀ key, key ≠ row.id → before.selectEntry key now =
      table.selectEntry key now := by
    intro key hne
    rw [← selectEntry_pruneExpiredNamespace table row.id.pluginId row.id.ns key now]
    show ((Keyed.set _ row).find key).filter _ = _
    rw [find_set_of_ne _ hne]
    rfl
  have hlimit := limitedNamespace_enforce hown hlive maxEntries
  refine ⟨?_, hlimit.bound, Nat.le_of_not_lt hplugin, ?_, ?_⟩
  · exact selectEntry_eq_some_iff.mpr ⟨hlimit.own.trans hown, hlive⟩
  · intro key other hne hother
    rw [← hothers key hne] at hother
    obtain ⟨hfind, hotherLive⟩ := selectEntry_eq_some_iff.mp hother
    cases hkey : (enforceNamespaceLimit before row.id maxEntries now).find key with
    | some same =>
      have hsame := hlimit.kept key same hkey
      rw [hfind] at hsame
      cases hsame
      exact .inl (selectEntry_eq_some_iff.mpr ⟨hkey, hotherLive⟩)
    | none =>
      obtain ⟨hns, _, hcount, holdest⟩ := hlimit.evicted key other hfind hkey
      obtain ⟨hpluginId, hnamespace⟩ := inNamespace_iff.mp hns
      rw [key_of_find hfind] at hpluginId hnamespace
      refine .inr ⟨?_, hpluginId, hnamespace, hcount, ?_⟩
      · rw [selectEntry, hkey]
        rfl
      · intro key' other' hne' hplugin' hnamespace' hother'
        obtain ⟨hfind', hlive'⟩ := selectEntry_eq_some_iff.mp hother'
        have hid' : other'.id = key' := key_of_find hfind'
        exact holdest key' other' hne' hfind' (inNamespace_iff.mpr
          ⟨hid' ▸ hplugin', hid' ▸ hnamespace'⟩) hlive'
  · intro key hne hnone
    rw [← hothers key hne] at hnone
    cases hkey : (enforceNamespaceLimit before row.id maxEntries now).selectEntry key now with
    | none => rfl
    | some other =>
      obtain ⟨hfind, hotherLive⟩ := selectEntry_eq_some_iff.mp hkey
      rw [selectEntry_eq_some_iff.mpr ⟨hlimit.kept key other hfind, hotherLive⟩] at hnone
      cases hnone

theorem live_registeredRow (id : PluginStateKey) (valueJson : Str) (ttlMs : Option ℕ+) (now : ℕ) :
    (registeredRow id valueJson ttlMs now).live now = true := by
  cases ttlMs with
  | none => rfl
  | some ttlMs => exact decide_eq_true (Nat.lt_add_of_pos_right ttlMs.pos)

namespace PluginStateCall

variable {call : PluginStateCall}

theorem registrationLaw (h : call.registration? now
    (call.perform parse table now).2 = some (row, maxEntries)) :
    RegistrationLaw table (call.perform parse table now).1 row maxEntries now := by
  cases call with
  | register id valueJson maxEntries' ttlMs =>
    rw [perform, pluginStateRegister_eq] at h ⊢
    cases hlimits : enforcePostRegisterLimits
        (beforeLimits table (registeredRow id valueJson ttlMs now) now) id maxEntries' now with
    | error error =>
      rw [hlimits] at h
      cases h
    | ok table' =>
      rw [hlimits] at h
      cases h
      exact registrationLaw_of_limits (live_registeredRow ..) hlimits
  | registerIfAbsent id valueJson maxEntries' ttlMs =>
    rw [perform, pluginStateRegisterIfAbsent_eq] at h ⊢
    split_ifs at h ⊢ with hfind
    · cases h
    · cases hlimits : enforcePostRegisterLimits
          (beforeLimits table (registeredRow id valueJson ttlMs now) now) id maxEntries' now with
      | error error =>
        rw [hlimits] at h
        cases h
      | ok table' =>
        rw [hlimits] at h
        cases h
        exact registrationLaw_of_limits (live_registeredRow ..) hlimits
  | _ => cases h

theorem perform_fst_of_error {error : PluginStateStoreError}
    (h : (call.perform parse table now).2 = .error error) :
    (call.perform parse table now).1 = table := by
  cases call with
  | register id valueJson maxEntries ttlMs =>
    rw [perform, pluginStateRegister_eq] at h ⊢
    cases hlimits : enforcePostRegisterLimits
        (beforeLimits table (registeredRow id valueJson ttlMs now) now) id maxEntries now with
    | error error => rfl
    | ok table' =>
      rw [hlimits] at h
      cases h
  | registerIfAbsent id valueJson maxEntries ttlMs =>
    rw [perform, pluginStateRegisterIfAbsent_eq] at h ⊢
    split_ifs at h ⊢
    · cases h
    · cases hlimits : enforcePostRegisterLimits
          (beforeLimits table (registeredRow id valueJson ttlMs now) now) id maxEntries now with
      | error error => rfl
      | ok table' =>
        rw [hlimits] at h
        cases h
  | consume id =>
    rw [perform, pluginStateConsume_eq] at h ⊢
    cases hrow : table.selectEntry id now with
    | none => rfl
    | some row =>
      cases hvalue : parseStoredJson parse row.valueJson .consume with
      | error error =>
        dsimp only
        rw [hvalue]
      | ok value =>
        simp only [hrow, hvalue] at h
        cases h
  | lookup id => rfl
  | entries pluginId ns => rfl
  | delete id => cases h
  | clear pluginId ns => cases h
  | sweep => cases h

theorem selectEntry_erase (table : PluginStateTable) (id key : PluginStateKey) (now : ℕ) :
    PluginStateTable.selectEntry (table.erase id) key now =
      if id = key then none else table.selectEntry key now := by
  rw [selectEntry, find_erase]
  by_cases hid : id = key
  · rw [if_pos hid, if_pos hid.symm]
    rfl
  · rw [if_neg hid, if_neg (Ne.symm hid)]
    rfl

/-- A call that registers nothing only removes. -/
theorem selectEntry_perform (h : call.registration? now (call.perform parse table now).2 = none)
    (key : PluginStateKey) : (call.perform parse table now).1.selectEntry key now =
      if call.Removes key (call.perform parse table now).2 then none
      else table.selectEntry key now := by
  cases call with
  | register id valueJson maxEntries ttlMs =>
    rw [perform, pluginStateRegister_eq] at h ⊢
    cases hlimits : enforcePostRegisterLimits
        (beforeLimits table (registeredRow id valueJson ttlMs now) now) id maxEntries now with
    | error error => rfl
    | ok table' =>
      rw [hlimits] at h
      cases h
  | registerIfAbsent id valueJson maxEntries ttlMs =>
    rw [perform, pluginStateRegisterIfAbsent_eq] at h ⊢
    by_cases hfind : ((table.pruneExpiredNamespace id.pluginId id.ns now).find id).isSome = true
    · rw [if_pos hfind, if_neg (show ¬Removes _ _ (registerIfAbsent ..) from not_false)]
      exact selectEntry_pruneExpiredNamespace table id.pluginId id.ns key now
    · rw [if_neg hfind] at h ⊢
      cases hlimits : enforcePostRegisterLimits
          (beforeLimits table (registeredRow id valueJson ttlMs now) now) id maxEntries now with
      | error error => rfl
      | ok table' =>
        rw [hlimits] at h
        cases h
  | consume id =>
    cases hrow : table.selectEntry id now with
    | none =>
      have hperform : (consume id).perform parse table now = (table, .ok (.value none)) := by
        rw [perform, pluginStateConsume_eq, hrow]
        rfl
      rw [hperform]
      by_cases hid : id = key
      · subst hid
        rw [if_pos ⟨rfl, rfl⟩]
        exact hrow
      · rw [if_neg fun hremoves => hid hremoves.1]
    | some row =>
      cases hvalue : parseStoredJson parse row.valueJson .consume with
      | error error =>
        have hperform : (consume id).perform parse table now = (table, .error error) := by
          rw [perform, pluginStateConsume_eq, hrow]
          dsimp only
          rw [hvalue]
          rfl
        rw [hperform]
        exact (if_neg fun hremoves => nomatch hremoves.2).symm
      | ok value =>
        have hperform : (consume id).perform parse table now =
            (table.erase id, .ok (.value (some value))) := by
          rw [perform, pluginStateConsume_eq, hrow]
          dsimp only
          rw [hvalue]
          rfl
        rw [hperform, selectEntry_erase]
        apply if_congr _ rfl rfl
        exact ⟨fun hid => ⟨hid, rfl⟩, fun hremoves => hremoves.1⟩
  | delete id => exact selectEntry_erase table id key now
  | clear pluginId ns =>
    show PluginStateTable.selectEntry (table.filter _) key now = _
    rw [selectEntry_filter]
    cases hrow : table.selectEntry key now with
    | none =>
      split_ifs <;> rfl
    | some row =>
      have hid : row.id = key := key_of_find (selectEntry_eq_some_iff.mp hrow).1
      rw [filter_some]
      by_cases hns : row.inNamespace pluginId ns = true
      · have hremoves : key.pluginId = pluginId ∧ key.ns = ns :=
          hid ▸ inNamespace_iff.mp hns
        rw [hns, if_pos (show Removes _ _ (clear pluginId ns) from hremoves)]
        rfl
      · have hremoves : ¬(key.pluginId = pluginId ∧ key.ns = ns) := fun hremoves =>
          hns (inNamespace_iff.mpr (hid ▸ hremoves))
        rw [Bool.eq_false_iff.mpr hns, if_neg (show ¬Removes _ _ (clear pluginId ns) from hremoves)]
        rfl
  | sweep =>
    show PluginStateTable.selectEntry (table.filter _) key now = _
    rw [selectEntry_filter, if_neg (show ¬Removes _ _ sweep from not_false)]
    cases hrow : table.selectEntry key now with
    | none => rfl
    | some row => rw [filter_some, if_pos (selectEntry_eq_some_iff.mp hrow).2]
  | lookup id => exact (if_neg not_false).symm
  | entries pluginId ns => exact (if_neg not_false).symm

theorem concerns_of_registration? {result : Except PluginStateStoreError (PluginStateResult Value)}
    (h : call.registration? now result = some (row, maxEntries)) :
    call.Concerns row.id.pluginId row.id.ns := by
  cases call with
  | register id valueJson maxEntries' ttlMs =>
    cases result with
    | error error => cases h
    | ok result =>
      cases h
      exact ⟨rfl, rfl⟩
  | registerIfAbsent id valueJson maxEntries' ttlMs =>
    unfold registration? at h
    dsimp only at h
    split at h
    · cases h
      exact ⟨rfl, rfl⟩
    · cases h
  | _ => cases h

theorem selectEntry_of_not_concerns (h : ¬call.Concerns key.pluginId key.ns) :
    (call.perform parse table now).1.selectEntry key now = table.selectEntry key now := by
  cases hregistration : call.registration? now (call.perform parse table now).2 with
  | none =>
    rw [selectEntry_perform hregistration, if_neg]
    intro hremoves
    apply h
    cases call with
    | consume id => exact ⟨hremoves.1 ▸ rfl, hremoves.1 ▸ rfl⟩
    | delete id => exact ⟨congrArg _ hremoves, congrArg _ hremoves⟩
    | clear pluginId ns => exact ⟨hremoves.1.symm, hremoves.2.symm⟩
    | _ => cases hremoves
  | some registered =>
    obtain ⟨row, maxEntries⟩ := registered
    have hlaw := registrationLaw hregistration
    have hrow := concerns_of_registration? hregistration
    have hne : key ≠ row.id := fun heq => h (heq ▸ hrow)
    cases hselect : table.selectEntry key now with
    | none => exact hlaw.fresh key hne hselect
    | some other =>
      rcases hlaw.others key other hne hselect with hkept | ⟨_, hplugin, hns, _⟩
      · exact hkept
      · rw [hplugin, hns] at h
        exact absurd hrow h

end PluginStateCall

/-! ## Runs -/

/-- The live entries are what was registered last. -/
def TracksRegistrations (world : PluginStateWorld) : Prop :=
  ∀ key now, world.clock ≤ now → (world.table.selectEntry key now).map PluginStateRow.registered =
    (world.registered key).filter fun value => notExpired now value.expiresAt

theorem filter_registered (entry : Option PluginStateRow) (now : ℕ) :
    (entry.filter (PluginStateRow.live now)).map PluginStateRow.registered =
      (entry.map PluginStateRow.registered).filter fun value =>
        notExpired now value.expiresAt := by
  cases entry with
  | none => rfl
  | some row =>
    rw [filter_some, map_some, filter_some]
    show (if row.live now = true then some row else none).map _ =
      if row.live now = true then some row.registered else none
    split_ifs <;> rfl

theorem TracksRegistrations.after {world : PluginStateWorld} (h : TracksRegistrations world)
    (call : PluginStateCall) (hle : world.clock ≤ now) :
    TracksRegistrations (world.after parse call now) := by
  intro key now' hle'
  have hle' : now ≤ now' := hle'
  show ((call.perform parse world.table now).1.selectEntry key now').map _ = _
  rw [selectEntry_of_le hle', filter_registered]
  -- from now on, both sides only lose what expires
  have hbefore := h key now hle
  have hlater : ((world.table.selectEntry key now).map PluginStateRow.registered).filter
      (fun value => notExpired now' value.expiresAt) =
        (world.registered key).filter fun value => notExpired now' value.expiresAt := by
    rw [← filter_registered, ← selectEntry_of_le hle', h key now' (hle.trans hle')]
  unfold PluginStateWorld.after
  dsimp only
  cases hregistration : call.registration? now (call.perform parse world.table now).2 with
  | none =>
    dsimp only
    rw [PluginStateCall.selectEntry_perform hregistration]
    split_ifs
    · rfl
    · exact hlater
  | some registered =>
    obtain ⟨row, maxEntries⟩ := registered
    have hlaw := PluginStateCall.registrationLaw hregistration
    dsimp only
    split_ifs with hkey hevicted
    · rw [hkey, hlaw.own]
      rfl
    · rw [evictedAt, Bool.and_eq_true, isNone_iff_eq_none] at hevicted
      rw [hevicted.2]
      rfl
    · cases hselect : world.table.selectEntry key now with
      | none =>
        rw [hlaw.fresh key hkey hselect, ← hlater, hselect]
      | some other =>
        rcases hlaw.others key other hkey hselect with hkept | ⟨hnone, _⟩
        · rw [hkept, ← hlater, hselect]
        · rw [evictedAt, hselect, hnone] at hevicted
          exact absurd rfl hevicted

theorem boundedMap_of_tracksRegistrations {world : PluginStateWorld}
    (h : TracksRegistrations world) : BoundedMap parse world where
  lookup key now hle := by
    rw [← h key now hle]
    show (pluginStateLookup parse key now world.table).map _ = _
    unfold pluginStateLookup
    cases world.table.selectEntry key now with
    | none => rfl
    | some row =>
      show ((parseStoredJson parse row.valueJson .lookup).map some).map _ =
        (parseStoredJson parse row.valueJson .lookup).map _
      cases parseStoredJson parse row.valueJson .lookup <;> rfl
  registration call now row maxEntries _ := PluginStateCall.registrationLaw
  throws call now error := PluginStateCall.perform_fst_of_error
  otherNamespaces call now now' key hle hnot := by
    rw [selectEntry_of_le hle, PluginStateCall.selectEntry_of_not_concerns hnot,
      ← selectEntry_of_le hle]

/-- Two entries in a namespace for one, at the same time. -/
def sampleRegistration (entryKey : String) : PluginStateCall :=
  .register ⟨"p".toList, "n".toList, entryKey.toList⟩ "1".toList ⟨1, Nat.one_pos⟩ none

def sampleWorld : PluginStateWorld :=
  ((PluginStateWorld.initial 0).after some (sampleRegistration "a") 5).after some
    (sampleRegistration "b") 5

end OpenClaw
