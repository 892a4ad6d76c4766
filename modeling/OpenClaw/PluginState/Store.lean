import OpenClaw.Lib.Keyed
import OpenClaw.Text.Basic
import Mathlib.Data.List.Lex
import Mathlib.Data.List.Sort
import Mathlib.Data.PNat.Defs

/-!
# The plugin state store

`plugin-state-store.sqlite.ts`. The table is the list of its rows, which the primary key tells
apart; each statement is a function of it.
-/

namespace OpenClaw

/-- The primary key. -/
structure PluginStateKey where
  pluginId : Str
  ns : Str
  entryKey : Str
deriving DecidableEq

structure PluginStateRow where
  id : PluginStateKey
  valueJson : Str
  createdAt : ℕ
  expiresAt : Option ℕ
deriving DecidableEq

abbrev PluginStateTable := Keyed PluginStateRow PluginStateRow.id

/-- `expires_at IS NULL OR expires_at > now` -/
def notExpired (now : ℕ) (expiresAt : Option ℕ) : Bool :=
  match expiresAt with
  | none => true
  | some expiresAt => now < expiresAt

def PluginStateRow.live (now : ℕ) (row : PluginStateRow) : Bool := notExpired now row.expiresAt

def PluginStateRow.inNamespace (pluginId ns : Str) (row : PluginStateRow) : Bool :=
  row.id.pluginId = pluginId && row.id.ns = ns

/-- `ORDER BY created_at ASC, entry_key ASC`, where texts compare by code points. -/
def PluginStateRow.before (row row' : PluginStateRow) : Prop :=
  row.createdAt < row'.createdAt ∨ (row.createdAt = row'.createdAt ∧
    row.id.entryKey.map Char.toNat ≤ row'.id.entryKey.map Char.toNat)

instance : DecidableRel PluginStateRow.before := fun _ _ => inferInstanceAs (Decidable (_ ∨ _))

/-! ## Statements -/

namespace PluginStateTable

variable (table : PluginStateTable)

def upsertEntry (row : PluginStateRow) : PluginStateTable := table.set row

/-- With the count of the changes. -/
def insertEntryIfAbsent (row : PluginStateRow) : PluginStateTable × ℕ :=
  match table.find row.id with
  | some _ => (table, 0)
  | none => (table.set row, 1)

def selectEntry (id : PluginStateKey) (now : ℕ) : Option PluginStateRow :=
  (table.find id).filter (PluginStateRow.live now)

def selectEntries (pluginId ns : Str) (now : ℕ) : List PluginStateRow :=
  (table.entries.filter fun row => row.inNamespace pluginId ns && row.live now).insertionSort
    PluginStateRow.before

def deleteEntry (id : PluginStateKey) : PluginStateTable × ℕ :=
  (table.erase id, table.entries.countP fun row => row.id = id)

def clearNamespace (pluginId ns : Str) : PluginStateTable :=
  table.filter fun row => !row.inNamespace pluginId ns

def pruneExpiredNamespace (pluginId ns : Str) (now : ℕ) : PluginStateTable :=
  table.filter fun row => !(row.inNamespace pluginId ns && !row.live now)

def countLiveNamespace (pluginId ns : Str) (now : ℕ) : ℕ :=
  table.entries.countP fun row => row.inNamespace pluginId ns && row.live now

def countLivePlugin (pluginId : Str) (now : ℕ) : ℕ :=
  table.entries.countP fun row => row.id.pluginId = pluginId && row.live now

/-- What the inner `SELECT` of `deleteOldestNamespace` selects. -/
def selectOldestNamespace (pluginId ns protectedKey : Str) (now limit : ℕ) : List PluginStateRow :=
  ((table.entries.filter fun row => row.inNamespace pluginId ns &&
    (row.id.entryKey ≠ protectedKey && row.live now)).insertionSort
      PluginStateRow.before).take limit

def deleteOldestNamespace (pluginId ns protectedKey : Str) (now limit : ℕ) : PluginStateTable :=
  table.filter fun row => row ∉ table.selectOldestNamespace pluginId ns protectedKey now limit

def sweepExpired (now : ℕ) : PluginStateTable × ℕ :=
  (table.filter (PluginStateRow.live now), table.entries.countP fun row => !row.live now)

end PluginStateTable

/-! ## Operations -/

inductive PluginStateStoreErrorCode where
  | corrupt | limitExceeded
deriving DecidableEq

inductive PluginStateStoreOperation where
  | register | lookup | consume | entries
deriving DecidableEq

structure PluginStateStoreError where
  code : PluginStateStoreErrorCode
  operation : PluginStateStoreOperation
  message : Str
deriving DecidableEq

/-- `MAX_ENTRIES_PER_PLUGIN` -/
def maxEntriesPerPlugin : ℕ := 1000

def pluginLimitExceeded (pluginId : Str) : PluginStateStoreError :=
  { code := .limitExceeded
    operation := .register
    message := "Plugin state for ".toList ++ pluginId ++ " exceeds the 1000 live row limit.".toList }

section

variable {Value α : Type*}

/-- `parse` is `JSON.parse`, which may throw. -/
def parseStoredJson (parse : Str → Option Value) (raw : Str)
    (operation : PluginStateStoreOperation) : Except PluginStateStoreError Value :=
  match parse raw with
  | some value => .ok value
  | none => .error
    { code := .corrupt
      operation := operation
      message := "Plugin state entry contains corrupt JSON.".toList }

/-- A transaction is rolled back where `write` throws. -/
def runWriteTransaction (write : PluginStateTable → Except PluginStateStoreError
    (PluginStateTable × α)) (table : PluginStateTable) :
    PluginStateTable × Except PluginStateStoreError α :=
  match write table with
  | .ok (table', result) => (table', .ok result)
  | .error error => (table, .error error)

def enforceNamespaceLimit (table : PluginStateTable) (id : PluginStateKey) (maxEntries : ℕ+)
    (now : ℕ) : PluginStateTable :=
  let namespaceCount := table.countLiveNamespace id.pluginId id.ns now
  if namespaceCount > maxEntries then
    table.deleteOldestNamespace id.pluginId id.ns id.entryKey now (namespaceCount - maxEntries)
  else table

def enforcePostRegisterLimits (table : PluginStateTable) (id : PluginStateKey) (maxEntries : ℕ+)
    (now : ℕ) : Except PluginStateStoreError PluginStateTable :=
  let table := enforceNamespaceLimit table id maxEntries now
  if table.countLivePlugin id.pluginId now > maxEntriesPerPlugin then
    .error (pluginLimitExceeded id.pluginId)
  else .ok table

/-- The row that a registration writes. -/
def registeredRow (id : PluginStateKey) (valueJson : Str) (ttlMs : Option ℕ+) (now : ℕ) :
    PluginStateRow :=
  ⟨id, valueJson, now, ttlMs.map fun ttlMs => now + ttlMs⟩

/-- The stores that are handed out have checked that `maxEntries` and `ttlMs` are positive whole
numbers. -/
def pluginStateRegister (id : PluginStateKey) (valueJson : Str) (maxEntries : ℕ+)
    (ttlMs : Option ℕ+) (now : ℕ) : PluginStateTable →
    PluginStateTable × Except PluginStateStoreError Unit :=
  runWriteTransaction fun table => do
    let table := table.pruneExpiredNamespace id.pluginId id.ns now
    let table := table.upsertEntry (registeredRow id valueJson ttlMs now)
    let table ← enforcePostRegisterLimits table id maxEntries now
    return (table, ())

def pluginStateRegisterIfAbsent (id : PluginStateKey) (valueJson : Str) (maxEntries : ℕ+)
    (ttlMs : Option ℕ+) (now : ℕ) : PluginStateTable →
    PluginStateTable × Except PluginStateStoreError Bool :=
  runWriteTransaction fun table => do
    let table := table.pruneExpiredNamespace id.pluginId id.ns now
    let (table, changes) := table.insertEntryIfAbsent (registeredRow id valueJson ttlMs now)
    if changes = 0 then return (table, false)
    let table ← enforcePostRegisterLimits table id maxEntries now
    return (table, true)

variable (parse : Str → Option Value)

def pluginStateLookup (id : PluginStateKey) (now : ℕ) (table : PluginStateTable) :
    Except PluginStateStoreError (Option Value) :=
  match table.selectEntry id now with
  | some row => (parseStoredJson parse row.valueJson .lookup).map some
  | none => .ok none

def pluginStateConsume (id : PluginStateKey) (now : ℕ) : PluginStateTable →
    PluginStateTable × Except PluginStateStoreError (Option Value) :=
  runWriteTransaction fun table =>
    match table.selectEntry id now with
    | none => .ok (table, none)
    | some row => do
      let (table, _) := table.deleteEntry id
      let value ← parseStoredJson parse row.valueJson .consume
      return (table, some value)

def pluginStateDelete (id : PluginStateKey) (table : PluginStateTable) : PluginStateTable × Bool :=
  let (table, changes) := table.deleteEntry id
  (table, 0 < changes)

structure PluginStateEntry (Value : Type*) where
  key : Str
  value : Value
  createdAt : ℕ
  expiresAt : Option ℕ

def rowToEntry (row : PluginStateRow) : Except PluginStateStoreError (PluginStateEntry Value) :=
  (parseStoredJson parse row.valueJson .entries).map fun value =>
    ⟨row.id.entryKey, value, row.createdAt, row.expiresAt⟩

def pluginStateEntries (pluginId ns : Str) (now : ℕ) (table : PluginStateTable) :
    Except PluginStateStoreError (List (PluginStateEntry Value)) :=
  (table.selectEntries pluginId ns now).mapM (rowToEntry parse)

def pluginStateClear (pluginId ns : Str) (table : PluginStateTable) : PluginStateTable :=
  table.clearNamespace pluginId ns

def sweepExpiredPluginStateEntries (now : ℕ) (table : PluginStateTable) : PluginStateTable × ℕ :=
  table.sweepExpired now

end

end OpenClaw
