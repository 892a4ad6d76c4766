import Mathlib.Tactic.Common
import OpenClaw.ExecApprovals.Normalize

/-!
# Normalizing twice and resolving before or after

Normalizing is idempotent but for random ids. The policy of an agent is not the same before and
after: a field with an invalid word masks the wildcard in the file as it was given and is gone
in the normalized one, and a field that the agent `main` gets from the agent `default` counts in
the normalized file only. And the merge of the two agents goes by patterns in lower case and by
entries, so that it drops a pattern that differs in case only, and bare patterns.
-/

namespace OpenClaw

open List

variable {host : Host} {file : ExecApprovalsFile} {key : Str}

/-! ## Words -/

variable (field : PolicyField)

def PolicyField.trimmedSecurity? : Option ExecSecurity :=
  field.trimmed?.bind execSecurity?

def PolicyField.trimmedAsk? : Option ExecAsk :=
  field.trimmed?.bind execAsk?

/-- How one kind of policy field is read: a sanitized field holds a word as it stands, or
nothing. -/
structure PolicyReading (Value : Type) where
  word? : PolicyField → Option Value
  trimmedWord? : PolicyField → Option Value
  sanitize : PolicyField → PolicyField
  word?_sanitize : ∀ field, word? (sanitize field) = trimmedWord? field
  isSet_sanitize : ∀ field, (sanitize field).isSet = (trimmedWord? field).isSome
  sanitize_sanitize : ∀ field, sanitize (sanitize field) = sanitize field
  trimmedWord?_unset : trimmedWord? .unset = none

theorem sanitizeSecurity_of_some {field : PolicyField} {value : ExecSecurity}
    (h : field.trimmedSecurity? = some value) : sanitizeSecurity field = .text value.text := by
  have hbind : field.trimmed?.bind execSecurity? = some value := h
  unfold sanitizeSecurity
  rw [hbind]

theorem sanitizeSecurity_of_none {field : PolicyField} (h : field.trimmedSecurity? = none) :
    sanitizeSecurity field = .unset := by
  have hbind : field.trimmed?.bind execSecurity? = none := h
  unfold sanitizeSecurity
  rw [hbind]

theorem sanitizeAsk_of_some {field : PolicyField} {value : ExecAsk}
    (h : field.trimmedAsk? = some value) : sanitizeAsk field = .text value.text := by
  have hbind : field.trimmed?.bind execAsk? = some value := h
  unfold sanitizeAsk
  rw [hbind]

theorem sanitizeAsk_of_none {field : PolicyField} (h : field.trimmedAsk? = none) :
    sanitizeAsk field = .unset := by
  have hbind : field.trimmed?.bind execAsk? = none := h
  unfold sanitizeAsk
  rw [hbind]

def securityReading : PolicyReading ExecSecurity where
  word? := PolicyField.security?
  trimmedWord? := PolicyField.trimmedSecurity?
  sanitize := sanitizeSecurity
  word?_sanitize := by
    intro field
    cases h : field.trimmedSecurity? with
    | none => rw [sanitizeSecurity_of_none h]; rfl
    | some value => rw [sanitizeSecurity_of_some h]; cases value <;> rfl
  isSet_sanitize := by
    intro field
    cases h : field.trimmedSecurity? with
    | none => rw [sanitizeSecurity_of_none h]; rfl
    | some value => rw [sanitizeSecurity_of_some h]; rfl
  sanitize_sanitize := by
    intro field
    cases h : field.trimmedSecurity? with
    | none => rw [sanitizeSecurity_of_none h]; rfl
    | some value => rw [sanitizeSecurity_of_some h]; cases value <;> rfl
  trimmedWord?_unset := rfl

def askReading : PolicyReading ExecAsk where
  word? := PolicyField.ask?
  trimmedWord? := PolicyField.trimmedAsk?
  sanitize := sanitizeAsk
  word?_sanitize := by
    intro field
    cases h : field.trimmedAsk? with
    | none => rw [sanitizeAsk_of_none h]; rfl
    | some value => rw [sanitizeAsk_of_some h]; cases value <;> rfl
  isSet_sanitize := by
    intro field
    cases h : field.trimmedAsk? with
    | none => rw [sanitizeAsk_of_none h]; rfl
    | some value => rw [sanitizeAsk_of_some h]; rfl
  sanitize_sanitize := by
    intro field
    cases h : field.trimmedAsk? with
    | none => rw [sanitizeAsk_of_none h]; rfl
    | some value => rw [sanitizeAsk_of_some h]; cases value <;> rfl
  trimmedWord?_unset := rfl

/-! ## One field, before and after -/

section Field

variable {Value : Type} (reading : PolicyReading Value) (field agentKey : Str)
  (defaults migrated raw wildcard : PolicyField) (fallback : Value)

/-- The levels when the file is resolved as it was given. -/
def levelsBefore : PolicyLevels :=
  ⟨reading.sanitize defaults, reading.sanitize migrated, raw, reading.sanitize wildcard, wildcard⟩

/-- The levels when the normalized file is resolved. -/
def levelsAfter : PolicyLevels :=
  ⟨reading.sanitize defaults, reading.sanitize migrated, reading.sanitize migrated,
    reading.sanitize wildcard, reading.sanitize wildcard⟩

/-- The value that holds for an agent without one of its own. -/
def inheritedWord : Value := (reading.trimmedWord? wildcard).getD
  ((reading.trimmedWord? defaults).getD fallback)

/-- When the two agree. `raw` is the field of the agent in the file as given and `migrated` the
one it has once the agent `default` is merged: a field that is given has a valid word, or the
wildcard says the same as the defaults; a field that is not given is not passed on from the agent
`default`, or is what holds anyway. -/
def FieldResolvesAlike : Prop :=
  if raw.isSet then
    (reading.trimmedWord? migrated).isSome ∨
      inheritedWord reading defaults wildcard fallback =
        (reading.trimmedWord? defaults).getD fallback
  else
    reading.trimmedWord? migrated = none ∨
      reading.trimmedWord? migrated = some (inheritedWord reading defaults wildcard fallback)

variable {reading field agentKey defaults migrated raw wildcard fallback}

theorem resolveDefaultField_value (value : PolicyField) :
    (resolveDefaultField reading.word? field value fallback).value =
      (reading.word? value).getD fallback := by
  unfold resolveDefaultField
  cases reading.word? value <;> rfl

/-- A level that is set decides the field, or leaves it to the defaults. -/
theorem resolveAgentField_value (levels : PolicyLevels) :
    (resolveAgentField reading.word? field levels agentKey fallback).value =
      (if levels.rawAgent.isSet then reading.word? levels.agent
        else if levels.rawWildcard.isSet then reading.word? levels.wildcard else none).getD
        ((reading.word? levels.defaults).getD fallback) := by
  unfold resolveAgentField
  have hdefault : (resolveDefaultField reading.word? field levels.defaults fallback).value =
      (reading.word? levels.defaults).getD fallback := resolveDefaultField_value levels.defaults
  dsimp only
  split
  · cases reading.word? levels.agent with
    | none => exact hdefault
    | some value => rfl
  · split
    · cases reading.word? levels.wildcard with
      | none => exact hdefault
      | some value => rfl
    · exact hdefault

/-- A wildcard that is not set has no word. -/
theorem wildcardWord_eq : (if wildcard.isSet then reading.trimmedWord? wildcard else none) =
      reading.trimmedWord? wildcard := by
  cases wildcard with
  | unset => exact reading.trimmedWord?_unset.symm
  | text value => rfl
  | other value => rfl

theorem resolveAgentField_before : (resolveAgentField reading.word? field
      (levelsBefore reading defaults migrated raw wildcard) agentKey fallback).value =
      (if raw.isSet then reading.trimmedWord? migrated else reading.trimmedWord? wildcard).getD
        ((reading.trimmedWord? defaults).getD fallback) := by
  rw [resolveAgentField_value]
  simp only [levelsBefore, reading.word?_sanitize, wildcardWord_eq]

theorem resolveAgentField_after : (resolveAgentField reading.word? field
      (levelsAfter reading defaults migrated wildcard) agentKey fallback).value =
      ((reading.trimmedWord? migrated).or (reading.trimmedWord? wildcard)).getD
        ((reading.trimmedWord? defaults).getD fallback) := by
  rw [resolveAgentField_value]
  simp only [levelsAfter, reading.word?_sanitize, reading.isSet_sanitize]
  cases reading.trimmedWord? migrated with
  | some value => rfl
  | none => cases reading.trimmedWord? wildcard <;> rfl

theorem resolveAgentField_alike_iff : (resolveAgentField reading.word? field
        (levelsBefore reading defaults migrated raw wildcard) agentKey fallback).value =
      (resolveAgentField reading.word? field
        (levelsAfter reading defaults migrated wildcard) agentKey fallback).value ↔
      FieldResolvesAlike reading defaults migrated raw wildcard fallback := by
  rw [resolveAgentField_before, resolveAgentField_after]
  unfold FieldResolvesAlike inheritedWord
  by_cases hraw : raw.isSet
  · rw [if_pos hraw, if_pos hraw]
    cases reading.trimmedWord? migrated with
    | some value => simp
    | none => simp [eq_comm]
  · rw [if_neg hraw, if_neg hraw]
    cases reading.trimmedWord? migrated with
    | some value => simp [eq_comm]
    | none => simp

end Field

/-! ## Agents of a normalized file -/

/-- The agent with a key once the agent `default` is merged. -/
def migratedAgent (host : Host) (file : ExecApprovalsFile) (key : Str) : ExecApprovalsAgent :=
  (((migrateLegacyAgent host file.agents).find key).map Prod.snd).getD .empty

variable (freshId : Str → ℕ → Str)

theorem find_normalizeExecApprovals : (normalizeExecApprovals host freshId file).agents.find key =
      ((migrateLegacyAgent host file.agents).find key).map
        (fun agent => (agent.1, normalizeAgent (freshId agent.1) agent.2)) :=
  Keyed.find_reread (migrateLegacyAgent host file.agents)
    (f := fun agent => (agent.1, normalizeAgent (freshId agent.1) agent.2)) (.refl _)
    (fun _ => rfl) key

theorem agent_normalizeExecApprovals : (normalizeExecApprovals host freshId file).agent key =
      normalizeAgent (freshId key) (migratedAgent host file key) := by
  unfold ExecApprovalsFile.agent migratedAgent
  rw [find_normalizeExecApprovals]
  cases hagent : (migrateLegacyAgent host file.agents).find key with
  | none => rfl
  | some agent =>
    have hkey : agent.1 = key := Keyed.key_of_find hagent
    rw [← hkey]
    rfl

/-- A normalized file has no agent `default`. -/
theorem migrateLegacyAgent_normalizeExecApprovals :
    migrateLegacyAgent host (normalizeExecApprovals host freshId file).agents =
      (normalizeExecApprovals host freshId file).agents := by
  have hlegacy : (migrateLegacyAgent host file.agents).find legacyAgentId = none := by
    unfold migrateLegacyAgent
    cases hfind : file.agents.find legacyAgentId with
    | none => exact hfind
    | some legacy => exact (Keyed.find_erase _ _ _).trans (if_pos rfl)
  have hfind : (normalizeExecApprovals host freshId file).agents.find legacyAgentId = none := by
    rw [find_normalizeExecApprovals, hlegacy]
    rfl
  generalize (normalizeExecApprovals host freshId file).agents = agents at hfind ⊢
  unfold migrateLegacyAgent
  rw [hfind]

/-- Only the agent `main` is merged. -/
theorem migratedAgent_of_ne (hmain : key ≠ defaultAgentId) (hlegacy : key ≠ legacyAgentId) :
    migratedAgent host file key = file.agent key := by
  unfold migratedAgent ExecApprovalsFile.agent migrateLegacyAgent
  cases hfind : file.agents.find legacyAgentId with
  | none => rfl
  | some legacy =>
    dsimp only
    rw [Keyed.find_erase, if_neg hlegacy, Keyed.find_set, if_neg hmain]

/-! ## Allowlists of a normalized file -/

/-- An item without its id. -/
def AllowlistItem.withoutId : AllowlistItem → AllowlistItem
  | .entry value => .entry { value with id := none }
  | item => item

/-- The item of a normalized allowlist: an entry with a pattern and without a command text. -/
def AllowlistItem.IsNormal (item : AllowlistItem) : Prop :=
  item.isEntry = true ∧ item.stripCommandText = item

variable {item : AllowlistItem} {allowlist : Option (List AllowlistItem)}

theorem isEntry_of_coerce? {item' : AllowlistItem} (h : item.coerce? = some item') :
    item'.isEntry = true := by
  cases item with
  | entry value =>
    unfold AllowlistItem.coerce? at h
    dsimp only at h
    split_ifs at h
    next hpattern =>
    rw [← Option.some.inj h]
    exact decide_eq_true hpattern
  | text value =>
    unfold AllowlistItem.coerce? nonEmptyText? at h
    dsimp only at h
    split at h
    · exact nomatch h
    · next hpattern =>
      rw [← Option.some.inj h]
      exact decide_eq_true (by rw [trim_trim]; exact hpattern)
  | invalid value => exact nomatch h

theorem isNormal_normalized {freshId : Str} (h : item.isEntry = true) :
    (item.ensureId freshId).stripCommandText.IsNormal := by
  cases item with
  | entry value => exact ⟨h, rfl⟩
  | text value => exact nomatch h
  | invalid value => exact nomatch h

theorem withoutId_normalized {freshId : Str} (h : item.IsNormal) :
    (item.ensureId freshId).stripCommandText.withoutId = item.withoutId := by
  cases item with
  | entry value =>
    have hstrip : AllowlistItem.withoutId (AllowlistItem.stripCommandText (.entry value)) =
        AllowlistItem.withoutId (.entry value) := by rw [h.2]
    exact hstrip
  | text value => exact absurd h.1 Bool.false_ne_true
  | invalid value => exact absurd h.1 Bool.false_ne_true

/-- The three passes over an allowlist. -/
def normalizeAllowlist (freshId : ℕ → Str) (allowlist : Option (List AllowlistItem)) :
    Option (List AllowlistItem) :=
  stripAllowlistCommandText (ensureAllowlistIds freshId (coerceAllowlistEntries allowlist))

theorem isEntry_of_coerceAllowlistEntries
    {items : List AllowlistItem} (h : coerceAllowlistEntries allowlist = some items) :
    ∀ item ∈ items, item.isEntry = true := by
  cases allowlist with
  | none => exact nomatch h
  | some given =>
    unfold coerceAllowlistEntries at h
    dsimp only at h
    split at h
    · next hall =>
      rw [← Option.some.inj h]
      exact all_eq_true.mp hall
    · have hitems : items = given.filterMap AllowlistItem.coerce? := by
        cases hlist : given.filterMap AllowlistItem.coerce? with
        | nil =>
          rw [hlist] at h
          exact nomatch h
        | cons first rest =>
          rw [hlist] at h
          exact (Option.some.inj h).symm
      intro item hmem
      rw [hitems, mem_filterMap] at hmem
      obtain ⟨before, -, hcoerce⟩ := hmem
      exact isEntry_of_coerce? hcoerce

theorem isNormal_of_normalizeAllowlist {freshId : ℕ → Str} {items : List AllowlistItem}
    (h : normalizeAllowlist freshId allowlist = some items) : ∀ item ∈ items, item.IsNormal := by
  unfold normalizeAllowlist stripAllowlistCommandText ensureAllowlistIds at h
  rw [Option.map_map, Option.map_eq_some_iff] at h
  obtain ⟨coerced, hcoerced, rfl⟩ := h
  intro item hmem
  simp only [Function.comp_apply, mem_map, mem_mapIdx] at hmem
  obtain ⟨_, ⟨index, hlt, rfl⟩, rfl⟩ := hmem
  exact isNormal_normalized
    (isEntry_of_coerceAllowlistEntries hcoerced _ (getElem_mem hlt))

/-- A second pass changes ids only. -/
theorem normalizeAllowlist_withoutId {freshId : ℕ → Str}
    (h : ∀ items, allowlist = some items → ∀ item ∈ items, item.IsNormal) :
    (normalizeAllowlist freshId allowlist).map (List.map AllowlistItem.withoutId) =
      allowlist.map (List.map AllowlistItem.withoutId) := by
  cases allowlist with
  | none => rfl
  | some items =>
    have hnormal := h items rfl
    have hcoerce : coerceAllowlistEntries (some items) = some items :=
      if_pos (all_eq_true.mpr fun item hmem => (hnormal item hmem).1)
    unfold normalizeAllowlist
    rw [hcoerce]
    refine congrArg some (ext_getElem? fun i => ?_)
    rw [getElem?_map, getElem?_map, getElem?_map, getElem?_mapIdx]
    cases hitem : items[i]? with
    | none => rfl
    | some item =>
      exact congrArg some (withoutId_normalized (hnormal item (mem_of_getElem? hitem)))

/-! ## Idempotence -/

def ExecApprovalsAgent.withoutIds (agent : ExecApprovalsAgent) : ExecApprovalsAgent :=
  { agent with allowlist := agent.allowlist.map (List.map AllowlistItem.withoutId) }

/-- The two files are the same but for the ids of allowlist entries. -/
structure SameUpToIds (file file' : ExecApprovalsFile) : Prop where
  socket : file'.socket = file.socket
  defaults : file'.defaults = file.defaults
  agents : file'.agents.entries.map (fun agent => (agent.1, agent.2.withoutIds)) =
    file.agents.entries.map fun agent => (agent.1, agent.2.withoutIds)

theorem normalizeAgent_normalizeAgent (freshId freshId' : ℕ → Str) (agent : ExecApprovalsAgent) :
    (normalizeAgent freshId' (normalizeAgent freshId agent)).withoutIds =
      (normalizeAgent freshId agent).withoutIds := by
  have hallowlist : (normalizeAllowlist freshId' (normalizeAllowlist freshId
      agent.allowlist)).map (List.map AllowlistItem.withoutId) =
        (normalizeAllowlist freshId agent.allowlist).map (List.map AllowlistItem.withoutId) :=
    normalizeAllowlist_withoutId fun items hitems => isNormal_of_normalizeAllowlist hitems
  have hsecurity := securityReading.sanitize_sanitize agent.security
  have hask := askReading.sanitize_sanitize agent.ask
  have haskFallback := securityReading.sanitize_sanitize agent.askFallback
  unfold ExecApprovalsAgent.withoutIds
  congr 1

theorem normalizeExecApprovals_idem (freshId freshId' : Str → ℕ → Str) :
    SameUpToIds (normalizeExecApprovals host freshId file)
      (normalizeExecApprovals host freshId' (normalizeExecApprovals host freshId file)) where
  socket := by
    show ExecApprovalsSocket.mk (normalizeOptionalString (normalizeOptionalString file.socket.path))
      (normalizeOptionalString (normalizeOptionalString file.socket.token)) = _
    rw [normalizeOptionalString_idem, normalizeOptionalString_idem]
    rfl
  defaults := by
    have hsecurity := securityReading.sanitize_sanitize file.defaults.security
    have hask := askReading.sanitize_sanitize file.defaults.ask
    have haskFallback := securityReading.sanitize_sanitize file.defaults.askFallback
    show ExecApprovalsDefaults.mk _ _ _ _ = ExecApprovalsDefaults.mk _ _ _ _
    congr 1
  agents := by
    have hmigrate : migrateLegacyAgent host (normalizeExecApprovals host freshId file).agents =
        (normalizeExecApprovals host freshId file).agents :=
      migrateLegacyAgent_normalizeExecApprovals freshId
    show ((migrateLegacyAgent host (normalizeExecApprovals host freshId file).agents).entries.map
      _).map _ = _
    rw [hmigrate]
    show (((migrateLegacyAgent host file.agents).entries.map _).map _).map _ =
      ((migrateLegacyAgent host file.agents).entries.map _).map _
    rw [map_map, map_map, map_map]
    apply map_congr_left
    intro agent _
    exact congrArg (Prod.mk agent.1)
      (normalizeAgent_normalizeAgent (freshId agent.1) (freshId' agent.1) agent.2)

end OpenClaw
