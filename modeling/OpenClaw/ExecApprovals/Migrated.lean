import OpenClaw.ExecApprovals.Normalized

/-!
# What the merge of the older default agent keeps

The merge takes the entries of `main` and then those of `default`, each unless its key was seen
before. The resolved policy before and after normalizing, and the entries that get lost, are put
together at the end.
-/

namespace OpenClaw

open List

variable {host : Host} {file : ExecApprovalsFile}

/-! ## What an item lists -/

/-- The pattern and the argument pattern an item of an allowlist stands for. -/
def AllowlistItem.listed? : AllowlistItem → Option (Str × Option Str)
  | .entry value => if trim value.pattern = [] then none else some (value.pattern, value.argPattern)
  | .text value => if trim value = [] then none else some (trim value, none)
  | .invalid _ => none

theorem bind_coerce?_listed? (item : AllowlistItem) :
    item.coerce?.bind AllowlistItem.listed? = item.listed? := by
  cases item with
  | entry value =>
    unfold AllowlistItem.coerce? AllowlistItem.listed?
    dsimp only
    split
    · rfl
    · next hpattern => exact if_neg hpattern
  | text value =>
    unfold AllowlistItem.coerce? AllowlistItem.listed? nonEmptyText?
    dsimp only
    split
    · rfl
    · next hpattern =>
      have htrim : trim (trim value) ≠ [] := by
        rw [trim_trim]
        exact hpattern
      exact if_neg htrim
  | invalid value => rfl

theorem listed?_normalized {freshId : Str} (item : AllowlistItem) :
    (item.ensureId freshId).stripCommandText.listed? = item.listed? := by
  cases item <;> rfl

variable (freshId : ℕ → Str)

/-- Normalizing an allowlist keeps what it lists. -/
theorem filterMap_listed?_normalizeAllowlist (allowlist : Option (List AllowlistItem)) :
    ((normalizeAllowlist freshId allowlist).getD []).filterMap AllowlistItem.listed? =
      (allowlist.getD []).filterMap AllowlistItem.listed? := by
  have hcoerce : ((coerceAllowlistEntries allowlist).getD []).filterMap AllowlistItem.listed? =
      (allowlist.getD []).filterMap AllowlistItem.listed? := by
    cases allowlist with
    | none => rfl
    | some items =>
      unfold coerceAllowlistEntries
      dsimp only
      split
      · rfl
      · have hlist : (nonEmptyList? (items.filterMap AllowlistItem.coerce?)).getD [] =
            items.filterMap AllowlistItem.coerce? := by
          cases items.filterMap AllowlistItem.coerce? <;> rfl
        rw [hlist, filterMap_filterMap]
        exact filterMap_congr fun item _ => bind_coerce?_listed? item
  rw [← hcoerce]
  unfold normalizeAllowlist
  cases coerceAllowlistEntries allowlist with
  | none => rfl
  | some items =>
    show ((items.mapIdx _).map AllowlistItem.stripCommandText).filterMap _ = items.filterMap _
    rw [filterMap_map]
    generalize freshId = freshId
    induction items generalizing freshId with
    | nil => rfl
    | cons item items ih =>
      rw [mapIdx_cons, filterMap_cons, filterMap_cons]
      have hrest := ih fun index => freshId (index + 1)
      have hitem := @listed?_normalized (freshId 0) item
      rw [Function.comp_apply, hitem, hrest]

variable (agent : ExecApprovalsAgent)

theorem filterMap_listed?_normalizeAgent :
    (normalizeAgent freshId agent).items.filterMap AllowlistItem.listed? =
      agent.items.filterMap AllowlistItem.listed? :=
  filterMap_listed?_normalizeAllowlist freshId agent.allowlist

/-! ## The merge -/

/-- The items are taken one after another; what counts is which keys were seen. -/
theorem mergeEntries_append (seen : List Str) (before rest : List AllowlistItem) :
    ∃ seen', (∀ key, key ∈ seen' ↔
        key ∈ seen ∨ key ∈ before.filterMap (AllowlistItem.mergeKey? host)) ∧
      mergeEntries host seen (before ++ rest) =
        mergeEntries host seen before ++ mergeEntries host seen' rest := by
  induction before generalizing seen with
  | nil => exact ⟨seen, by simp, rfl⟩
  | cons item before ih =>
    cases hkey : item.mergeKey? host with
    | none =>
      obtain ⟨seen', hseen, happend⟩ := ih seen
      refine ⟨seen', ?_, ?_⟩
      · intro key
        rw [hseen, filterMap_cons_none hkey]
      · rw [cons_append, mergeEntries, hkey, mergeEntries, hkey]
        exact happend
    | some itemKey =>
      by_cases hmem : itemKey ∈ seen
      · obtain ⟨seen', hseen, happend⟩ := ih seen
        refine ⟨seen', ?_, ?_⟩
        · intro key
          rw [hseen, filterMap_cons_some hkey, mem_cons]
          constructor
          · intro h
            exact h.imp id .inr
          · intro h
            rcases h with h | rfl | h
            · exact .inl h
            · exact .inl hmem
            · exact .inr h
        · rw [cons_append, mergeEntries, hkey, mergeEntries, hkey]
          dsimp only
          rw [if_pos hmem, if_pos hmem]
          exact happend
      · obtain ⟨seen', hseen, happend⟩ := ih (itemKey :: seen)
        refine ⟨seen', ?_, ?_⟩
        · intro key
          rw [hseen, filterMap_cons_some hkey, mem_cons, mem_cons]
          tauto
        · rw [cons_append, mergeEntries, hkey, mergeEntries, hkey]
          dsimp only
          rw [if_neg hmem, if_neg hmem, happend]
          rfl

theorem mergeEntries_sublist (seen : List Str) (items : List AllowlistItem) :
    (mergeEntries host seen items).Sublist items := by
  induction items generalizing seen with
  | nil => exact .slnil
  | cons item items ih =>
    unfold mergeEntries
    cases item.mergeKey? host with
    | none => exact (ih seen).cons _
    | some key =>
      dsimp only
      split
      · exact (ih seen).cons _
      · exact (ih (key :: seen)).cons_cons _

/-- An item whose listing is found nowhere else survives the merge when it is an entry and its
key is new. -/
theorem listed_mem_mergeEntries_iff {before after : List AllowlistItem} {item : AllowlistItem}
    {listing : Str × Option Str} (hitem : item.listed? = some listing)
    (hunique : listing ∉ (before ++ after).filterMap AllowlistItem.listed?) :
    listing ∈ (mergeEntries host [] (before ++ item :: after)).filterMap AllowlistItem.listed? ↔
      ∃ key, item.mergeKey? host = some key ∧
        key ∉ before.filterMap (AllowlistItem.mergeKey? host) := by
  rw [filterMap_append, mem_append, not_or] at hunique
  have habsent {items kept : List AllowlistItem} (hsub : kept.Sublist items)
      (hnot : listing ∉ items.filterMap AllowlistItem.listed?) :
      listing ∉ kept.filterMap AllowlistItem.listed? :=
    fun hmem => hnot ((hsub.filterMap _).subset hmem)
  obtain ⟨seen, hseen, happend⟩ := @mergeEntries_append host [] before (item :: after)
  have hbefore := habsent (@mergeEntries_sublist host [] before) hunique.1
  rw [happend, filterMap_append, mem_append, or_iff_right hbefore, mergeEntries]
  cases hkey : item.mergeKey? host with
  | none =>
    dsimp only
    refine iff_of_false (habsent (mergeEntries_sublist _ _) hunique.2) ?_
    intro ⟨key, hsome, _⟩
    exact nomatch hsome
  | some key =>
    have hmem : key ∈ seen ↔ key ∈ before.filterMap (AllowlistItem.mergeKey? host) := by
      rw [hseen]
      simp
    dsimp only
    by_cases hold : key ∈ seen
    · rw [if_pos hold]
      refine iff_of_false (habsent (mergeEntries_sublist _ _) hunique.2) ?_
      intro ⟨key', hsome, hnew⟩
      rw [← Option.some.inj hsome] at hnew
      exact hnew (hmem.mp hold)
    · rw [if_neg hold, filterMap_cons_some hitem]
      exact iff_of_true mem_cons_self ⟨key, rfl, fun h => hold (hmem.mpr h)⟩

/-- An item that is listed by no other item of the two agents `main` and `default`. -/
structure MergedOnce (file : ExecApprovalsFile) (before after : List AllowlistItem)
    (item : AllowlistItem) (listing : Str × Option Str) : Prop where
  agents : ∃ main legacy, file.agents.find defaultAgentId = some (defaultAgentId, main) ∧
    file.agents.find legacyAgentId = some (legacyAgentId, legacy) ∧
    main.items ++ legacy.items = before ++ item :: after
  listed : item.listed? = some listing
  unique : listing ∉ (before ++ after).filterMap AllowlistItem.listed?

/-- The merge of the two agents keeps what one item alone lists. -/
def MergeKeepsListings (host : Host) (freshId : Str → ℕ → Str) (file : ExecApprovalsFile) : Prop :=
  ∀ before after item listing, MergedOnce file before after item listing →
    listing ∈ ((normalizeExecApprovals host freshId file).agent defaultAgentId).items.filterMap
      AllowlistItem.listed?

/-- Such an item is no bare pattern, and no earlier entry has its pattern in lower case with its
trimmed argument pattern. -/
def MergesNewKeys (host : Host) (file : ExecApprovalsFile) : Prop :=
  ∀ before after item listing, MergedOnce file before after item listing →
    ∃ key, item.mergeKey? host = some key ∧ key ∉ before.filterMap (AllowlistItem.mergeKey? host)

theorem migratedAgent_main {main legacy : ExecApprovalsAgent}
    (hmain : file.agents.find defaultAgentId = some (defaultAgentId, main))
    (hlegacy : file.agents.find legacyAgentId = some (legacyAgentId, legacy)) :
    migratedAgent host file defaultAgentId = mergeLegacyAgent host main legacy := by
  unfold migratedAgent migrateLegacyAgent
  rw [hlegacy, hmain]
  dsimp only
  rw [Keyed.find_erase, if_neg (by decide), Keyed.find_set, if_pos rfl]
  rfl

theorem items_mergeLegacyAgent (main legacy : ExecApprovalsAgent) :
    (mergeLegacyAgent host main legacy).items =
      mergeEntries host [] (main.items ++ legacy.items) := by
  show (nonEmptyList? _).getD [] = _
  cases mergeEntries host [] (main.items ++ legacy.items) <;> rfl

theorem mergeKeepsListings_iff (freshId : Str → ℕ → Str) :
    MergeKeepsListings host freshId file ↔ MergesNewKeys host file := by
  refine forall₅_congr fun before after item listing hmerged => ?_
  obtain ⟨main, legacy, hmain, hlegacy, hitems⟩ := hmerged.agents
  rw [agent_normalizeExecApprovals, filterMap_listed?_normalizeAgent,
    migratedAgent_main hmain hlegacy, items_mergeLegacyAgent, hitems]
  exact listed_mem_mergeEntries_iff hmerged.listed hmerged.unique

/-! ## The columns of a policy -/

/-- One policy field on every level of a file. -/
structure PolicyColumn (Value : Type) where
  reading : PolicyReading Value
  ofDefaults : ExecApprovalsDefaults → PolicyField
  ofAgent : ExecApprovalsAgent → PolicyField
  ofAgent_normalizeAgent : ∀ freshId agent,
    ofAgent (normalizeAgent freshId agent) = reading.sanitize (ofAgent agent)
  ofDefaults_normalize : ∀ host freshId file,
    ofDefaults (normalizeExecApprovals host freshId file).defaults =
      reading.sanitize (ofDefaults file.defaults)

def securityColumn : PolicyColumn ExecSecurity :=
  ⟨securityReading, (·.security), (·.security), fun _ _ => rfl, fun _ _ _ => rfl⟩

def askColumn : PolicyColumn ExecAsk :=
  ⟨askReading, (·.ask), (·.ask), fun _ _ => rfl, fun _ _ _ => rfl⟩

def askFallbackColumn : PolicyColumn ExecSecurity :=
  ⟨securityReading, (·.askFallback), (·.askFallback), fun _ _ => rfl, fun _ _ _ => rfl⟩

section Column

variable {Value : Type} (column : PolicyColumn Value) (given freshId freshId' : Str → ℕ → Str)
  (key field : Str) (fallback : Value)

/-- The field is the same before and after normalizing. -/
def ColumnResolvesAlike (host : Host) (file : ExecApprovalsFile) : Prop :=
  FieldResolvesAlike column.reading (column.ofDefaults file.defaults)
    (column.ofAgent (migratedAgent host file key)) (column.ofAgent (file.agent key))
    (column.ofAgent (file.agent wildcardAgentId)) fallback

theorem migratedAgent_wildcard :
    migratedAgent host file wildcardAgentId = file.agent wildcardAgentId :=
  migratedAgent_of_ne (by decide) (by decide)

theorem policyLevels_before :
    policyLevels file (normalizeExecApprovals host freshId file) key column.ofDefaults
      column.ofAgent =
    levelsBefore column.reading (column.ofDefaults file.defaults)
      (column.ofAgent (migratedAgent host file key)) (column.ofAgent (file.agent key))
      (column.ofAgent (file.agent wildcardAgentId)) := by
  unfold policyLevels levelsBefore
  rw [agent_normalizeExecApprovals, agent_normalizeExecApprovals, column.ofAgent_normalizeAgent,
    column.ofAgent_normalizeAgent, column.ofDefaults_normalize, migratedAgent_wildcard]

theorem migratedAgent_normalizeExecApprovals :
    migratedAgent host (normalizeExecApprovals host freshId file) key =
      normalizeAgent (freshId key) (migratedAgent host file key) := by
  rw [← agent_normalizeExecApprovals]
  unfold migratedAgent
  rw [migrateLegacyAgent_normalizeExecApprovals]
  rfl

theorem policyLevels_after : policyLevels (normalizeExecApprovals host freshId file)
      (normalizeExecApprovals host freshId' (normalizeExecApprovals host freshId file)) key
      column.ofDefaults column.ofAgent =
    levelsAfter column.reading (column.ofDefaults file.defaults)
      (column.ofAgent (migratedAgent host file key))
      (column.ofAgent (file.agent wildcardAgentId)) := by
  rw [policyLevels_before]
  unfold levelsBefore levelsAfter
  rw [migratedAgent_normalizeExecApprovals, agent_normalizeExecApprovals,
    agent_normalizeExecApprovals, column.ofAgent_normalizeAgent, column.ofAgent_normalizeAgent,
    column.ofDefaults_normalize, migratedAgent_wildcard, column.reading.sanitize_sanitize,
    column.reading.sanitize_sanitize, column.reading.sanitize_sanitize]

/-- The fallback of a field is the one of the defaults, which counts once. -/
theorem fieldResolvesAlike_getD {reading : PolicyReading Value}
    {defaults migrated raw wildcard : PolicyField} :
    FieldResolvesAlike reading defaults migrated raw wildcard
        ((reading.trimmedWord? defaults).getD fallback) ↔
      FieldResolvesAlike reading defaults migrated raw wildcard fallback := by
  unfold FieldResolvesAlike inheritedWord
  cases reading.trimmedWord? defaults <;> rfl

theorem column_alike_iff : (resolveAgentField column.reading.word? field
        (policyLevels file (normalizeExecApprovals host given file) key column.ofDefaults
          column.ofAgent) key
        ((column.reading.word? (column.ofDefaults
          (normalizeExecApprovals host given file).defaults)).getD fallback)).value =
      (resolveAgentField column.reading.word? field
        (policyLevels (normalizeExecApprovals host freshId file)
          (normalizeExecApprovals host freshId' (normalizeExecApprovals host freshId file)) key
          column.ofDefaults column.ofAgent) key
        ((column.reading.word? (column.ofDefaults (normalizeExecApprovals host freshId'
          (normalizeExecApprovals host freshId file)).defaults)).getD fallback)).value ↔
      ColumnResolvesAlike column key fallback host file := by
  rw [policyLevels_before, policyLevels_after, column.ofDefaults_normalize,
    column.ofDefaults_normalize, column.ofDefaults_normalize, column.reading.sanitize_sanitize,
    column.reading.word?_sanitize, resolveAgentField_alike_iff, fieldResolvesAlike_getD]
  rfl

end Column

/-! ## The policy of an agent -/

/-- Nothing depends on whether the file was normalized first; `given`, `normalized` and `again`
are the random ids of the three runs. -/
structure NormalizedAlike (host : Host) (file : ExecApprovalsFile) (agentId : Option Str)
    (overrides : ExecApprovalsOverrides) (given normalized again : Str → ℕ → Str) : Prop where
  idempotent : SameUpToIds (normalizeExecApprovals host normalized file)
    (normalizeExecApprovals host again (normalizeExecApprovals host normalized file))
  agent : (resolveExecApprovalsFromFile host given file agentId overrides).agent =
    (resolveExecApprovalsFromFile host again (normalizeExecApprovals host normalized file) agentId
      overrides).agent
  allowlist : (resolveExecApprovalsFromFile host given file agentId overrides).allowlist.map
      AllowlistItem.withoutId =
    (resolveExecApprovalsFromFile host again (normalizeExecApprovals host normalized file) agentId
      overrides).allowlist.map AllowlistItem.withoutId
  merge : MergeKeepsListings host normalized file

/-- When it does not. -/
structure ResolvesAlike (host : Host) (file : ExecApprovalsFile) (key : Str)
    (overrides : ExecApprovalsOverrides) : Prop where
  security : ColumnResolvesAlike securityColumn key (overrides.security.getD .full) host file
  ask : ColumnResolvesAlike askColumn key (overrides.ask.getD .off) host file
  askFallback : ColumnResolvesAlike askFallbackColumn key (overrides.askFallback.getD .full) host file
  merge : MergesNewKeys host file

/-- The random ids of a run show in ids only. -/
theorem normalizeAgent_withoutIds (freshId freshId' : ℕ → Str) (agent : ExecApprovalsAgent) :
    (normalizeAgent freshId agent).withoutIds = (normalizeAgent freshId' agent).withoutIds := by
  have hitem (freshId freshId' : Str) (item : AllowlistItem) :
      (item.ensureId freshId).stripCommandText.withoutId =
        (item.ensureId freshId').stripCommandText.withoutId := by
    cases item <;> rfl
  have hallowlist : (normalizeAllowlist freshId agent.allowlist).map
      (List.map AllowlistItem.withoutId) =
        (normalizeAllowlist freshId' agent.allowlist).map (List.map AllowlistItem.withoutId) := by
    unfold normalizeAllowlist
    cases coerceAllowlistEntries agent.allowlist with
    | none => rfl
    | some items =>
      refine congrArg some (ext_getElem? fun i => ?_)
      rw [getElem?_map, getElem?_map, getElem?_mapIdx, getElem?_map,
        getElem?_map, getElem?_mapIdx]
      cases items[i]? with
      | none => rfl
      | some item => exact congrArg some (hitem _ _ item)
  unfold ExecApprovalsAgent.withoutIds
  congr 1

theorem items_withoutIds : agent.withoutIds.items = agent.items.map AllowlistItem.withoutId := by
  unfold ExecApprovalsAgent.items ExecApprovalsAgent.withoutIds
  cases agent.allowlist <;> rfl

section Resolved

variable (host) (file) (agentId : Option Str) (overrides : ExecApprovalsOverrides)
  (given normalized again : Str → ℕ → Str)

theorem resolve_agent_iff : (resolveExecApprovalsFromFile host given file agentId overrides).agent =
        (resolveExecApprovalsFromFile host again (normalizeExecApprovals host normalized file)
          agentId overrides).agent ↔
      ColumnResolvesAlike securityColumn (agentId.getD defaultAgentId)
          (overrides.security.getD .full) host file ∧
        ColumnResolvesAlike askColumn (agentId.getD defaultAgentId) (overrides.ask.getD .off)
          host file ∧
        ColumnResolvesAlike askFallbackColumn (agentId.getD defaultAgentId)
          (overrides.askFallback.getD .full) host file := by
  generalize hkey : agentId.getD defaultAgentId = key
  have hsecurity := @column_alike_iff host file _ securityColumn given normalized
    again key "security" (overrides.security.getD .full)
  have hask := @column_alike_iff host file _ askColumn given normalized again key
    "ask" (overrides.ask.getD .off)
  have haskFallback := @column_alike_iff host file _ askFallbackColumn given
    normalized again key "askFallback" (overrides.askFallback.getD .full)
  have hskills (key : Str) :
      ((normalizeExecApprovals host given file).agent key).autoAllowSkills =
        ((normalizeExecApprovals host again
          (normalizeExecApprovals host normalized file)).agent key).autoAllowSkills := by
    rw [agent_normalizeExecApprovals, agent_normalizeExecApprovals,
      migratedAgent_normalizeExecApprovals]
    rfl
  rw [← hsecurity, ← hask, ← haskFallback]
  unfold resolveExecApprovalsFromFile
  rw [hkey]
  dsimp only
  rw [ResolvedExecDefaults.mk.injEq, hskills, hskills]
  constructor
  · intro ⟨hsec, hasks, hfallback, _⟩
    exact ⟨hsec, hasks, hfallback⟩
  · intro ⟨hsec, hasks, hfallback⟩
    exact ⟨hsec, hasks, hfallback, rfl⟩

theorem resolve_allowlist :
    (resolveExecApprovalsFromFile host given file agentId overrides).allowlist.map
        AllowlistItem.withoutId =
      (resolveExecApprovalsFromFile host again (normalizeExecApprovals host normalized file)
        agentId overrides).allowlist.map AllowlistItem.withoutId := by
  have hitems (key : Str) :
      ((normalizeExecApprovals host given file).agent key).items.map AllowlistItem.withoutId =
        ((normalizeExecApprovals host again
          (normalizeExecApprovals host normalized file)).agent key).items.map
          AllowlistItem.withoutId := by
    rw [agent_normalizeExecApprovals, agent_normalizeExecApprovals,
      migratedAgent_normalizeExecApprovals, ← items_withoutIds, ← items_withoutIds,
      normalizeAgent_normalizeAgent, normalizeAgent_withoutIds (given key) (normalized key)]
  show List.map _ (_ ++ _) = List.map _ (_ ++ _)
  rw [map_append, map_append, hitems, hitems]

/-- Normalizing is idempotent and keeps the allowlist; it keeps the policy and the entries of the
merged agents under the condition. -/
theorem normalizedAlike_iff : NormalizedAlike host file agentId overrides given normalized again ↔
      ResolvesAlike host file (agentId.getD defaultAgentId) overrides := by
  constructor
  · intro h
    have hagent := (resolve_agent_iff host file agentId overrides given normalized again).mp h.agent
    exact ⟨hagent.1, hagent.2.1, hagent.2.2, (mergeKeepsListings_iff normalized).mp h.merge⟩
  · intro h
    refine ⟨normalizeExecApprovals_idem normalized again, ?_,
      resolve_allowlist host file agentId overrides given normalized again,
      (mergeKeepsListings_iff normalized).mpr h.merge⟩
    exact (resolve_agent_iff host file agentId overrides given normalized again).mpr
      ⟨h.security, h.ask, h.askFallback⟩

end Resolved

/-! ## A masked field -/

def noOverrides : ExecApprovalsOverrides := ⟨none, none, none, none⟩

/-- The agent `runner` has an invalid word, the wildcard allows everything, and the defaults deny. -/
def maskedFile : ExecApprovalsFile :=
  { socket := ⟨none, none⟩
    defaults := ⟨.text "deny".toList, .unset, .unset, none⟩
    agents := (Keyed.empty.set (wildcardAgentId, { ExecApprovalsAgent.empty with
        security := .text "full".toList })).set
      ("runner".toList, { ExecApprovalsAgent.empty with security := .text "foo".toList }) }

/-- The file as given denies, and the normalized file allows everything. -/
theorem not_normalizedAlike_maskedFile :
    ¬ NormalizedAlike Host.asciiLinux maskedFile (some "runner".toList) noOverrides
      (fun _ _ => "a".toList) (fun _ _ => "b".toList) fun _ _ => "c".toList := by
  intro h
  have hsecurity := congrArg ResolvedExecDefaults.security h.agent
  exact absurd hsecurity (by decide +kernel)

end OpenClaw
