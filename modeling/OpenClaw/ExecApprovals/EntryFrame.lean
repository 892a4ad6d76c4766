import OpenClaw.ExecApprovals.Entries

/-!
# What an update of an allowlist leaves alone

Recording a use never changes what an entry grants. Adding an entry should touch the entries
with its pattern and argument pattern only, but when it turns an entry that is there already
into an approval of another source, it rewrites every entry with that pattern.
-/

namespace OpenClaw

open List

variable {file : ExecApprovalsFile} {target key : Str} {items : List AllowlistItem}
  {pattern : Str} {argPattern : Option Str}

/-! ## The rest of the file -/

/-- The two files differ in the allowlist of one agent only. -/
structure SameButAllowlist (target : Str) (file file' : ExecApprovalsFile) : Prop where
  socket : file'.socket = file.socket
  defaults : file'.defaults = file.defaults
  others : file'.agents.entries.filter (·.1 ≠ target) = file.agents.entries.filter (·.1 ≠ target)
  policy : { file'.agent target with allowlist := none } =
    { file.agent target with allowlist := none }

theorem SameButAllowlist.refl : SameButAllowlist target file file := ⟨rfl, rfl, rfl, rfl⟩

theorem SameButAllowlist.trans {file' file'' : ExecApprovalsFile}
    (h : SameButAllowlist target file file') (h' : SameButAllowlist target file' file'') :
    SameButAllowlist target file file'' :=
  ⟨h'.socket.trans h.socket, h'.defaults.trans h.defaults, h'.others.trans h.others,
    h'.policy.trans h.policy⟩

theorem agent_setAllowlist : (file.setAllowlist target items).agent target =
      { file.agent target with allowlist := some items } := by
  show (((file.agents.set _).find target).map Prod.snd).getD _ = _
  rw [Keyed.find_set, if_pos rfl]
  rfl

@[simp]
theorem items_setAllowlist : ((file.setAllowlist target items).agent target).items = items := by
  rw [agent_setAllowlist]
  rfl

theorem sameButAllowlist_setAllowlist :
    SameButAllowlist target file (file.setAllowlist target items) where
  socket := rfl
  defaults := rfl
  others := Keyed.filter_ne_set file.agents
    (target, { file.agent target with allowlist := some items })
  policy := by rw [agent_setAllowlist]

/-! ## Recording a use -/

variable (item : AllowlistItem)

/-- What an entry grants. -/
def AllowlistItem.grant? : Option (Str × Option Str × Option Str) :=
  item.entry?.map fun entry => (entry.pattern, entry.argPattern, entry.source)

@[simp]
theorem grant?_markUsed (entry : ExecAllowlistEntry) (command : Str)
    (resolvedPath : Option Str) (now : ℕ) (freshId : Str) :
    (item.markUsed entry command resolvedPath now freshId).grant? = item.grant? := by
  cases item with
  | entry value =>
    unfold AllowlistItem.markUsed
    dsimp only
    split <;> rfl
  | text value => rfl
  | invalid value => rfl

/-- The two files have the same grants in the same order, and differ in nothing but the marks
on the entries of one agent. -/
structure KeepsGrants (target : Str) (file file' : ExecApprovalsFile) : Prop where
  rest : SameButAllowlist target file file'
  grants : (file'.agent target).items.map AllowlistItem.grant? =
    (file.agent target).items.map AllowlistItem.grant?

theorem keepsGrants_recordAllowlistUse (file : ExecApprovalsFile) (agentId : Option Str)
    (entry : ExecAllowlistEntry) (command : Str) (resolvedPath : Option Str)
    (freshId : ℕ → Str) (now : ℕ) : KeepsGrants (agentId.getD defaultAgentId) file
      (recordAllowlistUse file agentId entry command resolvedPath freshId now) where
  rest := sameButAllowlist_setAllowlist
  grants := by
    unfold recordAllowlistUse
    rw [items_setAllowlist]
    apply ext_getElem?
    intro i
    simp [getElem?_mapIdx, Function.comp_def]

theorem keepsGrants_recordMatchesLoop {agentId : Option Str} {command : Str}
    {resolvedPath : Option Str} {freshId : ℕ → ℕ → Str} {now : ℕ → ℕ} {n : ℕ} {seen : List Str}
    {used : List ExecAllowlistEntry} (file : ExecApprovalsFile) :
    KeepsGrants (agentId.getD defaultAgentId) file
      (recordMatchesLoop agentId command resolvedPath freshId now n seen used file) := by
  induction used generalizing n seen file with
  | nil => exact ⟨.refl, rfl⟩
  | cons entry rest ih =>
    unfold recordMatchesLoop
    dsimp only
    split
    · exact ih file
    · have hstep := keepsGrants_recordAllowlistUse file agentId entry command resolvedPath
        (freshId n) (now n)
      have hloop := @ih (n + 1) (buildAllowlistEntryMatchKey entry :: seen)
        (recordAllowlistUse file agentId entry command resolvedPath (freshId n) (now n))
      exact ⟨hstep.rest.trans hloop.rest, hloop.grants.trans hstep.grants⟩

/-! ## Adding an entry -/

/-- An entry with the pattern and the argument pattern, of the given source if one is given. -/
def HasAllowlistEntry (items : List AllowlistItem) (pattern : Str)
    (argPattern source : Option Str) : Prop :=
  ∃ entry, .entry entry ∈ items ∧ entry.pattern = pattern ∧ entry.argPattern = argPattern ∧
    ∀ given, source = some given → entry.source = some given

/-- The entries with another pattern or another argument pattern are the same. -/
def SameOtherEntries (pattern : Str) (argPattern : Option Str)
    (items items' : List AllowlistItem) : Prop :=
  items'.filter (fun item => !item.hasKey pattern argPattern) =
    items.filter (fun item => !item.hasKey pattern argPattern)

variable (items pattern argPattern)

/-- The entry found under the pattern and the argument pattern is to get another source. -/
def ChangesSource (options : AllowlistEntryOptions) : Prop :=
  ∃ existing, items.find? (·.hasKey pattern argPattern) = some existing ∧
    options.givenSource ≠ none ∧ existing.entry?.bind ExecAllowlistEntry.source ≠ options.source

/-- The pattern has an entry with another argument pattern. -/
def HasSibling : Prop :=
  ∃ item ∈ items, item.hasPattern pattern = true ∧ item.hasKey pattern argPattern = false

variable {items pattern argPattern}

theorem hasKey_eq_true_iff {item : AllowlistItem} : item.hasKey pattern argPattern = true ↔
      ∃ entry, item = .entry entry ∧ entry.pattern = pattern ∧ entry.argPattern = argPattern := by
  cases item with
  | entry value => simp [AllowlistItem.hasKey]
  | text value => simp [AllowlistItem.hasKey]
  | invalid value => simp [AllowlistItem.hasKey]

variable {options : AllowlistEntryOptions} {now : ℕ} {source : Option Str}

theorem givenSource_eq_some {given : Str}
    (h : options.givenSource = some given) : options.source = some given := by
  unfold AllowlistEntryOptions.givenSource nonEmptyText? at h
  cases hsource : options.source with
  | none =>
    rw [hsource] at h
    exact nomatch h
  | some source =>
    rw [hsource] at h
    dsimp only [Option.bind_some] at h
    split_ifs at h
    exact h

/-- Without a sibling the rewriting leaves the other entries alone. -/
theorem sameOtherEntries_rewrite (h : ¬ HasSibling items pattern argPattern) :
    SameOtherEntries pattern argPattern items
      (items.map (·.rewrite pattern argPattern source now)) := by
  unfold SameOtherEntries
  induction items with
  | nil => rfl
  | cons item items ih =>
    have hrest : ¬ HasSibling items pattern argPattern :=
      fun ⟨item, hmem, hsibling⟩ => h ⟨item, mem_cons_of_mem _ hmem, hsibling⟩
    have hitem : item.hasPattern pattern = true → item.hasKey pattern argPattern = true := by
      intro hpattern
      by_contra hkey
      exact h ⟨item, mem_cons_self, hpattern, by simpa using hkey⟩
    rw [map_cons, filter_cons, filter_cons, ih hrest]
    cases item with
    | entry value =>
      by_cases hvalue : value.pattern = pattern
      · have hkey := hitem (decide_eq_true hvalue)
        have hkey' : (AllowlistItem.rewrite pattern argPattern source now
            (.entry value)).hasKey pattern argPattern = true := by
          simp [AllowlistItem.rewrite, AllowlistItem.hasKey, hvalue]
        rw [hkey, hkey']
        rfl
      · have hsame : AllowlistItem.rewrite pattern argPattern source now (.entry value) =
            .entry value := if_neg hvalue
        rw [hsame]
    | text value => rfl
    | invalid value => rfl

/-- After the rewriting every entry with the pattern has the argument pattern. -/
theorem hasKey_of_mem_rewrite {item : AllowlistItem}
    (hmem : item ∈ items.map (·.rewrite pattern argPattern source now))
    (hpattern : item.hasPattern pattern = true) : item.hasKey pattern argPattern = true := by
  rw [mem_map] at hmem
  obtain ⟨before, -, rfl⟩ := hmem
  cases before with
  | entry value =>
    by_cases hvalue : value.pattern = pattern
    · simp [AllowlistItem.rewrite, AllowlistItem.hasKey, hvalue]
    · have hsame : AllowlistItem.rewrite pattern argPattern source now (.entry value) =
          .entry value := if_neg hvalue
      rw [hsame] at hpattern
      exact absurd (of_decide_eq_true hpattern) hvalue
  | text value => exact nomatch hpattern
  | invalid value => exact nomatch hpattern

theorem sameOtherEntries_rewrite_iff : SameOtherEntries pattern argPattern items
        (items.map (·.rewrite pattern argPattern source now)) ↔
      ¬ HasSibling items pattern argPattern := by
  constructor
  · intro hsame ⟨item, hmem, hpattern, hkey⟩
    have hkept : item ∈ items.filter fun item => !item.hasKey pattern argPattern :=
      mem_filter.mpr ⟨hmem, by simpa using hkey⟩
    rw [← hsame] at hkept
    have htrue := hasKey_of_mem_rewrite (mem_filter.mp hkept).1 hpattern
    rw [hkey] at htrue
    exact nomatch htrue
  · exact sameOtherEntries_rewrite

/-- The entry found under the key comes out with the given source. -/
theorem hasAllowlistEntry_rewrite {existing : AllowlistItem}
    (h : items.find? (·.hasKey pattern argPattern) = some existing) :
    HasAllowlistEntry (items.map (·.rewrite pattern argPattern source now)) pattern argPattern
      source := by
  have hkey : existing.hasKey pattern argPattern = true := find?_some h
  obtain ⟨entry, rfl, hpattern, -⟩ := hasKey_eq_true_iff.mp hkey
  refine ⟨{ entry with
      argPattern := argPattern
      source := source.or entry.source
      lastUsedAt := some now }, ?_, hpattern, rfl, ?_⟩
  · rw [mem_map]
    exact ⟨.entry entry, mem_of_find?_eq_some h, if_pos hpattern⟩
  · intro given hgiven
    dsimp only
    rw [hgiven]
    rfl

/-- What `addAllowlistEntry` is to do: the other entries of the agent and the rest of the file
stay, and an entry with the pattern, the argument pattern and the given source is there. -/
structure AddsOnlyEntry (target pattern : Str) (argPattern source : Option Str)
    (file file' : ExecApprovalsFile) : Prop where
  rest : SameButAllowlist target file file'
  others : SameOtherEntries pattern argPattern (file.agent target).items (file'.agent target).items
  present : HasAllowlistEntry (file'.agent target).items pattern argPattern source

variable (items pattern argPattern options)

/-- When `addAllowlistEntry` does so. A blank pattern is not added, so its entry has to be there
already; another one must not give a new source to an entry whose pattern has a sibling. -/
def AddsCleanly : Prop :=
  if pattern = [] then HasAllowlistEntry items pattern argPattern options.givenSource
  else ¬ (ChangesSource items pattern argPattern options ∧ HasSibling items pattern argPattern)

variable {items pattern argPattern options}

/-- Where the file stays as it is, the entry has to be there. -/
theorem addsOnlyEntry_refl_iff : AddsOnlyEntry target pattern argPattern source file file ↔
      HasAllowlistEntry (file.agent target).items pattern argPattern source := by
  constructor
  · intro h
    exact h.present
  · intro h
    exact ⟨.refl, rfl, h⟩

theorem addsOnlyEntry_setAllowlist_iff :
    AddsOnlyEntry target pattern argPattern source file (file.setAllowlist target items) ↔
      SameOtherEntries pattern argPattern (file.agent target).items items ∧
        HasAllowlistEntry items pattern argPattern source := by
  constructor
  · intro h
    have hothers := h.others
    have hpresent := h.present
    rw [items_setAllowlist] at hothers hpresent
    exact ⟨hothers, hpresent⟩
  · intro ⟨hothers, hpresent⟩
    refine ⟨sameButAllowlist_setAllowlist, ?_, ?_⟩
    · rw [items_setAllowlist]
      exact hothers
    · rw [items_setAllowlist]
      exact hpresent

/-- A new entry at the end. -/
theorem addsOnlyEntry_append {freshId : Str} :
    AddsOnlyEntry target pattern argPattern options.givenSource file
      (file.setAllowlist target ((file.agent target).items ++
        [.entry (newAllowlistEntry freshId pattern argPattern options.source now)])) := by
  rw [addsOnlyEntry_setAllowlist_iff]
  constructor
  · unfold SameOtherEntries
    have hkey : (AllowlistItem.entry (newAllowlistEntry freshId pattern argPattern options.source
        now)).hasKey pattern argPattern = true := hasKey_eq_true_iff.mpr ⟨_, rfl, rfl, rfl⟩
    rw [filter_append, filter_singleton, hkey]
    exact append_nil _
  · exact ⟨_, mem_append_right _ (mem_singleton_self _), rfl, rfl,
      fun given hgiven => givenSource_eq_some hgiven⟩

/-- An entry that is there already and is to keep its source. -/
theorem hasAllowlistEntry_of_kept {existing : AllowlistItem}
    (hfind : items.find? (·.hasKey pattern argPattern) = some existing)
    (hkept : options.givenSource = none ∨
      existing.entry?.bind ExecAllowlistEntry.source = options.source) :
    HasAllowlistEntry items pattern argPattern options.givenSource := by
  have hkey : existing.hasKey pattern argPattern = true := find?_some hfind
  obtain ⟨entry, rfl, hpattern, hargs⟩ := hasKey_eq_true_iff.mp hkey
  refine ⟨entry, mem_of_find?_eq_some hfind, hpattern, hargs, ?_⟩
  intro given hgiven
  rcases hkept with hnone | hsame
  · rw [hnone] at hgiven
    exact nomatch hgiven
  · exact hsame.trans (givenSource_eq_some hgiven)

theorem addAllowlistEntry_addsOnlyEntry_iff (agentId : Option Str) (pattern : Str)
    (options : AllowlistEntryOptions) (freshId : Str) (now : ℕ) :
    AddsOnlyEntry (agentId.getD defaultAgentId) (trim pattern)
        (normalizeOptionalString options.argPattern) options.givenSource file
        (addAllowlistEntry file agentId pattern options freshId now) ↔
      AddsCleanly (file.agent (agentId.getD defaultAgentId)).items (trim pattern)
        (normalizeOptionalString options.argPattern) options := by
  unfold addAllowlistEntry AddsCleanly
  dsimp only
  generalize agentId.getD defaultAgentId = target
  generalize trim pattern = pattern
  generalize normalizeOptionalString options.argPattern = argPattern
  by_cases hblank : pattern = []
  · rw [if_pos hblank, if_pos hblank]
    exact addsOnlyEntry_refl_iff
  rw [if_neg hblank, if_neg hblank]
  unfold addToAllowlist
  cases hfind : (file.agent target).items.find? (·.hasKey pattern argPattern) with
  | none =>
    dsimp only
    refine iff_of_true addsOnlyEntry_append ?_
    intro ⟨⟨existing, hexisting, _⟩, _⟩
    rw [hfind] at hexisting
    exact nomatch hexisting
  | some existing =>
    dsimp only
    by_cases hkept : options.givenSource = none ∨
        existing.entry?.bind ExecAllowlistEntry.source = options.source
    · rw [if_pos hkept]
      refine iff_of_true (addsOnlyEntry_refl_iff.mpr (hasAllowlistEntry_of_kept hfind hkept)) ?_
      intro ⟨⟨found, hfound, hgiven, hsource⟩, _⟩
      rw [hfind] at hfound
      rw [← Option.some.inj hfound] at hsource
      exact hkept.elim hgiven hsource
    · rw [if_neg hkept]
      have hchanges : ChangesSource (file.agent target).items pattern argPattern options :=
        ⟨existing, hfind, fun h => hkept (.inl h), fun h => hkept (.inr h)⟩
      -- the source is given, so it is the one the rewriting takes
      have hgiven : options.givenSource ≠ none := fun h => hkept (.inl h)
      obtain ⟨given, hgiven⟩ := Option.ne_none_iff_exists'.mp hgiven
      have hsource : options.source = options.givenSource := by
        rw [hgiven]
        exact givenSource_eq_some hgiven
      rw [addsOnlyEntry_setAllowlist_iff, hsource]
      constructor
      · intro ⟨hothers, _⟩ ⟨_, hsibling⟩
        exact sameOtherEntries_rewrite_iff.mp hothers hsibling
      · intro h
        exact ⟨sameOtherEntries_rewrite_iff.mpr fun hsibling => h ⟨hchanges, hsibling⟩,
          hasAllowlistEntry_rewrite hfind⟩

/-- Adding an entry touches only that entry under its condition; recording a use, of one entry
or of several, never changes a grant. -/
theorem allowlistUpdates_frame_iff (file : ExecApprovalsFile) (agentId : Option Str)
    (pattern : Str) (options : AllowlistEntryOptions) (freshId : Str) (now : ℕ) :
    (AddsOnlyEntry (agentId.getD defaultAgentId) (trim pattern)
        (normalizeOptionalString options.argPattern) options.givenSource file
        (addAllowlistEntry file agentId pattern options freshId now) ∧
      (∀ entry command resolvedPath freshIds now, KeepsGrants (agentId.getD defaultAgentId) file
          (recordAllowlistUse file agentId entry command resolvedPath freshIds now)) ∧
      ∀ used command resolvedPath freshIds now, KeepsGrants (agentId.getD defaultAgentId) file
          (recordAllowlistMatchesUse file agentId used command resolvedPath freshIds now)) ↔
      AddsCleanly (file.agent (agentId.getD defaultAgentId)).items (trim pattern)
        (normalizeOptionalString options.argPattern) options := by
  rw [addAllowlistEntry_addsOnlyEntry_iff]
  refine and_iff_left ⟨?_, ?_⟩
  · intro entry command resolvedPath freshIds now
    exact keepsGrants_recordAllowlistUse file agentId entry command resolvedPath freshIds now
  · intro used command resolvedPath freshIds now
    exact keepsGrants_recordMatchesLoop file

/-! ## A widened permission -/

/-- `/bin/x` may run with the argument `a`, and a second entry without a source lists it. -/
def siblingFile : ExecApprovalsFile :=
  { socket := ⟨none, none⟩
    defaults := ⟨.unset, .unset, .unset, none⟩
    agents := Keyed.empty.set (defaultAgentId, { ExecApprovalsAgent.empty with
      allowlist := some
        [.entry ⟨none, "/bin/x".toList, some allowAlways, none, some "a".toList, none, none, none⟩,
         .entry ⟨none, "/bin/x".toList, none, none, none, none, none, none⟩] }) }

/-- Approving `/bin/x` takes the argument pattern off the other entry. -/
theorem not_addsOnlyEntry_siblingFile :
    ¬ AddsOnlyEntry defaultAgentId "/bin/x".toList none (some allowAlways) siblingFile
      (addAllowlistEntry siblingFile none "/bin/x".toList ⟨none, some allowAlways⟩ "id".toList 0) := by
  intro h
  have hlength := congrArg List.length h.others
  exact absurd hlength (by decide +kernel)

end OpenClaw
