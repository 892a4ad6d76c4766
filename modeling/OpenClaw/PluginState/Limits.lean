import OpenClaw.PluginState.Store

/-!
# The limits behind a registration

The namespace keeps its live entries up to the limit. What goes are the oldest ones beside the one
just registered.
-/

namespace OpenClaw

open PluginStateTable List Option Bool Keyed

variable {table : PluginStateTable} {id key : PluginStateKey} {row row' : PluginStateRow}
  {now now' : ℕ} {maxEntries : ℕ+}

/-! ## The order of the rows -/

instance : Std.Total PluginStateRow.before where
  total row row' := by
    rcases lt_trichotomy row.createdAt row'.createdAt with hlt | heq | hgt
    · exact .inl (.inl hlt)
    · rcases le_total (row.id.entryKey.map Char.toNat) (row'.id.entryKey.map Char.toNat) with
        hle | hle
      · exact .inl (.inr ⟨heq, hle⟩)
      · exact .inr (.inr ⟨heq.symm, hle⟩)
    · exact .inr (.inl hgt)

instance : IsTrans PluginStateRow PluginStateRow.before where
  trans row row' row'' := by
    rintro (hlt | ⟨heq, hle⟩) (hlt' | ⟨heq', hle'⟩)
    · exact .inl (hlt.trans hlt')
    · exact .inl (heq' ▸ hlt)
    · exact .inl (heq ▸ hlt')
    · exact .inr ⟨heq.trans heq', hle.trans hle'⟩

theorem PluginStateRow.before.createdAt_le (h : row.before row') :
    row.createdAt ≤ row'.createdAt := by
  rcases h with hlt | ⟨heq, _⟩
  · exact hlt.le
  · exact heq.le

/-- What a sorted list has behind its first elements comes after them. -/
theorem rel_of_mem_take {α : Type*} {r : α → α → Prop} {l : List α} (h : l.Pairwise r) {n : ℕ}
    {a b : α} (ha : a ∈ l.take n) (hb : b ∈ l) (hnot : b ∉ l.take n) : r a b := by
  rw [← take_append_drop n l] at h hb
  rcases mem_append.mp hb with hb | hb
  · exact absurd hb hnot
  · exact (pairwise_append.mp h).2.2 a ha b hb

/-- Rows of a list without repetitions are counted once. -/
theorem countP_filter_notMem {α : Type*} [DecidableEq α] {l removed : List α} (hl : l.Nodup)
    (hremoved : removed.Nodup) (hsub : ∀ a ∈ removed, a ∈ l) {p : α → Bool}
    (hp : ∀ a ∈ removed, p a = true) :
    (l.filter fun a => a ∉ removed).countP p + removed.length = l.countP p := by
  have hperm : (l.filter fun a => a ∈ removed).Perm removed := by
    apply (perm_ext_iff_of_nodup (hl.filter _) hremoved).mpr
    intro a
    rw [mem_filter, decide_eq_true_iff]
    exact ⟨fun h => h.2, fun h => ⟨hsub a h, h⟩⟩
  have hlength : (l.filter fun a => a ∈ removed).countP p = removed.length := by
    rw [hperm.countP_eq, countP_eq_length.mpr hp]
  have hsplit := filter_append_perm (fun a => decide (a ∈ removed)) l
  rw [← hlength, Nat.add_comm, ← hsplit.countP_eq, countP_append]
  simp only [decide_not]

/-! ## What is evicted -/

theorem PluginStateRow.inNamespace_iff {pluginId ns : Str} :
    row.inNamespace pluginId ns = true ↔ row.id.pluginId = pluginId ∧ row.id.ns = ns := by
  rw [inNamespace, and_eq_true, decide_eq_true_iff, decide_eq_true_iff]

variable (table)

theorem nodup_entries : table.entries.Nodup := table.nodup.of_map

/-- The rows that a registration may evict. -/
def evictable (id : PluginStateKey) (now : ℕ) : List PluginStateRow :=
  table.entries.filter fun row => row.inNamespace id.pluginId id.ns &&
    (row.id.entryKey ≠ id.entryKey && row.live now)

variable {table}

theorem mem_evictable : row ∈ evictable table id now ↔ row ∈ table.entries ∧
    row.inNamespace id.pluginId id.ns = true ∧ row.id ≠ id ∧ row.live now = true := by
  rw [evictable, mem_filter, and_eq_true, and_eq_true, decide_eq_true_iff]
  constructor
  · rintro ⟨hmem, hns, hkey, hlive⟩
    exact ⟨hmem, hns, fun heq => hkey (heq ▸ rfl), hlive⟩
  · rintro ⟨hmem, hns, hne, hlive⟩
    refine ⟨hmem, hns, fun hkey => hne ?_, hlive⟩
    obtain ⟨hplugin, hnamespace⟩ := PluginStateRow.inNamespace_iff.mp hns
    cases hid : row.id
    cases id
    rw [hid] at hkey hplugin hnamespace
    cases hkey
    cases hplugin
    cases hnamespace
    rfl

/-- The live entries of the namespace are the registered one and those that may be evicted. -/
theorem countLiveNamespace_eq (hrow : table.find id = some row) (hlive : row.live now = true) :
    table.countLiveNamespace id.pluginId id.ns now = (evictable table id now).length + 1 := by
  have hid : row.id = id := key_of_find hrow
  have hmem : row ∈ table.entries := mem_of_find hrow
  have hperm : (table.entries.filter fun row => row.inNamespace id.pluginId id.ns &&
      row.live now).Perm (row :: evictable table id now) := by
    apply (perm_ext_iff_of_nodup ((nodup_entries table).filter _) ?_).mpr
    · intro other
      rw [mem_filter, mem_cons, mem_evictable, and_eq_true]
      constructor
      · rintro ⟨hother, hns, hotherLive⟩
        by_cases hsame : other.id = id
        · left
          exact inj_on_of_nodup_map table.nodup hother hmem (hsame.trans hid.symm)
        · exact .inr ⟨hother, hns, hsame, hotherLive⟩
      · rintro (rfl | ⟨hother, hns, _, hotherLive⟩)
        · exact ⟨hmem, PluginStateRow.inNamespace_iff.mpr ⟨hid ▸ rfl, hid ▸ rfl⟩, hlive⟩
        · exact ⟨hother, hns, hotherLive⟩
    · rw [nodup_cons]
      refine ⟨fun h => (mem_evictable.mp h).2.2.1 hid, (nodup_entries table).filter _⟩
  rw [countLiveNamespace, countP_eq_length_filter, hperm.length_eq, length_cons]

theorem mem_evictable_of_mem_selectOldest {limit : ℕ} (h : row ∈ table.selectOldestNamespace
    id.pluginId id.ns id.entryKey now limit) : row ∈ evictable table id now :=
  (mem_insertionSort PluginStateRow.before).mp (mem_of_mem_take h)

theorem nodup_selectOldest (limit : ℕ) : (table.selectOldestNamespace id.pluginId id.ns
    id.entryKey now limit).Nodup := by
  have hsorted : (evictable table id now).insertionSort PluginStateRow.before |>.Nodup :=
    (perm_insertionSort ..).nodup_iff.mpr ((nodup_entries table).filter _)
  exact hsorted.sublist (take_sublist limit _)

/-- What a registration leaves of the namespace. -/
structure LimitedNamespace (table table' : PluginStateTable) (id : PluginStateKey)
    (maxEntries : ℕ+) (now : ℕ) : Prop where
  /-- An entry is kept as it is or evicted. -/
  kept : ∀ key row, table'.find key = some row → table.find key = some row
  own : table'.find id = table.find id
  bound : table'.countLiveNamespace id.pluginId id.ns now ≤ maxEntries
  /-- What is evicted is a live entry of the namespace, and no other one that stays is older. -/
  evicted : ∀ key row, table.find key = some row → table'.find key = none →
    row.inNamespace id.pluginId id.ns = true ∧ row.live now = true ∧
      table'.countLiveNamespace id.pluginId id.ns now = maxEntries ∧
      ∀ key' row', key' ≠ id → table'.find key' = some row' →
        row'.inNamespace id.pluginId id.ns = true → row'.live now = true →
          row.createdAt ≤ row'.createdAt

theorem limitedNamespace_enforce (hrow : table.find id = some row) (hlive : row.live now = true)
    (maxEntries : ℕ+) :
    LimitedNamespace table (enforceNamespaceLimit table id maxEntries now) id maxEntries now := by
  unfold enforceNamespaceLimit
  dsimp only
  split_ifs with hcount
  · set count := table.countLiveNamespace id.pluginId id.ns now with hcountDef
    set oldest := table.selectOldestNamespace id.pluginId id.ns id.entryKey now
      (count - maxEntries) with holdest
    have hfind : ∀ key, (table.deleteOldestNamespace id.pluginId id.ns id.entryKey now
        (count - maxEntries)).find key = (table.find key).filter fun row => row ∉ oldest :=
      fun key => find_filter table _ key
    have hlength : oldest.length = count - maxEntries := by
      have hall : count = (evictable table id now).length + 1 := countLiveNamespace_eq hrow hlive
      have htake : oldest.length = min (count - maxEntries) (evictable table id now).length := by
        rw [holdest, selectOldestNamespace, length_take, length_insertionSort]
        rfl
      have hpos := maxEntries.pos
      omega
    have hmem : ∀ other ∈ oldest, other ∈ evictable table id now :=
      fun other => mem_evictable_of_mem_selectOldest
    have hleft : (table.deleteOldestNamespace id.pluginId id.ns id.entryKey now
        (count - maxEntries)).countLiveNamespace id.pluginId id.ns now = maxEntries := by
      have hsum := countP_filter_notMem (nodup_entries table) (nodup_selectOldest (count - maxEntries))
        (fun other hother => (mem_evictable.mp (hmem other hother)).1) (p := fun row =>
          row.inNamespace id.pluginId id.ns && row.live now) fun other hother => by
            obtain ⟨_, hns, _, hotherLive⟩ := mem_evictable.mp (hmem other hother)
            rw [hns, hotherLive]
            rfl
      have hcountP : count = table.entries.countP fun row =>
        row.inNamespace id.pluginId id.ns && row.live now := rfl
      rw [← holdest, hlength, ← hcountP] at hsum
      show (table.entries.filter fun row => decide (row ∉ oldest)).countP _ = _
      omega
    refine ⟨?_, ?_, hleft.le, ?_⟩
    · intro key row hkey
      rw [hfind, filter_eq_some_iff] at hkey
      exact hkey.1
    · rw [hfind, hrow, filter_some, if_pos]
      exact decide_eq_true fun h => (mem_evictable.mp (hmem row h)).2.2.1 (key_of_find hrow)
    · intro key other hother hnone
      rw [hfind, hother, filter_some] at hnone
      have hevicted : other ∈ oldest := by
        by_contra hnot
        rw [if_pos (decide_eq_true hnot)] at hnone
        cases hnone
      obtain ⟨_, hns, _, hotherLive⟩ := mem_evictable.mp (hmem other hevicted)
      refine ⟨hns, hotherLive, hleft, ?_⟩
      intro key' row' hne hrow' hns' hlive'
      rw [hfind, filter_eq_some_iff] at hrow'
      have hid' : row'.id = key' := key_of_find hrow'.1
      -- it is behind the oldest ones
      have hmem' : row' ∈ evictable table id now :=
        mem_evictable.mpr ⟨mem_of_find hrow'.1, hns', hid' ▸ hne, hlive'⟩
      exact (rel_of_mem_take (pairwise_insertionSort PluginStateRow.before _) hevicted
        ((mem_insertionSort PluginStateRow.before).mpr hmem')
        (of_decide_eq_true hrow'.2)).createdAt_le
  · refine ⟨fun key row hkey => hkey, rfl, Nat.le_of_not_lt hcount, ?_⟩
    intro key other hother hnone
    rw [hother] at hnone
    cases hnone

end OpenClaw
