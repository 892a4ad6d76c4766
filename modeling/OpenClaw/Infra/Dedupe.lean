import Mathlib.Data.List.Nodup
import Mathlib.Data.Rat.Floor
import Mathlib.Tactic.Linarith
import OpenClaw.Text.Basic

/-!
# The dedupe cache

`createDedupeCache` of `dedupe.ts`. The map is the list of its entries and a run is the list of its
calls, both with the latest first.
-/

namespace OpenClaw

open List

/-! ## The cache -/

structure DedupeCacheOptions where
  ttlMs : ℚ
  maxSize : ℚ

structure DedupeCache where
  ttlMs : ℚ
  maxSize : ℕ
  cache : List (Str × ℚ)

variable (options : DedupeCacheOptions)

def createDedupeCache : DedupeCache :=
  ⟨max 0 options.ttlMs, ⌊options.maxSize⌋₊, []⟩

variable (entries : List (Str × ℚ))

/-- `map.delete(key)`. -/
def withoutKey (key : Str) (entries : List (Str × ℚ)) : List (Str × ℚ) :=
  entries.filter fun entry => entry.1 ≠ key

/-- Deletes the oldest entries until `limit` are left. -/
def pruneMapToMaxSize (limit : ℕ) : List (Str × ℚ) := entries.take limit

variable (c : DedupeCache)

variable (key : Str) (now : ℚ)

namespace DedupeCache

def touch : DedupeCache :=
  { c with cache := (key, now) :: withoutKey key c.cache }

def prune : DedupeCache :=
  let live :=
    if 0 < c.ttlMs then c.cache.filter fun entry => ¬ entry.2 < now - c.ttlMs else c.cache
  { c with cache := if c.maxSize = 0 then [] else pruneMapToMaxSize live c.maxSize }

def hasUnexpired (touchOnRead : Bool) : Bool × DedupeCache :=
  match c.cache.find? fun entry => entry.1 = key with
  | none => (false, c)
  | some (_, existing) =>
    if 0 < c.ttlMs ∧ c.ttlMs ≤ now - existing then
      (false, { c with cache := withoutKey key c.cache })
    else (true, if touchOnRead then c.touch key now else c)

def check : Bool × DedupeCache :=
  if key = [] then (false, c)
  else
    match c.hasUnexpired key now true with
    | (true, c) => (true, c)
    | (false, c) => (false, (c.touch key now).prune now)

def peek : Bool × DedupeCache :=
  if key = [] then (false, c) else c.hasUnexpired key now false

def delete : DedupeCache :=
  if key = [] then c else { c with cache := withoutKey key c.cache }

end DedupeCache

/-- Keys that the cache does not pass over. -/
abbrev DedupeKey := { key : Str // key ≠ [] }

inductive DedupeCall where
  | check (key : DedupeKey) (now : ℚ)
  | peek (key : DedupeKey) (now : ℚ)
  | delete (key : DedupeKey)

namespace DedupeCall

def now? : DedupeCall → Option ℚ
  | check _ now | peek _ now => some now
  | delete _ => none

def isPeek : DedupeCall → Bool
  | peek .. => true
  | _ => false

/-- The call checks or deletes the key. -/
def Touches : DedupeCall → Prop
  | check key' _ | delete key' => key' = key
  | peek .. => False

def perform : DedupeCall → DedupeCache
  | check key now => (c.check key now).2
  | peek key now => (c.peek key now).2
  | delete key => c.delete key

end DedupeCall

def DedupeCache.after (c : DedupeCache) : List DedupeCall → DedupeCache
  | [] => c
  | call :: earlier => call.perform (c.after earlier)

/-! ## What is remembered -/

/-- A key that is checked comes in front of all others. -/
def DedupeCall.use : DedupeCall → List (Str × ℚ)
  | .check key now => (key.1, now) :: withoutKey key entries
  | .peek .. => entries
  | .delete key => withoutKey key entries

/-- The keys that were checked and not deleted since, with the times of their last checks. -/
def standing : List DedupeCall → List (Str × ℚ)
  | [] => []
  | call :: earlier => call.use (standing earlier)

/-- The key was checked and not deleted since, its time is not over, and at no time since its
check did `maxSize` other keys stand that were checked since. -/
def Remembers (calls : List DedupeCall) (key : DedupeKey) (now : ℚ) : Prop :=
  ∃ since checked before, calls = since ++ .check key checked :: before ∧
    (∀ call ∈ since, ¬ call.Touches key) ∧
    (options.ttlMs ≤ 0 ∨ now - checked < options.ttlMs) ∧
    ∀ later, later <:+ since → (standing later).length < ⌊options.maxSize⌋₊

variable {key : DedupeKey} {now checked : ℚ} {call : DedupeCall} {calls since : List DedupeCall}
  {c : DedupeCache} {entries newer : List (Str × ℚ)} {options : DedupeCacheOptions}

/-! ## One call -/

/-- The time of the entry is not over. -/
def DedupeCache.IsFresh (c : DedupeCache) (now checked : ℚ) : Prop :=
  c.ttlMs ≤ 0 ∨ now - checked < c.ttlMs

/-- Different keys, and not too many. -/
structure DedupeCache.Sound (c : DedupeCache) : Prop where
  nodup : (c.cache.map Prod.fst).Nodup
  length : c.cache.length ≤ c.maxSize

/-- Where no fresh entry has the key, the one that may have it is deleted. -/
theorem DedupeCache.hasUnexpired_cases (h : c.Sound) (key : DedupeKey) (now : ℚ) (touchOnRead : Bool) :
    (∃ checked, (key.1, checked) ∈ c.cache ∧ c.IsFresh now checked ∧
        c.hasUnexpired key now touchOnRead = (true, if touchOnRead then c.touch key now else c)) ∨
      (∀ checked, (key.1, checked) ∈ c.cache → ¬ c.IsFresh now checked) ∧
        ∃ entries, c.hasUnexpired key now touchOnRead = (false, { c with cache := entries }) ∧
          (entries = c.cache ∨ entries = withoutKey key c.cache) := by
  rw [hasUnexpired]
  cases hfind : c.cache.find? fun entry => entry.1 = key.1 with
  | none =>
    refine .inr ⟨fun checked hmem => ?_, c.cache, rfl, .inl rfl⟩
    have hne := find?_eq_none.mp hfind _ hmem
    simp at hne
  | some entry =>
    have hkey : entry.1 = key.1 := by simpa using find?_some hfind
    have hmem : (key.1, entry.2) ∈ c.cache := hkey ▸ mem_of_find?_eq_some hfind
    dsimp only
    by_cases hover : 0 < c.ttlMs ∧ c.ttlMs ≤ now - entry.2
    · rw [if_pos hover]
      refine .inr ⟨fun checked hchecked hfresh => ?_, _, rfl, .inr rfl⟩
      have heq := (Prod.mk.inj (inj_on_of_nodup_map h.nodup hchecked hmem rfl)).2
      rw [← heq] at hover
      exact hfresh.elim (not_le.mpr hover.1) (not_lt.mpr hover.2)
    · rw [if_neg hover]
      rw [not_and_or, not_lt, not_le] at hover
      exact .inl ⟨entry.2, hmem, hover, rfl⟩

/-- A key that was not found fresh is put in front, and what is too old or too much is left out. -/
theorem DedupeCache.check_cases (h : c.Sound) (key : DedupeKey) (now : ℚ) :
    (∃ checked, (key.1, checked) ∈ c.cache ∧ c.IsFresh now checked ∧
        c.check key now = (true, c.touch key now)) ∨
      (∀ checked, (key.1, checked) ∈ c.cache → ¬ c.IsFresh now checked) ∧
        ∃ live : Str × ℚ → Bool, (∀ entry, c.IsFresh now entry.2 → live entry = true) ∧
          c.check key now = (false, { c with
            cache := (((key.1, now) :: withoutKey key c.cache).filter live).take c.maxSize }) := by
  rw [check, if_neg key.2]
  rcases hasUnexpired_cases h key now true with
    ⟨checked, hmem, hfresh, heq⟩ | ⟨hnot, entries, heq, hentries⟩
  · rw [heq]
    exact .inl ⟨checked, hmem, hfresh, rfl⟩
  · have hwithout : withoutKey key entries = withoutKey key c.cache := by
      rcases hentries with rfl | rfl
      · rfl
      · simp [withoutKey]
    rw [heq]
    refine .inr ⟨hnot, fun entry => ¬(0 < c.ttlMs ∧ entry.2 < now - c.ttlMs), ?_, ?_⟩
    · intro entry hfresh
      rw [decide_eq_true_iff, not_and, not_lt]
      intro hpos
      linarith [hfresh.resolve_left (not_le.mpr hpos)]
    · dsimp only [touch, prune, pruneMapToMaxSize]
      rw [hwithout]
      by_cases hnone : c.maxSize = 0
      · rw [if_pos hnone, hnone, take_zero]
      · rw [if_neg hnone]
        by_cases hpos : 0 < c.ttlMs
        · simp [hpos]
        · simp [hpos]

theorem mem_use (h : (key.1, checked) ∈ call.use entries) :
    call = .check key checked ∨ (key.1, checked) ∈ entries ∧ ¬ call.Touches key := by
  have hwithout : ∀ key', (key.1, checked) ∈ withoutKey key' entries →
      (key.1, checked) ∈ entries ∧ key' ≠ key := by
    intro key' hmem
    obtain ⟨hmem, hne⟩ := mem_filter.mp hmem
    exact ⟨hmem, Ne.symm (of_decide_eq_true hne)⟩
  match call with
  | .peek .. => exact .inr ⟨h, id⟩
  | .delete key' => exact .inr (hwithout key' h)
  | .check key' now =>
    rcases mem_cons.mp h with heq | h
    · obtain ⟨hkey, rfl⟩ := Prod.mk.inj heq
      rw [Subtype.ext hkey]
      exact .inl rfl
    · exact .inr (hwithout key' h)

theorem nodup_use (h : (entries.map Prod.fst).Nodup) : ((call.use entries).map Prod.fst).Nodup := by
  have hwithout : ∀ key, ((withoutKey key entries).map Prod.fst).Nodup := fun key =>
    h.sublist (filter_sublist.map _)
  match call with
  | .peek .. => exact h
  | .delete key => exact hwithout key
  | .check key now => exact nodup_cons.mpr ⟨by simp [withoutKey], hwithout key⟩

theorem perform_spec (h : c.Sound) (call : DedupeCall) :
    ∃ entries, call.perform c = { c with cache := entries } ∧ entries <+ call.use c.cache ∧
      entries.length ≤ c.maxSize := by
  have hfilter : ∀ key, (withoutKey key c.cache).length ≤ c.maxSize := fun key =>
    (length_filter_le _ _).trans h.length
  match call with
  | .delete key => exact ⟨_, if_neg key.2, Sublist.refl _, hfilter key⟩
  | .peek key now =>
    rw [DedupeCall.perform, DedupeCache.peek, if_neg key.2]
    rcases DedupeCache.hasUnexpired_cases h key now false with
      ⟨_, _, _, heq⟩ | ⟨_, entries, heq, rfl | rfl⟩ <;> rw [heq]
    · exact ⟨c.cache, rfl, Sublist.refl _, h.length⟩
    · exact ⟨c.cache, rfl, Sublist.refl _, h.length⟩
    · exact ⟨_, rfl, filter_sublist, hfilter key⟩
  | .check key now =>
    rw [DedupeCall.perform]
    rcases DedupeCache.check_cases h key now with ⟨checked, hmem, _, heq⟩ | ⟨_, live, _, heq⟩ <;>
      rw [heq]
    · have hlt : (withoutKey key c.cache).length < c.cache.length := by
        rw [withoutKey, length_filter_lt_length_iff_exists]
        exact ⟨_, hmem, by simp⟩
      exact ⟨_, rfl, Sublist.refl _, hlt.trans_le h.length⟩
    · exact ⟨_, rfl, (take_sublist _ _).trans filter_sublist, length_take_le _ _⟩

theorem DedupeCache.Sound.perform (h : c.Sound) (call : DedupeCall) : (call.perform c).Sound := by
  obtain ⟨entries, heq, hsub, hlength⟩ := perform_spec h call
  rw [heq]
  exact ⟨(nodup_use h.nodup).sublist (hsub.map _), hlength⟩

theorem notMem_perform (h : c.Sound) (hother : ¬ call.Touches key)
    (hnot : (key.1, checked) ∉ c.cache) : (key.1, checked) ∉ (call.perform c).cache := by
  obtain ⟨entries, heq, hsub, -⟩ := perform_spec h call
  rw [heq]
  intro hmem
  rcases mem_use (hsub.subset hmem) with rfl | ⟨hold, -⟩
  · exact hother rfl
  · exact hnot hold

/-! ## What stands in front of an entry -/

/-- The key was checked at `checked`; `newer` stands in front of its entry. -/
def DedupeCache.Holds (c : DedupeCache) (key : DedupeKey) (checked : ℚ)
    (newer : List (Str × ℚ)) : Prop :=
  (∃ older, c.cache = newer ++ (key.1, checked) :: older) ∧ ∀ entry ∈ newer, checked ≤ entry.2

theorem withoutKey_holds {key' : Str} {older : List (Str × ℚ)} (h : key' ≠ key) :
    withoutKey key' (newer ++ (key.1, checked) :: older) =
      withoutKey key' newer ++ (key.1, checked) :: withoutKey key' older := by
  simp [withoutKey, h.symm]

/-- A call of another key at a time when the entry is fresh leaves it in the cache, if there is
room for it and what stands in front of it then. -/
theorem DedupeCache.Holds.perform (h : c.Holds key checked newer) (hsound : c.Sound)
    (hother : ¬ call.Touches key)
    (hnow : ∀ now, call.now? = some now → checked ≤ now ∧ c.IsFresh now checked) :
    if (call.use newer).length < c.maxSize then (call.perform c).Holds key checked (call.use newer)
    else (key.1, checked) ∉ (call.perform c).cache := by
  obtain ⟨⟨older, hcache⟩, hnewer⟩ := h
  have hlength := hsound.length
  rw [hcache, length_append, length_cons] at hlength
  have hwithout : ∀ key', ∀ entry ∈ withoutKey key' newer, checked ≤ entry.2 := fun key' entry hentry =>
    hnewer entry (mem_of_mem_filter hentry)
  match call with
  | .delete key' =>
    have hle := length_filter_le (fun entry => decide (entry.1 ≠ key'.1)) newer
    have hfits : (DedupeCall.use newer (.delete key')).length < c.maxSize := by
      show (withoutKey key' newer).length < _
      rw [withoutKey]
      omega
    rw [if_pos hfits]
    refine ⟨⟨withoutKey key' older, ?_⟩, hwithout key'⟩
    rw [DedupeCall.perform, DedupeCache.delete, if_neg key'.2, hcache]
    exact withoutKey_holds hother
  | .peek key' now =>
    obtain ⟨hle, hfresh⟩ := hnow now rfl
    have hfits : (DedupeCall.use newer (.peek key' now)).length < c.maxSize := by
      show newer.length < _
      omega
    rw [if_pos hfits]
    refine ⟨?_, hnewer⟩
    rw [DedupeCall.perform, DedupeCache.peek, if_neg key'.2]
    rcases DedupeCache.hasUnexpired_cases hsound key' now false with
      ⟨_, _, _, heq⟩ | ⟨hnot, entries, heq, rfl | rfl⟩ <;> rw [heq]
    · exact ⟨older, hcache⟩
    · exact ⟨older, hcache⟩
    · -- neither the entry nor one in front of it is over
      have hkept : ∀ entry ∈ newer ++ [(key.1, checked)], decide (entry.1 ≠ key'.1) = true := by
        refine fun entry hentry => decide_eq_true fun heq => ?_
        have hmem : (key'.1, entry.2) ∈ c.cache := by
          rw [hcache, ← heq, append_cons]
          exact mem_append_left _ hentry
        have hsince : checked ≤ entry.2 := by
          rcases mem_append.mp hentry with hentry | hentry
          · exact hnewer entry hentry
          · rw [mem_singleton.mp hentry]
        exact hnot _ hmem (hfresh.imp_right fun hlt => by linarith)
      refine ⟨withoutKey key' older, ?_⟩
      show withoutKey key' c.cache = _
      rw [hcache, append_cons, withoutKey, filter_append, filter_eq_self.mpr hkept, append_assoc]
      rfl
  | .check key' now =>
    obtain ⟨hle, hfresh⟩ := hnow now rfl
    have huse : (key'.1, now) :: withoutKey key' c.cache =
        DedupeCall.use newer (.check key' now) ++ (key.1, checked) :: withoutKey key' older := by
      rw [hcache, withoutKey_holds hother]
      rfl
    have hused : ∀ entry ∈ DedupeCall.use newer (.check key' now), checked ≤ entry.2 := by
      intro entry hentry
      rcases mem_cons.mp hentry with rfl | hentry
      · exact hle
      · exact hwithout key' entry hentry
    have hnodup := @nodup_use (.check key' now) _ hsound.nodup
    obtain ⟨entries, hspec, -, hsize⟩ := perform_spec hsound (.check key' now)
    rw [DedupeCall.perform] at hspec ⊢
    rcases DedupeCache.check_cases hsound key' now with ⟨_, _, _, heq⟩ | ⟨_, live, hlive, heq⟩
    · rw [heq, DedupeCache.touch, huse] at hspec ⊢
      rw [← show _ = entries from congrArg DedupeCache.cache hspec, length_append, length_cons] at hsize
      have hfits : (DedupeCall.use newer (.check key' now)).length < c.maxSize := by omega
      rw [if_pos hfits]
      exact ⟨⟨_, rfl⟩, hused⟩
    · have hall : ∀ entry ∈ DedupeCall.use newer (.check key' now), live entry = true :=
        fun entry hentry => hlive entry (hfresh.imp_right fun hlt => by linarith [hused entry hentry])
      rw [heq, huse, filter_append, filter_eq_self.mpr hall, filter_cons_of_pos (hlive _ hfresh)]
      rw [DedupeCall.use, huse, map_append, map_cons] at hnodup
      split_ifs with hfits
      · obtain ⟨room, hroom⟩ := Nat.exists_eq_add_of_lt hfits
        refine ⟨⟨((withoutKey key' older).filter live).take room, ?_⟩, hused⟩
        show take c.maxSize _ = _
        rw [hroom, add_assoc, take_length_add_append, take_succ_cons]
      · show _ ∉ take _ _
        rw [take_append_of_le_length (not_lt.mp hfits)]
        intro hmem
        have hdisjoint := (nodup_append.mp hnodup).2.2 _ (mem_map_of_mem (take_subset _ _ hmem)) _
          mem_cons_self
        exact hdisjoint rfl

/-! ## Runs -/

theorem DedupeCache.Sound.after (h : c.Sound) (calls : List DedupeCall) :
    (c.after calls).Sound ∧ (c.after calls).ttlMs = c.ttlMs ∧
      (c.after calls).maxSize = c.maxSize := by
  induction calls with
  | nil => exact ⟨h, rfl, rfl⟩
  | cons call earlier ih =>
    obtain ⟨entries, heq, -⟩ := perform_spec ih.1 call
    have hsound := ih.1.perform call
    rw [DedupeCache.after]
    exact ⟨hsound, heq ▸ ih.2.1, heq ▸ ih.2.2⟩

/-- A key that is checked is in the cache, if there is room at all. -/
theorem holds_check (h : c.Sound) (key : DedupeKey) (checked : ℚ) (hroom : 0 < c.maxSize) :
    (c.check key checked).2.Holds key checked [] := by
  refine ⟨?_, fun _ hentry => nomatch hentry⟩
  rcases DedupeCache.check_cases h key checked with ⟨_, _, _, heq⟩ | ⟨_, live, hlive, heq⟩ <;> rw [heq]
  · exact ⟨withoutKey key c.cache, rfl⟩
  · have hfresh : c.IsFresh checked checked := by
      rw [DedupeCache.IsFresh, sub_self]
      exact le_or_gt _ _
    obtain ⟨room, hroom⟩ := Nat.exists_eq_add_of_lt hroom
    rw [filter_cons_of_pos (hlive _ hfresh), hroom, Nat.zero_add, take_succ_cons]
    exact ⟨_, rfl⟩

/-- While its entry is fresh, a key stays as long as there is room for it and the keys that were
checked since. -/
theorem holds_after (h : c.Sound) (before : List DedupeCall)
    (hother : ∀ call ∈ since, ¬ call.Touches key)
    (htimes : ∀ now ∈ since.filterMap DedupeCall.now?, checked ≤ now ∧ c.IsFresh now checked) :
    (∀ later, later <:+ since → (standing later).length < c.maxSize) ∧
        (c.after (since ++ .check key checked :: before)).Holds key checked (standing since) ∨
      (¬ ∀ later, later <:+ since → (standing later).length < c.maxSize) ∧
        (key.1, checked) ∉ (c.after (since ++ .check key checked :: before)).cache := by
  induction since with
  | nil =>
    obtain ⟨hsound, -, hsize⟩ := h.after before
    rcases Nat.eq_zero_or_pos c.maxSize with hzero | hpos
    · refine .inr ⟨fun hall => ?_, ?_⟩
      · have hlt := hall [] (suffix_refl _)
        omega
      · obtain ⟨hsound', -, hsize'⟩ := h.after (.check key checked :: before)
        have hlength := hsound'.length
        rw [hsize', hzero, Nat.le_zero, length_eq_zero_iff] at hlength
        rw [nil_append, hlength]
        exact not_mem_nil
    · refine .inl ⟨fun later hlater => ?_, holds_check hsound key checked (hsize ▸ hpos)⟩
      rw [suffix_nil.mp hlater]
      exact hpos
  | cons call since ih =>
    obtain ⟨hsound, httl, hsize⟩ := h.after (since ++ .check key checked :: before)
    have htouches := hother call mem_cons_self
    rcases ih (fun call hcall => hother call (mem_cons_of_mem _ hcall)) fun now hnow =>
      htimes now (((sublist_cons_self call since).filterMap _).subset hnow) with
      ⟨hroom, hholds⟩ | ⟨hfull, hnot⟩
    · have hstep := hholds.perform hsound htouches fun now hnow => by
        rw [DedupeCache.IsFresh, httl]
        exact htimes now (mem_filterMap.mpr ⟨call, mem_cons_self, hnow⟩)
      rw [hsize] at hstep
      by_cases hfits : (call.use (standing since)).length < c.maxSize
      · rw [if_pos hfits] at hstep
        refine .inl ⟨fun later hlater => ?_, hstep⟩
        rcases suffix_cons_iff.mp hlater with rfl | hlater
        · exact hfits
        · exact hroom later hlater
      · rw [if_neg hfits] at hstep
        exact .inr ⟨fun hall => hfits (hall _ (suffix_refl _)), hstep⟩
    · exact .inr ⟨fun hall => hfull fun later hlater => hall later (hlater.trans (suffix_cons _ _)),
        notMem_perform hsound htouches hnot⟩

/-- The time of an entry is the one of the last check of its key. -/
theorem exists_checked (h : c.Sound) (hempty : c.cache = [])
    (hmem : (key.1, checked) ∈ (c.after calls).cache) :
    ∃ since before, calls = since ++ .check key checked :: before ∧
      ∀ call ∈ since, ¬ call.Touches key := by
  induction calls with
  | nil =>
    rw [DedupeCache.after, hempty] at hmem
    exact nomatch hmem
  | cons call earlier ih =>
    obtain ⟨entries, heq, hsub, -⟩ := perform_spec (h.after earlier).1 call
    rw [DedupeCache.after, heq] at hmem
    rcases mem_use (hsub.subset hmem) with rfl | ⟨hold, hother⟩
    · exact ⟨[], earlier, rfl, fun _ hcall => nomatch hcall⟩
    · obtain ⟨since, before, rfl, hsince⟩ := ih hold
      exact ⟨call :: since, before, rfl, forall_mem_cons.mpr ⟨hother, hsince⟩⟩

/-! ## Answers -/

theorem fst_check_iff (h : c.Sound) :
    ((c.check key now).1 = true ↔ ∃ checked, (key.1, checked) ∈ c.cache ∧ c.IsFresh now checked) ∧
      (c.peek key now).1 = (c.check key now).1 := by
  rw [DedupeCache.peek, if_neg key.2]
  rcases DedupeCache.check_cases h key now with ⟨checked, hmem, hfresh, heq⟩ | ⟨hnot, _, _, heq⟩ <;>
    rw [heq] <;>
  rcases DedupeCache.hasUnexpired_cases h key now false with
    ⟨_, hmem', hfresh', heq'⟩ | ⟨hnot', _, heq', -⟩ <;> rw [heq']
  · exact ⟨iff_of_true rfl ⟨checked, hmem, hfresh⟩, rfl⟩
  · exact absurd hfresh (hnot' checked hmem)
  · exact absurd hfresh' (hnot _ hmem')
  · exact ⟨iff_of_false (fun htrue => nomatch htrue) fun ⟨_, hmem, hfresh⟩ => hnot _ hmem hfresh, rfl⟩

theorem remembers_filter : Remembers options (calls.filter fun call => !call.isPeek) key now ↔
    Remembers options calls key now := by
  have hstanding : ∀ calls : List DedupeCall,
      standing (calls.filter fun call => !call.isPeek) = standing calls := by
    intro calls
    induction calls with
    | nil => rfl
    | cons call calls ih =>
      cases call with
      | peek => exact ih
      | check key now => exact congrArg (DedupeCall.use · (.check key now)) ih
      | delete key => exact congrArg (DedupeCall.use · (.delete key)) ih
  constructor
  · rintro ⟨_, checked, _, heq, hother, hfresh, hroom⟩
    obtain ⟨first, rest, rfl, rfl, hrest⟩ := filter_eq_append_iff.mp heq
    obtain ⟨skipped, before, rfl, hskipped, -, -⟩ := filter_eq_cons_iff.mp hrest
    have hsince : (first ++ skipped).filter (fun call => !call.isPeek) =
        first.filter fun call => !call.isPeek := by
      rw [filter_append, filter_eq_nil_iff.mpr hskipped, append_nil]
    refine ⟨first ++ skipped, checked, before, by simp, fun call hcall htouches => ?_, hfresh, ?_⟩
    · refine hother call ?_ htouches
      rw [← hsince, mem_filter]
      refine ⟨hcall, ?_⟩
      cases call <;> first | rfl | exact htouches.elim
    · intro later hlater
      rw [← hstanding]
      exact hroom _ (hsince ▸ hlater.filter _)
  · rintro ⟨since, checked, before, rfl, hother, hfresh, hroom⟩
    refine ⟨since.filter _, checked, before.filter _, filter_append _ _,
      fun call hcall => hother call (mem_of_mem_filter hcall), hfresh, fun later hlater => ?_⟩
    obtain ⟨whole, hwhole, rfl⟩ := suffix_filter_iff.mp hlater
    rw [hstanding]
    exact hroom whole hwhole

theorem fst_check_iff_remembers (key : DedupeKey) (options : DedupeCacheOptions)
    (htimes : (now :: calls.filterMap DedupeCall.now?).Pairwise (· ≥ ·)) :
    (((createDedupeCache options).after calls).check key now).1 = true ↔
      Remembers options calls key now := by
  have hempty : (createDedupeCache options).Sound := ⟨nodup_nil, Nat.zero_le _⟩
  obtain ⟨hsound, httl, -⟩ := hempty.after calls
  have hage : ∀ time checked, (createDedupeCache options).IsFresh time checked ↔
      (options.ttlMs ≤ 0 ∨ time - checked < options.ttlMs) := by
    intro time checked
    rw [DedupeCache.IsFresh, createDedupeCache]
    rcases le_or_gt options.ttlMs 0 with hle | hlt
    · simp [hle]
    · simp [hlt.le, hlt.not_ge]
  -- between the check of a fresh entry and now it is fresh
  have hkept : ∀ since checked before, calls = since ++ .check key checked :: before →
      (∀ call ∈ since, ¬ call.Touches key) →
      (options.ttlMs ≤ 0 ∨ now - checked < options.ttlMs) →
      ((key.1, checked) ∈ ((createDedupeCache options).after calls).cache ↔
        ∀ later, later <:+ since → (standing later).length < ⌊options.maxSize⌋₊) := by
    rintro since checked before rfl hother hfresh
    have hsince : ∀ time ∈ since.filterMap DedupeCall.now?, checked ≤ time ∧
        (createDedupeCache options).IsFresh time checked := by
      intro time htime
      rw [filterMap_append, pairwise_cons, pairwise_append] at htimes
      have hle := htimes.2.2.2 time htime checked mem_cons_self
      have hnow := htimes.1 time (mem_append_left _ htime)
      exact ⟨hle, (hage time checked).mpr (hfresh.imp_right fun hlt => by linarith)⟩
    rcases holds_after hempty before hother hsince with ⟨hroom, ⟨older, hcache⟩, -⟩ | ⟨hfull, hnot⟩
    · exact iff_of_true (hcache ▸ mem_append_right _ mem_cons_self) hroom
    · exact iff_of_false hnot hfull
  rw [(fst_check_iff hsound).1]
  simp only [DedupeCache.IsFresh, httl]
  constructor
  · rintro ⟨checked, hmem, hfresh⟩
    obtain ⟨since, before, heq, hother⟩ := exists_checked hempty rfl hmem
    have hfresh := (hage now checked).mp hfresh
    exact ⟨since, checked, before, heq, hother, hfresh,
      (hkept since checked before heq hother hfresh).mp hmem⟩
  · rintro ⟨since, checked, before, heq, hother, hfresh, hroom⟩
    exact ⟨checked, (hkept since checked before heq hother hfresh).mpr hroom,
      (hage now checked).mpr hfresh⟩

/-- The cache remembers the keys whose time is not over and for which there was room all the time;
a peek gives the same answer and changes no later one. -/
theorem check_eq_true_iff_remembers (options : DedupeCacheOptions) (calls : List DedupeCall)
    (key : DedupeKey) (now : ℚ)
    (htimes : (now :: calls.filterMap DedupeCall.now?).Pairwise (· ≥ ·)) :
    let c := (createDedupeCache options).after calls
    ((c.check key now).1 = true ↔ Remembers options calls key now) ∧
      (c.peek key now).1 = (c.check key now).1 ∧
      (((createDedupeCache options).after (calls.filter fun call => !call.isPeek)).check key now).1 =
        (c.check key now).1 ∧
      (c.check key now).2.cache.length ≤ ⌊options.maxSize⌋₊ := by
  have hempty : (createDedupeCache options).Sound := ⟨nodup_nil, Nat.zero_le _⟩
  have hsound := (hempty.after calls).1
  have hiff := fst_check_iff_remembers key options htimes
  have hwithout := @fst_check_iff_remembers now (calls.filter fun call => !call.isPeek) key options
    (htimes.sublist ((filter_sublist.filterMap _).cons_cons now))
  refine ⟨hiff, (fst_check_iff hsound).2,
    Bool.eq_iff_iff.mpr (hwithout.trans (remembers_filter.trans hiff.symm)), ?_⟩
  obtain ⟨hchecked, -, hsize⟩ := hempty.after (.check key now :: calls)
  exact hchecked.length.trans (le_of_eq hsize)

theorem check_eq_true_iff_remembers_one : let key : DedupeKey := ⟨['k'], by decide⟩
    let calls : List DedupeCall := [.peek ⟨['a'], by decide⟩ 2, .check key 0]
    (((createDedupeCache ⟨10, 1⟩).after calls).check key 9).1 = true ↔
      Remembers ⟨10, 1⟩ calls key 9 :=
  (check_eq_true_iff_remembers ⟨10, 1⟩ [.peek ⟨['a'], by decide⟩ 2, .check ⟨['k'], by decide⟩ 0]
    ⟨['k'], by decide⟩ 9 (by decide)).1

/-- A deleted key takes no room: two other keys were checked since, but `k` is remembered. -/
theorem exists_remembered_beyond_maxSize :
    let since : List DedupeCall := [.check ⟨['b'], by decide⟩ 0, .delete ⟨['a'], by decide⟩,
      .check ⟨['a'], by decide⟩ 0]
    (((createDedupeCache ⟨0, 2⟩).after (since ++ [.check ⟨['k'], by decide⟩ 0])).check ['k'] 0).1 =
      true := by
  decide +kernel

end OpenClaw
