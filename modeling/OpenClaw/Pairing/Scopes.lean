import Mathlib.Data.List.Dedup
import OpenClaw.Text.Order

/-!
# Roles and scopes

`operator-scope-compat.ts`, `device-auth.ts` and `device-bootstrap-profile.ts`: lists of roles and
scopes as they are written and compared.
-/

namespace OpenClaw

open List

/-! ## Scopes -/

def operatorRole : Str := "operator".toList

def operatorAdminScope : Str := "operator.admin".toList

def operatorReadScope : Str := "operator.read".toList

def operatorWriteScope : Str := "operator.write".toList

def operatorScopePrefix : Str := "operator.".toList

variable (scopes : List Str)

/-- The trimmed entries that are not blank, each once. -/
def normalizeScopeList : List Str := ((scopes.map trim).filter (· ≠ [])).dedup

def operatorScopeSatisfied (requestedScope : Str) (granted : List Str) : Bool :=
  if startsWith requestedScope operatorScopePrefix = false then false
  else if operatorAdminScope ∈ granted then true
  else if requestedScope = operatorReadScope then
    decide (operatorReadScope ∈ granted) || decide (operatorWriteScope ∈ granted)
  else if requestedScope = operatorWriteScope then decide (operatorWriteScope ∈ granted)
  else decide (requestedScope ∈ granted)

def roleScopesAllow (role : Str) (requestedScopes allowedScopes : List Str) : Bool :=
  let requested := normalizeScopeList requestedScopes
  if requested = [] then true
  else
    let allowed := normalizeScopeList allowedScopes
    if allowed = [] then false
    else if trim role ≠ operatorRole then
      requested.all fun scope =>
        startsWith scope (trim role ++ ".".toList) && decide (scope ∈ allowed)
    else requested.all (operatorScopeSatisfied · allowed)

/-- `set.add(entry)` on a list without repetitions. -/
def addEntry (out : List Str) (entry : Str) : List Str := if entry ∈ out then out else out ++ [entry]

/-- The scopes that come with others. -/
def addImpliedScopes (out : List Str) : List Str :=
  if operatorAdminScope ∈ out then addEntry (addEntry out operatorReadScope) operatorWriteScope
  else if operatorWriteScope ∈ out then addEntry out operatorReadScope
  else out

def normalizeDeviceAuthScopes : List Str :=
  (addImpliedScopes (normalizeScopeList scopes)).insertionSort stringLe

/-! ## Profiles -/

structure DeviceBootstrapProfile where
  roles : List Str
  scopes : List Str
deriving DecidableEq

structure DeviceBootstrapProfileInput where
  roles : Option (List Str)
  scopes : Option (List Str)

/-- `BOOTSTRAP_HANDOFF_OPERATOR_SCOPES` -/
def bootstrapHandoffOperatorScopes : List Str :=
  ["operator.approvals".toList, "operator.read".toList, "operator.talk.secrets".toList,
    "operator.write".toList]

/-- `PAIRING_SETUP_BOOTSTRAP_PROFILE` -/
def pairingSetupBootstrapProfile : DeviceBootstrapProfile := ⟨["node".toList], []⟩

def resolveBootstrapProfileScopesForRole (role : Str) (scopes : List Str) : List Str :=
  if trim role = operatorRole then
    (normalizeDeviceAuthScopes scopes).filter (· ∈ bootstrapHandoffOperatorScopes)
  else []

def resolveBootstrapProfileScopesForRoles (roles scopes : List Str) : List Str :=
  normalizeDeviceAuthScopes
    (roles.flatMap fun role => resolveBootstrapProfileScopesForRole role scopes)

def normalizeBootstrapRoles (roles : List Str) : List Str :=
  (normalizeScopeList roles).insertionSort stringLe

def normalizeDeviceBootstrapProfile (input : DeviceBootstrapProfileInput) :
    DeviceBootstrapProfile :=
  ⟨normalizeBootstrapRoles (input.roles.getD []), normalizeDeviceAuthScopes (input.scopes.getD [])⟩

variable (p : DeviceBootstrapProfile)

/-- A profile given as an input. -/
def DeviceBootstrapProfile.input : DeviceBootstrapProfileInput :=
  ⟨some p.roles, some p.scopes⟩

def normalizeDeviceBootstrapHandoffProfile (input : DeviceBootstrapProfileInput) :
    DeviceBootstrapProfile :=
  let profile := normalizeDeviceBootstrapProfile input
  ⟨profile.roles, resolveBootstrapProfileScopesForRoles profile.roles profile.scopes⟩

/-! ## Normal forms -/

section

variable {role scope : Str} {roles scopes granted : List Str}

@[simp]
theorem mem_normalizeScopeList :
    scope ∈ normalizeScopeList scopes ↔ scope ≠ [] ∧ ∃ s ∈ scopes, trim s = scope := by
  unfold normalizeScopeList
  rw [mem_dedup, mem_filter, mem_map, decide_eq_true_eq]
  exact and_comm

theorem trim_of_mem_normalizeScopeList (h : scope ∈ normalizeScopeList scopes) :
    trim scope = scope := by
  obtain ⟨_, s, _, rfl⟩ := mem_normalizeScopeList.mp h
  exact trim_trim s

/-- A list of trimmed entries without repetitions. -/
structure IsScopeList (scopes : List Str) : Prop where
  nodup : scopes.Nodup
  trimmed : ∀ scope ∈ scopes, trim scope = scope ∧ scope ≠ []

theorem isScopeList_normalize (scopes : List Str) : IsScopeList (normalizeScopeList scopes) :=
  ⟨nodup_dedup _, fun _ h =>
    ⟨trim_of_mem_normalizeScopeList h, (mem_normalizeScopeList.mp h).1⟩⟩

theorem IsScopeList.normalize_eq (h : IsScopeList scopes) : normalizeScopeList scopes = scopes := by
  have hmap : scopes.map trim = scopes :=
    (map_congr_left fun s hs => (h.trimmed s hs).1).trans (map_id _)
  have hfilter : scopes.filter (· ≠ []) = scopes :=
    filter_eq_self.mpr fun s hs => decide_eq_true (h.trimmed s hs).2
  unfold normalizeScopeList
  rw [hmap, hfilter, h.nodup.dedup]

theorem IsScopeList.sort (h : IsScopeList scopes) : IsScopeList (scopes.insertionSort stringLe) :=
  ⟨(perm_insertionSort stringLe scopes).nodup_iff.mpr h.nodup,
    fun s hs => h.trimmed s ((mem_insertionSort stringLe).mp hs)⟩

theorem mem_addEntry {entry : Str} : scope ∈ addEntry scopes entry ↔ scope ∈ scopes ∨ scope = entry := by
  unfold addEntry
  split
  · next h =>
    constructor
    · exact Or.inl
    · rintro (hmem | rfl)
      · exact hmem
      · exact h
  · rw [mem_append, mem_singleton]

theorem IsScopeList.add (h : IsScopeList scopes) {entry : Str} (hentry : trim entry = entry)
    (hne : entry ≠ []) : IsScopeList (addEntry scopes entry) := by
  constructor
  · unfold addEntry
    split
    · exact h.nodup
    · next hnot =>
      rw [nodup_append]
      refine ⟨h.nodup, nodup_singleton _, ?_⟩
      intro a ha b hb
      rw [mem_singleton.mp hb]
      rintro rfl
      exact hnot ha
  · intro s hs
    rcases mem_addEntry.mp hs with hs | rfl
    · exact h.trimmed s hs
    · exact ⟨hentry, hne⟩

theorem IsScopeList.implied (h : IsScopeList scopes) : IsScopeList (addImpliedScopes scopes) := by
  unfold addImpliedScopes
  split
  · exact (h.add (by decide) (by decide)).add (by decide) (by decide)
  · split
    · exact h.add (by decide) (by decide)
    · exact h

theorem mem_addImpliedScopes : scope ∈ addImpliedScopes scopes ↔ scope ∈ scopes ∨
      scope = operatorReadScope ∧ (operatorAdminScope ∈ scopes ∨ operatorWriteScope ∈ scopes) ∨
      scope = operatorWriteScope ∧ operatorAdminScope ∈ scopes := by
  unfold addImpliedScopes
  by_cases hadmin : operatorAdminScope ∈ scopes
  · rw [if_pos hadmin, mem_addEntry, mem_addEntry, or_assoc, and_iff_left (Or.inl hadmin),
      and_iff_left hadmin]
  · rw [if_neg hadmin]
    by_cases hwrite : operatorWriteScope ∈ scopes
    · rw [if_pos hwrite, mem_addEntry]
      constructor
      · exact Or.imp_right fun heq => Or.inl ⟨heq, Or.inr hwrite⟩
      · rintro (hmem | ⟨heq, _⟩ | ⟨_, h⟩)
        · exact Or.inl hmem
        · exact Or.inr heq
        · exact absurd h hadmin
    · rw [if_neg hwrite]
      constructor
      · exact Or.inl
      · rintro (hmem | ⟨_, h⟩ | ⟨_, h⟩)
        · exact hmem
        · exact absurd h (not_or.mpr ⟨hadmin, hwrite⟩)
        · exact absurd h hadmin

/-- The implied scopes are there already. -/
structure HasImplied (scopes : List Str) : Prop where
  admin : operatorAdminScope ∈ scopes → operatorReadScope ∈ scopes ∧ operatorWriteScope ∈ scopes
  write : operatorWriteScope ∈ scopes → operatorReadScope ∈ scopes

theorem HasImplied.add_eq (h : HasImplied scopes) : addImpliedScopes scopes = scopes := by
  unfold addImpliedScopes
  split
  · next hadmin =>
    have hread : addEntry scopes operatorReadScope = scopes := if_pos (h.admin hadmin).1
    rw [hread]
    exact if_pos (h.admin hadmin).2
  · split
    · next hwrite => exact if_pos (h.write hwrite)
    · rfl

theorem mem_addImpliedScopes_admin :
    operatorAdminScope ∈ addImpliedScopes scopes ↔ operatorAdminScope ∈ scopes := by
  rw [mem_addImpliedScopes]
  constructor
  · rintro (hmem | ⟨heq, _⟩ | ⟨heq, _⟩)
    · exact hmem
    · exact nomatch heq
    · exact absurd heq (by decide)
  · exact Or.inl

theorem hasImplied_add (scopes : List Str) : HasImplied (addImpliedScopes scopes) where
  admin := by
    intro h
    have hadmin := mem_addImpliedScopes_admin.mp h
    exact ⟨mem_addImpliedScopes.mpr (Or.inr (Or.inl ⟨rfl, Or.inl hadmin⟩)),
      mem_addImpliedScopes.mpr (Or.inr (Or.inr ⟨rfl, hadmin⟩))⟩
  write := by
    intro h
    rcases mem_addImpliedScopes.mp h with hmem | ⟨heq, _⟩ | ⟨_, hadmin⟩
    · exact mem_addImpliedScopes.mpr (Or.inr (Or.inl ⟨rfl, Or.inr hmem⟩))
    · exact nomatch heq
    · exact mem_addImpliedScopes.mpr (Or.inr (Or.inl ⟨rfl, Or.inl hadmin⟩))

theorem mem_normalizeDeviceAuthScopes : scope ∈ normalizeDeviceAuthScopes scopes ↔
    scope ∈ addImpliedScopes (normalizeScopeList scopes) := mem_insertionSort stringLe

theorem isScopeList_normalizeDeviceAuthScopes (scopes : List Str) :
    IsScopeList (normalizeDeviceAuthScopes scopes) :=
  (isScopeList_normalize scopes).implied.sort

theorem hasImplied_normalizeDeviceAuthScopes (scopes : List Str) :
    HasImplied (normalizeDeviceAuthScopes scopes) := by
  have h := hasImplied_add (normalizeScopeList scopes)
  constructor
  · simp only [mem_normalizeDeviceAuthScopes]
    exact h.admin
  · simp only [mem_normalizeDeviceAuthScopes]
    exact h.write

/-- Sorted trimmed scopes with the implied ones are their own normal form. -/
theorem normalizeDeviceAuthScopes_eq_self (h : IsScopeList scopes) (himplied : HasImplied scopes)
    (hsorted : scopes.Pairwise stringLe) : normalizeDeviceAuthScopes scopes = scopes := by
  unfold normalizeDeviceAuthScopes
  rw [h.normalize_eq, himplied.add_eq]
  exact hsorted.insertionSort_eq

@[simp]
theorem normalizeDeviceAuthScopes_idem (scopes : List Str) :
    normalizeDeviceAuthScopes (normalizeDeviceAuthScopes scopes) = normalizeDeviceAuthScopes scopes :=
  normalizeDeviceAuthScopes_eq_self (isScopeList_normalizeDeviceAuthScopes scopes)
    (hasImplied_normalizeDeviceAuthScopes scopes) (pairwise_insertionSort stringLe _)

@[simp]
theorem normalizeBootstrapRoles_idem (roles : List Str) :
    normalizeBootstrapRoles (normalizeBootstrapRoles roles) = normalizeBootstrapRoles roles := by
  have hroles := isScopeList_normalize roles
  unfold normalizeBootstrapRoles
  rw [hroles.sort.normalize_eq]
  exact (pairwise_insertionSort stringLe _).insertionSort_eq

theorem mem_normalizeBootstrapRoles :
    role ∈ normalizeBootstrapRoles roles ↔ role ≠ [] ∧ ∃ r ∈ roles, trim r = role := by
  unfold normalizeBootstrapRoles
  rw [mem_insertionSort, mem_normalizeScopeList]

/-- What every profile of the code is: a normal form. -/
def DeviceBootstrapProfile.Normal : Prop :=
  normalizeDeviceBootstrapProfile p.input = p

theorem normal_normalize (input : DeviceBootstrapProfileInput) :
    (normalizeDeviceBootstrapProfile input).Normal := by
  show (⟨_, _⟩ : DeviceBootstrapProfile) = ⟨_, _⟩
  rw [DeviceBootstrapProfile.mk.injEq]
  exact ⟨normalizeBootstrapRoles_idem _, normalizeDeviceAuthScopes_idem _⟩

theorem normal_handoff (input : DeviceBootstrapProfileInput) :
    (normalizeDeviceBootstrapHandoffProfile input).Normal := by
  show (⟨_, _⟩ : DeviceBootstrapProfile) = ⟨_, _⟩
  rw [DeviceBootstrapProfile.mk.injEq]
  exact ⟨normalizeBootstrapRoles_idem _, normalizeDeviceAuthScopes_idem _⟩

end

end OpenClaw
