import OpenClaw.Text.Basic

/-!
# Ids of tool calls

`sanitizeToolCallId` and `makeUniqueToolId` of `tool-call-id.ts`.
-/

namespace OpenClaw

open List Option

inductive ToolCallIdMode where
  | strict | strict9
deriving DecidableEq

/-- A digit of a hex digest. -/
def isHexDigit (c : Char) : Bool := c.isDigit || ('a' ≤ c && c ≤ 'f')

/-- What the allocation of ids takes from the process. -/
structure ToolIdHost extends Host where
  /-- `createHash("sha256").update(text).digest("hex")`. -/
  sha256Hex : Str → Str
  /-- The readings of `Date.now()`, one after the other. -/
  dateNow : ℕ → ℕ
  sha256Hex_length : ∀ text, (sha256Hex text).length = 64
  sha256Hex_digits : ∀ text, ∀ c ∈ sha256Hex text, isHexDigit c = true

/-- `String(n)`. -/
def decimal (n : ℕ) : Str := (Nat.repr n).toList

def strict9Len : ℕ := 9

/-- `MAX_LEN` -/
def maxToolIdLen : ℕ := 40

/-! ## Forms of ids -/

variable (id : Str)

/-- `/^toolu_[A-Za-z0-9_]+$/` -/
def isNativeAnthropicToolUseId : Bool :=
  startsWith id "toolu_".toList && !(id.drop 6).isEmpty &&
    (id.drop 6).all fun c => c.isAlphanum || c = '_'

/-- `[A-Za-z0-9_-]` -/
def isKimiNameChar (c : Char) : Bool := c.isAlphanum || c = '_' || c = '-'

/-- `/^functions\.[A-Za-z0-9_-]+:\d+$/` -/
def isNativeKimiToolCallId : Bool :=
  let name := (id.drop 10).takeWhile isKimiNameChar
  startsWith id "functions.".toList && !name.isEmpty &&
    match id.drop (10 + name.length) with
    | ':' :: digits => !digits.isEmpty && digits.all Char.isDigit
    | _ => false

def isValidCloudCodeAssistToolId (mode : ToolCallIdMode) : Bool :=
  match mode with
  | .strict9 => id.length = strict9Len && id.all Char.isAlphanum
  | .strict => (!id.isEmpty && id.all Char.isAlphanum) || isNativeKimiToolCallId id

/-! ## Making an id -/

variable (host : ToolIdHost)

def shortHash (text : Str) (length : ℕ) : Str :=
  (host.sha256Hex text).take length

def sanitizeToolCallId (id : Str) (mode : ToolCallIdMode) : Str :=
  if id = [] then
    match mode with
    | .strict9 => "defaultid".toList
    | .strict => "defaulttoolid".toList
  else
    let alphanumericOnly := id.filter Char.isAlphanum
    match mode with
    | .strict9 =>
      if strict9Len ≤ alphanumericOnly.length then alphanumericOnly.take strict9Len
      else if 0 < alphanumericOnly.length then shortHash host alphanumericOnly strict9Len
      else shortHash host "sanitized".toList strict9Len
    | .strict =>
      if isNativeKimiToolCallId id then id
      else if 0 < alphanumericOnly.length then alphanumericOnly else "sanitizedtoolid".toList

/-- `candidate` of the strict mode, where the separator is empty. -/
def hashedToolId (id : Str) : Str :=
  let base := (sanitizeToolCallId host id .strict).take maxToolIdLen
  let hash := shortHash host id 8
  base.take (maxToolIdLen - hash.length) ++ hash

/-- `${candidate.slice(0, MAX_LEN - suffix.length)}${suffix}` -/
def withSuffix (candidate suffix : Str) : Str :=
  candidate.take (maxToolIdLen - suffix.length) ++ suffix

/-- The first id tried that is not in use, if any is. -/
def firstFreeToolId (mode : ToolCallIdMode) (id : Str) (used : List Str) : Option Str :=
  match mode with
  | .strict9 =>
    let base := sanitizeToolCallId host id mode
    let candidate := if strict9Len ≤ base.length then base.take strict9Len else []
    if candidate ≠ [] ∧ candidate ∉ used then some candidate
    else ((List.range 1000).map fun i => shortHash host (id ++ ':' :: decimal i) strict9Len).find?
      (· ∉ used)
  | .strict =>
    let base := (sanitizeToolCallId host id mode).take maxToolIdLen
    if base ∉ used then some base
    else if hashedToolId host id ∉ used then some (hashedToolId host id)
    else ((List.range' 2 998).map fun i => withSuffix (hashedToolId host id) ('x' :: decimal i)).find?
      (· ∉ used)

/-- What the last line returns, used or not. -/
def clockToolId (mode : ToolCallIdMode) (id : Str) (now : ℕ) : Str :=
  match mode with
  | .strict9 => shortHash host (id ++ ':' :: decimal now) strict9Len
  | .strict => withSuffix (hashedToolId host id) ('t' :: decimal now)

/-! ## What is made -/

section

variable {host : ToolIdHost} {mode : ToolCallIdMode} {id next : Str} {used : List Str}

theorem isAlphanum_of_isHexDigit {c : Char} (h : isHexDigit c = true) : c.isAlphanum = true := by
  unfold isHexDigit at h
  delta Char.isAlphanum Char.isAlpha Char.isLower
  rcases Bool.or_eq_true_iff.mp h with hdigit | hletter
  · rw [hdigit, Bool.or_true]
  · have hrange := Bool.and_eq_true_iff.mp hletter
    have hfrom : c.val ≥ 97 := of_decide_eq_true hrange.1
    have hto : c.val ≤ 102 := of_decide_eq_true hrange.2
    have hz : c.val ≤ 122 := UInt32.le_trans hto (by decide)
    have hlower : (decide (c.val ≥ 97) && decide (c.val ≤ 122)) = true :=
      Bool.and_eq_true_iff.mpr ⟨decide_eq_true hfrom, decide_eq_true hz⟩
    show ((c.isUpper || (decide (c.val ≥ 97) && decide (c.val ≤ 122))) || c.isDigit) = true
    rw [hlower, Bool.or_true, Bool.true_or]

variable (text : Str)

/-- Letters and digits only. -/
def AllAlphanum : Prop := ∀ c ∈ text, c.isAlphanum = true

theorem AllAlphanum.take {text : Str} (h : AllAlphanum text) (n : ℕ) : AllAlphanum (text.take n) :=
  fun c hc => h c (mem_of_mem_take hc)

theorem AllAlphanum.append {text more : Str} (h : AllAlphanum text) (h' : AllAlphanum more) :
    AllAlphanum (text ++ more) := by
  intro c hc
  rcases mem_append.mp hc with hc | hc
  · exact h c hc
  · exact h' c hc

theorem allAlphanum_filter : AllAlphanum (text.filter Char.isAlphanum) :=
  fun _ hc => (mem_filter.mp hc).2

theorem allAlphanum_shortHash (length : ℕ) : AllAlphanum (shortHash host text length) :=
  fun c hc => isAlphanum_of_isHexDigit (host.sha256Hex_digits text c (mem_of_mem_take hc))

theorem length_shortHash {length : ℕ} (h : length ≤ 64) :
    (shortHash host text length).length = length := by
  unfold shortHash
  rw [length_take, host.sha256Hex_length]
  omega

theorem decimal_eq (n : ℕ) : decimal n = Nat.toDigits 10 n := by
  rw [decimal, Nat.repr, String.toList_ofList]

theorem allAlphanum_decimal (n : ℕ) : AllAlphanum (decimal n) := by
  intro c hc
  rw [decimal_eq] at hc
  have hdigit := Nat.isDigit_of_mem_toDigits (by omega) (by omega) hc
  unfold Char.isAlphanum
  rw [hdigit, Bool.or_true]

theorem isValid_of_allAlphanum (hne : next ≠ []) (h : AllAlphanum next) :
    isValidCloudCodeAssistToolId next .strict = true := by
  have hall : next.all Char.isAlphanum = true := all_eq_true.mpr h
  have hempty : next.isEmpty = false := by
    rw [isEmpty_eq_false_iff]
    exact hne
  show ((!next.isEmpty && next.all Char.isAlphanum) || isNativeKimiToolCallId next) = true
  rw [hall, hempty]
  rfl

theorem isValid_strict9_of_allAlphanum (hlength : next.length = strict9Len)
    (h : AllAlphanum next) : isValidCloudCodeAssistToolId next .strict9 = true := by
  have hall : next.all Char.isAlphanum = true := all_eq_true.mpr h
  show (decide (next.length = strict9Len) && next.all Char.isAlphanum) = true
  rw [hall, hlength]
  rfl

/-- Apart from the native ids, letters and digits are left. -/
theorem sanitizeToolCallId_strict (hkimi : isNativeKimiToolCallId id = false) :
    sanitizeToolCallId host id .strict ≠ [] ∧ AllAlphanum (sanitizeToolCallId host id .strict) := by
  unfold sanitizeToolCallId
  by_cases hid : id = []
  · rw [if_pos hid]
    exact ⟨by decide, all_eq_true.mp (by decide)⟩
  · rw [if_neg hid]
    dsimp only
    rw [hkimi, if_neg (by decide)]
    by_cases hlength : 0 < (id.filter Char.isAlphanum).length
    · rw [if_pos hlength]
      exact ⟨ne_nil_of_length_pos hlength, allAlphanum_filter id⟩
    · rw [if_neg hlength]
      exact ⟨by decide, all_eq_true.mp (by decide)⟩

theorem sanitizeToolCallId_kimi (hkimi : isNativeKimiToolCallId id = true) :
    sanitizeToolCallId host id .strict = id := by
  have hid : id ≠ [] := by
    rintro rfl
    cases hkimi
  unfold sanitizeToolCallId
  rw [if_neg hid]
  dsimp only
  rw [if_pos hkimi]

theorem allAlphanum_sanitizeToolCallId_strict9 :
    AllAlphanum (sanitizeToolCallId host id .strict9) := by
  unfold sanitizeToolCallId
  by_cases hid : id = []
  · rw [if_pos hid]
    exact all_eq_true.mp (by decide)
  · rw [if_neg hid]
    dsimp only
    split_ifs
    · exact (allAlphanum_filter id).take strict9Len
    · exact allAlphanum_shortHash _ _
    · exact allAlphanum_shortHash _ _

theorem length_withSuffix_le (candidate : Str) {suffix : Str} (h : suffix.length ≤ maxToolIdLen) :
    (withSuffix candidate suffix).length ≤ maxToolIdLen := by
  unfold withSuffix
  rw [length_append, length_take]
  omega

theorem length_hashedToolId_le : (hashedToolId host id).length ≤ maxToolIdLen := by
  have hhash : (shortHash host id 8).length = 8 := length_shortHash id (by omega)
  unfold hashedToolId
  dsimp only
  rw [length_append, length_take, hhash]
  show min (40 - 8) _ + 8 ≤ 40
  omega

theorem hashedToolId_ne_nil : hashedToolId host id ≠ [] := by
  have hhash : (shortHash host id 8).length = 8 := length_shortHash id (by omega)
  apply ne_nil_of_length_pos
  unfold hashedToolId
  dsimp only
  rw [length_append, hhash]
  omega

theorem allAlphanum_hashedToolId (hkimi : isNativeKimiToolCallId id = false) :
    AllAlphanum (hashedToolId host id) :=
  (((sanitizeToolCallId_strict hkimi).2.take _).take _).append (allAlphanum_shortHash id 8)

theorem allAlphanum_withSuffix {candidate suffix : Str} (h : AllAlphanum candidate)
    (h' : AllAlphanum suffix) : AllAlphanum (withSuffix candidate suffix) :=
  (h.take _).append h'

theorem length_decimal_le {i : ℕ} (h : i ∈ List.range' 2 998) : (decimal i).length ≤ 3 := by
  rw [List.mem_range'_1] at h
  rw [decimal_eq, Nat.length_toDigits_le_iff (by omega) (by omega)]
  show i < 1000
  omega

/-- The forms of the ids that are tried. -/
inductive TriedId (host : ToolIdHost) (id : Str) : ToolCallIdMode → Str → Prop
  | base : TriedId host id .strict ((sanitizeToolCallId host id .strict).take maxToolIdLen)
  | hashed : TriedId host id .strict (hashedToolId host id)
  | numbered {i : ℕ} : i ∈ List.range' 2 998 →
      TriedId host id .strict (withSuffix (hashedToolId host id) ('x' :: decimal i))
  | short {next : Str} : next.length = strict9Len → AllAlphanum next →
      TriedId host id .strict9 next

theorem of_find?_unused {tries : List Str} (h : tries.find? (· ∉ used) = some next) :
    next ∈ tries ∧ next ∉ used := by
  have hfree := @find?_some _ (fun id => decide (id ∉ used)) _ _ h
  exact ⟨mem_of_find?_eq_some h, of_decide_eq_true hfree⟩

/-- What is taken was tried and is not in use. -/
theorem triedId_of_firstFreeToolId (h : firstFreeToolId host mode id used = some next) :
    TriedId host id mode next ∧ next ∉ used := by
  cases mode with
  | strict =>
    unfold firstFreeToolId at h
    dsimp only at h
    by_cases hbase : (sanitizeToolCallId host id .strict).take maxToolIdLen ∉ used
    · rw [if_pos hbase] at h
      rw [← some.inj h]
      exact ⟨.base, hbase⟩
    · rw [if_neg hbase] at h
      by_cases hhashed : hashedToolId host id ∉ used
      · rw [if_pos hhashed] at h
        rw [← some.inj h]
        exact ⟨.hashed, hhashed⟩
      · rw [if_neg hhashed] at h
        have htried := of_find?_unused h
        refine ⟨?_, htried.2⟩
        obtain ⟨i, hi, hnext⟩ := List.mem_map.mp htried.1
        rw [← hnext]
        exact .numbered hi
  | strict9 =>
    unfold firstFreeToolId at h
    dsimp only at h
    -- the sanitized id, where it is long enough
    generalize hcandidate : (if strict9Len ≤ (sanitizeToolCallId host id .strict9).length then
      (sanitizeToolCallId host id .strict9).take strict9Len else []) = candidate at h
    by_cases hfree : candidate ≠ [] ∧ candidate ∉ used
    · rw [if_pos hfree] at h
      rw [← some.inj h]
      refine ⟨?_, hfree.2⟩
      by_cases hlength : strict9Len ≤ (sanitizeToolCallId host id .strict9).length
      · rw [if_pos hlength] at hcandidate
        rw [← hcandidate]
        refine .short ?_ (allAlphanum_sanitizeToolCallId_strict9.take strict9Len)
        rw [length_take]
        omega
      · rw [if_neg hlength] at hcandidate
        exact absurd hcandidate.symm hfree.1
    · rw [if_neg hfree] at h
      have htried := of_find?_unused h
      refine ⟨?_, htried.2⟩
      obtain ⟨i, _, hnext⟩ := List.mem_map.mp htried.1
      rw [← hnext]
      exact .short (length_shortHash _ (by decide)) (allAlphanum_shortHash _ _)

theorem length_le_of_triedId (h : TriedId host id mode next) : next.length ≤ maxToolIdLen := by
  cases h with
  | base =>
    rw [length_take]
    omega
  | hashed => exact length_hashedToolId_le
  | numbered hi =>
    apply length_withSuffix_le
    have hdecimal := length_decimal_le hi
    rw [length_cons]
    show _ ≤ 40
    omega
  | short hlength _ =>
    rw [hlength]
    decide

theorem ne_nil_of_triedId (h : TriedId host id mode next) : next ≠ [] := by
  cases h with
  | base =>
    have hne : sanitizeToolCallId host id .strict ≠ [] := by
      cases hkimi : isNativeKimiToolCallId id with
      | false => exact (sanitizeToolCallId_strict hkimi).1
      | true =>
        rw [sanitizeToolCallId_kimi hkimi]
        rintro rfl
        cases hkimi
    intro hnil
    rcases take_eq_nil_iff.mp hnil with hzero | hnil
    · cases hzero
    · exact hne hnil
  | hashed => exact hashedToolId_ne_nil
  | numbered _ => exact append_ne_nil_of_right_ne_nil _ (cons_ne_nil _ _)
  | short hlength _ =>
    rintro rfl
    cases hlength

/-- Only an id in the native form that had to be changed can be invalid. -/
theorem valid_of_triedId (h : TriedId host id mode next) :
    isValidCloudCodeAssistToolId next mode = true ∨
      mode = .strict ∧ isNativeKimiToolCallId id = true ∧ next ≠ id := by
  cases h with
  | short hlength hall => exact Or.inl (isValid_strict9_of_allAlphanum hlength hall)
  | base =>
    cases hkimi : isNativeKimiToolCallId id with
    | false =>
      exact Or.inl (isValid_of_allAlphanum (ne_nil_of_triedId .base)
        ((sanitizeToolCallId_strict hkimi).2.take _))
    | true =>
      rw [sanitizeToolCallId_kimi hkimi]
      by_cases hsame : id.take maxToolIdLen = id
      · left
        rw [hsame]
        show (_ || isNativeKimiToolCallId id) = true
        rw [hkimi, Bool.or_true]
      · exact Or.inr ⟨rfl, rfl, hsame⟩
  | hashed =>
    cases hkimi : isNativeKimiToolCallId id with
    | false =>
      exact Or.inl (isValid_of_allAlphanum hashedToolId_ne_nil (allAlphanum_hashedToolId hkimi))
    | true =>
      by_cases hsame : hashedToolId host id = id
      · left
        rw [hsame]
        show (_ || isNativeKimiToolCallId id) = true
        rw [hkimi, Bool.or_true]
      · exact Or.inr ⟨rfl, rfl, hsame⟩
  | @numbered i hi =>
    cases hkimi : isNativeKimiToolCallId id with
    | false =>
      have hsuffix : AllAlphanum ('x' :: decimal i) :=
        AllAlphanum.append (all_eq_true.mp (by decide) : AllAlphanum ['x'])
          (allAlphanum_decimal i)
      refine Or.inl (isValid_of_allAlphanum ?_
        (allAlphanum_withSuffix (allAlphanum_hashedToolId hkimi) hsuffix))
      exact append_ne_nil_of_right_ne_nil _ (cons_ne_nil _ _)
    | true =>
      by_cases hsame : withSuffix (hashedToolId host id) ('x' :: decimal i) = id
      · left
        rw [hsame]
        show (_ || isNativeKimiToolCallId id) = true
        rw [hkimi, Bool.or_true]
      · exact Or.inr ⟨rfl, rfl, hsame⟩

end

end OpenClaw
