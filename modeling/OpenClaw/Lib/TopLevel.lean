import Mathlib.Data.List.Basic
import Mathlib.Tactic.Common

/-!
# Delimiters outside of all brackets

A scanner reads a list from left to right and says of each element whether it stands outside of
all brackets, however these look. A list is split at the delimiters that do.
-/

namespace TopLevel

open List Option

/-- `next` has no result where a bracket is closed that is not open. At the end of the list the
scanner is where it started, or a bracket is still open. -/
structure Scanner (α σ : Type*) where
  start : σ
  next : σ → α → Option (σ × Bool)

variable {α σ : Type*} (scanner : Scanner α σ) (delim : α)

/-! ## Words -/

/-- The scanner reads a word from one state to the other, and no delimiter. -/
def Reads : σ → List α → σ → Prop
  | s, [], s' => s = s'
  | s, a :: word, s' =>
    ∃ s₁ top, scanner.next s a = some (s₁, top) ∧ ¬(top = true ∧ a = delim) ∧ Reads s₁ word s'

/-- A word with balanced brackets and without a delimiter. -/
def Free (word : List α) : Prop := Reads scanner delim scanner.start word scanner.start

/-- The state behind a word. -/
def finish : σ → List α → Option σ
  | s, [] => some s
  | s, a :: word => (scanner.next s a).bind fun result => finish result.1 word

/-- An element that can be a delimiter: it is no bracket. -/
structure IsDelimiter : Prop where
  at_start : scanner.next scanner.start delim = some (scanner.start, true)
  only_start : ∀ s s', scanner.next s delim = some (s', true) → s = scanner.start

variable {scanner delim} {s s' : σ} {text word word' rest : List α} {parts : List (List α)}

theorem reads_append : Reads scanner delim s (word ++ word') s' ↔
    ∃ s₁, Reads scanner delim s word s₁ ∧ Reads scanner delim s₁ word' s' := by
  induction word generalizing s with
  | nil =>
    constructor
    · exact fun h => ⟨s, rfl, h⟩
    · rintro ⟨s₁, rfl, h⟩
      exact h
  | cons a word ih =>
    constructor
    · rintro ⟨s₁, top, hnext, hnot, hreads⟩
      obtain ⟨s₂, hword, hword'⟩ := ih.mp hreads
      exact ⟨s₂, ⟨s₁, top, hnext, hnot, hword⟩, hword'⟩
    · rintro ⟨s₂, ⟨s₁, top, hnext, hnot, hword⟩, hword'⟩
      exact ⟨s₁, top, hnext, hnot, ih.mpr ⟨s₂, hword, hword'⟩⟩

theorem Reads.finish_eq (h : Reads scanner delim s word s') : finish scanner s word = some s' := by
  induction word generalizing s with
  | nil => exact congrArg some h
  | cons a word ih =>
    obtain ⟨s₁, top, hnext, _, hreads⟩ := h
    rw [finish, hnext]
    exact ih hreads

/-- The state behind a word is determined. -/
theorem Reads.unique {delim' : α} {s₁ s₂ : σ} (h₁ : Reads scanner delim s word s₁)
    (h₂ : Reads scanner delim' s word s₂) : s₁ = s₂ :=
  some.inj (h₁.finish_eq.symm.trans h₂.finish_eq)

theorem Free.append (h : Free scanner delim word) (h' : Free scanner delim word') :
    Free scanner delim (word ++ word') := reads_append.mpr ⟨_, h, h'⟩

/-- The delimiters before a delimiter-free rest of a word are read. -/
theorem Free.of_append {delim' : α} (h : Free scanner delim (word ++ word'))
    (hword : Free scanner delim' word) : Free scanner delim word ∧ Free scanner delim word' := by
  obtain ⟨s₁, hreads, hrest⟩ := reads_append.mp h
  have heq := hreads.unique hword
  rw [heq] at hreads hrest
  exact ⟨hreads, hrest⟩

theorem not_free_delim_cons (hdelim : IsDelimiter scanner delim) :
    ¬Free scanner delim (delim :: rest) := by
  intro ⟨s₁, top, hnext, hnot, _⟩
  rw [hdelim.at_start] at hnext
  exact hnot ⟨(congrArg Prod.snd (some.inj hnext)).symm, rfl⟩

/-- Another delimiter is an ordinary element. -/
theorem free_singleton {a : α} (ha : IsDelimiter scanner a) (hne : a ≠ delim) :
    Free scanner delim [a] := ⟨scanner.start, true, ha.at_start, fun h => hne h.2, rfl⟩

/-- A text of parts without another delimiter is without it. -/
theorem free_intercalate {other : α} (hother : IsDelimiter scanner other) (hne : other ≠ delim)
    (h : ∀ part ∈ parts, Free scanner delim part) :
    Free scanner delim (List.intercalate [other] parts) := by
  induction parts with
  | nil => exact rfl
  | cons part parts ih =>
    have hpart := h part mem_cons_self
    have hparts := ih fun part hmem => h part (mem_cons_of_mem _ hmem)
    cases parts with
    | nil =>
      rw [intercalate_singleton]
      exact hpart
    | cons second parts =>
      rw [intercalate_cons_cons]
      exact (hpart.append (free_singleton hother hne)).append hparts

/-- A part of a text without a delimiter is without it. -/
theorem free_of_free_intercalate {other : α} (hother : IsDelimiter scanner other)
    (hne : other ≠ delim) (h : Free scanner delim (List.intercalate [other] parts))
    (hparts : ∀ part ∈ parts, Free scanner other part) :
    ∀ part ∈ parts, Free scanner delim part := by
  induction parts with
  | nil => exact fun _ hmem => nomatch hmem
  | cons part parts ih =>
    have hpart := hparts part mem_cons_self
    cases parts with
    | nil =>
      rw [intercalate_singleton] at h
      exact forall_mem_singleton.mpr h
    | cons second parts =>
      rw [intercalate_cons_cons, append_assoc] at h
      have hsplit := h.of_append hpart
      have hrest := (hsplit.2.of_append (free_singleton hother hne)).2
      refine forall_mem_cons.mpr ⟨hsplit.1, ?_⟩
      exact ih hrest fun part hmem => hparts part (mem_cons_of_mem _ hmem)

/-! ## Splitting -/

section

variable [DecidableEq α] [DecidableEq σ] (scanner delim)

/-- Puts an element before the first part. -/
def consHead (a : α) : List (List α) → List (List α)
  | [] => [[a]]
  | part :: parts => (a :: part) :: parts

def splitFrom : σ → List α → Option (List (List α))
  | s, [] => if s = scanner.start then some [[]] else none
  | s, a :: rest =>
    match scanner.next s a with
    | none => none
    | some (s', top) =>
      if top = true ∧ a = delim then (splitFrom s' rest).map ([] :: ·)
      else (splitFrom s' rest).map (consHead a)

/-- The parts of a list between the delimiters. -/
def split (text : List α) : Option (List (List α)) := splitFrom scanner delim scanner.start text

end

variable [DecidableEq α] [DecidableEq σ]

theorem splitFrom_append (hdelim : IsDelimiter scanner delim)
    (h : Reads scanner delim s word scanner.start) :
    splitFrom scanner delim s (word ++ delim :: rest) =
      (split scanner delim rest).map (word :: ·) := by
  induction word generalizing s with
  | nil =>
    rw [show s = scanner.start from h, nil_append, splitFrom, hdelim.at_start]
    dsimp only
    rw [if_pos ⟨rfl, rfl⟩]
    rfl
  | cons a word ih =>
    obtain ⟨s₁, top, hnext, hnot, hreads⟩ := h
    rw [cons_append, splitFrom, hnext]
    dsimp only
    rw [if_neg hnot, ih hreads, Option.map_map]
    rfl

theorem splitFrom_eq_singleton (h : Reads scanner delim s word scanner.start) :
    splitFrom scanner delim s word = some [word] := by
  induction word generalizing s with
  | nil =>
    have hs : s = scanner.start := h
    rw [splitFrom, if_pos hs]
  | cons a word ih =>
    obtain ⟨s₁, top, hnext, hnot, hreads⟩ := h
    rw [splitFrom, hnext]
    dsimp only
    rw [if_neg hnot, ih hreads]
    rfl

theorem split_intercalate (hdelim : IsDelimiter scanner delim) (hne : parts ≠ [])
    (h : ∀ part ∈ parts, Free scanner delim part) :
    split scanner delim (List.intercalate [delim] parts) = some parts := by
  induction parts with
  | nil => exact absurd rfl hne
  | cons part parts ih =>
    have hpart := h part mem_cons_self
    cases parts with
    | nil =>
      rw [intercalate_singleton]
      exact splitFrom_eq_singleton hpart
    | cons second parts =>
      have hrest := ih (cons_ne_nil _ _) fun other hmem => h other (mem_cons_of_mem _ hmem)
      rw [intercalate_cons_cons, append_assoc, singleton_append, split,
        splitFrom_append hdelim hpart, hrest]
      rfl

theorem splitFrom_word (h : Reads scanner delim s word s') :
    splitFrom scanner delim s (word ++ rest) =
      (splitFrom scanner delim s' rest).map (word.foldr consHead) := by
  induction word generalizing s with
  | nil =>
    rw [show s = s' from h, nil_append]
    exact Option.map_id'.symm
  | cons a word ih =>
    obtain ⟨s₁, top, hnext, hnot, hreads⟩ := h
    rw [cons_append, splitFrom, hnext]
    dsimp only
    rw [if_neg hnot, ih hreads, Option.map_map]
    rfl

omit [DecidableEq α] in
theorem foldr_consHead (word part : List α) (parts : List (List α)) :
    word.foldr consHead (part :: parts) = (word ++ part) :: parts := by
  induction word with
  | nil => rfl
  | cons a word ih =>
    rw [foldr_cons, ih]
    rfl

/-- What follows the last of some parts belongs to that part. -/
theorem split_intercalate_append (hdelim : IsDelimiter scanner delim)
    (h : ∀ part ∈ parts, Free scanner delim part) (hword : Free scanner delim word) :
    split scanner delim (List.intercalate [delim] (parts ++ [word]) ++ rest) =
      (split scanner delim rest).map fun tail => parts ++ word.foldr consHead tail := by
  induction parts with
  | nil =>
    rw [nil_append, intercalate_singleton]
    exact splitFrom_word hword
  | cons part parts ih =>
    have hpart := h part mem_cons_self
    have hrest := ih fun part hmem => h part (mem_cons_of_mem _ hmem)
    have hne : parts ++ [word] ≠ [] := append_ne_nil_of_right_ne_nil _ (cons_ne_nil _ _)
    rw [cons_append, intercalate_cons_of_ne_nil hne, append_assoc, append_assoc,
      singleton_append, split, splitFrom_append hdelim hpart, hrest, Option.map_map]
    rfl

/-- The parts of a text that is split from a state on. -/
structure SplitFrom (scanner : Scanner α σ) (delim : α) (s : σ) (text : List α)
    (parts : List (List α)) : Prop where
  text_eq : text = List.intercalate [delim] parts
  parts_eq : ∃ first others, parts = first :: others ∧
    Reads scanner delim s first scanner.start ∧ ∀ part ∈ others, Free scanner delim part

theorem splitFrom_of_eq_some (hdelim : IsDelimiter scanner delim)
    (h : splitFrom scanner delim s text = some parts) : SplitFrom scanner delim s text parts := by
  induction text generalizing s parts with
  | nil =>
    rw [splitFrom] at h
    split_ifs at h with hs
    rw [← some.inj h]
    exact ⟨rfl, [], [], rfl, hs, fun _ hmem => nomatch hmem⟩
  | cons a rest ih =>
    rw [splitFrom] at h
    cases hnext : scanner.next s a with
    | none =>
      rw [hnext] at h
      cases h
    | some result =>
      obtain ⟨s₁, top⟩ := result
      rw [hnext] at h
      dsimp only at h
      split_ifs at h with htop
      · -- the delimiter begins the next part
        obtain ⟨tail, htail, rfl⟩ := Option.map_eq_some_iff.mp h
        obtain ⟨rfl, rfl⟩ := htop
        have hs := hdelim.only_start s s₁ hnext
        rw [hs, hdelim.at_start] at hnext
        have hs₁ : scanner.start = s₁ := congrArg Prod.fst (some.inj hnext)
        have hsplit := ih htail
        obtain ⟨first, others, rfl, hreads, hothers⟩ := hsplit.parts_eq
        rw [← hs₁] at hreads
        refine ⟨?_, [], _, rfl, hs, fun part hmem => ?_⟩
        · rw [intercalate_cons_cons, ← hsplit.text_eq]
          rfl
        · rcases mem_cons.mp hmem with rfl | hmem
          · exact hreads
          · exact hothers part hmem
      · obtain ⟨tail, htail, rfl⟩ := Option.map_eq_some_iff.mp h
        have hsplit := ih htail
        obtain ⟨first, others, rfl, hreads, hothers⟩ := hsplit.parts_eq
        refine ⟨?_, a :: first, others, rfl, ⟨s₁, top, hnext, htop, hreads⟩, hothers⟩
        rw [consHead, intercalate_cons_cons_left, ← hsplit.text_eq]

theorem finish_of_splitFrom (h : splitFrom scanner delim s text = some parts) :
    finish scanner s text = some scanner.start := by
  induction text generalizing s parts with
  | nil =>
    rw [splitFrom] at h
    split_ifs at h with hs
    exact congrArg some hs
  | cons a rest ih =>
    rw [splitFrom] at h
    rw [finish]
    cases hnext : scanner.next s a with
    | none =>
      rw [hnext] at h
      cases h
    | some result =>
      rw [hnext] at h
      dsimp only at h
      split_ifs at h
      · obtain ⟨tail, htail, _⟩ := Option.map_eq_some_iff.mp h
        exact ih htail
      · obtain ⟨tail, htail, _⟩ := Option.map_eq_some_iff.mp h
        exact ih htail

/-- A text is split into balanced parts without a delimiter, and these are its only ones. -/
theorem split_eq_some_iff (hdelim : IsDelimiter scanner delim) :
    split scanner delim text = some parts ↔
      parts ≠ [] ∧ (∀ part ∈ parts, Free scanner delim part) ∧
        text = List.intercalate [delim] parts := by
  constructor
  · intro h
    have hsplit := splitFrom_of_eq_some hdelim h
    obtain ⟨first, others, rfl, hreads, hothers⟩ := hsplit.parts_eq
    exact ⟨cons_ne_nil _ _, forall_mem_cons.mpr ⟨hreads, hothers⟩, hsplit.text_eq⟩
  · rintro ⟨hne, hfree, rfl⟩
    exact split_intercalate hdelim hne hfree

/-! ## The first delimiter -/

def indexFrom (scanner : Scanner α σ) (delim : α) : σ → List α → Option (Option ℕ)
  | s, [] => if s = scanner.start then some none else none
  | s, a :: rest =>
    match scanner.next s a with
    | none => none
    | some (s', top) =>
      if top = true ∧ a = delim then some (some 0) else (indexFrom scanner delim s' rest).map (·.map (· + 1))

/-- Where the first delimiter is. What is behind it is not read. -/
def indexOf (scanner : Scanner α σ) (delim : α) (text : List α) : Option (Option ℕ) := indexFrom scanner delim scanner.start text

theorem indexFrom_append (hdelim : IsDelimiter scanner delim)
    (h : Reads scanner delim s word scanner.start) :
    indexFrom scanner delim s (word ++ delim :: rest) = some (some word.length) := by
  induction word generalizing s with
  | nil =>
    rw [show s = scanner.start from h, nil_append, indexFrom, hdelim.at_start]
    dsimp only
    rw [if_pos ⟨rfl, rfl⟩]
    rfl
  | cons a word ih =>
    obtain ⟨s₁, top, hnext, hnot, hreads⟩ := h
    rw [cons_append, indexFrom, hnext]
    dsimp only
    rw [if_neg hnot, ih hreads]
    rfl

theorem indexFrom_eq_none (h : Reads scanner delim s word scanner.start) :
    indexFrom scanner delim s word = some none := by
  induction word generalizing s with
  | nil =>
    have hs : s = scanner.start := h
    rw [indexFrom, if_pos hs]
  | cons a word ih =>
    obtain ⟨s₁, top, hnext, hnot, hreads⟩ := h
    rw [indexFrom, hnext]
    dsimp only
    rw [if_neg hnot, ih hreads]
    rfl

/-- What is in front of the first delimiter, or the whole text. -/
def FirstAt (scanner : Scanner α σ) (delim : α) (s : σ) (text : List α) : Option ℕ → Prop
  | none => Reads scanner delim s text scanner.start
  | some i => ∃ word rest, text = word ++ delim :: rest ∧ word.length = i ∧
      Reads scanner delim s word scanner.start

theorem firstAt_of_indexFrom (hdelim : IsDelimiter scanner delim) {index : Option ℕ}
    (h : indexFrom scanner delim s text = some index) : FirstAt scanner delim s text index := by
  induction text generalizing s index with
  | nil =>
    rw [indexFrom] at h
    split_ifs at h with hs
    rw [← some.inj h]
    exact hs
  | cons a rest ih =>
    rw [indexFrom] at h
    cases hnext : scanner.next s a with
    | none =>
      rw [hnext] at h
      cases h
    | some result =>
      obtain ⟨s₁, top⟩ := result
      rw [hnext] at h
      dsimp only at h
      split_ifs at h with htop
      · rw [htop.1, htop.2] at hnext
        rw [← some.inj h, htop.2]
        exact ⟨[], rest, rfl, rfl, hdelim.only_start s s₁ hnext⟩
      · obtain ⟨index', hindex', rfl⟩ := Option.map_eq_some_iff.mp h
        have hreads := ih hindex'
        cases index' with
        | none => exact ⟨s₁, top, hnext, htop, hreads⟩
        | some i =>
          obtain ⟨word, tail, rfl, hlength, hword⟩ := hreads
          exact ⟨a :: word, tail, rfl, congrArg (· + 1) hlength, s₁, top, hnext, htop, hword⟩

end TopLevel
