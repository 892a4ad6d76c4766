import OpenClaw.OcPath.Formatted

/-!
# Normalized paths

The formatted text of a path with normalized components is normalized, and has no control
characters, if the session does not begin with an overlay.
-/

namespace OpenClaw.Oc

open List

variable {nfc : Nfc} {path : OcPath} {s t file slot sub : Str} {c : Char} {parts : List Str}

/-! ## Normalized texts -/

def Nfc.IsNormal (nfc : Nfc) (s : Str) : Prop := nfc.normalize s = s

theorem Nfc.isNormal_normalize (nfc : Nfc) (s : Str) : nfc.IsNormal (nfc.normalize s) :=
  nfc.idem s

theorem Nfc.IsNormal.left (h : nfc.IsNormal (s ++ t)) : nfc.IsNormal s := (nfc.part s t h).1

theorem Nfc.IsNormal.right (h : nfc.IsNormal (s ++ t)) : nfc.IsNormal t := (nfc.part s t h).2

theorem Nfc.isNormal_nil (nfc : Nfc) : nfc.IsNormal [] := nfc.ascii [] fun _ hmem => nomatch hmem

theorem Nfc.IsNormal.append_ascii (hs : nfc.IsNormal s) (hc : c.toNat < 128)
    (ht : nfc.IsNormal (c :: t)) : nfc.IsNormal (s ++ c :: t) := by
  unfold Nfc.IsNormal at hs ht ⊢
  rw [nfc.before_ascii s c t hc, hs, ht]

theorem Nfc.IsNormal.cons_separator (ht : nfc.IsNormal t) (hc : isSeparator c = true) :
    nfc.IsNormal (c :: t) := by
  unfold Nfc.IsNormal at ht ⊢
  rw [nfc.after_separator c t hc, ht]

theorem Nfc.isNormal_of_ascii (nfc : Nfc) (h : ∀ c ∈ s, c.toNat < 128) : nfc.IsNormal s :=
  nfc.ascii s h

theorem isNormal_quoted (h : nfc.IsNormal s) : nfc.IsNormal (quoted s) := by
  have hclose : nfc.IsNormal ['"'] := nfc.isNormal_nil.cons_separator (by decide)
  exact (h.append_ascii (by decide) hclose).cons_separator (by decide)

theorem isNormal_joinWith (hc : isSeparator c = true) (hascii : c.toNat < 128)
    (h : ∀ part ∈ parts, nfc.IsNormal part) : nfc.IsNormal (joinWith [c] parts) := by
  induction parts with
  | nil => exact nfc.isNormal_nil
  | cons part parts ih =>
    have hpart := h part mem_cons_self
    have hparts := ih fun part hmem => h part (mem_cons_of_mem _ hmem)
    unfold joinWith at hparts ⊢
    cases parts with
    | nil =>
      rw [intercalate_singleton]
      exact hpart
    | cons second parts =>
      rw [intercalate_cons_cons, append_assoc]
      exact hpart.append_ascii hascii (hparts.cons_separator hc)

theorem isNormal_of_joinWith (h : nfc.IsNormal (joinWith [c] parts)) :
    ∀ part ∈ parts, nfc.IsNormal part := by
  induction parts with
  | nil => exact fun _ hmem => nomatch hmem
  | cons part parts ih =>
    unfold joinWith at h ih
    cases parts with
    | nil =>
      rw [intercalate_singleton] at h
      exact forall_mem_singleton.mpr h
    | cons second parts =>
      rw [intercalate_cons_cons, append_assoc] at h
      exact forall_mem_cons.mpr ⟨h.left, ih h.right.right⟩

/-! ## The parts of a formatted path -/

theorem isNormal_formattedSub (h : nfc.IsNormal sub) : nfc.IsNormal (formattedSub sub) := by
  unfold formattedSub quoteIfStructural
  split_ifs
  · exact h
  · exact isNormal_quoted h
  · exact h

theorem isNormal_slotText (hslot : FormattableSlot slot) (h : nfc.IsNormal slot) :
    nfc.IsNormal (slotText slot) := by
  have hdot : IsPathDelimiter '.' := Or.inr (Or.inl rfl)
  have hjoin := ((splitRespectingBrackets_eq_ok_iff hdot).mp hslot.split_eq).2.2
  rw [hjoin] at h
  exact isNormal_joinWith (by decide) (by decide)
    (forall_mem_map.mpr fun sub hmem => isNormal_formattedSub (isNormal_of_joinWith h sub hmem))

theorem isNormal_fileText (h : nfc.IsNormal file) : nfc.IsNormal (fileText file) := by
  unfold fileText
  split_ifs
  · exact isNormal_quoted h
  · exact h

/-- A path with normalized components. -/
structure NormalPath (nfc : Nfc) (path : OcPath) : Prop where
  file : nfc.IsNormal path.file
  slot : ∀ slot ∈ pathSlots path, nfc.IsNormal slot
  session : ∀ session, path.session = some session → nfc.IsNormal session

/-- The overlay that joins the equals sign in front of it. -/
def overlay : Char := '\u0338'

theorem isNormal_queryText {session? : Option Str}
    (h : ∀ session, session? = some session → nfc.IsNormal session ∧ session.head? ≠ some overlay)
    (hs : nfc.IsNormal s) : nfc.IsNormal (s ++ queryText (sessionQuery session?)) := by
  cases session? with
  | none =>
    rw [show queryText (sessionQuery none) = [] from rfl, append_nil]
    exact hs
  | some session =>
    have hsession := h session rfl
    have hequals : nfc.IsNormal ('=' :: session) := nfc.after_equals session hsession.1 hsession.2
    have hkey : nfc.IsNormal "?session".toList := nfc.isNormal_of_ascii (by simp)
    have hquery : nfc.IsNormal ("?session".toList ++ '=' :: session) :=
      hkey.append_ascii (by decide) hequals
    exact hs.append_ascii (by decide) hquery

theorem isNormal_pathText (hformat : FormattablePath path (pathSlots path))
    (hnormal : NormalPath nfc path)
    (hsession : ∀ session, path.session = some session → session.head? ≠ some overlay) :
    nfc.IsNormal (pathText path (pathSlots path)) := by
  have hsegments : ∀ seg ∈ pathSegments path.file (pathSlots path), nfc.IsNormal seg :=
    forall_mem_cons.mpr ⟨isNormal_fileText hnormal.file, forall_mem_map.mpr
      fun slot hmem => isNormal_slotText (hformat.slot slot hmem) (hnormal.slot slot hmem)⟩
  have hjoin := isNormal_joinWith (c := '/') (by decide) (by decide) hsegments
  have hscheme : nfc.IsNormal (ocScheme ++ joinWith ['/'] (pathSegments path.file (pathSlots path))) :=
    (nfc.isNormal_of_ascii (s := "oc:/".toList) (by simp)).append_ascii (by decide)
      (hjoin.cons_separator (c := '/') (by decide))
  exact isNormal_queryText (fun session hs => ⟨hnormal.session session hs, hsession session hs⟩)
    hscheme

/-! ## Control characters -/

theorem hasControlChar_append : hasControlChar (s ++ t) = (hasControlChar s || hasControlChar t) :=
  any_append

theorem hasControlChar_quoted (s : Str) : hasControlChar (quoted s) = hasControlChar s := by
  have hquote : hasControlChar ['"'] = false := by decide
  have hcons : hasControlChar ('"' :: s) = hasControlChar s := by
    rw [← singleton_append, hasControlChar_append, hquote, Bool.false_or]
  rw [quoted, hasControlChar_append, hcons, hquote, Bool.or_false]

theorem hasControlChar_joinWith (hc : hasControlChar [c] = false)
    (h : ∀ part ∈ parts, hasControlChar part = false) :
    hasControlChar (joinWith [c] parts) = false := by
  induction parts with
  | nil => rfl
  | cons part parts ih =>
    have hpart := h part mem_cons_self
    have hparts := ih fun part hmem => h part (mem_cons_of_mem _ hmem)
    unfold joinWith at hparts ⊢
    cases parts with
    | nil =>
      rw [intercalate_singleton]
      exact hpart
    | cons second parts =>
      rw [intercalate_cons_cons, hasControlChar_append, hasControlChar_append, hpart, hc, hparts]
      rfl

theorem hasControlChar_slotText (h : FormattableSlot slot) : hasControlChar (slotText slot) = false := by
  refine hasControlChar_joinWith (by decide) (forall_mem_map.mpr fun sub hmem => ?_)
  have hcontrol := (h.formattable sub hmem).control
  unfold formattedSub quoteIfStructural
  split_ifs
  · exact hcontrol
  · rw [hasControlChar_quoted]
    exact hcontrol
  · exact hcontrol

theorem hasControlChar_of_validateFileSlot (h : validateFileSlot file = .ok ()) :
    hasControlChar file = false := by
  rw [validateFileSlot, ite_error_eq_ok_iff, ite_error_eq_ok_iff, ite_error_eq_ok_iff] at h
  exact Bool.eq_false_iff.mpr h.2.2.1

theorem hasControlChar_fileText (h : validateFileSlot file = .ok ()) :
    hasControlChar (fileText file) = false := by
  have hcontrol := hasControlChar_of_validateFileSlot h
  unfold fileText
  split_ifs
  · rw [hasControlChar_quoted]
    exact hcontrol
  · exact hcontrol

theorem validateSessionSlot_eq_ok_iff : validateSessionSlot s = .ok () ↔
    hasControlChar s = false ∧ s.any isReservedChar = false := by
  rw [validateSessionSlot, ite_error_eq_ok_iff, ite_error_eq_ok_iff, Bool.not_eq_true,
    Bool.not_eq_true]
  exact ⟨fun h => ⟨h.1, h.2.1⟩, fun h => ⟨h.1, h.2, rfl⟩⟩

theorem hasControlChar_pathText (hformat : FormattablePath path (pathSlots path)) :
    hasControlChar (pathText path (pathSlots path)) = false := by
  have hsegments : ∀ seg ∈ pathSegments path.file (pathSlots path), hasControlChar seg = false :=
    forall_mem_cons.mpr ⟨hasControlChar_fileText hformat.file.valid, forall_mem_map.mpr
      fun slot hmem => hasControlChar_slotText (hformat.slot slot hmem)⟩
  have hquery : hasControlChar (queryText (sessionQuery path.session)) = false := by
    cases hsession : path.session with
    | none => rfl
    | some session =>
      have hvalid := (validateSessionSlot_eq_ok_iff.mp (hformat.session session hsession)).1
      show hasControlChar ("?session=".toList ++ session) = false
      rw [hasControlChar_append, hvalid, Bool.or_false]
      decide
  have hscheme : hasControlChar ocScheme = false := by decide
  rw [pathText, hasControlChar_append, hasControlChar_append, hquery,
    hasControlChar_joinWith (by decide) hsegments, hscheme]
  rfl

/-! ## The file -/

/-- Where a part of a text comes from. -/
theorem mem_of_mem_splitOn (s : Str) (c : Char) :
    ∀ part ∈ s.splitOn c, ∀ d ∈ part, d ≠ c ∧ d ∈ s := by
  induction s with
  | nil =>
    rw [splitOn_nil]
    exact forall_mem_singleton.mpr fun _ hmem => nomatch hmem
  | cons x s ih =>
    rw [splitOn_cons_eq_if_modifyHead]
    have hrest : ∀ part ∈ s.splitOn c, ∀ d ∈ part, d ≠ c ∧ d ∈ x :: s :=
      fun part hpart d hd => ⟨(ih part hpart d hd).1, mem_cons_of_mem _ (ih part hpart d hd).2⟩
    split_ifs with hx
    · exact forall_mem_cons.mpr ⟨(fun _ hmem => nomatch hmem), hrest⟩
    · generalize s.splitOn c = tail at hrest
      cases tail with
      | nil => exact fun _ hmem => nomatch hmem
      | cons first others =>
        have hfirst := hrest first mem_cons_self
        refine forall_mem_cons.mpr ⟨forall_mem_cons.mpr ⟨⟨?_, mem_cons_self⟩, hfirst⟩,
          fun part hpart => hrest part (mem_cons_of_mem _ hpart)⟩
        rintro rfl
        exact hx (beq_self_eq_true x)

/-- A file that is written without quotes has parts that can be read. -/
def ReadableFile (file : Str) : Prop :=
  fileNeedsQuote file = true ∨ ((file.splitOn '.').length ≤ maxSubSegmentsPerSlot ∧
    ∀ part ∈ file.splitOn '.', part ≠ [])

/-- A file without quotes has no character of the grammar but the dot. -/
theorem plain_of_not_fileNeedsQuote (h : fileNeedsQuote file = false) (hc : c ∈ file) :
    c = '.' ∨ isStructuralChar c = false ∧ c ≠ '"' := by
  have hnot := any_eq_false.mp h c hc
  simp only [Bool.or_eq_true, decide_eq_true_eq, not_or] at hnot
  by_cases hdot : c = '.'
  · exact Or.inl hdot
  · right
    refine ⟨?_, hnot.1.2⟩
    simp only [isStructuralChar, Bool.or_eq_false_iff, decide_eq_false_iff_not]
    simp only [Bool.not_eq_true] at hnot
    exact ⟨⟨⟨⟨hnot.1.1.1.1, hdot⟩, hnot.1.1.1.2⟩, hnot.1.1.2⟩, hnot.2⟩

theorem free_fileText (hfile : FormattableFile file) (hc : c = '/' ∨ c = '?') :
    TopLevel.Free scanBracketAware c (fileText file) := by
  unfold fileText
  split_ifs with hneeds
  · exact free_quoted (isUnquotable_eq_false.mp (hfile.quotable hneeds)).1
  · refine free_of_plain fun d hd => ?_
    rcases plain_of_not_fileNeedsQuote (Bool.eq_false_iff.mpr hneeds) hd with rfl | hplain
    · refine ⟨by decide, by decide, ?_⟩
      rcases hc with rfl | rfl
      · decide
      · decide
    · have hstruct := hplain.1
      simp only [isStructuralChar, Bool.or_eq_false_iff] at hstruct
      refine ⟨hstruct.1.1.2, hplain.2, ?_⟩
      rintro rfl
      rcases hc with rfl | rfl
      · exact absurd hplain.1 (by decide)
      · exact absurd hplain.1 (by decide)

theorem isSegment_fileText_iff (hfile : FormattableFile file) :
    IsSegment (fileText file) ↔ ReadableFile file := by
  have hdot : IsPathDelimiter '.' := Or.inr (Or.inl rfl)
  have hcontrol := hasControlChar_of_validateFileSlot hfile.valid
  have hvalid : IsSegment (fileText file) ↔ validateSegment (fileText file) = .ok () :=
    ⟨IsSegment.valid, fun h => ⟨h, fun c hc => free_fileText hfile hc⟩⟩
  rw [hvalid, validateSegment_eq_ok_iff]
  unfold ReadableFile fileText
  by_cases hneeds : fileNeedsQuote file = true
  · have hquotable := hfile.quotable hneeds
    have hsub := isSubSegment_quoted hcontrol hquotable
    rw [if_pos hneeds]
    have hlength : 1 ≤ maxSubSegmentsPerSlot := by decide
    refine ⟨fun _ => Or.inl hneeds, fun _ => ⟨[quoted file], ?_, hlength, ?_⟩⟩
    · exact (splitRespectingBrackets_eq_ok_iff hdot).mpr ⟨cons_ne_nil _ _,
        forall_mem_singleton.mpr (hsub.free '.' hdot), intercalate_singleton.symm⟩
    · exact forall_mem_singleton.mpr hsub.valid
  · have hparts : ∀ part ∈ file.splitOn '.', IsPlain part ∧ hasControlChar part = false := by
      intro part hpart
      have hmem := mem_of_mem_splitOn file '.' part hpart
      refine ⟨fun c hc => ?_, any_eq_false.mpr fun c hc => ?_⟩
      · exact (plain_of_not_fileNeedsQuote (Bool.eq_false_iff.mpr hneeds) (hmem c hc).2).resolve_left
          (hmem c hc).1
      · exact any_eq_false.mp hcontrol c (hmem c hc).2
    have hsplit : splitRespectingBrackets file '.' = .ok (file.splitOn '.') :=
      (splitRespectingBrackets_eq_ok_iff hdot).mpr ⟨splitOn_ne_nil _ _,
        fun part hpart => (hparts part hpart).1.free hdot, (intercalate_splitOn '.').symm⟩
    rw [if_neg hneeds, or_iff_right hneeds, hsplit]
    constructor
    · intro ⟨subs, hsubs, hle, hall⟩
      rw [← Except.ok.inj hsubs] at hle hall
      refine ⟨hle, fun part hpart => ?_⟩
      rintro rfl
      exact absurd (hall [] hpart) (by decide)
    · intro ⟨hle, hall⟩
      exact ⟨_, rfl, hle, fun part hpart =>
        (isSubSegment_plain (hall part hpart) (hparts part hpart).2 (hparts part hpart).1).valid⟩

theorem unquoteSeg_fileText (file : Str) : unquoteSeg (fileText file) = file := by
  unfold fileText
  split_ifs with hneeds
  · exact unquoteSeg_quoted file
  · refine unquoteSeg_of_not_quoted (Bool.eq_false_iff.mpr fun hquoted => hneeds ?_)
    rw [← quoted_inner hquoted]
    exact any_eq_true.mpr ⟨'"', mem_cons_self, by decide⟩

end OpenClaw.Oc
