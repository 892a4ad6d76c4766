import OpenClaw.OcPath.Parsed

/-!
# Formatted paths

The formatter writes the file, the slots and the session of a path, if it takes each of them.
-/

namespace OpenClaw.Oc

open List

variable {path : OcPath} {slots : List Str} {out out' file : Str} {slot? session? : Option Str}

/-! ## The parts of a path -/

variable (slot : Str)

/-- The sub-segments of a slot with balanced brackets. -/
def slotSubs : List Str :=
  match splitRespectingBrackets slot '.' with
  | .ok subs => subs
  | .error _ => []

/-- A slot that the formatter takes. -/
def FormattableSlot : Prop := FormattedSlot slot (slotSubs slot)

/-- What a slot is formatted as. -/
def slotText : Str := formattedSlot (slotSubs slot)

theorem formatSlot_eq_ok {slot formatted : Str} :
    formatSlot slot = .ok formatted ↔ FormattableSlot slot ∧ formatted = slotText slot := by
  rw [formatSlot_eq_ok_iff]
  have hsubs : ∀ {subs}, splitRespectingBrackets slot '.' = .ok subs → slotSubs slot = subs := by
    intro subs hsplit
    unfold slotSubs
    rw [hsplit]
  constructor
  · intro ⟨subs, hsplit, hall, hformatted⟩
    unfold FormattableSlot slotText
    rw [hsubs hsplit]
    exact ⟨⟨hsplit, hall⟩, hformatted⟩
  · intro ⟨hslot, hformatted⟩
    exact ⟨_, hslot.split_eq, hslot.formattable, hformatted⟩

theorem appendSlot_eq_ok_iff : appendSlot out slot? = .ok out' ↔
    (∀ slot ∈ slot?.toList, FormattableSlot slot) ∧
      out' = out ++ slot?.toList.flatMap fun slot => '/' :: slotText slot := by
  cases slot? with
  | none =>
    show Except.ok out = .ok out' ↔ _
    rw [Except.ok.injEq]
    constructor
    · exact fun h => ⟨(fun _ hmem => nomatch hmem), h.symm.trans (append_nil _).symm⟩
    · exact fun h => (h.2.trans (append_nil _)).symm
  | some slot =>
    show (formatSlot slot >>= fun formatted => .ok (out ++ '/' :: formatted)) = .ok out' ↔ _
    rw [bind_eq_ok_iff, Option.toList_some, forall_mem_singleton, flatMap_singleton]
    constructor
    · intro ⟨formatted, hformat, hout⟩
      have hslot := formatSlot_eq_ok.mp hformat
      rw [← hslot.2]
      exact ⟨hslot.1, (Except.ok.inj hout).symm⟩
    · intro ⟨hslot, hout⟩
      exact ⟨_, formatSlot_eq_ok.mpr ⟨hslot, rfl⟩, congrArg Except.ok hout.symm⟩

/-- The query of a session. -/
def sessionQuery (session? : Option Str) : Option Str := session?.map ("session=".toList ++ ·)

theorem appendSession_eq_ok_iff : appendSession out session? = .ok out' ↔
    (∀ session, session? = some session → validateSessionSlot session = .ok ()) ∧
      out' = out ++ queryText (sessionQuery session?) := by
  cases session? with
  | none =>
    show Except.ok out = .ok out' ↔ _
    rw [Except.ok.injEq]
    constructor
    · exact fun h => ⟨(fun _ hmem => nomatch hmem), h.symm.trans (append_nil _).symm⟩
    · exact fun h => (h.2.trans (append_nil _)).symm
  | some session =>
    show (validateSessionSlot session >>= fun _ => .ok (out ++ "?session=".toList ++ session)) =
      .ok out' ↔ _
    rw [bind_eq_ok_iff]
    have htext : out ++ "?session=".toList ++ session =
        out ++ queryText (sessionQuery (some session)) := append_assoc _ _ _
    rw [htext]
    constructor
    · intro ⟨_, hvalid, hout⟩
      refine ⟨fun other hother => ?_, (Except.ok.inj hout).symm⟩
      rw [← Option.some.inj hother]
      exact hvalid
    · intro ⟨hvalid, hout⟩
      exact ⟨(), hvalid session rfl, congrArg Except.ok hout.symm⟩

/-! ## The file -/

/-- What a file is formatted as. -/
def fileText (file : Str) : Str := if fileNeedsQuote file then quoted file else file

/-- A file that the formatter takes. -/
structure FormattableFile (file : Str) : Prop where
  ne_nil : file ≠ []
  valid : validateFileSlot file = .ok ()
  quotable : fileNeedsQuote file = true → isUnquotable file = false

theorem any_structural_of_fileNeedsQuote (hneeds : fileNeedsQuote file = true)
    (hquotable : isUnquotable file = false) : file.any isStructuralChar = true := by
  obtain ⟨c, hmem, hc⟩ := any_eq_true.mp hneeds
  refine any_eq_true.mpr ⟨c, hmem, ?_⟩
  have hne : c ≠ '"' := by
    rintro rfl
    exact (isUnquotable_eq_false.mp hquotable).1 hmem
  simp only [Bool.or_eq_true, decide_eq_true_eq] at hc
  simp only [isStructuralChar, Bool.or_eq_true, decide_eq_true_eq]
  tauto

theorem formatFile_eq_ok_iff (hne : file ≠ []) {formatted : Str} : formatFile file = .ok formatted ↔
      (fileNeedsQuote file = true → isUnquotable file = false) ∧ formatted = fileText file := by
  unfold formatFile fileText
  by_cases hneeds : fileNeedsQuote file = true
  · rw [if_pos hneeds, if_pos hneeds, quoteSeg_eq_ok_iff hne]
    constructor
    · intro ⟨hquotable, hformatted⟩
      rw [quoteIfStructural, if_pos (any_structural_of_fileNeedsQuote hneeds hquotable)]
        at hformatted
      exact ⟨fun _ => hquotable, hformatted⟩
    · intro ⟨hquotable, hformatted⟩
      rw [quoteIfStructural, if_pos (any_structural_of_fileNeedsQuote hneeds (hquotable hneeds))]
      exact ⟨hquotable hneeds, hformatted⟩
  · rw [if_neg hneeds, if_neg hneeds, Except.ok.injEq]
    exact ⟨fun h => ⟨fun h => absurd h hneeds, h.symm⟩, fun h => h.2.symm⟩

/-! ## The whole path -/

/-- A path that the formatter takes, apart from its length and from the sentinel. -/
structure FormattablePath (path : OcPath) (slots : List Str) : Prop where
  path_eq : path = ⟨path.file, slots[0]?, slots[1]?, slots[2]?, path.session⟩
  count : slots.length ≤ 3
  file : FormattableFile path.file
  slot : ∀ slot ∈ slots, FormattableSlot slot
  session : ∀ session, path.session = some session → validateSessionSlot session = .ok ()

/-- The segments that a path is formatted as. -/
def pathSegments (file : Str) (slots : List Str) : List Str := fileText file :: slots.map slotText

variable (path)

def pathText (slots : List Str) : Str :=
  ocScheme ++ joinWith ['/'] (pathSegments path.file slots) ++
    queryText (sessionQuery path.session)

theorem joinWith_slash (seg : Str) (segments : List Str) :
    joinWith ['/'] (seg :: segments) = seg ++ segments.flatMap ('/' :: ·) := by
  induction segments generalizing seg with
  | nil => rw [joinWith, intercalate_singleton, flatMap_nil, append_nil]
  | cons second segments ih =>
    have ih := ih second
    unfold joinWith at ih ⊢
    rw [intercalate_cons_cons, ih, append_assoc, flatMap_cons]
    rfl

theorem pathText_eq (slots : List Str) : pathText path slots = ocScheme ++ fileText path.file ++
      (slots.flatMap fun slot => '/' :: slotText slot) ++
        queryText (sessionQuery path.session) := by
  unfold pathText pathSegments
  rw [joinWith_slash, flatMap_map, ← append_assoc ocScheme]

/-- The slots of a path. -/
def pathSlots : List Str :=
  path.sectionSlot.toList ++ path.itemSlot.toList ++ path.fieldSlot.toList

/-- Items are in sections, and fields in items. -/
def Nested : Prop :=
  (path.itemSlot.isSome → path.sectionSlot.isSome) ∧ (path.fieldSlot.isSome → path.itemSlot.isSome)

variable {path}

theorem not_nesting_iff {inner? outer? : Option Str} :
    ¬((inner?.isSome && outer?.isNone) = true) ↔ (inner?.isSome → outer?.isSome) := by
  cases inner? <;> cases outer? <;> simp

theorem nested_iff : Nested path ↔
    path = ⟨path.file, (pathSlots path)[0]?, (pathSlots path)[1]?, (pathSlots path)[2]?,
      path.session⟩ := by
  obtain ⟨file, sectionSlot, itemSlot, fieldSlot, session⟩ := path
  unfold Nested pathSlots
  cases sectionSlot <;> cases itemSlot <;> cases fieldSlot <;> simp

theorem pathSlots_length_le (path : OcPath) : (pathSlots path).length ≤ 3 := by
  obtain ⟨file, sectionSlot, itemSlot, fieldSlot, session⟩ := path
  unfold pathSlots
  cases sectionSlot <;> cases itemSlot <;> cases fieldSlot <;> simp

theorem formattablePath_iff : FormattablePath path (pathSlots path) ↔
    FormattableFile path.file ∧ Nested path ∧ (∀ slot ∈ pathSlots path, FormattableSlot slot) ∧
      ∀ session, path.session = some session → validateSessionSlot session = .ok () :=
  ⟨fun h => ⟨h.file, nested_iff.mpr h.path_eq, h.slot, h.session⟩,
    fun ⟨hfile, hnested, hslot, hsession⟩ =>
      ⟨nested_iff.mp hnested, pathSlots_length_le path, hfile, hslot, hsession⟩⟩

/-- The two checks of the formatted text. -/
def checkOut (out : Str) : Except PathError Str :=
  if maxPathLength < jsLength out then .error .tooLong
  else if includes out redactedSentinel then .error .emitSentinel
  else .ok out

theorem formatOcPath_of_formattable (h : FormattablePath path (pathSlots path)) :
    formatOcPath path = checkOut (pathText path (pathSlots path)) := by
  obtain ⟨hfile, hnested, hslot, hsession⟩ := formattablePath_iff.mp h
  unfold pathSlots at hslot
  rw [forall_mem_append, forall_mem_append] at hslot
  have hitem := not_nesting_iff.mpr hnested.1
  have hfield := not_nesting_iff.mpr hnested.2
  have hfileText := (formatFile_eq_ok_iff hfile.ne_nil).mpr ⟨hfile.quotable, rfl⟩
  rw [formatOcPath, if_neg hfile.ne_nil, hfile.valid]
  dsimp only [Bind.bind, Except.bind]
  rw [if_neg hitem, if_neg hfield, hfileText]
  dsimp only
  rw [appendSlot_eq_ok_iff.mpr ⟨hslot.1.1, rfl⟩]
  dsimp only
  rw [appendSlot_eq_ok_iff.mpr ⟨hslot.1.2, rfl⟩]
  dsimp only
  rw [appendSlot_eq_ok_iff.mpr ⟨hslot.2, rfl⟩]
  dsimp only
  rw [appendSession_eq_ok_iff.mpr ⟨hsession, rfl⟩]
  dsimp only
  rw [pathText_eq, pathSlots, flatMap_append, flatMap_append]
  simp only [append_assoc]
  rfl

theorem formattable_of_formatOcPath (h : formatOcPath path = .ok out) :
    FormattablePath path (pathSlots path) ∧ checkOut (pathText path (pathSlots path)) = .ok out := by
  have hformattable : FormattablePath path (pathSlots path) := by
    rw [formatOcPath, ite_error_eq_ok_iff, bind_eq_ok_iff] at h
    obtain ⟨hne, _, hvalid, h⟩ := h
    rw [ite_error_eq_ok_iff, ite_error_eq_ok_iff, bind_eq_ok_iff] at h
    obtain ⟨hitem, hfield, formattedFile, hfile, h⟩ := h
    rw [bind_eq_ok_iff] at h
    obtain ⟨_, hsectionSlot, h⟩ := h
    rw [bind_eq_ok_iff] at h
    obtain ⟨_, hitemSlot, h⟩ := h
    rw [bind_eq_ok_iff] at h
    obtain ⟨_, hfieldSlot, h⟩ := h
    rw [bind_eq_ok_iff] at h
    obtain ⟨_, hsession, _⟩ := h
    have hslots : ∀ slot ∈ pathSlots path, FormattableSlot slot := by
      unfold pathSlots
      rw [forall_mem_append, forall_mem_append]
      exact ⟨⟨(appendSlot_eq_ok_iff.mp hsectionSlot).1, (appendSlot_eq_ok_iff.mp hitemSlot).1⟩,
        (appendSlot_eq_ok_iff.mp hfieldSlot).1⟩
    exact formattablePath_iff.mpr ⟨⟨hne, hvalid, ((formatFile_eq_ok_iff hne).mp hfile).1⟩,
      ⟨not_nesting_iff.mp hitem, not_nesting_iff.mp hfield⟩, hslots,
      (appendSession_eq_ok_iff.mp hsession).1⟩
  rw [formatOcPath_of_formattable hformattable] at h
  exact ⟨hformattable, h⟩

end OpenClaw.Oc
