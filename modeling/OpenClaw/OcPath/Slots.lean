import OpenClaw.OcPath.SubSegments

/-!
# Slots

A slot is formatted sub-segment by sub-segment. The formatted slot can be read as the segment it
stands for exactly if the sub-segments that are passed on can be read.
-/

namespace OpenClaw.Oc

open TopLevel List

variable {α β : Type} {c : Char} {slot seg sub formatted : Str} {subs : List Str}

/-! ## Checks of a list -/

theorem forM_eq_ok_iff {check : α → Except PathError Unit} {xs : List α} :
    xs.forM check = .ok () ↔ ∀ x ∈ xs, check x = .ok () := by
  induction xs with
  | nil => exact ⟨(fun _ _ hmem => nomatch hmem), fun _ => rfl⟩
  | cons x xs ih =>
    show ((check x).bind fun _ => xs.forM check) = .ok () ↔ _
    rw [forall_mem_cons, ← ih]
    cases hx : check x with
    | error e => exact ⟨(fun h => nomatch h), (fun h => nomatch h.1)⟩
    | ok u => exact ⟨fun h => ⟨rfl, h⟩, fun h => h.2⟩

theorem mapM_eq_ok_iff {f : α → Except PathError β} {g : α → β} {Allowed : α → Prop} {xs : List α}
    (hf : ∀ x ∈ xs, ∀ y, f x = .ok y ↔ Allowed x ∧ y = g x) {ys : List β} :
    xs.mapM f = .ok ys ↔ (∀ x ∈ xs, Allowed x) ∧ ys = xs.map g := by
  induction xs generalizing ys with
  | nil =>
    rw [mapM_nil]
    constructor
    · exact fun h => ⟨(fun _ hmem => nomatch hmem), (Except.ok.inj h).symm⟩
    · exact fun h => congrArg Except.ok h.2.symm
  | cons x xs ih =>
    have hx := hf x mem_cons_self
    have hxs : ∀ {ys}, xs.mapM f = .ok ys ↔ (∀ x ∈ xs, Allowed x) ∧ ys = xs.map g :=
      ih fun x hmem => hf x (mem_cons_of_mem _ hmem)
    rw [mapM_cons, forall_mem_cons, map_cons]
    cases hfx : f x with
    | error e =>
      have hnot : ¬Allowed x := fun hallowed => by
        rw [(hx (g x)).mpr ⟨hallowed, rfl⟩] at hfx
        cases hfx
      exact ⟨(fun h => nomatch h), fun h => absurd h.1.1 hnot⟩
    | ok y =>
      have hy := (hx y).mp hfx
      cases htail : xs.mapM f with
      | error e =>
        have hnot : ¬∀ x ∈ xs, Allowed x := fun hall => by
          rw [hxs.mpr ⟨hall, rfl⟩] at htail
          cases htail
        exact ⟨(fun h => nomatch h), fun h => absurd h.1.2 hnot⟩
      | ok tail =>
        have htail := hxs.mp htail
        rw [hy.2, htail.2]
        constructor
        · exact fun h => ⟨⟨hy.1, htail.1⟩, (Except.ok.inj h).symm⟩
        · exact fun h => congrArg Except.ok h.2.symm

/-! ## The segments that can be read -/

/-- A segment that the parser takes, and that ends where it should. -/
structure IsSegment (seg : Str) : Prop where
  valid : validateSegment seg = .ok ()
  free : ∀ c, c = '/' ∨ c = '?' → Free scanBracketAware c seg

theorem validateSegment_eq_ok_iff : validateSegment seg = .ok () ↔
    ∃ subs, splitRespectingBrackets seg '.' = .ok subs ∧
      subs.length ≤ maxSubSegmentsPerSlot ∧ ∀ sub ∈ subs, validateSubSegment sub = .ok () := by
  unfold validateSegment validateBrackets splitRespectingBrackets split
  cases hsplit : splitFrom scanBracketAware '.' scanBracketAware.start seg with
  | none =>
    constructor
    · intro h
      split_ifs at h
      · cases h
      · cases h
    · exact fun ⟨subs, h, _⟩ => nomatch h
  | some subs =>
    rw [if_pos (finish_of_splitFrom hsplit)]
    show (if maxSubSegmentsPerSlot < subs.length then _ else subs.forM validateSubSegment) = _ ↔ _
    by_cases hlength : maxSubSegmentsPerSlot < subs.length
    · rw [if_pos hlength]
      constructor
      · exact fun h => nomatch h
      · intro ⟨found, hfound, hle, _⟩
        rw [← Except.ok.inj hfound] at hle
        exact absurd hlength (Nat.not_lt.mpr hle)
    · rw [if_neg hlength, forM_eq_ok_iff]
      constructor
      · exact fun hall => ⟨subs, rfl, Nat.not_lt.mp hlength, hall⟩
      · intro ⟨found, hfound, _, hall⟩
        rw [← Except.ok.inj hfound] at hall
        exact hall

/-! ## Formatting a slot -/

/-- A sub-segment that the formatter takes. -/
structure Formattable (sub : Str) : Prop where
  ne_nil : sub ≠ []
  control : hasControlChar sub = false
  quotable : isPassedOn sub = true ∨ isUnquotable sub = false

theorem validateSubForFormat_eq_ok_iff :
    validateSubForFormat sub = .ok () ↔ sub ≠ [] ∧ hasControlChar sub = false := by
  unfold validateSubForFormat
  split_ifs with hnil hcontrol
  · exact ⟨(fun h => nomatch h), fun h => absurd hnil h.1⟩
  · exact ⟨(fun h => nomatch h), fun h => absurd hcontrol (Bool.eq_false_iff.mp h.2)⟩
  · exact ⟨fun _ => ⟨hnil, Bool.eq_false_iff.mpr hcontrol⟩, fun _ => rfl⟩

/-- What a slot of these sub-segments is formatted as. -/
def formattedSlot (subs : List Str) : Str := joinWith ['.'] (subs.map formattedSub)

theorem formatSlot_eq_ok_iff : formatSlot slot = .ok formatted ↔
    ∃ subs, splitRespectingBrackets slot '.' = .ok subs ∧ (∀ sub ∈ subs, Formattable sub) ∧
      formatted = formattedSlot subs := by
  unfold formatSlot
  cases hsplit : splitRespectingBrackets slot '.' with
  | error e =>
    exact ⟨(fun h => nomatch h), fun ⟨_, h, _⟩ => nomatch h⟩
  | ok subs =>
    have hunique : (∃ found, Except.ok subs = Except.ok (ε := PathError) found ∧
        (∀ sub ∈ found, Formattable sub) ∧ formatted = formattedSlot found) ↔
        (∀ sub ∈ subs, Formattable sub) ∧ formatted = formattedSlot subs := by
      constructor
      · intro ⟨found, hfound, hall⟩
        rw [Except.ok.inj hfound]
        exact hall
      · exact fun hall => ⟨subs, rfl, hall⟩
    rw [hunique]
    show ((subs.forM validateSubForFormat).bind fun _ => (subs.mapM formatSubSegment).bind
      fun formatted => .ok (joinWith ['.'] formatted)) = .ok formatted ↔ _
    cases hcheck : subs.forM validateSubForFormat with
    | error e =>
      have hnot : ¬∀ sub ∈ subs, Formattable sub := by
        intro hall
        rw [forM_eq_ok_iff.mpr fun sub hmem =>
          validateSubForFormat_eq_ok_iff.mpr ⟨(hall sub hmem).ne_nil, (hall sub hmem).control⟩]
          at hcheck
        cases hcheck
      exact ⟨(fun h => nomatch h), fun h => absurd h.1 hnot⟩
    | ok u =>
      have hvalid := fun sub hmem => validateSubForFormat_eq_ok_iff.mp
        (forM_eq_ok_iff.mp hcheck sub hmem)
      have hformat : ∀ {ys}, subs.mapM formatSubSegment = .ok ys ↔
          (∀ sub ∈ subs, isPassedOn sub = true ∨ isUnquotable sub = false) ∧
            ys = subs.map formattedSub :=
        mapM_eq_ok_iff fun sub hmem _ => formatSubSegment_eq_ok_iff (hvalid sub hmem).1
      have hall : (∀ sub ∈ subs, Formattable sub) ↔
          ∀ sub ∈ subs, isPassedOn sub = true ∨ isUnquotable sub = false :=
        ⟨fun h sub hmem => (h sub hmem).quotable,
          fun h sub hmem => ⟨(hvalid sub hmem).1, (hvalid sub hmem).2, h sub hmem⟩⟩
      rw [hall]
      cases hmap : subs.mapM formatSubSegment with
      | error e =>
        refine ⟨(fun h => nomatch h), fun h => ?_⟩
        rw [hformat.mpr ⟨h.1, rfl⟩] at hmap
        cases hmap
      | ok ys =>
        have hys := hformat.mp hmap
        rw [hys.2]
        constructor
        · exact fun h => ⟨hys.1, (Except.ok.inj h).symm⟩
        · exact fun h => congrArg Except.ok h.2.symm

/-! ## Reading a formatted slot -/

/-- The list of unquoted sub-segments of a slot. -/
def subSegments (slot : Str) : Except PathError (List Str) :=
  (splitRespectingBrackets slot '.').map (List.map unquoteSeg)

/-- A sub-segment that is passed on, if it can be read. -/
def ReadsBack (sub : Str) : Prop :=
  isPassedOn sub = true → validateSubSegment sub = .ok () ∧
    ∀ c, c = '/' ∨ c = '?' → Free scanBracketAware c sub

theorem free_formattedSub (hformat : Formattable sub) (hfree : Free scanBracketAware '.' sub) :
    Free scanBracketAware '.' (formattedSub sub) := by
  unfold formattedSub
  split_ifs with hpass
  · exact hfree
  · exact (isSubSegment_quoteIfStructural hformat.ne_nil hformat.control
      (hformat.quotable.resolve_left hpass)).free '.' (Or.inr (Or.inl rfl))

theorem isPathDelimiter_of_slash_or_query (hc : c = '/' ∨ c = '?') : IsPathDelimiter c :=
  hc.imp id Or.inr

/-- A formatted sub-segment can be read if it was passed on and could be read. -/
theorem readsBack_iff (hformat : Formattable sub) :
    ReadsBack sub ↔ validateSubSegment (formattedSub sub) = .ok () ∧
      ∀ c, c = '/' ∨ c = '?' → Free scanBracketAware c (formattedSub sub) := by
  unfold ReadsBack formattedSub
  by_cases hpass : isPassedOn sub = true
  · rw [if_pos hpass]
    exact ⟨fun h => h hpass, fun h _ => h⟩
  · have hsub := isSubSegment_quoteIfStructural hformat.ne_nil hformat.control
      (hformat.quotable.resolve_left hpass)
    rw [if_neg hpass]
    exact ⟨fun _ => ⟨hsub.valid, fun c hc => hsub.free c (isPathDelimiter_of_slash_or_query hc)⟩,
      fun _ h => absurd h hpass⟩

/-- What is known of a slot that has been formatted. -/
structure FormattedSlot (slot : Str) (subs : List Str) : Prop where
  split_eq : splitRespectingBrackets slot '.' = .ok subs
  formattable : ∀ sub ∈ subs, Formattable sub

theorem FormattedSlot.split_formatted (h : FormattedSlot slot subs) :
    splitRespectingBrackets (formattedSlot subs) '.' = .ok (subs.map formattedSub) := by
  have hdot : IsPathDelimiter '.' := Or.inr (Or.inl rfl)
  have hsplit := (splitRespectingBrackets_eq_ok_iff hdot).mp h.split_eq
  refine (splitRespectingBrackets_eq_ok_iff hdot).mpr ⟨?_, ?_, rfl⟩
  · exact fun hnil => hsplit.1 (map_eq_nil_iff.mp hnil)
  · exact forall_mem_map.mpr fun sub hmem =>
      free_formattedSub (h.formattable sub hmem) (hsplit.2.1 sub hmem)

/-- The formatted slot has the sub-segments of the slot. -/
theorem FormattedSlot.subSegments_eq (h : FormattedSlot slot subs) :
    subSegments (formattedSlot subs) = subSegments slot := by
  unfold subSegments
  rw [h.split_formatted, h.split_eq]
  show Except.ok _ = Except.ok _
  rw [map_map]
  congr 1
  exact map_congr_left fun sub _ => unquoteSeg_formattedSub sub

theorem FormattedSlot.isSegment_iff (h : FormattedSlot slot subs) : IsSegment (formattedSlot subs) ↔
      subs.length ≤ maxSubSegmentsPerSlot ∧ ∀ sub ∈ subs, ReadsBack sub := by
  have hsplit := h.split_formatted
  have hdot : IsPathDelimiter '.' := Or.inr (Or.inl rfl)
  have hfree := ((splitRespectingBrackets_eq_ok_iff hdot).mp hsplit).2.1
  have hvalid : validateSegment (formattedSlot subs) = .ok () ↔
      subs.length ≤ maxSubSegmentsPerSlot ∧
        ∀ sub ∈ subs, validateSubSegment (formattedSub sub) = .ok () := by
    rw [validateSegment_eq_ok_iff, hsplit]
    constructor
    · intro ⟨found, hfound, hle, hall⟩
      rw [← Except.ok.inj hfound, length_map] at hle
      rw [← Except.ok.inj hfound, forall_mem_map] at hall
      exact ⟨hle, hall⟩
    · intro ⟨hle, hall⟩
      refine ⟨_, rfl, ?_, forall_mem_map.mpr hall⟩
      rw [length_map]
      exact hle
  have hfrees : (∀ c, c = '/' ∨ c = '?' → Free scanBracketAware c (formattedSlot subs)) ↔
      ∀ sub ∈ subs, ∀ c, c = '/' ∨ c = '?' → Free scanBracketAware c (formattedSub sub) := by
    have hne : ∀ c, c = '/' ∨ c = '?' → '.' ≠ c := by
      rintro c (rfl | rfl)
      · decide
      · decide
    constructor
    · intro hall sub hmem c hc
      exact free_of_free_intercalate hdot.isDelimiter (hne c hc) (hall c hc) hfree _
        (mem_map_of_mem hmem)
    · intro hall c hc
      exact free_intercalate hdot.isDelimiter (hne c hc)
        (forall_mem_map.mpr fun sub hmem => hall sub hmem c hc)
  constructor
  · intro hseg
    have hv := hvalid.mp hseg.valid
    have hf := hfrees.mp hseg.free
    exact ⟨hv.1, fun sub hmem =>
      (readsBack_iff (h.formattable sub hmem)).mpr ⟨hv.2 sub hmem, hf sub hmem⟩⟩
  · intro ⟨hle, hall⟩
    have hreads := fun sub hmem => (readsBack_iff (h.formattable sub hmem)).mp (hall sub hmem)
    exact ⟨hvalid.mpr ⟨hle, fun sub hmem => (hreads sub hmem).1⟩,
      hfrees.mpr fun sub hmem => (hreads sub hmem).2⟩

end OpenClaw.Oc
