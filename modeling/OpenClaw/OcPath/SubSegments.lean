import OpenClaw.OcPath.Path

/-!
# Sub-segments

What the formatter makes of a sub-segment, and how it is read again. A sub-segment that looks like
a quote, a predicate or a union is passed on as it is.
-/

namespace OpenClaw.Oc

open TopLevel List

variable {delim c : Char} {sub formatted value : Str}

/-! ## The scanner -/

/-- The delimiters of a path. -/
def IsPathDelimiter (c : Char) : Prop := c = '/' ∨ c = '.' ∨ c = '?'

theorem isDelimiter_of_not_bracket (hbracket : isBracketChar c = false) (hquote : c ≠ '"') :
    IsDelimiter scanBracketAware c := by
  have hne : c ≠ '[' ∧ c ≠ ']' ∧ c ≠ '{' ∧ c ≠ '}' := by
    simpa [isBracketChar, and_assoc] using hbracket
  have hnext : ∀ state : ScanState, state.next c =
      if state.inQuote then some ({ state with inQuote := c ≠ '"' }, false)
      else some (state, state.depthBracket = 0 && state.depthBrace = 0) := by
    intro state
    unfold ScanState.next
    rw [if_neg hquote]
    dsimp only
    rw [if_neg hne.1, if_neg hne.2.1, if_neg hne.2.2.1, if_neg hne.2.2.2]
    rfl
  constructor
  · exact hnext ⟨0, 0, false⟩
  · intro state state' h
    have h := (hnext state).symm.trans h
    split_ifs at h with hq
    · cases h
    · have htop := congrArg Prod.snd (Option.some.inj h)
      obtain ⟨bracket, brace, quote⟩ := state
      simp only [Bool.not_eq_true] at hq
      simp only [Bool.and_eq_true, decide_eq_true_eq] at htop
      rw [htop.1, htop.2, show quote = false from hq]
      rfl

theorem IsPathDelimiter.isDelimiter (h : IsPathDelimiter c) : IsDelimiter scanBracketAware c := by
  rcases h with rfl | rfl | rfl
  · exact isDelimiter_of_not_bracket (by decide) (by decide)
  · exact isDelimiter_of_not_bracket (by decide) (by decide)
  · exact isDelimiter_of_not_bracket (by decide) (by decide)

/-- A word without brackets, quotes and the delimiter. -/
theorem free_of_plain (h : ∀ c ∈ value, isBracketChar c = false ∧ c ≠ '"' ∧ c ≠ delim) :
    Free scanBracketAware delim value := by
  induction value with
  | nil => exact rfl
  | cons c value ih =>
    have hc := h c mem_cons_self
    have hfree := ih fun c hmem => h c (mem_cons_of_mem _ hmem)
    exact (free_singleton (isDelimiter_of_not_bracket hc.1 hc.2.1) hc.2.2).append hfree

/-- Between quotes everything is text. -/
theorem free_quoted (h : '"' ∉ value) : Free scanBracketAware delim (quoted value) := by
  have hinside : Reads scanBracketAware delim ⟨0, 0, true⟩ value ⟨0, 0, true⟩ := by
    induction value with
    | nil => exact rfl
    | cons c value ih =>
      have hne : c ≠ '"' := fun heq => h (heq ▸ mem_cons_self)
      have hstep : scanBracketAware.next ⟨0, 0, true⟩ c = some (⟨0, 0, true⟩, false) := by
        show ScanState.next ⟨0, 0, true⟩ c = _
        rw [ScanState.next, if_pos rfl, decide_eq_true hne]
      exact ⟨_, _, hstep, fun hand => Bool.false_ne_true hand.1,
        ih fun hmem => h (mem_cons_of_mem _ hmem)⟩
  have hopen : Reads scanBracketAware delim scanBracketAware.start ['"'] ⟨0, 0, true⟩ :=
    ⟨_, _, rfl, fun hand => Bool.false_ne_true hand.1, rfl⟩
  have hclose : Reads scanBracketAware delim ⟨0, 0, true⟩ ['"'] scanBracketAware.start :=
    ⟨_, _, rfl, fun hand => Bool.false_ne_true hand.1, rfl⟩
  exact reads_append.mpr ⟨_, reads_append.mpr ⟨_, hopen, hinside⟩, hclose⟩

theorem splitRespectingBrackets_eq_ok {s : Str} {parts : List Str} :
    splitRespectingBrackets s delim = .ok parts ↔ split scanBracketAware delim s = some parts := by
  unfold splitRespectingBrackets
  cases split scanBracketAware delim s with
  | none => exact ⟨(fun h => nomatch h), (fun h => nomatch h)⟩
  | some found =>
    constructor
    · intro h
      exact congrArg some (Except.ok.inj h)
    · intro h
      exact congrArg Except.ok (Option.some.inj h)

theorem splitRespectingBrackets_eq_ok_iff (hdelim : IsPathDelimiter delim) {s : Str}
    {parts : List Str} : splitRespectingBrackets s delim = .ok parts ↔
      parts ≠ [] ∧ (∀ part ∈ parts, Free scanBracketAware delim part) ∧
        s = joinWith [delim] parts := by
  rw [splitRespectingBrackets_eq_ok, split_eq_some_iff hdelim.isDelimiter]
  rfl

/-! ## Quotes -/

variable (value)

theorem quoted_ne_nil : quoted value ≠ [] := cons_ne_nil _ _

theorem isQuotedSeg_quoted : isQuotedSeg (quoted value) = true := by
  unfold isQuotedSeg quoted
  rw [getLast?_append]
  simp

theorem inner_quoted : inner (quoted value) = value := by
  unfold inner quoted
  rw [cons_append, drop_one, tail_cons, dropLast_concat]

theorem unquoteSeg_quoted : unquoteSeg (quoted value) = value := by
  rw [unquoteSeg, if_pos (isQuotedSeg_quoted value), inner_quoted]

variable {value}

theorem quoted_inner (h : isQuotedSeg sub = true) : quoted (inner sub) = sub := by
  unfold isQuotedSeg at h
  simp only [Bool.and_eq_true, decide_eq_true_eq] at h
  obtain ⟨⟨hlength, hhead⟩, hlast⟩ := h
  cases sub with
  | nil => cases hhead
  | cons first rest =>
    obtain rfl := Option.some.inj hhead
    have hne : rest ≠ [] := by
      rintro rfl
      exact nomatch hlength
    rw [getLast?_cons_of_ne_nil hne] at hlast
    have hrest := dropLast_append_getLast? _ hlast
    unfold quoted inner
    rw [drop_one, tail_cons, cons_append, hrest]

/-- A sub-segment is its unquoted text, or that text in quotes. -/
theorem eq_unquoteSeg_or (sub : Str) : sub = unquoteSeg sub ∨ sub = quoted (unquoteSeg sub) := by
  unfold unquoteSeg
  split_ifs with h
  · exact Or.inr (quoted_inner h).symm
  · exact Or.inl rfl

/-! ## Formatting a sub-segment -/

/-- The sub-segment is passed on as it is. -/
def isPassedOn (sub : Str) : Bool := isQuotedSeg sub || isBracketSeg sub || isBraceSeg sub

theorem formatSubSegment_eq (sub : Str) :
    formatSubSegment sub = if isPassedOn sub then .ok sub else quoteSeg sub := by
  unfold formatSubSegment isPassedOn
  split_ifs <;> simp_all

/-- What stands for a sub-segment that is not passed on. -/
def quoteIfStructural (value : Str) : Str :=
  if value.any isStructuralChar then quoted value else value

theorem quoteSeg_eq_ok_iff (hne : value ≠ []) : quoteSeg value = .ok formatted ↔
      isUnquotable value = false ∧ formatted = quoteIfStructural value := by
  unfold quoteSeg quoteIfStructural
  rw [if_neg hne]
  cases isUnquotable value with
  | true => exact ⟨(fun h => nomatch h), (fun h => nomatch h.1)⟩
  | false =>
    rw [if_neg Bool.false_ne_true, Except.ok.injEq]
    exact ⟨fun h => ⟨rfl, h.symm⟩, fun h => h.2.symm⟩

/-- What a sub-segment is formatted as. -/
def formattedSub (sub : Str) : Str := if isPassedOn sub then sub else quoteIfStructural sub

theorem formatSubSegment_eq_ok_iff (hne : sub ≠ []) : formatSubSegment sub = .ok formatted ↔
      (isPassedOn sub = true ∨ isUnquotable sub = false) ∧ formatted = formattedSub sub := by
  rw [formatSubSegment_eq, formattedSub]
  by_cases hpass : isPassedOn sub = true
  · rw [if_pos hpass, if_pos hpass, Except.ok.injEq]
    exact ⟨fun h => ⟨Or.inl hpass, h.symm⟩, fun h => h.2.symm⟩
  · rw [if_neg hpass, if_neg hpass, quoteSeg_eq_ok_iff hne]
    exact and_congr_left fun _ => (or_iff_right hpass).symm

theorem unquoteSeg_of_not_quoted (h : isQuotedSeg sub = false) : unquoteSeg sub = sub := by
  rw [unquoteSeg, if_neg (Bool.eq_false_iff.mp h)]

theorem not_quoted_of_not_passedOn (h : isPassedOn sub = false) : isQuotedSeg sub = false := by
  unfold isPassedOn at h
  simp only [Bool.or_eq_false_iff] at h
  exact h.1.1

theorem unquoteSeg_formattedSub (sub : Str) : unquoteSeg (formattedSub sub) = unquoteSeg sub := by
  unfold formattedSub quoteIfStructural
  split_ifs with hpass hstruct
  · rfl
  · have hnot := not_quoted_of_not_passedOn (Bool.eq_false_iff.mpr hpass)
    rw [unquoteSeg_quoted, unquoteSeg_of_not_quoted hnot]
  · rfl

/-! ## Reading a sub-segment -/

/-- A sub-segment that the parser takes, and that ends where it should. -/
structure IsSubSegment (sub : Str) : Prop where
  valid : validateSubSegment sub = .ok ()
  free : ∀ c, IsPathDelimiter c → Free scanBracketAware c sub

theorem isUnquotable_eq_false : isUnquotable value = false ↔ '"' ∉ value ∧ '\\' ∉ value := by
  simp [isUnquotable]

theorem isSubSegment_quoted (hcontrol : hasControlChar value = false)
    (hquotable : isUnquotable value = false) : IsSubSegment (quoted value) := by
  have hquote := (isUnquotable_eq_false.mp hquotable).1
  refine ⟨?_, fun c _ => free_quoted hquote⟩
  have hcontrolQuoted : hasControlChar (quoted value) = false := by
    unfold hasControlChar at hcontrol ⊢
    rw [quoted, any_append, any_cons, hcontrol]
    decide
  unfold validateSubSegment
  dsimp only
  rw [if_neg (quoted_ne_nil value), hcontrolQuoted, isQuotedSeg_quoted, inner_quoted, hquotable]
  rfl

/-- No character that the grammar of a path uses. -/
def IsPlain (value : Str) : Prop :=
  ∀ c ∈ value, isStructuralChar c = false ∧ c ≠ '"'

theorem IsPlain.not_mem {value : Str} (h : IsPlain value) (hc : isStructuralChar c = true) :
    c ∉ value := by
  intro hmem
  rw [(h c hmem).1] at hc
  cases hc

theorem IsPlain.free (h : IsPlain value) (hc : IsPathDelimiter c) :
    Free scanBracketAware c value := by
  refine free_of_plain fun d hd => ?_
  have hstruct := (h d hd).1
  refine ⟨?_, (h d hd).2, ?_⟩
  · simp only [isStructuralChar, Bool.or_eq_false_iff] at hstruct
    exact hstruct.1.1.2
  · rintro rfl
    rcases hc with rfl | rfl | rfl
    · exact nomatch hstruct
    · exact nomatch hstruct
    · exact nomatch hstruct

theorem head?_ne_of_not_mem (h : c ∉ value) : decide (value.head? = some c) = false :=
  decide_eq_false fun heq => h (mem_of_head? heq)

theorem getLast?_ne_of_not_mem (h : c ∉ value) : decide (value.getLast? = some c) = false :=
  decide_eq_false fun heq => h (mem_of_getLast? heq)

theorem trim_of_no_space (h : ∀ c ∈ value, isSpace c = false) : trim value = value := by
  have hstart : trimStart value = value := by
    rw [trimStart, dropWhile_eq_self_iff]
    intro hpos
    rw [h _ (getElem_mem hpos)]
    exact Bool.false_ne_true
  have hend : trimEnd value = value := by
    rw [trimEnd, rdropWhile_eq_self_iff]
    intro hne
    rw [h _ (getLast_mem hne)]
    exact Bool.false_ne_true
  rw [trim, hstart, hend]

theorem isSubSegment_plain (hne : value ≠ []) (hcontrol : hasControlChar value = false)
    (h : IsPlain value) : IsSubSegment value := by
  refine ⟨?_, fun c hc => h.free hc⟩
  have hquote : '"' ∉ value := fun hmem => (h _ hmem).2 rfl
  have hquoted : isQuotedSeg value = false := by
    unfold isQuotedSeg
    rw [head?_ne_of_not_mem hquote, Bool.and_false, Bool.false_and]
  have hspace : ∀ c ∈ value, isSpace c = false := by
    intro c hc
    have hstruct := (h c hc).1
    simp only [isStructuralChar, Bool.or_eq_false_iff] at hstruct
    exact hstruct.2
  have hreserved : value.any isReservedChar = false := by
    rw [any_eq_false]
    intro c hc
    have hstruct := (h c hc).1
    simp only [isStructuralChar, Bool.or_eq_false_iff] at hstruct
    rw [hstruct.1.2]
    exact Bool.false_ne_true
  have hanySpace : value.any isSpace = false := by
    rw [any_eq_false]
    intro c hc
    rw [hspace c hc]
    exact Bool.false_ne_true
  unfold validateSubSegment
  rw [head?_ne_of_not_mem (h.not_mem (c := '[') (by decide)),
    head?_ne_of_not_mem (h.not_mem (c := '{') (by decide)),
    getLast?_ne_of_not_mem (h.not_mem (c := ']') (by decide)),
    getLast?_ne_of_not_mem (h.not_mem (c := '}') (by decide)), hcontrol, hquoted, hreserved,
    hanySpace, trim_of_no_space hspace]
  simp [hne, Bind.bind, Except.bind]

/-- A sub-segment that the formatter puts in quotes, or leaves as it is because it is plain, can
be read. -/
theorem isSubSegment_quoteIfStructural (hne : value ≠ []) (hcontrol : hasControlChar value = false)
    (hquotable : isUnquotable value = false) : IsSubSegment (quoteIfStructural value) := by
  unfold quoteIfStructural
  split_ifs with hstruct
  · exact isSubSegment_quoted hcontrol hquotable
  · refine isSubSegment_plain hne hcontrol fun c hc => ⟨?_, ?_⟩
    · rw [any_eq_true] at hstruct
      exact Bool.eq_false_iff.mpr fun htrue => hstruct ⟨c, hc, htrue⟩
    · rintro rfl
      exact (isUnquotable_eq_false.mp hquotable).1 hc

end OpenClaw.Oc
