import OpenClaw.OcPath.Slots

/-!
# What is parsed and what is formatted

A parsed text is the scheme, up to four segments and a query. A formatted path is the scheme, the
file, the formatted slots and the session.
-/

namespace OpenClaw.Oc

open TopLevel List

variable {α β : Type} {nfc : Nfc} {input text : Str} {segments : List Str} {path : OcPath}

theorem bind_eq_ok_iff {x : Except PathError α} {f : α → Except PathError β} {b : β} :
    x >>= f = .ok b ↔ ∃ a, x = .ok a ∧ f a = .ok b := by
  cases x with
  | error e => exact ⟨(fun h => nomatch h), fun ⟨_, h, _⟩ => nomatch h⟩
  | ok a =>
    constructor
    · exact fun h => ⟨a, rfl, h⟩
    · intro ⟨a', ha, h⟩
      rw [← Except.ok.inj ha] at h
      exact h

theorem ite_error_eq_ok_iff {c : Prop} [Decidable c] {e : PathError} {x : Except PathError α}
    {a : α} : (if c then .error e else x) = .ok a ↔ ¬c ∧ x = .ok a := by
  split_ifs with h
  · exact ⟨(fun h => nomatch h), fun hand => absurd h hand.1⟩
  · exact ⟨fun hx => ⟨h, hx⟩, fun hand => hand.2⟩

/-! ## Parsing -/

/-- The query of a path, with its question mark. -/
def queryText (query : Option Str) : Str := query.elim [] ('?' :: ·)

/-- The normalized text is read as these segments, this query and this path. -/
structure Parsed (text : Str) (segments : List Str) (query : Option Str) (path : OcPath) :
    Prop where
  length : jsLength text ≤ maxPathLength
  text_eq : text = ocScheme ++ joinWith ['/'] segments ++ queryText query
  control : hasControlChar text = false
  ne_nil : segments ≠ []
  count : segments.length ≤ 4
  segment_ne_nil : ∀ seg ∈ segments, seg ≠ []
  segment : ∀ seg ∈ segments, IsSegment seg
  file : validateFileSlot path.file = .ok ()
  session : extractSession (query.getD []) = .ok path.session
  path_eq : path = ⟨unquoteSeg (segments.headD []), segments[1]?, segments[2]?, segments[3]?,
    path.session⟩

theorem slash_isPathDelimiter : IsPathDelimiter '/' := Or.inl rfl

theorem query_isPathDelimiter : IsPathDelimiter '?' := Or.inr (Or.inr rfl)

theorem free_query_join (h : ∀ seg ∈ segments, IsSegment seg) :
    Free scanBracketAware '?' (joinWith ['/'] segments) :=
  free_intercalate slash_isPathDelimiter.isDelimiter (by decide)
    fun seg hmem => (h seg hmem).free '?' (Or.inr rfl)

theorem indexOfTopLevel_eq_ok_iff {s : Str} {c : Char} (hc : IsPathDelimiter c)
    {index : Option ℕ} : indexOfTopLevel s c = .ok index ↔
      FirstAt scanBracketAware c scanBracketAware.start s index := by
  have hiff : indexOfTopLevel s c = .ok index ↔
      indexFrom scanBracketAware c scanBracketAware.start s = some index := by
    unfold indexOfTopLevel indexOf
    cases indexFrom scanBracketAware c scanBracketAware.start s with
    | none => exact ⟨(fun h => nomatch h), (fun h => nomatch h)⟩
    | some found =>
      exact ⟨fun h => congrArg some (Except.ok.inj h), fun h => congrArg Except.ok (Option.some.inj h)⟩
  rw [hiff]
  refine ⟨firstAt_of_indexFrom hc.isDelimiter, fun hfirst => ?_⟩
  cases index with
  | none => exact indexFrom_eq_none hfirst
  | some i =>
    obtain ⟨word, rest, rfl, rfl, hreads⟩ := hfirst
    exact indexFrom_append hc.isDelimiter hreads

theorem not_any_empty_iff : ¬(segments.any (· = []) = true) ↔ ∀ seg ∈ segments, seg ≠ [] := by
  rw [any_eq_true]
  constructor
  · exact fun hnot seg hmem hnil => hnot ⟨seg, hmem, decide_eq_true hnil⟩
  · exact fun hall ⟨seg, hmem, hnil⟩ => hall seg hmem (of_decide_eq_true hnil)

theorem splitRespectingBrackets_slash (hne : segments ≠ []) (h : ∀ seg ∈ segments, IsSegment seg) :
    splitRespectingBrackets (joinWith ['/'] segments) '/' = .ok segments :=
  (splitRespectingBrackets_eq_ok_iff slash_isPathDelimiter).mpr
    ⟨hne, fun seg hmem => (h seg hmem).free '/' (Or.inl rfl), rfl⟩

theorem joinWith_ne_nil (hne : segments ≠ []) (h : ∀ seg ∈ segments, seg ≠ []) :
    joinWith ['/'] segments ≠ [] := by
  cases segments with
  | nil => exact absurd rfl hne
  | cons seg segments =>
    have hseg := h seg mem_cons_self
    unfold joinWith
    cases segments with
    | nil =>
      rw [intercalate_singleton]
      exact hseg
    | cons second segments =>
      rw [intercalate_cons_cons, append_assoc]
      exact append_ne_nil_of_left_ne_nil hseg _

/-- The path and the query of a text, by the first question mark outside of the brackets. -/
theorem pathPart_eq {afterScheme : Str} {index : Option ℕ}
    (h : FirstAt scanBracketAware '?' scanBracketAware.start afterScheme index) :
    ∃ query, afterScheme = index.elim afterScheme afterScheme.take ++ queryText query ∧
      query.getD [] = index.elim [] (fun i => afterScheme.drop (i + 1)) ∧
      Free scanBracketAware '?' (index.elim afterScheme afterScheme.take) := by
  cases index with
  | none => exact ⟨none, (append_nil _).symm, rfl, h⟩
  | some i =>
    obtain ⟨word, rest, rfl, rfl, hreads⟩ := h
    refine ⟨some rest, ?_, ?_, ?_⟩
    · show word ++ '?' :: rest = (word ++ '?' :: rest).take word.length ++ '?' :: rest
      rw [take_left]
    · show rest = (word ++ '?' :: rest).drop (word.length + 1)
      rw [← drop_drop, drop_left, drop_one, tail_cons]
    · show Free scanBracketAware '?' ((word ++ '?' :: rest).take word.length)
      rw [take_left]
      exact hreads

theorem firstAt_queryText {pathPart : Str} (query : Option Str)
    (h : Free scanBracketAware '?' pathPart) :
    FirstAt scanBracketAware '?' scanBracketAware.start (pathPart ++ queryText query)
      (query.map fun _ => pathPart.length) := by
  cases query with
  | none =>
    rw [queryText, Option.elim_none, append_nil]
    exact h
  | some rest => exact ⟨pathPart, rest, rfl, rfl, h⟩

theorem parsed_of_parseOcPath (h : parseOcPath nfc input = .ok path) :
    jsLength input ≤ maxPathLength ∧
      ∃ segments query, Parsed (nfc.normalize (stripBom input)) segments query path := by
  rw [parseOcPath, ite_error_eq_ok_iff] at h
  obtain ⟨hinput, h⟩ := h
  refine ⟨Nat.not_lt.mp hinput, ?_⟩
  dsimp only at h
  generalize nfc.normalize (stripBom input) = text at h
  rw [ite_error_eq_ok_iff, ite_error_eq_ok_iff, ite_error_eq_ok_iff, bind_eq_ok_iff] at h
  obtain ⟨hlength, hscheme, hcontrol, index, hindex, h⟩ := h
  have hstarts : startsWith text ocScheme = true := by simpa using hscheme
  have hfront : ocScheme <+: text := isPrefixOf_iff_prefix.mp hstarts
  obtain ⟨afterScheme, rfl⟩ := hfront
  rw [drop_left] at hindex h
  obtain ⟨query, htext, hquery, hfree⟩ :=
    pathPart_eq ((indexOfTopLevel_eq_ok_iff query_isPathDelimiter).mp hindex)
  rw [← hquery] at h
  generalize index.elim afterScheme afterScheme.take = pathPart at h htext hfree
  rw [ite_error_eq_ok_iff, bind_eq_ok_iff] at h
  obtain ⟨_, segments, hsplit, h⟩ := h
  rw [ite_error_eq_ok_iff, ite_error_eq_ok_iff, bind_eq_ok_iff] at h
  obtain ⟨hempty, hcount, _, hsegments, h⟩ := h
  rw [bind_eq_ok_iff] at h
  obtain ⟨_, hfile, h⟩ := h
  rw [bind_eq_ok_iff] at h
  obtain ⟨session, hsession, h⟩ := h
  have hpath := (Except.ok.inj h).symm
  have hparts := (splitRespectingBrackets_eq_ok_iff slash_isPathDelimiter).mp hsplit
  have hne := not_any_empty_iff.mp hempty
  have hsegment : ∀ seg ∈ segments, IsSegment seg := by
    have hfreeQuery := free_of_free_intercalate slash_isPathDelimiter.isDelimiter (by decide)
      (hparts.2.2 ▸ hfree) hparts.2.1
    intro seg hmem
    refine ⟨forM_eq_ok_iff.mp hsegments seg hmem, ?_⟩
    rintro c (rfl | rfl)
    · exact hparts.2.1 seg hmem
    · exact hfreeQuery seg hmem
  refine ⟨segments, query, ?_⟩
  rw [hpath]
  exact ⟨Nat.not_lt.mp hlength, by rw [← hparts.2.2, append_assoc, ← htext],
    Bool.eq_false_iff.mpr hcontrol, hparts.1, Nat.not_lt.mp hcount, hne, hsegment, hfile, hsession,
    rfl⟩

theorem parseOcPath_of_parsed {query : Option Str} (hinput : jsLength input ≤ maxPathLength)
    (h : Parsed (nfc.normalize (stripBom input)) segments query path) :
    parseOcPath nfc input = .ok path := by
  rw [parseOcPath, ite_error_eq_ok_iff]
  refine ⟨Nat.not_lt.mpr hinput, ?_⟩
  dsimp only
  generalize nfc.normalize (stripBom input) = text at h
  have htext := h.text_eq
  rw [append_assoc] at htext
  have hfree := free_query_join h.segment
  have hstarts : startsWith text ocScheme = true := by
    rw [htext]
    exact isPrefixOf_iff_prefix.mpr (prefix_append _ _)
  have hindex := (indexOfTopLevel_eq_ok_iff query_isPathDelimiter).mpr
    (firstAt_queryText query hfree)
  rw [ite_error_eq_ok_iff, ite_error_eq_ok_iff, ite_error_eq_ok_iff, bind_eq_ok_iff]
  refine ⟨Nat.not_lt.mpr h.length, by simp [hstarts], Bool.eq_false_iff.mp h.control,
    query.map fun _ => (joinWith ['/'] segments).length, ?_, ?_⟩
  · rw [htext, drop_left]
    exact hindex
  have hpathPart : (query.map fun _ => (joinWith ['/'] segments).length).elim
      (joinWith ['/'] segments ++ queryText query)
      (joinWith ['/'] segments ++ queryText query).take = joinWith ['/'] segments := by
    cases query with
    | none => exact append_nil _
    | some rest => exact take_left
  have hqueryPart : (query.map fun _ => (joinWith ['/'] segments).length).elim []
      (fun i => (joinWith ['/'] segments ++ queryText query).drop (i + 1)) = query.getD [] := by
    cases query with
    | none => rfl
    | some rest =>
      show (joinWith ['/'] segments ++ '?' :: rest).drop ((joinWith ['/'] segments).length + 1) = rest
      rw [← drop_drop, drop_left, drop_one, tail_cons]
  have hempty := not_any_empty_iff.mpr h.segment_ne_nil
  rw [htext, drop_left, hpathPart, hqueryPart, ite_error_eq_ok_iff, bind_eq_ok_iff]
  refine ⟨joinWith_ne_nil h.ne_nil h.segment_ne_nil, segments,
    splitRespectingBrackets_slash h.ne_nil h.segment, ?_⟩
  rw [ite_error_eq_ok_iff, ite_error_eq_ok_iff, bind_eq_ok_iff]
  refine ⟨hempty, Nat.not_lt.mpr h.count, (),
    forM_eq_ok_iff.mpr fun seg hmem => (h.segment seg hmem).valid, ?_⟩
  have hfile := h.file
  rw [h.path_eq] at hfile
  rw [bind_eq_ok_iff]
  refine ⟨(), hfile, ?_⟩
  rw [bind_eq_ok_iff]
  exact ⟨path.session, h.session, congrArg Except.ok h.path_eq.symm⟩

end OpenClaw.Oc
