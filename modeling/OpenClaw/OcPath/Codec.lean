import OpenClaw.OcPath.RoundTrip

/-!
# Parsing, then formatting

A parsed path is formatted again, and as its own address, if nothing in it needs quotes that it
cannot have.
-/

namespace OpenClaw.Oc

open TopLevel

variable {nfc : Nfc} {path : OcPath} {s text seg slot : Str} {segments : List Str}
  {query : Option Str}

/-- A parsed path that is formatted as its own address. -/
structure Reformattable (path : OcPath) : Prop where
  file_ne_nil : path.file ≠ []
  file_quotable : fileNeedsQuote path.file = true → isUnquotable path.file = false
  file : ReadableFile path.file
  sub : ∀ slot ∈ pathSlots path, ∀ sub ∈ slotSubs slot,
    isPassedOn sub = true ∨ isUnquotable sub = false

/-! ## What is known of a parsed path -/

section

variable (h : Parsed text segments query path)
include h

theorem Parsed.pathSlots_eq : pathSlots path = segments.tail := by
  rw [h.path_eq]
  unfold pathSlots
  match segments, h.ne_nil, h.count with
  | [_], _, _ => rfl
  | [_, _], _, _ => rfl
  | [_, _, _], _, _ => rfl
  | [_, _, _, _], _, _ => rfl

theorem Parsed.nested : Nested path := by
  rw [h.path_eq]
  unfold Nested
  match segments, h.ne_nil, h.count with
  | [_], _, _ => exact ⟨(fun h => nomatch h), (fun h => nomatch h)⟩
  | [_, _], _, _ => exact ⟨(fun h => nomatch h), (fun h => nomatch h)⟩
  | [_, _, _], _, _ => exact ⟨fun _ => rfl, (fun h => nomatch h)⟩
  | [_, _, _, _], _, _ => exact ⟨fun _ => rfl, fun _ => rfl⟩

theorem Parsed.isSegment : ∀ slot ∈ pathSlots path, IsSegment slot := by
  rw [h.pathSlots_eq]
  exact fun slot hmem => h.segment slot (List.mem_of_mem_tail hmem)

end

/-- What is known of the sub-segments of a segment. -/
structure SegmentSubs (seg : Str) (subs : List Str) : Prop where
  split_eq : splitRespectingBrackets seg '.' = .ok subs
  count : subs.length ≤ maxSubSegmentsPerSlot
  valid : ∀ sub ∈ subs, validateSubSegment sub = .ok ()
  free : ∀ sub ∈ subs, ∀ c, c = '/' ∨ c = '?' → Free scanBracketAware c sub

theorem IsSegment.slotSubs (h : IsSegment seg) : SegmentSubs seg (slotSubs seg) := by
  obtain ⟨subs, hsplit, hcount, hvalid⟩ := validateSegment_eq_ok_iff.mp h.valid
  have hsubs : Oc.slotSubs seg = subs := by
    unfold Oc.slotSubs
    rw [hsplit]
  have hdot : IsPathDelimiter '.' := Or.inr (Or.inl rfl)
  have hparts := (splitRespectingBrackets_eq_ok_iff hdot).mp hsplit
  rw [hsubs]
  refine ⟨hsplit, hcount, hvalid, fun sub hmem c hc => ?_⟩
  have hne : '.' ≠ c := by
    rcases hc with rfl | rfl
    · decide
    · decide
  have hfree := h.free c hc
  rw [hparts.2.2] at hfree
  exact free_of_free_intercalate hdot.isDelimiter hne hfree hparts.2.1 sub hmem

theorem valid_subSegment {sub : Str} (h : validateSubSegment sub = .ok ()) :
    sub ≠ [] ∧ hasControlChar sub = false := by
  rw [validateSubSegment, ite_error_eq_ok_iff, ite_error_eq_ok_iff] at h
  exact ⟨h.1, Bool.eq_false_iff.mpr h.2.1⟩

theorem Parsed.formattableSlot (h : Parsed text segments query path)
    (hquotable : ∀ slot ∈ pathSlots path, ∀ sub ∈ slotSubs slot,
      isPassedOn sub = true ∨ isUnquotable sub = false) :
    ∀ slot ∈ pathSlots path, FormattableSlot slot := by
  intro slot hmem
  have hsubs := (h.isSegment slot hmem).slotSubs
  refine ⟨hsubs.split_eq, fun sub hsub => ?_⟩
  have hvalid := valid_subSegment (hsubs.valid sub hsub)
  exact ⟨hvalid.1, hvalid.2, hquotable slot hmem sub hsub⟩

theorem isNormal_unquoteSeg (h : nfc.IsNormal seg) : nfc.IsNormal (unquoteSeg seg) := by
  rcases eq_unquoteSeg_or seg with heq | heq
  · rw [← heq]
    exact h
  · rw [heq] at h
    have hinner : nfc.IsNormal (['"'] ++ unquoteSeg seg ++ ['"']) := h
    exact hinner.left.right

theorem Parsed.readSession (h : Parsed text segments query path) {session : Str}
    (hs : path.session = some session) : ReadSession nfc (query.getD []) session := by
  have hread := h.session
  rw [hs] at hread
  exact readSession_of_extractSession hread

theorem Parsed.normalPath (h : Parsed text segments query path) (htext : nfc.IsNormal text) :
    NormalPath nfc path := by
  have hquery := h.isNormal_query htext
  have hparts := htext
  rw [h.text_eq] at hparts
  have hsegments := isNormal_of_joinWith hparts.left.right
  have hfile : nfc.IsNormal path.file := by
    rw [h.path_eq]
    obtain ⟨first, others, rfl⟩ := List.exists_cons_of_ne_nil h.ne_nil
    exact isNormal_unquoteSeg (hsegments first List.mem_cons_self)
  have hslot : ∀ slot ∈ pathSlots path, nfc.IsNormal slot := by
    rw [h.pathSlots_eq]
    exact fun slot hmem => hsegments slot (List.mem_of_mem_tail hmem)
  refine ⟨hfile, hslot, fun session hs => ?_⟩
  exact Nfc.IsNormal.right (s := ['=']) ((h.readSession hs).normal hquery)

theorem Parsed.formattablePath (nfc : Nfc) (h : Parsed text segments query path)
    (hpath : Reformattable path) : FormattablePath path (pathSlots path) := by
  have hfile : FormattableFile path.file := ⟨hpath.file_ne_nil, h.file, hpath.file_quotable⟩
  have hsession : ∀ session, path.session = some session →
      validateSessionSlot session = .ok () := by
    intro session hs
    have hread : ReadSession nfc (query.getD []) session := h.readSession hs
    exact hread.valid
  exact formattablePath_iff.mpr ⟨hfile, h.nested, h.formattableSlot hpath.sub, hsession⟩

theorem Parsed.readable (h : Parsed text segments query path) (htext : nfc.IsNormal text)
    (hfile : ReadableFile path.file) : Readable path := by
  have hquery := h.isNormal_query htext
  refine ⟨hfile, fun slot hmem => (h.isSegment slot hmem).slotSubs.count, ?_, fun session hs => ?_⟩
  · intro slot hmem sub hsub _
    have hsubs := (h.isSegment slot hmem).slotSubs
    exact ⟨hsubs.valid sub hsub, hsubs.free sub hsub⟩
  · have hread : ReadSession nfc (query.getD []) session := h.readSession hs
    exact ⟨hread.ne_nil, head?_ne_overlay (hread.normal hquery)⟩

theorem ok_of_checkOut_ne {out : Str} (hlong : checkOut out ≠ .error .tooLong)
    (hsentinel : checkOut out ≠ .error .emitSentinel) : checkOut out = .ok out := by
  unfold checkOut at hlong hsentinel ⊢
  split_ifs at hlong hsentinel ⊢
  · exact absurd rfl hlong
  · exact absurd rfl hsentinel
  · rfl

/-! ## Both directions -/

/-- A formatted path is read as its own address exactly if it is readable; and a parsed path whose
text is neither too long nor redacted is formatted as its own address exactly if it can be. -/
theorem codec_iff (nfc : Nfc) : (∀ path out, NormalPath nfc path → formatOcPath path = .ok out →
      (ReadsAs nfc out path ↔ Readable path)) ∧
    ∀ input path, parseOcPath nfc input = .ok path → formatOcPath path ≠ .error .tooLong →
      formatOcPath path ≠ .error .emitSentinel →
      ((∃ out, formatOcPath path = .ok out ∧ ReadsAs nfc out path) ↔ Reformattable path) := by
  have hformat : ∀ path out, NormalPath nfc path → formatOcPath path = .ok out →
      (ReadsAs nfc out path ↔ Readable path) := by
    intro path out hnormal hok
    obtain ⟨hformattable, hout⟩ := formattable_of_formatOcPath hok
    exact ⟨readable_of_readsAs hformattable hnormal hout,
      readsAs_of_readable hformattable hnormal hout⟩
  refine ⟨hformat, fun input path hparse hlong hsentinel => ?_⟩
  obtain ⟨_, segments, query, hparsed⟩ := parsed_of_parseOcPath hparse
  have htext := nfc.isNormal_normalize (stripBom input)
  have hnormal := hparsed.normalPath htext
  constructor
  · intro ⟨out, hok, hreads⟩
    obtain ⟨hformattable, _⟩ := formattable_of_formatOcPath hok
    have hreadable := (hformat path out hnormal hok).mp hreads
    exact ⟨hformattable.file.ne_nil, hformattable.file.quotable, hreadable.file,
      fun slot hmem sub hsub => ((hformattable.slot slot hmem).formattable sub hsub).quotable⟩
  · intro hpath
    have hout := formatOcPath_of_formattable (hparsed.formattablePath nfc hpath)
    rw [hout] at hlong hsentinel
    have hok := hout.trans (ok_of_checkOut_ne hlong hsentinel)
    exact ⟨_, hok, (hformat path _ hnormal hok).mpr (hparsed.readable htext hpath.file)⟩

def boundaries : OcPath := ⟨"SOUL.md".toList, some "Boundaries".toList, none, none, none⟩

def boundariesText : Str := "oc://SOUL.md/Boundaries".toList

/-- A plain path. -/
theorem codec_iff_boundaries :
    (ReadsAs Nfc.withoutOverlays boundariesText boundaries ↔ Readable boundaries) ∧
      ((∃ out, formatOcPath boundaries = .ok out ∧
        ReadsAs Nfc.withoutOverlays out boundaries) ↔ Reformattable boundaries) := by
  have hfile : Nfc.withoutOverlays.IsNormal boundaries.file := Nfc.isNormal_of_ascii _ (by simp [boundaries])
  have hslot : ∀ slot ∈ pathSlots boundaries, Nfc.withoutOverlays.IsNormal slot :=
    List.forall_mem_singleton.mpr (Nfc.isNormal_of_ascii _ (by simp))
  have hformat : formatOcPath boundaries = .ok boundariesText := by rfl
  have hparse : parseOcPath Nfc.withoutOverlays boundariesText = .ok boundaries := by rfl
  have hcodec := codec_iff Nfc.withoutOverlays
  refine ⟨hcodec.1 _ _ ⟨hfile, hslot, fun _ h => nomatch h⟩ hformat, hcodec.2 _ _ hparse ?_ ?_⟩
  · rw [hformat]
    exact fun h => nomatch h
  · rw [hformat]
    exact fun h => nomatch h

/-- A file whose name begins with a dot. -/
def dotFile : OcPath := ⟨".env".toList, none, none, none, none⟩

/-- A section with a backslash. -/
def backslash : OcPath := ⟨"f".toList, some ['a', '\\', 'b'], none, none, none⟩

/-- The first path is formatted without quotes and cannot be read; the second one is read and
cannot be formatted. -/
theorem exists_not_codec :
    (NormalPath Nfc.withoutOverlays dotFile ∧ formatOcPath dotFile = .ok "oc://.env".toList ∧
      ¬ReadsAs Nfc.withoutOverlays "oc://.env".toList dotFile) ∧
    parseOcPath Nfc.withoutOverlays ("oc://f/a".toList ++ ['\\', 'b']) = .ok backslash ∧
      formatOcPath backslash = .error .unquotable := by
  have hfile : Nfc.withoutOverlays.IsNormal dotFile.file := Nfc.isNormal_of_ascii _ (by simp [dotFile])
  have hparse : parseOcPath Nfc.withoutOverlays "oc://.env".toList = .error .emptySubSegment := by
    rfl
  refine ⟨⟨⟨hfile, (fun _ h => nomatch h), fun _ h => nomatch h⟩, by rfl, ?_⟩, by rfl, by rfl⟩
  intro ⟨path, hpath, _⟩
  rw [hparse] at hpath
  cases hpath

end OpenClaw.Oc
