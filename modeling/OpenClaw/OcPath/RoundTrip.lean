import OpenClaw.OcPath.Address

/-!
# Round trips

Which formatted paths are read as their own address, and which parsed paths are formatted again.
-/

namespace OpenClaw.Oc

open TopLevel List Option

variable {nfc : Nfc} {path path' : OcPath} {s out seg slot sub queryPart session : Str}
  {segments : List Str} {query : Option Str}

/-! ## Sessions -/

/-- A session that has been read is not empty and valid, and comes behind an equals sign. -/
structure ReadSession (nfc : Nfc) (queryPart session : Str) : Prop where
  ne_nil : session ≠ []
  valid : validateSessionSlot session = .ok ()
  normal : nfc.IsNormal queryPart → nfc.IsNormal ('=' :: session)

/-- The equals sign in front of an overlay would have joined it. -/
theorem head?_ne_overlay (h : nfc.IsNormal ('=' :: session)) : session.head? ≠ some overlay := by
  intro hoverlay
  obtain ⟨rest, rfl⟩ := head?_eq_some_iff.mp hoverlay
  exact nfc.equals_overlay rest h

theorem append_of_afterChar? {c : Char} {pair value : Str} (h : afterChar? c pair = some value) :
    pair = beforeChar c pair ++ c :: value := by
  have happend := takeWhile_append_dropWhile (p := fun d => d != c) (l := pair)
  unfold afterChar? at h
  cases hdrop : pair.dropWhile (· != c) with
  | nil =>
    rw [hdrop] at h
    cases h
  | cons d rest =>
    rw [hdrop] at h happend
    have hd : d = c := by
      have hnot := head?_dropWhile_not (fun d => d != c) pair
      rw [hdrop] at hnot
      simpa using hnot
    rw [← some.inj h, ← hd]
    rw [hd] at happend ⊢
    exact happend.symm

theorem readSession_of_from {pairs : List Str} (h : extractSessionFrom pairs = .ok (some session))
    (hnormal : ∀ pair ∈ pairs, nfc.IsNormal queryPart → nfc.IsNormal pair) :
    ReadSession nfc queryPart session := by
  induction pairs with
  | nil => cases h
  | cons pair pairs ih =>
    have hrest := fun h => ih h fun pair hmem => hnormal pair (mem_cons_of_mem _ hmem)
    rw [extractSessionFrom] at h
    cases hafter : afterChar? '=' pair with
    | none =>
      rw [hafter] at h
      exact hrest h
    | some value =>
      rw [hafter] at h
      dsimp only at h
      split_ifs at h with hkey
      · obtain ⟨_, hvalid, hok⟩ := bind_eq_ok_iff.mp h
        obtain rfl := some.inj (Except.ok.inj hok)
        refine ⟨hkey.2, hvalid, fun hquery => ?_⟩
        have hpair := hnormal pair mem_cons_self hquery
        rw [append_of_afterChar? hafter] at hpair
        exact hpair.right
      · exact hrest h

theorem readSession_of_extractSession (h : extractSession queryPart = .ok (some session)) :
    ReadSession nfc queryPart session := by
  unfold extractSession at h
  split_ifs at h
  · cases h
  refine readSession_of_from h fun pair hmem hquery => ?_
  have hjoin : joinWith ['&'] (queryPart.splitOn '&') = queryPart := intercalate_splitOn '&'
  rw [← hjoin] at hquery
  exact isNormal_of_joinWith hquery pair hmem

theorem extractSession_sessionQuery (session? : Option Str)
    (h : ∀ session, session? = some session →
      validateSessionSlot session = .ok () ∧ session ≠ []) :
    extractSession ((sessionQuery session?).getD []) = .ok session? := by
  cases session? with
  | none => rfl
  | some session =>
    have hsession := h session rfl
    have hreserved := (validateSessionSlot_eq_ok_iff.mp hsession.1).2
    have hnot : '&' ∉ "session=".toList ++ session := by
      rw [mem_append, not_or]
      refine ⟨by decide, fun hmem => ?_⟩
      exact absurd (any_eq_false.mp hreserved _ hmem) (by decide)
    show extractSession ("session=".toList ++ session) = _
    have hne : "session=".toList ++ session ≠ [] :=
      append_ne_nil_of_left_ne_nil (by decide) _
    rw [extractSession, if_neg hne, splitOn_eq_singleton hnot, extractSessionFrom]
    have hafter : afterChar? '=' ("session=".toList ++ session) = some session := rfl
    have hbefore : beforeChar '=' ("session=".toList ++ session) = "session".toList := rfl
    rw [hafter, hbefore]
    dsimp only
    rw [if_pos ⟨rfl, hsession.2⟩, hsession.1]
    rfl

/-! ## Addresses -/

/-- The two paths have the same file, the same unquoted sub-segments in each slot, and the same
session. -/
structure SameAddress (path path' : OcPath) : Prop where
  file : path.file = path'.file
  sectionSlot : path.sectionSlot.map subSegments = path'.sectionSlot.map subSegments
  itemSlot : path.itemSlot.map subSegments = path'.itemSlot.map subSegments
  fieldSlot : path.fieldSlot.map subSegments = path'.fieldSlot.map subSegments
  session : path.session = path'.session

/-- The text can be read, and as the address of the path. -/
def ReadsAs (nfc : Nfc) (out : Str) (path : OcPath) : Prop :=
  ∃ path', parseOcPath nfc out = .ok path' ∧ SameAddress path path'

/-- The slots of a path, by their numbers. -/
def slotAt (path : OcPath) : ℕ → Option Str
  | 0 => path.sectionSlot
  | 1 => path.itemSlot
  | 2 => path.fieldSlot
  | _ => none

theorem SameAddress.slotAt_eq (h : SameAddress path path') (i : ℕ) :
    (slotAt path i).map subSegments = (slotAt path' i).map subSegments := by
  match i with
  | 0 => exact h.sectionSlot
  | 1 => exact h.itemSlot
  | 2 => exact h.fieldSlot
  | _ + 3 => rfl

theorem FormattablePath.slotAt_eq (h : FormattablePath path (pathSlots path)) (i : ℕ) :
    slotAt path i = (pathSlots path)[i]? := by
  have hpath := h.path_eq
  match i with
  | 0 => exact congrArg OcPath.sectionSlot hpath
  | 1 => exact congrArg OcPath.itemSlot hpath
  | 2 => exact congrArg OcPath.fieldSlot hpath
  | i + 3 =>
    have hle := h.count
    exact (getElem?_eq_none (by omega)).symm

theorem Parsed.slotAt_eq {text : Str} (h : Parsed text segments query path) (i : ℕ) :
    slotAt path i = segments[i + 1]? := by
  have hpath := h.path_eq
  match i with
  | 0 => exact congrArg OcPath.sectionSlot hpath
  | 1 => exact congrArg OcPath.itemSlot hpath
  | 2 => exact congrArg OcPath.fieldSlot hpath
  | i + 3 =>
    have hle := h.count
    exact (getElem?_eq_none (by omega)).symm

/-! ## Formatting, then parsing -/

/-- A path that is read again as its own address. -/
structure Readable (path : OcPath) : Prop where
  file : ReadableFile path.file
  count : ∀ slot ∈ pathSlots path, (slotSubs slot).length ≤ maxSubSegmentsPerSlot
  sub : ∀ slot ∈ pathSlots path, ∀ sub ∈ slotSubs slot, ReadsBack sub
  session : ∀ session, path.session = some session →
    session ≠ [] ∧ session.head? ≠ some overlay

theorem isSegment_pathSegments_iff (h : FormattablePath path (pathSlots path)) :
    (∀ seg ∈ pathSegments path.file (pathSlots path), IsSegment seg) ↔
      ReadableFile path.file ∧ ∀ slot ∈ pathSlots path,
        (slotSubs slot).length ≤ maxSubSegmentsPerSlot ∧ ∀ sub ∈ slotSubs slot, ReadsBack sub := by
  rw [pathSegments, forall_mem_cons, isSegment_fileText_iff h.file, List.forall_mem_map]
  refine and_congr_right fun _ => forall₂_congr fun slot hmem => ?_
  exact (h.slot slot hmem).isSegment_iff

theorem IsSegment.ne_nil (h : IsSegment seg) : seg ≠ [] := by
  rintro rfl
  exact absurd h.valid (by decide)

theorem stripBom_pathText (path : OcPath) (slots : List Str) :
    stripBom (pathText path slots) = pathText path slots := by
  have hhead : (pathText path slots).head? ≠ some bom := by
    rw [pathText, append_assoc]
    show some 'o' ≠ some bom
    decide
  rw [stripBom, if_neg hhead]

theorem out_of_checkOut {text : Str} (h : checkOut text = .ok out) :
    out = text ∧ jsLength text ≤ maxPathLength := by
  rw [checkOut, ite_error_eq_ok_iff, ite_error_eq_ok_iff] at h
  exact ⟨(Except.ok.inj h.2.2).symm, Nat.not_lt.mp h.1⟩

/-- What the text of a path is read as. -/
def readPath (path : OcPath) : OcPath :=
  let slots := (pathSlots path).map slotText
  ⟨path.file, slots[0]?, slots[1]?, slots[2]?, path.session⟩

theorem sameAddress_readPath (h : FormattablePath path (pathSlots path)) :
    SameAddress path (readPath path) := by
  have hslot : ∀ i, (slotAt path i).map subSegments =
      ((pathSlots path).map slotText)[i]?.map subSegments := by
    intro i
    rw [h.slotAt_eq, getElem?_map, Option.map_map]
    cases hi : (pathSlots path)[i]? with
    | none => rfl
    | some slot =>
      exact congrArg some (h.slot slot (mem_of_getElem? hi)).subSegments_eq.symm
  exact ⟨rfl, hslot 0, hslot 1, hslot 2, rfl⟩

theorem readsAs_of_readable (hformat : FormattablePath path (pathSlots path))
    (hnormal : NormalPath nfc path) (hout : checkOut (pathText path (pathSlots path)) = .ok out)
    (h : Readable path) : ReadsAs nfc out path := by
  obtain ⟨rfl, hlength⟩ := out_of_checkOut hout
  have hsegments := (isSegment_pathSegments_iff hformat).mpr
    ⟨h.file, fun slot hmem => ⟨h.count slot hmem, h.sub slot hmem⟩⟩
  have htext : nfc.normalize (stripBom (pathText path (pathSlots path))) =
      pathText path (pathSlots path) := by
    rw [stripBom_pathText]
    exact isNormal_pathText hformat hnormal fun session hs => (h.session session hs).2
  have hle : (pathSegments path.file (pathSlots path)).length ≤ 4 := by
    have hcount := hformat.count
    rw [pathSegments, length_cons, length_map]
    omega
  have hparsed : Parsed (pathText path (pathSlots path)) (pathSegments path.file (pathSlots path))
      (sessionQuery path.session) (readPath path) :=
    { length := hlength
      text_eq := rfl
      control := hasControlChar_pathText hformat
      ne_nil := cons_ne_nil _ _
      count := hle
      segment_ne_nil := fun seg hmem => (hsegments seg hmem).ne_nil
      segment := hsegments
      file := hformat.file.valid
      session := extractSession_sessionQuery path.session fun session hs =>
        ⟨hformat.session session hs, (h.session session hs).1⟩
      path_eq := by
        show readPath path = _
        rw [pathSegments, headD_cons, unquoteSeg_fileText]
        rfl }
  exact ⟨readPath path, parseOcPath_of_parsed hlength (htext.symm ▸ hparsed),
    sameAddress_readPath hformat⟩

/-! ## What is read again -/

theorem cons_joinWith {segments : List Str} (hne : segments ≠ []) :
    '/' :: joinWith ['/'] segments = segments.flatMap ('/' :: ·) := by
  cases segments with
  | nil => exact absurd rfl hne
  | cons seg segments =>
    rw [joinWith_slash, flatMap_cons]
    rfl

theorem pathSegments_ne_nil (file : Str) (slots : List Str) : pathSegments file slots ≠ [] :=
  cons_ne_nil _ _

theorem balanced_pathSegments (h : FormattablePath path (pathSlots path)) :
    ∀ seg ∈ pathSegments path.file (pathSlots path), Balanced seg :=
  forall_mem_cons.mpr ⟨(free_fileText h.file (Or.inl rfl)).finish_eq,
    forall_mem_map.mpr fun slot hmem => balanced_of_split (h.slot slot hmem).split_formatted⟩

/-- A path that is read as its own address is read as the segments it was formatted as. -/
theorem segments_of_sameAddress (hformat : FormattablePath path (pathSlots path))
    (hparsed : Parsed (pathText path (pathSlots path)) segments query path')
    (haddress : SameAddress path path') : segments = pathSegments path.file (pathSlots path) := by
  have htext := hparsed.text_eq
  rw [pathText, append_assoc, append_assoc] at htext
  have hjoin := congrArg ('/' :: ·) (append_cancel_left htext)
  rw [← cons_append, ← cons_append, cons_joinWith hparsed.ne_nil,
    cons_joinWith (pathSegments_ne_nil path.file (pathSlots path))] at hjoin
  refine (segments_eq (balanced_pathSegments hformat) hparsed.segment ?_ hjoin).symm
  intro i seg seg' hi hi' c tail hc heq
  have hseg' := hparsed.segment seg' (mem_of_getElem? hi')
  cases i with
  | zero =>
    have hfile : fileText path.file = seg := some.inj hi
    have hfree := free_fileText hformat.file hc
    rw [hfile, heq] at hfree
    exact not_free_of_balanced hseg'.balanced (isPathDelimiter_of_slash_or_query hc) hfree
  | succ i =>
    rw [pathSegments, getElem?_cons_succ, getElem?_map] at hi
    obtain ⟨slot, hslot, rfl⟩ := Option.map_eq_some_iff.mp hi
    have hsame := haddress.slotAt_eq i
    rw [hformat.slotAt_eq, hslot, hparsed.slotAt_eq, hi'] at hsame
    exact subSegments_ne_of_append (hformat.slot slot (mem_of_getElem? hslot)) hseg' hc heq
      (some.inj hsame).symm

theorem Parsed.isNormal_query {text : Str} (h : Parsed text segments query path)
    (htext : nfc.IsNormal text) : nfc.IsNormal (query.getD []) := by
  rw [h.text_eq] at htext
  have hquery := htext.right
  cases query with
  | none => exact nfc.isNormal_nil
  | some query => exact Nfc.IsNormal.right (s := ['?']) hquery

theorem readable_of_readsAs (hformat : FormattablePath path (pathSlots path))
    (hnormal : NormalPath nfc path) (hout : checkOut (pathText path (pathSlots path)) = .ok out)
    (h : ReadsAs nfc out path) : Readable path := by
  obtain ⟨path', hparse, haddress⟩ := h
  obtain ⟨rfl, _⟩ := out_of_checkOut hout
  obtain ⟨_, segments, query, hparsed⟩ := parsed_of_parseOcPath hparse
  have hsession : ∀ session, path.session = some session →
      session ≠ [] ∧ session.head? ≠ some overlay := by
    intro session hs
    have hread := hparsed.session
    rw [← haddress.session, hs] at hread
    have hsession : ReadSession nfc _ session := readSession_of_extractSession hread
    have hquery := hparsed.isNormal_query (nfc.isNormal_normalize _)
    exact ⟨hsession.ne_nil, head?_ne_overlay (hsession.normal hquery)⟩
  have htext : nfc.normalize (stripBom (pathText path (pathSlots path))) =
      pathText path (pathSlots path) := by
    rw [stripBom_pathText]
    exact isNormal_pathText hformat hnormal fun session hs => (hsession session hs).2
  rw [htext] at hparsed
  have hsegments := hparsed.segment
  rw [segments_of_sameAddress hformat hparsed haddress] at hsegments
  have hall := (isSegment_pathSegments_iff hformat).mp hsegments
  exact ⟨hall.1, fun slot hmem => (hall.2 slot hmem).1, fun slot hmem => (hall.2 slot hmem).2,
    hsession⟩

end OpenClaw.Oc
