import OpenClaw.OcPath.Normal

/-!
# The address of a path

Two texts of segments are the same only if their segments are. So a formatted path that is read
as its own address is read as the segments it was formatted as.
-/

namespace OpenClaw.Oc

open TopLevel List

variable {nfc : Nfc} {path : OcPath} {s t seg seg' slot value : Str} {c : Char}
  {segments segments' : List Str}

/-! ## The first difference of two texts -/

/-- A word with balanced brackets. -/
def Balanced (s : Str) : Prop :=
  finish scanBracketAware scanBracketAware.start s = some scanBracketAware.start

theorem not_free_of_balanced (h : Balanced s) (hc : IsPathDelimiter c) :
    ¬Free scanBracketAware c (s ++ c :: t) := by
  intro hfree
  obtain ⟨state, hs, hrest⟩ := reads_append.mp hfree
  have heq : state = scanBracketAware.start := Option.some.inj (hs.finish_eq.symm.trans h)
  rw [heq] at hrest
  exact not_free_delim_cons hc.isDelimiter hrest

theorem balanced_of_split {subs : List Str} (h : splitRespectingBrackets s '.' = .ok subs) :
    Balanced s := finish_of_splitFrom (splitRespectingBrackets_eq_ok.mp h)

theorem IsSegment.balanced (h : IsSegment seg) : Balanced seg := (h.free '/' (Or.inl rfl)).finish_eq

/-- What follows a segment in a text. -/
def IsRest (rest : Str) : Prop := rest = [] ∨ ∃ c tail, (c = '/' ∨ c = '?') ∧ rest = c :: tail

theorem isRest_tail (segments : List Str) (query : Option Str) :
    IsRest (segments.flatMap ('/' :: ·) ++ queryText query) := by
  cases segments with
  | cons seg segments => exact Or.inr ⟨'/', _, Or.inl rfl, rfl⟩
  | nil =>
    cases query with
    | none => exact Or.inl rfl
    | some query => exact Or.inr ⟨'?', query, Or.inr rfl, rfl⟩

/-- The first segments of two texts are equal, if the one that is read is not a beginning of the
other one. -/
theorem segment_eq {rest rest' : Str} (hbalanced : Balanced seg) (hseg : IsSegment seg')
    (hrest : IsRest rest) (hrest' : IsRest rest')
    (hfront : ∀ c tail, c = '/' ∨ c = '?' → seg ≠ seg' ++ c :: tail)
    (h : seg ++ rest = seg' ++ rest') : seg = seg' ∧ rest = rest' := by
  rcases append_eq_append_iff.mp h with ⟨word, hword, htail⟩ | ⟨word, hword, htail⟩
  · -- the segment that is read goes on where the other one ends
    cases word with
    | nil =>
      rw [append_nil] at hword
      exact ⟨hword.symm, htail⟩
    | cons c word =>
      rcases hrest with hnil | ⟨d, tail, hd, heq⟩
      · rw [hnil] at htail
        cases htail
      · rw [heq, cons_append] at htail
        have hcd : d = c := (List.cons.inj htail).1
        have hfree := hseg.free d hd
        rw [hword, ← hcd] at hfree
        exact absurd hfree (not_free_of_balanced hbalanced (isPathDelimiter_of_slash_or_query hd))
  · cases word with
    | nil =>
      rw [append_nil] at hword
      exact ⟨hword, htail.symm⟩
    | cons c word =>
      rcases hrest' with hnil | ⟨d, tail, hd, heq⟩
      · rw [hnil] at htail
        cases htail
      · rw [heq, cons_append] at htail
        have hcd : d = c := (List.cons.inj htail).1
        rw [← hcd] at hword
        exact absurd hword (hfront d word hd)

/-- The segments that are formatted are those that are read, if no read one is a beginning of the
formatted one in its place. -/
theorem segments_eq {query query' : Option Str} (hbalanced : ∀ seg ∈ segments, Balanced seg)
    (hsegments : ∀ seg ∈ segments', IsSegment seg)
    (hfront : ∀ (i : ℕ) seg seg', segments[i]? = some seg → segments'[i]? = some seg' →
      ∀ c tail, c = '/' ∨ c = '?' → seg ≠ seg' ++ c :: tail)
    (h : segments.flatMap ('/' :: ·) ++ queryText query =
      segments'.flatMap ('/' :: ·) ++ queryText query') : segments = segments' := by
  induction segments generalizing segments' with
  | nil =>
    cases segments' with
    | nil => rfl
    | cons seg' segments' =>
      cases query with
      | none => cases h
      | some query => exact absurd (List.cons.inj h).1 (by decide)
  | cons seg segments ih =>
    cases segments' with
    | nil =>
      cases query' with
      | none => cases h
      | some query' => exact absurd (List.cons.inj h).1 (by decide)
    | cons seg' segments' =>
      have htext : seg ++ (segments.flatMap ('/' :: ·) ++ queryText query) =
          seg' ++ (segments'.flatMap ('/' :: ·) ++ queryText query') := by
        rw [flatMap_cons, flatMap_cons, append_assoc, append_assoc] at h
        exact (List.cons.inj h).2
      have hfirst := segment_eq (hbalanced seg mem_cons_self)
        (hsegments seg' mem_cons_self) (isRest_tail segments query)
        (isRest_tail segments' query') (hfront 0 seg seg' rfl rfl) htext
      have hrest := ih (fun seg hmem => hbalanced seg (mem_cons_of_mem _ hmem))
        (fun seg hmem => hsegments seg (mem_cons_of_mem _ hmem))
        (fun i seg seg' hi hi' => hfront (i + 1) seg seg' hi hi') hfirst.2
      rw [hfirst.1, hrest]

/-! ## Sub-segments that differ -/

/-- A sub-segment that goes on behind another one has another text. -/
theorem unquoteSeg_ne_of_append (hc : c ≠ '"') : unquoteSeg (s ++ c :: t) ≠ unquoteSeg s := by
  intro heq
  have hlong := eq_unquoteSeg_or (s ++ c :: t)
  have hshort := eq_unquoteSeg_or s
  rw [heq] at hlong
  generalize unquoteSeg s = value at hlong hshort
  have hquotedLength : (quoted value).length = value.length + 2 := by
    rw [quoted, length_append, length_cons]
    rfl
  have hlength : (s ++ c :: t).length = s.length + t.length + 1 := by
    rw [length_append, length_cons, Nat.add_assoc]
  rcases hlong with hlong | hlong
  · rcases hshort with hshort | hshort
    · rw [hlong, hshort] at hlength
      omega
    · rw [hlong, hshort, hquotedLength] at hlength
      omega
  · rcases hshort with hshort | hshort
    · -- the quotes are around the text on the one side, and behind it on the other
      rw [hlong, hquotedLength, ← hshort] at hlength
      have hone : t.length = 1 := by omega
      obtain ⟨d, rfl⟩ := length_eq_one_iff.mp hone
      rw [hshort, quoted, show value ++ [c, d] = (value ++ [c]) ++ [d] by simp] at hlong
      have hinit := (append_inj' hlong rfl).1
      have hcount := congrArg (List.count '"') hinit
      rw [count_append, count_cons_self, count_singleton, if_neg (by simpa using hc)] at hcount
      omega
    · rw [hlong, hquotedLength, hshort, hquotedLength] at hlength
      omega

/-- A formatted slot that goes on behind a segment has other sub-segments. -/
theorem subSegments_ne_of_append (hslot : FormattableSlot slot) (hseg : IsSegment seg)
    (hc : c = '/' ∨ c = '?') (h : slotText slot = seg ++ c :: t) :
    subSegments seg ≠ subSegments slot := by
  have hdot : IsPathDelimiter '.' := Or.inr (Or.inl rfl)
  have hcdot : c ≠ '.' := by
    rcases hc with rfl | rfl
    · decide
    · decide
  obtain ⟨subs, hsubs, _, _⟩ := validateSegment_eq_ok_iff.mp hseg.valid
  have hparts := (splitRespectingBrackets_eq_ok_iff hdot).mp hsubs
  have hformatted := hslot.split_formatted
  rw [← hslot.subSegments_eq]
  unfold subSegments
  rw [hsubs, hformatted]
  intro heq
  have hmap := Except.ok.inj heq
  rcases eq_nil_or_concat' subs with hnil | ⟨init, last, rfl⟩
  · exact absurd hnil hparts.1
  have hlast : Free scanBracketAware '.' last := hparts.2.1 last (by simp)
  have hinit : ∀ part ∈ init, Free scanBracketAware '.' part :=
    fun part hmem => hparts.2.1 part (mem_append_left _ hmem)
  -- the text behind the segment belongs to its last sub-segment
  have hword : Free scanBracketAware '.' [c] :=
    free_singleton (isPathDelimiter_of_slash_or_query hc).isDelimiter hcdot
  have hsplit := splitRespectingBrackets_eq_ok.mp hformatted
  rw [show formattedSlot (slotSubs slot) = slotText slot from rfl, h, hparts.2.2, joinWith,
    split_intercalate_append hdot.isDelimiter hinit hlast, split,
    show c :: t = [c] ++ t from rfl, splitFrom_word hword, Option.map_map] at hsplit
  obtain ⟨tail, htail, hsubsEq⟩ := Option.map_eq_some_iff.mp hsplit
  obtain ⟨first, others, rfl, _, _⟩ := (splitFrom_of_eq_some hdot.isDelimiter htail).parts_eq
  rw [Function.comp_apply, foldr_consHead, foldr_consHead] at hsubsEq
  rw [← hsubsEq, map_append, map_append] at hmap
  have hheads := append_cancel_left hmap
  have hhead := (List.cons.inj hheads).1
  have hcquote : c ≠ '"' := by
    rcases hc with rfl | rfl
    · decide
    · decide
  exact unquoteSeg_ne_of_append hcquote hhead.symm

end OpenClaw.Oc
