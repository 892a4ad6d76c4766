import OpenClaw.Chunking.Fences

/-!
# The spans of a text

They lie in the text one after the other, and a position is strictly inside at most one of them,
which the binary search finds.
-/

namespace OpenClaw

open List Option

variable {text buffer : Units} {line : Units} {lines : List Units} {spans : List FenceSpan}
  {span : FenceSpan} {offset index : ℕ}

/-! ## Lines -/

theorem splitLines_ne_nil (text : Units) : splitLines text ≠ [] := by
  cases text with
  | nil => exact cons_ne_nil _ _
  | cons unit rest =>
    rw [splitLines]
    split
    · exact cons_ne_nil _ _
    · split_ifs
      · exact cons_ne_nil _ _
      · exact cons_ne_nil _ _

/-- Each line with its newline, also the last one. -/
theorem flatMap_splitLines (text : Units) :
    (splitLines text).flatMap (· ++ [newline]) = text ++ [newline] := by
  induction text with
  | nil => rfl
  | cons unit rest ih =>
    rw [splitLines]
    split
    · rename_i hnil
      exact absurd hnil (splitLines_ne_nil rest)
    · rename_i line lines hlines
      rw [hlines] at ih
      split_ifs with hunit
      · rw [flatMap_cons, ih, hunit]
        rfl
      · rw [flatMap_cons] at ih ⊢
        rw [cons_append, cons_append, ih, cons_append]

/-! ## Fence lines -/

/-- A line of a fence begins with the indent and the marker, and neither has a newline. -/
structure FenceLine (line indent marker : Units) : Prop where
  prefix_line : (indent ++ marker).IsPrefix line
  marker_length : 3 ≤ marker.length
  head_ne : ∀ unit, line.head? = some unit → unit ≠ newline

theorem fenceLine_of_match {indent marker : Units} (h : matchFenceLine line = some (indent, marker)) :
    FenceLine line indent marker := by
  unfold matchFenceLine at h
  dsimp only at h
  split at h
  · cases h
  · rename_i markerChar hhead
    split_ifs at h with hfence
    obtain ⟨rfl, rfl⟩ := Prod.mk.injEq .. ▸ some.inj h
    refine ⟨?_, hfence.2.2.1, ?_⟩
    · have hline := takeWhile_append_dropWhile (p := fun x => decide (x = 32)) (l := line)
      conv_rhs => rw [← hline]
      exact prefix_append_right_inj _ |>.mpr ( takeWhile_prefix _)
    · intro unit hunit heq
      subst heq
      cases line with
      | nil => cases hunit
      | cons first rest =>
        obtain rfl := some.inj hunit
        rw [dropWhile_cons, if_neg (by decide)] at hhead
        obtain rfl := some.inj hhead
        exact absurd hfence.2.1 (by decide)

theorem FenceLine.length_le {indent marker : Units} (h : FenceLine line indent marker) :
    (indent ++ marker).length ≤ line.length := h.prefix_line.length_le

/-! ## The spans -/

/-- A span of the text begins with its open line. -/
structure SpanOf (text : Units) (span : FenceSpan) : Prop where
  lt : span.start < span.stop
  le : span.stop ≤ text.length
  line : FenceLine span.openLine span.indent span.marker
  head : text[span.start]? = span.openLine.head?

/-- A fence that has been opened on a line before `offset`. -/
structure OpenBefore (text : Units) (offset : ℕ) (fence : OpenFence) : Prop where
  lt : fence.start + fence.openLine.length < offset
  line : FenceLine fence.openLine fence.indent fence.marker
  head : text[fence.start]? = fence.openLine.head?

theorem FenceLine.length_pos {indent marker : Units} (h : FenceLine line indent marker) :
    0 < line.length := by
  have hle := h.length_le
  have hmarker := h.marker_length
  rw [length_append] at hle
  omega

theorem OpenBefore.spanOf {fence : OpenFence} {stop : ℕ} (h : OpenBefore text offset fence)
    (hoffset : offset ≤ stop + 1) (hstop : stop ≤ text.length) : SpanOf text (fence.close stop) := by
  refine ⟨?_, hstop, h.line, h.head⟩
  have hlt := h.lt
  have hpos := h.line.length_pos
  show fence.start < stop
  omega

/-- The spans one after the other, from `low` on. -/
structure SpansOf (text : Units) (low : ℕ) (spans : List FenceSpan) : Prop where
  span : ∀ span ∈ spans, SpanOf text span ∧ low ≤ span.start
  sorted : spans.Pairwise fun first second => first.stop ≤ second.start

theorem SpansOf.mono {low low' : ℕ} (h : SpansOf text low spans) (hle : low' ≤ low) :
    SpansOf text low' spans :=
  ⟨fun span hspan => ⟨(h.span span hspan).1, hle.trans (h.span span hspan).2⟩, h.sorted⟩

theorem SpansOf.cons {low stop : ℕ} (hspan : SpanOf text span) (hlow : low ≤ span.start)
    (hstop : span.stop ≤ stop) (h : SpansOf text stop spans) : SpansOf text low (span :: spans) := by
  have hlt := hspan.lt
  have hle : low ≤ stop := by omega
  have hall : ∀ second ∈ span :: spans, SpanOf text second ∧ low ≤ second.start := by
    rw [forall_mem_cons]
    exact ⟨⟨hspan, hlow⟩, (h.mono hle).span⟩
  have hfirst : ∀ second ∈ spans, span.stop ≤ second.start :=
    fun second hsecond => hstop.trans (h.span second hsecond).2
  exact ⟨hall, pairwise_cons.mpr ⟨hfirst, h.sorted⟩⟩

theorem spansOf_nil (text : Units) (low : ℕ) : SpansOf text low [] :=
  ⟨(fun _ h => nomatch h), List.Pairwise.nil⟩

theorem getElem?_of_drop {rest : Units} (h : (text ++ [newline]).drop offset = line ++ rest)
    (hpos : 0 < line.length) (hlt : offset < text.length) : text[offset]? = line.head? := by
  have hhead := congrArg List.head? h
  rw [head?_drop, getElem?_append_left hlt] at hhead
  rw [hhead]
  cases line with
  | nil => exact absurd hpos (lt_irrefl 0)
  | cons unit line => rfl

theorem fenceSpansFrom_cons (n offset : ℕ) (fence? : Option OpenFence) (line : Units)
    (lines : List Units) : fenceSpansFrom n offset fence? (line :: lines) =
      match matchFenceLine line, fence? with
      | none, fence? => fenceSpansFrom n (offset + line.length + 1) fence? lines
      | some (indent, marker), none =>
        fenceSpansFrom n (offset + line.length + 1) (some ⟨offset, line, marker, indent⟩) lines
      | some (_, marker), some fence =>
        if fence.closedBy marker then
          fence.close (offset + line.length) ::
            fenceSpansFrom n (offset + line.length + 1) none lines
        else fenceSpansFrom n (offset + line.length + 1) (some fence) lines := by
  cases fence? <;> rfl

theorem spansOf_fenceSpansFrom (lines : List Units) (offset : ℕ) (fence? : Option OpenFence)
    (hlines : (text ++ [newline]).drop offset = lines.flatMap (· ++ [newline]))
    (hoffset : offset ≤ text.length + 1)
    (hopen : ∀ fence, fence? = some fence → OpenBefore text offset fence) :
    SpansOf text ((fence?.map (·.start)).getD offset)
      (fenceSpansFrom text.length offset fence? lines) := by
  induction lines generalizing offset fence? with
  | nil =>
    cases fence? with
    | none => exact spansOf_nil text _
    | some fence =>
      exact SpansOf.cons ((hopen fence rfl).spanOf hoffset le_rfl) le_rfl le_rfl
        (spansOf_nil text _)
  | cons line lines ih =>
    rw [flatMap_cons, append_assoc] at hlines
    have hlength := congrArg List.length hlines
    simp only [length_drop, length_append, length_singleton] at hlength
    have hlineEnd : offset + line.length ≤ text.length := by omega
    have hrest : (text ++ [newline]).drop (offset + line.length + 1) =
        lines.flatMap (· ++ [newline]) := by
      rw [Nat.add_assoc, ← drop_drop, hlines, ← append_assoc]
      exact drop_left' (by simp)
    have hnext : offset + line.length + 1 ≤ text.length + 1 := by omega
    have hkeep : ∀ fence, fence? = some fence →
        OpenBefore text (offset + line.length + 1) fence := by
      intro fence hfence
      have hbefore := hopen fence hfence
      have hlt := hbefore.lt
      exact ⟨by omega, hbefore.line, hbefore.head⟩
    rw [fenceSpansFrom_cons]
    split
    · -- an ordinary line
      rename_i opened _ _ _
      have hih := ih _ opened hrest hnext hkeep
      cases opened with
      | none => exact hih.mono (show offset ≤ offset + line.length + 1 by omega)
      | some fence => exact hih
    · -- a fence is opened
      rename_i indent marker hmatch
      have hline := fenceLine_of_match hmatch
      have hpos := hline.length_pos
      have hlt : offset < text.length := by omega
      refine ih _ (some ⟨offset, line, marker, indent⟩) hrest hnext fun fence hfence => ?_
      rw [← some.inj hfence]
      exact ⟨Nat.lt_succ_self _, hline, getElem?_of_drop hlines hpos hlt⟩
    · rename_i marker fence hmatch
      split_ifs
      · -- the fence is closed
        have hspan := (hopen fence rfl).spanOf (show offset ≤ offset + line.length + 1 by omega)
          hlineEnd
        have hih := ih _ none hrest hnext (fun _ h => nomatch h)
        exact SpansOf.cons hspan le_rfl (Nat.le_succ _) hih
      · exact ih _ (some fence) hrest hnext hkeep

theorem spansOf_parseFenceSpans (text : Units) : SpansOf text 0 (parseFenceSpans text) := by
  have hlines : (text ++ [newline]).drop 0 = (splitLines text).flatMap (· ++ [newline]) :=
    (flatMap_splitLines text).symm
  exact spansOf_fenceSpansFrom _ 0 none hlines (Nat.zero_le _) (fun _ h => nomatch h)

/-! ## The binary search -/

theorem SpansOf.start_le (h : SpansOf text 0 spans) {i j : ℕ} (hij : i < j) {first second : FenceSpan}
    (hfirst : spans[i]? = some first) (hsecond : spans[j]? = some second) :
    first.stop ≤ second.start := by
  obtain ⟨hi, rfl⟩ := List.getElem?_eq_some_iff.mp hfirst
  obtain ⟨hj, rfl⟩ := List.getElem?_eq_some_iff.mp hsecond
  exact pairwise_iff_getElem.mp h.sorted i j hi hj hij

/-- The search finds the span around the index, if it is between `low` and `high`. -/
theorem findFenceSpanFrom_eq (h : SpansOf text 0 spans) {i : ℕ} (hspan : spans[i]? = some span)
    (hstart : span.start < index) (hstop : index < span.stop) (fuel low high : ℕ)
    (hfuel : high - low ≤ fuel) (hlow : low ≤ i) (hhigh : i < high) (hlength : high ≤ spans.length) :
    findFenceSpanFrom spans index fuel low high = some span := by
  induction fuel generalizing low high with
  | zero => omega
  | succ fuel ih =>
    rw [findFenceSpanFrom, if_neg (by omega)]
    dsimp only
    set mid := (low + (high - 1)) / 2 with hmid
    have hmidLength : mid < spans.length := by omega
    have hmidSpan : spans[mid]? = some spans[mid] := getElem?_eq_getElem hmidLength
    rw [hmidSpan]
    dsimp only
    rcases lt_trichotomy mid i with hlt | heq | hgt
    · have hle := h.start_le hlt hmidSpan hspan
      have hwf := (h.span _ (getElem_mem hmidLength)).1.lt
      rw [if_neg (by omega), if_pos (by omega)]
      exact ih (mid + 1) high (by omega) (by omega) hhigh hlength
    · have hfound : spans[mid] = span := some.inj (hmidSpan.symm.trans (heq ▸ hspan))
      rw [hfound, if_neg (by omega), if_neg (by omega)]
    · have hle := h.start_le hgt hspan hmidSpan
      rw [if_pos (by omega)]
      exact ih low mid (by omega) hlow hgt (by omega)

theorem of_findFenceSpanFrom {fuel low high : ℕ}
    (h : findFenceSpanFrom spans index fuel low high = some span) :
    span ∈ spans ∧ span.start < index ∧ index < span.stop := by
  induction fuel generalizing low high with
  | zero => cases h
  | succ fuel ih =>
    rw [findFenceSpanFrom] at h
    split_ifs at h
    dsimp only at h
    split at h
    · cases h
    · rename_i mid hmid
      split_ifs at h with hstart hstop
      · exact ih h
      · exact ih h
      · rw [← some.inj h]
        exact ⟨mem_of_getElem? hmid, by omega, by omega⟩

theorem findFenceSpanAt_eq_some_iff (h : SpansOf text 0 spans) :
    findFenceSpanAt spans index = some span ↔
      span ∈ spans ∧ span.start < index ∧ index < span.stop := by
  refine ⟨of_findFenceSpanFrom, fun ⟨hmem, hstart, hstop⟩ => ?_⟩
  obtain ⟨i, hi, rfl⟩ := mem_iff_getElem.mp hmem
  exact findFenceSpanFrom_eq h (getElem?_eq_getElem hi) hstart hstop _ _ _ (Nat.sub_le _ _)
    (Nat.zero_le _) hi le_rfl

theorem findFenceSpanAt_eq_none_iff (h : SpansOf text 0 spans) :
    findFenceSpanAt spans index = none ↔
      ∀ span ∈ spans, span.start < index → span.stop ≤ index := by
  rw [eq_none_iff_forall_ne_some]
  constructor
  · intro hnone span hmem hstart
    by_contra hlt
    exact hnone span ((findFenceSpanAt_eq_some_iff h).mpr ⟨hmem, hstart, Nat.lt_of_not_le hlt⟩)
  · intro hall span hspan
    obtain ⟨hmem, hstart, hstop⟩ := (findFenceSpanAt_eq_some_iff h).mp hspan
    have hle := hall span hmem hstart
    omega

end OpenClaw
