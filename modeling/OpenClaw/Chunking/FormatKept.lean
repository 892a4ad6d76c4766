import OpenClaw.Chunking.MarkdownIr

/-!
# Formatting stays on its characters

The cursor of `chunkMarkdownIR` finds every chunk where it was cut, unless the first window is
cut inside the white space the text begins with: then the first chunk begins behind that white
space, and the cursor puts it at the beginning of the text.
-/

namespace OpenClaw

open List

/-- From a position on the chunks are slices of the text with only white space between them, at
most `limit` long, and every character is covered as in the text. -/
inductive FormattedSlices (ir : MarkdownIR) (limit : ℤ) : ℕ → List MarkdownIR → Prop where
  | done {pos : ℕ} : (∀ unit ∈ ir.text.drop pos, isSpaceUnit unit = true) →
      FormattedSlices ir limit pos []
  | slice {pos start stop : ℕ} {chunk : MarkdownIR} {rest : List MarkdownIR} : pos ≤ start →
      (∀ unit ∈ unitsSlice ir.text pos start, isSpaceUnit unit = true) →
      chunk.text = unitsSlice ir.text start stop → start < stop → stop ≤ ir.text.length →
      (chunk.text.length : ℤ) ≤ limit →
      (∀ i, start + i < stop →
        (∀ style, chunk.HasStyle style i ↔ ir.HasStyle style (start + i)) ∧
          ∀ href, chunk.HasLink href i ↔ ir.HasLink href (start + i)) →
      FormattedSlices ir limit stop rest → FormattedSlices ir limit pos (chunk :: rest)

/-- The spans of a text end in the text. -/
def MarkdownIR.SpansInside (ir : MarkdownIR) : Prop :=
  (∀ span ∈ ir.styles, span.stop ≤ ir.text.length) ∧ ∀ span ∈ ir.links, span.stop ≤ ir.text.length

variable (text : Units)

/-- How many units of white space the text begins with. -/
def leadingSpaces : ℕ := (text.takeWhile isSpaceUnit).length

/-- Where `chunkText` cuts the first window. -/
def firstBreak (limit : ℕ) : ℕ :=
  breakIndex resolveTextBreak limit (text.take limit)

/-- The first window is not cut inside the white space at the beginning, unless there is nothing
else or no cut at all. -/
def CutsBehindSpaces (limit : ℤ) : Prop :=
  (text.length : ℤ) ≤ limit ∨ leadingSpaces text = text.length ∨
    leadingSpaces text < firstBreak text limit.toNat

variable {text : Units} {ir : MarkdownIR}

/-! ## Slices -/

theorem skipSpaces_zero (text : Units) : skipSpaces text 0 = leadingSpaces text := by
  unfold skipSpaces leadingSpaces
  rw [drop_zero, Nat.zero_add]

variable {start stop i : ℕ} {limit : ℤ}

theorem length_unitsSlice_of_le (h : stop ≤ text.length) :
    (unitsSlice text start stop).length = stop - start := by
  rw [unitsSlice, length_drop, length_take, min_eq_left h]

theorem unitsSlice_skipSpaces (text : Units) (pos : ℕ) :
    ∀ unit ∈ unitsSlice text pos (skipSpaces text pos), isSpaceUnit unit = true := by
  intro unit hmem
  have hslice : unitsSlice text pos (skipSpaces text pos) = (text.drop pos).takeWhile isSpaceUnit := by
    unfold unitsSlice skipSpaces
    rw [drop_take, Nat.add_sub_cancel_left]
    exact (prefix_iff_eq_take.mp ( takeWhile_prefix _)).symm
  rw [hslice] at hmem
  exact mem_takeWhile_imp hmem

/-- The chunk that `chunkMarkdownIR` makes of a slice it has the position of. -/
theorem sliced_covers {chunk : Units} (hi : start + i < stop) :
    (∀ style, MarkdownIR.HasStyle ⟨chunk, sliceStyleSpans ir.styles start stop,
        sliceLinkSpans ir.links start stop⟩ style i ↔ ir.HasStyle style (start + i)) ∧
      ∀ href, MarkdownIR.HasLink ⟨chunk, sliceStyleSpans ir.styles start stop,
        sliceLinkSpans ir.links start stop⟩ href i ↔ ir.HasLink href (start + i) :=
  ⟨fun _ => coversStyle_sliceStyleSpans hi, fun _ => hasLink_sliceLinkSpans hi⟩

/-- Behind the first chunk the cursor finds the slices. -/
theorem formattedSlices_of_tightSlices {limit : ℕ} {pos : ℕ} {chunks : List Units}
    (h : TightSlices ir.text limit pos chunks) :
    FormattedSlices ir limit pos (sliceChunks ir pos false chunks) := by
  induction h with
  | done hspaces => exact .done hspaces
  | @slice pos stop rest hlt hstop hlimit hrest ih =>
    have hlen : (unitsSlice ir.text (skipSpaces ir.text pos) stop).length =
        stop - skipSpaces ir.text pos := length_unitsSlice_of_le hstop
    have hne : unitsSlice ir.text (skipSpaces ir.text pos) stop ≠ [] := by
      apply ne_nil_of_length_pos
      omega
    have hend : min ir.text.length (skipSpaces ir.text pos +
        (unitsSlice ir.text (skipSpaces ir.text pos) stop).length) = stop := by omega
    unfold sliceChunks
    rw [if_neg hne]
    dsimp only
    rw [if_neg Bool.false_ne_true, hend]
    refine .slice (Nat.le_add_right _ _) (unitsSlice_skipSpaces _ _) rfl hlt hstop ?_
      (fun i hi => sliced_covers hi) ih
    show ((unitsSlice ir.text (skipSpaces ir.text pos) stop).length : ℤ) ≤ limit
    omega

/-- A text that does not fit goes through the loop. -/
theorem chunkText_eq (hlimit : 1 ≤ limit) (hlong : limit < text.length) : chunkText text limit =
      chunkTextLoop resolveTextBreak ⟨limit.toNat, by omega⟩ text := by
  have hne : text ≠ [] := by
    intro hnil
    rw [hnil] at hlong
    have hzero : limit < 0 := hlong
    omega
  unfold chunkText resolveChunkEarlyReturn
  rw [if_neg hne, if_neg (by omega), if_neg (by omega)]
  unfold chunkTextByBreakResolver
  rw [if_neg hne, dif_neg (by omega), if_neg (by omega)]

/-! ## The first chunk -/

/-- The first unit that is no white space. -/
theorem isSpaceUnit_leadingSpaces (h : leadingSpaces text < text.length) :
    isSpaceUnit text[leadingSpaces text] = false := by
  have hdrop : text.drop (leadingSpaces text) = trimStartUnits text := by
    rw [← skipSpaces_zero, drop_skipSpaces, drop_zero]
  rcases trimStartUnits_eq_nil_or text with hnil | ⟨unit, rest, hcons, hunit⟩
  · rw [hnil] at hdrop
    have hlen := congrArg List.length hdrop
    rw [length_drop, length_nil] at hlen
    omega
  · rw [hcons, drop_eq_getElem_cons h] at hdrop
    rw [head_eq_of_cons_eq hdrop]
    exact hunit

theorem isSpaceUnit_of_lt_leadingSpaces (h : i < leadingSpaces text) (hi : i < text.length) :
    isSpaceUnit text[i] = true := by
  have hget := mem_takeWhile_imp (getElem_mem h)
  have hfront := takeWhile_prefix (p := isSpaceUnit) (l := text)
  rw [hfront.getElem h] at hget
  exact hget

/-- A slice that contains a unit of the text. -/
theorem getElem_mem_unitsSlice (hstart : start ≤ i) (hstop : i < stop)
    (hi : i < text.length) : text[i] ∈ unitsSlice text start stop := by
  have hget : (unitsSlice text start stop)[i - start]? = some text[i] := by
    rw [unitsSlice, getElem?_drop, getElem?_take, if_pos (by omega),
      Nat.add_sub_cancel' hstart, getElem?_eq_getElem hi]
  exact mem_of_getElem? hget

/-- The first chunk is at the beginning, when the window is cut behind the white space there. -/
theorem chunkTextLoop_behind {limit : ℕ+} (hlong : limit < text.length)
    (hbreak : leadingSpaces text < firstBreak text limit) :
    ∃ stop rest, 0 < stop ∧ stop ≤ text.length ∧ stop ≤ limit ∧ TightSlices text limit stop rest ∧
      chunkTextLoop resolveTextBreak limit text = unitsSlice text 0 stop :: rest := by
  obtain ⟨stop, -, hstop, hbound, hround, hgap⟩ :=
    @chunkTextRound_drop resolveTextBreak limit text 0 hlong
  rw [drop_zero, Nat.zero_add] at hbound hgap
  rw [drop_zero] at hround
  have hle := breakIndex_le resolveTextBreak limit (text.take limit)
  -- the first unit that is no white space is in front of the break
  have hbehind : leadingSpaces text < stop := by
    by_contra hge
    have hlead : leadingSpaces text < text.length := by
      unfold firstBreak at hbreak
      omega
    have hspace := hgap _ (getElem_mem_unitsSlice (by omega) hbreak hlead)
    rw [isSpaceUnit_leadingSpaces hlead] at hspace
    exact nomatch hspace
  have hne : unitsSlice text 0 stop ≠ [] := by
    apply ne_nil_of_length_pos
    rw [length_unitsSlice_of_le hstop]
    omega
  refine ⟨stop, _, by omega, hstop, by omega,
    tightSlices_chunkTextLoop resolveTextBreak limit text stop hstop, ?_⟩
  rw [chunkTextLoop, dif_pos hlong, hround]
  dsimp only
  rw [if_neg hne]
  rfl

/-- The first chunk is behind the white space, when the window is cut inside it. -/
theorem chunkTextLoop_inside {limit : ℕ+} (hlong : limit < text.length)
    (hbreak : firstBreak text limit ≤ leadingSpaces text) :
    TightSlices text limit 0 (chunkTextLoop resolveTextBreak limit text) := by
  obtain ⟨stop, -, hstop, hbound, hround, hgap⟩ :=
    @chunkTextRound_drop resolveTextBreak limit text 0 hlong
  rw [drop_zero, Nat.zero_add] at hbound hgap
  rw [drop_zero] at hround
  have hblank : (chunkTextRound resolveTextBreak limit text).1 = [] := by
    show (text.take _).rdropWhile isSpaceUnit = []
    rw [rdropWhile_eq_nil_iff]
    intro unit hmem
    obtain ⟨i, hi, rfl⟩ := getElem_of_mem hmem
    rw [length_take] at hi
    rw [getElem_take]
    refine isSpaceUnit_of_lt_leadingSpaces ?_ (by omega)
    unfold firstBreak at hbreak
    omega
  have hzero : stop = 0 := by
    rw [hround] at hblank
    have hlen := congrArg List.length hblank
    rw [length_unitsSlice_of_le hstop, length_nil] at hlen
    omega
  have htight := tightSlices_chunkTextLoop resolveTextBreak limit text 0 (Nat.zero_le _)
  rw [chunkTextLoop, dif_pos hlong]
  dsimp only
  rw [hblank, if_pos rfl, hround, hzero]
  exact htight

/-! ## The chunks of a formatted text -/

theorem chunkMarkdownIR_short (h : (ir.text.length : ℤ) ≤ limit) :
    FormattedSlices ir limit 0 (chunkMarkdownIR ir limit) := by
  unfold chunkMarkdownIR
  by_cases hnil : ir.text = []
  · rw [if_pos hnil]
    refine .done fun unit hmem => ?_
    rw [hnil, drop_nil] at hmem
    exact absurd hmem not_mem_nil
  · rw [if_neg hnil, if_pos (.inr h)]
    have hwhole : ir.text = unitsSlice ir.text 0 ir.text.length := by
      rw [unitsSlice, take_length, drop_zero]
    refine .slice le_rfl ?_ hwhole (length_pos_iff.mpr hnil) le_rfl h ?_ (.done ?_)
    · intro unit hmem
      rw [unitsSlice, take_zero, drop_nil] at hmem
      exact absurd hmem not_mem_nil
    · intro i _
      rw [Nat.zero_add]
      exact ⟨fun _ => Iff.rfl, fun _ => Iff.rfl⟩
    · intro unit hmem
      rw [drop_length] at hmem
      exact absurd hmem not_mem_nil

theorem chunkMarkdownIR_long {limit : ℤ} (hlimit : 1 ≤ limit) (h : limit < ir.text.length) :
    chunkMarkdownIR ir limit =
      sliceChunks ir 0 true (chunkTextLoop resolveTextBreak ⟨limit.toNat, by omega⟩ ir.text) := by
  have hne : ir.text ≠ [] := by
    intro hnil
    rw [hnil] at h
    have hzero : limit < 0 := h
    omega
  unfold chunkMarkdownIR
  rw [if_neg hne, if_neg (by omega), chunkText_eq hlimit h]

/-- A first chunk at the beginning of the text is where the cursor is. -/
theorem formattedSlices_behind (hlimit : 1 ≤ limit) (h : limit < ir.text.length)
    (hbreak : leadingSpaces ir.text < firstBreak ir.text limit.toNat) :
    FormattedSlices ir limit 0 (chunkMarkdownIR ir limit) := by
  obtain ⟨stop, rest, hpos, hstop, hle, htight, hloop⟩ :=
    @chunkTextLoop_behind ir.text ⟨limit.toNat, by omega⟩
      (by show limit.toNat < _; omega) hbreak
  have hle : stop ≤ limit.toNat := hle
  have hnat : ((limit.toNat : ℕ) : ℤ) = limit := Int.toNat_of_nonneg (by omega)
  have hlen : (unitsSlice ir.text 0 stop).length = stop - 0 := length_unitsSlice_of_le hstop
  have hne : unitsSlice ir.text 0 stop ≠ [] := by
    apply ne_nil_of_length_pos
    omega
  have hend : min ir.text.length (0 + (unitsSlice ir.text 0 stop).length) = stop := by omega
  have hrest : FormattedSlices ir limit stop (sliceChunks ir stop false rest) := by
    have htight' := formattedSlices_of_tightSlices htight
    show FormattedSlices ir limit stop _
    rw [← hnat]
    exact htight'
  rw [chunkMarkdownIR_long hlimit h, hloop]
  unfold sliceChunks
  rw [if_neg hne]
  dsimp only
  rw [if_pos rfl, hend]
  refine .slice le_rfl ?_ rfl hpos hstop ?_ (fun i hi => sliced_covers hi) hrest
  · intro unit hmem
    rw [unitsSlice, take_zero, drop_nil] at hmem
    exact absurd hmem not_mem_nil
  · show ((unitsSlice ir.text 0 stop).length : ℤ) ≤ limit
    omega

/-- A text of nothing but white space has no chunks. -/
theorem formattedSlices_blank (hlimit : 1 ≤ limit) (h : limit < ir.text.length)
    (hblank : leadingSpaces ir.text = ir.text.length) :
    FormattedSlices ir limit 0 (chunkMarkdownIR ir limit) := by
  have hle := breakIndex_le resolveTextBreak limit.toNat (ir.text.take limit.toNat)
  have htight := @chunkTextLoop_inside ir.text ⟨limit.toNat, by omega⟩
    (by show limit.toNat < _; omega) (by
      show firstBreak ir.text limit.toNat ≤ _
      unfold firstBreak
      omega)
  rw [chunkMarkdownIR_long hlimit h]
  generalize chunkTextLoop resolveTextBreak ⟨limit.toNat, _⟩ ir.text = chunks at htight ⊢
  cases htight with
  | done hspaces => exact .done hspaces
  | slice hlt hstop _ _ =>
    rw [skipSpaces_zero] at hlt
    omega

theorem formattedSlices_of_cutsBehindSpaces (hlimit : 1 ≤ limit)
    (h : CutsBehindSpaces ir.text limit) :
    FormattedSlices ir limit 0 (chunkMarkdownIR ir limit) := by
  by_cases hshort : (ir.text.length : ℤ) ≤ limit
  · exact chunkMarkdownIR_short hshort
  · have hlong : limit < ir.text.length := by omega
    rcases h with hshort' | hblank | hbreak
    · exact absurd hshort' hshort
    · exact formattedSlices_blank hlimit hlong hblank
    · exact formattedSlices_behind hlimit hlong hbreak

/-! ## A first chunk in the wrong place -/

/-- The text with its first character that is no white space in bold. -/
def boldFirst (text : Units) : MarkdownIR :=
  ⟨text, [⟨leadingSpaces text, leadingSpaces text + 1, .bold⟩], []⟩

/-- The first chunk begins with that character, and its bold is looked for at the beginning of the
text. -/
theorem not_formattedSlices_inside (hlimit : 1 ≤ limit) (h : limit < text.length)
    (hlead : leadingSpaces text < text.length)
    (hbreak : firstBreak text limit.toNat ≤ leadingSpaces text) :
    ¬ FormattedSlices (boldFirst text) limit 0 (chunkMarkdownIR (boldFirst text) limit) := by
  have hpositive : 0 < firstBreak text limit.toNat :=
    breakIndex_pos resolveTextBreak ⟨limit.toNat, by omega⟩ _
  have htight := @chunkTextLoop_inside text ⟨limit.toNat, by omega⟩
    (by show limit.toNat < _; omega) hbreak
  rw [@chunkMarkdownIR_long (boldFirst text) limit hlimit h]
  show ¬ FormattedSlices _ _ _ (sliceChunks _ 0 true (chunkTextLoop _ _ text))
  generalize chunkTextLoop resolveTextBreak ⟨limit.toNat, _⟩ text = chunks at htight ⊢
  intro hformatted
  cases htight with
  | done hspaces =>
    have hspace := hspaces _ (getElem_mem (l := text) hlead)
    rw [isSpaceUnit_leadingSpaces hlead] at hspace
    exact nomatch hspace
  | @slice _ stop rest hlt hstop _ _ =>
    rw [skipSpaces_zero] at hlt hformatted
    have hlen : (unitsSlice text (leadingSpaces text) stop).length = stop - leadingSpaces text :=
      length_unitsSlice_of_le hstop
    have hne : unitsSlice text (leadingSpaces text) stop ≠ [] := by
      apply ne_nil_of_length_pos
      omega
    unfold sliceChunks at hformatted
    rw [if_neg hne] at hformatted
    dsimp only at hformatted
    rw [if_pos rfl] at hformatted
    cases hformatted with
    | @slice _ start stop' _ _ hle hspaces htext hlt' hstop' _ hcovers _ =>
      -- the chunk begins with the first character that is no white space, so that is where it is
      have hstart : start = leadingSpaces text := by
        have hstop' : stop' ≤ text.length := hstop'
        rcases Nat.lt_trichotomy start (leadingSpaces text) with hlt'' | heq | hgt
        · have hhead : text[start]? = text[leadingSpaces text]? := by
            have hfirst := congrArg (·[0]?) htext
            dsimp only at hfirst
            rw [unitsSlice, unitsSlice, getElem?_drop, getElem?_drop, getElem?_take,
              getElem?_take, if_pos (by omega), if_pos (by omega)] at hfirst
            exact hfirst.symm
          rw [getElem?_eq_getElem (by omega), getElem?_eq_getElem hlead] at hhead
          have hspace := isSpaceUnit_of_lt_leadingSpaces hlt'' (by omega)
          rw [Option.some.inj hhead, isSpaceUnit_leadingSpaces hlead] at hspace
          exact nomatch hspace
        · exact heq
        · have hspace := hspaces _ (getElem_mem_unitsSlice (Nat.zero_le _) hgt hlead)
          have hspace : isSpaceUnit text[leadingSpaces text] = true := hspace
          rw [isSpaceUnit_leadingSpaces hlead] at hspace
          exact nomatch hspace
      have hbold := ((hcovers 0 (by omega)).1 .bold).mpr
        ⟨_, mem_singleton_self _, rfl, by dsimp only; omega, by dsimp only; omega⟩
      have hstyle := @coversStyle_sliceStyleSpans (boldFirst text).styles 0
        (min text.length (0 + (unitsSlice text (leadingSpaces text) stop).length)) 0 .bold (by omega)
      obtain ⟨span, hspan, _, hat, _⟩ := hstyle.mp hbold
      rw [mem_singleton.mp hspan] at hat
      dsimp only at hat
      omega

/-- Formatting stays on its characters, for every text with whatever spans in it, when the first
window is cut behind the white space at the beginning. -/
theorem chunkMarkdownIR_formatted_iff (text : Units) (limit : ℤ) (hlimit : 1 ≤ limit) :
    (∀ ir : MarkdownIR, ir.text = text → ir.SpansInside →
      FormattedSlices ir limit 0 (chunkMarkdownIR ir limit)) ↔ CutsBehindSpaces text limit := by
  constructor
  · intro h
    by_contra hcuts
    have hparts := not_or.mp hcuts
    have hrest := not_or.mp hparts.2
    have hle : leadingSpaces text ≤ text.length := ( takeWhile_prefix _).length_le
    have hlead : leadingSpaces text < text.length := lt_of_le_of_ne hle hrest.1
    have hinside : (boldFirst text).SpansInside := by
      refine ⟨?_, fun span hmem => absurd hmem not_mem_nil⟩
      intro span hmem
      rw [mem_singleton.mp hmem]
      exact hlead
    exact not_formattedSlices_inside hlimit (by omega) hlead (by omega)
      (h (boldFirst text) rfl hinside)
  · intro hcuts ir htext _
    rw [← htext] at hcuts
    exact formattedSlices_of_cutsBehindSpaces hlimit hcuts

/-- A text that begins with a word. -/
theorem chunkMarkdownIR_formatted_iff_word :
    (∀ ir : MarkdownIR, ir.text = units "ab cd" → ir.SpansInside →
      FormattedSlices ir 3 0 (chunkMarkdownIR ir 3)) ↔ CutsBehindSpaces (units "ab cd") 3 :=
  chunkMarkdownIR_formatted_iff _ _ (by decide)

/-- `⎵⎵⎵ab` with the `a` in bold and two characters a chunk: the first chunk `ab` is plain. -/
theorem exists_not_formattedSlices :
    ∃ ir : MarkdownIR, ir.SpansInside ∧ ¬ FormattedSlices ir 2 0 (chunkMarkdownIR ir 2) := by
  refine ⟨boldFirst (units "   ab"), ⟨?_, ?_⟩, ?_⟩
  · decide
  · decide
  · exact not_formattedSlices_inside (by decide) (by decide) (by decide) (by decide)

end OpenClaw
