import Mathlib.Data.PNat.Basic
import OpenClaw.Chunking.Markdown
import OpenClaw.Text.Number

/-!
# Cutting a plain text

`chunkTextByBreakResolver` and `chunkText`. Every piece but the first begins behind all white
space that follows the piece before it. The first one begins with the text itself, unless it
is blank and left out.
-/

namespace OpenClaw

open List

/-! ## The loop -/

variable (text : Units)

def trimStartUnits : Units := text.dropWhile isSpaceUnit

def trimEndUnits : Units := text.rdropWhile isSpaceUnit

variable (resolveBreakIndex : Units → Option ℕ)

/-- `breakIdx`: the break the resolver finds in a window, where it is one. -/
def breakIndex (limit : ℕ) (window : Units) : ℕ :=
  ((resolveBreakIndex window).filter fun candidate => 0 < candidate ∧ candidate ≤ limit).getD limit

/-- A round of the loop: the chunk, and what remains. -/
def chunkTextRound (limit : ℕ) (remaining : Units) : Units × Units :=
  let breakIdx := breakIndex resolveBreakIndex limit (remaining.take limit)
  let brokeOnSeparator := (remaining[breakIdx]?).any isSpaceUnit
  let nextStart := min remaining.length (breakIdx + if brokeOnSeparator then 1 else 0)
  (trimEndUnits (remaining.take breakIdx), trimStartUnits (remaining.drop nextStart))

variable (resolve : Units → Option ℕ) (limit : ℕ+)

theorem breakIndex_pos (window : Units) : 0 < breakIndex resolve limit window := by
  unfold breakIndex
  cases h : (resolve window).filter fun candidate => 0 < candidate ∧ candidate ≤ (limit : ℕ) with
  | none => exact limit.pos
  | some candidate => exact (of_decide_eq_true (Option.filter_eq_some_iff.mp h).2).1

theorem breakIndex_le (limit : ℕ) (window : Units) : breakIndex resolve limit window ≤ limit := by
  unfold breakIndex
  cases h : (resolve window).filter fun candidate => 0 < candidate ∧ candidate ≤ limit with
  | none => exact le_refl limit
  | some candidate => exact (of_decide_eq_true (Option.filter_eq_some_iff.mp h).2).2

theorem chunkTextRound_length {remaining : Units} (h : limit < remaining.length) :
    (chunkTextRound resolve limit remaining).2.length < remaining.length := by
  unfold chunkTextRound trimStartUnits
  dsimp only
  have hpos := breakIndex_pos resolve limit (remaining.take limit)
  have hdrop := (dropWhile_suffix (p := isSpaceUnit) (l := remaining.drop
    (min remaining.length (breakIndex resolve limit (remaining.take limit) +
      if (remaining[breakIndex resolve limit (remaining.take limit)]?).any isSpaceUnit then 1
        else 0)))).length_le
  rw [length_drop] at hdrop
  omega

/-- The loop of `chunkTextByBreakResolver`. -/
def chunkTextLoop (resolveBreakIndex : Units → Option ℕ) (limit : ℕ+) (remaining : Units) :
    List Units :=
  if _h : limit < remaining.length then
    let round := chunkTextRound resolveBreakIndex limit remaining
    (if round.1 = [] then [] else [round.1]) ++ chunkTextLoop resolveBreakIndex limit round.2
  else if remaining = [] then []
  else [remaining]
termination_by remaining.length
decreasing_by exact chunkTextRound_length resolveBreakIndex limit _h

def chunkTextByBreakResolver (limit : ℤ) (resolveBreakIndex : Units → Option ℕ) : List Units :=
  if text = [] then []
  else if h : limit ≤ 0 then [text]
  else if (text.length : ℤ) ≤ limit then [text]
  else chunkTextLoop resolveBreakIndex ⟨limit.toNat, by omega⟩ text

/-- The break `chunkText` prefers: a newline, then other white space, outside parentheses. -/
def resolveTextBreak (window : Units) : Option ℕ :=
  let points := scanParenAwareBreakpoints window 0 window.length fun _ => true
  match points.lastNewline.filter (0 < ·) with
  | some lastNewline => some lastNewline
  | none => points.lastWhitespace

def chunkText (limit : ℤ) : List Units :=
  match resolveChunkEarlyReturn text limit with
  | some early => early
  | none => chunkTextByBreakResolver text limit resolveTextBreak

/-! ## White space -/

/-- The first position from `pos` on that holds no white space. -/
def skipSpaces (pos : ℕ) : ℕ :=
  pos + ((text.drop pos).takeWhile isSpaceUnit).length

theorem drop_skipSpaces (pos : ℕ) :
    text.drop (skipSpaces text pos) = trimStartUnits (text.drop pos) := by
  have hsplit : (text.drop pos).takeWhile isSpaceUnit ++ trimStartUnits (text.drop pos) =
      text.drop pos := takeWhile_append_dropWhile
  unfold skipSpaces
  rw [← drop_drop]
  calc (text.drop pos).drop ((text.drop pos).takeWhile isSpaceUnit).length
      = ((text.drop pos).takeWhile isSpaceUnit ++ trimStartUnits (text.drop pos)).drop
          ((text.drop pos).takeWhile isSpaceUnit).length := by rw [hsplit]
    _ = trimStartUnits (text.drop pos) := drop_left

theorem skipSpaces_le {text : Units} {pos : ℕ} (h : pos ≤ text.length) :
    skipSpaces text pos ≤ text.length := by
  have hlen := ( takeWhile_prefix (p := isSpaceUnit) (l := text.drop pos)).length_le
  rw [length_drop] at hlen
  unfold skipSpaces
  omega

/-- Leading white space may go first. -/
theorem trimStartUnits_append {spaces rest : Units} (h : ∀ unit ∈ spaces, isSpaceUnit unit = true) :
    trimStartUnits (spaces ++ rest) = trimStartUnits rest :=
  dropWhile_append_of_pos h

/-- Only white space is left, or the first unit is none. -/
theorem trimStartUnits_eq_nil_or : trimStartUnits text = [] ∨
      ∃ unit rest, trimStartUnits text = unit :: rest ∧ isSpaceUnit unit = false := by
  cases h : trimStartUnits text with
  | nil => exact .inl rfl
  | cons unit rest =>
    right
    refine ⟨unit, rest, rfl, ?_⟩
    have hhead := head_dropWhile_not isSpaceUnit (l := text) (by
      unfold trimStartUnits at h
      rw [h]
      exact cons_ne_nil _ _)
    unfold trimStartUnits at h
    simpa [h] using hhead

/-- A text is what `trimEndUnits` keeps and white space. -/
theorem trimEndUnits_append :
    ∃ spaces, text = trimEndUnits text ++ spaces ∧ ∀ unit ∈ spaces, isSpaceUnit unit = true := by
  refine ⟨text.rtakeWhile isSpaceUnit, ?_, ?_⟩
  · exact (rdropWhile_append_rtakeWhile).symm
  · intro unit hmem
    exact mem_rtakeWhile_imp hmem

/-! ## The pieces -/

/-- From a position on the text is cut into pieces, each at the next unit that is no white space. -/
inductive TightSlices (text : Units) (limit : ℕ) : ℕ → List Units → Prop where
  | done {pos : ℕ} : (∀ unit ∈ text.drop pos, isSpaceUnit unit = true) → TightSlices text limit pos []
  | slice {pos stop : ℕ} {rest : List Units} : skipSpaces text pos < stop → stop ≤ text.length →
      stop ≤ skipSpaces text pos + limit → TightSlices text limit stop rest →
      TightSlices text limit pos (unitsSlice text (skipSpaces text pos) stop :: rest)

/-- What a round makes of the text behind a position: it takes a part of the window, and only
white space goes with it. -/
theorem chunkTextRound_drop {text : Units} {start : ℕ}
    (h : limit < (text.drop start).length) : ∃ stop, start ≤ stop ∧ stop ≤ text.length ∧
      stop ≤ start + breakIndex resolve limit ((text.drop start).take limit) ∧
      chunkTextRound resolve limit (text.drop start) =
        (unitsSlice text start stop, trimStartUnits (text.drop stop)) ∧
      ∀ unit ∈ unitsSlice text stop
        (start + breakIndex resolve limit ((text.drop start).take limit)), isSpaceUnit unit = true := by
  have hlength : (text.drop start).length = text.length - start := length_drop
  have hle := breakIndex_le resolve limit ((text.drop start).take limit)
  unfold chunkTextRound
  dsimp only
  generalize breakIndex resolve limit ((text.drop start).take limit) = breakIdx at hle ⊢
  obtain ⟨spaces, hraw, hspaces⟩ := trimEndUnits_append ((text.drop start).take breakIdx)
  have hrawlen : ((text.drop start).take breakIdx).length = breakIdx := by
    rw [length_take]
    omega
  have hsum : (trimEndUnits ((text.drop start).take breakIdx)).length + spaces.length = breakIdx := by
    rw [← length_append, ← hraw, hrawlen]
  generalize trimEndUnits ((text.drop start).take breakIdx) = chunk at hraw hsum ⊢
  have hslice (i j : ℕ) : unitsSlice text i (i + j) = (text.drop i).take j := by
    unfold unitsSlice
    rw [drop_take, Nat.add_sub_cancel_left]
  have hchunk : chunk = unitsSlice text start (start + chunk.length) := by
    rw [hslice]
    have htake : (text.drop start).take chunk.length =
        ((text.drop start).take breakIdx).take chunk.length := by
      rw [take_take, min_eq_left (by omega)]
    rw [htake, hraw, take_left]
  have hgap : unitsSlice text (start + chunk.length) (start + breakIdx) = spaces := by
    have hdrop : unitsSlice text (start + chunk.length) (start + breakIdx) =
        ((text.drop start).take breakIdx).drop chunk.length := by
      rw [← hslice, unitsSlice, unitsSlice, drop_drop]
    rw [hdrop, hraw, drop_left]
  refine ⟨start + chunk.length, by omega, by omega, by omega, ?_, ?_⟩
  · refine Prod.ext hchunk ?_
    show trimStartUnits ((text.drop start).drop _) = _
    -- the separator and what was trimmed are white space that goes with the rest
    have hsplit : text.drop (start + chunk.length) = spaces ++ text.drop (start + breakIdx) := by
      rw [← hgap, unitsSlice, drop_take]
      have hadd : start + breakIdx = (start + chunk.length) + (start + breakIdx - (start +
          chunk.length)) := by omega
      calc text.drop (start + chunk.length)
          = (text.drop (start + chunk.length)).take (start + breakIdx - (start + chunk.length)) ++
            (text.drop (start + chunk.length)).drop (start + breakIdx - (start + chunk.length)) :=
              (take_append_drop _ _).symm
        _ = _ := by rw [drop_drop, ← hadd]
    rw [hsplit, trimStartUnits_append hspaces, drop_drop]
    by_cases hbroke : ((text.drop start)[breakIdx]?).any isSpaceUnit = true
    · rw [if_pos hbroke]
      have hlt : start + breakIdx < text.length := by omega
      have hmin : min (text.drop start).length (breakIdx + 1) = breakIdx + 1 := by omega
      have hcons : text.drop (start + breakIdx) = [text[start + breakIdx]] ++
          text.drop (start + (breakIdx + 1)) := by
        rw [drop_eq_getElem_cons hlt]
        rfl
      have hspace : isSpaceUnit text[start + breakIdx] = true := by
        rw [getElem?_drop, getElem?_eq_getElem hlt] at hbroke
        exact hbroke
      rw [hmin, hcons, trimStartUnits_append (by simpa using hspace)]
    · have hmin : min (text.drop start).length (breakIdx + 0) = breakIdx := by omega
      rw [if_neg hbroke, hmin]
  · rw [hgap]
    exact hspaces

/-- The induction is on the length of what remains: a round takes a part that is not blank, since
what remains begins with no white space. -/
theorem tightSlices_chunkTextLoop (text : Units)
    (pos : ℕ) (hpos : pos ≤ text.length) : TightSlices text limit pos
      (chunkTextLoop resolve limit (trimStartUnits (text.drop pos))) := by
  induction hn : text.length - pos using Nat.strong_induction_on generalizing pos with
  | _ n ih =>
    have hskip := skipSpaces_le hpos
    have hge : pos ≤ skipSpaces text pos := Nat.le_add_right _ _
    have hfirst := trimStartUnits_eq_nil_or (text.drop pos)
    unfold chunkTextLoop
    split
    · next hmore =>
      dsimp only
      rw [← drop_skipSpaces] at hmore hfirst ⊢
      obtain ⟨stop, hle, hstop, hbound, hround, hgap⟩ := chunkTextRound_drop resolve limit hmore
      have hpositive := breakIndex_pos resolve limit ((text.drop (skipSpaces text pos)).take limit)
      have hlimit := breakIndex_le resolve limit ((text.drop (skipSpaces text pos)).take limit)
      have hlt : skipSpaces text pos < stop := by
        by_contra hge'
        have hstart : stop = skipSpaces text pos := by omega
        rcases hfirst with hnil | ⟨unit, rest, hcons, hunit⟩
        · rw [hnil] at hmore
          exact absurd hmore (Nat.not_lt_zero _)
        · obtain ⟨b, hb⟩ := Nat.exists_eq_add_of_lt hpositive
          have hspace := hgap unit (by
            rw [hstart, unitsSlice, drop_take, Nat.add_sub_cancel_left, hb, hcons]
            exact mem_cons_self)
          rw [hunit] at hspace
          exact nomatch hspace
      rw [hround]
      have hne : unitsSlice text (skipSpaces text pos) stop ≠ [] := by
        intro hnil
        have hlen := congrArg List.length hnil
        rw [unitsSlice, length_drop, length_take, length_nil] at hlen
        omega
      rw [if_neg hne]
      exact .slice hlt hstop (by omega) (ih (text.length - stop) (by omega) stop hstop rfl)
    · next hlast =>
      rw [← drop_skipSpaces] at hlast hfirst ⊢
      have hlen : (text.drop (skipSpaces text pos)).length = text.length - skipSpaces text pos :=
        length_drop
      split
      · next hnil =>
        refine .done fun unit hmem => ?_
        rw [drop_skipSpaces] at hnil
        unfold trimStartUnits at hnil
        exact dropWhile_eq_nil_iff.mp hnil unit hmem
      · next hne =>
        have hlt : skipSpaces text pos < text.length := by
          by_contra hge'
          exact hne (drop_of_length_le (by omega))
        have hslice : text.drop (skipSpaces text pos) =
            unitsSlice text (skipSpaces text pos) text.length := by
          rw [unitsSlice, take_length]
        rw [hslice]
        refine .slice hlt le_rfl (by omega) (.done fun unit hmem => ?_)
        rw [drop_length] at hmem
        exact absurd hmem not_mem_nil

/-! ## Any resolver

`chunkTextByBreakResolver` once more, for a resolver that may return any number: `slice` drops the
fraction of an index, and no unit stands at an index with a fraction. -/

section

variable (resolve : Units → JsNumber) (limit : ℕ+) {text rest : Units}

/-- `breakIdx`. -/
def anyBreakIndex (window : Units) : ℚ :=
  match resolve window with
  | .finite candidateBreak =>
    if 0 < candidateBreak ∧ candidateBreak ≤ (limit : ℕ) then candidateBreak else (limit : ℕ)
  | _ => (limit : ℕ)

variable (remaining : Units)

/-- What remains after a round of the loop. -/
def anyRemaining : Units :=
  let breakIdx := anyBreakIndex resolve limit (remaining.take limit)
  let brokeOnSeparator := breakIdx.isInt && (remaining[⌊breakIdx⌋₊]?).any isSpaceUnit
  let nextStart := min remaining.length (⌊breakIdx⌋₊ + if brokeOnSeparator then 1 else 0)
  trimStartUnits (remaining.drop nextStart)

def anyChunk : Units :=
  trimEndUnits (remaining.take ⌊anyBreakIndex resolve limit (remaining.take limit)⌋₊)

/-- The chunks, if so many rounds are enough. -/
def chunkTextByAnyBreak : ℕ → Units → Option (List Units)
  | 0, _ => none
  | fuel + 1, remaining =>
    if limit < remaining.length then
      (chunkTextByAnyBreak fuel (anyRemaining resolve limit remaining)).map fun chunks =>
        if anyChunk resolve limit remaining = [] then chunks
        else anyChunk resolve limit remaining :: chunks
    else if remaining = [] then some []
    else some [remaining]

def chunkTextByAnyBreakResolver (fuel : ℕ) (text : Units) (limit : ℤ) : Option (List Units) :=
  if text = [] then some []
  else if h : limit ≤ 0 then some [text]
  else if (text.length : ℤ) ≤ limit then some [text]
  else chunkTextByAnyBreak resolve ⟨limit.toNat, by omega⟩ fuel text

/-- Chunks of a text that conserve what is not white space. -/
structure Conserves (limit : ℕ) (text : Units) (chunks : List Units) : Prop where
  bounded : ∀ chunk ∈ chunks, chunk ≠ [] ∧ chunk.length ≤ limit
  kept : chunks.flatten.filter (!isSpaceUnit ·) = text.filter (!isSpaceUnit ·)

/-- The resolver breaks a text that begins with no white space in front of its first unit. -/
def Stalls : Prop :=
  limit < remaining.length ∧ anyBreakIndex resolve limit (remaining.take limit) < 1 ∧
    trimStartUnits remaining = remaining

/-- What the loop comes to. -/
inductive Remains (text : Units) : Units → Prop where
  | start : Remains text text
  | round {rest : Units} : Remains text rest → limit < rest.length →
      Remains text (anyRemaining resolve limit rest)

theorem filter_trimStartUnits (text : Units) :
    (trimStartUnits text).filter (!isSpaceUnit ·) = text.filter (!isSpaceUnit ·) := by
  have hsplit : text.takeWhile isSpaceUnit ++ trimStartUnits text = text :=
    takeWhile_append_dropWhile
  have hnone : (text.takeWhile isSpaceUnit).filter (!isSpaceUnit ·) = [] := by
    rw [filter_eq_nil_iff]
    intro unit hmem
    simp [mem_takeWhile_imp hmem]
  conv_rhs => rw [← hsplit, filter_append, hnone, nil_append]

theorem filter_trimEndUnits (text : Units) :
    (trimEndUnits text).filter (!isSpaceUnit ·) = text.filter (!isSpaceUnit ·) := by
  obtain ⟨spaces, hsplit, hspaces⟩ := trimEndUnits_append text
  have hnone : spaces.filter (!isSpaceUnit ·) = [] := by
    rw [filter_eq_nil_iff]
    intro unit hmem
    simp [hspaces unit hmem]
  conv_rhs => rw [hsplit, filter_append, hnone, append_nil]

theorem anyBreakIndex_bounds (window : Units) :
    0 < anyBreakIndex resolve limit window ∧ anyBreakIndex resolve limit window ≤ (limit : ℕ) := by
  have hlimit : (0 : ℚ) < (limit : ℕ) := Nat.cast_pos.mpr limit.pos
  unfold anyBreakIndex
  split
  · split_ifs with h
    · exact h
    · exact ⟨hlimit, le_rfl⟩
  · exact ⟨hlimit, le_rfl⟩

/-- A round keeps what is not white space, in its chunk or in what remains. -/
theorem filter_round :
    (anyChunk resolve limit remaining ++ anyRemaining resolve limit remaining).filter
      (!isSpaceUnit ·) = remaining.filter (!isSpaceUnit ·) := by
  unfold anyChunk anyRemaining
  dsimp only
  generalize anyBreakIndex resolve limit (remaining.take limit) = breakIdx
  rw [filter_append, filter_trimEndUnits, filter_trimStartUnits]
  conv_rhs => rw [← take_append_drop ⌊breakIdx⌋₊ remaining, filter_append]
  congr 1
  split_ifs with hbroke
  · rw [Bool.and_eq_true] at hbroke
    cases hunit : remaining[⌊breakIdx⌋₊]? with
    | none =>
      rw [hunit] at hbroke
      exact nomatch hbroke.2
    | some unit =>
      obtain ⟨hlt, heq⟩ := List.getElem?_eq_some_iff.mp hunit
      have hspace : isSpaceUnit remaining[⌊breakIdx⌋₊] = true := by
        have hany := hbroke.2
        rw [hunit] at hany
        exact heq ▸ hany
      rw [min_eq_right (by omega), drop_eq_getElem_cons hlt, filter_cons_of_neg (by simp [hspace])]
  · rw [Nat.add_zero]
    rcases le_total ⌊breakIdx⌋₊ remaining.length with hle | hge
    · rw [min_eq_right hle]
    · rw [min_eq_left hge, drop_of_length_le le_rfl, drop_of_length_le hge]

/-- A round that does not stall shortens the text. -/
theorem length_anyRemaining (hlong : limit < rest.length) (h : ¬ Stalls resolve limit rest) :
    (anyRemaining resolve limit rest).length < rest.length := by
  have hsuffix (text : Units) : trimStartUnits text <:+ text := dropWhile_suffix _
  have hlength : 0 < rest.length := lt_trans limit.pos hlong
  unfold anyRemaining
  dsimp only
  split_ifs with hbroke
  · have hle := (hsuffix (rest.drop (min rest.length
      (⌊anyBreakIndex resolve limit (rest.take limit)⌋₊ + 1)))).length_le
    rw [length_drop] at hle
    omega
  · rw [Nat.add_zero]
    rcases Nat.eq_zero_or_pos ⌊anyBreakIndex resolve limit (rest.take limit)⌋₊ with hzero | hpos
    · rw [hzero, min_eq_right (Nat.zero_le _), drop_zero]
      refine lt_of_le_of_ne (hsuffix rest).length_le fun heq => ?_
      exact h ⟨hlong, Nat.floor_eq_zero.mp hzero, (hsuffix rest).eq_of_length heq⟩
    · have hle := (hsuffix (rest.drop (min rest.length
        ⌊anyBreakIndex resolve limit (rest.take limit)⌋₊))).length_le
      rw [length_drop] at hle
      omega

/-- A round that stalls leaves the text as it is. -/
theorem anyRemaining_of_stalls (h : Stalls resolve limit rest) :
    anyRemaining resolve limit rest = rest := by
  obtain ⟨hlong, hone, htrim⟩ := h
  have hzero : ⌊anyBreakIndex resolve limit (rest.take limit)⌋₊ = 0 := Nat.floor_eq_zero.mpr hone
  have hfirst : (rest[0]?).any isSpaceUnit = false := by
    rcases trimStartUnits_eq_nil_or rest with hnil | ⟨unit, tail, hcons, hunit⟩
    · rw [← htrim, hnil] at hlong
      exact absurd hlong (Nat.not_lt_zero _)
    · rw [← htrim, hcons]
      exact hunit
  unfold anyRemaining
  dsimp only
  rw [hzero, hfirst, Bool.and_false, if_neg Bool.false_ne_true, Nat.add_zero,
    min_eq_right (Nat.zero_le _), drop_zero, htrim]

theorem chunkTextByAnyBreak_eq_none (hlong : limit < rest.length)
    (h : ∀ fuel, chunkTextByAnyBreak resolve limit fuel (anyRemaining resolve limit rest) = none)
    (fuel : ℕ) : chunkTextByAnyBreak resolve limit fuel rest = none := by
  cases fuel with
  | zero => rfl
  | succ fuel => rw [chunkTextByAnyBreak, if_pos hlong, h fuel, Option.map_none]

/-- Where a round stalls, the loop does not end. -/
theorem chunkTextByAnyBreak_of_stalls (h : Stalls resolve limit rest) (fuel : ℕ) :
    chunkTextByAnyBreak resolve limit fuel rest = none := by
  induction fuel with
  | zero => rfl
  | succ fuel ih =>
    rw [chunkTextByAnyBreak, if_pos h.1, anyRemaining_of_stalls resolve limit h, ih, Option.map_none]

variable (text)

/-- The induction is on the length of what remains, which every round shortens. -/
theorem exists_conserves
    (h : ∀ rest, Remains resolve limit text rest → ¬ Stalls resolve limit rest) (rest : Units)
    (hrest : Remains resolve limit text rest) :
    ∃ chunks, (∀ fuel > rest.length, chunkTextByAnyBreak resolve limit fuel rest = some chunks) ∧
      Conserves limit rest chunks := by
  induction hn : rest.length using Nat.strong_induction_on generalizing rest with
  | _ n ih =>
    by_cases hlong : limit < rest.length
    · have hshorter := length_anyRemaining resolve limit hlong (h rest hrest)
      obtain ⟨chunks, hruns, hchunks⟩ := ih _ (hn ▸ hshorter) _ (hrest.round hlong) rfl
      have hbounds := anyBreakIndex_bounds resolve limit (rest.take limit)
      have hfloor : ⌊anyBreakIndex resolve limit (rest.take limit)⌋₊ ≤ limit :=
        Nat.floor_le_of_le hbounds.2
      have hkept := filter_round resolve limit rest
      rw [filter_append, ← hchunks.kept, ← filter_append] at hkept
      refine ⟨if anyChunk resolve limit rest = [] then chunks
        else anyChunk resolve limit rest :: chunks, fun fuel hfuel => ?_, ?_, ?_⟩
      · obtain ⟨less, rfl⟩ := Nat.exists_eq_add_of_lt hfuel
        rw [chunkTextByAnyBreak, if_pos hlong, hruns _ (by omega), Option.map_some]
      · intro chunk hmem
        split_ifs at hmem with hnil
        · exact hchunks.bounded chunk hmem
        · rcases mem_cons.mp hmem with rfl | hmem
          · have hle := ( rdropWhile_prefix isSpaceUnit (l := rest.take
              ⌊anyBreakIndex resolve limit (rest.take limit)⌋₊)).length_le
            rw [length_take] at hle
            refine ⟨hnil, ?_⟩
            unfold anyChunk trimEndUnits
            omega
          · exact hchunks.bounded chunk hmem
      · split_ifs with hnil
        · rw [hnil, nil_append] at hkept
          exact hkept
        · exact hkept
    · refine ⟨if rest = [] then [] else [rest], fun fuel hfuel => ?_, fun chunk hmem => ?_, ?_⟩
      · obtain ⟨less, rfl⟩ := Nat.exists_eq_add_of_lt hfuel
        rw [chunkTextByAnyBreak, if_neg hlong]
        split_ifs <;> rfl
      · split_ifs at hmem with hnil
        · exact nomatch hmem
        · rw [mem_singleton.mp hmem]
          exact ⟨hnil, not_lt.mp hlong⟩
      · split_ifs with hnil
        · rw [hnil]
          rfl
        · simp

/-- The early returns are what the loop gives. -/
theorem chunkTextByAnyBreakResolver_eq (fuel : ℕ) :
    chunkTextByAnyBreakResolver resolve (fuel + 1) text (limit : ℕ) =
      chunkTextByAnyBreak resolve limit (fuel + 1) text := by
  have hpos := limit.pos
  have hlimit : (⟨((limit : ℕ) : ℤ).toNat, by omega⟩ : ℕ+) = limit := Subtype.ext (Int.toNat_natCast _)
  unfold chunkTextByAnyBreakResolver
  rw [dif_neg (by omega), hlimit]
  by_cases hlong : limit < text.length
  · rw [if_neg (ne_nil_of_length_pos (by omega)), if_neg (by omega)]
  · have hle : (text.length : ℤ) ≤ (limit : ℕ) := by omega
    rw [chunkTextByAnyBreak, if_neg hlong, if_pos hle]

/-- Chunks are returned, and conserve the text, exactly if no round stalls. -/
theorem chunkTextByAnyBreakResolver_conserves_iff (limit : ℕ+)
    (resolve : Units → JsNumber) : (∃ chunks, (∃ enough, ∀ fuel ≥ enough,
        chunkTextByAnyBreakResolver resolve fuel text (limit : ℕ) = some chunks) ∧
      Conserves limit text chunks) ↔
      ∀ rest, Remains resolve limit text rest → ¬ Stalls resolve limit rest := by
  constructor
  · rintro ⟨chunks, ⟨enough, hruns⟩, -⟩ rest hrest hstalls
    have hnone : ∀ fuel, chunkTextByAnyBreak resolve limit fuel text = none := by
      have hlast := chunkTextByAnyBreak_of_stalls resolve limit hstalls
      clear hstalls
      induction hrest with
      | start => exact hlast
      | round _ hlong ih => exact ih (chunkTextByAnyBreak_eq_none resolve limit hlong hlast)
    have hsome := hruns (enough + 1) (Nat.le_succ _)
    rw [chunkTextByAnyBreakResolver_eq, hnone] at hsome
    exact nomatch hsome
  · intro h
    obtain ⟨chunks, hruns, hchunks⟩ := exists_conserves resolve limit text h text .start
    refine ⟨chunks, ⟨text.length + 1, fun fuel hfuel => ?_⟩, hchunks⟩
    obtain ⟨less, rfl⟩ := Nat.exists_eq_add_of_le' hfuel
    rw [← Nat.add_assoc, chunkTextByAnyBreakResolver_eq]
    exact hruns _ (by omega)

variable {text}

/-- A resolver that answers one half. -/
theorem exists_not_conserves : ¬ ∃ chunks, (∃ enough, ∀ fuel ≥ enough,
    chunkTextByAnyBreakResolver (fun _ => .finite (1 / 2)) fuel (units "ab") 1 = some chunks) ∧
      Conserves 1 (units "ab") chunks := by
  have hstalls : Stalls (fun _ => .finite (1 / 2)) 1 (units "ab") := by
    refine ⟨by decide, ?_, by decide⟩
    norm_num [anyBreakIndex]
  rintro ⟨chunks, ⟨enough, hruns⟩, -⟩
  have hsome := hruns (enough + 1) (Nat.le_succ _)
  have hnone := chunkTextByAnyBreak_of_stalls _ _ hstalls (enough + 1)
  rw [← chunkTextByAnyBreakResolver_eq] at hnone
  rw [show chunkTextByAnyBreakResolver (fun _ => .finite (1 / 2)) (enough + 1) (units "ab") 1 = none
    from hnone] at hsome
  exact nomatch hsome

end

end OpenClaw
