import OpenClaw.Reasoning.Tags

/-!
# Texts with thinking blocks

A text of visible parts with a thinking block between each two of them. What the parts say is
arbitrary, except that they contain no tags of their own.
-/

namespace OpenClaw

open List

/-! ## Tags of a text that goes on with a tag -/

/-- Nothing follows, or an opening bracket. -/
def StartsTag (rest : Str) : Prop := rest = [] ∨ ∃ behind, rest = '<' :: behind

variable {rest : Str} {names : List Str}

theorem dropWhile_append_of_startsTag {p : Char → Bool} (hp : p '<' = false)
    (hrest : StartsTag rest) (text : Str) :
    (text ++ rest).dropWhile p = text.dropWhile p ++ rest := by
  induction text with
  | nil =>
    rcases hrest with rfl | ⟨behind, rfl⟩
    · rfl
    · show List.dropWhile p ('<' :: behind) = '<' :: behind
      rw [dropWhile_cons, hp]
      rfl
  | cons c text ih =>
    rw [cons_append, dropWhile_cons, dropWhile_cons]
    by_cases hc : p c = true
    · rw [if_pos hc, if_pos hc, ih]
    · rw [if_neg hc, if_neg hc]
      rfl

theorem skipSlash_append (hrest : StartsTag rest) (text : Str) :
    skipSlash (text ++ rest) = ((skipSlash text).1, (skipSlash text).2 ++ rest) := by
  have hdrop := dropWhile_append_of_startsTag (p := isSpace) (by decide) hrest
  match text with
  | [] =>
    rcases hrest with rfl | ⟨behind, rfl⟩
    · rfl
    · exact congrArg (Prod.mk false) (hdrop [])
  | c :: text =>
    by_cases hc : c = '/'
    · subst hc
      exact congrArg (Prod.mk true) (hdrop text)
    · have hskip : ∀ more, skipSlash (c :: more) = (false, (c :: more).dropWhile isSpace) := by
        intro more
        unfold skipSlash
        split
        · next heq => exact absurd (cons_eq_cons.mp heq).1 hc
        · rfl
      rw [cons_append, hskip, hskip, ← cons_append, hdrop]

/-- A name without an opening bracket is found before the bracket, or not at all. -/
theorem stripName_append {name : Str} (hname : '<' ∉ name) (hrest : StartsTag rest) (text : Str) :
    stripName (text ++ rest) name = (stripName text name).map (· ++ rest) := by
  unfold stripName
  by_cases hlen : name.length ≤ text.length
  · have htake : (text ++ rest).take name.length = text.take name.length :=
      take_append_of_le_length hlen
    have hdrop : (text ++ rest).drop name.length = text.drop name.length ++ rest :=
      drop_append_of_le_length hlen
    have hhead : ((text.drop name.length ++ rest).head?.map isWordChar).getD false =
        ((text.drop name.length).head?.map isWordChar).getD false := by
      cases text.drop name.length with
      | nil =>
        rcases hrest with rfl | ⟨behind, rfl⟩
        · rfl
        · rfl
      | cons c more => rfl
    rw [htake, hdrop, hhead]
    split
    · rfl
    · rfl
  · have hshort : (text.take name.length).map Char.toLower ≠ name := by
      intro heq
      have hlength := congrArg List.length heq
      rw [length_map, length_take] at hlength
      omega
    have hbracket : ((text ++ rest).take name.length).map Char.toLower ≠ name := by
      intro heq
      rcases hrest with rfl | ⟨behind, rfl⟩
      · rw [append_nil] at heq
        exact hshort heq
      · apply hname
        rw [← heq]
        have hmem : '<' ∈ (text ++ '<' :: behind).take name.length := by
          rw [mem_take_iff_getElem]
          refine ⟨text.length, ?_, ?_⟩
          · rw [length_append, length_cons]
            omega
          · rw [getElem_append_right (le_refl text.length)]
            simp only [Nat.sub_self, getElem_cons_zero]
        exact mem_map_of_mem (f := Char.toLower) hmem
    rw [if_neg fun h => hbracket h.1, if_neg fun h => hshort h.1]
    rfl

theorem findSome?_stripName_append (hnames : ∀ name ∈ names, '<' ∉ name)
    (hrest : StartsTag rest) (text : Str) : names.findSome? (stripName (text ++ rest)) =
      (names.findSome? (stripName text)).map (· ++ rest) := by
  induction names with
  | nil => rfl
  | cons name names ih =>
    have hname := stripName_append (hnames name mem_cons_self) hrest text
    rw [findSome?_cons, findSome?_cons, hname]
    cases stripName text name with
    | some found => rfl
    | none => exact ih fun other hother => hnames other (mem_cons_of_mem name hother)

theorem tagHead_append (hnames : ∀ name ∈ names, '<' ∉ name)
    (hrest : StartsTag rest) (c : Char) (text : Str) : tagHead names (c :: text ++ rest) =
      (tagHead names (c :: text)).map fun head => (head.1, head.2 ++ rest) := by
  by_cases hc : c = '<'
  · subst hc
    have hdrop := dropWhile_append_of_startsTag (p := isSpace) (by decide) hrest text
    show ((names.findSome? (stripName (skipSlash ((text ++ rest).dropWhile isSpace)).2)).map
        fun more => ((skipSlash ((text ++ rest).dropWhile isSpace)).1, more)) =
      ((names.findSome? (stripName (skipSlash (text.dropWhile isSpace)).2)).map
        fun more => ((skipSlash (text.dropWhile isSpace)).1, more)).map _
    rw [hdrop, skipSlash_append hrest, findSome?_stripName_append hnames hrest,
      Option.map_map, Option.map_map]
    rfl
  · have hnone : ∀ more, tagHead names (c :: more) = none := by
      intro more
      unfold tagHead
      split
      · next heq => exact absurd (cons_eq_cons.mp heq).1 hc
      · rfl
    rw [cons_append, hnone, hnone]
    rfl

theorem tagEnd_append (hrest : StartsTag rest) (text : Str) :
    tagEnd (text ++ rest) = (tagEnd text).map (· ++ rest) := by
  unfold tagEnd
  rw [dropWhile_append_of_startsTag (by decide) hrest]
  cases text.dropWhile fun c => c ≠ '<' && c ≠ '>' with
  | nil =>
    rcases hrest with rfl | ⟨behind, rfl⟩
    · rfl
    · rfl
  | cons c more =>
    rw [cons_append]
    split
    · next heq =>
      have hc := (cons_eq_cons.mp heq).1
      have hmore := (cons_eq_cons.mp heq).2
      rw [hc, ← hmore]
      rfl
    · next hother =>
      split
      · next heq =>
        refine absurd ?_ (hother (more ++ rest))
        rw [(cons_eq_cons.mp heq).1]
      · rfl

/-- A tag ends before the next one begins. -/
theorem tagRe_append (hnames : ∀ name ∈ names, '<' ∉ name)
    (hrest : StartsTag rest) (pos : ℕ) {text : Str} (hne : text ≠ []) :
    tagRe names pos (text ++ rest) = tagRe names pos text := by
  cases text with
  | nil => exact absurd rfl hne
  | cons c text =>
    unfold tagRe
    rw [tagHead_append hnames hrest]
    cases tagHead names (c :: text) with
    | none => rfl
    | some head =>
      show (tagEnd (head.2 ++ rest)).map _ = (tagEnd head.2).map _
      rw [tagEnd_append hrest]
      cases tagEnd head.2 with
      | none => rfl
      | some more =>
        have hlength : (c :: text ++ rest).length - (more ++ rest).length =
            (c :: text).length - more.length := by
          rw [length_append, length_append]
          omega
        exact congrArg (fun length => some (length, head.1)) hlength

/-! ## The text -/

/-- A thinking block and the visible part behind it. -/
structure ThinkingBlock where
  hidden : Str
  visible : Str

variable (block : ThinkingBlock)

def ThinkingBlock.text : Str :=
  "<think>".toList ++ (block.hidden ++ ("</think>".toList ++ block.visible))

/-- `v0 <think> h1 </think> v1 … <think> hn </think> vn` -/
def reasoningText (first : Str) (blocks : List ThinkingBlock) : Str :=
  first ++ blocks.flatMap ThinkingBlock.text

/-- `v0 v1 … vn` -/
def visibleText (first : Str) (blocks : List ThinkingBlock) : Str :=
  first ++ blocks.flatMap ThinkingBlock.visible

/-- The tags of the blocks, which begin at a position. -/
def blockTags : ℕ → List ThinkingBlock → List (Scan.Match Bool)
  | _, [] => []
  | pos, block :: blocks =>
    ⟨pos, 7, false⟩ :: ⟨pos + 7 + block.hidden.length, 8, true⟩ ::
      blockTags (pos + block.text.length) blocks

def TagFree (part : Str) : Prop :=
  Scan.matchAll (tagRe thinkingNames) part = [] ∧ Scan.matchAll (tagRe finalNames) part = []

/-- Fences are closed in the part, and so is every span of backticks. -/
def CodeClosed (part : Str) : Prop :=
  (Scan.matchAll fencedRe part).all (·.value.2) = true ∧
    part.zipIdx.all (fun c => c.1 ≠ '`' || isInsideCode c.2 (findCodeRegions part)) = true

instance (part : Str) : Decidable (TagFree part) := inferInstanceAs (Decidable (_ ∧ _))

instance (part : Str) : Decidable (CodeClosed part) := inferInstanceAs (Decidable (_ ∧ _))

/-- The texts in question. -/
structure IsReasoningText (first : Str) (blocks : List ThinkingBlock) : Prop where
  first_tagFree : TagFree first
  hidden_tagFree : ∀ block ∈ blocks, TagFree block.hidden
  visible_tagFree : ∀ block ∈ blocks, TagFree block.visible
  first_closed : CodeClosed first
  visible_closed : ∀ block ∈ blocks, CodeClosed block.visible

theorem ThinkingBlock.text_length :
    block.text.length = 7 + block.hidden.length + 8 + block.visible.length := by
  unfold ThinkingBlock.text
  rw [length_append, length_append, length_append]
  show 7 + (block.hidden.length + (8 + block.visible.length)) = _
  omega

theorem ThinkingBlock.text_append (rest : Str) : block.text ++ rest = "<think>".toList ++
      (block.hidden ++ ("</think>".toList ++ (block.visible ++ rest))) := by
  unfold ThinkingBlock.text
  rw [append_assoc, append_assoc, append_assoc]

theorem startsTag_blocks (blocks : List ThinkingBlock) :
    StartsTag (blocks.flatMap ThinkingBlock.text) := by
  cases blocks with
  | nil => exact Or.inl rfl
  | cons block blocks => exact Or.inr ⟨_, rfl⟩

/-! ## Its tags -/

/-- A part without tags, before a tag or at the end. -/
theorem matchesFrom_of_tagFree (hnames : ∀ name ∈ names, '<' ∉ name)
    {part : Str} (hpart : Scan.matchAll (tagRe names) part = [])
    (hrest : StartsTag rest) (pos : ℕ) : Scan.matchesFrom (tagRe names) pos 0 (part ++ rest) =
      Scan.matchesFrom (tagRe names) (pos + part.length) 0 rest := by
  apply Scan.matchesFrom_append_of_none
  intro at_ front back heq hne
  rw [tagRe_append hnames hrest at_ hne]
  exact Scan.eq_none_of_matchesFrom_eq_nil hpart heq hne

theorem thinkingNames_no_bracket : ∀ name ∈ thinkingNames, '<' ∉ name := by decide

theorem finalNames_no_bracket : ∀ name ∈ finalNames, '<' ∉ name := by decide

variable (pos : ℕ)

/-- The tags of the blocks are thinking tags. -/
theorem tagRe_open (rest : Str) :
    tagRe thinkingNames pos ("<think>".toList ++ rest) = some ("<think>".toList.length, false) := by
  have hhead : tagHead thinkingNames ("<think>".toList ++ rest) = some (false, '>' :: rest) := rfl
  have hend : tagEnd ('>' :: rest) = some rest := rfl
  unfold tagRe
  rw [hhead, Option.bind_some, hend, Option.map_some, length_append, Nat.add_sub_cancel]

theorem tagRe_close (rest : Str) : tagRe thinkingNames pos ("</think>".toList ++ rest) =
      some ("</think>".toList.length, true) := by
  have hhead : tagHead thinkingNames ("</think>".toList ++ rest) = some (true, '>' :: rest) := rfl
  have hend : tagEnd ('>' :: rest) = some rest := rfl
  unfold tagRe
  rw [hhead, Option.bind_some, hend, Option.map_some, length_append, Nat.add_sub_cancel]

theorem openTag_ne_nil : "<think>".toList ≠ [] := by decide

theorem closeTag_ne_nil : "</think>".toList ≠ [] := by decide

theorem startsTag_close (rest : Str) : StartsTag ("</think>".toList ++ rest) :=
  Or.inr ⟨"/think>".toList ++ rest, rfl⟩

/-- They are no final tags. -/
theorem matchesFrom_final_open (rest : Str) :
    Scan.matchesFrom (tagRe finalNames) pos 0 ("<think>".toList ++ rest) =
      Scan.matchesFrom (tagRe finalNames) (pos + 7) 0 rest := rfl

theorem matchesFrom_final_close (rest : Str) :
    Scan.matchesFrom (tagRe finalNames) pos 0 ("</think>".toList ++ rest) =
      Scan.matchesFrom (tagRe finalNames) (pos + 8) 0 rest := rfl

theorem matchesFrom_blocks {blocks : List ThinkingBlock}
    (hhidden : ∀ block ∈ blocks, TagFree block.hidden)
    (hvisible : ∀ block ∈ blocks, TagFree block.visible) (pos : ℕ) :
    Scan.matchesFrom (tagRe thinkingNames) pos 0 (blocks.flatMap ThinkingBlock.text) =
      blockTags pos blocks := by
  induction blocks generalizing pos with
  | nil => rfl
  | cons block blocks ih =>
    have hrest := ih (fun other hother => hhidden other (mem_cons_of_mem block hother))
      (fun other hother => hvisible other (mem_cons_of_mem block hother))
    rw [flatMap_cons, block.text_append, Scan.matchesFrom_of_match openTag_ne_nil (tagRe_open pos _),
      matchesFrom_of_tagFree thinkingNames_no_bracket
        (hhidden block mem_cons_self).1 (startsTag_close _),
      Scan.matchesFrom_of_match closeTag_ne_nil (tagRe_close _ _),
      matchesFrom_of_tagFree thinkingNames_no_bracket
        (hvisible block mem_cons_self).1 (startsTag_blocks blocks), hrest]
    have hpos : pos + "<think>".toList.length + block.hidden.length + "</think>".toList.length +
        block.visible.length = pos + block.text.length := by
      rw [block.text_length]
      show pos + 7 + block.hidden.length + 8 + block.visible.length = _
      omega
    rw [hpos]
    rfl

theorem matchesFrom_final_blocks {blocks : List ThinkingBlock}
    (hhidden : ∀ block ∈ blocks, TagFree block.hidden)
    (hvisible : ∀ block ∈ blocks, TagFree block.visible) (pos : ℕ) :
    Scan.matchesFrom (tagRe finalNames) pos 0 (blocks.flatMap ThinkingBlock.text) = [] := by
  induction blocks generalizing pos with
  | nil => rfl
  | cons block blocks ih =>
    rw [flatMap_cons, block.text_append, matchesFrom_final_open,
      matchesFrom_of_tagFree finalNames_no_bracket
        (hhidden block mem_cons_self).2 (startsTag_close _),
      matchesFrom_final_close,
      matchesFrom_of_tagFree finalNames_no_bracket
        (hvisible block mem_cons_self).2 (startsTag_blocks blocks)]
    exact ih (fun other hother => hhidden other (mem_cons_of_mem block hother))
      (fun other hother => hvisible other (mem_cons_of_mem block hother)) _

section

variable {first : Str} {blocks : List ThinkingBlock}

theorem matchAll_reasoningText (h : IsReasoningText first blocks) :
    Scan.matchAll (tagRe thinkingNames) (reasoningText first blocks) =
      blockTags first.length blocks := by
  unfold Scan.matchAll reasoningText
  rw [matchesFrom_of_tagFree thinkingNames_no_bracket h.first_tagFree.1 (startsTag_blocks blocks),
    matchesFrom_blocks h.hidden_tagFree h.visible_tagFree, Nat.zero_add]

theorem removeFinalTags_reasoningText (h : IsReasoningText first blocks) :
    removeFinalTags (reasoningText first blocks) = reasoningText first blocks := by
  have hnone : Scan.matchAll (tagRe finalNames) (reasoningText first blocks) = [] := by
    unfold Scan.matchAll reasoningText
    rw [matchesFrom_of_tagFree finalNames_no_bracket h.first_tagFree.2 (startsTag_blocks blocks)]
    exact matchesFrom_final_blocks h.hidden_tagFree h.visible_tagFree _
  unfold removeFinalTags
  rw [hnone]
  rfl

/-- A text with a block passes the quick test. -/
theorem quickTagTest_reasoningText (first : Str) (block : ThinkingBlock)
    (blocks : List ThinkingBlock) :
    quickTagTest (reasoningText first (block :: blocks)) = true := by
  unfold quickTagTest
  rw [any_eq_true]
  refine ⟨(block :: blocks).flatMap ThinkingBlock.text, ?_, rfl⟩
  rw [mem_tails]
  exact suffix_append first _

end

end OpenClaw
