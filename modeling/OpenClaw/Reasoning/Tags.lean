import Mathlib.Data.List.Sort
import OpenClaw.Lib.Scan
import OpenClaw.Text.Basic

/-!
# Stripping reasoning tags

`stripReasoningTagsFromText` of `reasoning-tags.ts`.
-/

namespace OpenClaw

/-! ## Code regions of a text

`code-regions.ts`. The regular expressions are matchers that say how much they take. -/

structure CodeRegion where
  start : ℕ
  stop : ℕ
deriving DecidableEq

variable (text : Str)

/-- The fence that the text begins with. -/
def fence? : Option Str :=
  if startsWith text "```".toList then some "```".toList
  else if startsWith text "~~~".toList then some "~~~".toList
  else none

/-- `[\s\S]*?(?:\n\2|$)`: the length up to the end of the closing fence, or of the text, and
whether there is a closing fence. -/
def fenceBody (fence : Str) : Str → ℕ × Bool
  | [] => (0, false)
  | c :: rest =>
    if startsWith (c :: rest) ('\n' :: fence) then (fence.length + 1, true)
    else ((fenceBody fence rest).1 + 1, (fenceBody fence rest).2)

/-- `(```|~~~)[^\n]*\n` and the body. -/
def fencedBlock? : Option (ℕ × Bool) :=
  match fence? text with
  | none => none
  | some fence =>
    match (text.drop fence.length).dropWhile (· ≠ '\n') with
    | [] => none
    | newline :: body =>
      some (text.length - (newline :: body).length + 1 + (fenceBody fence body).1,
        (fenceBody fence body).2)

/-- `fencedRe` at a position, with the length of its first group. -/
def fencedRe (pos : ℕ) (text : Str) : Option (ℕ × ℕ × Bool) :=
  match if pos = 0 then fencedBlock? text else none with
  | some (length, closed) => some (length, 0, closed)
  | none =>
    match text with
    | '\n' :: rest => (fencedBlock? rest).map fun block => (block.1 + 1, 1, block.2)
    | _ => none

/-- `inlineRe`: a run of backticks, other characters, and another run. -/
def inlineRe (_ : ℕ) (text : Str) : Option (ℕ × Unit) :=
  let afterRun := text.dropWhile (· = '`')
  let afterCode := afterRun.dropWhile (· ≠ '`')
  let afterSpan := afterCode.dropWhile (· = '`')
  if afterRun.length < text.length ∧ afterCode.length < afterRun.length ∧
      afterSpan.length < afterCode.length then
    some (text.length - afterSpan.length, ())
  else none

def fencedRegions : List CodeRegion :=
  (Scan.matchAll fencedRe text).map fun found =>
    ⟨found.start + found.value.1, found.start + found.length⟩

def findCodeRegions : List CodeRegion :=
  ((Scan.matchAll inlineRe text).foldl (fun regions found =>
    let start := found.start
    let stop := found.start + found.length
    if regions.any fun r => r.start ≤ start && stop ≤ r.stop then regions
    else regions ++ [⟨start, stop⟩]) (fencedRegions text)).insertionSort (·.start ≤ ·.start)

def isInsideCode (pos : ℕ) (regions : List CodeRegion) : Bool :=
  regions.any fun r => r.start ≤ pos && pos < r.stop

/-! ## Stripping reasoning tags -/

inductive ReasoningTagMode where
  | strict | preserve
deriving DecidableEq

inductive ReasoningTagTrim where
  | none | start | both
deriving DecidableEq

/-! ## Tags -/

def isWordChar (c : Char) : Bool := c.isAlphanum || c = '_'

/-- The rest behind a name that is not the beginning of a longer word, letter case left aside. -/
def stripName (text name : Str) : Option Str :=
  if (text.take name.length).map Char.toLower = name ∧
      ((text.drop name.length).head?.map isWordChar).getD false = false then
    some (text.drop name.length)
  else none

def thinkingNames : List Str :=
  ["think".toList, "thinking".toList, "thought".toList, "antml:think".toList,
    "antml:thinking".toList, "antml:thought".toList, "antthinking".toList]

def finalNames : List Str := ["final".toList]

/-- `(\/?)\s*` -/
def skipSlash : Str → Bool × Str
  | '/' :: rest => (true, rest.dropWhile isSpace)
  | text => (false, text.dropWhile isSpace)

/-- `<\s*(\/?)\s*`, a name and `\b`: whether the tag closes, and the rest. -/
def tagHead (names : List Str) (text : Str) : Option (Bool × Str) :=
  match text with
  | '<' :: rest =>
    let (isClose, rest) := skipSlash (rest.dropWhile isSpace)
    (names.findSome? (stripName rest)).map fun rest => (isClose, rest)
  | _ => none

/-- `[^<>]*>` -/
def tagEnd : Option Str :=
  match text.dropWhile fun c => c ≠ '<' && c ≠ '>' with
  | '>' :: rest => some rest
  | _ => none

/-- A whole tag. -/
def tagRe (names : List Str) (_ : ℕ) (text : Str) : Option (ℕ × Bool) :=
  (tagHead names text).bind fun head =>
    (tagEnd head.2).map fun rest => (text.length - rest.length, head.1)

/-- `QUICK_TAG_RE.test(text)` -/
def quickTagTest : Bool :=
  text.tails.any fun rest => (tagHead (thinkingNames ++ finalNames) rest).isSome

/-! ## Stripping -/

def applyTrim (value : Str) : ReasoningTagTrim → Str
  | .none => value
  | .start => trimStart value
  | .both => trim value

def hasOrphanReasoningCloseBoundary (before after : Str) : Bool :=
  0 < (trim before).length && 0 < (trim after).length

/-- `text.slice(start, end)` -/
def sliceText (start stop : ℕ) : Str := (text.take stop).drop start

/-- `text` without the tags that are not in code, the last one first. -/
def removeFinalTags : Str :=
  let regions := findCodeRegions text
  (Scan.matchAll (tagRe finalNames) text).foldr (fun found cleaned =>
    if isInsideCode found.start regions then cleaned
    else cleaned.take found.start ++ cleaned.drop (found.start + found.length)) text

structure ThinkingScan where
  result : Str
  lastIndex : ℕ
  thinkingDepth : ℕ
  firstUnclosedContentIndex : Option ℕ

def ThinkingScan.init : ThinkingScan := ⟨[], 0, 0, none⟩

/-- The body of the loop. -/
def thinkingStep (cleaned : Str) (codeRegions : List CodeRegion) (scan : ThinkingScan)
    (found : Scan.Match Bool) : ThinkingScan :=
  let idx := found.start
  let isClose := found.value
  if isInsideCode idx codeRegions then scan
  else
    let afterIndex := idx + found.length
    if scan.thinkingDepth = 0 then
      let before := sliceText cleaned scan.lastIndex idx
      if isClose then
        { scan with
          result :=
            if hasOrphanReasoningCloseBoundary before (cleaned.drop afterIndex) then []
            else scan.result ++ before
          lastIndex := afterIndex }
      else ⟨scan.result ++ before, afterIndex, 1, some afterIndex⟩
    else if isClose then
      { scan with
        lastIndex := afterIndex
        thinkingDepth := scan.thinkingDepth - 1
        firstUnclosedContentIndex :=
          if scan.thinkingDepth - 1 = 0 then none else scan.firstUnclosedContentIndex }
    else
      { scan with
        lastIndex := afterIndex
        thinkingDepth := scan.thinkingDepth + 1 }

variable (mode : ReasoningTagMode) (trimMode : ReasoningTagTrim)

/-- What follows the loop. -/
def finishThinking (cleaned : Str) (scan : ThinkingScan) : Str :=
  let result :=
    if scan.thinkingDepth = 0 ∨ mode = .preserve then
      scan.result ++ cleaned.drop scan.lastIndex
    else scan.result
  let trimmedResult := applyTrim result trimMode
  match scan.firstUnclosedContentIndex with
  | some index =>
    if mode = .strict ∧ 0 < scan.thinkingDepth ∧ trimmedResult = [] ∧ trim cleaned ≠ [] then
      applyTrim (cleaned.drop index) trimMode
    else trimmedResult
  | none => trimmedResult

def stripReasoningTagsFromText : Str :=
  if text = [] then text
  else if quickTagTest text = false then text
  else
    let cleaned := removeFinalTags text
    finishThinking mode trimMode cleaned
      ((Scan.matchAll (tagRe thinkingNames) cleaned).foldl
        (thinkingStep cleaned (findCodeRegions cleaned)) .init)

end OpenClaw
