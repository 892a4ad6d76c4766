import OpenClaw.OcPath.Segments

/-!
# Paths

`parseOcPath` and `formatOcPath` of `oc-path.ts`.
-/

namespace OpenClaw.Oc

/-- Characters before which and behind which a text can be normalized piece by piece. -/
def isSeparator (c : Char) : Bool := c = '/' || c = '.' || c = '"'

/-- `normalize("NFC")`, with what is known of the form: an ASCII character never joins what is in
front of it, of those that matter here only `=` joins what is behind it, and only with the
overlay U+0338. -/
structure Nfc where
  normalize : Str → Str
  idem : ∀ s, normalize (normalize s) = normalize s
  ascii : ∀ s : Str, (∀ c ∈ s, c.toNat < 128) → normalize s = s
  before_ascii : ∀ (s : Str) (c : Char) (rest : Str), c.toNat < 128 →
    normalize (s ++ c :: rest) = normalize s ++ normalize (c :: rest)
  after_separator : ∀ (c : Char) (rest : Str), isSeparator c →
    normalize (c :: rest) = c :: normalize rest
  after_equals : ∀ rest : Str, normalize rest = rest → rest.head? ≠ some '\u0338' →
    normalize ('=' :: rest) = '=' :: rest
  equals_overlay : ∀ rest : Str, normalize ('=' :: '\u0338' :: rest) ≠ '=' :: '\u0338' :: rest
  part : ∀ s t : Str, normalize (s ++ t) = s ++ t → normalize s = s ∧ normalize t = t

/-- What leaves out the overlays, and all else as it is. -/
def Nfc.withoutOverlays : Nfc where
  normalize := List.filter (· ≠ '\u0338')
  idem := fun s => by
    rw [List.filter_filter]
    simp
  ascii := fun s h => List.filter_eq_self.mpr fun c hc => by
    have hlt := h c hc
    simp only [decide_eq_true_eq]
    rintro rfl
    exact nomatch hlt
  before_ascii := fun s c rest _ => List.filter_append _ _
  after_separator := fun c rest hc => by
    rw [List.filter_cons_of_pos]
    simp only [decide_eq_true_eq]
    rintro rfl
    exact nomatch hc
  after_equals := fun rest hrest _ => by
    rw [List.filter_cons_of_pos (by decide), hrest]
  equals_overlay := fun rest h => by
    have hmem : '\u0338' ∈ List.filter (· ≠ '\u0338') ('=' :: '\u0338' :: rest) := by
      rw [h]
      exact List.mem_cons_of_mem _ List.mem_cons_self
    exact absurd (List.mem_filter.mp hmem).2 (by decide)
  part := fun s t h => by
    rw [List.filter_eq_self] at h
    exact ⟨List.filter_eq_self.mpr fun c hc => h c (List.mem_append_left _ hc),
      List.filter_eq_self.mpr fun c hc => h c (List.mem_append_right _ hc)⟩

structure OcPath where
  file : Str
  sectionSlot : Option Str
  itemSlot : Option Str
  fieldSlot : Option Str
  session : Option Str
deriving DecidableEq

def ocScheme : Str := "oc://".toList

def bom : Char := '\uFEFF'

def redactedSentinel : Str := "__OPENCLAW_REDACTED__".toList

/-! ## The file slot and the session -/

def isDriveLetter (c : Char) : Bool := c.isAlpha

/-- `^[a-zA-Z]:` -/
def startsWithDrive : Str → Bool
  | c :: ':' :: _ => isDriveLetter c
  | _ => false

variable (file : Str)

def validateFileSlot : Except PathError Unit :=
  if startsWith file ['/'] || startsWith file ['\\'] || startsWithDrive file then
    .error .absoluteFile
  else if (file.splitOnP fun c => c = '\\' || c = '/').any (· = "..".toList) then
    .error .parentTraversal
  else if hasControlChar file then .error .controlChar
  else .ok ()

def validateSessionSlot (session : Str) : Except PathError Unit :=
  if hasControlChar session then .error .controlChar
  else if session.any isReservedChar then .error .reservedChar
  else .ok ()

/-- The loop over the pairs of the query. -/
def extractSessionFrom : List Str → Except PathError (Option Str)
  | [] => .ok none
  | pair :: pairs =>
    match afterChar? '=' pair with
    | none => extractSessionFrom pairs
    | some value =>
      if beforeChar '=' pair = "session".toList ∧ value ≠ [] then do
        validateSessionSlot value
        return some value
      else extractSessionFrom pairs

def extractSession (queryPart : Str) : Except PathError (Option Str) :=
  if queryPart = [] then .ok none else extractSessionFrom (queryPart.splitOn '&')

/-! ## Parsing -/

def stripBom (input : Str) : Str := if input.head? = some bom then input.drop 1 else input

def validateSegment (seg : Str) : Except PathError Unit := do
  validateBrackets seg
  let subs ← splitRespectingBrackets seg '.'
  if maxSubSegmentsPerSlot < subs.length then .error .tooDeep
  else subs.forM validateSubSegment

def parseOcPath (nfc : Nfc) (input : Str) : Except PathError OcPath :=
  if maxPathLength < jsLength input then .error .tooLong
  else
    let normalized := nfc.normalize (stripBom input)
    if maxPathLength < jsLength normalized then .error .tooLong
    else if !startsWith normalized ocScheme then .error .missingScheme
    else if hasControlChar normalized then .error .controlChar
    else do
      let afterScheme := normalized.drop ocScheme.length
      let queryIndex ← indexOfTopLevel afterScheme '?'
      let pathPart := queryIndex.elim afterScheme afterScheme.take
      let queryPart := queryIndex.elim [] fun i => afterScheme.drop (i + 1)
      if pathPart = [] then .error .empty
      else do
        let segments ← splitRespectingBrackets pathPart '/'
        if segments.any (· = []) then .error .emptySegment
        else if 4 < segments.length then .error .tooDeep
        else do
          segments.forM validateSegment
          let file := unquoteSeg (segments.headD [])
          validateFileSlot file
          let session ← extractSession queryPart
          return ⟨file, segments[1]?, segments[2]?, segments[3]?, session⟩

/-! ## Formatting -/

def formatSubSegment (sub : Str) : Except PathError Str :=
  if isQuotedSeg sub then .ok sub
  else if isBracketSeg sub then .ok sub
  else if isBraceSeg sub then .ok sub
  else quoteSeg sub

def validateSubForFormat (sub : Str) : Except PathError Unit :=
  if sub = [] then .error .emptySubSegment
  else if hasControlChar sub then .error .controlChar
  else .ok ()

def formatSlot (slot : Str) : Except PathError Str := do
  let subs ← splitRespectingBrackets slot '.'
  subs.forM validateSubForFormat
  let formatted ← subs.mapM formatSubSegment
  return joinWith ['.'] formatted

/-- The class that the file slot is quoted for. -/
def fileNeedsQuote : Bool :=
  file.any fun c => c = '/' || isBracketChar c || isReservedChar c || c = '"' || isSpace c

def formatFile : Except PathError Str :=
  if fileNeedsQuote file then quoteSeg file else .ok file

def appendSlot (out : Str) : Option Str → Except PathError Str
  | none => .ok out
  | some slot => do
    let formatted ← formatSlot slot
    return out ++ '/' :: formatted

def appendSession (out : Str) : Option Str → Except PathError Str
  | none => .ok out
  | some session => do
    validateSessionSlot session
    return out ++ "?session=".toList ++ session

def formatOcPath (path : OcPath) : Except PathError Str :=
  if path.file = [] then .error .fileRequired
  else do
    validateFileSlot path.file
    if path.itemSlot.isSome && path.sectionSlot.isNone then .error .nesting
    else if path.fieldSlot.isSome && path.itemSlot.isNone then .error .nesting
    else do
      let formattedFile ← formatFile path.file
      let out ← appendSlot (ocScheme ++ formattedFile) path.sectionSlot
      let out ← appendSlot out path.itemSlot
      let out ← appendSlot out path.fieldSlot
      let out ← appendSession out path.session
      if maxPathLength < jsLength out then .error .tooLong
      else if includes out redactedSentinel then .error .emitSentinel
      else .ok out

end OpenClaw.Oc
