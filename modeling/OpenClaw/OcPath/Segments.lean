import OpenClaw.Lib.TopLevel
import OpenClaw.Text.Basic

/-!
# Segments of a path

The lower half of `oc-path.ts`: how a slot of an `oc://` path is split, quoted and checked. An
error is known by its code.
-/

namespace OpenClaw.Oc

/-- The codes of an `OcPathError`, and the `OcEmitSentinelError`. -/
inductive PathError where
  | tooLong | missingScheme | controlChar | empty | emptySegment | tooDeep | emptySubSegment
  | unquotable | reservedChar | whitespace | malformedPredicate | malformedUnion | unbalanced
  | absoluteFile | parentTraversal | fileRequired | nesting | emitSentinel
deriving DecidableEq

def maxPathLength : ℕ := 4096
def maxSubSegmentsPerSlot : ℕ := 64

/-! ## Scanning -/

/-- What a scan knows at a position. -/
structure ScanState where
  depthBracket : ℕ
  depthBrace : ℕ
  inQuote : Bool
deriving DecidableEq

variable (c : Char)

/-- One character of `scanBracketAware`, with its `atTop`. -/
def ScanState.next (state : ScanState) (c : Char) : Option (ScanState × Bool) :=
  if state.inQuote then some ({ state with inQuote := c ≠ '"' }, false)
  else if c = '"' then some ({ state with inQuote := true }, false)
  else
    let after : Option ScanState :=
      if c = '[' then some { state with depthBracket := state.depthBracket + 1 }
      else if c = ']' then
        if state.depthBracket = 0 then none
        else some { state with depthBracket := state.depthBracket - 1 }
      else if c = '{' then some { state with depthBrace := state.depthBrace + 1 }
      else if c = '}' then
        if state.depthBrace = 0 then none
        else some { state with depthBrace := state.depthBrace - 1 }
      else some state
    after.map fun state => (state, state.depthBracket = 0 && state.depthBrace = 0)

def scanBracketAware : TopLevel.Scanner Char ScanState := ⟨⟨0, 0, false⟩, ScanState.next⟩

variable (s : Str)

def indexOfTopLevel (c : Char) : Except PathError (Option ℕ) :=
  (TopLevel.indexOf scanBracketAware c s).elim (.error .unbalanced) .ok

def splitRespectingBrackets (delim : Char) : Except PathError (List Str) :=
  (TopLevel.split scanBracketAware delim s).elim (.error .unbalanced) .ok

variable (seg : Str)

def validateBrackets : Except PathError Unit :=
  if TopLevel.finish scanBracketAware scanBracketAware.start seg = some scanBracketAware.start then
    .ok ()
  else .error .unbalanced

/-! ## Characters -/

def hasControlChar : Bool := s.any fun c => c.toNat ≤ 0x1f || c.toNat = 0x7f

def isReservedChar : Bool := c = '?' || c = '&' || c = '%'

def isBracketChar : Bool := c = '[' || c = ']' || c = '{' || c = '}'

/-- The class of `quoteSeg`. -/
def isStructuralChar : Bool :=
  c = '/' || c = '.' || isBracketChar c || isReservedChar c || isSpace c

/-! ## Quotes -/

def isQuotedSeg : Bool :=
  2 ≤ seg.length && seg.head? = some '"' && seg.getLast? = some '"'

/-- `seg.slice(1, -1)`. -/
def inner : Str := (seg.drop 1).dropLast

def unquoteSeg : Str := if isQuotedSeg seg then inner seg else seg

variable (value : Str)

def quoted : Str := '"' :: value ++ ['"']

def isUnquotable : Bool := value.contains '"' || value.contains '\\'

def quoteSeg : Except PathError Str :=
  if value = [] then .ok (quoted [])
  else if isUnquotable value then .error .unquotable
  else .ok (if value.any isStructuralChar then quoted value else value)

/-! ## Predicates and unions -/

inductive PredicateOp where
  | eq | ne | lt | le | gt | ge
deriving DecidableEq

def PredicateOp.text : PredicateOp → Str
  | .eq => ['=']
  | .ne => ['!', '=']
  | .lt => ['<']
  | .le => ['<', '=']
  | .gt => ['>']
  | .ge => ['>', '=']

def predicateOps : List PredicateOp := [.ne, .le, .ge, .lt, .gt, .eq]

structure PredicateSpec where
  key : Str
  op : PredicateOp
  value : Str
deriving DecidableEq

/-- The loop over the positions: the first operator with something behind it. -/
def parsePredicateFrom (key : Str) : Str → Option PredicateSpec
  | [] => none
  | c :: rest =>
    let op? := predicateOps.find? fun op =>
      op.text.isPrefixOf (c :: rest) && op.text.length < (c :: rest).length
    match op? with
    | some op => some ⟨key, op, (c :: rest).drop op.text.length⟩
    | none => parsePredicateFrom (key ++ [c]) rest

def isBracketSeg : Bool := seg.head? = some '[' && seg.getLast? = some ']'

def isBraceSeg : Bool := seg.head? = some '{' && seg.getLast? = some '}'

def parsePredicateSeg : Option PredicateSpec :=
  if seg.length < 4 || !isBracketSeg seg then none
  else parsePredicateFrom ((inner seg).take 1) ((inner seg).drop 1)

/-! ## Checking a segment -/

/-- `s.includes(part)`. -/
def includes (s part : Str) : Bool := s.tails.any part.isPrefixOf

variable (sub : Str)

def validateBracketSeg : Except PathError Unit :=
  if inner sub = [] then .error .malformedPredicate
  else if predicateOps.any fun op => includes (inner sub) op.text then
    match parsePredicateSeg sub with
    | none => .error .malformedPredicate
    | some parsed =>
      if parsed.key = [] ∨ parsed.value = [] then .error .malformedPredicate else .ok ()
  else .ok ()

def validateBraceSeg : Except PathError Unit :=
  if inner sub = [] then .error .malformedUnion
  else if ((inner sub).splitOn ',').any (· = []) then .error .malformedUnion
  else .ok ()

def validateSubSegment : Except PathError Unit :=
  let startsBracket : Bool := sub.head? = some '['
  let endsBracket : Bool := sub.getLast? = some ']'
  let startsBrace : Bool := sub.head? = some '{'
  let endsBrace : Bool := sub.getLast? = some '}'
  if sub = [] then .error .emptySubSegment
  else if hasControlChar sub then .error .controlChar
  else if isQuotedSeg sub then
    if isUnquotable (inner sub) then .error .unquotable else .ok ()
  else if !startsBracket && !startsBrace && sub.any isReservedChar then .error .reservedChar
  else if !startsBracket && !startsBrace && (sub ≠ trim sub || sub.any isSpace) then
    .error .whitespace
  else if startsBracket ≠ endsBracket then .error .malformedPredicate
  else do
    if startsBracket && endsBracket then validateBracketSeg sub else .ok ()
    if startsBrace ≠ endsBrace then .error .malformedUnion
    else if startsBrace && endsBrace then validateBraceSeg sub
    else .ok ()

end OpenClaw.Oc
