import OpenClaw.OcPath.Formatted
import OpenClaw.Text.Json

/-!
# JSONC documents

`jsonc/ast.ts`, `jsonc/resolve.ts`, the rendering of `jsonc/emit.ts`, and what `universal.ts` does
with a JSONC document: a path is resolved, and a value is inserted at a path with a marker. A value
that is already there is replaced by `jsonc-parser`, which stays outside.
-/

namespace OpenClaw.Oc

/-! ## Documents -/

structure JsoncEntry (V : Type) where
  key : Str
  value : V
  /-- The line of the key. -/
  line : ℕ

inductive JsoncValue where
  | object (entries : List (JsoncEntry JsoncValue)) (line : Option ℕ)
  | array (items : List JsoncValue) (line : Option ℕ)
  | string (value : Str) (line : Option ℕ)
  /-- A number is given by its text. -/
  | number (value : Str) (line : Option ℕ)
  | boolean (value : Bool) (line : Option ℕ)
  | null (line : Option ℕ)

structure JsoncAst where
  raw : Str
  root : Option JsoncValue

def JsoncValue.line : JsoncValue → Option ℕ
  | .object _ line | .array _ line | .string _ line | .number _ line | .boolean _ line
  | .null line => line

/-- Why a document is not written. -/
inductive SetReason where
  | unresolved | noRoot | notWritable | parseError | typeMismatch | wildcardNotAllowed
deriving DecidableEq

structure SetFailure where
  reason : SetReason
  detail : Option Str
deriving DecidableEq

/-- What a setter answers: another document, or a failure. -/
abbrev SetResult := Except SetFailure JsoncAst

/-- What the functions take from elsewhere. -/
structure JsoncHost where
  /-- `JSON.parse`, with `none` where it throws. -/
  jsonParse : Str → Option Json
  /-- `Number(seg)`, where it is an integer that is not negative. -/
  toIndex : Str → Option ℕ
  /-- No numeral begins with a quote or with a dollar sign. -/
  toIndex_head : ∀ c rest, c = '"' ∨ c = '$' → toIndex (c :: rest) = none
  /-- `setStructuredLeaf`, where the path has no marker. -/
  setStructuredLeaf : JsoncAst → OcPath → Str → Except PathError SetResult

variable (host : JsoncHost)

/-! ## Sub-segments -/

def posLast : Str := "$last".toList

variable (seg : Str)

def isPositionalSeg : Bool := seg = posLast

/-- `resolvePositionalSeg` of the keys of an object. -/
def lastKey (keys : List Str) : Option Str :=
  if isPositionalSeg seg then keys.getLast? else none

/-- `resolvePositionalSeg` of the size of an array. -/
def lastIndex (size : ℕ) : Option Str :=
  if isPositionalSeg seg ∧ size ≠ 0 then some (toString (size - 1)).toList else none

def isUnionSeg : Bool := 2 ≤ seg.length && isBraceSeg seg

def isPredicateSeg : Bool :=
  4 ≤ seg.length && isBracketSeg seg && (inner seg).any fun c => c = '<' || c = '>' || c = '='

def isPatternSub (sub : Str) : Bool :=
  sub = "*".toList || sub = "**".toList || isUnionSeg sub || isPredicateSeg sub

/-- `isPattern` over the slots, up to the first pattern. -/
def isPatternIn : List Str → Except PathError Bool
  | [] => .ok false
  | slot :: slots => do
    let subs ← splitRespectingBrackets slot '.'
    if subs.any isPatternSub then return true else isPatternIn slots

variable (path : OcPath)

def hasWildcard : Except PathError Bool := isPatternIn (pathSlots path)

/-- The sub-segments of all slots, in one list. -/
def concatSegments : Except PathError (List Str) := do
  let subs ← (pathSlots path).mapM (splitRespectingBrackets · '.')
  return subs.flatten

/-! ## Markers -/

inductive InsertionMarker where
  | bare
  | keyed (key : Str)
  | indexed (index : ℕ)
deriving DecidableEq

structure InsertionInfo where
  parentPath : OcPath
  marker : InsertionMarker
deriving DecidableEq

def digitsValue (digits : Str) : ℕ :=
  digits.foldl (fun value c => value * 10 + (c.toNat - '0'.toNat)) 0

/-- The marker of what follows the plus sign. -/
def markerOf (rest : Str) : InsertionMarker :=
  if rest = [] then .bare
  else if rest.all (·.isDigit) then .indexed (digitsValue rest)
  else .keyed rest

/-- The last slot, and the path without it. -/
def splitLastSlot : Option (Str × OcPath) :=
  match path.fieldSlot, path.itemSlot, path.sectionSlot with
  | some slot, _, _ => some (slot, { path with fieldSlot := none })
  | none, some slot, _ => some (slot, { path with itemSlot := none })
  | none, none, some slot => some (slot, { path with sectionSlot := none })
  | none, none, none => none

def detectInsertion : Option InsertionInfo :=
  match splitLastSlot path with
  | none => none
  | some (last, parentPath) =>
    match last with
    | '+' :: rest => some ⟨parentPath, markerOf rest⟩
    | _ => none

/-! ## Resolving -/

/-- Where the loop of `resolveJsoncOcPath` is: the key and the line of the last entry, the node,
and the segments walked. -/
structure Walked where
  lastEntry : Option (Str × ℕ)
  node : JsoncValue
  path : List Str

def resolveFrom : Walked → List Str → Option Walked
  | walked, [] => some walked
  | walked, seg :: rest =>
    if seg = [] then none
    else
      match walked.node with
      | .object entries _ =>
        let seg := (lastKey seg (entries.map (·.key))).getD seg
        match entries.find? (·.key = seg) with
        | none => none
        | some entry =>
          resolveFrom ⟨some (entry.key, entry.line), entry.value, walked.path ++ [seg]⟩ rest
      | .array items _ =>
        let seg := (lastIndex seg items.length).getD seg
        match (host.toIndex seg).bind (items[·]?) with
        | none => none
        | some item => resolveFrom ⟨none, item, walked.path ++ [seg]⟩ rest
      | _ => none

inductive JsoncOcPathMatch where
  | root (node : JsoncAst)
  | value (node : JsoncValue) (path : List Str)
  | objectEntry (node : JsoncEntry JsoncValue) (path : List Str)

def Walked.match (walked : Walked) : JsoncOcPathMatch :=
  match walked.lastEntry with
  | some (key, line) => .objectEntry ⟨key, walked.node, line⟩ walked.path
  | none => .value walked.node walked.path

variable (ast : JsoncAst)

def resolveJsoncOcPath (path : OcPath) : Except PathError (Option JsoncOcPathMatch) :=
  match ast.root with
  | none => .ok none
  | some root => do
    let segments ← concatSegments path
    if segments = [] then return some (.root ast)
    else return (resolveFrom host ⟨none, root, []⟩ (segments.map unquoteSeg)).map Walked.match

/-! ## Matches -/

inductive LeafType where
  | string | number | boolean | null
deriving DecidableEq

inductive NodeDescriptor where
  | jsoncObject | jsoncArray
deriving DecidableEq

inductive ContainerKind where
  | jsoncObject | jsoncArray
deriving DecidableEq

inductive OcMatch where
  | root (ast : JsoncAst) (line : ℕ)
  | leaf (valueText : Str) (leafType : LeafType) (line : ℕ)
  | node (descriptor : NodeDescriptor) (line : ℕ)
  | insertionPoint (container : ContainerKind) (line : ℕ)

def jsoncValueToMatch (value : JsoncValue) (line : ℕ) : OcMatch :=
  match value with
  | .object _ _ => .node .jsoncObject line
  | .array _ _ => .node .jsoncArray line
  | .string value _ => .leaf value .string line
  | .number value _ => .leaf value .number line
  | .boolean value _ => .leaf (if value then "true".toList else "false".toList) .boolean line
  | .null _ => .leaf "null".toList .null line

/-- The match that `resolveJsoncToUniversal` makes of one of `resolveJsoncOcPath`. -/
def JsoncOcPathMatch.toUniversal : JsoncOcPathMatch → OcMatch
  | .root ast => .root ast 1
  | .objectEntry entry _ => jsoncValueToMatch entry.value entry.line
  | .value node _ => jsoncValueToMatch node (node.line.getD 1)

/-- The container of `resolveJsoncInsertion`. -/
def containerNode : JsoncOcPathMatch → Option JsoncValue
  | .root _ => ast.root
  | .objectEntry entry _ => some entry.value
  | .value node _ => some node

/-- The place for a new value in a container. -/
def insertionPoint (container : JsoncValue) : Option (ContainerKind × ℕ) :=
  match container with
  | .object _ line => some (.jsoncObject, line.getD 1)
  | .array _ line => some (.jsoncArray, line.getD 1)
  | _ => none

variable (info : InsertionInfo)

def resolveJsoncInsertion : Except PathError (Option (ContainerKind × ℕ)) := do
  let found ← resolveJsoncOcPath host ast info.parentPath
  return (found.bind (containerNode ast)).bind insertionPoint

/-- What the universal functions throw. -/
inductive UniversalError where
  | path (error : PathError)
  | wildcardInResolve
deriving DecidableEq

/-- `resolveOcPath` of a JSONC document. -/
def resolveOcPath (path : OcPath) : Except UniversalError (Option OcMatch) := do
  if ← (hasWildcard path).mapError .path then .error .wildcardInResolve
  else match detectInsertion path with
    | some info =>
      let point ← (resolveJsoncInsertion host ast info).mapError .path
      return point.map fun (container, line) => .insertionPoint container line
    | none =>
      let found ← (resolveJsoncOcPath host ast path).mapError .path
      return found.map (·.toUniversal)

/-! ## Values -/

mutual

def jsonToJsoncValue : Json → JsoncValue
  | .null => .null none
  | .string value => .string value none
  | .number value => .number value none
  | .bool value => .boolean value none
  | .array items => .array (jsonToJsoncItems items) none
  | .object entries => .object (jsonToJsoncEntries entries) none

def jsonToJsoncItems : List Json → List JsoncValue
  | [] => []
  | item :: rest => jsonToJsoncValue item :: jsonToJsoncItems rest

def jsonToJsoncEntries : List (Str × Json) → List (JsoncEntry JsoncValue)
  | [] => []
  | (key, value) :: rest => ⟨key, jsonToJsoncValue value, 0⟩ :: jsonToJsoncEntries rest

end

mutual

/-- `renderValue`, which throws at a string with the sentinel. -/
def renderValue : JsoncValue → Except PathError Str
  | .object entries _ => do
    let parts ← renderEntries entries
    return ['\x7b', ' '] ++ joinWith ", " parts ++ [' ', '\x7d']
  | .array items _ => do
    let parts ← renderItems items
    return "[ ".toList ++ joinWith ", " parts ++ " ]".toList
  | .string value _ =>
    if includes value redactedSentinel then .error .emitSentinel else .ok (Json.quote value)
  | .number value _ => .ok value
  | .boolean value _ => .ok (if value then "true".toList else "false".toList)
  | .null _ => .ok "null".toList

def renderItems : List JsoncValue → Except PathError (List Str)
  | [] => .ok []
  | item :: rest => do
    let text ← renderValue item
    let texts ← renderItems rest
    return text :: texts

def renderEntries : List (JsoncEntry JsoncValue) → Except PathError (List Str)
  | [] => .ok []
  | ⟨key, value, _⟩ :: rest => do
    let text ← renderValue value
    let texts ← renderEntries rest
    return (Json.quote key ++ ": ".toList ++ text) :: texts

end

/-! ## Insertion -/

def mutateAt (current : JsoncValue) (segments : List Str)
    (mutate : JsoncValue → Option JsoncValue) : Option JsoncValue :=
  match segments with
  | [] => mutate current
  | seg :: rest =>
    if seg = [] then none
    else
      match current with
      | .object entries line =>
        let lookupKey := unquoteSeg seg
        (entries.findIdx? (·.key = lookupKey)).bind fun idx =>
          entries[idx]?.bind fun child =>
            (mutateAt child.value rest mutate).map fun replaced =>
              .object (entries.set idx { child with value := replaced }) line
      | .array items line =>
        (host.toIndex seg).bind fun idx =>
          items[idx]?.bind fun child =>
            (mutateAt child rest mutate).map fun replaced => .array (items.set idx replaced) line
      | _ => none

def mutateJsoncContainer (parentPath : OcPath)
    (mutate : JsoncValue → Option JsoncValue) : Except PathError SetResult :=
  match ast.root with
  | none => .ok (.error ⟨.noRoot, none⟩)
  | some root => do
    let segments ← concatSegments parentPath
    match mutateAt host root segments mutate with
    | none => .ok (.error ⟨.unresolved, none⟩)
    | some newRoot =>
      let raw ← renderValue newRoot
      return .ok ⟨raw, some newRoot⟩

/-- The new items of an array. -/
def insertItem (marker : InsertionMarker) (newValue : JsoncValue) : JsoncValue → Option JsoncValue
  | .array items line =>
    match marker with
    | .bare => some (.array (items ++ [newValue]) line)
    | .indexed index => some (.array (items.insertIdx (min index items.length) newValue) line)
    | .keyed _ => some (.array items line)
  | _ => none

/-- The new entries of an object, unless the key is there. -/
def insertEntry (key : Str) (newValue : JsoncValue) : JsoncValue → Option JsoncValue
  | .object entries line =>
    if entries.any (·.key = key) then none
    else some (.object (entries ++ [⟨key, newValue, 0⟩]) line)
  | _ => none

def setJsoncInsertion (value : Str) : Except PathError SetResult := do
  match ← resolveJsoncInsertion host ast info with
  | none => .ok (.error ⟨.unresolved, none⟩)
  | some (container, _) =>
    match host.jsonParse value with
    | none =>
      .ok (.error ⟨.parseError, some "jsonc insertion requires JSON value".toList⟩)
    | some parsed =>
      let newJsoncValue := jsonToJsoncValue parsed
      match container, info.marker with
      | .jsoncArray, .keyed _ =>
        .ok (.error ⟨.typeMismatch, some "cannot insert by key into array".toList⟩)
      | .jsoncArray, marker =>
        mutateJsoncContainer host ast info.parentPath (insertItem marker newJsoncValue)
      | .jsoncObject, .keyed key =>
        mutateJsoncContainer host ast info.parentPath (insertEntry key newJsoncValue)
      | .jsoncObject, _ =>
        .ok (.error ⟨.typeMismatch, some "jsonc object insertion requires +key".toList⟩)

/-- `setOcPath` of a JSONC document. -/
def setOcPath (ast : JsoncAst) (path : OcPath) (value : Str) : Except PathError SetResult := do
  if ← hasWildcard path then
    .ok (.error ⟨.wildcardNotAllowed, some ("setOcPath requires a concrete path; use findOcPaths" ++
      " to enumerate matches first").toList⟩)
  else match detectInsertion path with
    | some info => setJsoncInsertion host ast info value
    | none => host.setStructuredLeaf ast path value

end OpenClaw.Oc
