import Mathlib.Algebra.Group.Int.Defs
import Mathlib.Algebra.Group.Nat.Defs
import Mathlib.Data.Int.Order.Basic
import Mathlib.Logic.Function.Basic
import OpenClaw.Lib.Run
import OpenClaw.Text.Basic

/-!
# The facts store

`factsStore.ts` with its calls suspended at each `await`. The file is its lines that are not
blank, an absent file has none. Arrays have an identity, since the cache and several calls can
hold the same one.
-/

namespace OpenClaw

/-- A fact; only its id is looked at. -/
structure Fact where
  id : ℤ
  content : Str
deriving DecidableEq

/-- A line of the file: a fact, another JSON value with its id where that is a whole number, or
one on which loading throws, which is no JSON or the value `null`. -/
inductive FactLine where
  | fact (f : Fact)
  | foreign (id : Option ℤ) (value : Str)
  | broken (line : Str)
deriving DecidableEq

def FactLine.fact? : FactLine → Option Fact
  | .fact f => some f
  | _ => none

def FactLine.throws : FactLine → Bool
  | .broken _ => true
  | _ => false

/-- `f.id !== id` -/
def FactLine.keeps (id : ℤ) : FactLine → Bool
  | .fact f => f.id ≠ id
  | .foreign id' _ => id' ≠ some id
  | .broken _ => true

/-- The facts among the lines. -/
def factsOf (lines : List FactLine) : List Fact := lines.filterMap FactLine.fact?

/-! ## Ids -/

/-- The double next to a natural number, the even one of two. -/
def roundMagnitude (n : ℕ) : ℕ :=
  let unit := 2 ^ (Nat.log2 n + 1 - 53)
  if 2 * (n % unit) < unit ∨ (2 * (n % unit) = unit ∧ n / unit % 2 = 0) then n / unit * unit
  else (n / unit + 1) * unit

def roundDouble (n : ℤ) : ℤ := n.sign * roundMagnitude n.natAbs

/-- `id + 1`. -/
def addOne (id : ℤ) : ℤ := roundDouble (id + 1)

/-- `_nextId` behind a load. What `Math.max` makes of a value that is no fact is left open. -/
def nextIdAfterLoad (content : List FactLine) (nextId anyId : ℤ) : ℤ :=
  if content.all (·.fact?.isSome) then
    match ((factsOf content).map (·.id)).max? with
    | some max => addOne max
    | none => nextId
  else anyId

/-! ## Calls -/

inductive FactsCallKind where
  | insert (content : Str)
  | remove (id : ℤ)
  /-- `query`, `count` or `stats`. -/
  | read
deriving DecidableEq

/-- Where a call is suspended, with the array it holds. -/
inductive FactsPhase where
  /-- In `load`, before the file is read. -/
  | loading
  /-- In `load`, with what was read. -/
  | readBack (content : List FactLine)
  | loaded (facts : ℕ)
  /-- In `persist`, before the file is written. -/
  | persisting (facts : ℕ)
  | writing (facts : ℕ)
  | written (facts : ℕ)
  | finished
deriving DecidableEq

structure FactsCall where
  kind : FactsCallKind
  phase : FactsPhase
  newFact : Option Fact
deriving DecidableEq

/-- What the calls have done to the facts. -/
inductive FactsEvent where
  | inserted (call : ℕ) (newFact : Fact)
  | removed (call : ℕ) (id : ℤ)
deriving DecidableEq

def FactsEvent.call : FactsEvent → ℕ
  | .inserted call _ => call
  | .removed call _ => call

structure FactsStore where
  file : List FactLine
  lists : ℕ → List FactLine
  nextList : ℕ
  cache : Option ℕ
  nextId : ℤ
  calls : ℕ → Option FactsCall
  /-- The writes that have not taken effect, in call order. -/
  writes : List (ℕ × List FactLine)
  history : List FactsEvent

/-- A new process. -/
def FactsStore.initial (original : List FactLine) : FactsStore :=
  { file := original
    lists := fun _ => []
    nextList := 0
    cache := none
    nextId := 1
    calls := fun _ => none
    writes := []
    history := [] }

variable (s : FactsStore) (i : ℕ) (call : FactsCall) (facts : ℕ)

namespace FactsStore

/-- A new array. -/
def allocate (facts : List FactLine) : FactsStore :=
  { s with
    lists := Function.update s.lists s.nextList facts
    nextList := s.nextList + 1 }

def setCall : FactsStore :=
  { s with calls := Function.update s.calls i (some call) }

/-! ## Steps -/

variable (kind : FactsCallKind)

/-- A new call, up to its first `await`. -/
def start : FactsStore :=
  match s.cache with
  | some facts => s.setCall i ⟨kind, .loaded facts, none⟩
  | none => s.setCall i ⟨kind, .loading, none⟩

/-- The rest of `load` behind `readFile`. -/
def assign (content : List FactLine) (anyId : ℤ) : FactsStore :=
  let throws := content.any FactLine.throws
  let s' := (s.allocate (if throws then [] else content)).setCall i
    ⟨kind, .loaded s.nextList, none⟩
  { s' with
    cache := some s.nextList
    nextId := if throws then s.nextId else nextIdAfterLoad content s.nextId anyId }

/-- `insert` behind `load`, up to its `persist`. -/
def push (content : Str) (facts : ℕ) : FactsStore :=
  let newFact : Fact := ⟨s.nextId, content⟩
  let s' := s.setCall i ⟨.insert content, .persisting facts, some newFact⟩
  { s' with
    nextId := addOne s.nextId
    lists := Function.update s.lists facts (s.lists facts ++ [.fact newFact])
    history := s.history ++ [.inserted i newFact] }

/-- `remove` behind `load`, up to its `persist`. -/
def filter (s : FactsStore) (i : ℕ) (id : ℤ) (facts : ℕ) : FactsStore :=
  let s' := (s.allocate ((s.lists facts).filter (FactLine.keeps id))).setCall i
    ⟨.remove id, .persisting s.nextList, none⟩
  { s' with history := s.history ++ [.removed i id] }

/-- `persist` behind `ensureDir`, up to the write. -/
def writeFile : FactsStore :=
  let s' := s.setCall i { call with phase := .writing facts }
  { s' with writes := s.writes ++ [(i, s.lists facts)] }

/-- The rest of a call behind its `persist`. -/
def resume : FactsStore :=
  let s' := s.setCall i { call with phase := .finished }
  match call.kind with
  | .remove _ => { s' with cache := some facts }
  | _ => s'

end FactsStore

inductive FactsAction where
  | start (i : ℕ) (kind : FactsCallKind)
  | readFile (i : ℕ)
  | assign (i : ℕ) (anyId : ℤ)
  /-- A call goes on behind `load`. -/
  | proceed (i : ℕ)
  | writeFile (i : ℕ)
  /-- The first write takes effect. -/
  | takeEffect
  | resume (i : ℕ)
deriving DecidableEq

namespace FactsStore

def proceed : FactsStore :=
  match call.kind with
  | .insert content => s.push i content facts
  | .remove id => s.filter i id facts
  | .read => s.setCall i { call with phase := .finished }

def step : FactsAction → Option FactsStore
  | .start i kind =>
    match s.calls i with
    | none => some (s.start i kind)
    | some _ => none
  | .readFile i =>
    match s.calls i with
    | some ⟨kind, .loading, newFact⟩ =>
      some (s.setCall i ⟨kind, .readBack s.file, newFact⟩)
    | _ => none
  | .assign i anyId =>
    match s.calls i with
    | some ⟨kind, .readBack content, _⟩ => some (s.assign i kind content anyId)
    | _ => none
  | .proceed i =>
    match s.calls i with
    | some ⟨kind, .loaded facts, newFact⟩ =>
      some (s.proceed i ⟨kind, .loaded facts, newFact⟩ facts)
    | _ => none
  | .writeFile i =>
    match s.calls i with
    | some ⟨kind, .persisting facts, newFact⟩ =>
      some (s.writeFile i ⟨kind, .persisting facts, newFact⟩ facts)
    | _ => none
  | .takeEffect =>
    match s.writes with
    | (i, lines) :: writes =>
      match s.calls i with
      | some ⟨kind, .writing facts, newFact⟩ =>
        some { s.setCall i ⟨kind, .written facts, newFact⟩ with
          file := lines
          writes := writes }
      | _ => none
    | [] => none
  | .resume i =>
    match s.calls i with
    | some ⟨kind, .written facts, newFact⟩ =>
      some (s.resume i ⟨kind, .written facts, newFact⟩ facts)
    | _ => none

end FactsStore

end OpenClaw
