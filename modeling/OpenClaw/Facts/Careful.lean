import OpenClaw.Facts.Store

/-!
# What the facts store should keep

The facts are those of the file with every insert and removal in its order. A load replaces the
array that other calls may have, an insert adds to the array it was given, and a removal puts its
own copy in place of the current one; a careful run is one where no two of these get into each
other's way.
-/

namespace OpenClaw

open FactsStore

variable {s s' : FactsStore} {original : List FactLine} {i j : ℕ} {call call' : FactsCall}

/-! ## The property -/

/-- The facts that are left, with the events in their order. -/
def remainingFacts (facts : List Fact) : List FactsEvent → List Fact
  | [] => facts
  | .inserted _ newFact :: history => remainingFacts (facts ++ [newFact]) history
  | .removed _ id :: history => remainingFacts (facts.filter (·.id ≠ id)) history

def FactsStore.Quiescent (s : FactsStore) : Prop :=
  ∀ i call, s.calls i = some call → call.phase = .finished

/-- The event is that of the call. -/
def FactsCall.Did (call : FactsCall) : FactsEvent → Prop
  | .inserted _ newFact => call.newFact = some newFact ∧ call.kind = .insert newFact.content
  | .removed _ id => call.kind = .remove id

structure LosesNoFact (original : List FactLine) (s : FactsStore) : Prop where
  /-- The ids of inserts are distinct. -/
  distinct : ∀ i j call call' newFact newFact', i ≠ j → s.calls i = some call →
    s.calls j = some call' → call.newFact = some newFact → call'.newFact = some newFact' →
      newFact.id ≠ newFact'.id
  /-- And they are no ids of the file. -/
  fresh : ∀ i call newFact, s.calls i = some call → call.newFact = some newFact →
    ∀ f ∈ factsOf original, f.id ≠ newFact.id
  /-- Each event is that of a call, which has no other. -/
  events : ∀ event ∈ s.history, ∃ call, s.calls event.call = some call ∧ call.Did event
  once : (s.history.map FactsEvent.call).Nodup
  /-- A finished call that inserts or removes has its event. -/
  finished : ∀ i call, s.calls i = some call → call.phase = .finished → call.kind ≠ .read →
    ∃ event ∈ s.history, event.call = i
  memory : s.Quiescent → ∀ facts, s.cache = some facts →
    factsOf (s.lists facts) = remainingFacts (factsOf original) s.history
  file : s.Quiescent → factsOf s.file = remainingFacts (factsOf original) s.history

/-! ## The condition -/

/-- The call has its array. -/
def FactsPhase.pastLoad : FactsPhase → Bool
  | .loading | .readBack _ => false
  | _ => true

/-- The call has inserted or removed. -/
def FactsPhase.pastProceed : FactsPhase → Bool
  | .loading | .readBack _ | .loaded _ => false
  | _ => true

variable (s)

/-- An insert or a removal has its array. -/
def FactsStore.MutatorLoaded : Prop :=
  ∃ i call, s.calls i = some call ∧ call.kind ≠ .read ∧ call.phase.pastLoad = true

/-- The copy of a removal that has not yet become the current array. -/
def FactsCall.copy? (call : FactsCall) : Option ℕ :=
  match call.kind, call.phase with
  | .remove _, .persisting facts => some facts
  | .remove _, .writing facts => some facts
  | .remove _, .written facts => some facts
  | _, _ => none

/-- A removal has made its copy, which has not yet become the current array. -/
def FactsStore.Removing : Prop :=
  ∃ i call facts, s.calls i = some call ∧ call.copy? = some facts

def FactsPhase.isPersisting : FactsPhase → Bool
  | .persisting _ => true
  | _ => false

/-- As before, and the copy is being written. -/
def FactsStore.RemovingWritten : Prop :=
  ∃ i call facts, s.calls i = some call ∧ call.copy? = some facts ∧
    call.phase.isPersisting = false

/-- A safe whole number. -/
def SafeId (id : ℤ) : Prop := -2 ^ 53 < id ∧ id < 2 ^ 53

/-- The steps that lose nothing. -/
def CarefulFactsStep : FactsAction → Prop
  | .assign i _ => ∀ kind content newFact, s.calls i = some ⟨kind, .readBack content, newFact⟩ →
    (∀ line ∈ content, ∃ f, line = .fact f ∧ SafeId f.id) ∧ ¬s.MutatorLoaded
  | .proceed i => ∀ kind facts newFact, s.calls i = some ⟨kind, .loaded facts, newFact⟩ →
    kind ≠ .read → s.cache = some facts ∧ ¬s.Removing ∧ s.nextId < 2 ^ 53
  | .writeFile i => ∀ content facts newFact,
    s.calls i = some ⟨.insert content, .persisting facts, newFact⟩ →
      s.cache = some facts ∧ ¬s.RemovingWritten
  | _ => True

variable {s}

/-! ## Lines and facts -/

/-- `remainingFacts` with the lines of the file. -/
def remainingLines (lines : List FactLine) : List FactsEvent → List FactLine
  | [] => lines
  | .inserted _ newFact :: history => remainingLines (lines ++ [.fact newFact]) history
  | .removed _ id :: history => remainingLines (lines.filter (FactLine.keeps id)) history

variable (lines : List FactLine)

theorem remainingLines_append (history history' : List FactsEvent) :
    remainingLines lines (history ++ history') =
      remainingLines (remainingLines lines history) history' := by
  induction history generalizing lines with
  | nil => rfl
  | cons event history ih =>
    cases event with
    | inserted call newFact => exact ih _
    | removed call id => exact ih _

theorem factsOf_filter_keeps (id : ℤ) (lines : List FactLine) :
    factsOf (lines.filter (FactLine.keeps id)) = (factsOf lines).filter (·.id ≠ id) := by
  induction lines with
  | nil => rfl
  | cons line lines ih =>
    rw [List.filter_cons]
    cases line with
    | fact f =>
      by_cases hid : f.id = id
      · simpa [factsOf, FactLine.keeps, FactLine.fact?, hid] using ih
      · simpa [factsOf, FactLine.keeps, FactLine.fact?, hid] using ih
    | foreign id' value =>
      by_cases hid : id' = some id
      · simpa [factsOf, FactLine.keeps, List.filterMap_cons, FactLine.fact?, hid] using ih
      · simpa [factsOf, FactLine.keeps, List.filterMap_cons, FactLine.fact?, hid] using ih
    | broken line =>
      simpa [factsOf, FactLine.keeps, List.filterMap_cons, FactLine.fact?] using ih

theorem factsOf_remainingLines (history : List FactsEvent) :
    factsOf (remainingLines lines history) = remainingFacts (factsOf lines) history := by
  induction history generalizing lines with
  | nil => rfl
  | cons event history ih =>
    cases event with
    | inserted call newFact =>
      rw [remainingLines, remainingFacts, ih, factsOf, List.filterMap_append]
      rfl
    | removed call id => rw [remainingLines, remainingFacts, ih, factsOf_filter_keeps]

/-! ## Ids -/

theorem roundMagnitude_of_dvd {n : ℕ} (h : 2 ^ (Nat.log2 n + 1 - 53) ∣ n) :
    roundMagnitude n = n := by
  unfold roundMagnitude
  dsimp only
  rw [if_pos, Nat.div_mul_cancel h]
  left
  rw [Nat.mod_eq_zero_of_dvd h]
  exact Nat.two_pow_pos _

theorem roundMagnitude_of_le {n : ℕ} (h : n ≤ 2 ^ 53) : roundMagnitude n = n := by
  apply roundMagnitude_of_dvd
  rcases Nat.lt_or_eq_of_le h with hlt | rfl
  · have hlog : Nat.log2 n + 1 - 53 = 0 := by
      by_cases hzero : n = 0
      · rw [hzero]
        rfl
      · have hlog := (Nat.log2_lt hzero).mpr hlt
        omega
    rw [hlog]
    exact Nat.one_dvd n
  · rw [Nat.log2_two_pow]
    exact Nat.pow_dvd_pow 2 (by omega)

theorem addOne_of_safe {id : ℤ} (h : SafeId id) : addOne id = id + 1 := by
  obtain ⟨hlower, hupper⟩ := h
  have hle : (id + 1).natAbs ≤ 2 ^ 53 := by omega
  rw [addOne, roundDouble, roundMagnitude_of_le hle, Int.sign_mul_natAbs]

end OpenClaw
