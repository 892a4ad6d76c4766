import OpenClaw.Facts.Careful
import Mathlib.Data.List.Nodup

/-!
# Careful runs lose no fact

While no copy is about to replace it, the current array has what is left of the facts; a copy that
is about to does so too. The last write that was called is of the same facts, unless a write is
still to be called.
-/

namespace OpenClaw

open FactsStore List

variable {s s' : FactsStore} {original : List FactLine} {i j : ℕ} {call call' : FactsCall}

/-! ## Calls and events -/

theorem update_calls_eq_some_iff {calls : ℕ → Option FactsCall} :
    Function.update calls i (some call') j = some call ↔
      (j = i ∧ call' = call) ∨ (j ≠ i ∧ calls j = some call) := by
  by_cases hji : j = i
  · simp [hji]
  · simp [hji, Function.update_of_ne]

/-- What the history has of a call. -/
def FactsCall.Recorded (call : FactsCall) (i : ℕ) (history : List FactsEvent) : Prop :=
  match call.phase.pastProceed, call.kind with
  | true, .insert content => ∃ f, call.newFact = some f ∧ f.content = content ∧
      .inserted i f ∈ history
  | true, .remove id => call.newFact = none ∧ .removed i id ∈ history
  | true, .read => call.newFact = none ∧ call.phase = .finished ∧ ∀ event ∈ history, event.call ≠ i
  | false, _ => call.newFact = none ∧ ∀ event ∈ history, event.call ≠ i

/-- Each call has its event, and its write in the queue while it is writing. -/
structure Bookkeeping (calls : ℕ → Option FactsCall) (history : List FactsEvent)
    (writes : List (ℕ × List FactLine)) : Prop where
  unknown : ∀ i, calls i = none → ∀ event ∈ history, event.call ≠ i
  recorded : ∀ i call, calls i = some call → call.Recorded i history
  once : (history.map FactsEvent.call).Nodup
  writing : ∀ write ∈ writes, ∃ call facts, calls write.1 = some call ∧ call.phase = .writing facts
  writesOnce : (writes.map Prod.fst).Nodup

variable {event : FactsEvent} {facts : ℕ} {kind : FactsCallKind} {newFact : Option Fact}

section

variable {calls : ℕ → Option FactsCall} {history : List FactsEvent}
  {writes : List (ℕ × List FactLine)}

theorem FactsCall.Recorded.append (h : call.Recorded j history)
    (hne : event.call ≠ j) : call.Recorded j (history ++ [event]) := by
  have hnone : (∀ e ∈ history, e.call ≠ j) → ∀ e ∈ history ++ [event], e.call ≠ j := by
    intro hevents e he
    rcases mem_append.mp he with he | he
    · exact hevents e he
    · rwa [mem_singleton.mp he]
  unfold Recorded at h ⊢
  split at h
  · obtain ⟨f, hf, hcontent, hmem⟩ := h
    exact ⟨f, hf, hcontent, mem_append_left _ hmem⟩
  · exact ⟨h.1, mem_append_left _ h.2⟩
  · exact ⟨h.1, h.2.1, hnone h.2.2⟩
  · exact ⟨h.1, hnone h.2⟩

section

variable (h : Bookkeeping calls history writes)
include h

theorem Bookkeeping.notWriting
    (hcall : ∀ call facts, calls i = some call → call.phase ≠ .writing facts) :
    ∀ write ∈ writes, write.1 ≠ i := by
  rintro write hwrite rfl
  obtain ⟨call, facts, hsome, hphase⟩ := h.writing write hwrite
  exact hcall call facts hsome hphase

/-- A call goes on. -/
theorem Bookkeeping.advance
    (hcall : call'.Recorded i history) (hwriting : ∀ write ∈ writes, write.1 ≠ i) :
    Bookkeeping (Function.update calls i (some call')) history writes where
  unknown j hj := by
    by_cases hji : j = i
    · simp [hji] at hj
    · rw [Function.update_of_ne hji] at hj
      exact h.unknown j hj
  recorded j call hj := by
    rcases update_calls_eq_some_iff.mp hj with ⟨rfl, rfl⟩ | ⟨_, hj⟩
    · exact hcall
    · exact h.recorded j call hj
  once := h.once
  writing write hwrite := by
    rw [Function.update_of_ne (hwriting write hwrite)]
    exact h.writing write hwrite
  writesOnce := h.writesOnce

/-- A call does what it is recorded for. -/
theorem Bookkeeping.record (hevent : event.call = i) (hnone : ∀ e ∈ history, e.call ≠ i)
    (hcall : call'.Recorded i (history ++ [event])) (hwriting : ∀ write ∈ writes, write.1 ≠ i) :
    Bookkeeping (Function.update calls i (some call')) (history ++ [event]) writes where
  unknown j hj := by
    by_cases hji : j = i
    · simp [hji] at hj
    · rw [Function.update_of_ne hji] at hj
      intro e he
      rcases mem_append.mp he with he | he
      · exact h.unknown j hj e he
      · rw [mem_singleton.mp he, hevent]
        exact Ne.symm hji
  recorded j call hj := by
    rcases update_calls_eq_some_iff.mp hj with ⟨rfl, rfl⟩ | ⟨hji, hj⟩
    · exact hcall
    · exact (h.recorded j call hj).append (hevent ▸ Ne.symm hji)
  once := by
    rw [map_append]
    refine h.once.append (nodup_singleton _) ?_
    intro call hmem hcall
    obtain ⟨e, he, rfl⟩ := mem_map.mp hmem
    exact hnone e he ((mem_singleton.mp hcall).trans hevent)
  writing write hwrite := by
    rw [Function.update_of_ne (hwriting write hwrite)]
    exact h.writing write hwrite
  writesOnce := h.writesOnce

theorem Bookkeeping.enqueue
    (hcall : call'.Recorded i history) (hphase : call'.phase = .writing facts)
    (hwriting : ∀ write ∈ writes, write.1 ≠ i) (lines : List FactLine) :
    Bookkeeping (Function.update calls i (some call')) history (writes ++ [(i, lines)]) where
  unknown := (h.advance hcall hwriting).unknown
  recorded := (h.advance hcall hwriting).recorded
  once := h.once
  writing write hwrite := by
    rcases mem_append.mp hwrite with hwrite | hwrite
    · exact (h.advance hcall hwriting).writing write hwrite
    · rw [mem_singleton.mp hwrite]
      exact ⟨call', facts, Function.update_self .., hphase⟩
  writesOnce := by
    rw [map_append]
    refine h.writesOnce.append (nodup_singleton _) ?_
    intro call hmem hcall
    obtain ⟨write, hwrite, rfl⟩ := mem_map.mp hmem
    exact hwriting write hwrite (mem_singleton.mp hcall)

end

theorem Bookkeeping.dequeue {lines : List FactLine}
    (h : Bookkeeping calls history ((i, lines) :: writes)) (hcall : call'.Recorded i history) :
    Bookkeeping (Function.update calls i (some call')) history writes := by
  have honce := nodup_cons.mp h.writesOnce
  have hrest : Bookkeeping calls history writes :=
    ⟨h.unknown, h.recorded, h.once, fun write hwrite => h.writing write
      (mem_cons_of_mem _ hwrite), honce.2⟩
  refine hrest.advance hcall ?_
  intro write hwrite heq
  exact honce.1 (mem_map.mpr ⟨write, hwrite, heq⟩)

end

/-! ## The invariant -/

/-- What the file will be when all writes have taken effect. -/
def FactsStore.lastWritten (s : FactsStore) : List FactLine :=
  s.writes.foldl (fun _ write => write.2) s.file

structure KeepsFacts (original : List FactLine) (s : FactsStore) : Prop where
  book : Bookkeeping s.calls s.history s.writes
  noCache : s.cache = none → ∀ i call, s.calls i = some call → call.phase.pastLoad = false
  /-- Before an insert or a removal has its array, every load reads the original file. -/
  untouched : ¬s.MutatorLoaded → s.file = original ∧ s.history = [] ∧ s.writes = [] ∧
    ∀ i call content, s.calls i = some call → call.phase = .readBack content → content = original
  cacheBound : ∀ facts, s.cache = some facts → facts < s.nextList
  copy : ∀ i call facts, s.calls i = some call → call.copy? = some facts →
    facts < s.nextList ∧ s.lists facts = remainingLines original s.history
  single : ∀ i j call call', s.calls i = some call → s.calls j = some call' →
    call.copy?.isSome = true → call'.copy?.isSome = true → i = j
  memory : ∀ facts, s.cache = some facts → ¬s.Removing →
    s.lists facts = remainingLines original s.history
  /-- Where no write is still to be called, the last one is of what is left. -/
  file : (∀ i call, s.calls i = some call → call.phase.isPersisting = false) →
    s.lastWritten = remainingLines original s.history
  below : ∀ i f, .inserted i f ∈ s.history → f.id < s.nextId
  foreign : ∀ i f, .inserted i f ∈ s.history → ∀ g ∈ factsOf original, g.id ≠ f.id
  distinct : ∀ i j f g, .inserted i f ∈ s.history → .inserted j g ∈ s.history → i ≠ j →
    f.id ≠ g.id
  bound : s.cache ≠ none → ∀ f ∈ factsOf original, f.id < s.nextId
  lower : -2 ^ 53 < s.nextId

theorem keepsFacts_initial (original : List FactLine) : KeepsFacts original (.initial original) where
  book :=
    { unknown := fun _ _ _ hevent => nomatch hevent
      recorded := fun _ _ hcall => nomatch hcall
      once := nodup_nil
      writing := fun _ hwrite => nomatch hwrite
      writesOnce := nodup_nil }
  noCache _ _ _ hcall := nomatch hcall
  untouched _ := ⟨rfl, rfl, rfl, fun _ _ _ hcall => nomatch hcall⟩
  cacheBound _ hcache := nomatch hcache
  copy _ _ _ hcall := nomatch hcall
  single _ _ _ _ hcall := nomatch hcall
  memory _ hcache := nomatch hcache
  file _ := rfl
  below _ _ hevent := nomatch hevent
  foreign _ _ hevent := nomatch hevent
  distinct _ _ _ _ hevent := nomatch hevent
  bound hcache := absurd rfl hcache
  lower := show (-2 ^ 53 : ℤ) < 1 by decide

/-! ## Calls that go on -/

theorem setCall_calls_eq_some_iff : (s.setCall i call').calls j = some call ↔
    (j = i ∧ call' = call) ∨ (j ≠ i ∧ s.calls j = some call) := update_calls_eq_some_iff

/-- The call has gone on with the same copy or none. -/
structure GoesOn (s : FactsStore) (i : ℕ) (call' : FactsCall) : Prop where
  old : ∀ call, s.calls i = some call → call.kind = call'.kind ∧ call.copy? = call'.copy? ∧
    (call.phase.pastLoad = true → call'.phase.pastLoad = true)
  new : s.calls i = none → call'.copy? = none

theorem GoesOn.mutatorLoaded (h : GoesOn s i call') (hs : s.MutatorLoaded) :
    (s.setCall i call').MutatorLoaded := by
  obtain ⟨j, call, hj, hkind, hload⟩ := hs
  by_cases hji : j = i
  · subst hji
    obtain ⟨hsame, _, hpast⟩ := h.old call hj
    exact ⟨j, call', setCall_calls_eq_some_iff.mpr (.inl ⟨rfl, rfl⟩), hsame ▸ hkind, hpast hload⟩
  · exact ⟨j, call, setCall_calls_eq_some_iff.mpr (.inr ⟨hji, hj⟩), hkind, hload⟩

/-- A copy is one that was there before. -/
theorem GoesOn.exists_copy (h : GoesOn s i call')
    (hj : (s.setCall i call').calls j = some call) (hcopy : call.copy? = some facts) :
    ∃ old, s.calls j = some old ∧ old.copy? = some facts := by
  rcases setCall_calls_eq_some_iff.mp hj with ⟨rfl, rfl⟩ | ⟨_, hj⟩
  · cases hold : s.calls j with
    | none =>
      rw [h.new hold] at hcopy
      cases hcopy
    | some old => exact ⟨old, rfl, (h.old old hold).2.1.trans hcopy⟩
  · exact ⟨call, hj, hcopy⟩

theorem GoesOn.removing (h : GoesOn s i call') (hs : s.Removing) :
    (s.setCall i call').Removing := by
  obtain ⟨j, call, facts, hj, hcopy⟩ := hs
  by_cases hji : j = i
  · subst hji
    exact ⟨j, call', facts, setCall_calls_eq_some_iff.mpr (.inl ⟨rfl, rfl⟩),
      (h.old call hj).2.1.symm.trans hcopy⟩
  · exact ⟨j, call, facts, setCall_calls_eq_some_iff.mpr (.inr ⟨hji, hj⟩), hcopy⟩

section

variable (h : KeepsFacts original s)
include h

theorem KeepsFacts.copy_setCall (hgoes : GoesOn s i call')
    (hj : (s.setCall i call').calls j = some call) (hcopy : call.copy? = some facts) :
    facts < s.nextList ∧ s.lists facts = remainingLines original s.history := by
  obtain ⟨old, hold, hcopy⟩ := hgoes.exists_copy hj hcopy
  exact h.copy j old facts hold hcopy

theorem KeepsFacts.single_setCall (hgoes : GoesOn s i call') :
    ∀ j k call₁ call₂, (s.setCall i call').calls j = some call₁ →
      (s.setCall i call').calls k = some call₂ → call₁.copy?.isSome = true →
        call₂.copy?.isSome = true → j = k := by
  intro j k call₁ call₂ hj hk hcopy hcopy'
  obtain ⟨facts, hcopy⟩ := Option.isSome_iff_exists.mp hcopy
  obtain ⟨facts', hcopy'⟩ := Option.isSome_iff_exists.mp hcopy'
  obtain ⟨old, hold, hcopy⟩ := hgoes.exists_copy hj hcopy
  obtain ⟨old', hold', hcopy'⟩ := hgoes.exists_copy hk hcopy'
  exact h.single j k old old' hold hold' (hcopy ▸ rfl) (hcopy' ▸ rfl)

theorem KeepsFacts.noCache_setCall
    (hload : s.cache = none → call'.phase.pastLoad = false) (hcache : s.cache = none)
    (hj : (s.setCall i call').calls j = some call) : call.phase.pastLoad = false := by
  rcases setCall_calls_eq_some_iff.mp hj with ⟨rfl, rfl⟩ | ⟨_, hj⟩
  · exact hload hcache
  · exact h.noCache hcache j call hj

/-- A call that goes on without a write leaves the rest as it is. -/
theorem KeepsFacts.advance (hgoes : GoesOn s i call')
    (hcall : call'.Recorded i s.history) (hwriting : ∀ write ∈ s.writes, write.1 ≠ i)
    (hpersisting : ∀ call, s.calls i = some call → call.phase.isPersisting = false)
    (hload : s.cache = none → call'.phase.pastLoad = false)
    (hcontent : ¬s.MutatorLoaded → ∀ content, call'.phase = .readBack content →
      content = original) : KeepsFacts original (s.setCall i call') where
  book := h.book.advance hcall hwriting
  noCache hcache _ _ := h.noCache_setCall hload hcache
  untouched hnot := by
    have hbefore : ¬s.MutatorLoaded := fun hs => hnot (hgoes.mutatorLoaded hs)
    obtain ⟨hfile, hhistory, hwrites, hread⟩ := h.untouched hbefore
    refine ⟨hfile, hhistory, hwrites, fun j call content hj hphase => ?_⟩
    rcases setCall_calls_eq_some_iff.mp hj with ⟨rfl, rfl⟩ | ⟨_, hj⟩
    · exact hcontent hbefore content hphase
    · exact hread j call content hj hphase
  cacheBound := h.cacheBound
  copy _ _ _ := h.copy_setCall hgoes
  single := h.single_setCall hgoes
  memory facts hcache hnot := h.memory facts hcache fun hs => hnot (hgoes.removing hs)
  file hall := by
    apply h.file
    intro j call hj
    by_cases hji : j = i
    · subst hji
      exact hpersisting call hj
    · exact hall j call (setCall_calls_eq_some_iff.mpr (.inr ⟨hji, hj⟩))
  below := h.below
  foreign := h.foreign
  distinct := h.distinct
  bound := h.bound
  lower := h.lower

theorem KeepsFacts.start (hi : s.calls i = none)
    (kind : FactsCallKind) : KeepsFacts original (s.start i kind) := by
  have hnone : ∀ call : FactsCall, s.calls i ≠ some call := by
    rw [hi]
    exact fun _ hsome => nomatch hsome
  have hwriting : ∀ write ∈ s.writes, write.1 ≠ i :=
    h.book.notWriting fun call _ hcall => absurd hcall (hnone call)
  have hevents := h.book.unknown i hi
  have hgoes : ∀ call' : FactsCall, call'.copy? = none → GoesOn s i call' := fun call' hcopy =>
    ⟨fun call hcall => absurd hcall (hnone call), fun _ => hcopy⟩
  unfold FactsStore.start
  cases hcache : s.cache with
  | some facts =>
    refine h.advance (hgoes _ ?_) ⟨rfl, hevents⟩ hwriting
      (fun call hcall => absurd hcall (hnone call)) (fun hnil => ?_) (fun _ _ hphase => nomatch hphase)
    · cases kind <;> rfl
    · rw [hcache] at hnil
      cases hnil
  | none =>
    refine h.advance (hgoes _ ?_) ⟨rfl, hevents⟩ hwriting
      (fun call hcall => absurd hcall (hnone call)) (fun _ => rfl) (fun _ _ hphase => nomatch hphase)
    cases kind <;> rfl

theorem KeepsFacts.readFile (hi : s.calls i = some ⟨kind, .loading, newFact⟩) :
    KeepsFacts original (s.setCall i ⟨kind, .readBack s.file, newFact⟩) := by
  have hsame : ∀ call, s.calls i = some call → call = ⟨kind, .loading, newFact⟩ :=
    fun call hcall => Option.some.inj (hcall.symm.trans hi)
  apply h.advance
  · constructor
    · intro call hcall
      rw [hsame call hcall]
      refine ⟨rfl, ?_, fun hload => nomatch hload⟩
      cases kind <;> rfl
    · intro hnone
      rw [hi] at hnone
      cases hnone
  · have hrecorded := h.book.recorded i _ hi
    exact hrecorded
  · apply h.book.notWriting
    intro call facts hcall hphase
    rw [hsame call hcall] at hphase
    cases hphase
  · intro call hcall
    rw [hsame call hcall]
    rfl
  · exact fun _ => rfl
  · intro hnot content hphase
    cases hphase
    exact (h.untouched hnot).1

end

/-! ## Loads -/

theorem mutatorLoaded_of_copy (hi : s.calls i = some call)
    (hcopy : call.copy? = some facts) : s.MutatorLoaded := by
  refine ⟨i, call, hi, ?_, ?_⟩
  · intro hkind
    rw [FactsCall.copy?, hkind] at hcopy
    cases hcopy
  · unfold FactsCall.copy? at hcopy
    split at hcopy
    · rename_i hphase
      rw [hphase]
      rfl
    · rename_i hphase
      rw [hphase]
      rfl
    · rename_i hphase
      rw [hphase]
      rfl
    · cases hcopy

theorem nextIdAfterLoad_bounds {content : List FactLine} {nextId : ℤ}
    (hcontent : ∀ line ∈ content, ∃ f, line = .fact f ∧ SafeId f.id) (hlower : -2 ^ 53 < nextId)
    (anyId : ℤ) : -2 ^ 53 < nextIdAfterLoad content nextId anyId ∧
      ∀ f ∈ factsOf content, f.id < nextIdAfterLoad content nextId anyId := by
  have hall : content.all (·.fact?.isSome) = true := by
    rw [all_eq_true]
    intro line hline
    obtain ⟨f, rfl, _⟩ := hcontent line hline
    rfl
  have hsafe : ∀ f ∈ factsOf content, SafeId f.id := by
    intro f hf
    obtain ⟨line, hline, hfact⟩ := mem_filterMap.mp hf
    obtain ⟨g, rfl, hg⟩ := hcontent line hline
    cases hfact
    exact hg
  rw [nextIdAfterLoad, if_pos hall]
  cases hmax : ((factsOf content).map (·.id)).max? with
  | none =>
    rw [max?_eq_none_iff, map_eq_nil_iff] at hmax
    rw [hmax]
    exact ⟨hlower, fun _ hf => nomatch hf⟩
  | some max =>
    obtain ⟨hmem, hle⟩ := max?_eq_some_iff.mp hmax
    obtain ⟨f, hf, rfl⟩ := mem_map.mp hmem
    dsimp only
    rw [addOne_of_safe (hsafe f hf)]
    obtain ⟨hlow, _⟩ := hsafe f hf
    refine ⟨by omega, fun g hg => ?_⟩
    have hg := hle g.id (mem_map_of_mem hg)
    omega

section

variable (h : KeepsFacts original s)
include h

theorem KeepsFacts.assign {content : List FactLine}
    (hi : s.calls i = some ⟨kind, .readBack content, newFact⟩)
    (hcontent : ∀ line ∈ content, ∃ f, line = .fact f ∧ SafeId f.id) (hnot : ¬s.MutatorLoaded)
    (anyId : ℤ) : KeepsFacts original (s.assign i kind content anyId) := by
  obtain ⟨hfile, hhistory, hwrites, hread⟩ := h.untouched hnot
  obtain rfl : content = original := hread i _ content hi rfl
  have hthrows : content.any FactLine.throws = false := by
    rw [any_eq_false]
    intro line hline
    obtain ⟨f, rfl, _⟩ := hcontent line hline
    exact Bool.false_ne_true
  have hrecorded := h.book.recorded i _ hi
  have hcopyNone : ∀ j call, (s.setCall i ⟨kind, .loaded s.nextList, none⟩).calls j = some call →
      call.copy? = none := by
    intro j call hj
    rcases setCall_calls_eq_some_iff.mp hj with ⟨rfl, rfl⟩ | ⟨_, hj⟩
    · cases kind <;> rfl
    · cases hcopy : call.copy? with
      | none => rfl
      | some facts => exact absurd (mutatorLoaded_of_copy hj hcopy) hnot
  have hbounds := nextIdAfterLoad_bounds hcontent h.lower anyId
  unfold FactsStore.assign
  rw [hthrows]
  constructor
  · show Bookkeeping (Function.update s.calls i _) s.history s.writes
    refine h.book.advance ⟨rfl, hrecorded.2⟩ ?_
    rw [hwrites]
    exact fun _ hwrite => nomatch hwrite
  · exact fun hcache => nomatch hcache
  · intro _
    refine ⟨hfile, hhistory, hwrites, fun j call content' hj hphase => ?_⟩
    rcases setCall_calls_eq_some_iff.mp hj with ⟨rfl, rfl⟩ | ⟨_, hj⟩
    · cases hphase
    · exact hread j call content' hj hphase
  · intro facts hcache
    cases hcache
    exact Nat.lt_succ_self s.nextList
  · intro j call facts hj hcopy
    rw [hcopyNone j call hj] at hcopy
    cases hcopy
  · intro j k call call' hj _ hcopy
    rw [hcopyNone j call hj] at hcopy
    cases hcopy
  · intro facts hcache _
    cases hcache
    show Function.update s.lists s.nextList content s.nextList = remainingLines content s.history
    rw [Function.update_self, hhistory]
    rfl
  · intro _
    show s.writes.foldl _ s.file = remainingLines content s.history
    rw [hwrites, hfile, hhistory]
    rfl
  · intro j f hevent
    have hevent : FactsEvent.inserted j f ∈ s.history := hevent
    rw [hhistory] at hevent
    cases hevent
  · exact h.foreign
  · exact h.distinct
  · exact fun _ => hbounds.2
  · exact hbounds.1

/-! ## Inserts and removals -/

theorem KeepsFacts.push {content : Str}
    (hi : s.calls i = some ⟨.insert content, .loaded facts, newFact⟩)
    (hcache : s.cache = some facts) (hnot : ¬s.Removing) (hsafe : s.nextId < 2 ^ 53) :
    KeepsFacts original (s.push i content facts) := by
  have hrecorded := h.book.recorded i _ hi
  have hnext : addOne s.nextId = s.nextId + 1 := addOne_of_safe ⟨h.lower, hsafe⟩
  have hbound : ∀ f ∈ factsOf original, f.id < s.nextId :=
    h.bound fun hnone => nomatch hnone.symm.trans hcache
  set call' : FactsCall := ⟨.insert content, .persisting facts, some ⟨s.nextId, content⟩⟩
    with hcall'
  have hnoCopy : ∀ j call, (s.setCall i call').calls j = some call → call.copy? = none := by
    intro j call hj
    rcases setCall_calls_eq_some_iff.mp hj with ⟨rfl, rfl⟩ | ⟨_, hj⟩
    · rfl
    · cases hcopy : call.copy? with
      | none => rfl
      | some facts' => exact absurd ⟨j, call, facts', hj, hcopy⟩ hnot
  constructor
  · refine h.book.record rfl hrecorded.2 ⟨_, rfl, rfl, ?_⟩ (h.book.notWriting ?_)
    · exact mem_append_right _ mem_cons_self
    · intro call facts' hcall hphase
      obtain rfl := Option.some.inj (hi.symm.trans hcall)
      cases hphase
  · intro hnone
    exact nomatch hcache.symm.trans hnone
  · intro hloaded
    refine absurd ⟨i, call', setCall_calls_eq_some_iff.mpr (.inl ⟨rfl, rfl⟩), ?_, rfl⟩ hloaded
    exact fun hkind => nomatch hkind
  · exact h.cacheBound
  · intro j call facts' hj hcopy
    rw [hnoCopy j call hj] at hcopy
    cases hcopy
  · intro j k call call₂ hj _ hcopy
    rw [hnoCopy j call hj] at hcopy
    cases hcopy
  · intro facts' hcache' _
    obtain rfl : facts = facts' := Option.some.inj (hcache.symm.trans hcache')
    show Function.update s.lists facts (s.lists facts ++ [.fact ⟨s.nextId, content⟩]) facts =
      remainingLines original (s.history ++ [.inserted i ⟨s.nextId, content⟩])
    rw [Function.update_self, h.memory facts hcache hnot, remainingLines_append]
    rfl
  · intro hall
    exact nomatch hall i call' (setCall_calls_eq_some_iff.mpr (.inl ⟨rfl, rfl⟩))
  · intro j f hevent
    show f.id < addOne s.nextId
    rw [hnext]
    rcases mem_append.mp hevent with hevent | hevent
    · have hbelow := h.below j f hevent
      omega
    · cases mem_singleton.mp hevent
      exact Int.lt_succ s.nextId
  · intro j f hevent g hg
    rcases mem_append.mp hevent with hevent | hevent
    · exact h.foreign j f hevent g hg
    · cases mem_singleton.mp hevent
      exact ne_of_lt (hbound g hg)
  · intro j k f g hf hg hne
    rcases mem_append.mp hf with hf | hf
    · rcases mem_append.mp hg with hg | hg
      · exact h.distinct j k f g hf hg hne
      · cases mem_singleton.mp hg
        exact ne_of_lt (h.below j f hf)
    · cases mem_singleton.mp hf
      rcases mem_append.mp hg with hg | hg
      · exact ne_of_gt (h.below k g hg)
      · cases mem_singleton.mp hg
        exact absurd rfl hne
  · intro _ f hf
    show f.id < addOne s.nextId
    have hlt := hbound f hf
    omega
  · show -2 ^ 53 < addOne s.nextId
    have hlower := h.lower
    omega

theorem KeepsFacts.filter {id : ℤ} (hi : s.calls i = some ⟨.remove id, .loaded facts, newFact⟩)
    (hcache : s.cache = some facts) (hnot : ¬s.Removing) :
    KeepsFacts original (s.filter i id facts) := by
  have hrecorded := h.book.recorded i _ hi
  set call' : FactsCall := ⟨.remove id, .persisting s.nextList, none⟩ with hcall'
  have hself : (s.setCall i call').calls i = some call' :=
    setCall_calls_eq_some_iff.mpr (.inl ⟨rfl, rfl⟩)
  have hcopies : ∀ j call facts', (s.setCall i call').calls j = some call →
      call.copy? = some facts' → j = i ∧ facts' = s.nextList := by
    intro j call facts' hj hcopy
    rcases setCall_calls_eq_some_iff.mp hj with ⟨rfl, rfl⟩ | ⟨_, hj⟩
    · exact ⟨rfl, (Option.some.inj hcopy).symm⟩
    · exact absurd ⟨j, call, facts', hj, hcopy⟩ hnot
  have hnone : ∀ j f, FactsEvent.inserted j f ∈ s.history ++ [.removed i id] →
      .inserted j f ∈ s.history := by
    intro j f hevent
    rcases mem_append.mp hevent with hevent | hevent
    · exact hevent
    · cases mem_singleton.mp hevent
  constructor
  · refine h.book.record rfl hrecorded.2 ⟨rfl, ?_⟩ (h.book.notWriting ?_)
    · exact mem_append_right _ mem_cons_self
    · intro call facts' hcall hphase
      obtain rfl := Option.some.inj (hi.symm.trans hcall)
      cases hphase
  · intro hnil
    exact nomatch hcache.symm.trans hnil
  · intro hloaded
    refine absurd ⟨i, call', hself, ?_, rfl⟩ hloaded
    exact fun hkind => nomatch hkind
  · intro facts' hcache'
    exact Nat.lt_succ_of_lt (h.cacheBound facts' hcache')
  · intro j call facts' hj hcopy
    obtain ⟨rfl, rfl⟩ := hcopies j call facts' hj hcopy
    refine ⟨Nat.lt_succ_self s.nextList, ?_⟩
    show Function.update s.lists s.nextList ((s.lists facts).filter (FactLine.keeps id))
      s.nextList = remainingLines original (s.history ++ [.removed j id])
    rw [Function.update_self, h.memory facts hcache hnot, remainingLines_append]
    rfl
  · intro j k call₁ call₂ hj hk hcopy hcopy'
    obtain ⟨facts₁, hcopy⟩ := Option.isSome_iff_exists.mp hcopy
    obtain ⟨facts₂, hcopy'⟩ := Option.isSome_iff_exists.mp hcopy'
    rw [(hcopies j call₁ facts₁ hj hcopy).1, (hcopies k call₂ facts₂ hk hcopy').1]
  · intro facts' _ hremoving
    exact absurd ⟨i, call', s.nextList, hself, rfl⟩ hremoving
  · intro hall
    exact nomatch hall i call' hself
  · exact fun j f hevent => h.below j f (hnone j f hevent)
  · exact fun j f hevent => h.foreign j f (hnone j f hevent)
  · exact fun j k f g hf hg => h.distinct j k f g (hnone j f hf) (hnone k g hg)
  · exact h.bound
  · exact h.lower

theorem KeepsFacts.read (hi : s.calls i = some ⟨.read, .loaded facts, newFact⟩) :
    KeepsFacts original (s.setCall i ⟨.read, .finished, newFact⟩) := by
  have hsame : ∀ call, s.calls i = some call → call = ⟨.read, .loaded facts, newFact⟩ :=
    fun call hcall => Option.some.inj (hcall.symm.trans hi)
  have hrecorded := h.book.recorded i _ hi
  apply h.advance
  · constructor
    · intro call hcall
      rw [hsame call hcall]
      exact ⟨rfl, rfl, fun _ => rfl⟩
    · intro hnone
      rw [hi] at hnone
      cases hnone
  · exact ⟨hrecorded.1, rfl, hrecorded.2⟩
  · apply h.book.notWriting
    intro call facts' hcall hphase
    rw [hsame call hcall] at hphase
    cases hphase
  · intro call hcall
    rw [hsame call hcall]
    rfl
  · intro hcache
    exact nomatch h.noCache hcache i _ hi
  · exact fun _ _ hphase => nomatch hphase

end

/-! ## Writes -/

/-- Whoever writes is no reader. -/
theorem Bookkeeping.kind_ne_read {calls : ℕ → Option FactsCall} {history : List FactsEvent}
    {writes : List (ℕ × List FactLine)} (h : Bookkeeping calls history writes)
    (hi : calls i = some call) (hpast : call.phase.pastProceed = true)
    (hphase : call.phase ≠ .finished) : call.kind ≠ .read := by
  intro hkind
  have hrecorded := h.recorded i call hi
  rw [FactsCall.Recorded, hpast, hkind] at hrecorded
  exact hphase hrecorded.2.1

/-- A write that is called is one of what is left, or another one is still to be called. -/
theorem KeepsFacts.lists_of_writeFile (h : KeepsFacts original s)
    (hi : s.calls i = some ⟨kind, .persisting facts, newFact⟩)
    (hcareful : ∀ content, kind = .insert content → s.cache = some facts ∧ ¬s.RemovingWritten)
    (hall : ∀ j call, j ≠ i → s.calls j = some call → call.phase.isPersisting = false) :
    s.lists facts = remainingLines original s.history := by
  cases kind with
  | insert content =>
    obtain ⟨hcache, hnot⟩ := hcareful content rfl
    apply h.memory facts hcache
    rintro ⟨j, call, facts', hj, hcopy⟩
    by_cases hji : j = i
    · subst hji
      obtain rfl := Option.some.inj (hi.symm.trans hj)
      cases hcopy
    · exact hnot ⟨j, call, facts', hj, hcopy, hall j call hji hj⟩
  | remove id => exact (h.copy i _ facts hi rfl).2
  | read => exact absurd rfl (h.book.kind_ne_read hi rfl fun hphase => nomatch hphase)

theorem foldl_writes_append (writes : List (ℕ × List FactLine)) (file lines : List FactLine) :
    (writes ++ [(i, lines)]).foldl (fun _ write => write.2) file = lines := by
  rw [foldl_append]
  rfl

/-- A call whose write is called, or has taken effect, goes on with its array. -/
theorem KeepsFacts.goOn {phase phase' : FactsPhase} {file : List FactLine}
    {writes : List (ℕ × List FactLine)} (h : KeepsFacts original s)
    (hphases : phase = .persisting facts ∧ phase' = .writing facts ∨
      phase = .writing facts ∧ phase' = .written facts)
    (hi : s.calls i = some ⟨kind, phase, newFact⟩)
    (hbook : FactsCall.Recorded ⟨kind, phase', newFact⟩ i s.history →
      Bookkeeping (s.setCall i ⟨kind, phase', newFact⟩).calls s.history writes)
    (hfile : (∀ j call, j ≠ i → s.calls j = some call → call.phase.isPersisting = false) →
      writes.foldl (fun _ write => write.2) file = remainingLines original s.history) :
    KeepsFacts original { s.setCall i ⟨kind, phase', newFact⟩ with file, writes } := by
  have hkind : kind ≠ .read := by
    rcases hphases with ⟨rfl, -⟩ | ⟨rfl, -⟩ <;>
      exact h.book.kind_ne_read hi rfl fun hphase => nomatch hphase
  have hgoes : GoesOn s i ⟨kind, phase', newFact⟩ := by
    constructor
    · intro call hcall
      obtain rfl := Option.some.inj (hi.symm.trans hcall)
      rcases hphases with ⟨rfl, rfl⟩ | ⟨rfl, rfl⟩ <;> cases kind <;> exact ⟨rfl, rfl, fun _ => rfl⟩
    · intro hnone
      rw [hi] at hnone
      cases hnone
  have hrecorded : FactsCall.Recorded ⟨kind, phase', newFact⟩ i s.history := by
    have hrecorded := h.book.recorded i _ hi
    rcases hphases with ⟨rfl, rfl⟩ | ⟨rfl, rfl⟩ <;> cases kind <;>
      first | exact hrecorded | exact absurd rfl hkind
  have hload : phase.pastLoad = true := by
    rcases hphases with ⟨rfl, -⟩ | ⟨rfl, -⟩ <;> rfl
  constructor
  · exact hbook hrecorded
  · intro hcache
    exact nomatch (h.noCache hcache i _ hi).symm.trans hload
  · intro hnot
    exact absurd (hgoes.mutatorLoaded ⟨i, _, hi, hkind, hload⟩) hnot
  · exact h.cacheBound
  · exact fun _ _ _ => h.copy_setCall hgoes
  · exact h.single_setCall hgoes
  · exact fun facts' hcache hnot => h.memory facts' hcache fun hs => hnot (hgoes.removing hs)
  · intro hall
    exact hfile fun j call hji hj => hall j call (setCall_calls_eq_some_iff.mpr (.inr ⟨hji, hj⟩))
  · exact h.below
  · exact h.foreign
  · exact h.distinct
  · exact h.bound
  · exact h.lower

theorem KeepsFacts.writeFile (h : KeepsFacts original s)
    (hi : s.calls i = some ⟨kind, .persisting facts, newFact⟩)
    (hcareful : ∀ content, kind = .insert content → s.cache = some facts ∧ ¬s.RemovingWritten) :
    KeepsFacts original (s.writeFile i ⟨kind, .persisting facts, newFact⟩ facts) := by
  refine h.goOn (.inl ⟨rfl, rfl⟩) hi (fun hrecorded => h.book.enqueue hrecorded rfl ?_ (s.lists facts))
    fun hall => ?_
  · apply h.book.notWriting
    intro call facts' hcall hphase
    obtain rfl := Option.some.inj (hi.symm.trans hcall)
    cases hphase
  · rw [foldl_writes_append]
    exact h.lists_of_writeFile hi hcareful hall

theorem KeepsFacts.takeEffect (h : KeepsFacts original s)
    {lines : List FactLine} {writes : List (ℕ × List FactLine)}
    (hwrites : s.writes = (i, lines) :: writes)
    (hi : s.calls i = some ⟨kind, .writing facts, newFact⟩) :
    KeepsFacts original { s.setCall i ⟨kind, .written facts, newFact⟩ with
      file := lines
      writes := writes } := by
  have hbook := h.book
  rw [hwrites] at hbook
  refine h.goOn (.inr ⟨rfl, rfl⟩) hi hbook.dequeue fun hall => ?_
  rw [← h.file, FactsStore.lastWritten, hwrites, foldl_cons]
  intro j call hj
  by_cases hji : j = i
  · subst hji
    obtain rfl := Option.some.inj (hi.symm.trans hj)
    rfl
  · exact hall j call hji hj

theorem KeepsFacts.resume (h : KeepsFacts original s)
    (hi : s.calls i = some ⟨kind, .written facts, newFact⟩) :
    KeepsFacts original (s.resume i ⟨kind, .written facts, newFact⟩ facts) := by
  have hsame : ∀ call, s.calls i = some call → call = ⟨kind, .written facts, newFact⟩ :=
    fun call hcall => Option.some.inj (hcall.symm.trans hi)
  have hrecorded := h.book.recorded i _ hi
  have hwriting : ∀ write ∈ s.writes, write.1 ≠ i := by
    apply h.book.notWriting
    intro call facts' hcall hphase
    rw [hsame call hcall] at hphase
    cases hphase
  have hsome : s.cache ≠ none := fun hcache => nomatch h.noCache hcache i _ hi
  cases kind with
  | read => exact absurd rfl (h.book.kind_ne_read hi rfl fun hphase => nomatch hphase)
  | insert content =>
    show KeepsFacts original (s.setCall i ⟨.insert content, .finished, newFact⟩)
    apply h.advance
    · constructor
      · intro call hcall
        rw [hsame call hcall]
        exact ⟨rfl, rfl, fun _ => rfl⟩
      · intro hnone
        rw [hi] at hnone
        cases hnone
    · exact hrecorded
    · exact hwriting
    · intro call hcall
      rw [hsame call hcall]
      rfl
    · exact fun hcache => absurd hcache hsome
    · exact fun _ _ hphase => nomatch hphase
  | remove id =>
    -- the copy becomes the current array
    obtain ⟨hlt, hlists⟩ := h.copy i _ facts hi rfl
    set call' : FactsCall := ⟨.remove id, .finished, newFact⟩ with hcall'
    have hself : (s.setCall i call').calls i = some call' :=
      setCall_calls_eq_some_iff.mpr (.inl ⟨rfl, rfl⟩)
    have hnoCopy : ∀ j call, (s.setCall i call').calls j = some call → call.copy? = none := by
      intro j call hj
      rcases setCall_calls_eq_some_iff.mp hj with ⟨rfl, rfl⟩ | ⟨hji, hj⟩
      · rfl
      · cases hcopy : call.copy? with
        | none => rfl
        | some facts' =>
          exact absurd (h.single j i call _ hj hi (hcopy ▸ rfl) rfl) hji
    constructor
    · exact h.book.advance hrecorded hwriting
    · exact fun hcache => nomatch hcache
    · intro hloaded
      refine absurd ⟨i, call', hself, ?_, rfl⟩ hloaded
      exact fun hkind => nomatch hkind
    · intro facts' hcache
      cases hcache
      exact hlt
    · intro j call facts' hj hcopy
      rw [hnoCopy j call hj] at hcopy
      cases hcopy
    · intro j k call call₂ hj _ hcopy
      rw [hnoCopy j call hj] at hcopy
      cases hcopy
    · intro facts' hcache _
      cases hcache
      exact hlists
    · intro hall
      apply h.file
      intro j call hj
      by_cases hji : j = i
      · subst hji
        rw [hsame call hj]
        rfl
      · exact hall j call (setCall_calls_eq_some_iff.mpr (.inr ⟨hji, hj⟩))
    · exact h.below
    · exact h.foreign
    · exact h.distinct
    · exact fun _ => h.bound hsome
    · exact h.lower

/-! ## Runs -/

def FactsStep (s : FactsStore) (action : FactsAction) (s' : FactsStore) : Prop :=
  s.step action = some s'

theorem KeepsFacts.step {action : FactsAction} (h : KeepsFacts original s)
    (hstep : FactsStep s action s') (hcareful : CarefulFactsStep s action) :
    KeepsFacts original s' := by
  unfold FactsStep at hstep
  cases action with
  | start i kind =>
    rw [FactsStore.step] at hstep
    split at hstep
    · rename_i hi
      cases hstep
      exact h.start hi kind
    · cases hstep
  | readFile i =>
    rw [FactsStore.step] at hstep
    split at hstep
    · rename_i hi
      cases hstep
      exact h.readFile hi
    · cases hstep
  | assign i anyId =>
    rw [FactsStore.step] at hstep
    split at hstep
    · rename_i kind content newFact hi
      cases hstep
      obtain ⟨hcontent, hnot⟩ := hcareful kind content newFact hi
      exact h.assign hi hcontent hnot anyId
    · cases hstep
  | proceed i =>
    rw [FactsStore.step] at hstep
    split at hstep
    · rename_i kind facts newFact hi
      cases hstep
      cases kind with
      | insert content =>
        obtain ⟨hcache, hnot, hsafe⟩ := hcareful _ facts newFact hi fun hkind => nomatch hkind
        exact h.push hi hcache hnot hsafe
      | remove id =>
        obtain ⟨hcache, hnot, _⟩ := hcareful _ facts newFact hi fun hkind => nomatch hkind
        exact h.filter hi hcache hnot
      | read => exact h.read hi
    · cases hstep
  | writeFile i =>
    rw [FactsStore.step] at hstep
    split at hstep
    · rename_i kind facts newFact hi
      cases hstep
      apply h.writeFile hi
      rintro content rfl
      exact hcareful content facts newFact hi
    · cases hstep
  | takeEffect =>
    rw [FactsStore.step] at hstep
    split at hstep
    · rename_i hwrites
      split at hstep
      · rename_i hi
        cases hstep
        exact h.takeEffect hwrites hi
      · cases hstep
    · cases hstep
  | resume i =>
    rw [FactsStore.step] at hstep
    split at hstep
    · rename_i hi
      cases hstep
      exact h.resume hi
    · cases hstep

theorem Bookkeeping.mem_of_newFact {calls : ℕ → Option FactsCall} {history : List FactsEvent}
    {writes : List (ℕ × List FactLine)} {newFact : Fact} (h : Bookkeeping calls history writes)
    (hi : calls i = some call) (hnew : call.newFact = some newFact) :
    .inserted i newFact ∈ history := by
  have hrecorded := h.recorded i call hi
  unfold FactsCall.Recorded at hrecorded
  split at hrecorded
  · obtain ⟨f, hf, _, hmem⟩ := hrecorded
    rw [hnew] at hf
    cases hf
    exact hmem
  · exact nomatch hnew.symm.trans hrecorded.1
  · exact nomatch hnew.symm.trans hrecorded.1
  · exact nomatch hnew.symm.trans hrecorded.1

theorem Bookkeeping.exists_did {calls : ℕ → Option FactsCall} {history : List FactsEvent}
    {writes : List (ℕ × List FactLine)} (h : Bookkeeping calls history writes)
    (hevent : event ∈ history) : ∃ call, calls event.call = some call ∧ call.Did event := by
  cases hcall : calls event.call with
  | none => exact absurd rfl (h.unknown _ hcall event hevent)
  | some call =>
    have hsame : ∀ event' ∈ history, event'.call = event.call → event' = event :=
      fun event' hevent' => inj_on_of_nodup_map h.once hevent' hevent
    have hrecorded := h.recorded _ call hcall
    refine ⟨call, rfl, ?_⟩
    unfold FactsCall.Recorded at hrecorded
    split at hrecorded
    · rename_i hkind
      obtain ⟨f, hf, hcontent, hmem⟩ := hrecorded
      rw [← hsame _ hmem rfl]
      exact ⟨hf, hcontent ▸ hkind⟩
    · rename_i hkind
      rw [← hsame _ hrecorded.2 rfl]
      exact hkind
    · exact absurd rfl (hrecorded.2.2 event hevent)
    · exact absurd rfl (hrecorded.2 event hevent)

theorem FactsStore.Quiescent.not_removing (h : s.Quiescent) : ¬s.Removing := by
  rintro ⟨i, call, facts, hi, hcopy⟩
  have hphase := h i call hi
  unfold FactsCall.copy? at hcopy
  split at hcopy
  all_goals simp_all

theorem KeepsFacts.losesNoFact (h : KeepsFacts original s) : LosesNoFact original s where
  distinct i j call call' newFact newFact' hne hi hj hnew hnew' :=
    h.distinct i j newFact newFact' (h.book.mem_of_newFact hi hnew)
      (h.book.mem_of_newFact hj hnew') hne
  fresh i call newFact hi hnew := h.foreign i newFact (h.book.mem_of_newFact hi hnew)
  events event hevent := h.book.exists_did hevent
  once := h.book.once
  finished i call hi hphase hkind := by
    have hrecorded := h.book.recorded i call hi
    rw [FactsCall.Recorded, hphase] at hrecorded
    cases hcallKind : call.kind with
    | insert content =>
      rw [hcallKind] at hrecorded
      obtain ⟨f, _, _, hmem⟩ := hrecorded
      exact ⟨_, hmem, rfl⟩
    | remove id =>
      rw [hcallKind] at hrecorded
      exact ⟨_, hrecorded.2, rfl⟩
    | read => exact absurd hcallKind hkind
  memory hquiet facts hcache := by
    rw [h.memory facts hcache hquiet.not_removing, factsOf_remainingLines]
  file hquiet := by
    have hwrites : s.writes = [] := by
      rw [eq_nil_iff_forall_not_mem]
      intro write hwrite
      obtain ⟨call, facts, hcall, hphase⟩ := h.book.writing write hwrite
      exact nomatch hphase.symm.trans (hquiet _ call hcall)
    have hlast : s.file = remainingLines original s.history := by
      rw [← h.file fun i call hi => by rw [hquiet i call hi]; rfl, FactsStore.lastWritten, hwrites]
      rfl
    rw [hlast, factsOf_remainingLines]

/-- The state behind the steps. -/
def FactsStore.runActions : FactsStore → List FactsAction → Option FactsStore
  | s, [] => some s
  | s, action :: actions => (s.step action).bind fun s' => s'.runActions actions

theorem run_of_runActions {actions : List FactsAction} (h : s.runActions actions = some s') :
    Lts.Run FactsStep s actions s' := by
  induction actions generalizing s with
  | nil =>
    cases h
    exact .nil _
  | cons action actions ih =>
    obtain ⟨t, hstep, hrest⟩ := Option.bind_eq_some_iff.mp h
    exact .cons hstep (ih hrest)

/-- A step of the only call is careful. -/
theorem carefulFactsStep_of_only (honly : ∀ j, j ≠ i → s.calls j = none)
    (hi : s.calls i = some call) (hkind : call.kind ≠ .read) (hsafe : s.nextId < 2 ^ 53)
    (hphase : match call.phase with
      | .readBack content => ∀ line ∈ content, ∃ f, line = .fact f ∧ SafeId f.id
      | .loaded facts | .persisting facts => s.cache = some facts
      | _ => False) :
    CarefulFactsStep s (.assign i 0) ∧ CarefulFactsStep s (.proceed i) ∧
      CarefulFactsStep s (.writeFile i) := by
  have hsame : ∀ j call', s.calls j = some call' → call' = call := by
    intro j call' hj
    by_cases hji : j = i
    · subst hji
      exact Option.some.inj (hj.symm.trans hi)
    · exact nomatch hj.symm.trans (honly j hji)
  refine ⟨fun kind content newFact hcall => ?_, fun kind facts newFact hcall _ => ?_,
    fun content facts newFact hcall => ?_⟩
  · obtain rfl := hsame i _ hcall
    refine ⟨hphase, ?_⟩
    rintro ⟨j, call', hj, _, hload⟩
    rw [hsame j call' hj] at hload
    cases hload
  · obtain rfl := hsame i _ hcall
    refine ⟨hphase, ?_, hsafe⟩
    rintro ⟨j, call', facts', hj, hcopy⟩
    rw [hsame j call' hj] at hcopy
    cases kind <;> cases hcopy
  · obtain rfl := hsame i _ hcall
    refine ⟨hphase, ?_⟩
    rintro ⟨j, call', facts', hj, hcopy, _⟩
    rw [hsame j call' hj] at hcopy
    cases hcopy

def sampleFacts : List FactLine := [.fact ⟨3, "a".toList⟩]

def sampleInsert : List FactsAction :=
  [.start 0 (.insert "b".toList), .readFile 0, .assign 0 0, .proceed 0, .writeFile 0, .takeEffect,
    .resume 0]

end OpenClaw
