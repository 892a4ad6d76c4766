import OpenClaw.Followup.Account
import OpenClaw.Followup.Stops
import Mathlib.Data.List.Nodup

/-!
# Every message once

The books of a run: what was accepted is what was handed over, what waits, what was dropped
in front and what was cleared; and what was dropped to be summarized is what was summarized,
what is still counted and what was cleared. The books balance as long as no message is
dropped from under a call in progress and no summary takes the place of a prompt.
-/

namespace OpenClaw

open Lts List

/-! ## What happened -/

namespace FollowupEvent

def acceptedItems : FollowupEvent → List QueuedRun
  | accepted item => [item]
  | _ => []

/-- The messages that were dropped in front. -/
def droppedItems : FollowupEvent → List QueuedRun
  | dropped items _ => items
  | _ => []

/-- Those of them that are to be summarized. -/
def countedItems : FollowupEvent → List QueuedRun
  | dropped items policy => if policy = .summarize then items else []
  | _ => []

/-- The messages that the drain of the queue in the map handed over. -/
def handedItems : FollowupEvent → List QueuedRun
  | called true call => call.messages
  | _ => []

/-- The messages that the drain of a removed queue handed over. -/
def lateItems : FollowupEvent → List QueuedRun
  | called false call => call.messages
  | _ => []

def summarizedItems : FollowupEvent → List QueuedRun
  | called _ call => call.dropped
  | _ => []

/-- The messages that a clear removed while they were waiting. -/
def clearedItems : FollowupEvent → List QueuedRun
  | cleared queue => queue.waiting
  | _ => []

/-- The dropped messages that a clear removed from the count. -/
def clearedCounts : FollowupEvent → List QueuedRun
  | cleared queue => queue.unsummarized
  | _ => []

end FollowupEvent

variable (f : FollowupEvent → List QueuedRun) (labels : List (FollowupAction × List FollowupEvent))

/-- What the events of a run add up to. -/
def itemsOf : List QueuedRun :=
  labels.flatMap fun label => label.2.flatMap f

theorem itemsOf_snoc (label : FollowupAction × List FollowupEvent) :
    itemsOf f (labels ++ [label]) = itemsOf f labels ++ label.2.flatMap f := by
  simp [itemsOf]

namespace FollowupQueues

open FollowupQueueState FollowupEvent

variable {host : RouteHost} {w w' : FollowupQueues} {q : FollowupQueueState}
  {label : FollowupAction × List FollowupEvent} {events : List FollowupEvent}
  {labels : List (FollowupAction × List FollowupEvent)}

variable (w)

def waiting : List QueuedRun := waitingIn w.queue

def unsummarized : List QueuedRun := unsummarizedIn w.queue

variable {w}

/-- The books of a run balance. -/
structure DeliversOnce (labels : List (FollowupAction × List FollowupEvent))
    (w : FollowupQueues) : Prop where
  /-- No message is accepted twice. -/
  distinct : (itemsOf acceptedItems labels).Nodup
  /-- A message that was accepted was handed over, or waits, or was dropped, or was cleared,
  and that once. -/
  accounted : (itemsOf acceptedItems labels).Perm
    (itemsOf handedItems labels ++ w.waiting ++ itemsOf droppedItems labels ++
      itemsOf clearedItems labels)
  inOrder : (itemsOf handedItems labels ++ w.waiting).Sublist (itemsOf acceptedItems labels)
  /-- The drain of a removed queue hands over cleared messages, each of them once. -/
  late : (itemsOf lateItems labels).Subperm (itemsOf clearedItems labels)
  /-- A dropped message that is to be summarized was summarized, or is counted, or was
  cleared, and that once. -/
  summarized : (itemsOf countedItems labels).Perm
    (itemsOf summarizedItems labels ++ w.unsummarized ++ itemsOf clearedCounts labels)
  delivers : ∀ label ∈ labels, ∀ inMap call, .called inMap call ∈ label.2 → call.Delivers

variable (host w)

/-- The action drops no message from under a call in progress and puts no summary in place of
a prompt. -/
def Spares : FollowupAction → Prop
  | .enqueue call =>
    isDuplicate host (w.getFollowupQueue call.settings) call = true ∨
      (w.getFollowupQueue call.settings).refusesNew = true ∨
      (w.getFollowupQueue call.settings).OverflowSafe
  | .drain _ => ∀ q d, w.queue = some q → q.drain = some d → q.SparesPrompt d.phase
  | _ => True

variable (label)

/-- The steps in which `runFollowup` does not reject and the queue is spared. -/
def SafeStep (w' : FollowupQueues) : Prop :=
  w.ResolvingStep host label w' ∧ w.Spares host label.1

variable {label}

variable {host w}

/-! ## The books -/

/-- What holds of a state and the run to it. -/
structure Ledger (w : FollowupQueues) (labels : List (FollowupAction × List FollowupEvent)) :
    Prop where
  ids : (itemsOf acceptedItems labels).map (·.id) = List.range w.nextId
  accounted : (itemsOf acceptedItems labels).Perm
    (itemsOf handedItems labels ++ w.waiting ++ itemsOf droppedItems labels ++
      itemsOf clearedItems labels)
  inOrder : (itemsOf handedItems labels ++ w.waiting).Sublist (itemsOf acceptedItems labels)
  late : (itemsOf lateItems labels ++ w.removed.flatMap groupsLeft).Subperm
    (itemsOf clearedItems labels)
  summarized : (itemsOf countedItems labels).Perm
    (itemsOf summarizedItems labels ++ w.unsummarized ++ itemsOf clearedCounts labels)
  delivers : ∀ label ∈ labels, ∀ inMap call, .called inMap call ∈ label.2 → call.Delivers
  orderly : ∀ q, w.queue = some q → q.Orderly
  removed : ∀ q ∈ w.removed, q.Emptied

/-- What a step adds to the books. -/
structure Entry (w : FollowupQueues) (events : List FollowupEvent) (w' : FollowupQueues) :
    Prop where
  ids : (events.flatMap acceptedItems).map (·.id) = List.range' w.nextId (w'.nextId - w.nextId)
  nextId : w.nextId ≤ w'.nextId
  accounted : (w.waiting ++ events.flatMap acceptedItems).Perm
    (events.flatMap handedItems ++ w'.waiting ++ events.flatMap droppedItems ++
      events.flatMap clearedItems)
  inOrder : (events.flatMap handedItems ++ w'.waiting).Sublist
    (w.waiting ++ events.flatMap acceptedItems)
  late : (events.flatMap lateItems ++ w'.removed.flatMap groupsLeft).Subperm
    (w.removed.flatMap groupsLeft ++ events.flatMap clearedItems)
  summarized : (w.unsummarized ++ events.flatMap countedItems).Perm
    (events.flatMap summarizedItems ++ w'.unsummarized ++ events.flatMap clearedCounts)
  delivers : ∀ inMap call, .called inMap call ∈ events → call.Delivers
  orderly : ∀ q, w'.queue = some q → q.Orderly
  removed : ∀ q ∈ w'.removed, q.Emptied

theorem ledger_initial : Ledger initial [] where
  ids := rfl
  accounted := List.Perm.refl _
  inOrder := List.Sublist.refl _
  late := List.Subperm.refl _
  summarized := List.Perm.refl _
  delivers := by simp
  orderly := by simp [initial]
  removed := by simp [initial]

theorem Ledger.snoc (h : Ledger w labels) (hentry : Entry w label.2 w') :
    Ledger w' (labels ++ [label]) := by
  constructor
  · rw [itemsOf_snoc, map_append, h.ids, hentry.ids, range_eq_range', range_eq_range']
    have hle := hentry.nextId
    have happend := List.range'_append_1 (s := 0) (m := w.nextId) (n := w'.nextId - w.nextId)
    rw [Nat.zero_add, Nat.add_sub_cancel' hle] at happend
    exact happend
  · simp only [itemsOf_snoc]
    -- both sides by their counts
    rw [perm_iff_count]
    intro item
    have hold := h.accounted.count_eq item
    have hnew := hentry.accounted.count_eq item
    simp only [count_append] at hold hnew ⊢
    omega
  · simp only [itemsOf_snoc]
    have hold := h.inOrder
    have hnew := hentry.inOrder
    have hmiddle : (itemsOf handedItems labels ++ label.2.flatMap handedItems ++ w'.waiting).Sublist
        (itemsOf handedItems labels ++ w.waiting ++ label.2.flatMap acceptedItems) := by
      rw [append_assoc, append_assoc]
      exact hnew.append_left _
    exact hmiddle.trans (hold.append_right _)
  · simp only [itemsOf_snoc]
    rw [subperm_ext_iff]
    intro item _
    have hold := h.late.count_le item
    have hnew := hentry.late.count_le item
    simp only [count_append] at hold hnew ⊢
    omega
  · simp only [itemsOf_snoc]
    rw [perm_iff_count]
    intro item
    have hold := h.summarized.count_eq item
    have hnew := hentry.summarized.count_eq item
    simp only [count_append] at hold hnew ⊢
    omega
  · intro label' hlabel' inMap call hcall
    rcases mem_append.mp hlabel' with hin | hlast
    · exact h.delivers label' hin inMap call hcall
    · rw [mem_singleton] at hlast
      exact hentry.delivers inMap call (hlast ▸ hcall)
  · exact hentry.orderly
  · exact hentry.removed

/-! ## The entries of the actions -/

/-- What a step changes that is in no book. -/
structure Rests (w w' : FollowupQueues) : Prop where
  waiting : w'.waiting = w.waiting
  unsummarized : w'.unsummarized = w.unsummarized
  removed : w'.removed = w.removed
  nextId : w'.nextId = w.nextId
  orderly : (∀ q, w.queue = some q → q.Orderly) → ∀ q, w'.queue = some q → q.Orderly

variable (w)

theorem Rests.refl : Rests w w := ⟨rfl, rfl, rfl, rfl, id⟩

theorem rests_schedule : Rests w w.scheduleFollowupDrain := by
  unfold scheduleFollowupDrain
  split
  · exact .refl w
  · next q hq =>
    split
    · exact .refl w
    · next hdrain =>
      have hnone : q.drain = none := by simpa using hdrain
      have hwaiting : q.waiting = q.items := by
        unfold FollowupQueueState.waiting inProgress
        rw [hnone, drop_zero]
      have hdropped : q.unsummarized = q.dropped := by
        unfold FollowupQueueState.unsummarized summaryInProgress
        rw [hnone]
        rfl
      refine ⟨?_, ?_, settle_removed _ _, settle_nextId _ _, fun _ q' hq' => ?_⟩
      · unfold waiting
        rw [settle_queue, waitingIn_loopHead, hq]
        exact hwaiting.symm
      · unfold unsummarized
        rw [settle_queue, unsummarizedIn_loopHead, hq]
        exact hdropped.symm
      · rw [settle_queue] at hq'
        exact orderly_loopHead hq'

variable {w}

/-- A step without events. -/
theorem Entry.of_rests (h : Ledger w labels) (hrests : Rests w w') : Entry w [] w' where
  ids := by rw [hrests.nextId, Nat.sub_self]; rfl
  nextId := hrests.nextId.ge
  accounted := by simp [hrests.waiting]
  inOrder := by simp [hrests.waiting]
  late := by simp [hrests.removed, List.Subperm.refl]
  summarized := by simp [hrests.unsummarized]
  delivers _ _ hcall := absurd hcall (by simp)
  orderly := hrests.orderly h.orderly
  removed q hq := h.removed q (hrests.removed ▸ hq)

/-- What follows on an entry without a change of the books. -/
theorem Entry.trans_rests {w'' : FollowupQueues} (h : Entry w events w') (hrests : Rests w' w'') :
    Entry w events w'' where
  ids := hrests.nextId ▸ h.ids
  nextId := hrests.nextId ▸ h.nextId
  accounted := hrests.waiting ▸ h.accounted
  inOrder := hrests.waiting ▸ h.inOrder
  late := hrests.removed ▸ h.late
  summarized := hrests.unsummarized ▸ h.summarized
  delivers := h.delivers
  orderly := hrests.orderly h.orderly
  removed q hq := h.removed q (hrests.removed ▸ hq)

variable (w)

/-- Settings and the last run are in no book. -/
theorem getFollowupQueue_account (settings : QueueSettings) :
    (w.getFollowupQueue settings).waiting = w.waiting ∧
      (w.getFollowupQueue settings).unsummarized = w.unsummarized ∧
      ((∀ q, w.queue = some q → q.Orderly) → (w.getFollowupQueue settings).Orderly) := by
  unfold getFollowupQueue waiting unsummarized
  cases hq : w.queue with
  | none => exact ⟨rfl, rfl, fun _ => trivial⟩
  | some q => exact ⟨rfl, rfl, fun h => h q rfl⟩

theorem rests_kick : Rests w w.kickFollowupDrainIfIdle := by
  unfold kickFollowupDrainIfIdle
  split
  · exact rests_schedule w
  · exact .refl w

variable {w}

/-- An accepted message, up to the start of the drain. -/
theorem entry_pushed (h : Ledger w labels) (call : EnqueueCall) {queue : FollowupQueueState}
    (hroom : queue.OverflowSafe) (hwaiting : queue.waiting = w.waiting)
    (hdropped : queue.unsummarized = w.unsummarized) (horderly : queue.Orderly)
    (hasCallback : Bool) : Entry w [.dropped (queue.items.take queue.dropCount) queue.dropPolicy,
        .accepted ⟨w.nextId, call.run⟩]
      { w with
        queue := some (({ queue with lastRun := some call.run.run } :
          FollowupQueueState).pushed ⟨w.nextId, call.run⟩)
        hasCallback := hasCallback
        nextId := w.nextId + 1 } := by
  let touched : FollowupQueueState := { queue with lastRun := some call.run.run }
  have hroom' : touched.OverflowSafe := hroom
  have horderly' : touched.Orderly := horderly
  have hsplit := waiting_pushed horderly' hroom' ⟨w.nextId, call.run⟩
  have hcount := unsummarized_pushed hroom' ⟨w.nextId, call.run⟩
  have htouched : touched.waiting = w.waiting := hwaiting
  have hcounted : touched.unsummarized = w.unsummarized := hdropped
  rw [htouched] at hsplit
  rw [hcounted] at hcount
  constructor
  · simp [acceptedItems]
  · exact Nat.le_succ _
  · simp only [flatMap_cons, flatMap_nil, acceptedItems, handedItems, droppedItems,
      clearedItems, append_nil, nil_append]
    rw [hsplit]
    exact perm_append_comm
  · simp only [flatMap_cons, flatMap_nil, acceptedItems, handedItems, append_nil, nil_append]
    rw [hsplit]
    exact sublist_append_right _ _
  · simp [lateItems, clearedItems, List.Subperm.refl]
  · simp only [flatMap_cons, flatMap_nil, countedItems, summarizedItems, clearedCounts,
      append_nil, nil_append]
    exact List.Perm.of_eq hcount.symm
  · simp
  · intro q hq
    exact Option.some.inj hq ▸ orderly_pushed horderly' hroom' _
  · exact h.removed

theorem entry_enqueue (h : Ledger w labels) (call : EnqueueCall)
    (hsafe : w.Spares host (.enqueue call)) :
    Entry w (w.enqueueFollowupRun host call).2 (w.enqueueFollowupRun host call).1 := by
  obtain ⟨hwaiting, hdropped, horderly⟩ := getFollowupQueue_account w call.settings
  have hkept : ∀ queue : FollowupQueueState, queue.waiting = w.waiting →
      queue.unsummarized = w.unsummarized → queue.Orderly →
      Rests w { w with queue := some queue } := fun queue hw hd ho =>
    ⟨hw, hd, rfl, rfl, fun _ q hq => Option.some.inj hq ▸ ho⟩
  unfold FollowupQueues.enqueueFollowupRun
  dsimp only
  split
  · exact .of_rests h (hkept _ hwaiting hdropped (horderly h.orderly))
  · next hduplicate =>
    split
    · exact .of_rests h (hkept _ hwaiting hdropped (horderly h.orderly))
    · next hrefused =>
      have hroom : (w.getFollowupQueue call.settings).OverflowSafe := by
        rcases hsafe with hsame | hnew | hroom
        · exact absurd hsame hduplicate
        · exact absurd hnew hrefused
        · exact hroom
      have hpushed := entry_pushed h call hroom hwaiting hdropped (horderly h.orderly)
        (w.hasCallback || call.hasRunFollowup)
      split
      · exact hpushed.trans_rests (rests_kick _)
      · exact hpushed

theorem entry_clear (h : Ledger w labels) :
    Entry w w.clearFollowupQueue.2 w.clearFollowupQueue.1 := by
  unfold clearFollowupQueue
  split
  · exact .of_rests h (.refl w)
  · next q hq =>
    have horderly := h.orderly q hq
    have hleft : ∀ removed, (removed = if q.drain.isSome then w.removed ++
          [{ q with items := [], dropped := [], summaryLines := [], lastRun := none }]
        else w.removed) →
        removed.flatMap groupsLeft = w.removed.flatMap groupsLeft ++ q.groupsLeft ∧
          ∀ q' ∈ removed, q'.Emptied := by
      rintro removed rfl
      split
      · refine ⟨by rw [flatMap_append, flatMap_singleton]; rfl, fun q' hq' => ?_⟩
        rcases mem_append.mp hq' with hold | hnew
        · exact h.removed q' hold
        · rw [mem_singleton] at hnew
          have hgroups : q.GroupsNonempty := groupsNonempty_of_orderly horderly
          exact hnew ▸ ⟨rfl, hgroups⟩
      · next hdrain =>
        have hnone : q.drain = none := by simpa using hdrain
        have hempty : q.groupsLeft = [] := by
          unfold groupsLeft
          rw [hnone]
        exact ⟨by rw [hempty, append_nil], h.removed⟩
    obtain ⟨hgroups, hemptied⟩ := hleft _ rfl
    have hwaiting : w.waiting = q.waiting := by
      unfold waiting
      rw [hq]
      rfl
    have hdropped : w.unsummarized = q.unsummarized := by
      unfold unsummarized
      rw [hq]
      rfl
    constructor
    · rw [Nat.sub_self]
      rfl
    · exact Nat.le_refl _
    · simp only [hwaiting, flatMap_singleton, acceptedItems, handedItems, droppedItems,
        clearedItems, append_nil, nil_append]
      exact List.Perm.refl _
    · simp [handedItems, waiting, waitingIn]
    · simp only [flatMap_singleton, lateItems, clearedItems, nil_append]
      rw [hgroups]
      exact ((groupsLeft_isPrefix horderly).sublist.append_left _).subperm
    · simp only [hdropped, flatMap_singleton, countedItems, summarizedItems, clearedCounts,
        append_nil, nil_append]
      exact List.Perm.refl _
    · intro inMap call hcall
      exact nomatch hcall
    · intro q' hq'
      exact nomatch hq'
    · exact hemptied

/-- The events of the calls of a drain, by what they hand over. -/
theorem flatMap_called (inMap : Bool) (calls : List FollowupCall) :
    (calls.map (.called inMap)).flatMap acceptedItems = [] ∧
      (calls.map (.called inMap)).flatMap droppedItems = [] ∧
      (calls.map (.called inMap)).flatMap countedItems = [] ∧
      (calls.map (.called inMap)).flatMap clearedItems = [] ∧
      (calls.map (.called inMap)).flatMap clearedCounts = [] ∧
      (calls.map (.called inMap)).flatMap summarizedItems = calls.flatMap (·.dropped) ∧
      (calls.map (.called inMap)).flatMap handedItems =
        (if inMap then calls.flatMap (·.messages) else []) ∧
      (calls.map (.called inMap)).flatMap lateItems =
        if inMap then [] else calls.flatMap (·.messages) := by
  induction calls with
  | nil => cases inMap <;> simp
  | cons call rest ih =>
    obtain ⟨ha, hd, hc, hcl, hcc, hs, hh, hl⟩ := ih
    simp only [map_cons, flatMap_cons, ha, hd, hc, hcl, hcc, hs, hh, hl]
    cases inMap <;> simp [acceptedItems, droppedItems, countedItems, clearedItems, clearedCounts,
      summarizedItems, handedItems, lateItems]

theorem delivers_of_map {inMap : Bool} {calls : List FollowupCall}
    (h : ∀ call ∈ calls, call.Delivers) :
    ∀ inMap' call, FollowupEvent.called inMap' call ∈ calls.map (.called inMap) →
      call.Delivers := by
  intro inMap' call hcall
  obtain ⟨call', hcall', heq⟩ := mem_map.mp hcall
  rw [FollowupEvent.called.injEq] at heq
  exact heq.2 ▸ h call' hcall'

theorem entry_drain {d : FollowupDrain} (h : Ledger w labels) (hq : w.queue = some q)
    (hd : q.drain = some d) (hsafe : q.SparesPrompt d.phase) :
    Entry w ((q.proceed host d).2.map (.called true)) (w.settle (q.proceed host d).1) := by
  have hover := handsOver_proceed host hd (h.orderly q hq) hsafe
  obtain ⟨ha, hdr, hc, hcl, hcc, hs, hh, hl⟩ := flatMap_called true (q.proceed host d).2
  have hwaiting : w.waiting =
      (q.proceed host d).2.flatMap (·.messages) ++ (w.settle (q.proceed host d).1).waiting := by
    unfold waiting
    rw [hq, settle_queue]
    exact hover.waiting
  have hdropped : w.unsummarized = (q.proceed host d).2.flatMap (·.dropped) ++
      (w.settle (q.proceed host d).1).unsummarized := by
    unfold unsummarized
    rw [hq, settle_queue]
    exact hover.unsummarized
  constructor
  · rw [ha, settle_nextId, Nat.sub_self]
    rfl
  · rw [settle_nextId]
  · simp [ha, hdr, hcl, hh, hwaiting]
  · simp [ha, hh, hwaiting]
  · rw [hl, hcl, settle_removed]
    simp [List.Subperm.refl]
  · simp [hc, hs, hcc, hdropped]
  · exact delivers_of_map hover.delivers
  · intro q' hq'
    rw [settle_queue] at hq'
    exact hover.orderly q' hq'
  · rw [settle_removed]
    exact h.removed

/-- What one of the queues adds to what all of them add up to. -/
theorem flatMap_eraseIdx_perm {queues : List FollowupQueueState} {index : ℕ}
    (hq : queues[index]? = some q) (f : FollowupQueueState → List QueuedRun) :
    (queues.flatMap f).Perm (f q ++ (queues.eraseIdx index).flatMap f) := by
  obtain ⟨hlt, hget⟩ := List.getElem?_eq_some_iff.mp hq
  have hperm := (getElem_cons_eraseIdx_perm hlt).symm
  rw [hget] at hperm
  exact hperm.flatMap_right f

theorem entry_drainRemoved {d : FollowupDrain} {index : ℕ} (h : Ledger w labels)
    (hq : w.removed[index]? = some q) (hd : q.drain = some d) :
    Entry w ((q.proceed host d).2.map (.called false))
      (w.settleRemoved index (q.proceed host d).1) := by
  have hemptied := h.removed q (mem_of_getElem? hq)
  have hleft := handsLeft_proceed host hd hemptied
  have hwork := (consumes_proceed host q d).hasWork hemptied.idle
  obtain ⟨ha, hdr, hc, hcl, hcc, hs, hh, hl⟩ := flatMap_called false (q.proceed host d).2
  have hold := flatMap_eraseIdx_perm hq groupsLeft
  -- the other queues stay, and this one keeps what it has not called, or goes
  have hnew : ∃ removed, w.settleRemoved index (q.proceed host d).1 = { w with removed := removed } ∧
      (removed.flatMap groupsLeft).Perm
        ((q.proceed host d).1.groupsLeft ++ (w.removed.eraseIdx index).flatMap groupsLeft) ∧
      ∀ q' ∈ removed, q'.Emptied := by
    rw [settleRemoved_of_idle w index hwork]
    split
    · refine ⟨_, rfl, ?_, fun q' hq' => ?_⟩
      · have hset : (w.removed.set index (q.proceed host d).1)[index]? =
            some (q.proceed host d).1 := by
          rw [List.getElem?_set_self (List.getElem?_eq_some_iff.mp hq).1]
        have hperm := flatMap_eraseIdx_perm hset groupsLeft
        rwa [eraseIdx_set_eq] at hperm
      · rcases mem_or_eq_of_mem_set hq' with hin | heq
        · exact h.removed q' hin
        · exact heq ▸ ⟨hwork, hleft.groups⟩
    · next hdrain =>
      have hnone : (q.proceed host d).1.drain = none := by simpa using hdrain
      have hempty : (q.proceed host d).1.groupsLeft = [] := by
        unfold groupsLeft
        rw [hnone]
      refine ⟨_, rfl, ?_, fun q' hq' => h.removed q' (mem_of_mem_eraseIdx hq')⟩
      rw [hempty, nil_append]
  obtain ⟨removed, heq, hperm, hremoved⟩ := hnew
  rw [heq]
  constructor
  · rw [ha, Nat.sub_self]
    rfl
  · exact Nat.le_refl _
  · simp [ha, hdr, hcl, hh, waiting]
  · simp [ha, hh, waiting]
  · rw [hl, hcl, append_nil]
    rw [hleft.groupsLeft] at hold
    refine List.Perm.subperm ((hperm.append_left _).trans ?_)
    simpa [append_assoc] using hold.symm
  · simp [hc, hs, hcc, hleft.dropped, unsummarized]
  · exact delivers_of_map hleft.delivers
  · exact h.orderly
  · exact hremoved

/-! ## Runs -/

theorem Ledger.step (h : Ledger w labels) (hstep : w.SafeStep host label w') :
    Ledger w' (labels ++ [label]) := by
  obtain ⟨action, events⟩ := label
  obtain ⟨⟨hperform, hresolves⟩, hsafe⟩ := hstep
  refine h.snoc ?_
  cases action with
  | enqueue call =>
    obtain ⟨rfl, rfl⟩ := step_unique rfl hperform
    exact entry_enqueue h call hsafe
  | schedule =>
    obtain ⟨rfl, rfl⟩ := step_unique rfl hperform
    exact .of_rests h (rests_schedule w)
  | clearQueue =>
    obtain ⟨rfl, rfl⟩ := step_unique rfl hperform
    exact entry_clear h
  | clearSession =>
    obtain ⟨rfl, rfl⟩ := step_unique rfl hperform
    exact (entry_clear h).trans_rests ⟨rfl, rfl, rfl, rfl, id⟩
  | drain outcome =>
    obtain ⟨q, next, hq, hnext, rfl, rfl⟩ := step_drain_iff.mp hperform
    obtain ⟨d, hd⟩ := drain_of_resume hnext
    cases outcome with
    | rejected => exact absurd hresolves (by simp [FollowupAction.rejects])
    | resolved =>
      rw [resume_resolved hd, Option.some.injEq] at hnext
      rw [← hnext]
      exact entry_drain h hq hd (hsafe q d hq hd)
  | drainRemoved index outcome =>
    obtain ⟨q, next, hq, hnext, rfl, rfl⟩ := step_drainRemoved_iff.mp hperform
    obtain ⟨d, hd⟩ := drain_of_resume hnext
    cases outcome with
    | rejected => exact absurd hresolves (by simp [FollowupAction.rejects])
    | resolved =>
      rw [resume_resolved hd, Option.some.injEq] at hnext
      rw [← hnext]
      exact entry_drainRemoved h hq hd

theorem ledger_of_run (h : Run (SafeStep host) initial labels w) : Ledger w labels :=
  h.historyInvariant Ledger (fun hledger hstep => hledger.step hstep) ledger_initial

theorem Ledger.deliversOnce (h : Ledger w labels) : DeliversOnce labels w where
  distinct := by
    have hids : ((itemsOf acceptedItems labels).map (·.id)).Nodup := h.ids ▸ nodup_range
    exact List.Nodup.of_map _ hids
  accounted := h.accounted
  inOrder := h.inOrder
  late := (sublist_append_left _ _).subperm.trans h.late
  summarized := h.summarized
  delivers := h.delivers

/-! ## A drain that is left alone -/

/-- The dropped messages that are still counted will be summarized. -/
def Summarizes (q : FollowupQueueState) (phase : DrainPhase) : Prop :=
  q.droppedAtHead phase = [] ∨ (q.mode = .collect ∧ q.dropPolicy = .summarize)

theorem not_spins_of_summarizes {phase : DrainPhase} (h : Summarizes q phase) :
    ¬ q.Spins phase := by
  rintro ⟨hdropped, hwhy⟩
  rcases h with hnone | ⟨hmode, hpolicy⟩
  · exact hdropped hnone
  · rcases hwhy with hother | ⟨hother, _⟩
    · exact hother hpolicy
    · exact hother hmode

theorem sparesPrompt_of_summarizes {phase : DrainPhase} (h : Summarizes q phase) :
    q.SparesPrompt phase := by
  rintro rfl hmode hprompt
  rcases h with hnone | ⟨hcollect, _⟩
  · exact absurd hnone (preview_isSome_iff.mp hprompt).2
  · exact absurd hcollect hmode

variable (host w label)

/-- A safe step of the drain of the queue in the map. -/
def SafeOwnStep (w' : FollowupQueues) : Prop :=
  w.SafeStep host label w' ∧ label.1 = .drain .resolved

variable {host w label}

/-- The drain of a queue whose dropped messages will be summarized ends, if its calls resolve,
and its steps are safe. -/
theorem exists_run_to_end (host : RouteHost) (hw : DrainingWith Summarizes w) :
    ∃ labels w', Run (SafeOwnStep host) w labels w' ∧ w'.queue = none := by
  obtain ⟨bound, hbound⟩ : ∃ bound, w.stepsLeft stepBound = bound := ⟨_, rfl⟩
  induction bound using Nat.strong_induction_on generalizing w with
  | _ bound ih =>
    obtain ⟨q, d, hq, hd, hrun, hsummarizes⟩ := hw
    have hstep : w.SafeOwnStep host (.drain .resolved, (q.proceed host d).2.map (.called true))
        (w.settle (q.proceed host d).1) := by
      have hresolved := resolvedStep_proceed host hq hd
      refine ⟨⟨⟨hresolved.1, rfl⟩, fun q' d' hq' hd' => ?_⟩, rfl⟩
      rw [hq, Option.some.injEq] at hq'
      subst hq'
      rw [hd, Option.some.injEq] at hd'
      subst hd'
      exact sparesPrompt_of_summarizes hsummarizes
    have hshrinks := shrinks_proceed host hrun (not_spins_of_summarizes hsummarizes)
    cases hrearm : (q.proceed host d).1.rearm with
    | none => exact ⟨_, _, .single hstep, by rw [settle_queue, hrearm]⟩
    | some q' =>
      obtain ⟨d', hd', _, hlt⟩ := hshrinks q' hrearm
      have hconsumes := (consumes_proceed host q d).rearm hrearm
      have hqueue : (w.settle (q.proceed host d).1).queue = some q' := by
        rw [settle_queue, hrearm]
      have hnext : Summarizes q' d'.phase := by
        rcases hsummarizes with hnone | ⟨hmode, hpolicy⟩
        · exact .inl (leavesNone_proceed host hrun hnone q' d' hrearm hd')
        · exact .inr ⟨hconsumes.mode.trans hmode, hconsumes.dropPolicy.trans hpolicy⟩
      rw [stepsLeft_of_draining hq hd] at hbound
      have hdraining : DrainingWith Summarizes (w.settle (q.proceed host d).1) :=
        ⟨q', d', hqueue, hd', hconsumes.lastRun ▸ hrun, hnext⟩
      have hless : (w.settle (q.proceed host d).1).stepsLeft stepBound = q'.stepBound d'.phase :=
        stepsLeft_of_draining hqueue hd'
      obtain ⟨labels, w', hrest, hend⟩ := ih _ (by omega) hdraining hless
      exact ⟨_, w', .cons hstep hrest, hend⟩

theorem lastRun_of_safeRun (h : Run (SafeStep host) initial labels w) {d : FollowupDrain}
    (hq : w.queue = some q) (hd : q.drain = some d) : q.lastRun.isSome = true :=
  ((sane_of_run (h.mono fun hstep => hstep.1.1)).grounded q hq).isSome hd

variable (host labels)

/-- Where no message is dropped from under a call in progress and no summary takes the place of
a prompt, every accepted message is handed over once and in order, or was dropped or cleared
before; and the drain gets to its end, where none is left. -/
theorem followups_deliveredOnce (w : FollowupQueues)
    (hrun : Run (SafeStep host) initial labels w) : DeliversOnce labels w ∧
      ∀ q d, w.queue = some q → q.drain = some d → Summarizes q d.phase →
        ∃ labels' w', Run (SafeOwnStep host) w labels' w' ∧ w'.queue = none ∧
          DeliversOnce (labels ++ labels') w' := by
  refine ⟨(ledger_of_run hrun).deliversOnce, fun q d hq hd hsummarizes => ?_⟩
  obtain ⟨labels', w', hown, hend⟩ :=
    exists_run_to_end host ⟨q, d, hq, hd, lastRun_of_safeRun hrun hq hd, hsummarizes⟩
  have hsafe : Run (SafeStep host) w labels' w' := hown.mono fun hstep => hstep.1
  exact ⟨labels', w', hown, hend, (ledger_of_run (hrun.append hsafe)).deliversOnce⟩

variable {host labels}

/-- One message, which waits for the debounce or is running. -/
def oneMessage (phase : DrainPhase) : FollowupQueues :=
  ⟨some ⟨[⟨0, .text "a" "x"⟩], some ⟨phase, false⟩, .followup, 20, .summarize, [], [],
    some (FollowupRun.text "a" "x").run⟩, [], true, 1⟩

/-- A message that is enqueued and run is handed over once, and the drain ends. -/
theorem followups_deliveredOnce_one : let labels : List (FollowupAction × List FollowupEvent) :=
      [(.enqueue (.plain (.text "a" "x") ⟨.followup, none, none⟩),
        [.dropped [] .summarize, .accepted ⟨0, .text "a" "x"⟩]),
      (.drain .resolved, [.called true (.single ⟨0, .text "a" "x"⟩)])]
    DeliversOnce labels (oneMessage (.runningNext .plain)) ∧
      ∃ labels' w', Run (SafeOwnStep .telegramOnly) (oneMessage (.runningNext .plain)) labels' w' ∧
        w'.queue = none ∧ DeliversOnce (labels ++ labels') w' := by
  intro labels
  have henqueue : SafeStep .telegramOnly initial labels[0] (oneMessage .debouncing) :=
    ⟨⟨by decide +kernel, rfl⟩, .inr (.inr (.inl (by decide +kernel)))⟩
  have hspares : Spares .telegramOnly (oneMessage .debouncing) (.drain .resolved) := by
    intro q d hq _ _ _ hprompt
    rw [← Option.some.inj hq] at hprompt
    exact absurd hprompt (by decide +kernel)
  have hdrain : SafeStep .telegramOnly (oneMessage .debouncing) labels[1]
      (oneMessage (.runningNext .plain)) := ⟨⟨by decide +kernel, rfl⟩, hspares⟩
  have honce := followups_deliveredOnce .telegramOnly labels _ (.cons henqueue (.single hdrain))
  exact ⟨honce.1, honce.2 _ _ rfl rfl (.inl (by decide +kernel))⟩

/-- A message that takes the place of the only one of the queue, which is running. -/
def dropWhileRunning : List FollowupAction :=
  [.enqueue (.plain (.text "a" "x") ⟨.followup, some (.finite 1), some .old⟩), .drain .resolved,
    .enqueue (.plain (.text "b" "x") ⟨.followup, some (.finite 1), some .old⟩),
    .drain .resolved, .drain .resolved]

theorem not_followups_deliveredOnce :
    ¬ ∀ (host : RouteHost) (labels : List (FollowupAction × List FollowupEvent))
      (w : FollowupQueues), Run (ResolvingStep host) initial labels w → DeliversOnce labels w := by
  intro hall
  have hlost : ((replay .telegramOnly initial dropWhileRunning).any fun last =>
      last.2.all (fun label => label.1.rejects = false) &&
        !decide ((itemsOf acceptedItems last.2).Perm (itemsOf handedItems last.2 ++ last.1.waiting ++
          itemsOf droppedItems last.2 ++ itemsOf clearedItems last.2))) = true := by decide +kernel
  obtain ⟨last, hlast, hboth⟩ := (Option.any_eq_true _ _).mp hlost
  rw [Bool.and_eq_true, all_eq_true, Bool.not_eq_true', decide_eq_false_iff_not] at hboth
  have hrun : Run (ResolvingStep .telegramOnly) initial last.2 last.1 :=
    (run_of_replay _ _ _ _ hlast).restrict fun label hlabel =>
      of_decide_eq_true (hboth.1 label hlabel)
  exact hboth.2 (hall .telegramOnly last.2 last.1 hrun).accounted

end FollowupQueues

end OpenClaw
