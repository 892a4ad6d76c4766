import OpenClaw.Lanes.Accounts

/-!
# No entry is lost, duplicated or stranded

Whoever leaves a lane with work to start leaves somebody on the stack who will start it, so
that with an empty stack every queued entry waits for a slot.
-/

namespace OpenClaw

open Lts List

/-! ## Lanes with work are attended -/

/-- The frame goes on to start what it can of the lane. -/
def Frame.attends (lane : Str) : Frame → Prop
  | pump lane' | onWait lane' _ => lane' = lane
  | resetLanes lanesToDrain => lane ∈ lanesToDrain
  | settle _ _ _ => False

variable {frame : Frame} {rest : List Frame} {entry : QueueEntry} {task : RunningTask}

theorem Frame.attends_of_pumps {lane : Str} (h : frame.pumps lane) : frame.attends lane := by
  cases frame with
  | pump lane' => exact h
  | onWait lane' entry => exact h
  | settle lane' entry outcome => exact h
  | resetLanes lanes => exact h.elim

namespace CommandQueue

variable {q q' : CommandQueue} {lane lane' : Str} {label : Action × List QueueEvent}

/-- A lane outside the map is as `getLaneState` creates it, and nobody works on it. -/
structure InMap (q : CommandQueue) : Prop where
  lanes : ∀ lane, lane ∉ q.laneNames → q.lanes lane = .created
  frames : ∀ frame ∈ q.stack, ∀ lane, frame.pumps lane → lane ∈ q.laneNames
  running : ∀ task ∈ q.running, task.lane ∈ q.laneNames

/-- A lane that is marked as draining has its `pump` on the stack, and a lane that could start
an entry has a frame that will see to it. -/
structure Attended (q : CommandQueue) : Prop where
  draining : ∀ lane, (q.lanes lane).draining = true → ∃ frame ∈ q.stack, frame.pumps lane
  work : ∀ lane, (q.lanes lane).canStart = true → ∃ frame ∈ q.stack, frame.attends lane

theorem exists_mem_cons {p : Frame → Prop}
    (h : ∃ frame ∈ rest, p frame) : ∃ other ∈ frame :: rest, p other := by
  obtain ⟨other, hmem, hp⟩ := h
  exact ⟨other, mem_cons_of_mem _ hmem, hp⟩

/-- `drainLane` takes care of one lane. -/
theorem drainLane_attended
    (hdraining : ∀ lane, (q.lanes lane).draining = true → ∃ frame ∈ q.stack, frame.pumps lane)
    (hwork : ∀ lane', lane' ≠ lane → (q.lanes lane').canStart = true →
      ∃ frame ∈ q.stack, frame.attends lane') : Attended (q.drainLane lane) := by
  obtain ⟨hbusy, heq⟩ | ⟨_, heq⟩ := drainLane_cases q lane
  · rw [heq]
    refine ⟨hdraining, fun lane' hstart => ?_⟩
    by_cases hlane : lane' = lane
    · obtain ⟨frame, hmem, hpumps⟩ := hdraining lane hbusy
      exact ⟨frame, hmem, hlane ▸ Frame.attends_of_pumps hpumps⟩
    · exact hwork lane' hlane hstart
  · rw [heq]
    constructor
    · intro lane' hbusy
      by_cases hlane : lane' = lane
      · exact ⟨.pump lane, mem_cons_self, hlane.symm⟩
      · apply exists_mem_cons
        apply hdraining lane'
        rwa [withStack, modifyLane_ne _ hlane] at hbusy
    · intro lane' hstart
      by_cases hlane : lane' = lane
      · exact ⟨.pump lane, mem_cons_self, hlane.symm⟩
      · apply exists_mem_cons
        apply hwork lane' hlane
        rwa [withStack, modifyLane_ne _ hlane] at hstart

/-- One lane can start less than before. -/
theorem Attended.modifyLane (h : Attended q) {f : LaneState → LaneState}
    (hdraining : (f (q.lanes lane)).draining = true → (q.lanes lane).draining = true)
    (hstart : (f (q.lanes lane)).canStart = true → (q.lanes lane).canStart = true) :
    Attended (q.modifyLane lane f) := by
  constructor
  · intro lane' hbusy
    apply h.draining lane'
    by_cases hlane : lane' = lane
    · subst hlane
      exact hdraining (by simpa using hbusy)
    · rwa [modifyLane_ne _ hlane] at hbusy
  · intro lane' hcan
    apply h.work lane'
    by_cases hlane : lane' = lane
    · subst hlane
      exact hstart (by simpa using hcan)
    · rwa [modifyLane_ne _ hlane] at hcan

theorem Attended.setCommandLaneConcurrency (h : Attended q) (lane : Str)
    (maxConcurrent : JsNumber) : Attended (q.setCommandLaneConcurrency lane maxConcurrent) := by
  unfold CommandQueue.setCommandLaneConcurrency
  extract_lets cleaned limit stored
  have hdraining (lane' : Str) : (stored.lanes lane').draining = (q.lanes lane').draining := by
    apply modifyLane_keeps (q := q.getLaneState cleaned) LaneState.draining
    intro state
    rfl
  have hwork (lane' : Str) (hlane : lane' ≠ cleaned) (hstart : (stored.lanes lane').canStart = true) :
      ∃ frame ∈ stored.stack, frame.attends lane' := by
    rw [modifyLane_ne _ hlane] at hstart
    exact h.work lane' hstart
  split
  · exact drainLane_attended (fun lane' hbusy => h.draining lane' (hdraining lane' ▸ hbusy)) hwork
  · rename_i hlimit
    refine ⟨fun lane' hbusy => h.draining lane' (hdraining lane' ▸ hbusy), fun lane' hstart => ?_⟩
    by_cases hlane : lane' = cleaned
    · -- a lane without a slot starts nothing
      rw [hlane, modifyLane_self] at hstart
      simp only [LaneState.canStart, Bool.and_eq_true] at hstart
      exact absurd (ConcurrencyLimit.hasRoom_of_le hstart.1 (Nat.zero_le _)) hlimit
    · exact hwork lane' hlane hstart

theorem Attended.enqueueCommandInLane (h : Attended q) (lane : Str)
    (warnAfterMs taskTimeoutMs : Option JsNumber) (hasOnWait : Bool) (now : ℤ) :
    Attended (q.enqueueCommandInLane lane warnAfterMs taskTimeoutMs hasOnWait now).1 := by
  unfold CommandQueue.enqueueCommandInLane
  split
  · exact h
  · extract_lets cleaned entry queued
    have hdraining (lane' : Str) : (queued.lanes lane').draining = (q.lanes lane').draining := by
      apply modifyLane_keeps (q := q.getLaneState cleaned) LaneState.draining
      intro state
      rfl
    apply drainLane_attended
    · intro lane' hbusy
      apply h.draining lane'
      rw [← hdraining]
      exact hbusy
    · intro lane' hlane hstart
      apply h.work lane'
      rwa [modifyLane_ne _ hlane] at hstart

/-- The lanes that a reset leaves with something to start are those it drains next. -/
theorem canStart_reset {state : LaneState} (h : state.reset.canStart = true) :
    state.queue.isEmpty = false := by
  simp only [LaneState.canStart, LaneState.reset, Bool.and_eq_true, Bool.not_eq_true'] at h
  exact h.2

section

variable (h : Attended q)
include h

theorem Attended.resetCommandLane (lane : Str) : Attended (q.resetCommandLane lane) := by
  unfold CommandQueue.resetCommandLane
  extract_lets cleaned
  split
  · rename_i lanesToDrain _
    constructor
    · intro lane' hbusy
      apply exists_mem_cons
      apply h.draining lane'
      by_cases hlane : lane' = cleaned
      · rw [hlane, withStack, modifyLane_self] at hbusy
        simp [LaneState.reset] at hbusy
      · rwa [withStack, modifyLane_ne _ hlane] at hbusy
    · intro lane' hstart
      by_cases hlane : lane' = cleaned
      · rw [hlane, withStack, modifyLane_self] at hstart
        refine ⟨.resetLanes lanesToDrain, mem_cons_self, ?_⟩
        simp [Frame.attends, lanesToDrain, canStart_reset hstart, hlane]
      · apply exists_mem_cons
        apply h.work lane'
        rwa [withStack, modifyLane_ne _ hlane] at hstart
  · exact h

theorem Attended.resetAllLanes (hmap : InMap q) : Attended q.resetAllLanes := by
  have hlanes (lane : Str) : q.resetAllLanes.lanes lane =
      if lane ∈ q.laneNames then (q.lanes lane).reset else q.lanes lane := rfl
  constructor
  · intro lane hbusy
    apply exists_mem_cons
    apply h.draining lane
    rw [hlanes] at hbusy
    split at hbusy
    · simp [LaneState.reset] at hbusy
    · exact hbusy
  · intro lane hstart
    rw [hlanes] at hstart
    split at hstart
    · rename_i hmem
      refine ⟨_, mem_cons_self, ?_⟩
      simp [Frame.attends, hmem, canStart_reset hstart]
    · rename_i hmem
      rw [hmap.lanes lane hmem] at hstart
      exact nomatch hstart

theorem Attended.clearCommandLane (lane : Str) : Attended (q.clearCommandLane lane).1 := by
  unfold CommandQueue.clearCommandLane
  extract_lets cleaned
  split
  · dsimp only
    apply h.modifyLane
    · exact id
    · intro hstart
      simp [LaneState.canStart] at hstart
  · exact h

theorem Attended.waitForActiveTasks (timeoutMs : Option JsNumber) :
    Attended (q.waitForActiveTasks timeoutMs).1 := by
  unfold CommandQueue.waitForActiveTasks
  extract_lets activeAtStart called waiting waiter notified
  split
  · exact ⟨h.draining, h.work⟩
  split
  · exact ⟨h.draining, h.work⟩
  · exact ⟨h.draining, h.work⟩

theorem Attended.call (hmap : InMap q) (operation : Operation) : Attended (q.call operation).1 := by
  cases operation with
  | markGatewayDraining => exact ⟨h.draining, h.work⟩
  | setCommandLaneConcurrency lane maxConcurrent => exact h.setCommandLaneConcurrency lane maxConcurrent
  | enqueueCommandInLane lane warnAfterMs taskTimeoutMs hasOnWait now =>
    exact h.enqueueCommandInLane lane warnAfterMs taskTimeoutMs hasOnWait now
  | clearCommandLane lane => exact h.clearCommandLane lane
  | resetCommandLane lane => exact h.resetCommandLane lane
  | resetAllLanes => exact h.resetAllLanes hmap
  | waitForActiveTasks timeoutMs => exact h.waitForActiveTasks timeoutMs

/-- The frame on top is replaced by one that sees to the same lane, and other lanes stay as
they are. -/
theorem Attended.replace {frame' : Frame}
    (hstack : q.stack = frame :: rest) (hstack' : q'.stack = frame' :: rest)
    (hframe : ∀ lane', frame.attends lane' → lane' = lane) (hpumps : frame'.pumps lane)
    (hother : ∀ lane', lane' ≠ lane → q'.lanes lane' = q.lanes lane') : Attended q' := by
  constructor
  · intro lane' hbusy
    rw [hstack']
    by_cases hlane : lane' = lane
    · exact ⟨frame', mem_cons_self, hlane ▸ hpumps⟩
    · apply exists_mem_cons
      rw [hother lane' hlane] at hbusy
      obtain ⟨other, hmem, hpump⟩ := h.draining lane' hbusy
      rw [hstack] at hmem
      rcases mem_cons.mp hmem with rfl | hrest
      · exact absurd (hframe lane' (Frame.attends_of_pumps hpump)) hlane
      · exact ⟨other, hrest, hpump⟩
  · intro lane' hstart
    rw [hstack']
    by_cases hlane : lane' = lane
    · exact ⟨frame', mem_cons_self, hlane ▸ Frame.attends_of_pumps hpumps⟩
    · apply exists_mem_cons
      rw [hother lane' hlane] at hstart
      obtain ⟨other, hmem, hattends⟩ := h.work lane' hstart
      rw [hstack] at hmem
      rcases mem_cons.mp hmem with rfl | hrest
      · exact absurd (hframe lane' hattends) hlane
      · exact ⟨other, hrest, hattends⟩

end

theorem startEntry_lanes_ne (h : lane' ≠ lane) :
    (q.startEntry lane entry).1.lanes lane' = q.lanes lane' := by
  simp [startEntry, modifyLane, h]

theorem Attended.pump (h : Attended q) (hstack : q.stack = .pump lane :: rest)
    (now : ℤ) : Attended (q.pump lane rest now).1 := by
  obtain ⟨hstop, heq⟩ | ⟨entry, queue, hqueue, _, heq | heq⟩ := q.pump_cases lane rest now
  · rw [heq]
    -- the frame goes, and with it the mark and the work of the lane
    constructor
    · intro lane' hbusy
      by_cases hlane : lane' = lane
      · rw [hlane, withStack, modifyLane_self] at hbusy
        simp at hbusy
      · rw [withStack, modifyLane_ne _ hlane] at hbusy
        obtain ⟨frame, hmem, hpumps⟩ := h.draining lane' hbusy
        rw [hstack] at hmem
        rcases mem_cons.mp hmem with rfl | hrest
        · exact absurd hpumps.symm hlane
        · exact ⟨frame, hrest, hpumps⟩
    · intro lane' hstart
      by_cases hlane : lane' = lane
      · rw [hlane, withStack, modifyLane_self] at hstart
        exact absurd (hstop.symm.trans hstart) (by decide)
      · rw [withStack, modifyLane_ne _ hlane] at hstart
        obtain ⟨frame, hmem, hattends⟩ := h.work lane' hstart
        rw [hstack] at hmem
        rcases mem_cons.mp hmem with rfl | hrest
        · exact absurd hattends.symm hlane
        · exact ⟨frame, hrest, hattends⟩
  · rw [heq]
    refine h.replace hstack rfl (fun _ h => h.symm) rfl fun lane' hlane => ?_
    simp [withStack, CommandQueue.modifyLane, hlane]
  · rw [heq]
    refine h.replace hstack rfl (fun _ h => h.symm) rfl fun lane' hlane => ?_
    rw [startEntry_lanes_ne hlane]
    simp [withStack, CommandQueue.modifyLane, hlane]

theorem Attended.onWait (h : Attended q) (hstack : q.stack = .onWait lane entry :: rest) :
    Attended ((q.withStack (.pump lane :: rest)).startEntry lane entry).1 :=
  h.replace hstack rfl (fun _ h => h.symm) rfl fun _ hlane => startEntry_lanes_ne hlane

theorem Attended.settle (h : Attended q) {outcome : TaskOutcome}
    (hstack : q.stack = .settle lane entry outcome :: rest) : Attended (q.withStack rest) := by
  constructor
  · intro lane' hbusy
    obtain ⟨frame, hmem, hpumps⟩ := h.draining lane' hbusy
    rw [hstack] at hmem
    rcases mem_cons.mp hmem with rfl | hrest
    · exact hpumps.elim
    · exact ⟨frame, hrest, hpumps⟩
  · intro lane' hstart
    obtain ⟨frame, hmem, hattends⟩ := h.work lane' hstart
    rw [hstack] at hmem
    rcases mem_cons.mp hmem with rfl | hrest
    · exact hattends.elim
    · exact ⟨frame, hrest, hattends⟩

theorem Attended.resetLanes (h : Attended q) {lanesToDrain : List Str}
    (hstack : q.stack = .resetLanes lanesToDrain :: rest) :
    Attended (q.resetLanes lanesToDrain rest).1 := by
  have hdraining (lane' : Str) (hbusy : (q.lanes lane').draining = true) :
      ∃ frame ∈ rest, frame.pumps lane' := by
    obtain ⟨frame, hmem, hpumps⟩ := h.draining lane' hbusy
    rw [hstack] at hmem
    rcases mem_cons.mp hmem with rfl | hrest
    · exact hpumps.elim
    · exact ⟨frame, hrest, hpumps⟩
  have hwork (lane' : Str) (hstart : (q.lanes lane').canStart = true) :
      lane' ∈ lanesToDrain ∨ ∃ frame ∈ rest, frame.attends lane' := by
    obtain ⟨frame, hmem, hattends⟩ := h.work lane' hstart
    rw [hstack] at hmem
    rcases mem_cons.mp hmem with rfl | hrest
    · exact .inl hattends
    · exact .inr ⟨frame, hrest, hattends⟩
  cases lanesToDrain with
  | nil => exact ⟨hdraining, fun lane' hstart => (hwork lane' hstart).resolve_left not_mem_nil⟩
  | cons lane lanes =>
    apply drainLane_attended
    · exact fun lane' hbusy => exists_mem_cons (hdraining lane' hbusy)
    · intro lane' hlane hstart
      rcases hwork lane' hstart with hmem | hrest
      · exact ⟨.resetLanes lanes, mem_cons_self, mem_of_ne_of_mem hlane hmem⟩
      · exact exists_mem_cons hrest

/-- A completion of an earlier generation changes nothing. -/
theorem completeTask_stale (h : (q.completeTask task).2 = false) : (q.completeTask task).1 = q := by
  unfold completeTask at h ⊢
  split
  · rename_i hgeneration
    simp [hgeneration] at h
  · rfl

/-- A completion makes room in its own lane only. -/
theorem completeTask_lanes_ne (h : lane' ≠ task.lane) :
    (q.completeTask task).1.lanes lane' = q.lanes lane' := by
  unfold completeTask
  split
  · simp [modifyLane, h]
  · rfl

theorem Attended.finishTask (h : Attended q) (hstack : q.stack = [])
    (outcome : TaskOutcome) : Attended (q.finishTask task outcome).1 := by
  have hidle (lane' : Str) : (q.lanes lane').draining = false ∧
      (q.lanes lane').canStart = false := by
    constructor
    · refine Bool.eq_false_iff.mpr fun hbusy => ?_
      obtain ⟨frame, hmem, _⟩ := h.draining lane' hbusy
      simp [hstack] at hmem
    · refine Bool.eq_false_iff.mpr fun hstart => ?_
      obtain ⟨frame, hmem, _⟩ := h.work lane' hstart
      simp [hstack] at hmem
  unfold CommandQueue.finishTask
  extract_lets completed notified
  have hother (lane' : Str) (hlane : lane' ≠ task.lane) :
      completed.1.lanes lane' = q.lanes lane' := completeTask_lanes_ne hlane
  split
  · refine ⟨fun lane' hbusy => ?_, fun lane' hstart => ?_⟩
    · by_cases hlane : lane' = task.lane
      · exact ⟨.pump task.lane, mem_cons_self, hlane.symm⟩
      · change (completed.1.lanes lane').draining = true at hbusy
        rw [hother lane' hlane, (hidle lane').1] at hbusy
        exact nomatch hbusy
    · by_cases hlane : lane' = task.lane
      · exact ⟨.pump task.lane, mem_cons_self, hlane.symm⟩
      · change (completed.1.lanes lane').canStart = true at hstart
        rw [hother lane' hlane, (hidle lane').2] at hstart
        exact nomatch hstart
  · rename_i hstale
    -- a completion of an earlier generation changes no lane
    have hsame : completed.1.lanes = q.lanes := by
      rw [show completed.1 = _ from completeTask_stale (by simpa using hstale)]
    refine ⟨fun lane' hbusy => ?_, fun lane' hstart => ?_⟩
    · change (completed.1.lanes lane').draining = true at hbusy
      rw [hsame, (hidle lane').1] at hbusy
      exact nomatch hbusy
    · change (completed.1.lanes lane').canStart = true at hstart
      rw [hsame, (hidle lane').2] at hstart
      exact nomatch hstart

theorem step_attended (hmap : InMap q) (hattended : Attended q) (h : Step q label q') :
    Attended q' := by
  cases h with
  | call operation _ => exact hattended.call hmap operation
  | pump lane rest now hstack => exact hattended.pump hstack now
  | onWait lane entry rest now hstack => exact hattended.onWait hstack
  | settle lane entry outcome rest now hstack => exact hattended.settle hstack
  | resetLanes lanesToDrain rest now hstack => exact hattended.resetLanes hstack
  | complete task outcome hstack _ _ => exact hattended.finishTask hstack outcome
  | timeout waiter _ _ _ => exact ⟨hattended.draining, hattended.work⟩

/-! ## Lanes outside the map -/

theorem self_mem_getLaneState : lane ∈ (q.getLaneState lane).laneNames :=
  mem_getLaneState.mpr (.inr rfl)

/-- The map grows, the lanes that stay outside are left alone, and new frames and tasks are of
lanes inside. -/
theorem InMap.grow (h : InMap q) (hnames : ∀ lane ∈ q.laneNames, lane ∈ q'.laneNames)
    (hlanes : ∀ lane, lane ∉ q'.laneNames → q'.lanes lane = q.lanes lane)
    (hframes : ∀ frame ∈ q'.stack, frame ∈ q.stack ∨ ∀ lane, frame.pumps lane → lane ∈ q'.laneNames)
    (hrunning : ∀ task ∈ q'.running, task ∈ q.running ∨ task.lane ∈ q'.laneNames) : InMap q' where
  lanes lane hlane := (hlanes lane hlane).trans (h.lanes lane fun hmem => hlane (hnames lane hmem))
  frames frame hframe lane hpumps :=
    (hframes frame hframe).elim (fun hmem => hnames lane (h.frames frame hmem lane hpumps))
      fun hmap => hmap lane hpumps
  running task htask := (hrunning task htask).elim (fun hmem => hnames _ (h.running task hmem)) id

theorem ne_of_notMem (hlane : lane ∈ q.laneNames) (h : lane' ∉ q.laneNames) : lane' ≠ lane :=
  fun heq => h (heq ▸ hlane)

section

variable (h : InMap q)
include h

theorem InMap.getLaneState (lane : Str) : InMap (q.getLaneState lane) :=
  h.grow (fun _ hmem => mem_getLaneState.mpr (.inl hmem)) (fun _ _ => rfl) (fun _ => .inl)
    fun _ => .inl

theorem InMap.modifyLane (hlane : lane ∈ q.laneNames) (f : LaneState → LaneState) :
    InMap (q.modifyLane lane f) :=
  h.grow (fun _ => id) (fun _ hlane' => modifyLane_ne f (ne_of_notMem hlane hlane'))
    (fun _ => .inl) fun _ => .inl

theorem InMap.withStack {frames : List Frame} (hframes : ∀ frame ∈ frames, frame ∈ q.stack ∨
      ∀ lane, frame.pumps lane → lane ∈ q.laneNames) : InMap (q.withStack frames) :=
  h.grow (fun _ => id) (fun _ _ => rfl) hframes fun _ => .inl

theorem InMap.push (hframe : ∀ lane, frame.pumps lane → lane ∈ q.laneNames)
    (hrest : ∀ frame ∈ rest, frame ∈ q.stack) : InMap (q.withStack (frame :: rest)) := by
  apply h.withStack
  intro other hother
  rcases mem_cons.mp hother with rfl | hmem
  · exact .inr hframe
  · exact .inl (hrest other hmem)

theorem InMap.drainLane (lane : Str) : InMap (q.drainLane lane) := by
  obtain ⟨_, heq⟩ | ⟨_, heq⟩ := drainLane_cases q lane
  · rw [heq]
    exact h.getLaneState lane
  · rw [heq]
    apply ((h.getLaneState lane).modifyLane self_mem_getLaneState _).push
    · rintro lane' rfl
      exact self_mem_getLaneState
    · exact fun _ hframe => hframe

theorem InMap.startEntry (hlane : lane ∈ q.laneNames) (entry : QueueEntry) :
    InMap (q.startEntry lane entry).1 :=
  h.grow (fun _ => id) (fun _ hlane' => startEntry_lanes_ne (ne_of_notMem hlane hlane'))
    (fun _ => .inl) fun task htask => by
      rcases mem_append.mp htask with hmem | hnew
      · exact .inl hmem
      · exact .inr (mem_singleton.mp hnew ▸ hlane)

theorem InMap.call (operation : Operation) : InMap (q.call operation).1 := by
  cases operation with
  | markGatewayDraining => exact ⟨h.lanes, h.frames, h.running⟩
  | setCommandLaneConcurrency lane maxConcurrent =>
    have hstored := (h.getLaneState (normalizeLane lane)).modifyLane self_mem_getLaneState
      ({ · with maxConcurrent := resolveConcurrency (normalizeLane lane) maxConcurrent })
    simp only [CommandQueue.call, setCommandLaneConcurrency]
    split
    · exact hstored.drainLane _
    · exact hstored
  | enqueueCommandInLane lane warnAfterMs taskTimeoutMs hasOnWait now =>
    simp only [CommandQueue.call, enqueueCommandInLane]
    split
    · exact h
    · apply InMap.drainLane
      refine (h.getLaneState (normalizeLane lane)).grow (fun _ => id) (fun _ hlane => ?_)
        (fun _ => .inl) fun _ => .inl
      simp [CommandQueue.modifyLane, ne_of_notMem self_mem_getLaneState hlane]
  | clearCommandLane lane =>
    simp only [CommandQueue.call, clearCommandLane]
    split
    · rename_i hmem
      refine h.grow (fun _ => id) (fun _ hlane => ?_) (fun _ => .inl) fun _ => .inl
      simp [CommandQueue.modifyLane, ne_of_notMem hmem hlane]
    · exact h
  | resetCommandLane lane =>
    simp only [CommandQueue.call, resetCommandLane]
    split
    · rename_i hmem
      apply (h.modifyLane hmem _).push
      · exact fun _ hpumps => hpumps.elim
      · exact fun _ hframe => hframe
    · exact h
  | resetAllLanes =>
    refine h.grow (fun _ => id) (fun lane hlane => ?_) (fun frame hframe => ?_) fun _ => .inl
    · have hmem : lane ∉ q.laneNames := hlane
      simp [CommandQueue.call, resetAllLanes, hmem]
    · rcases mem_cons.mp hframe with rfl | hmem
      · exact .inr fun _ hpumps => hpumps.elim
      · exact .inl hmem
  | waitForActiveTasks timeoutMs =>
    simp only [CommandQueue.call, waitForActiveTasks]
    split
    · exact ⟨h.lanes, h.frames, h.running⟩
    split <;> exact ⟨h.lanes, h.frames, h.running⟩

/-- The lane of a `pump` on top of the stack is in the map. -/
theorem InMap.mem_of_stack
    (hstack : q.stack = frame :: rest) (hpumps : frame.pumps lane) : lane ∈ q.laneNames :=
  h.frames frame (hstack ▸ mem_cons_self) lane hpumps

theorem InMap.pump (hstack : q.stack = .pump lane :: rest)
    (now : ℤ) : InMap (q.pump lane rest now).1 := by
  have hlane : lane ∈ q.laneNames := h.mem_of_stack hstack (show lane = lane from rfl)
  have hrest (frame : Frame) (hmem : frame ∈ rest) : frame ∈ q.stack :=
    hstack ▸ mem_cons_of_mem _ hmem
  have hmodified (f : LaneState → LaneState) := h.modifyLane hlane f
  obtain ⟨_, heq⟩ | ⟨entry, queue, _, _, heq | heq⟩ := q.pump_cases lane rest now
  · rw [heq]
    exact (hmodified _).withStack fun frame hmem => .inl (hrest frame hmem)
  · rw [heq]
    exact (hmodified _).push (fun _ hpumps => hpumps ▸ hlane) hrest
  · rw [heq]
    exact ((hmodified _).push (fun _ hpumps => hpumps ▸ hlane) hrest).startEntry hlane entry

theorem InMap.notifyActiveTaskWaiters : InMap q.notifyActiveTaskWaiters.1 :=
  ⟨h.lanes, h.frames, h.running⟩

theorem InMap.resetLanes {lanesToDrain : List Str}
    (hstack : q.stack = .resetLanes lanesToDrain :: rest) :
    InMap (q.resetLanes lanesToDrain rest).1 := by
  have hrest (frame : Frame) (hmem : frame ∈ rest) : frame ∈ q.stack :=
    hstack ▸ mem_cons_of_mem _ hmem
  cases lanesToDrain with
  | nil => exact (h.withStack fun frame hmem => .inl (hrest frame hmem)).notifyActiveTaskWaiters
  | cons lane lanes => exact (h.push (fun _ => False.elim) hrest).drainLane lane

theorem InMap.completeTask (hrunning : task ∈ q.running) :
    InMap ({ q with running := q.running.erase task }.completeTask task).1 := by
  have herased : InMap { q with running := q.running.erase task } :=
    h.grow (fun _ => id) (fun _ _ => rfl) (fun _ => .inl) fun _ hmem =>
      .inl (mem_of_mem_erase hmem)
  unfold CommandQueue.completeTask
  split
  · dsimp only
    exact herased.modifyLane (h.running task hrunning) _
  · exact herased

theorem InMap.finishTask (hrunning : task ∈ q.running)
    (outcome : TaskOutcome) : InMap (q.finishTask task outcome).1 := by
  have hlane : task.lane ∈ q.laneNames := h.running task hrunning
  have hcompleted := h.completeTask hrunning
  have hnames : task.lane ∈
      ({ q with running := q.running.erase task }.completeTask task).1.laneNames := by
    unfold CommandQueue.completeTask
    split <;> exact hlane
  unfold CommandQueue.finishTask
  extract_lets completed notified
  split
  · apply hcompleted.notifyActiveTaskWaiters.withStack
    intro frame hframe
    simp only [mem_cons, not_mem_nil, or_false] at hframe
    rcases hframe with rfl | rfl
    · exact .inr fun _ hpumps => hpumps ▸ hnames
    · exact .inr fun _ => False.elim
  · apply hcompleted.withStack
    intro frame hframe
    obtain rfl := mem_singleton.mp hframe
    exact .inr fun _ => False.elim

end

theorem step_inMap (hmap : InMap q) (h : Step q label q') : InMap q' := by
  cases h with
  | call operation _ => exact hmap.call operation
  | pump lane rest now hstack => exact hmap.pump hstack now
  | onWait lane entry rest now hstack =>
    have hlane : lane ∈ q.laneNames := hmap.mem_of_stack hstack (show lane = lane from rfl)
    have hpushed : InMap (q.withStack (.pump lane :: rest)) :=
      hmap.push (fun _ hpumps => hpumps ▸ hlane) fun frame hmem =>
        hstack ▸ mem_cons_of_mem _ hmem
    exact hpushed.startEntry hlane entry
  | settle lane entry outcome rest now hstack =>
    exact hmap.withStack fun frame hmem => .inl (hstack ▸ mem_cons_of_mem _ hmem)
  | resetLanes lanesToDrain rest now hstack => exact hmap.resetLanes hstack
  | complete task outcome _ hrunning _ => exact hmap.finishTask hrunning outcome
  | timeout waiter _ _ _ => exact ⟨hmap.lanes, hmap.frames, hmap.running⟩

/-! ## Runs -/

theorem initial_inMap : InMap initial :=
  ⟨fun _ _ => rfl, fun _ h => absurd h not_mem_nil, fun _ h => absurd h not_mem_nil⟩

theorem initial_attended : Attended initial :=
  ⟨fun _ h => absurd h Bool.false_ne_true, fun _ h => absurd h Bool.false_ne_true⟩

variable {labels : List (Action × List QueueEvent)}

theorem run_attended (h : Run Step initial labels q) : Attended q :=
  (h.invariant (fun q => InMap q ∧ Attended q)
    (fun ⟨hmap, hattended⟩ hstep => ⟨step_inMap hmap hstep, step_attended hmap hattended hstep⟩)
    ⟨initial_inMap, initial_attended⟩).2

/-! ## Limits -/

/-- Only `setCommandLaneConcurrency` changes the limit of a lane. -/
def KeepsLimits (q q' : CommandQueue) : Prop :=
  ∀ lane, (q'.lanes lane).maxConcurrent = (q.lanes lane).maxConcurrent

variable (q lane)

theorem drainLane_keepsLimits : KeepsLimits q (q.drainLane lane) :=
  drainLane_keeps LaneState.maxConcurrent (fun _ => rfl) lane

theorem startEntry_keepsLimits (entry : QueueEntry) :
    KeepsLimits q (q.startEntry lane entry).1 := by
  intro lane'
  by_cases hlane : lane' = lane
  · simp [startEntry, hlane]
  · rw [startEntry_lanes_ne hlane]

variable {q lane}

theorem modifyLane_keepsLimits {f : LaneState → LaneState}
    (h : ∀ state, (f state).maxConcurrent = state.maxConcurrent) (q : CommandQueue) (lane : Str) :
    KeepsLimits q (q.modifyLane lane f) :=
  modifyLane_keeps LaneState.maxConcurrent h lane

variable (q)

theorem pump_keepsLimits (lane : Str) (rest : List Frame) (now : ℤ) :
    KeepsLimits q (q.pump lane rest now).1 := by
  obtain ⟨_, heq⟩ | ⟨entry, queue, _, _, heq | heq⟩ := q.pump_cases lane rest now
  · rw [heq]
    exact modifyLane_keepsLimits (f := ({ · with draining := false })) (fun _ => rfl) q lane
  · rw [heq]
    exact modifyLane_keepsLimits (f := ({ · with queue := queue })) (fun _ => rfl) q lane
  · rw [heq]
    intro lane'
    rw [startEntry_keepsLimits]
    exact modifyLane_keepsLimits (f := ({ · with queue := queue })) (fun _ => rfl) q lane lane'

/-- The action sets no limit that is not a finite number. -/
def Action.setsFinite : Action → Prop
  | .call (.setCommandLaneConcurrency _ maxConcurrent) => maxConcurrent.isFinite = true
  | _ => True

/-- The limit of every lane is a number. -/
def FiniteLimits : Prop :=
  ∀ lane, ∃ count, (q.lanes lane).maxConcurrent = .atMost count

variable {q}

theorem KeepsLimits.finite (h : KeepsLimits q q') (hfinite : FiniteLimits q) : FiniteLimits q' :=
  fun lane => h lane ▸ hfinite lane

theorem resolveConcurrency_finite {maxConcurrent : JsNumber} (h : maxConcurrent.isFinite = true)
    (lane : Str) : ∃ count, resolveConcurrency lane maxConcurrent = .atMost count := by
  cases maxConcurrent with
  | finite value => exact ⟨_, rfl⟩
  | _ => exact absurd h Bool.false_ne_true

theorem call_finite (hlimits : FiniteLimits q) (operation : Operation)
    (hfinite : (Action.call operation).setsFinite) : FiniteLimits (q.call operation).1 := by
  cases operation with
  | markGatewayDraining => exact hlimits
  | setCommandLaneConcurrency lane maxConcurrent =>
    have hstored : FiniteLimits ((q.getLaneState (normalizeLane lane)).modifyLane
        (normalizeLane lane) ({ · with
          maxConcurrent := resolveConcurrency (normalizeLane lane) maxConcurrent })) := by
      intro lane'
      by_cases hlane : lane' = normalizeLane lane
      · rw [hlane, modifyLane_self]
        exact resolveConcurrency_finite hfinite _
      · rw [modifyLane_ne _ hlane]
        exact hlimits lane'
    simp only [call, setCommandLaneConcurrency]
    split
    · exact (drainLane_keepsLimits _ _).finite hstored
    · exact hstored
  | enqueueCommandInLane lane warnAfterMs taskTimeoutMs hasOnWait now =>
    simp only [call, enqueueCommandInLane]
    split
    · exact hlimits
    · refine (drainLane_keepsLimits _ _).finite fun lane' => ?_
      by_cases hlane : lane' = normalizeLane lane
      · rw [hlane, modifyLane_self]
        exact hlimits _
      · rw [modifyLane_ne _ hlane]
        exact hlimits lane'
  | clearCommandLane lane =>
    simp only [call, clearCommandLane]
    split
    · exact (modifyLane_keepsLimits (f := ({ · with queue := [] })) (fun _ => rfl) q _).finite hlimits
    · exact hlimits
  | resetCommandLane lane =>
    simp only [call, resetCommandLane]
    split
    · exact (modifyLane_keepsLimits (f := LaneState.reset) (fun _ => rfl) q _).finite hlimits
    · exact hlimits
  | resetAllLanes =>
    intro lane
    simp only [call, resetAllLanes]
    split <;> exact hlimits lane
  | waitForActiveTasks timeoutMs =>
    simp only [call, waitForActiveTasks]
    split
    · exact hlimits
    split <;> exact hlimits

theorem step_finite (hlimits : FiniteLimits q) (h : Step q label q')
    (hfinite : label.1.setsFinite) : FiniteLimits q' := by
  cases h with
  | call operation _ => exact call_finite hlimits operation hfinite
  | pump lane rest now _ => exact (q.pump_keepsLimits lane rest now).finite hlimits
  | onWait lane entry rest now _ => exact (startEntry_keepsLimits _ lane entry).finite hlimits
  | settle lane entry outcome rest now _ => exact hlimits
  | resetLanes lanesToDrain rest now _ =>
    cases lanesToDrain with
    | nil => exact hlimits
    | cons lane lanes => exact (drainLane_keepsLimits _ lane).finite hlimits
  | complete task outcome _ _ _ =>
    have hcompleted : FiniteLimits
        ({ q with running := q.running.erase task }.completeTask task).1 := by
      unfold completeTask
      split
      · exact (modifyLane_keepsLimits (f := fun state => { state with
          activeTaskIds := state.activeTaskIds.erase task.taskId }) (fun _ => rfl) _ _).finite hlimits
      · exact hlimits
    unfold finishTask
    extract_lets completed notified
    split <;> exact hcompleted
  | timeout waiter _ _ _ => exact hlimits

/-! ## Every entry has its turn -/

theorem clearedIn_call (q : CommandQueue) (operation : Operation) (lane : Str) :
    clearedIn lane (q.call operation).2 = [] ∨ ∃ lane', operation = .clearCommandLane lane' := by
  cases operation with
  | clearCommandLane lane' => exact .inr ⟨lane', rfl⟩
  | enqueueCommandInLane lane' warnAfterMs taskTimeoutMs hasOnWait now =>
    refine .inl ?_
    simp only [call, enqueueCommandInLane]
    split <;> rfl
  | waitForActiveTasks timeoutMs =>
    refine .inl ?_
    simp only [call, waitForActiveTasks]
    split
    · rfl
    split
    · rfl
    · exact (notifyActiveTaskWaiters_entryFree _ lane).2.2.1
  | _ => exact .inl rfl

/-- An entry leaves the lane without being started in `clearCommandLane` only. -/
theorem step_clearedIn (h : Step q label q') (hcleared : clearedIn lane label.2 ≠ []) :
    ∃ lane', label.1 = .call (.clearCommandLane lane') := by
  cases h with
  | call operation _ =>
    obtain ⟨lane', rfl⟩ := (q.clearedIn_call operation lane).resolve_left hcleared
    exact ⟨lane', rfl⟩
  | pump lane' rest now _ =>
    obtain ⟨_, heq⟩ | ⟨entry, queue, _, _, heq | heq⟩ := q.pump_cases lane' rest now <;>
      exact absurd (by rw [heq]; rfl) hcleared
  | resetLanes lanesToDrain rest now _ =>
    cases lanesToDrain with
    | nil => exact absurd (notifyActiveTaskWaiters_entryFree _ lane).2.2.1 hcleared
    | cons lane' lanes => exact absurd rfl hcleared
  | complete task outcome _ _ _ =>
    refine absurd ?_ hcleared
    dsimp only
    unfold finishTask
    extract_lets completed notified
    split
    · exact (notifyActiveTaskWaiters_entryFree _ lane).2.2.1
    · rfl
  | _ => exact absurd rfl hcleared

variable {labels : List (Action × List QueueEvent)}

theorem run_finite (h : Run Step initial labels q)
    (hfinite : ∀ label ∈ labels, label.1.setsFinite) : FiniteLimits q := by
  refine h.historyInvariant
    (fun q labels => (∀ label ∈ labels, label.1.setsFinite) → FiniteLimits q) ?_ ?_ hfinite
  · intro s labels label t hinv hstep hall
    have hlimits := hinv fun other hmem => hall other (mem_append_left _ hmem)
    exact step_finite hlimits hstep (hall label (mem_append_right _ mem_cons_self))
  · exact fun _ _ => ⟨1, rfl⟩

/-- A lane that is full or has nothing to start. -/
theorem le_card_of_not_canStart {state : LaneState} {count : ℕ} (h : state.canStart = false)
    (hqueue : state.queue ≠ []) (hlimit : state.maxConcurrent = .atMost count) :
    count ≤ state.activeTaskIds.card := by
  have hnot : state.queue.isEmpty = false := by simpa using hqueue
  simp only [LaneState.canStart, hnot, hlimit, ConcurrencyLimit.hasRoom, Bool.not_false,
    Bool.and_true, decide_eq_false_iff_not] at h
  omega

/-- Every accepted entry waits in its lane, is in the hands of the `pump` that starts it when
its callback returns, was started, or was rejected by `clearCommandLane`; nothing is started or
rejected twice, and no promise is settled twice. With nothing of the queue on the stack no entry
is in anybody's hands, and a lane with a queued entry is full. -/
theorem commandLanes_keep_work (h : Run Step initial labels q)
    (hfinite : ∀ label ∈ labels, label.1.setsFinite) :
    (∀ lane, (acceptedIn lane (eventsOf labels)).Perm ((q.lanes lane).queue ++ q.inHand lane ++
      startedIn lane (eventsOf labels) ++ clearedIn lane (eventsOf labels))) ∧
    (acceptedIds (eventsOf labels)).Nodup ∧
    (∀ id, (eventsOf labels).countP (QueueEvent.settles id) ≤ 1) ∧
    (∀ label q' lane, Step q label q' → clearedIn lane label.2 ≠ [] →
      ∃ lane', label.1 = .call (.clearCommandLane lane')) ∧
    (q.stack = [] → ∀ lane, q.inHand lane = [] ∧ ((q.lanes lane).queue ≠ [] →
      ∃ count, (q.lanes lane).maxConcurrent = .atMost count ∧
        count ≤ (q.lanes lane).activeTaskIds.card)) := by
  refine ⟨fun lane => ?_, run_acceptedIds h, run_settles_le_one h, ?_, ?_⟩
  · have hpending := run_pending h lane
    rw [pending] at hpending
    simp only [perm_iff_count, count_append] at hpending ⊢
    intro entry
    have := hpending entry
    omega
  · exact fun label q' lane hstep hcleared => step_clearedIn hstep hcleared
  · intro hstack lane
    refine ⟨by rw [inHand, hstack]; rfl, fun hqueue => ?_⟩
    obtain ⟨count, hlimit⟩ := run_finite h hfinite lane
    refine ⟨count, hlimit, le_card_of_not_canStart (Bool.eq_false_iff.mpr fun hstart => ?_) hqueue
      hlimit⟩
    obtain ⟨frame, hmem, _⟩ := (run_attended h).work lane hstart
    simp [hstack] at hmem

/-- Two entries in a lane with one slot. -/
theorem commandLanes_keep_work_pair : ∃ labels q, Run Step initial labels q ∧
    (∀ label ∈ labels, label.1.setsFinite) ∧ (q.lanes "main").queue.map QueueEntry.id = [1] ∧
    ∃ count, (q.lanes "main").maxConcurrent = .atMost count ∧
      count ≤ (q.lanes "main").activeTaskIds.card := by
  have hresult : (performAll (fun _ _ => true) initial
      [.call (.setCommandLaneConcurrency "main" (.finite 1)), .proceed 0,
        .call (.enqueueCommandInLane "main" none none false 0), .proceed 0, .proceed 0,
        .call (.enqueueCommandInLane "main" none none false 0), .proceed 0]).any
      (fun last => decide (last.1.stack = []) &&
        decide ((last.1.lanes "main").queue.map QueueEntry.id = [1]) &&
        last.2.all fun label => match label.1 with
          | .call (.setCommandLaneConcurrency _ maxConcurrent) => maxConcurrent.isFinite
          | _ => true) = true := by
    decide +kernel
  obtain ⟨⟨q, labels⟩, hperform, hfacts⟩ := (Option.any_eq_true _ _).mp hresult
  simp only [Bool.and_eq_true, decide_eq_true_eq] at hfacts
  have hrun : Run Step initial labels q := (run_of_performAll hperform).mono And.left
  have hfinite : ∀ label ∈ labels, label.1.setsFinite := by
    intro label hmem
    have hlabel := all_eq_true.mp hfacts.2 label hmem
    unfold Action.setsFinite
    split <;> simp_all
  have hidle := (commandLanes_keep_work hrun hfinite).2.2.2.2 hfacts.1.1 "main".toList
  refine ⟨labels, q, hrun, hfinite, hfacts.1.2, hidle.2 fun hnil => ?_⟩
  exact absurd (hnil ▸ hfacts.1.2) (by simp)

end CommandQueue

end OpenClaw
