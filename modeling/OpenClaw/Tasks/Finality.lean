import OpenClaw.Tasks.Lifecycle
import OpenClaw.Lib.Run

/-!
# A terminal status is final

Every writer goes through `putTask`, so one lemma says what a write does to the statuses,
and each function is a chain of such writes. The loops over the tasks of a run write each
task once, and read its status from the list they took at the start; as the ids of the
list are distinct, that status is still the current one.

The run-scoped writers follow `shouldApplyRunScopedStatusUpdate`. The end of a
cancellation and the two setters of a status by id do not, and what they overwrite is
exactly what is lost.
-/

namespace OpenClaw

open List Option Keyed

/-! ## Statuses that may follow -/

/-- A terminal status stays, or a success turns into another outcome. -/
def StatusKept (s s' : TaskStatus) : Prop :=
  isTerminalTaskStatus s →
    s' = s ∨ (s = .succeeded ∧ (s' = .failed ∨ s' = .timedOut ∨ s' = .cancelled))

theorem statusKept_iff (s s' : TaskStatus) :
    StatusKept s s' ↔ shouldApplyRunScopedStatusUpdate s s' := by
  unfold StatusKept
  cases s <;> cases s' <;> decide

theorem StatusKept.refl (s : TaskStatus) : StatusKept s s := fun _ => .inl rfl

variable {s s' : TaskStatus} {reg reg' reg'' : TaskRegistry} {taskId : Str} {patch : TaskPatch}
  {env : TaskSurroundings}

theorem StatusKept.trans {s'' : TaskStatus} (h : StatusKept s s') (h' : StatusKept s' s'') :
    StatusKept s s'' := by
  intro hterminal
  rcases h hterminal with rfl | ⟨rfl, hs'⟩
  · exact h' hterminal
  · rcases hs' with rfl | rfl | rfl
    all_goals
      rcases h' rfl with rfl | ⟨hfalse, -⟩
      · simp
      · cases hfalse

theorem statusKept_of_not_terminal (h : isTerminalTaskStatus s = false) : StatusKept s s' := by
  intro hterminal
  rw [h] at hterminal
  cases hterminal

/-! ## What a part of a step keeps -/

variable (reg taskId)

/-- The status of a task in memory. -/
def statusIn : Option TaskStatus :=
  (reg.tasks.find taskId).map (·.status)

/-- The status of a task in the store. -/
def storedStatus : Option TaskStatus :=
  (reg.store.rows.find taskId).map (·.status)

variable {reg taskId}

/-- The registry is restored, and memory and store agree on every status. -/
structure Ready (reg : TaskRegistry) : Prop where
  restored : reg.restoreAttempted = true
  agree : ∀ taskId, statusIn reg taskId = storedStatus reg taskId

/-- Every task of the first registry is in the second, with a status that may follow. -/
def StatusesKept (reg reg' : TaskRegistry) : Prop :=
  ∀ taskId s, statusIn reg taskId = some s → ∃ s', statusIn reg' taskId = some s' ∧ StatusKept s s'

structure Keeps (reg reg' : TaskRegistry) : Prop where
  ready : Ready reg → Ready reg'
  statuses : StatusesKept reg reg'

theorem Keeps.refl (reg : TaskRegistry) : Keeps reg reg :=
  ⟨id, fun _ s hs => ⟨s, hs, .refl s⟩⟩

theorem Keeps.trans (h : Keeps reg reg') (h' : Keeps reg' reg'') : Keeps reg reg'' := by
  refine ⟨fun hready => h'.ready (h.ready hready), ?_⟩
  intro taskId s hs
  obtain ⟨s', hs', hkept⟩ := h.statuses taskId s hs
  obtain ⟨s'', hs'', hkept'⟩ := h'.statuses taskId s' hs'
  exact ⟨s'', hs'', hkept.trans hkept'⟩

/-- Nothing but the records and the flag matters to the statuses. -/
theorem keeps_of_eq (htasks : reg'.tasks = reg.tasks) (hrows : reg'.store.rows = reg.store.rows)
    (hrestored : reg'.restoreAttempted = reg.restoreAttempted) : Keeps reg reg' := by
  have hstatus : ∀ taskId, statusIn reg' taskId = statusIn reg taskId := by
    intro taskId
    unfold statusIn
    rw [htasks]
  refine ⟨fun hready => ⟨hrestored.trans hready.restored, ?_⟩, ?_⟩
  · intro taskId
    rw [hstatus, hready.agree]
    unfold storedStatus
    rw [hrows]
  · intro taskId s hs
    exact ⟨s, (hstatus taskId).trans hs, .refl s⟩

theorem statusIn_putTask (reg : TaskRegistry) (next : TaskRecord) (taskId : Str) :
    statusIn (putTask reg next) taskId =
      if taskId = next.taskId then some next.status else statusIn reg taskId := by
  show ((reg.tasks.set next).find taskId).map _ = _
  rw [find_set]
  split_ifs <;> rfl

theorem keeps_putTask {next : TaskRecord}
    (h : ∀ s, statusIn reg next.taskId = some s → StatusKept s next.status) :
    Keeps reg (putTask reg next) := by
  constructor
  · intro hready
    refine ⟨hready.restored, ?_⟩
    intro taskId
    rw [statusIn_putTask, hready.agree]
    show _ = ((reg.store.rows.set next).find taskId).map _
    rw [find_set]
    split_ifs <;> rfl
  · intro taskId s hs
    rw [statusIn_putTask]
    split_ifs with heq
    · exact ⟨next.status, rfl, h s (heq ▸ hs)⟩
    · exact ⟨s, hs, .refl s⟩

variable (env)

theorem statusIn_updateTask (reg : TaskRegistry) (taskId : Str)
    (patch : TaskPatch) (other : Str) : statusIn (updateTask env reg taskId patch) other =
      if other = taskId then (reg.tasks.find taskId).map fun task => (patch.apply task).status
      else statusIn reg other := by
  unfold updateTask
  cases hfind : reg.tasks.find taskId with
  | none =>
    split_ifs with heq
    · rw [heq, statusIn, hfind]
      rfl
    · rfl
  | some current =>
    have hid := key_of_find hfind
    rw [statusIn_putTask, nextTask_taskId, nextTask_status, hid]
    rfl

theorem restoreAttempted_updateTask (reg : TaskRegistry) (taskId : Str) (patch : TaskPatch) :
    (updateTask env reg taskId patch).restoreAttempted = reg.restoreAttempted := by
  unfold updateTask
  split <;> rfl

/-- A patch that sets the status sets it. -/
theorem statusIn_updateTask_self (hs : statusIn reg taskId = some s)
    (hpatch : ∀ task, (patch.apply task).status = s') :
    statusIn (updateTask env reg taskId patch) taskId = some s' := by
  obtain ⟨task, htask, -⟩ := Option.map_eq_some_iff.mp hs
  rw [statusIn_updateTask, if_pos rfl, htask]
  exact congrArg some (hpatch task)

variable {env}

theorem keeps_updateTask (h : ∀ task, reg.tasks.find taskId = some task →
      StatusKept task.status (patch.apply task).status) :
    Keeps reg (updateTask env reg taskId patch) := by
  unfold updateTask
  cases hfind : reg.tasks.find taskId with
  | none => exact .refl reg
  | some current =>
    apply keeps_putTask
    intro s hs
    rw [nextTask_taskId, key_of_find hfind, statusIn, hfind] at hs
    rw [nextTask_status, ← some.inj hs]
    exact h current hfind

/-- A patch that does not mention the status. -/
def TaskPatch.KeepsStatus (patch : TaskPatch) : Prop :=
  ∀ task, (patch.apply task).status = task.status

theorem TaskPatch.KeepsStatus.keeps (h : patch.KeepsStatus)
    (env : TaskSurroundings) (reg : TaskRegistry) (taskId : Str) :
    Keeps reg (updateTask env reg taskId patch) := by
  apply keeps_updateTask
  intro task _
  rw [h task]
  exact .refl task.status

theorem find_updateTask_of_ne (env : TaskSurroundings) (reg : TaskRegistry) {other : Str}
    (patch : TaskPatch) (h : other ≠ taskId) :
    (updateTask env reg taskId patch).tasks.find other = reg.tasks.find other := by
  unfold updateTask
  cases hfind : reg.tasks.find taskId with
  | none => rfl
  | some current =>
    have hne : other ≠ (nextTask env current patch).taskId := by
      rw [nextTask_taskId, key_of_find hfind]
      exact h
    exact find_set_of_ne _ hne

/-! ## Deliveries -/

theorem keepsStatus_deliveryPatch (env : TaskSurroundings) (deliveryStatus : TaskDeliveryStatus) :
    (deliveryPatch env deliveryStatus).KeepsStatus := fun _ => rfl

theorem keepsStatus_touchPatch (env : TaskSurroundings) : (touchPatch env).KeepsStatus :=
  fun _ => rfl

theorem keeps_setLastNotifiedEventAt (reg : TaskRegistry) (taskId : Str) (atMs : ℤ) :
    Keeps reg (setLastNotifiedEventAt reg taskId atMs) := keeps_of_eq rfl rfl rfl

/-- What a delivery may do to the registry: nothing to the statuses, and nothing at all to
the records of other tasks. -/
structure Delivers (taskId : Str) (reg reg' : TaskRegistry) : Prop where
  keeps : Keeps reg reg'
  statuses : ∀ other, statusIn reg' other = statusIn reg other
  frame : ∀ other, other ≠ taskId → reg'.tasks.find other = reg.tasks.find other
  restored : reg'.restoreAttempted = reg.restoreAttempted

theorem Delivers.refl (taskId : Str) (reg : TaskRegistry) : Delivers taskId reg reg :=
  ⟨.refl reg, fun _ => rfl, fun _ _ => rfl, rfl⟩

theorem Delivers.trans
    (h : Delivers taskId reg reg') (h' : Delivers taskId reg' reg'') : Delivers taskId reg reg'' :=
  ⟨h.keeps.trans h'.keeps, fun other => (h'.statuses other).trans (h.statuses other),
    fun other hne => (h'.frame other hne).trans (h.frame other hne),
    h'.restored.trans h.restored⟩

theorem delivers_of_eq (htasks : reg'.tasks = reg.tasks) (hrows : reg'.store.rows = reg.store.rows)
    (hrestored : reg'.restoreAttempted = reg.restoreAttempted) : Delivers taskId reg reg' := by
  refine ⟨keeps_of_eq htasks hrows hrestored, ?_, ?_, hrestored⟩
  · intro other
    unfold statusIn
    rw [htasks]
  · intro other _
    rw [htasks]

theorem TaskPatch.KeepsStatus.delivers (h : patch.KeepsStatus)
    (env : TaskSurroundings) (reg : TaskRegistry) (taskId : Str) :
    Delivers taskId reg (updateTask env reg taskId patch) := by
  refine ⟨h.keeps env reg taskId, ?_, fun other => find_updateTask_of_ne env reg patch,
    restoreAttempted_updateTask env reg taskId patch⟩
  intro other
  have hstatus : (fun task => (patch.apply task).status) = fun task => task.status := funext h
  rw [statusIn_updateTask]
  split_ifs with heq
  · rw [heq, hstatus]
    rfl
  · rfl

variable (env)

theorem delivers_maybeDeliverTaskTerminalUpdate (reg : TaskRegistry)
    (taskId : Str) : Delivers taskId reg (maybeDeliverTaskTerminalUpdate env reg taskId) := by
  unfold maybeDeliverTaskTerminalUpdate
  split
  · exact .refl taskId reg
  · dsimp only
    split_ifs
    all_goals
      first
      | exact .refl taskId reg
      | exact (keepsStatus_deliveryPatch env _).delivers env reg taskId
      | exact delivers_of_eq rfl rfl rfl

theorem delivers_maybeDeliverTaskStateChangeUpdate (reg : TaskRegistry)
    (taskId : Str) (latestEvent : Option TaskEventRecord) :
    Delivers taskId reg (maybeDeliverTaskStateChangeUpdate env reg taskId latestEvent) := by
  have hnotify : ∀ atMs, Delivers taskId reg
      (updateTask env (setLastNotifiedEventAt reg taskId atMs) taskId (touchPatch env)) := by
    intro atMs
    have hset : Delivers taskId reg (setLastNotifiedEventAt reg taskId atMs) :=
      delivers_of_eq rfl rfl rfl
    exact hset.trans ((keepsStatus_touchPatch env).delivers env _ taskId)
  unfold maybeDeliverTaskStateChangeUpdate
  split
  · split_ifs
    all_goals
      first
      | exact .refl taskId reg
      | exact (keepsStatus_deliveryPatch env _).delivers env reg taskId
      | exact hnotify _
      | exact delivers_of_eq rfl rfl rfl
  · exact .refl taskId reg

theorem delivers_deliverUpdates (reg : TaskRegistry) (taskId : Str)
    (latestEvent : Option TaskEventRecord) :
    Delivers taskId reg (deliverUpdates env reg taskId latestEvent) :=
  (delivers_maybeDeliverTaskStateChangeUpdate env reg taskId latestEvent).trans
    (delivers_maybeDeliverTaskTerminalUpdate env _ taskId)

theorem keeps_finishSend (reg : TaskRegistry) (send : TaskSend)
    (sent : Bool) : Keeps reg (finishSend env reg send sent) := by
  cases send with
  | terminal task =>
    have hpatch := (keepsStatus_deliveryPatch env (if sent then .delivered else .failed)).keeps env
      reg task.taskId
    exact hpatch.trans (keeps_of_eq rfl rfl rfl)
  | stateChange taskId latestEvent =>
    cases sent with
    | false => exact .refl reg
    | true =>
      exact (keeps_setLastNotifiedEventAt reg taskId latestEvent.atMs).trans
        ((keepsStatus_touchPatch env).keeps env _ taskId)

variable {env}

/-! ## Loops over the tasks of a run -/

/-- A loop that writes each task of a list once, knowing its record. -/
theorem keeps_foldl {f : TaskRegistry → TaskRecord → TaskRegistry}
    (hkeeps : ∀ reg current, reg.tasks.find current.taskId = some current →
      Keeps reg (f reg current))
    (hframe : ∀ reg current other, other ≠ current.taskId →
      (f reg current).tasks.find other = reg.tasks.find other)
    (found : List TaskRecord) (reg : TaskRegistry) (hnodup : (found.map (·.taskId)).Nodup)
    (hfound : ∀ current ∈ found, reg.tasks.find current.taskId = some current) :
    Keeps reg (found.foldl f reg) := by
  induction found generalizing reg with
  | nil => exact .refl reg
  | cons current rest ih =>
    rw [map_cons, nodup_cons] at hnodup
    have hfirst := hkeeps reg current (hfound current mem_cons_self)
    apply hfirst.trans
    -- the records of the rest are still the ones in the list
    apply ih (f reg current) hnodup.2
    intro other hother
    have hne : other.taskId ≠ current.taskId := by
      intro heq
      exact hnodup.1 (heq ▸ mem_map_of_mem hother)
    rw [hframe reg current other.taskId hne]
    exact hfound other (mem_cons_of_mem _ hother)

theorem getTasksByRunScope_sublist (reg : TaskRegistry) (scope : TaskRunScope) :
    (getTasksByRunScope reg scope).Sublist reg.tasks.entries := by
  have hrun : (getTasksByRunId reg scope.runId).Sublist reg.tasks.entries := by
    unfold getTasksByRunId
    split_ifs
    · exact nil_sublist _
    · exact filter_sublist
  have hruntime : ((getTasksByRunId reg scope.runId).filter fun task =>
      scope.runtime.all (task.runtime = ·)).Sublist reg.tasks.entries :=
    filter_sublist.trans hrun
  unfold getTasksByRunScope
  dsimp only
  split
  · split_ifs
    · exact filter_sublist.trans hruntime
    · exact filter_sublist.trans hruntime
  · split_ifs
    · exact hruntime
    · exact nil_sublist _

/-- A loop over the tasks of a run scope. -/
theorem keeps_foldl_runScope {f : TaskRegistry → TaskRecord → TaskRegistry}
    (hkeeps : ∀ reg current, reg.tasks.find current.taskId = some current →
      Keeps reg (f reg current))
    (hframe : ∀ reg current other, other ≠ current.taskId →
      (f reg current).tasks.find other = reg.tasks.find other)
    (reg : TaskRegistry) (scope : TaskRunScope) :
    Keeps reg ((getTasksByRunScope reg scope).foldl f reg) := by
  have hsublist := getTasksByRunScope_sublist reg scope
  apply keeps_foldl hkeeps hframe
  · exact (hsublist.map _).nodup reg.tasks.nodup
  · intro current hcurrent
    exact find_of_mem (hsublist.subset hcurrent)

variable (env)

theorem keeps_applyAgentEvent (evt : AgentEvent)
    {current : TaskRecord} (hcurrent : reg.tasks.find current.taskId = some current) :
    Keeps reg (applyAgentEvent env evt reg current) := by
  unfold applyAgentEvent
  split_ifs with hterminal
  · exact .refl reg
  · rw [Bool.not_eq_true] at hterminal
    have hupdate : Keeps reg (updateTask env reg current.taskId (agentEventPatch env evt current)) := by
      apply keeps_updateTask
      intro task htask
      rw [hcurrent, some.injEq] at htask
      exact statusKept_of_not_terminal (htask ▸ hterminal)
    exact hupdate.trans (delivers_deliverUpdates env _ _ _).keeps

theorem frame_applyAgentEvent (evt : AgentEvent) (reg : TaskRegistry)
    (current : TaskRecord) (other : Str) (hne : other ≠ current.taskId) :
    (applyAgentEvent env evt reg current).tasks.find other = reg.tasks.find other := by
  unfold applyAgentEvent
  split_ifs
  · rfl
  · rw [(delivers_deliverUpdates env _ current.taskId _).frame other hne]
    exact find_updateTask_of_ne env reg _ hne

theorem keeps_applyTaskRunUpdate (params : TaskRunUpdate)
    {current : TaskRecord} (hcurrent : reg.tasks.find current.taskId = some current) :
    Keeps reg (applyTaskRunUpdate env params reg current) := by
  unfold applyTaskRunUpdate
  split_ifs with hrefused
  · exact .refl reg
  · have hupdate : Keeps reg (updateTask env reg current.taskId (params.patch current)) := by
      apply keeps_updateTask
      intro task htask
      rw [hcurrent, some.injEq] at htask
      subst htask
      show StatusKept current.status (params.status.getD current.status)
      cases hstatus : params.status with
      | none => exact .refl current.status
      | some nextStatus =>
        rw [hstatus] at hrefused
        rw [getD_some, statusKept_iff]
        simpa using hrefused
    exact hupdate.trans (delivers_deliverUpdates env _ _ _).keeps

theorem frame_applyTaskRunUpdate (params : TaskRunUpdate)
    (reg : TaskRegistry) (current : TaskRecord) (other : Str) (hne : other ≠ current.taskId) :
    (applyTaskRunUpdate env params reg current).tasks.find other = reg.tasks.find other := by
  unfold applyTaskRunUpdate
  split_ifs
  · rfl
  · rw [(delivers_deliverUpdates env _ current.taskId _).frame other hne]
    exact find_updateTask_of_ne env reg _ hne

variable {env}

/-! ## Creation and cancellation -/

theorem keeps_mergeExistingTaskForCreate (env : TaskSurroundings) (reg : TaskRegistry)
    (existing : TaskRecord) (params : CreateTaskParams) :
    Keeps reg (mergeExistingTaskForCreate env reg existing params) := by
  have hpatch : ∀ patch : MergePatch, patch.toPatch.KeepsStatus := fun _ _ => rfl
  dsimp only [mergeExistingTaskForCreate]
  split_ifs
  · exact .refl reg
  · exact .refl reg
  · exact (hpatch _).keeps env reg existing.taskId

theorem keeps_createTaskRecord {params : CreateTaskParams} (hfresh : reg.tasks.find taskId = none) :
    Keeps reg (createTaskRecord env reg taskId params) := by
  have hput : Keeps reg (putTask reg (newTaskRecord env taskId params)) := by
    apply keeps_putTask
    intro s hs
    rw [newTaskRecord_taskId, statusIn, hfresh] at hs
    cases hs
  dsimp only [createTaskRecord]
  split
  · exact .refl reg
  · split
    · exact .refl reg
    · split
      · exact keeps_mergeExistingTaskForCreate env reg _ params
      · split
        · exact hput.trans (delivers_maybeDeliverTaskTerminalUpdate env _ taskId).keeps
        · exact hput

theorem keeps_linkTaskToFlowById (env : TaskSurroundings) (reg : TaskRegistry)
    (taskId flowId : Str) : Keeps reg (linkTaskToFlowById env reg taskId flowId) := by
  unfold linkTaskToFlowById
  split_ifs
  · exact .refl reg
  · split
    · exact .refl reg
    · split_ifs
      · exact .refl reg
      · exact .refl reg
      · apply keeps_updateTask
        intro task _
        exact .refl task.status

/-- The end of a cancellation keeps the statuses if it may turn the current one into
`cancelled`. -/
theorem keeps_writeCancelled {reason : Option Str}
    (h : ∀ s, statusIn reg taskId = some s → StatusKept s .cancelled) :
    Keeps reg (writeCancelled env reg taskId reason) := by
  have hupdate : Keeps reg (updateTask env reg taskId (cancelPatch env reason)) := by
    apply keeps_updateTask
    intro task htask
    apply h task.status
    rw [statusIn, htask]
    rfl
  exact hupdate.trans (delivers_maybeDeliverTaskTerminalUpdate env _ taskId).keeps

theorem keeps_cancelTaskById (env : TaskSurroundings) (reg : TaskRegistry) (taskId : Str)
    (reason : Option Str) : Keeps reg (cancelTaskById env reg taskId reason) := by
  unfold cancelTaskById
  split
  · exact .refl reg
  · rename_i task htask
    split_ifs with hterminal
    · exact .refl reg
    · apply keeps_writeCancelled
      intro s hs
      rw [Bool.not_eq_true] at hterminal
      rw [key_of_find htask, statusIn, htask] at hs
      exact statusKept_of_not_terminal (some.inj hs ▸ hterminal)
    · exact .refl reg
    · exact .refl reg
    · exact keeps_of_eq rfl rfl rfl

/-! ## One step -/

/-- What holds of the registry between two steps. -/
structure Consistent (reg : TaskRegistry) : Prop where
  agree : reg.restoreAttempted = true → ∀ taskId, statusIn reg taskId = storedStatus reg taskId
  idle : reg.restoreAttempted = false → reg.sends = [] ∧ reg.cancels = []

/-- `StatusesKept` for what the exported functions see. -/
def TaskStatusesKept (reg reg' : TaskRegistry) : Prop :=
  ∀ taskId s, taskStatus reg taskId = some s →
    ∃ s', taskStatus reg' taskId = some s' ∧ StatusKept s s'

theorem TaskStatusesKept.refl (reg : TaskRegistry) : TaskStatusesKept reg reg :=
  fun _ s hs => ⟨s, hs, .refl s⟩

theorem TaskStatusesKept.trans (h : TaskStatusesKept reg reg')
    (h' : TaskStatusesKept reg' reg'') : TaskStatusesKept reg reg'' := by
  intro taskId s hs
  obtain ⟨s', hs', hkept⟩ := h taskId s hs
  obtain ⟨s'', hs'', hkept'⟩ := h' taskId s' hs'
  exact ⟨s'', hs'', hkept.trans hkept'⟩

theorem tasks_ensureTaskRegistryReady (h : reg.restoreAttempted = true) :
    (ensureTaskRegistryReady reg).tasks = reg.tasks := by
  simp [ensureTaskRegistryReady, restoreTaskRegistryOnce, h]

theorem Ready.consistent (h : Ready reg) : Consistent reg := by
  refine ⟨fun _ => h.agree, ?_⟩
  intro hfalse
  rw [h.restored] at hfalse
  cases hfalse

theorem Ready.taskStatus_eq (h : Ready reg) (taskId : Str) :
    taskStatus reg taskId = statusIn reg taskId := by
  unfold taskStatus statusIn
  rw [tasks_ensureTaskRegistryReady h.restored]

variable (store : TaskStore)

/-- A restored task has the status of its row. -/
theorem find_loadTasks_status (taskId : Str) :
    (store.loadTasks.find taskId).map (·.status) = (store.rows.find taskId).map (·.status) := by
  rw [store.find_loadTasks, Option.map_map]
  rfl

theorem Consistent.ready (h : Consistent reg) : Ready (ensureTaskRegistryReady reg) := by
  cases hrestored : reg.restoreAttempted with
  | true =>
    have heq : restoreTaskRegistryOnce reg = reg := by
      unfold restoreTaskRegistryOnce
      rw [hrestored, if_pos rfl]
    unfold ensureTaskRegistryReady
    rw [heq]
    exact ⟨hrestored, h.agree hrestored⟩
  | false =>
    have heq : restoreTaskRegistryOnce reg =
        { reg with
          restoreAttempted := true
          tasks := reg.store.loadTasks
          lastNotifiedEventAt := reg.store.lastNotifiedEventAt } := by
      unfold restoreTaskRegistryOnce
      rw [hrestored, if_neg Bool.false_ne_true]
    unfold ensureTaskRegistryReady
    rw [heq]
    exact ⟨rfl, find_loadTasks_status reg.store⟩

theorem store_ensureTaskRegistryReady (reg : TaskRegistry) :
    (ensureTaskRegistryReady reg).store = reg.store := by
  unfold ensureTaskRegistryReady restoreTaskRegistryOnce
  split_ifs <;> rfl

theorem Consistent.taskStatus_eq (h : Consistent reg) (taskId : Str) :
    taskStatus reg taskId = storedStatus reg taskId := by
  have hagree := h.ready.agree taskId
  unfold storedStatus at hagree ⊢
  rw [store_ensureTaskRegistryReady] at hagree
  exact hagree

theorem Keeps.step (hreg : Consistent reg) (h : Keeps (ensureTaskRegistryReady reg) reg') :
    Consistent reg' ∧ TaskStatusesKept reg reg' := by
  have hready := h.ready hreg.ready
  refine ⟨hready.consistent, ?_⟩
  intro taskId s hs
  obtain ⟨s', hs', hkept⟩ := h.statuses taskId s hs
  exact ⟨s', (hready.taskStatus_eq taskId).trans hs', hkept⟩

/-- What goes on after a wait finds a restored registry. -/
theorem keeps_ensureTaskRegistryReady
    (hrestored : reg.restoreAttempted = true) (htasks : reg'.tasks = reg.tasks)
    (hrows : reg'.store.rows = reg.store.rows) (hflag : reg'.restoreAttempted = true) :
    Keeps (ensureTaskRegistryReady reg) reg' := by
  apply keeps_of_eq
  · rw [htasks, tasks_ensureTaskRegistryReady hrestored]
  · rw [hrows, store_ensureTaskRegistryReady]
  · rw [hflag]
    unfold ensureTaskRegistryReady restoreTaskRegistryOnce
    rw [hrestored, if_pos rfl]
    exact hrestored.symm

/-- The operation writes a status that the table of run-scoped updates refuses: a setter by id,
or the end of a cancellation that the runtime confirmed. -/
def TaskOperation.Overwrites (reg : TaskRegistry) : TaskOperation → Prop
  | .markTerminalById params =>
    ∃ s, taskStatus reg params.taskId = some s ∧
      shouldApplyRunScopedStatusUpdate s params.status.status = false
  | .markLostById params =>
    ∃ s, taskStatus reg params.taskId = some s ∧
      shouldApplyRunScopedStatusUpdate s .lost = false
  | .finishCancel index answer =>
    ∃ call, reg.cancels[index]? = some call ∧ answer.confirms call.runtime ∧
      ∃ s, taskStatus reg call.taskId = some s ∧
        shouldApplyRunScopedStatusUpdate s .cancelled = false
  | _ => False

/-- A status that may be written, from a status that the operation does not overwrite. -/
theorem statusKept_of_not_refused
    (h : ¬ shouldApplyRunScopedStatusUpdate s s' = false) : StatusKept s s' := by
  rw [statusKept_iff]
  simpa using h

theorem Consistent.restored_of_cancel (h : Consistent reg) {index : ℕ}
    {call : CancelCall} (hcall : reg.cancels[index]? = some call) : reg.restoreAttempted = true := by
  by_contra hfalse
  rw [Bool.not_eq_true] at hfalse
  rw [(h.idle hfalse).2] at hcall
  cases hcall

theorem Consistent.restored_of_send (h : Consistent reg) {index : ℕ}
    {send : TaskSend} (hsend : reg.sends[index]? = some send) : reg.restoreAttempted = true := by
  by_contra hfalse
  rw [Bool.not_eq_true] at hfalse
  rw [(h.idle hfalse).1] at hsend
  cases hsend

variable (env)

theorem keeps_onAgentEvent (reg : TaskRegistry) (evt : AgentEvent) :
    onAgentEvent env reg evt = reg ∨
      Keeps (ensureTaskRegistryReady reg) (onAgentEvent env reg evt) := by
  dsimp only [onAgentEvent]
  split_ifs
  · exact .inl rfl
  · have hsame : Keeps (ensureTaskRegistryReady reg) (restoreTaskRegistryOnce reg) :=
      keeps_of_eq rfl rfl rfl
    exact .inr (hsame.trans (keeps_foldl_runScope
      (fun reg current => keeps_applyAgentEvent env evt) (frame_applyAgentEvent env evt) _ _))

theorem keeps_updateTaskDeliveryByRunId (reg : TaskRegistry)
    (scope : TaskRunScope) (deliveryStatus : TaskDeliveryStatus) (error : Option Str) :
    Keeps reg (updateTaskDeliveryByRunId env reg scope deliveryStatus error) := by
  have hpatch : (setDeliveryStatusPatch deliveryStatus error).KeepsStatus := fun _ => rfl
  apply keeps_foldl_runScope
  · intro reg current _
    exact hpatch.keeps env reg current.taskId
  · intro reg current other hne
    exact find_updateTask_of_ne env reg _ hne

/-- A step that overwrites no status leaves the registry consistent and every status one that
may follow. -/
theorem kept_of_not_overwrites {op : TaskOperation}
    (hreg : Consistent reg) (hfresh : op.Fresh reg) (hsafe : ¬ op.Overwrites reg) :
    Consistent (performTaskOperation env reg op) ∧
      TaskStatusesKept reg (performTaskOperation env reg op) := by
  have hsetter : ∀ (taskId : Str) (patch : TaskPatch), patch.KeepsStatus →
      Consistent (updateTask env (ensureTaskRegistryReady reg) taskId patch) ∧
        TaskStatusesKept reg (updateTask env (ensureTaskRegistryReady reg) taskId patch) := by
    intro taskId patch hpatch
    exact (hpatch.keeps env _ taskId).step hreg
  cases op with
  | agentEvent evt =>
    rcases keeps_onAgentEvent env reg evt with heq | hkeeps
    · show Consistent (onAgentEvent env reg evt) ∧ TaskStatusesKept reg (onAgentEvent env reg evt)
      rw [heq]
      exact ⟨hreg, .refl reg⟩
    · exact hkeeps.step hreg
  | updateByRunId params =>
    have hkeeps : Keeps (ensureTaskRegistryReady reg)
        (updateTaskStateByRunId env (ensureTaskRegistryReady reg) params) :=
      keeps_foldl_runScope (fun reg current => keeps_applyTaskRunUpdate env params)
        (frame_applyTaskRunUpdate env params) _ _
    exact hkeeps.step hreg
  | updateDeliveryByRunId scope deliveryStatus error =>
    exact (keeps_updateTaskDeliveryByRunId env _ scope deliveryStatus error).step hreg
  | create taskId params => exact (keeps_createTaskRecord hfresh).step hreg
  | setProgressById taskId progressSummary lastEventAt => exact hsetter taskId _ fun _ => rfl
  | setTimingById taskId startedAt endedAt lastEventAt => exact hsetter taskId _ fun _ => rfl
  | setCleanupAfterById taskId cleanupAfter => exact hsetter taskId _ fun _ => rfl
  | updateNotifyPolicyById taskId notifyPolicy => exact hsetter taskId _ fun _ => rfl
  | linkToFlowById taskId flowId => exact (keeps_linkTaskToFlowById env _ taskId flowId).step hreg
  | markTerminalById params =>
    have hkeeps : Keeps (ensureTaskRegistryReady reg)
        (updateTask env (ensureTaskRegistryReady reg) params.taskId params.patch) := by
      apply keeps_updateTask
      intro task htask
      apply statusKept_of_not_refused
      intro hrefused
      exact hsafe ⟨task.status, by rw [taskStatus, htask]; rfl, hrefused⟩
    exact hkeeps.step hreg
  | markLostById params =>
    have hkeeps : Keeps (ensureTaskRegistryReady reg)
        (updateTask env (ensureTaskRegistryReady reg) params.taskId params.patch) := by
      apply keeps_updateTask
      intro task htask
      apply statusKept_of_not_refused
      intro hrefused
      exact hsafe ⟨task.status, by rw [taskStatus, htask]; rfl, hrefused⟩
    exact hkeeps.step hreg
  | deliverTerminal taskId =>
    exact (delivers_maybeDeliverTaskTerminalUpdate env _ taskId).keeps.step hreg
  | deliverStateChange taskId latestEvent =>
    exact (delivers_maybeDeliverTaskStateChangeUpdate env _ taskId latestEvent).keeps.step hreg
  | finishSend index sent =>
    dsimp only [performTaskOperation]
    split
    · exact ⟨hreg, .refl reg⟩
    · rename_i send hsend
      have hrestored := hreg.restored_of_send hsend
      have hsame : Keeps (ensureTaskRegistryReady reg)
          { reg with sends := reg.sends.eraseIdx index } :=
        keeps_ensureTaskRegistryReady hrestored rfl rfl hrestored
      exact (hsame.trans (keeps_finishSend env _ send sent)).step hreg
  | cancelById taskId reason => exact (keeps_cancelTaskById env _ taskId reason).step hreg
  | finishCancel index answer =>
    dsimp only [performTaskOperation]
    split
    · exact ⟨hreg, .refl reg⟩
    · rename_i call hcall
      have hrestored := hreg.restored_of_cancel hcall
      have hsame : Keeps (ensureTaskRegistryReady reg)
          { reg with cancels := reg.cancels.eraseIdx index } :=
        keeps_ensureTaskRegistryReady hrestored rfl rfl hrestored
      refine (hsame.trans ?_).step hreg
      unfold finishCancel
      split_ifs with hconfirms
      · apply keeps_writeCancelled
        intro s hs
        apply statusKept_of_not_refused
        intro hrefused
        refine hsafe ⟨call, hcall, hconfirms, s, ?_, hrefused⟩
        rw [taskStatus, tasks_ensureTaskRegistryReady hrestored]
        exact hs
      · exact .refl _
  | reload =>
    have hready : Ready (reloadTaskRegistryFromStore reg) :=
      ⟨rfl, find_loadTasks_status reg.store⟩
    refine ⟨hready.consistent, ?_⟩
    intro taskId s hs
    refine ⟨s, ?_, .refl s⟩
    rw [hreg.taskStatus_eq] at hs
    exact (hready.taskStatus_eq taskId).trans ((hready.agree taskId).trans hs)
  | restart =>
    have hstart : Consistent (.start reg.store) := ⟨nofun, fun _ => ⟨rfl, rfl⟩⟩
    refine ⟨hstart, ?_⟩
    intro taskId s hs
    refine ⟨s, ?_, .refl s⟩
    rw [hreg.taskStatus_eq] at hs
    exact (hstart.taskStatus_eq taskId).trans hs

/-- What an operation overwrites does not stay. -/
theorem not_kept_of_overwrites {op : TaskOperation}
    (hreg : Consistent reg) (hoverwrites : op.Overwrites reg) :
    ¬ TaskStatusesKept reg (performTaskOperation env reg op) := by
  -- the operation writes `s'` over `s`, and the registry is restored afterwards
  have hbreak : ∀ {reg' : TaskRegistry} {taskId : Str} {s s' : TaskStatus},
      reg'.restoreAttempted = true → taskStatus reg taskId = some s →
      statusIn reg' taskId = some s' → shouldApplyRunScopedStatusUpdate s s' = false →
      ¬ TaskStatusesKept reg reg' := by
    intro reg' taskId s s' hrestored hs hs' hrefused hkept
    obtain ⟨s'', hs'', hfollows⟩ := hkept taskId s hs
    have hmemory : taskStatus reg' taskId = some s' := by
      rw [taskStatus, tasks_ensureTaskRegistryReady hrestored]
      exact hs'
    rw [hmemory, some.injEq] at hs''
    rw [statusKept_iff, ← hs'', hrefused] at hfollows
    cases hfollows
  have hready := hreg.ready
  have hsetter : ∀ {taskId : Str} {patch : TaskPatch} {s s' : TaskStatus},
      taskStatus reg taskId = some s → (∀ task, (patch.apply task).status = s') →
      shouldApplyRunScopedStatusUpdate s s' = false →
      ¬ TaskStatusesKept reg (updateTask env (ensureTaskRegistryReady reg) taskId patch) := by
    intro taskId patch s s' hs hpatch hrefused
    have hrestored := (restoreAttempted_updateTask env (ensureTaskRegistryReady reg) taskId
      patch).trans hready.restored
    exact hbreak hrestored hs (statusIn_updateTask_self env hs hpatch) hrefused
  cases op with
  | markTerminalById params =>
    obtain ⟨s, hs, hrefused⟩ := hoverwrites
    exact hsetter hs (fun _ => rfl) hrefused
  | markLostById params =>
    obtain ⟨s, hs, hrefused⟩ := hoverwrites
    exact hsetter hs (fun _ => rfl) hrefused
  | finishCancel index answer =>
    obtain ⟨call, hcall, hconfirms, s, hs, hrefused⟩ := hoverwrites
    have hflag := hreg.restored_of_cancel hcall
    have hmemory : statusIn { reg with cancels := reg.cancels.eraseIdx index } call.taskId =
        some s := by
      rw [taskStatus, tasks_ensureTaskRegistryReady hflag] at hs
      exact hs
    have hwritten := statusIn_updateTask_self env hmemory
      (fun task => show ((cancelPatch env call.reason).apply task).status = .cancelled from rfl)
    have hdelivers := delivers_maybeDeliverTaskTerminalUpdate env
      (updateTask env { reg with cancels := reg.cancels.eraseIdx index } call.taskId
        (cancelPatch env call.reason)) call.taskId
    dsimp only [performTaskOperation]
    rw [hcall]
    dsimp only [finishCancel]
    rw [if_pos hconfirms]
    refine hbreak ?_ hs ((hdelivers.statuses call.taskId).trans hwritten) hrefused
    rw [writeCancelled, hdelivers.restored, restoreAttempted_updateTask]
    exact hflag
  | _ => exact hoverwrites.elim

variable {env}

/-! ## Runs -/

/-- The start of a process. -/
theorem consistent_start : Consistent (.start store) :=
  ⟨nofun, fun _ => ⟨rfl, rfl⟩⟩

/-- A step that overwrites no status. -/
def carefulTaskStep (reg : TaskRegistry) (label : TaskSurroundings × TaskOperation)
    (reg' : TaskRegistry) : Prop :=
  taskStep reg label reg' ∧ ¬ label.2.Overwrites reg

theorem taskStep_deterministic : Lts.Deterministic taskStep :=
  fun _ _ _ _ h h' => h.2.trans h'.2.symm

theorem kept_of_carefulRun
    {labels : List (TaskSurroundings × TaskOperation)} (hreg : Consistent reg)
    (hrun : Lts.Run carefulTaskStep reg labels reg') :
    Consistent reg' ∧ TaskStatusesKept reg reg' := by
  apply hrun.invariant fun t => Consistent t ∧ TaskStatusesKept reg t
  · rintro t label t' ⟨ht, hkept⟩ ⟨⟨hfresh, rfl⟩, hsafe⟩
    have hstep := kept_of_not_overwrites label.1 ht hfresh hsafe
    exact ⟨hstep.1, hkept.trans hstep.2⟩
  · exact ⟨hreg, .refl reg⟩

/-- Along a run from any store, every task that is there stays there and a terminal status is
final, a success that turns into another outcome apart, if and only if no step of the run
overwrites a status. -/
theorem taskStatus_final {store : TaskStore} {labels : List (TaskSurroundings × TaskOperation)}
    {reg : TaskRegistry} (hrun : Lts.Run taskStep (.start store) labels reg) :
    (∀ before between after u v, labels = before ++ between ++ after →
      Lts.Run taskStep (.start store) before u → Lts.Run taskStep u between v →
      Lts.Run taskStep v after reg → TaskStatusesKept u v) ↔
      Lts.Run carefulTaskStep (.start store) labels reg := by
  have hmono : ∀ {s t bs}, Lts.Run carefulTaskStep s bs t → Lts.Run taskStep s bs t :=
    fun h => h.mono fun h => h.1
  constructor
  · intro hkept
    by_contra hcareless
    have hexit : ¬ Lts.Run (fun reg label reg' => taskStep reg label reg' ∧
        (fun reg (label : TaskSurroundings × TaskOperation) (_ : TaskRegistry) =>
          ¬ label.2.Overwrites reg) reg label reg') (.start store) labels reg := hcareless
    obtain ⟨before, label, after, u, v, rfl, hcareful, hstep, hoverwrites⟩ :=
      hrun.exists_first_exit hexit
    have hfirst : Lts.Run taskStep (.start store) before u := hmono hcareful
    rw [not_not] at hoverwrites
    -- the rest of the run starts where the careless step ends
    obtain ⟨u', hbefore', hrest⟩ := Lts.run_append_iff.mp hrun
    have hu : u' = u := hbefore'.unique taskStep_deterministic hfirst
    subst hu
    obtain ⟨v', hstep', hafter⟩ := Lts.run_cons_iff.mp hrest
    have hv : v' = v := taskStep_deterministic _ _ _ _ hstep' hstep
    subst hv
    have hconsistent := (kept_of_carefulRun (consistent_start store) hcareful).1
    have hbroken := not_kept_of_overwrites label.1 hconsistent hoverwrites
    rw [← hstep.2] at hbroken
    exact hbroken (hkept before [label] after u' v' (by simp) hfirst (.single hstep) hafter)
  · rintro hcareful before between after u v rfl hbefore hbetween -
    obtain ⟨v', hbeforeBetween, -⟩ := Lts.run_append_iff.mp hcareful
    obtain ⟨u', hbefore', hbetween'⟩ := Lts.run_append_iff.mp hbeforeBetween
    have hu : u' = u := (hmono hbefore').unique taskStep_deterministic hbefore
    subst hu
    have hv : v' = v := (hmono hbetween').unique taskStep_deterministic hbetween
    subst hv
    have hconsistent := (kept_of_carefulRun (consistent_start store) hbefore').1
    exact (kept_of_carefulRun hconsistent hbetween').2

/-! ## A task that fails while it is cancelled -/

def quietSurroundings : TaskSurroundings where
  now := 1000
  ownerSessionKey task := task.ownerKey
  canDeliver _ := false
  queueFails _ := false
  sanitizesToNothing _ := true
  parentFlowLinkAllowed _ _ _ := true

/-- An ACP task, its cancellation, and the failure of its run. -/
def failWhileCancelling : List (TaskSurroundings × TaskOperation) :=
  [ .create "task".toList
      { runtime := .acp
        requesterSessionKey := some "agent:main".toList
        childSessionKey := some "agent:child".toList
        runId := some "run".toList
        task := "build".toList
        status := some .running
        notifyPolicy := some .silent },
    .cancelById "task".toList none,
    .agentEvent
      { runId := "run".toList
        ts := 2000
        stream := .lifecycle .error none none false (some "exit 1".toList) } ].map
    fun op => (quietSurroundings, op)

def emptyTaskStore : TaskStore := ⟨.empty, fun _ => none⟩

def performAllTasks (reg : TaskRegistry) (labels : List (TaskSurroundings × TaskOperation)) :
    TaskRegistry :=
  labels.foldl (fun reg label => performTaskOperation label.1 reg label.2) reg

theorem fresh_emptyTaskStore (taskId : Str) :
    (ensureTaskRegistryReady (.start emptyTaskStore)).tasks.find taskId = none := by
  show emptyTaskStore.loadTasks.find taskId = none
  rw [TaskStore.find_loadTasks]
  rfl

theorem careful_failWhileCancelling : Lts.Run carefulTaskStep (.start emptyTaskStore)
    failWhileCancelling (performAllTasks (.start emptyTaskStore) failWhileCancelling) :=
  .cons ⟨⟨fresh_emptyTaskStore _, rfl⟩, not_false⟩ <| .cons ⟨⟨trivial, rfl⟩, not_false⟩ <|
    .cons ⟨⟨trivial, rfl⟩, not_false⟩ <| .nil _

/-- Up to the failure, every status of the run is final. -/
theorem taskStatus_final_failed : TaskStatusesKept (.start emptyTaskStore)
      (performAllTasks (.start emptyTaskStore) failWhileCancelling) := by
  have hrun := careful_failWhileCancelling.mono fun h => h.1
  have hfinal := (taskStatus_final hrun).mpr careful_failWhileCancelling
  exact hfinal [] failWhileCancelling [] _ _ (by simp) (.nil _) hrun (.nil _)

/-- The ACP runtime then returns from the cancellation, and the failed task is cancelled. -/
theorem not_taskStatus_final :
    ¬ ∀ (store : TaskStore) (labels : List (TaskSurroundings × TaskOperation)) (reg : TaskRegistry),
        Lts.Run taskStep (.start store) labels reg →
        ∀ before between after u v, labels = before ++ between ++ after →
          Lts.Run taskStep (.start store) before u → Lts.Run taskStep u between v →
          Lts.Run taskStep v after reg → TaskStatusesKept u v := by
  intro h
  let failed := performAllTasks (.start emptyTaskStore) failWhileCancelling
  let answer := (quietSurroundings, TaskOperation.finishCancel 0 (.returned true true))
  let cancelled := performTaskOperation answer.1 failed answer.2
  have hbefore : Lts.Run taskStep (.start emptyTaskStore) failWhileCancelling failed :=
    careful_failWhileCancelling.mono fun h => h.1
  have hstep : Lts.Run taskStep failed [answer] cancelled := .single ⟨trivial, rfl⟩
  have hkept := h emptyTaskStore _ cancelled (hbefore.append hstep) failWhileCancelling [answer] []
    failed cancelled (by simp) hbefore hstep (.nil _)
  have hfailed : taskStatus failed "task".toList = some .failed := by decide +kernel
  have hcancelled : taskStatus cancelled "task".toList = some .cancelled := by decide +kernel
  obtain ⟨s', hs', hfollows⟩ := hkept "task".toList .failed hfailed
  rw [hcancelled, some.injEq] at hs'
  rw [← hs', statusKept_iff] at hfollows
  cases hfollows

end OpenClaw
