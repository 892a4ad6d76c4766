import OpenClaw.Delivery.Queue
import OpenClaw.Lib.Run

/-!
# Messages are sent once

Two invariants of the process: a claim is held by one task at most, and an acknowledged
entry stays gone while nobody writes to its file without the claim. The first holds of
every run; the second of the runs in which the writers without a claim are not late.
-/

namespace OpenClaw

open Lts Function DeliveryStep

variable {Payload : Type}

/-! ## What a holder does -/

/-- The phases and actions of one step of a holder. -/
structure HolderStepSpec (file : Option (QueuedDelivery Payload)) (phase : EntryPhase Payload)
    (action : EntryAction Payload) (phase' : EntryPhase Payload) : Prop where
  trusts : phase'.trusts = true → phase.trusts = true ∨ file ≠ none
  write : ∀ entry, action = .write entry → phase.trusts = true
  start : action = .startDelivery → phase.trusts = true
  settles : action = .renameAcked ∨ action = .finishAck ∨ action = .moveToFailed →
    phase'.trusts = false
  finish : action = .finishAck → phase = .ackRemoving ∨ file = none
  removing : phase' = .ackRemoving → action = .renameAcked
  inFlight : phase'.inFlight = true → phase.inFlight = true ∨ action = .startDelivery

variable {file : Option (QueuedDelivery Payload)} {phase phase' : EntryPhase Payload}
  {action : EntryAction Payload} {tasks : ℕ → DeliveryTask Payload} {claims : Str → Bool}
  {task : DeliveryTask Payload} {id id' : Str} {t : ℕ} {s s' : DeliveryState Payload}
  {event : DeliveryEvent} {label : ℕ × DeliveryEvent} {labels : List (ℕ × DeliveryEvent)}

theorem SettleStep.spec (h : SettleStep file phase action phase') :
    HolderStepSpec file phase action phase' := by
  cases h <;> constructor <;> simp_all [EntryPhase.trusts, EntryPhase.inFlight]

theorem RecoveryStep.spec {owner : RecoveryOwner Payload}
    (h : RecoveryStep owner file phase action phase') :
    HolderStepSpec file phase action phase' := by
  cases h with
  | reread =>
    constructor <;> cases file <;> simp [EntryPhase.trusts, EntryPhase.inFlight]
  | _ => constructor <;> simp_all [EntryPhase.trusts, EntryPhase.inFlight]

theorem LiveStep.spec {required : Bool} (h : LiveStep required file phase action phase') :
    HolderStepSpec file phase action phase' := by
  cases h with
  | outcomeFailed _ hphase =>
    rcases hphase with rfl | ⟨entry, rfl⟩ <;> cases required <;>
      constructor <;> simp [EntryPhase.trusts, EntryPhase.inFlight]
  | markFailed _ hphase =>
    rcases hphase with rfl | ⟨entry, rfl⟩ <;>
      constructor <;> simp [EntryPhase.trusts, EntryPhase.inFlight]
  | _ => constructor <;> simp_all [EntryPhase.trusts, EntryPhase.inFlight]

theorem HolderStep.spec {owner : ClaimOwner Payload}
    (h : HolderStep owner file phase action phase') : HolderStepSpec file phase action phase' := by
  rcases h with hsettle | hown
  · exact hsettle.spec
  · cases owner with
    | recovery recovery rest => exact RecoveryStep.spec hown
    | live required => exact LiveStep.spec hown

/-! ## Claims -/

/-- A held claim is in the set of entries in progress, and one task holds it. -/
structure ClaimsExclusive (tasks : ℕ → DeliveryTask Payload) (claims : Str → Bool) : Prop where
  held : ∀ t id, (tasks t).held? = some id → claims id = true
  unique : ∀ t t' id, (tasks t).held? = some id → (tasks t').held? = some id → t = t'

theorem ClaimsExclusive.keep (h : ClaimsExclusive tasks claims) (t : ℕ)
    (htask : task.held? = none ∨ task.held? = (tasks t).held?) :
    ClaimsExclusive (Function.update tasks t task) claims := by
  have hheld (u : ℕ) (id : Str) (hu : (Function.update tasks t task u).held? = some id) :
      (tasks u).held? = some id := by
    by_cases hut : u = t
    · subst hut
      rw [update_self] at hu
      rcases htask with hnone | hsame
      · exact absurd (hnone.symm.trans hu) (by simp)
      · exact hsame ▸ hu
    · rwa [update_of_ne hut] at hu
  exact ⟨fun u id hu => h.held u id (hheld u id hu),
    fun u u' id hu hu' => h.unique u u' id (hheld u id hu) (hheld u' id hu')⟩

theorem ClaimsExclusive.claim (h : ClaimsExclusive tasks claims) (t : ℕ)
    (hfree : claims id = false) (htask : task.held? = some id) :
    ClaimsExclusive (Function.update tasks t task) (Function.update claims id true) := by
  have hother (u : ℕ) (hu : (tasks u).held? = some id) : False := by
    have := h.held u id hu
    simp [hfree] at this
  refine ⟨fun u id' hu => ?_, fun u u' id' hu hu' => ?_⟩
  · by_cases hid : id' = id
    · subst hid
      exact update_self ..
    · rw [update_of_ne hid]
      by_cases hut : u = t
      · subst hut
        rw [update_self, htask] at hu
        exact absurd (Option.some.inj hu).symm hid
      · rw [update_of_ne hut] at hu
        exact h.held u id' hu
  · by_cases hut : u = t <;> by_cases hut' : u' = t
    · rw [hut, hut']
    · subst hut
      rw [update_self, htask] at hu
      rw [update_of_ne hut', ← hu] at hu'
      exact (hother u' hu').elim
    · subst hut'
      rw [update_self, htask] at hu'
      rw [update_of_ne hut, ← hu'] at hu
      exact (hother u hu).elim
    · rw [update_of_ne hut] at hu
      rw [update_of_ne hut'] at hu'
      exact h.unique u u' id' hu hu'

theorem ClaimsExclusive.release (h : ClaimsExclusive tasks claims)
    (hheld : (tasks t).held? = some id) (htask : task.held? = none) :
    ClaimsExclusive (Function.update tasks t task) (Function.update claims id false) := by
  have hkeep := h.keep t (.inl htask)
  refine ⟨fun u id' hu => ?_, hkeep.unique⟩
  have hne : id' ≠ id := by
    rintro rfl
    by_cases hut : u = t
    · subst hut
      rw [update_self, htask] at hu
      exact nomatch hu
    · rw [update_of_ne hut] at hu
      exact hut (h.unique u t id' hu hheld)
  rw [update_of_ne hne]
  exact hkeep.held u id' hu

/-- Every step of the process keeps the claims exclusive. -/
theorem ClaimsExclusive.step
    (h : ClaimsExclusive s.tasks s.entriesInProgress) (hstep : DeliveryStep s t event s') :
    ClaimsExclusive s'.tasks s'.entriesInProgress := by
  cases hstep with
  | claimEntry owner now entry rest htask hnow hfree => exact h.claim t hfree rfl
  | claimLive required id htask hfree => exact h.claim t hfree rfl
  | nextEntry owner rest id htask => exact h.release (by rw [htask]; rfl) rfl
  | abortLoop owner rest id htask =>
    cases owner <;> exact h.release (by rw [htask]; rfl) rfl
  | finishLive required id abort htask => exact h.release (by rw [htask]; rfl) rfl
  | hold owner id phase phase' action htask hholder =>
    have hsame : (s.act id action).tasks = s.tasks ∧
        (s.act id action).entriesInProgress = s.entriesInProgress := by
      cases action <;> exact ⟨rfl, rfl⟩
    show ClaimsExclusive (Function.update (s.act id action).tasks t _)
      (s.act id action).entriesInProgress
    rw [hsame.1, hsame.2]
    exact h.keep t (.inr (by rw [htask]; rfl))
  | scanFailed owner htask => cases owner <;> exact h.keep t (.inl rfl)
  | finishLoop owner htask => cases owner <;> exact h.keep t (.inl rfl)
  | _ => exact h.keep t (.inl rfl)

/-- Every entry in progress is held by a task. -/
def ClaimsHeld (tasks : ℕ → DeliveryTask Payload) (claims : Str → Bool) : Prop :=
  ∀ id, claims id = true → ∃ t, (tasks t).held? = some id

theorem ClaimsHeld.update {tasks' : ℕ → DeliveryTask Payload} {claims' : Str → Bool}
    (h : ClaimsHeld tasks claims) (t : ℕ) (hother : ∀ u, u ≠ t → tasks' u = tasks u)
    (hclaims : ∀ id, claims' id = true → (tasks' t).held? = some id ∨
      claims id = true ∧ (tasks t).held? ≠ some id) : ClaimsHeld tasks' claims' := by
  intro id hid
  rcases hclaims id hid with htask | ⟨hold, hne⟩
  · exact ⟨t, htask⟩
  · obtain ⟨u, hu⟩ := h id hold
    have hut : u ≠ t := fun hut => hne (by rw [← hut, hu])
    exact ⟨u, by rw [hother u hut, hu]⟩

theorem ClaimsHeld.step (h : ClaimsHeld s.tasks s.entriesInProgress)
    (hstep : DeliveryStep s t event s') : ClaimsHeld s'.tasks s'.entriesInProgress := by
  have hends : ∀ (s : DeliveryState Payload) owner, (s.endLoop owner).tasks = s.tasks ∧
      (s.endLoop owner).entriesInProgress = s.entriesInProgress := by
    intro s owner
    cases owner <;> exact ⟨rfl, rfl⟩
  have hacts : ∀ id (action : EntryAction Payload), (s.act id action).tasks = s.tasks ∧
      (s.act id action).entriesInProgress = s.entriesInProgress := by
    intro id action
    cases action <;> exact ⟨rfl, rfl⟩
  apply h.update t
  · intro u hut
    cases hstep <;> simp_all [DeliveryState.setTask, DeliveryState.claim, DeliveryState.release,
      DeliveryState.writeFile]
  · intro id hid
    cases hstep <;> simp_all [DeliveryState.setTask, DeliveryState.claim, DeliveryState.release,
      DeliveryState.writeFile, DeliveryTask.held?, Function.update_apply]
    all_goals grind

/-! ## Acknowledgements -/

/-- An acknowledged entry is gone, and no holder trusts what it read of it. -/
structure AcksFinal (s : DeliveryState Payload) : Prop where
  gone : ∀ id, s.acked id = true → s.files id = none
  trusted : ∀ t owner id phase, s.tasks t = .holding owner id phase → phase.trusts = true →
    s.acked id = false
  removing : ∀ t owner id, s.tasks t = .holding owner id .ackRemoving → s.acked id = true

/-- The step writes the update of an acknowledged entry without a claim on it: the
deferral or a migrating scan read the entry before and comes late. -/
def WritesStale (s : DeliveryState Payload) (label : ℕ × DeliveryEvent) : Prop :=
  ∃ id, label.2 = .wrote id ∧ (s.tasks label.1).held? = none ∧ s.acked id = true

variable (s label)

/-- The step claims the entry of a live send after another owner has delivered and
acknowledged it. -/
def ClaimsLate : Prop :=
  ∃ required id, s.tasks label.1 = .enqueued required id ∧ label.2 = .deliveryStarted id ∧
    s.acked id = true

/-- A step of a process in which the writers without a claim and the live sends are in
time. -/
def TimelyQueueStep (s' : DeliveryState Payload) : Prop :=
  DeliveryQueueStep s label s' ∧ ¬ WritesStale s label ∧ ¬ ClaimsLate s label

variable {s label}

/-- A step that leaves the directory alone and gives the task nothing to trust. -/
theorem AcksFinal.keep (h : AcksFinal s) (hfiles : s'.files = s.files) (hacked : s'.acked = s.acked)
    (htasks : s'.tasks = Function.update s.tasks t task)
    (htask : ∀ owner id phase, task = .holding owner id phase →
      (phase.trusts = true → s.acked id = false) ∧ (phase = .ackRemoving → s.acked id = true)) :
    AcksFinal s' := by
  refine ⟨fun id hid => ?_, fun u owner id phase hu htrusts => ?_, fun u owner id hu => ?_⟩
  · rw [hfiles]
    exact h.gone id (hacked ▸ hid)
  · rw [hacked]
    rw [htasks] at hu
    by_cases hut : u = t
    · subst hut
      rw [update_self] at hu
      exact (htask owner id phase hu).1 htrusts
    · rw [update_of_ne hut] at hu
      exact h.trusted u owner id phase hu htrusts
  · rw [hacked]
    rw [htasks] at hu
    by_cases hut : u = t
    · subst hut
      rw [update_self] at hu
      exact (htask owner id _ hu).2 rfl
    · rw [update_of_ne hut] at hu
      exact h.removing u owner id hu

/-- A write to the file of an entry that is not acknowledged. -/
theorem AcksFinal.write (h : AcksFinal s)
    {entry : QueuedDelivery Payload} (hid : s.acked id = false) : AcksFinal (s.writeFile id entry) := by
  refine ⟨fun id' hid' => ?_, h.trusted, h.removing⟩
  have hne : id' ≠ id := by
    rintro rfl
    exact absurd (hid.symm.trans hid') (by simp)
  show Function.update s.files id (some entry) id' = none
  rw [update_of_ne hne]
  exact h.gone id' hid'

theorem AcksFinal.act (h : AcksFinal s)
    (hclaims : ClaimsExclusive s.tasks s.entriesInProgress) {owner : ClaimOwner Payload}
    (htask : s.tasks t = .holding owner id phase)
    (hspec : HolderStepSpec (s.files id) phase action phase') :
    AcksFinal ((s.act id action).setTask t (.holding owner id phase')) := by
  have hfresh (hfile : s.files id ≠ none) : s.acked id = false := by
    by_contra hacked
    exact hfile (h.gone id (by simpa using hacked))
  have hphase (htrusts : phase.trusts = true) : s.acked id = false :=
    h.trusted t owner id phase htask htrusts
  -- the other holders have claims on other entries
  have hother (u : ℕ) (owner' : ClaimOwner Payload) (id' : Str) (phase'' : EntryPhase Payload)
      (hut : u ≠ t) (hu : s.tasks u = .holding owner' id' phase'') : id' ≠ id := by
    rintro rfl
    exact hut (hclaims.unique u t id' (by rw [hu]; rfl) (by rw [htask]; rfl))
  have hquiet : action = .quiet ∨ action = .startDelivery →
      AcksFinal (s.setTask t (.holding owner id phase')) := by
    intro haction
    refine h.keep rfl rfl rfl fun owner' id' phase'' heq => ?_
    obtain ⟨-, rfl, rfl⟩ := DeliveryTask.holding.inj heq
    refine ⟨fun htrusts => ?_, fun hremoving => ?_⟩
    · rcases hspec.trusts htrusts with hbefore | hfile
      · exact hphase hbefore
      · exact hfresh hfile
    · have := hspec.removing hremoving
      rcases haction with rfl | rfl <;> simp at this
  have hsettled (files : Str → Option (QueuedDelivery Payload)) (acked : Str → Bool)
      (hfiles : ∀ id', id' ≠ id → files id' = s.files id') (hgone : files id = none)
      (hacked : ∀ id', id' ≠ id → acked id' = s.acked id')
      (htrusts : phase'.trusts = false) (hremoving : phase' = .ackRemoving → acked id = true)
      (s' : DeliveryState Payload) (hs' : s'.files = files ∧ s'.acked = acked ∧
        s'.tasks = Function.update s.tasks t (.holding owner id phase')) : AcksFinal s' := by
    obtain ⟨rfl, rfl, htasks⟩ := hs'
    refine ⟨fun id' hid' => ?_, fun u owner' id' phase'' hu htr => ?_, fun u owner' id' hu => ?_⟩
    · by_cases hne : id' = id
      · rw [hne]
        exact hgone
      · rw [hfiles id' hne]
        exact h.gone id' (hacked id' hne ▸ hid')
    · rw [htasks] at hu
      by_cases hut : u = t
      · subst hut
        rw [update_self] at hu
        obtain ⟨-, -, rfl⟩ := DeliveryTask.holding.inj hu
        exact absurd (htrusts.symm.trans htr) (by simp)
      · rw [update_of_ne hut] at hu
        rw [hacked id' (hother u owner' id' phase'' hut hu)]
        exact h.trusted u owner' id' phase'' hu htr
    · rw [htasks] at hu
      by_cases hut : u = t
      · subst hut
        rw [update_self] at hu
        obtain ⟨-, rfl, hphase''⟩ := DeliveryTask.holding.inj hu
        exact hremoving hphase''
      · rw [update_of_ne hut] at hu
        rw [hacked id' (hother u owner' id' _ hut hu)]
        exact h.removing u owner' id' hu
  cases action with
  | quiet => exact hquiet (.inl rfl)
  | startDelivery => exact hquiet (.inr rfl)
  | write entry =>
    have hid := hphase (hspec.write entry rfl)
    refine (h.write hid).keep rfl rfl rfl fun owner' id' phase'' heq => ?_
    obtain ⟨-, rfl, rfl⟩ := DeliveryTask.holding.inj heq
    exact ⟨fun _ => hid, fun hremoving => absurd (hspec.removing hremoving) (by simp)⟩
  | renameAcked =>
    exact hsettled _ _ (fun id' hne => update_of_ne hne _ _) (update_self ..)
      (fun id' hne => update_of_ne hne _ _) (hspec.settles (by simp))
      (fun _ => update_self ..) _ ⟨rfl, rfl, rfl⟩
  | finishAck =>
    have hgone : s.files id = none := by
      rcases hspec.finish rfl with rfl | hfile
      · exact h.gone id (h.removing t owner id htask)
      · exact hfile
    exact hsettled _ _ (fun _ _ => rfl) hgone (fun id' hne => update_of_ne hne _ _)
      (hspec.settles (by simp)) (fun _ => update_self ..) _ ⟨rfl, rfl, rfl⟩
  | moveToFailed =>
    exact hsettled _ _ (fun id' hne => update_of_ne hne _ _) (update_self ..)
      (fun _ _ => rfl) (hspec.settles (by simp))
      (fun hremoving => absurd (hspec.removing hremoving) (by simp)) _ ⟨rfl, rfl, rfl⟩

/-- A timely step keeps acknowledged entries gone. -/
theorem AcksFinal.step (h : AcksFinal s) (hclaims : ClaimsExclusive s.tasks s.entriesInProgress)
    (hstep : TimelyQueueStep s label s') : AcksFinal s' := by
  obtain ⟨t, event⟩ := label
  obtain ⟨hstep, hwrites, -⟩ := hstep
  -- a task that holds no claim afterwards has nothing to trust
  have hfree {task : DeliveryTask Payload} (hnone : task.held? = none) (owner : ClaimOwner Payload)
      (id : Str) (phase : EntryPhase Payload) (heq : task = .holding owner id phase) :
      (phase.trusts = true → s.acked id = false) ∧ (phase = .ackRemoving → s.acked id = true) := by
    rw [heq] at hnone
    exact absurd hnone (by simp [DeliveryTask.held?])
  have hwritten {id : Str} (hevent : event = .wrote id) (hheld : (s.tasks t).held? = none) :
      s.acked id = false := by
    by_contra hacked
    exact hwrites ⟨id, hevent, hheld, by simpa using hacked⟩
  change DeliveryStep s t event s' at hstep
  cases hstep with
  | hold owner id phase phase' action htask hholder => exact h.act hclaims htask hholder.spec
  | scanMigrated owner id entry todo loaded htask =>
    exact (h.write (hwritten rfl (by rw [htask]; rfl))).keep rfl rfl rfl (hfree rfl)
  | deferWrite before after id entry htask =>
    exact (h.write (hwritten rfl (by rw [htask]; rfl))).keep rfl rfl rfl (hfree rfl)
  | enqueue required id now payload htask hnew =>
    exact (h.write hnew.2.2).keep rfl rfl rfl (hfree rfl)
  | claimEntry owner now entry rest htask hnow hclaim =>
    refine h.keep rfl rfl rfl fun owner' id' phase heq => ?_
    obtain ⟨-, -, rfl⟩ := DeliveryTask.holding.inj heq
    exact ⟨by simp [EntryPhase.trusts], by simp⟩
  | claimLive required id htask hclaim =>
    refine h.keep rfl rfl rfl fun owner' id' phase heq => ?_
    obtain ⟨-, -, rfl⟩ := DeliveryTask.holding.inj heq
    exact ⟨by simp [EntryPhase.trusts], by simp⟩
  | scanFailed owner htask => cases owner <;> exact h.keep rfl rfl rfl (hfree rfl)
  | finishLoop owner htask => cases owner <;> exact h.keep rfl rfl rfl (hfree rfl)
  | abortLoop owner rest id htask => cases owner <;> exact h.keep rfl rfl rfl (hfree rfl)
  | _ => exact h.keep rfl rfl rfl (hfree rfl)

/-! ## Events -/

theorem EntryAction.event_eq_wrote
    (h : action.event id = .wrote id') : id' = id ∧ ∃ entry, action = .write entry := by
  cases action with
  | write entry => exact ⟨(DeliveryEvent.wrote.inj h).symm, entry, rfl⟩
  | _ => simp [EntryAction.event] at h

theorem EntryAction.event_eq_deliveryStarted
    (h : action.event id = .deliveryStarted id') : id' = id ∧ action = .startDelivery := by
  cases action with
  | startDelivery => exact ⟨(DeliveryEvent.deliveryStarted.inj h).symm, rfl⟩
  | _ => simp [EntryAction.event] at h

theorem EntryAction.event_eq_ackCompleted
    (h : action.event id = .ackCompleted id') : id' = id ∧ action = .finishAck := by
  cases action with
  | finishAck => exact ⟨(DeliveryEvent.ackCompleted.inj h).symm, rfl⟩
  | _ => simp [EntryAction.event] at h

/-- What a timely step writes or starts to deliver is not acknowledged. -/
theorem AcksFinal.fresh (h : AcksFinal s) (hstep : TimelyQueueStep s label s')
    (hevent : label.2 = .wrote id ∨ label.2 = .deliveryStarted id) : s.acked id = false := by
  obtain ⟨t, event⟩ := label
  obtain ⟨hstep, hwrites, hclaims⟩ := hstep
  by_contra hacked
  have hacked : s.acked id = true := by simpa using hacked
  change DeliveryStep s t event s' at hstep
  change event = _ ∨ event = _ at hevent
  cases hstep with
  | hold owner id' phase phase' action htask hholder =>
    -- a holder acts on what it read under the claim
    have hphase : id = id' ∧ phase.trusts = true := by
      rcases hevent with hwrote | hstarted
      · obtain ⟨hid, entry, hwrite⟩ := EntryAction.event_eq_wrote hwrote
        exact ⟨hid, hholder.spec.write entry hwrite⟩
      · obtain ⟨hid, hstart⟩ := EntryAction.event_eq_deliveryStarted hstarted
        exact ⟨hid, hholder.spec.start hstart⟩
    have := h.trusted t owner id' phase htask hphase.2
    rw [← hphase.1, hacked] at this
    exact nomatch this
  | scanMigrated owner id' entry todo loaded htask =>
    obtain rfl : id' = id := by simpa using hevent
    exact hwrites ⟨id', rfl, by rw [htask]; rfl, hacked⟩
  | deferWrite before after id' entry htask =>
    obtain rfl : id' = id := by simpa using hevent
    exact hwrites ⟨id', rfl, by rw [htask]; rfl, hacked⟩
  | enqueue required id' now payload htask hnew =>
    obtain rfl : id' = id := by simpa using hevent
    exact absurd (hnew.2.2.symm.trans hacked) (by simp)
  | claimLive required id' htask hclaim =>
    obtain rfl : id' = id := by simpa using hevent
    exact hclaims ⟨required, id', htask, rfl, hacked⟩
  | _ => simp at hevent

/-- An acknowledgement is never forgotten, and one that completes is recorded. -/
theorem DeliveryStep.acked
    (hstep : DeliveryStep s t event s') (h : s.acked id = true ∨ event = .ackCompleted id) :
    s'.acked id = true := by
  have hupdate (id' : Str) (hid : s.acked id = true ∨ id = id') :
      Function.update s.acked id' true id = true := by
    by_cases hsame : id = id'
    · rw [hsame]
      exact update_self ..
    · rw [update_of_ne hsame]
      exact hid.resolve_right hsame
  cases hstep with
  | hold owner id' phase phase' action htask hholder =>
    have hid : s.acked id = true ∨ action = .finishAck ∧ id = id' := by
      refine h.imp_right fun hevent => ?_
      have := EntryAction.event_eq_ackCompleted hevent
      exact ⟨this.2, this.1⟩
    cases action with
    | renameAcked => exact hupdate id' (.inl (hid.resolve_right (by simp)))
    | finishAck => exact hupdate id' (hid.imp_right And.right)
    | _ => exact hid.resolve_right (by simp)
  | scanFailed owner htask => cases owner <;> exact h.resolve_right (by simp)
  | finishLoop owner htask => cases owner <;> exact h.resolve_right (by simp)
  | abortLoop owner rest id' htask => cases owner <;> exact h.resolve_right (by simp)
  | _ => exact h.resolve_right (by simp)

/-! ## Runs -/

theorem DeliveryTask.held?_of_delivers? (h : task.delivers? = some id) : task.held? = some id := by
  cases task with
  | holding owner id' phase =>
    simp only [DeliveryTask.delivers?] at h
    split_ifs at h
    exact h
  | _ => exact absurd h (by simp [DeliveryTask.delivers?])

/-- One delivery of an entry is under way at a time, and an entry whose acknowledgement
has completed is neither pending nor delivered again. -/
structure SentOnce (s : DeliveryState Payload) (labels : List (ℕ × DeliveryEvent)) : Prop where
  exclusive : ∀ t t' id, (s.tasks t).delivers? = some id → (s.tasks t').delivers? = some id → t = t'
  gone : ∀ t id, (t, .ackCompleted id) ∈ labels → s.files id = none
  final : labels.Pairwise fun earlier later => ∀ id, earlier.2 = .ackCompleted id →
    later.2 ≠ .wrote id ∧ later.2 ≠ .deliveryStarted id

/-- What a timely process keeps, with the labels of its steps. -/
structure TimelyHistory (s : DeliveryState Payload) (labels : List (ℕ × DeliveryEvent)) :
    Prop where
  claims : ClaimsExclusive s.tasks s.entriesInProgress
  acks : AcksFinal s
  completed : ∀ label ∈ labels, ∀ id, label.2 = .ackCompleted id → s.acked id = true
  final : labels.Pairwise fun earlier later => ∀ id, earlier.2 = .ackCompleted id →
    later.2 ≠ .wrote id ∧ later.2 ≠ .deliveryStarted id

theorem TimelyHistory.started (files : Str → Option (QueuedDelivery Payload)) :
    TimelyHistory (.started files) [] where
  claims := ⟨fun _ _ h => absurd h (by simp [DeliveryState.started, DeliveryTask.held?]),
    fun _ _ _ h => absurd h (by simp [DeliveryState.started, DeliveryTask.held?])⟩
  acks := ⟨fun _ h => absurd h (by simp [DeliveryState.started]),
    fun _ _ _ _ h => absurd h (by simp [DeliveryState.started]),
    fun _ _ _ h => absurd h (by simp [DeliveryState.started])⟩
  completed := by simp
  final := .nil

theorem TimelyHistory.step (h : TimelyHistory s labels) (hstep : TimelyQueueStep s label s') :
    TimelyHistory s' (labels ++ [label]) where
  claims := h.claims.step hstep.1
  acks := h.acks.step h.claims hstep
  completed := by
    intro label' hlabel' id hid
    rcases List.mem_append.mp hlabel' with hbefore | hlast
    · exact acked hstep.1 (.inl (h.completed label' hbefore id hid))
    · have hlast : label' = label := by simpa using hlast
      exact acked hstep.1 (.inr (hlast ▸ hid))
  final := by
    refine List.pairwise_append.mpr ⟨h.final, List.pairwise_singleton .., ?_⟩
    intro earlier hearlier later hlater id hid
    have hlater : later = label := by simpa using hlater
    subst hlater
    have hacked : s.acked id = true := h.completed earlier hearlier id hid
    have hfresh (hevent : later.2 = .wrote id ∨ later.2 = .deliveryStarted id) : False := by
      have := h.acks.fresh hstep hevent
      rw [hacked] at this
      exact nomatch this
    exact ⟨fun hwrote => hfresh (.inl hwrote), fun hstarted => hfresh (.inr hstarted)⟩

theorem TimelyHistory.sentOnce (h : TimelyHistory s labels) : SentOnce s labels where
  exclusive t t' id ht ht' := h.claims.unique t t' id (DeliveryTask.held?_of_delivers? ht)
    (DeliveryTask.held?_of_delivers? ht')
  gone _ id hlabel := h.acks.gone id (h.completed _ hlabel id rfl)
  final := h.final

/-- On any queue, however the tasks interleave: a process whose unclaimed writes and late
claims are in time sends every message once. -/
theorem sentOnce_of_timely (files : Str → Option (QueuedDelivery Payload))
    {labels : List (ℕ × DeliveryEvent)} {s : DeliveryState Payload}
    (h : Run TimelyQueueStep (.started files) labels s) : SentOnce s labels :=
  (h.historyInvariant TimelyHistory (fun hinv hstep => hinv.step hstep)
    (.started files)).sentOnce

theorem DeliveryStep.after {u v : DeliveryState Payload} (h : Run DeliveryQueueStep s labels u)
    (hstep : DeliveryStep u t event v) : Run DeliveryQueueStep s (labels ++ [(t, event)]) v :=
  h.snoc hstep

theorem TimelyQueueStep.after {u v : DeliveryState Payload} (h : Run TimelyQueueStep s labels u)
    (hstep : DeliveryStep u t event v)
    (hevent : ∀ id, event = .wrote id ∨ event = .deliveryStarted id → u.acked id = false) :
    Run TimelyQueueStep s (labels ++ [(t, event)]) v := by
  refine h.snoc ⟨hstep, ?_, ?_⟩
  · rintro ⟨id, hwrote, -, hacked⟩
    exact absurd ((hevent id (.inl hwrote)).symm.trans hacked) (by simp)
  · rintro ⟨_, id, -, hstarted, hacked⟩
    exact absurd ((hevent id (.inr hstarted)).symm.trans hacked) (by simp)

/-- Whether writes are late or not: an entry is in progress exactly while one task holds it. -/
theorem entriesInProgress_iff_existsUnique (files : Str → Option (QueuedDelivery Payload))
    {labels : List (ℕ × DeliveryEvent)} {s : DeliveryState Payload}
    (h : Run DeliveryQueueStep (.started files) labels s) (id : Str) :
    s.entriesInProgress id = true ↔ ∃! t, (s.tasks t).held? = some id := by
  have hclaims := h.invariant (fun s => ClaimsExclusive s.tasks s.entriesInProgress ∧
      ClaimsHeld s.tasks s.entriesInProgress)
    (fun hinv hstep => ⟨hinv.1.step hstep, hinv.2.step hstep⟩)
    ⟨(TimelyHistory.started files).claims, fun _ hid => absurd hid Bool.false_ne_true⟩
  constructor
  · intro hid
    obtain ⟨t, ht⟩ := hclaims.2 id hid
    exact ⟨t, ht, fun t' ht' => hclaims.1.unique t' t id ht' ht⟩
  · intro hunique
    obtain ⟨t, ht⟩ := hunique.exists
    exact hclaims.1.held t id ht

theorem entriesInProgress_iff_existsUnique_live : ∃ s : DeliveryState Unit,
    Run DeliveryQueueStep (.started fun _ => none)
      [(0, .wrote ['m']), (0, .deliveryStarted ['m'])] s ∧
    (s.entriesInProgress ['m'] = true ↔ ∃! t, (s.tasks t).held? = some ['m']) := by
  have h := DeliveryStep.after (.nil (.started fun _ => none : DeliveryState Unit)) (t := 0)
    (.enqueue false ['m'] 1 () rfl ⟨rfl, rfl, rfl⟩)
  have h := DeliveryStep.after h (t := 0) (.claimLive false ['m'] rfl rfl)
  exact ⟨_, h, entriesInProgress_iff_existsUnique _ h ['m']⟩

/-- A live send on an empty queue that is acknowledged. -/
theorem sentOnce_of_timely_live : ∃ s : DeliveryState Unit,
    Run TimelyQueueStep (.started fun _ => none) [(0, .wrote ['m']), (0, .deliveryStarted ['m']),
      (0, .quiet), (0, .quiet), (0, .ackCompleted ['m'])] s ∧
    SentOnce s [(0, .wrote ['m']), (0, .deliveryStarted ['m']), (0, .quiet), (0, .quiet),
      (0, .ackCompleted ['m'])] := by
  have h : Run TimelyQueueStep (DeliveryState.started fun _ => none : DeliveryState Unit) [] _ :=
    .nil _
  have h := TimelyQueueStep.after h (t := 0)
    (.enqueue false ['m'] 1 () rfl ⟨rfl, rfl, rfl⟩) (fun _ _ => rfl)
  have h := TimelyQueueStep.after h (t := 0) (.claimLive false ['m'] rfl rfl) (fun _ _ => rfl)
  have h := TimelyQueueStep.after h (t := 0)
    (.hold (.live false) ['m'] (.sending false) _ .quiet rfl (.inr .sentUnmarked)) (by simp [EntryAction.event])
  have h := TimelyQueueStep.after h (t := 0)
    (.hold (.live false) ['m'] .ackRenaming _ .renameAcked rfl (.inl (.renamed (by decide))))
    (by simp [EntryAction.event])
  have h := TimelyQueueStep.after h (t := 0)
    (.hold (.live false) ['m'] .ackRemoving _ .finishAck rfl (.inl .removed)) (by simp [EntryAction.event])
  exact ⟨_, h, sentOnce_of_timely _ h⟩

/-! ## A late deferral -/

/-- A message that an earlier process has left. -/
def overnight : QueuedDelivery Unit := .enqueued ['m'] 1 ()

def overnightQueue : DeliveryState Unit :=
  .started (Function.update (fun _ => none) ['m'] (some overnight))

def drainAll : RecoveryOwner Unit := .drain ['d'] fun _ _ => ⟨true, false⟩

theorem select_overnight {owner : RecoveryOwner Unit}
    (h : owner = drainAll ∨ owner = .recover 60001) (now : ℤ) :
    owner.select now [overnight] = [overnight] := by
  rcases h with rfl | rfl <;> simp [RecoveryOwner.select, drainAll]

/-- The steps of a recovery that is out of time and of a drain: the recovery has read the
message before the drain sends and acknowledges it, and writes it back afterwards. -/
def overnightLabels : List (ℕ × DeliveryEvent) :=
  List.replicate 6 (0, .quiet) ++ List.replicate 6 (1, .quiet) ++
    [(1, .deliveryStarted ['m']), (1, .quiet), (1, .quiet), (1, .ackCompleted ['m']),
      (0, .wrote ['m'])]

theorem exists_run_overnight : ∃ s, Run DeliveryQueueStep overnightQueue overnightLabels s := by
  -- the recovery reads the message for the deferral
  have h := after (.nil overnightQueue) (t := 0) (.startRecovery 60001 rfl)
  have h := after h (t := 0) (.list (.recover 60001) [['m']] rfl (by decide))
  have h := after h (t := 0) (.scan (.recover 60001) ['m'] [] [] rfl)
  have h := after h (t := 0) (.scanned (.recover 60001) 1 [overnight] rfl)
  rw [select_overnight (.inr rfl)] at h
  have h := after h (t := 0)
    (.overBudget 60001 60001 [overnight] rfl (by simp) (by simp))
  have h := after h (t := 0) (.deferRead [] [] ['m'] 60001 overnight rfl rfl)
  -- the drain
  have h := after h (t := 1) (.startDrain ['d'] (fun _ _ => ⟨true, false⟩) rfl rfl)
  have h := after h (t := 1) (.list drainAll [['m']] rfl (by decide))
  have h := after h (t := 1) (.scan drainAll ['m'] [] [] rfl)
  have h := after h (t := 1) (.scanned drainAll 60001 [overnight] rfl)
  rw [select_overnight (.inl rfl)] at h
  have h := after h (t := 1)
    (.claimEntry drainAll 60001 overnight [] rfl (by simp [drainAll]) rfl)
  have h := after h (t := 1)
    (.hold (.recovery drainAll []) ['m'] .rereading _ .quiet rfl (.inr .reread))
  have h := after h (t := 1) (.hold (.recovery drainAll []) ['m']
    (.loaded overnight) _ .startDelivery rfl (.inr (.deliver overnight 60001 rfl rfl)))
  have h := after h (t := 1) (.hold (.recovery drainAll []) ['m']
    (.delivering overnight) _ .quiet rfl (.inr (.delivered overnight)))
  have h := after h (t := 1) (.hold (.recovery drainAll []) ['m']
    .ackRenaming _ .renameAcked rfl (.inl (.renamed (by decide))))
  have h := after h (t := 1) (.hold (.recovery drainAll []) ['m']
    .ackRemoving _ .finishAck rfl (.inl .removed))
  -- the deferral writes what it has read
  have h := after h (t := 0) (.deferWrite [] [] ['m']
    (overnight.fail 60001 "recovery time budget exceeded".toList) rfl)
  exact ⟨_, h⟩

/-- Not every run sends its messages once. -/
theorem not_sentOnce_deferral : ¬ ∀ (files : Str → Option (QueuedDelivery Unit))
    (labels : List (ℕ × DeliveryEvent)) (s : DeliveryState Unit),
    Run DeliveryQueueStep (.started files) labels s → SentOnce s labels := by
  intro hall
  obtain ⟨s, h⟩ := exists_run_overnight
  have hfinal := (hall _ _ s h).final
  rw [overnightLabels, List.pairwise_append] at hfinal
  have hlast := hfinal.2.1
  simp at hlast

end OpenClaw
