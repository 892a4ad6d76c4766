import OpenClaw.Approval.Forwarding
import OpenClaw.Lib.Run

/-!
# What an approval authorises

The life of one approval record is a small automaton: it is open until it is decided or
expires, and a decision to allow once is spent by the first request it lets through. The
calls on the manager and the gate, in any order, are compared with it record by record.
-/

namespace OpenClaw

open Lts List Option ExecApprovalManager

/-! ## Calls and events -/

/-- A call on the manager or the gate. `uuid` is the id drawn for a record without one. -/
inductive ApprovalCall where
  | register (now : ℤ) (request : ExecApprovalRequestPayload) (timeoutMs : ℤ) (id : Option Str)
      (uuid : Str) (requester : ExecApprovalManager.Requester)
  | resolve (recordId : Str) (now : ℤ) (decision : ExecApprovalDecision) (resolvedBy : Option Str)
  | expire (recordId : Str) (now : ℤ) (resolvedBy : Option Str)
  | consumeAllowOnce (recordId : Str)
  | cleanup (key : ℕ)
  | sanitize (opts : SystemRunForwardingOptions)

/-- What a call did, and to which record. A request forwarded with `approved = true` comes
with the decision its record showed. -/
inductive ApprovalEvent where
  | refused
  | registered (key : ℕ)
  | resolved (key : ℕ) (decision : ExecApprovalDecision)
  | expired (key : ℕ)
  | consumed (key : ℕ)
  | removed (key : ℕ)
  | forwarded (key : Option ℕ) (shown : Option ExecApprovalDecision)
deriving DecidableEq

variable (key : ℕ)

namespace ApprovalEvent

/-- The record an event is about. -/
def key? : ApprovalEvent → Option ℕ
  | refused => none
  | registered key | resolved key _ | expired key | consumed key | removed key => some key
  | forwarded key _ => key

/-- Whether the event is a forward for the record. -/
def forwards : ApprovalEvent → Bool
  | forwarded key' _ => key' = some key
  | _ => false

end ApprovalEvent

variable (m : ExecApprovalManager)

/-- The entry that the run id of a request names. -/
def entryNamed (opts : SystemRunForwardingOptions) : Option PendingEntry :=
  (opts.rawParams.entries?.bind fun p =>
    normalizeNullableString (Json.lookup p "runId")).bind m.entryAt

/-- The result of a call that may have settled a record. -/
def settledEvent (event : ℕ → ApprovalEvent) :
    Option (ℕ × ExecApprovalManager) → ApprovalEvent × ExecApprovalManager
  | some (key, m') => (event key, m')
  | none => (.refused, m)

variable (host : GatewayHost)

def ApprovalCall.perform (m : ExecApprovalManager) :
    ApprovalCall → ApprovalEvent × ExecApprovalManager
  | .register now request timeoutMs id uuid requester =>
    match m.register (ExecApprovalManager.create now request timeoutMs id uuid requester) with
    | .ok (entry, m') => (.registered entry.key, m')
    | .error _ => (.refused, m)
  | .resolve recordId now decision resolvedBy =>
    settledEvent m (.resolved · decision) (m.resolve recordId now decision resolvedBy)
  | .expire recordId now resolvedBy => settledEvent m .expired (m.expire recordId now resolvedBy)
  | .consumeAllowOnce recordId => settledEvent m .consumed (m.consumeAllowOnce recordId)
  | .cleanup key => (.removed key, m.cleanup key)
  | .sanitize opts =>
    let (result, m') := sanitizeSystemRunParamsForForwarding host opts (some m)
    (if forwardsApproved result then
      .forwarded ((entryNamed m opts).map (·.key)) ((entryNamed m opts).bind (·.record.decision))
    else .refused, m'.getD m)

/-- One call and its event. -/
def ApprovalStep (m : ExecApprovalManager)
    (label : ApprovalCall × ApprovalEvent) (m' : ExecApprovalManager) : Prop :=
  label.1.perform host m = (label.2, m')

/-- The calls one after the other, with their events, and the manager after them. -/
def performAll (host : GatewayHost) : ExecApprovalManager → List ApprovalCall →
    List (ApprovalCall × ApprovalEvent) × ExecApprovalManager
  | m, [] => ([], m)
  | m, call :: calls =>
    let (event, m') := call.perform host m
    let (labels, m'') := performAll host m' calls
    ((call, event) :: labels, m'')

theorem run_performAll (m : ExecApprovalManager) (calls : List ApprovalCall) :
    Run (ApprovalStep host) m (performAll host m calls).1 (performAll host m calls).2 := by
  induction calls generalizing m with
  | nil => exact .nil m
  | cons call calls ih => exact .cons rfl (ih _)

/-! ## What the events of a run may be -/

variable (events : List ApprovalEvent)

/-- How many requests were let through for a record. -/
def forwardCount : ℕ :=
  events.countP (·.forwards key)

/-- Each record resolved `allow-once` lets one request through, one resolved `deny` none;
a request let through without a decision is for a record that expired undecided; and no
request is let through without a record. -/
structure AuthorisesOnlyApproved (events : List ApprovalEvent) : Prop where
  once : ∀ key, .resolved key .allowOnce ∈ events → forwardCount key events ≤ 1
  denied : ∀ key, .resolved key .deny ∈ events → forwardCount key events = 0
  fallback : ∀ key, .forwarded (some key) none ∈ events →
    .expired key ∈ events ∧ ∀ decision, .resolved key decision ∉ events
  bound : ∀ shown, .forwarded none shown ∉ events

/-- The life of a record. -/
inductive ApprovalPhase where
  | open | expired | decided (decision : ExecApprovalDecision) | spent
deriving DecidableEq

/-- The events about one record. -/
def eventsOf : List ApprovalEvent :=
  events.filter fun event => event.key? = some key

/-- What may happen to a record in each phase. -/
inductive PhaseStep (key : ℕ) : ApprovalPhase → ApprovalEvent → ApprovalPhase → Prop
  | registered : PhaseStep key .open (.registered key) .open
  | resolved (d : ExecApprovalDecision) : PhaseStep key .open (.resolved key d) (.decided d)
  | expired : PhaseStep key .open (.expired key) .expired
  | consumed : PhaseStep key (.decided .allowOnce) (.consumed key) .spent
  | once : PhaseStep key (.decided .allowOnce) (.forwarded (some key) (some .allowOnce)) .spent
  | always : PhaseStep key (.decided .allowAlways) (.forwarded (some key) (some .allowAlways))
      (.decided .allowAlways)
  | fallback : PhaseStep key .expired (.forwarded (some key) none) .expired
  | removed (phase : ApprovalPhase) : PhaseStep key phase (.removed key) phase

/-! ## The life of one record -/

/-- What a phase says about the events before it. -/
structure PhaseHistory (key : ℕ) (phase : ApprovalPhase) (events : List ApprovalEvent) : Prop where
  resolved : ∀ d, .resolved key d ∈ events →
    phase = .decided d ∨ (phase = .spent ∧ d = .allowOnce)
  unused : phase = .open ∨ phase = .decided .allowOnce ∨ phase = .decided .deny →
    forwardCount key events = 0
  spent : phase = .spent → forwardCount key events ≤ 1
  fallback : .forwarded (some key) none ∈ events → phase = .expired
  expired : phase = .expired → .expired key ∈ events
  allowed : phase = .decided .allowOnce → .resolved key .allowOnce ∈ events
  spentBy : phase = .spent → .resolved key .allowOnce ∈ events

@[grind =]
theorem forwardCount_append_singleton
    (event : ApprovalEvent) : forwardCount key (events ++ [event]) =
      forwardCount key events + if event.forwards key then 1 else 0 := by
  simp [forwardCount, countP_singleton]

variable {key : ℕ} {events : List ApprovalEvent} {event : ApprovalEvent}
  {m m' : ExecApprovalManager} {host : GatewayHost}

theorem PhaseHistory.step {phase phase' : ApprovalPhase} (h : PhaseHistory key phase events)
    (hstep : PhaseStep key phase event phase') : PhaseHistory key phase' (events ++ [event]) := by
  obtain ⟨hresolved, hunused, hspent, hfallback, hexpired, hallowed, hspentBy⟩ := h
  cases hstep <;> constructor <;> grind [ApprovalEvent.forwards]

theorem phaseHistory_of_run {phase : ApprovalPhase}
    (h : Run (PhaseStep key) .open events phase) : PhaseHistory key phase events :=
  h.historyInvariant (PhaseHistory key) PhaseHistory.step
    ⟨by simp, by simp [forwardCount], by simp, by simp, by simp, by simp, by simp⟩

/-! ## What one call does -/

/-- The fields of a record in each phase. -/
def ExecApprovalRecord.InPhase (record : ExecApprovalRecord) : ApprovalPhase → Prop
  | .open => record.resolvedAtMs = none ∧ record.decision = none ∧ record.consumedDecision = none
  | .expired => record.resolvedAtMs ≠ none ∧ record.decision = none ∧
      record.consumedDecision = none
  | .decided d => record.resolvedAtMs ≠ none ∧ record.decision = some d ∧
      record.consumedDecision = none
  | .spent => record.resolvedAtMs ≠ none ∧ record.decision = none ∧
      record.consumedDecision = some .allowOnce

/-- The change of a record goes with the event in every phase the record may be in. -/
def FollowsPhases (key : ℕ) (record : ExecApprovalRecord) (event : ApprovalEvent)
    (record' : ExecApprovalRecord) : Prop :=
  ∀ phase, record.InPhase phase → ∃ phase', PhaseStep key phase event phase' ∧
    record'.InPhase phase'

/-- What a call does to the map: nothing, one entry more or less, or one record changed. -/
inductive ApprovalEffect (m : ExecApprovalManager) : ApprovalEvent → ExecApprovalManager → Prop
  | refused : ApprovalEffect m .refused m
  | added (record : ExecApprovalRecord) : record.InPhase .open → m.entryAt record.id = none →
      ApprovalEffect m (.registered m.nextKey)
        ⟨m.nextKey + 1, m.pending ++ [⟨m.nextKey, record⟩]⟩
  | removed (key : ℕ) : ApprovalEffect m (.removed key) (m.cleanup key)
  | changed (entry : PendingEntry) (event : ApprovalEvent)
      (f : ExecApprovalRecord → ExecApprovalRecord) :
      entry ∈ m.pending → (∀ record, (f record).id = record.id) →
      event.key? = some entry.key → FollowsPhases entry.key entry.record event (f entry.record) →
      ApprovalEffect m event (m.modifyRecord entry.record.id f)

theorem modifyRecord_id (m : ExecApprovalManager) (id : Str) : m.modifyRecord id (fun record => record) = m := by
  simp [ExecApprovalManager.modifyRecord]

/-- A record that is only read keeps its phase. -/
theorem ApprovalEffect.read {entry : PendingEntry}
    (hmem : entry ∈ m.pending) (hkey : event.key? = some entry.key)
    (h : FollowsPhases entry.key entry.record event entry.record) : ApprovalEffect m event m := by
  have := ApprovalEffect.changed entry event (fun record => record) hmem (fun _ => rfl) hkey h
  rwa [modifyRecord_id] at this

/-- The call is a request that falls back to asking although its record was decided: the
decision has been consumed, and the record names nobody who made it. -/
def ReachesFallbackOfConsumed (host : GatewayHost) (m : ExecApprovalManager) : ApprovalCall → Prop
  | .sanitize opts => ∃ p runId entry next, opts.rawParams.entries? = some p ∧
      normalizeNullableString (Json.lookup p "runId") = some runId ∧
      m.entryAt runId = some entry ∧
      checkApprovalRequest host opts p runId entry.record = .ok next ∧
      entry.record.consumedDecision ≠ none ∧ entry.record.timedOut = true ∧
      requestsAskFallback opts p = true
  | _ => False

theorem settledEvent_effect {recordId : Str} {now : ℤ}
    {decision : Option ExecApprovalDecision} {resolvedBy : Option Str} {eventOf : ℕ → ApprovalEvent}
    (hkey : ∀ key, (eventOf key).key? = some key)
    (hphase : ∀ key, ∃ phase, PhaseStep key .open (eventOf key) phase ∧
      ∀ record : ExecApprovalRecord, record.consumedDecision = none →
        ExecApprovalRecord.InPhase { record with
          resolvedAtMs := some now, decision, resolvedBy := some resolvedBy } phase)
    (h : settledEvent m eventOf (m.settle recordId now decision resolvedBy) = (event, m')) :
    ApprovalEffect m event m' := by
  unfold ExecApprovalManager.settle at h
  cases hentry : m.entryAt recordId with
  | none =>
    simp only [hentry, settledEvent, Prod.mk.injEq] at h
    exact h.1 ▸ h.2 ▸ .refused
  | some entry =>
    obtain ⟨hmem, rfl⟩ := mem_of_entryAt hentry
    simp only [hentry] at h
    split at h
    · simp only [settledEvent, Prod.mk.injEq] at h
      exact h.1 ▸ h.2 ▸ .refused
    rename_i hopen
    simp only [settledEvent, Prod.mk.injEq] at h
    obtain ⟨rfl, rfl⟩ := h
    refine .changed entry _ _ hmem (fun _ => rfl) (hkey entry.key) fun phase hin => ?_
    obtain ⟨phase', hstep, hin'⟩ := hphase entry.key
    have hresolved : entry.record.resolvedAtMs = none := not_not.mp hopen
    cases phase with
    | «open» => exact ⟨phase', hstep, hin' _ hin.2.2⟩
    | expired => exact absurd hresolved hin.1
    | decided d => exact absurd hresolved hin.1
    | spent => exact absurd hresolved hin.1

theorem consumeAllowOnce_eq_some {recordId : Str}
    (h : m.consumeAllowOnce recordId = some (key, m')) :
    ∃ entry, m.entryAt recordId = some entry ∧ entry.key = key ∧
      entry.record.decision = some .allowOnce ∧
      m' = m.modifyRecord entry.record.id fun record =>
        { record with consumedDecision := record.decision, decision := none } := by
  unfold ExecApprovalManager.consumeAllowOnce at h
  cases hentry : m.entryAt recordId with
  | none => simp [hentry] at h
  | some entry =>
    obtain ⟨-, rfl⟩ := mem_of_entryAt hentry
    simp only [hentry] at h
    split at h
    · exact nomatch h
    rename_i hdecision
    obtain ⟨rfl, rfl⟩ := Prod.mk.inj (some.inj h)
    exact ⟨entry, rfl, rfl, not_not.mp hdecision, rfl⟩

/-- Consuming a decision spends it, whichever event it is seen as. -/
theorem followsPhases_consume {record : ExecApprovalRecord}
    (hdecision : record.decision = some .allowOnce)
    (hstep : PhaseStep key (.decided .allowOnce) event .spent) : FollowsPhases key record event
      { record with consumedDecision := record.decision, decision := none } := by
  intro phase hin
  cases phase with
  | «open» => exact absurd (hdecision.symm.trans hin.2.1) (by simp)
  | expired => exact absurd (hdecision.symm.trans hin.2.1) (by simp)
  | spent => exact absurd (hdecision.symm.trans hin.2.1) (by simp)
  | decided d =>
    obtain rfl : .allowOnce = d := some.inj (hdecision.symm.trans hin.2.1)
    exact ⟨.spent, hstep, hin.1, rfl, hdecision⟩

/-- The effect of a call, unless it reaches the fallback with a consumed decision. -/
theorem ApprovalCall.perform_effect {call : ApprovalCall} (h : call.perform host m = (event, m'))
    (hok : ¬ ReachesFallbackOfConsumed host m call) : ApprovalEffect m event m' := by
  cases call with
  | register now request timeoutMs id uuid requester =>
    simp only [ApprovalCall.perform, ExecApprovalManager.register] at h
    generalize hrecord : ExecApprovalManager.create now request timeoutMs id uuid requester =
      record at h
    have hopen : record.InPhase .open := by
      rw [← hrecord]
      exact ⟨rfl, rfl, rfl⟩
    cases hentry : m.entryAt record.id with
    | none =>
      simp only [hentry, Prod.mk.injEq] at h
      exact h.1 ▸ h.2 ▸ .added record hopen hentry
    | some entry =>
      simp only [hentry] at h
      split at h
      · rename_i hresult
        split_ifs at hresult with hpending
        obtain ⟨rfl, rfl⟩ := Prod.mk.inj (Except.ok.inj hresult)
        obtain ⟨rfl, rfl⟩ := Prod.mk.inj h
        obtain ⟨hmem, -⟩ := mem_of_entryAt hentry
        refine .read hmem rfl fun phase hin => ?_
        cases phase with
        | «open» => exact ⟨.open, .registered, hin⟩
        | expired => exact absurd hpending hin.1
        | decided d => exact absurd hpending hin.1
        | spent => exact absurd hpending hin.1
      · obtain ⟨rfl, rfl⟩ := Prod.mk.inj h
        exact .refused
  | resolve recordId now decision resolvedBy =>
    exact settledEvent_effect (fun _ => rfl)
      (fun key => ⟨.decided decision, .resolved decision, fun _ hc => ⟨by simp, rfl, hc⟩⟩) h
  | expire recordId now resolvedBy =>
    exact settledEvent_effect (fun _ => rfl)
      (fun key => ⟨.expired, .expired, fun _ hc => ⟨by simp, rfl, hc⟩⟩) h
  | consumeAllowOnce recordId =>
    rw [ApprovalCall.perform] at h
    cases hconsume : m.consumeAllowOnce recordId with
    | none =>
      rw [hconsume] at h
      obtain ⟨rfl, rfl⟩ := Prod.mk.inj h
      exact .refused
    | some settled =>
      obtain ⟨entry, hentry, hkey, hdecision, hm'⟩ := consumeAllowOnce_eq_some hconsume
      rw [hconsume] at h
      obtain ⟨rfl, rfl⟩ := Prod.mk.inj h
      rw [hm', ← hkey]
      exact .changed entry _ _ (mem_of_entryAt hentry).1 (fun _ => rfl) rfl
        (followsPhases_consume hdecision .consumed)
  | cleanup key =>
    obtain ⟨rfl, rfl⟩ := Prod.mk.inj h
    exact .removed key
  | sanitize opts =>
    obtain ⟨hno, hsame⟩ | ⟨hyes, p, runId, entry, next, m'', hparams, hrunId, hentry, hcheck,
        hafter, hgrant⟩ := sanitizeSystemRunParamsForForwarding_cases host opts m
    · simp only [ApprovalCall.perform, hno, hsame, getD_some, Prod.mk.injEq] at h
      exact h.1 ▸ h.2 ▸ .refused
    have hnamed : entryNamed m opts = some entry := by
      simp only [entryNamed, hparams, bind_some, hrunId, hentry]
    have hmem := (mem_of_entryAt hentry).1
    simp only [ApprovalCall.perform, hyes, hafter, hnamed, if_true, map_some,
      bind_some, getD_some, Prod.mk.injEq] at h
    obtain ⟨rfl, rfl⟩ := h
    cases hgrant with
    | allowOnce hdecision hconsume =>
      obtain ⟨entry', hentry', -, -, hm'⟩ := consumeAllowOnce_eq_some hconsume
      obtain rfl := some.inj (hentry.symm.trans hentry')
      rw [hm', hdecision]
      exact .changed entry _ _ hmem (fun _ => rfl) rfl (followsPhases_consume hdecision .once)
    | allowAlways hdecision =>
      rw [hdecision]
      refine .read hmem rfl fun phase hin => ?_
      cases phase with
      | «open» => exact absurd (hdecision.symm.trans hin.2.1) (by simp)
      | expired => exact absurd (hdecision.symm.trans hin.2.1) (by simp)
      | spent => exact absurd (hdecision.symm.trans hin.2.1) (by simp)
      | decided d =>
        obtain rfl : .allowAlways = d := some.inj (hdecision.symm.trans hin.2.1)
        exact ⟨_, .always, hin⟩
    | fallback htimedOut hasks =>
      have hfresh : entry.record.consumedDecision = none := by
        by_contra hconsumed
        exact hok ⟨p, runId, entry, next, hparams, hrunId, hentry, hcheck, hconsumed, htimedOut,
          hasks⟩
      simp only [ExecApprovalRecord.timedOut, Bool.and_eq_true, isSome_iff_ne_none,
        isNone_iff_eq_none] at htimedOut
      rw [htimedOut.1.2]
      refine .read hmem rfl fun phase hin => ?_
      cases phase with
      | «open» => exact absurd hin.1 htimedOut.1.1
      | expired => exact ⟨_, .fallback, hin⟩
      | decided d => exact absurd (htimedOut.1.2.symm.trans hin.2.1) (by simp)
      | spent => exact absurd (hfresh.symm.trans hin.2.2) (by simp)

/-! ## Runs -/

/-- The events of each record are a life of it, in whose last phase the record is. -/
structure ApprovalInvariant (m : ExecApprovalManager) (events : List ApprovalEvent) : Prop where
  wellFormed : m.WellFormed
  fresh : ∀ key, m.nextKey ≤ key → Run (PhaseStep key) .open (eventsOf key events) .open
  life : ∀ key, ∃ phase, Run (PhaseStep key) .open (eventsOf key events) phase ∧
    ∀ entry ∈ m.pending, entry.key = key → entry.record.InPhase phase
  bound : ∀ shown, .forwarded none shown ∉ events

theorem eventsOf_append_of_eq
    (h : event.key? = some key) : eventsOf key (events ++ [event]) = eventsOf key events ++ [event] := by
  simp [eventsOf, filter_append, h]

theorem eventsOf_append_of_ne
    (h : event.key? ≠ some key) : eventsOf key (events ++ [event]) = eventsOf key events := by
  simp [eventsOf, filter_append, h]

theorem bound_append (h : ∀ shown, .forwarded none shown ∉ events) (hkey : event.key? ≠ none) :
    ∀ shown, .forwarded none shown ∉ events ++ [event] := by
  intro shown hmem
  rcases mem_append.mp hmem with hold | hlast
  · exact h shown hold
  · obtain rfl := mem_singleton.mp hlast
    exact hkey rfl

theorem ApprovalInvariant.empty : ApprovalInvariant .empty [] where
  wellFormed := .empty
  fresh _ _ := .nil _
  life key := ⟨.open, .nil _, by simp [ExecApprovalManager.empty]⟩
  bound := by simp

/-- Every effect continues the life of the one record it is about. -/
theorem ApprovalInvariant.step (h : ApprovalInvariant m events)
    (heffect : ApprovalEffect m event m') : ApprovalInvariant m' (events ++ [event]) := by
  cases heffect with
  | refused =>
    have hsame (key : ℕ) : eventsOf key (events ++ [.refused]) = eventsOf key events :=
      eventsOf_append_of_ne (by simp [ApprovalEvent.key?])
    refine ⟨h.wellFormed, fun key => hsame key ▸ h.fresh key, fun key => hsame key ▸ h.life key, ?_⟩
    intro shown hmem
    rcases mem_append.mp hmem with hold | hlast
    · exact h.bound shown hold
    · simp at hlast
  | added record hopen hnone =>
    have hlife : Run (PhaseStep m.nextKey) .open
        (eventsOf m.nextKey (events ++ [.registered m.nextKey])) .open := by
      rw [eventsOf_append_of_eq rfl]
      exact (h.fresh _ le_rfl).snoc .registered
    have hother (key : ℕ) (hne : key ≠ m.nextKey) :
        eventsOf key (events ++ [.registered m.nextKey]) = eventsOf key events :=
      eventsOf_append_of_ne (by simpa [ApprovalEvent.key?] using hne.symm)
    refine ⟨h.wellFormed.add hnone, fun key hkey => ?_, fun key => ?_,
      bound_append h.bound (by simp [ApprovalEvent.key?])⟩
    · have hlt : m.nextKey < key := hkey
      rw [hother key hlt.ne']
      exact h.fresh key hlt.le
    · by_cases hkey : key = m.nextKey
      · subst hkey
        refine ⟨.open, hlife, fun entry hentry hkey => ?_⟩
        rcases mem_append.mp hentry with hold | hnew
        · exact absurd hkey (h.wellFormed.lt_nextKey entry hold).ne
        · obtain rfl := mem_singleton.mp hnew
          exact hopen
      · rw [hother key hkey]
        obtain ⟨phase, hrun, hin⟩ := h.life key
        refine ⟨phase, hrun, fun entry hentry hentryKey => ?_⟩
        rcases mem_append.mp hentry with hold | hnew
        · exact hin entry hold hentryKey
        · obtain rfl := mem_singleton.mp hnew
          exact absurd hentryKey.symm hkey
  | removed removedKey =>
    have hextend (key : ℕ) (phase : ApprovalPhase)
        (hrun : Run (PhaseStep key) .open (eventsOf key events) phase) :
        Run (PhaseStep key) .open (eventsOf key (events ++ [.removed removedKey])) phase := by
      by_cases hkey : removedKey = key
      · subst hkey
        rw [eventsOf_append_of_eq rfl]
        exact hrun.snoc (.removed phase)
      · rwa [eventsOf_append_of_ne (by simpa [ApprovalEvent.key?] using hkey)]
    refine ⟨h.wellFormed.cleanup removedKey, fun key hkey => hextend key _ (h.fresh key hkey),
      fun key => ?_, bound_append h.bound (by simp [ApprovalEvent.key?])⟩
    obtain ⟨phase, hrun, hin⟩ := h.life key
    exact ⟨phase, hextend key phase hrun, fun entry hentry => hin entry (mem_of_mem_filter hentry)⟩
  | changed entry event f hmem hid hkey hfollows =>
    have hother (key : ℕ) (hne : entry.key ≠ key) :
        eventsOf key (events ++ [event]) = eventsOf key events :=
      eventsOf_append_of_ne (by rw [hkey]; simpa using hne)
    refine ⟨h.wellFormed.modifyRecord _ hid, fun key hfresh => ?_, fun key => ?_,
      bound_append h.bound (by simp [hkey])⟩
    · have hlt : entry.key < key := (h.wellFormed.lt_nextKey entry hmem).trans_le hfresh
      rw [hother key hlt.ne]
      exact h.fresh key hfresh
    · obtain ⟨phase, hrun, hin⟩ := h.life key
      by_cases hentryKey : entry.key = key
      · subst hentryKey
        obtain ⟨phase', hstep, hin'⟩ := hfollows phase (hin entry hmem rfl)
        rw [eventsOf_append_of_eq hkey]
        refine ⟨phase', hrun.snoc hstep, fun other hother hotherKey => ?_⟩
        rcases mem_modifyRecord.mp hother with
          ⟨hold, hne⟩ | ⟨old, hold, holdId, rfl⟩
        · exact absurd (h.wellFormed.eq_of_key hold hmem hotherKey ▸ rfl) hne
        · obtain rfl := h.wellFormed.eq_of_id hold hmem holdId
          exact hin'
      · rw [hother key hentryKey]
        refine ⟨phase, hrun, fun other hother hotherKey => ?_⟩
        rcases mem_modifyRecord.mp hother with
          ⟨hold, -⟩ | ⟨old, hold, holdId, rfl⟩
        · exact hin other hold hotherKey
        · obtain rfl := h.wellFormed.eq_of_id hold hmem holdId
          exact absurd hotherKey hentryKey

/-- The steps of a run that never reaches the fallback with a consumed decision. -/
def CarefulApprovalStep (host : GatewayHost) (m : ExecApprovalManager)
    (label : ApprovalCall × ApprovalEvent) (m' : ExecApprovalManager) : Prop :=
  ApprovalStep host m label m' ∧ ¬ ReachesFallbackOfConsumed host m label.1

theorem approvalInvariant_of_run {labels : List (ApprovalCall × ApprovalEvent)}
    (h : Run (CarefulApprovalStep host) .empty labels m) :
    ApprovalInvariant m (labels.map (·.2)) := by
  refine h.historyInvariant (fun m labels => ApprovalInvariant m (labels.map (·.2))) ?_ .empty
  intro m labels label m' hinv hstep
  rw [map_append, map_singleton]
  exact hinv.step (ApprovalCall.perform_effect hstep.1 hstep.2)

theorem mem_eventsOf
    (hkey : event.key? = some key) : event ∈ eventsOf key events ↔ event ∈ events := by
  simp [eventsOf, hkey]

theorem forwardCount_eventsOf (key : ℕ) (events : List ApprovalEvent) :
    forwardCount key (eventsOf key events) = forwardCount key events := by
  rw [forwardCount, eventsOf, countP_filter, forwardCount]
  apply countP_congr
  intro event _
  cases event <;> grind [ApprovalEvent.forwards, ApprovalEvent.key?]

theorem ApprovalInvariant.authorises
    (h : ApprovalInvariant m events) : AuthorisesOnlyApproved events := by
  have hhistory (key : ℕ) : ∃ phase, PhaseHistory key phase (eventsOf key events) := by
    obtain ⟨phase, hrun, -⟩ := h.life key
    exact ⟨phase, phaseHistory_of_run hrun⟩
  refine ⟨fun key hmem => ?_, fun key hmem => ?_, fun key hmem => ?_, h.bound⟩
  · obtain ⟨phase, hphase⟩ := hhistory key
    rw [← forwardCount_eventsOf]
    rcases hphase.resolved _ ((mem_eventsOf rfl).mpr hmem) with rfl | ⟨rfl, -⟩
    · exact (hphase.unused (.inr (.inl rfl))).trans_le (Nat.zero_le 1)
    · exact hphase.spent rfl
  · obtain ⟨phase, hphase⟩ := hhistory key
    rw [← forwardCount_eventsOf]
    rcases hphase.resolved _ ((mem_eventsOf rfl).mpr hmem) with rfl | ⟨-, hdeny⟩
    · exact hphase.unused (.inr (.inr rfl))
    · exact nomatch hdeny
  · obtain ⟨phase, hphase⟩ := hhistory key
    obtain rfl := hphase.fallback ((mem_eventsOf rfl).mpr hmem)
    refine ⟨(mem_eventsOf rfl).mp (hphase.expired rfl), fun d hd => ?_⟩
    rcases hphase.resolved d ((mem_eventsOf rfl).mpr hd) with hphase' | ⟨hphase', -⟩ <;>
      exact nomatch hphase'

/-- A consumed decision that reaches the fallback lets a request through without one. -/
theorem forwarded_of_reachesFallback {call : ApprovalCall}
    (hinv : ApprovalInvariant m events) (hreach : ReachesFallbackOfConsumed host m call)
    (h : call.perform host m = (event, m')) :
    ∃ key, event = .forwarded (some key) none ∧ .resolved key .allowOnce ∈ events := by
  cases call with
  | sanitize opts =>
    obtain ⟨p, runId, entry, next, hparams, hrunId, hentry, hcheck, hconsumed, htimedOut, hasks⟩ :=
      hreach
    have hresult := sanitizeSystemRunParamsForForwarding_of_fallback hparams hrunId hentry hcheck
      htimedOut hasks
    have hnamed : entryNamed m opts = some entry := by
      simp only [entryNamed, hparams, bind_some, hrunId, hentry]
    have hdecision : entry.record.decision = none := by
      simp only [ExecApprovalRecord.timedOut, Bool.and_eq_true, isNone_iff_eq_none] at htimedOut
      exact htimedOut.1.2
    simp only [ApprovalCall.perform, hresult, forwardsApproved_grantApproval, hnamed, if_true,
      map_some, bind_some, hdecision, Prod.mk.injEq] at h
    refine ⟨entry.key, h.1.symm, ?_⟩
    obtain ⟨phase, hrun, hin⟩ := hinv.life entry.key
    have hphase := hin entry (mem_of_entryAt hentry).1 rfl
    cases phase with
    | «open» => exact absurd hphase.2.2 hconsumed
    | expired => exact absurd hphase.2.2 hconsumed
    | decided d => exact absurd hphase.2.2 hconsumed
    | spent => exact (mem_eventsOf rfl).mp ((phaseHistory_of_run hrun).spentBy rfl)
  | _ => exact hreach.elim

/-- The approvals authorise only what was approved, in the runs that never fall back to
asking with a consumed decision and in no others. -/
theorem authorisesOnlyApproved_iff {host : GatewayHost} {m : ExecApprovalManager}
    {labels : List (ApprovalCall × ApprovalEvent)}
    (hrun : Run (ApprovalStep host) .empty labels m) : AuthorisesOnlyApproved (labels.map (·.2)) ↔
      Run (CarefulApprovalStep host) .empty labels m := by
  constructor
  · intro hauthorises
    by_contra hcareless
    obtain ⟨before, ⟨call, event⟩, after, m₁, m₂, rfl, hbefore, hstep, hreach⟩ :=
      hrun.exists_first_exit hcareless
    obtain ⟨key, rfl, hresolved⟩ := forwarded_of_reachesFallback
      (approvalInvariant_of_run hbefore) (not_not.mp hreach) hstep
    have hforwarded : ApprovalEvent.forwarded (some key) none ∈
        (before ++ (call, .forwarded (some key) none) :: after).map (·.2) := by simp
    have hunresolved := (hauthorises.fallback key hforwarded).2 .allowOnce
    rw [map_append] at hunresolved
    exact hunresolved (mem_append_left _ hresolved)
  · intro hcareful
    exact (approvalInvariant_of_run hcareful).authorises

/-! ## A replayed approval -/

/-- A gateway on ASCII text, for evaluation. -/
def GatewayHost.ascii : GatewayHost where
  toHost := .asciiLinux
  localeLe a b := decide (a ≤ b)
  sha256 _ := "0"

def echoPlan : SystemRunApprovalPlan := ⟨["echo", "SAFE"], none, "echo SAFE", none, none, none, none⟩

def echoRequest : ExecApprovalRequestPayload where
  systemRunBinding := some ⟨["echo", "SAFE"], none, none, none, none⟩
  systemRunPlan := some echoPlan
  nodeId := some "node-1"
  host := some "node"
  agentId := none
  sessionKey := none
  turnSourceChannel := none
  turnSourceTo := none
  turnSourceAccountId := none
  turnSourceThreadId := none

/-- An approved run of `echo SAFE` by a client that may use approvals. -/
def echoForwarding : SystemRunForwardingOptions where
  nodeId := some "node-1"
  rawParams := .object [("command", .ofStrings ["echo", "SAFE"]), ("runId", .string "approval-1"),
    ("approved", .bool true), ("approvalDecision", .string "allow-once")]
  client := some ⟨some "conn-1", false,
    some ⟨some (.ofStrings ["operator.approvals"]), some ⟨some "cli-1", some "cli"⟩, some "dev-1"⟩⟩
  nowMs := 1000

/-- The request is approved once with the given resolver, and then sent twice. -/
def echoCalls (resolvedBy : Option Str) : List ApprovalCall := [
  .register 0 echoRequest 60000 (some "approval-1") "uuid-1"
    ⟨some "conn-1", some "dev-1", some "cli-1", false⟩,
  .resolve "approval-1" 500 .allowOnce resolvedBy,
  .sanitize echoForwarding,
  .sanitize echoForwarding]

/-- With a named resolver the second request is refused. -/
theorem authorisesOnlyApproved_iff_operator : AuthorisesOnlyApproved
        ((performAll .ascii .empty (echoCalls (some "operator"))).1.map (·.2)) ↔
      Run (CarefulApprovalStep .ascii) .empty
        (performAll .ascii .empty (echoCalls (some "operator"))).1
        (performAll .ascii .empty (echoCalls (some "operator"))).2 :=
  authorisesOnlyApproved_iff (run_performAll _ _ _)

/-- Without one the second request takes the consumed decision for a timeout. -/
theorem not_authorisesOnlyApproved_replay :
    Run (ApprovalStep .ascii) .empty (performAll .ascii .empty (echoCalls none)).1
      (performAll .ascii .empty (echoCalls none)).2 ∧
    (performAll .ascii .empty (echoCalls none)).1.map (·.2) =
      [.registered 0, .resolved 0 .allowOnce, .forwarded (some 0) (some .allowOnce),
        .forwarded (some 0) none] ∧
    ¬ AuthorisesOnlyApproved ((performAll .ascii .empty (echoCalls none)).1.map (·.2)) := by
  have hevents : (performAll .ascii .empty (echoCalls none)).1.map (·.2) =
      [.registered 0, .resolved 0 .allowOnce, .forwarded (some 0) (some .allowOnce),
        .forwarded (some 0) none] := by decide +kernel
  refine ⟨run_performAll _ _ _, hevents, fun h => ?_⟩
  have hcount := h.once 0 (by rw [hevents]; decide)
  rw [hevents] at hcount
  exact nomatch hcount

end OpenClaw
