import OpenClaw.Text.Basic
import OpenClaw.Lib.Next

/-!
# Cron schedules

`cron/schedule.ts`, `cron/parse.ts`, `cron/stagger.ts` and the staggered evaluation of
`cron/service/jobs.ts`. Times are milliseconds since the epoch. The evaluator of cron
expressions, `Date.parse` and the digest that spreads jobs over a window come from outside
the repository and are fields of `CronHost`.
-/

namespace OpenClaw

inductive CronSchedule where
  | at (time : Str)
  | every (everyMs : ℤ) (anchorMs : Option ℤ)
  | cron (expr : Str) (tz : Option Str) (staggerMs : Option ℤ)
deriving DecidableEq

/-- What the scheduler takes from its libraries. An evaluator call throws or returns an
instant, if it finds one. -/
structure CronHost where
  localTimezone : Str
  /-- `new Cron(expr, { timezone }).nextRun(date)`. -/
  nextRun (expr timezone : Str) (nowMs : ℤ) : Except Str (Option ℤ)
  /-- `new Cron(expr, { timezone }).previousRuns(1, date)[0]`. -/
  previousRun (expr timezone : Str) (nowMs : ℤ) : Except Str (Option ℤ)
  /-- `Date.parse`, without its `NaN`. -/
  parseDate (text : Str) : Option ℤ
  /-- `new Date(ms).toISOString()`. -/
  isoString (ms : ℤ) : Str
  /-- The first four bytes of the digest of a job id. -/
  digestHead (jobId : Str) : ℕ

variable (host : CronHost)

/-! ## Absolute times -/

def isDigit (c : Char) : Bool := '0' ≤ c && c ≤ '9'

/-- `ISO_TZ_RE`. -/
def hasIsoTimezone (raw : Str) : Bool :=
  match raw.reverse with
  | 'Z' :: _ | 'z' :: _ => true
  | m₁ :: m₀ :: ':' :: h₁ :: h₀ :: sign :: _ =>
    isDigit m₁ && isDigit m₀ && isDigit h₁ && isDigit h₀ && (sign == '+' || sign == '-')
  | m₁ :: m₀ :: h₁ :: h₀ :: sign :: _ =>
    isDigit m₁ && isDigit m₀ && isDigit h₁ && isDigit h₀ && (sign == '+' || sign == '-')
  | _ => false

/-- What follows a date `\d{4}-\d{2}-\d{2}` at the start. -/
def afterIsoDate? : Str → Option Str
  | y₀ :: y₁ :: y₂ :: y₃ :: '-' :: m₀ :: m₁ :: '-' :: d₀ :: d₁ :: rest =>
    if [y₀, y₁, y₂, y₃, m₀, m₁, d₀, d₁].all isDigit then some rest else none
  | _ => none

def normalizeUtcIso (raw : Str) : Str :=
  if hasIsoTimezone raw then raw
  else match afterIsoDate? raw with
    | some [] => raw ++ "T00:00:00Z".toList
    | some ('T' :: _) => raw ++ ['Z']
    | _ => raw

def digitsValue (digits : Str) : ℕ :=
  digits.foldl (fun n c => 10 * n + (c.toNat - '0'.toNat)) 0

def parseAbsoluteTimeMs (input : Str) : Option ℤ :=
  let raw := trim input
  if raw = [] then none
  else if raw.all isDigit ∧ 0 < digitsValue raw then some (digitsValue raw)
  else host.parseDate (normalizeUtcIso raw)

/-! ## Schedules -/

def resolveCronTimezone (tz : Option Str) : Str :=
  match tz.map trim with
  | some (c :: rest) => c :: rest
  | _ => host.localTimezone

/-- The next run of a cron expression, asked again from later where the evaluator's answer
is not in the future. -/
def cronNextRunAtMs (expr tz : Str) (nowMs : ℤ) : Except Str (Option ℤ) := do
  match ← host.nextRun expr tz nowMs with
  | none => return none
  | some next =>
    if nowMs < next then return some next
    match ← host.nextRun expr tz (nowMs / 1000 * 1000 + 1000) with
    | some retry =>
      if nowMs < retry then return some retry
      let tomorrow ← host.nextRun expr tz ((nowMs / 86400000 + 1) * 86400000)
      return tomorrow.filter (nowMs < ·)
    | none =>
      let tomorrow ← host.nextRun expr tz ((nowMs / 86400000 + 1) * 86400000)
      return tomorrow.filter (nowMs < ·)

/-- The next multiple of the period after its anchor. -/
def everyNextRunAtMs (everyMs : ℤ) (anchorMs : Option ℤ) (nowMs : ℤ) : ℤ :=
  let every := max 1 everyMs
  let anchor := max 0 (anchorMs.getD nowMs)
  if nowMs < anchor then anchor
  else anchor + max 1 ((nowMs - anchor + every - 1) / every) * every

variable (schedule : CronSchedule)

def computeNextRunAtMs (nowMs : ℤ) : Except Str (Option ℤ) :=
  match schedule with
  | .at time => .ok ((parseAbsoluteTimeMs host time).filter (nowMs < ·))
  | .every everyMs anchorMs => .ok (some (everyNextRunAtMs everyMs anchorMs nowMs))
  | .cron expr tz _ =>
    if trim expr = [] then .ok none
    else cronNextRunAtMs host (trim expr) (resolveCronTimezone host tz) nowMs

def computePreviousRunAtMs (nowMs : ℤ) : Except Str (Option ℤ) :=
  match schedule with
  | .cron expr tz _ =>
    if trim expr = [] then .ok none
    else do
      let previous ← host.previousRun (trim expr) (resolveCronTimezone host tz) nowMs
      return previous.filter (· < nowMs)
  | _ => .ok none

/-! ## Stagger -/

def defaultTopOfHourStaggerMs : ℤ := 5 * 60 * 1000

variable (expr : Str)

/-- `expr.trim().split(/\s+/).filter(Boolean)`. -/
def parseCronFields : List Str :=
  (expr.splitOnP isSpace).filter (· ≠ [])

def isRecurringTopOfHourCronExpr : Bool :=
  match parseCronFields expr with
  | [minute, hour, _, _, _] => minute == ['0'] && hour.contains '*'
  | [second, minute, hour, _, _, _] => second == ['0'] && minute == ['0'] && hour.contains '*'
  | _ => false

def resolveDefaultCronStaggerMs : Option ℤ :=
  if isRecurringTopOfHourCronExpr expr then some defaultTopOfHourStaggerMs else none

def resolveCronStaggerMs (staggerMs : Option ℤ) : ℤ :=
  match staggerMs with
  | some stagger => max 0 stagger
  | none => (resolveDefaultCronStaggerMs expr).getD 0

variable (jobId : Str)

def resolveStableCronOffsetMs (staggerMs : ℤ) : ℤ :=
  if staggerMs ≤ 1 then 0 else host.digestHead jobId % staggerMs

/-- The attempts of `computeStaggeredCronNextRunAtMs`. -/
def staggeredNextLoop (next : ℤ → Except Str (Option ℤ)) (offsetMs nowMs : ℤ) :
    ℕ → ℤ → Except Str (Option ℤ)
  | 0, _ => .ok none
  | attempts + 1, cursorMs => do
    match ← next cursorMs with
    | none => return none
    | some base =>
      if nowMs < base + offsetMs then return some (base + offsetMs)
      staggeredNextLoop next offsetMs nowMs attempts (max (cursorMs + 1) (base + 1000))

/-- The attempts of `computeStaggeredCronPreviousRunAtMs`. -/
def staggeredPreviousLoop (previous : ℤ → Except Str (Option ℤ)) (offsetMs nowMs : ℤ) :
    ℕ → ℤ → Except Str (Option ℤ)
  | 0, _ => .ok none
  | attempts + 1, cursorMs => do
    match ← previous cursorMs with
    | none => return none
    | some base =>
      if base + offsetMs ≤ nowMs then return some (base + offsetMs)
      staggeredPreviousLoop previous offsetMs nowMs attempts (max 0 (base - 1000))

/-- The effective offset of a job on its schedule. -/
def cronOffsetMs : CronSchedule → ℤ
  | .cron expr _ staggerMs => resolveStableCronOffsetMs host jobId (resolveCronStaggerMs expr staggerMs)
  | _ => 0

def computeStaggeredCronNextRunAtMs (schedule : CronSchedule) (nowMs : ℤ) : Except Str (Option ℤ) :=
  let offsetMs := cronOffsetMs host jobId schedule
  if offsetMs ≤ 0 then computeNextRunAtMs host schedule nowMs
  else staggeredNextLoop (computeNextRunAtMs host schedule) offsetMs nowMs 4
    (max 0 (nowMs - offsetMs))

def computeStaggeredCronPreviousRunAtMs (schedule : CronSchedule) (nowMs : ℤ) :
    Except Str (Option ℤ) :=
  let offsetMs := cronOffsetMs host jobId schedule
  if offsetMs ≤ 0 then computePreviousRunAtMs host schedule nowMs
  else staggeredPreviousLoop (computePreviousRunAtMs host schedule) offsetMs nowMs 4
    (max 0 (nowMs - offsetMs))

end OpenClaw
