import Ryeos.Core.Progression
import Ryeos.Core.Result

/-!
# Schedule planning: `crontab.rs` and `planning.rs`

The scheduler's read-only fire arithmetic.  A schedule is one of three kinds, told apart by its
`schedule_type` string: `"interval"` (a period in whole seconds), `"cron"` and `"at"` (one ISO
timestamp).  Only the interval arithmetic is written in this repository; cron iteration and
timestamp parsing are calls into `cron` and `chrono`, and they enter the model through
`Calendar`.

Timestamps are milliseconds since the epoch.  They are `i64` in the source and `ℤ` here, and
the model computes exactly.  The source's `i64` arithmetic agrees with it as long as no operation
leaves `[i64::MIN, i64::MAX]`; past that a debug build panics and a release build wraps.  So the
statements that speak for the source carry the range of the operands as a hypothesis
(`IntervalInRange`), and `accepted_interval_overflows_period` shows an accepted interval whose
period already leaves it.  Rust's `/` on `i64` truncates towards zero, so the source's divisions
are `Int.tdiv`.

* `computeNextFire` — `crontab::compute_next_fire`, which the misfire scan drives;
* `computeScheduledAt` — `crontab::compute_scheduled_at`;
* `planScheduleFromBoundaries` — the planner, with `computeCurrentIntervalDue` and
  `computeNextIntervalFire` for intervals.
-/

namespace Ryeos.Scheduler

/-! ## Integers as Rust parses them -/

/-- `i64::MIN`. -/
def i64Min : ℤ := -2 ^ 63

/-- `i64::MAX`. -/
def i64Max : ℤ := 2 ^ 63 - 1

/-- The value of a run of ASCII digits. -/
def digitsValue (ds : List Char) : ℕ :=
  ds.foldl (fun acc c => acc * 10 + (c.toNat - '0'.toNat)) 0

/-- `str::parse::<i64>`: an optional `+` or `-`, then at least one ASCII digit and nothing else,
with the value in range. -/
def parseI64 (s : String) : Option ℤ :=
  let (negative, digits) : Bool × List Char :=
    match s.toList with
    | '-' :: rest => (true, rest)
    | '+' :: rest => (false, rest)
    | cs => (false, cs)
  if digits.isEmpty || !digits.all Char.isDigit then none
  else
    let value : ℤ := if negative then -(digitsValue digits : ℤ) else digitsValue digits
    if i64Min ≤ value ∧ value ≤ i64Max then some value else none

/-- A value of `i64`. -/
def InI64 (x : ℤ) : Prop := i64Min ≤ x ∧ x ≤ i64Max

instance : DecidablePred InI64 := fun x => inferInstanceAs (Decidable (i64Min ≤ x ∧ x ≤ i64Max))

/-- A value between two values of `i64` is one. -/
lemma InI64.of_between {lo x hi : ℤ} (hlo : InI64 lo) (hhi : InI64 hi) (h₁ : lo ≤ x)
    (h₂ : x ≤ hi) : InI64 x :=
  ⟨hlo.1.trans h₁, h₂.trans hhi.2⟩

/-- `i64::saturating_add` and `i64::saturating_mul` clamp the exact result into range. -/
def saturate (x : ℤ) : ℤ := max i64Min (min i64Max x)

/-! ## The records the planner reads -/

/-- The fields of `ScheduleSpecRecord` that scheduling reads. -/
structure ScheduleSpecRecord where
  scheduleId : String
  scheduleType : String
  expression : String
  timezone : String
  misfirePolicy : String
  latenessGraceSecs : ℤ
  enabled : Bool
  specHash : String
  /-- Immutable scheduling anchor (millis since epoch). -/
  registeredAt : ℤ
  deriving DecidableEq, Repr

/-- The fields of `FireRecord` that planning reads. -/
structure FireRecord where
  scheduledAt : ℤ
  firedAt : Option ℤ
  deriving DecidableEq, Repr

/-- What the scheduler takes from `chrono`, `chrono-tz` and `cron`.  These are third-party
calls; the model takes them as they are. -/
structure Calendar where
  /-- `chrono::DateTime::parse_from_rfc3339(..).map(|dt| dt.timestamp_millis())`. -/
  parseRfc3339 : String → Option ℤ
  /-- `next_cron_fire(expression, timezone, after_ms)`: the first cron boundary after
  `after_ms`, or an error for an invalid expression or timezone. -/
  nextCronFire : String → String → ℤ → Except String (Option ℤ)
  /-- `find_most_recent_cron(expression, timezone, start_ms, end_ms)`. -/
  findMostRecentCron : String → String → ℤ → ℤ → Option ℤ

variable (cal : Calendar)

/-! ## `crontab.rs` -/

/-- `parse_iso_ts`: RFC 3339, or else RFC 3339 with a `Z` appended. -/
def parseIsoTs (expression : String) : Option ℤ :=
  (cal.parseRfc3339 expression).orElse fun _ => cal.parseRfc3339 (expression ++ "Z")

/-- `next_interval_fire`: one period after the last fire, jumping ahead to the first boundary
after `now_ms` when that is already past. -/
def nextIntervalFire (expression : String) (nowMs : ℤ) (lastFireAt : Option ℤ) :
    Except String (Option ℤ) :=
  match parseI64 expression with
  | none => .error s!"invalid interval expression (must be integer seconds): {expression}"
  | some intervalSecs =>
    if intervalSecs ≤ 0 then .error s!"interval must be positive, got: {intervalSecs}"
    else
      let intervalMs := intervalSecs * 1000
      .ok <| match lastFireAt with
        | some last =>
          let next := last + intervalMs
          if next < nowMs then
            -- jump ahead to the now-aligned boundary
            let elapsed := nowMs - last
            let intervalsElapsed := elapsed.tdiv intervalMs
            some (last + (intervalsElapsed + 1) * intervalMs)
          else some next
        | none => some (nowMs + intervalMs)

/-- `next_at_fire`: the one-shot target while it is still in the future. -/
def nextAtFire (expression : String) (nowMs : ℤ) : Except String (Option ℤ) :=
  match parseIsoTs cal expression with
  | some target => if target > nowMs then .ok (some target) else .ok none
  | none => .error s!"invalid at expression (must be ISO 8601 timestamp): {expression}"

/-- `compute_next_fire`: the next fire time after `after_ms`. -/
def computeNextFire (scheduleType expression timezone : String) (afterMs : ℤ)
    (lastFireAt : Option ℤ) : Except String (Option ℤ) :=
  match scheduleType with
  | "cron" => cal.nextCronFire expression timezone afterMs
  | "interval" => nextIntervalFire expression afterMs lastFireAt
  | "at" => nextAtFire cal expression afterMs
  | other => .error s!"unknown schedule_type: {other}"

/-- `compute_scheduled_at`: the boundary of the current fire. -/
def computeScheduledAt (scheduleType expression timezone : String) (nowMs : ℤ)
    (lastFireAt registrationTime : Option ℤ) : Option ℤ :=
  match scheduleType with
  | "cron" =>
    cal.findMostRecentCron expression timezone ((lastFireAt.or registrationTime).getD 0) nowMs
  | "interval" => do
    let intervalSecs ← parseI64 expression
    if intervalSecs ≤ 0 then none else lastFireAt.map (· + intervalSecs * 1000)
  | "at" => parseIsoTs cal expression
  | _ => none

/-- `validate_expression`: the authored expression parses for its schedule type.  `parseCron`
is `cron::Schedule::from_str`, one more third-party call.  For an interval only the sign is
checked; a parse failure's own text follows the context in the error chain. -/
def validateExpression (parseCron : String → Except String Unit)
    (scheduleType expression : String) : Except String Unit :=
  match scheduleType with
  | "cron" => Except.withContext s!"invalid cron expression: {expression}" (parseCron expression)
  | "interval" =>
    match parseI64 expression with
    | none => .error s!"interval must be integer seconds: {expression}"
    | some secs => Except.bailIf (secs ≤ 0) s!"interval must be positive, got: {secs}"
  | "at" =>
    Except.bailIf (parseIsoTs cal expression).isNone
      s!"invalid at expression (must be ISO 8601 timestamp): {expression}"
  | other => .error s!"unknown schedule_type: {other}"

/-! ## `planning.rs` -/

/-- `SchedulePlan`: the read-only planning snapshot. -/
structure SchedulePlan where
  lastScheduledAt : Option ℤ
  lastFireAt : Option ℤ
  currentDueAt : Option ℤ
  currentDueWithinGrace : Option Bool
  misfireHorizonExclusive : Option ℤ
  nextFireAt : Option ℤ
  decision : String
  decisionReason : String
  deriving DecidableEq, Repr

/-- `interval_ms`: the period in milliseconds, for a positive whole number of seconds.  The
product is exact; the source's `i64` product overflows past `i64::MAX / 1000` seconds. -/
def intervalMs (spec : ScheduleSpecRecord) : Option ℤ := do
  let secs ← parseI64 spec.expression
  if secs ≤ 0 then none else some (secs * 1000)

/-- `compute_current_interval_due`: the last boundary at or before `now_ms`, found by floor
division from the first boundary after the anchor. -/
def computeCurrentIntervalDue (spec : ScheduleSpecRecord) (lastScheduledAt : Option ℤ)
    (nowMs : ℤ) : Option ℤ := do
  let intervalMs ← intervalMs spec
  let anchor := lastScheduledAt.getD spec.registeredAt
  let firstDue := anchor + intervalMs
  if firstDue > nowMs then none
  else
    let elapsed := nowMs - firstDue
    let intervalsElapsed := elapsed.tdiv intervalMs
    some (firstDue + intervalsElapsed * intervalMs)

/-- `compute_next_interval_fire`: the first fire on registration, else one period after the
anchor (the current due boundary, else the last fire), jumping ahead when that is past. -/
def computeNextIntervalFire (spec : ScheduleSpecRecord) (lastScheduledAt : Option ℤ) (nowMs : ℤ)
    (currentDueAt : Option ℤ) : Option ℤ := do
  let intervalMs ← intervalMs spec
  let firstFire := spec.registeredAt + intervalMs
  if lastScheduledAt.isNone && firstFire > nowMs then some firstFire
  else
    let anchor := (currentDueAt.or lastScheduledAt).getD firstFire
    let next := anchor + intervalMs
    if next ≤ nowMs then
      let elapsed := nowMs - anchor
      let intervalsElapsed := elapsed.tdiv intervalMs
      some (anchor + (intervalsElapsed + 1) * intervalMs)
    else some next

/-- `compute_current_due_at`. -/
def computeCurrentDueAt (spec : ScheduleSpecRecord) (lastScheduledAt : Option ℤ) (nowMs : ℤ) :
    Option ℤ :=
  if spec.scheduleType = "at" then
    (parseIsoTs cal spec.expression).bind fun target =>
      let alreadyRecorded := lastScheduledAt.any (· ≥ target)
      if !alreadyRecorded && target ≤ nowMs then some target else none
  else if spec.scheduleType = "interval" then
    computeCurrentIntervalDue spec lastScheduledAt nowMs
  else
    match computeScheduledAt cal spec.scheduleType spec.expression spec.timezone nowMs
        lastScheduledAt (some spec.registeredAt) with
    | some scheduledAt => if scheduledAt ≤ nowMs then some scheduledAt else none
    | none => none

/-- `compute_next_planned_fire`. -/
def computeNextPlannedFire (spec : ScheduleSpecRecord) (lastScheduledAt : Option ℤ) (nowMs : ℤ)
    (currentDueAt : Option ℤ) : Option ℤ :=
  match spec.scheduleType with
  | "interval" => computeNextIntervalFire spec lastScheduledAt nowMs currentDueAt
  | "cron" =>
    match computeNextFire cal spec.scheduleType spec.expression spec.timezone nowMs none with
    | .ok next => next
    | .error _ => none
  | "at" =>
    (parseIsoTs cal spec.expression).bind fun target =>
      let alreadyRecorded := lastScheduledAt.any (· ≥ target)
      if !alreadyRecorded && target > nowMs then some target else none
  | _ => none

/-- `within_lateness_grace`, with the source's saturating arithmetic. -/
def withinLatenessGrace (spec : ScheduleSpecRecord) (scheduledAt nowMs : ℤ) : Bool :=
  let graceMs := saturate (spec.latenessGraceSecs * 1000)
  nowMs ≤ saturate (scheduledAt + graceMs)

/-- `plan_schedule_from_boundaries`: the planning snapshot at `now_ms`. -/
def planScheduleFromBoundaries (spec : ScheduleSpecRecord) (lastScheduledAt lastFireAt : Option ℤ)
    (nowMs : ℤ) : SchedulePlan :=
  if !spec.enabled then
    { lastScheduledAt, lastFireAt, currentDueAt := none, currentDueWithinGrace := none,
      misfireHorizonExclusive := none, nextFireAt := none, decision := "disabled",
      decisionReason := "schedule is disabled" }
  else
    let currentDueAt := computeCurrentDueAt cal spec lastScheduledAt nowMs
    let nextFireAt := computeNextPlannedFire cal spec lastScheduledAt nowMs currentDueAt
    let currentDueWithinGrace := currentDueAt.map fun due => withinLatenessGrace spec due nowMs
    let misfireHorizonExclusive := currentDueAt.map fun due =>
      if withinLatenessGrace spec due nowMs then due else nowMs
    let (decision, decisionReason) : String × String :=
      match currentDueAt, currentDueWithinGrace, nextFireAt with
      | some _, some true, _ =>
        ("due_within_grace", "current due boundary is within lateness grace")
      | some _, some false, _ =>
        ("late_misfire_evaluation", "current due boundary is beyond lateness grace")
      | none, _, none =>
        if spec.scheduleType = "at" then ("exhausted", "one-shot schedule has no future fire")
        else ("invalid_or_exhausted", "schedule expression produced no current or future fire")
      -- the source's arm `(None, _, Some(next)) if next > now_ms` and its fallback agree
      | _, _, _ => ("waiting_for_next_boundary", "next fire is in the future")
    { lastScheduledAt, lastFireAt, currentDueAt, currentDueWithinGrace, misfireHorizonExclusive,
      nextFireAt, decision, decisionReason }

/-- `plan_schedule`: plan from the latest fire record. -/
def planSchedule (spec : ScheduleSpecRecord) (lastFire : Option FireRecord) (nowMs : ℤ) :
    SchedulePlan :=
  planScheduleFromBoundaries cal spec (lastFire.map (·.scheduledAt)) (lastFire.bind (·.firedAt))
    nowMs

/-- The operands of the interval arithmetic stay in `i64`: the period, the registration, the
anchor, `now` and the misfire scan's horizon each with one period added, and the time from the
anchor to `now`.  On the planner's path every `+`, `-`, `*` and `/` of `interval_ms`,
`compute_current_interval_due`, `compute_next_interval_fire` and the scan's `next_interval_fire`
then has its result between two of these values: the due boundary lies between the anchor and
`now`, the next one is at most one period past the due boundary or the anchor, the elapsed time
and its multiple of the period are at most `now - anchor`, and the scan steps one period past a
boundary below the horizon.  So the source computes exactly the values of the model. -/
structure IntervalInRange (spec : ScheduleSpecRecord) (period anchor now horizon : ℤ) : Prop where
  period_le : period ≤ i64Max
  registered_in : InI64 spec.registeredAt ∧ spec.registeredAt + period ≤ i64Max
  anchor_in : InI64 anchor ∧ anchor + period ≤ i64Max
  now_in : InI64 now ∧ now + period ≤ i64Max
  horizon_in : InI64 horizon ∧ horizon + period ≤ i64Max
  elapsed_le : now - anchor ≤ i64Max

/-! ## Interval arithmetic lands on the lattice

For an interval schedule with period `I`, the boundaries after an anchor `a` are
`boundaries a I`.  The lemmas below read the two interval routines off that lattice; the
floor-division facts they rest on are `boundaries_isGreatest_floor` and
`boundaries_isLeast_succ`.
-/

variable {spec : ScheduleSpecRecord} {I : ℤ}

lemma intervalMs_eq (h : intervalMs spec = some I) :
    ∃ secs, parseI64 spec.expression = some secs ∧ 0 < secs ∧ I = secs * 1000 := by
  simp only [intervalMs, Option.bind_eq_bind, Option.bind_eq_some_iff] at h
  obtain ⟨secs, hs, h⟩ := h
  split_ifs at h with hle
  cases h
  exact ⟨secs, hs, by omega, rfl⟩

lemma intervalMs_pos (h : intervalMs spec = some I) : 0 < I := by
  obtain ⟨secs, -, hs, rfl⟩ := intervalMs_eq h
  omega

lemma intervalMs_of_parse {secs : ℤ} (hp : parseI64 spec.expression = some secs)
    (hs : 0 < secs) : intervalMs spec = some (secs * 1000) := by
  simp [intervalMs, hp, not_le.mpr hs]

/-- **The current interval boundary.**  `compute_current_interval_due` returns the greatest
boundary at or before `now`, and nothing when the first boundary is still ahead. -/
theorem computeCurrentIntervalDue_spec (h : intervalMs spec = some I) (last : Option ℤ)
    (now : ℤ) :
    (∀ d, computeCurrentIntervalDue spec last now = some d ↔
      IsGreatest {t | t ∈ boundaries (last.getD spec.registeredAt) I ∧ t ≤ now} d) ∧
    (computeCurrentIntervalDue spec last now = none ↔
      ∀ t ∈ boundaries (last.getD spec.registeredAt) I, now < t) := by
  have hI := intervalMs_pos h
  set a := last.getD spec.registeredAt
  by_cases hfirst : a + I ≤ now
  · have hval : computeCurrentIntervalDue spec last now =
        some (a + I + ((now - (a + I)) / I) * I) := by
      simp only [computeCurrentIntervalDue, h, Option.bind_eq_bind, Option.bind_some]
      rw [if_neg (by omega), Int.tdiv_eq_ediv_of_nonneg (by omega)]
    have hg := boundaries_isGreatest_floor hI hfirst
    refine ⟨fun d => ?_, ?_⟩
    · rw [hval, Option.some.injEq]
      exact ⟨fun hd => hd ▸ hg, fun hd => hg.unique hd⟩
    · simp only [hval, reduceCtorEq, false_iff, not_forall, not_lt]
      exact ⟨_, hg.1.1, hg.1.2⟩
  · have hval : computeCurrentIntervalDue spec last now = none := by
      simp only [computeCurrentIntervalDue, h, Option.bind_eq_bind, Option.bind_some]
      rw [if_pos (by omega)]
    have hnone := (boundaries_isLeast_first hI (not_le.mp hfirst)).1
    refine ⟨fun d => ?_, by simpa [hval] using hnone⟩
    simp only [hval, reduceCtorEq, false_iff]
    exact fun hd => absurd (hnone d hd.1.1) (not_lt.mpr hd.1.2)

/-- **The next interval boundary.**  Fed the current due boundary as the planner feeds it,
`compute_next_interval_fire` returns the least boundary after `now`. -/
theorem computeNextIntervalFire_spec (h : intervalMs spec = some I) (last : Option ℤ)
    (now : ℤ) :
    ∃ n, computeNextIntervalFire spec last now (computeCurrentIntervalDue spec last now) = some n ∧
      IsLeast {t | t ∈ boundaries (last.getD spec.registeredAt) I ∧ now < t} n := by
  have hI := intervalMs_pos h
  obtain ⟨hsome, hnone⟩ := computeCurrentIntervalDue_spec h last now
  cases hdue : computeCurrentIntervalDue spec last now with
  | some d =>
    have hg := (hsome d).mp hdue
    have hl := boundaries_isLeast_succ hI hg
    refine ⟨d + I, ?_, hl⟩
    simp only [computeNextIntervalFire, h, Option.bind_eq_bind, Option.bind_some]
    split_ifs with h1 h2
    · exfalso
      cases last with
      | some _ => simp at h1
      | none =>
        have hd := le_of_mem_boundaries hI hg.1.1
        simp only [Option.isNone_none, Option.getD_none, Bool.true_and, decide_eq_true_eq] at h1 hd
        exact absurd hg.1.2 (by omega)
    · exact absurd h2 (not_le.mpr hl.1.2)
    · rfl
  | none =>
    have hall := hnone.mp hdue
    cases last with
    | none =>
      have hlt : now < spec.registeredAt + I := hall _ (add_mem_boundaries _ _)
      refine ⟨spec.registeredAt + I, ?_, (boundaries_isLeast_first hI hlt).2⟩
      simp [computeNextIntervalFire, h, hlt]
    | some l =>
      have hlt : now < l + I := hall _ (add_mem_boundaries _ _)
      refine ⟨l + I, ?_, (boundaries_isLeast_first hI hlt).2⟩
      simp [computeNextIntervalFire, h, not_le.mpr hlt]

/-- For an enabled interval schedule the planner's due and next boundaries are the interval
routines'. -/
lemma planScheduleFromBoundaries_interval (cal : Calendar) (hType : spec.scheduleType = "interval")
    (hEnabled : spec.enabled = true) (last fired : Option ℤ) (now : ℤ) :
    (planScheduleFromBoundaries cal spec last fired now).currentDueAt =
      computeCurrentIntervalDue spec last now ∧
    (planScheduleFromBoundaries cal spec last fired now).nextFireAt =
      computeNextIntervalFire spec last now (computeCurrentIntervalDue spec last now) := by
  simp [planScheduleFromBoundaries, hEnabled, computeCurrentDueAt, computeNextPlannedFire, hType]

/-- Stepping from a cursor with `last = cursor`, as the misfire scan does, `next_interval_fire`
moves exactly one period. -/
lemma nextIntervalFire_self {secs : ℤ} (hp : parseI64 spec.expression = some secs)
    (hs : 0 < secs) (cursor : ℤ) :
    nextIntervalFire spec.expression cursor (some cursor) = .ok (some (cursor + secs * 1000)) := by
  simp [nextIntervalFire, hp, not_le.mpr hs]

/-! ## The size of an interval

Validation bounds the sign of an interval and nothing else, while every fire computation
multiplies the seconds by `1000` in `i64`.
-/

/-- An interval passes validation exactly when it is a positive `i64`: there is no upper
bound. -/
theorem validateExpression_interval {parseCron : String → Except String Unit}
    {expression : String} :
    validateExpression cal parseCron "interval" expression = .ok () ↔
      ∃ secs, parseI64 expression = some secs ∧ 0 < secs := by
  simp only [validateExpression]
  cases parseI64 expression with
  | none => simp
  | some secs => simp

/-- An interval of `9223372036854776` seconds, about 292 million years, passes
`validate_expression`, and its period in milliseconds is past `i64::MAX`: the source's
`secs * 1000` in `interval_ms` overflows.  A debug build panics there; a release build, which
has no overflow checks, wraps it to a negative period. -/
theorem accepted_interval_overflows_period :
    let cal : Calendar := ⟨fun _ => none, fun _ _ _ => .ok none, fun _ _ _ _ => none⟩
    let spec : ScheduleSpecRecord :=
      { scheduleId := "nightly", scheduleType := "interval", expression := "9223372036854776",
        timezone := "UTC", misfirePolicy := "skip", latenessGraceSecs := 60, enabled := true,
        specHash := "", registeredAt := 0 }
    validateExpression cal (fun _ => .ok ()) spec.scheduleType spec.expression = .ok () ∧
    intervalMs spec = some (9223372036854776 * 1000) ∧ i64Max < 9223372036854776 * 1000 ∧
    ((9223372036854776 : Int64) * 1000).toInt = 9223372036854776 * 1000 - 2 ^ 64 := by
  intro cal spec
  have hparse : parseI64 spec.expression = some 9223372036854776 := by decide
  refine ⟨(validateExpression_interval cal).mpr ⟨_, hparse, by norm_num⟩,
    intervalMs_of_parse hparse (by norm_num), by norm_num [i64Max], by decide⟩

end Ryeos.Scheduler
