import Ryeos.Core.Result
import Ryeos.Scheduler.Planning

/-!
# Misfire detection: `misfire.rs`

After downtime the timer asks which boundaries were missed.  `detect_misfires_before` walks a
cursor from the anchor through `compute_next_fire`, one boundary at a time, and collects every
boundary below the exclusive horizon that the fire index has no record of, stopping after
`MISFIRE_SCAN_BATCH` boundaries.

The fire index is the scheduler's SQLite table; the model reads it through `getFire`, which
stands for `db.get_fire(fid)` followed by `existing.validate()` on a hit: an error, a valid
indexed fire (`some ()`), or nothing.

* `detectMisfiresLoop_interval` — for an interval schedule, the scan returns the boundaries
  below the horizon, in order, cut at the batch size;
* `interval_schedules_share_one_lattice` — the planner, the next-fire routine and the scan agree
  on one lattice of boundaries.
-/

namespace Ryeos.Scheduler

/-- All four misfire policies. -/
inductive MisfirePolicy where
  | skip
  | fireOnceNow
  | catchUpBounded (count : ℕ)
  | catchUpWithinSecs (seconds : ℕ)
  deriving DecidableEq, Repr

/-- `usize::MAX` and `u64::MAX` on the 64-bit targets the daemon is built for. -/
def u64Max : ℕ := 2 ^ 64 - 1

/-- `str::parse` at an unsigned type: an optional `+`, then at least one ASCII digit and nothing
else, with the value at most `bound`. -/
def parseUnsigned (bound : ℕ) (cs : List Char) : Option ℕ :=
  let digits := match cs with
    | '+' :: rest => rest
    | _ => cs
  if digits.isEmpty || !digits.all Char.isDigit then none
  else if digitsValue digits ≤ bound then some (digitsValue digits) else none

/-- `str::strip_prefix` on character lists. -/
def stripPrefix : List Char → List Char → Option (List Char)
  | [], s => some s
  | _ :: _, [] => none
  | p :: ps, c :: cs => if p = c then stripPrefix ps cs else none

/-- `parse_misfire_policy`.  Every schedule authors its policy explicitly; anything else fails
closed. -/
def parseMisfirePolicy (raw : String) : Except String MisfirePolicy :=
  if raw = "skip" then .ok .skip
  else if raw = "fire_once_now" then .ok .fireOnceNow
  else match stripPrefix "catch_up_bounded:".toList raw.toList with
    | some count =>
      match parseUnsigned u64Max count with
      | some count => .ok (.catchUpBounded count)
      | none => .error s!"invalid misfire_policy: {raw}"
    | none =>
      match stripPrefix "catch_up_within_secs:".toList raw.toList with
      | some seconds =>
        match parseUnsigned u64Max seconds with
        | some seconds =>
          if (seconds : ℤ) > i64Max / 1000 then
            .error s!"misfire_policy window is too large: {raw}"
          else .ok (.catchUpWithinSecs seconds)
        | none => .error s!"invalid misfire_policy: {raw}"
      | none => .error s!"invalid misfire_policy: {raw}"

/-- `MISFIRE_SCAN_BATCH`: a processing bound, not schedule policy. -/
def misfireScanBatch : ℕ := 10000

/-- `types::fire_id`. -/
def fireId (scheduleId : String) (scheduledAtMs : ℤ) : String :=
  scheduleId ++ "@" ++ toString scheduledAtMs

variable (cal : Calendar)

/-- The scan loop of `detect_misfires_before`.  The fuel is the part of the scan batch not yet
spent: the source counts `scanned` up and breaks once it reaches the batch size. -/
def detectMisfiresLoop (spec : ScheduleSpecRecord) (getFire : String → Except String (Option Unit))
    (horizonExclusive : ℤ) : ℕ → ℤ → List ℤ → Except String (List ℤ)
  | 0, _, missed => .ok missed
  | remaining + 1, cursor, missed => do
    let next ← computeNextFire cal spec.scheduleType spec.expression spec.timezone cursor
      (some cursor)
    match next with
    | some scheduledAt =>
      if scheduledAt < horizonExclusive then do
        let existing ← getFire (fireId spec.scheduleId scheduledAt)
        let missed := if existing.isSome then missed else missed ++ [scheduledAt]
        -- the scheduled time itself is the next cursor, so intervals do not drift
        detectMisfiresLoop spec getFire horizonExclusive remaining scheduledAt missed
      else .ok missed
    | none => .ok missed

/-- `detect_misfires_before`: missed fires after `anchor` and before `horizon_exclusive`. -/
def detectMisfiresBefore (spec : ScheduleSpecRecord) (anchor horizonExclusive : ℤ)
    (getFire : String → Except String (Option Unit)) : Except String (List ℤ) :=
  if anchor ≥ horizonExclusive then .ok []
  else detectMisfiresLoop cal spec getFire horizonExclusive misfireScanBatch anchor []

/-! ## The scan on an interval schedule -/

section Interval

variable {cal} {spec : ScheduleSpecRecord} {secs : ℤ}
  {getFire : String → Except String (Option Unit)} {a h : ℤ}

/-- **The scan loop, for an interval schedule.**  From any cursor at or after the anchor, with
no indexed fire between the anchor and the horizon, the loop appends the next `fuel` boundaries
below the horizon.  Induction on the fuel; one step is one period (`nextIntervalFire_self`) and
one unfolding of `stepsBelow_eq`. -/
theorem detectMisfiresLoop_interval (hType : spec.scheduleType = "interval")
    (hExpr : parseI64 spec.expression = some secs) (hSecs : 0 < secs)
    (hIndex : ∀ t, a < t → t < h → getFire (fireId spec.scheduleId t) = .ok none) :
    ∀ (fuel : ℕ) (cursor : ℤ) (missed : List ℤ), a ≤ cursor →
      detectMisfiresLoop cal spec getFire h fuel cursor missed =
        .ok (missed ++ (stepsBelow cursor (secs * 1000) h).take fuel) := by
  have hI : 0 < secs * 1000 := by omega
  intro fuel
  induction fuel with
  | zero => intro cursor missed _; simp [detectMisfiresLoop]
  | succ fuel ih =>
    intro cursor missed hcursor
    have hnext : computeNextFire cal spec.scheduleType spec.expression spec.timezone cursor
        (some cursor) = .ok (some (cursor + secs * 1000)) := by
      rw [hType]
      exact nextIntervalFire_self hExpr hSecs cursor
    rw [stepsBelow_eq hI]
    simp only [detectMisfiresLoop, hnext, bind, Except.bind]
    split_ifs with hlt
    · rw [hIndex _ (by omega) hlt]
      simp only [Option.isSome_none, Bool.false_eq_true, if_false, List.take_succ_cons]
      rw [ih _ _ (by omega), List.append_assoc, List.singleton_append]
    · simp

/-- **The scan.**  `detect_misfires_before` on an interval schedule returns the boundaries after
the anchor and below the horizon, in increasing order, cut at the scan batch. -/
theorem detectMisfiresBefore_interval (hType : spec.scheduleType = "interval")
    (hExpr : parseI64 spec.expression = some secs) (hSecs : 0 < secs)
    (hIndex : ∀ t, a < t → t < h → getFire (fireId spec.scheduleId t) = .ok none) :
    detectMisfiresBefore cal spec a h getFire =
      .ok ((stepsBelow a (secs * 1000) h).take misfireScanBatch) := by
  unfold detectMisfiresBefore
  split_ifs with hah
  · rw [stepsBelow_eq (by omega), if_neg (by omega), List.take_nil]
  · simpa using detectMisfiresLoop_interval hType hExpr hSecs hIndex misfireScanBatch a [] le_rfl

end Interval

/-! ## One lattice for the planner, the next-fire routine and the scan -/

/-- **Interval schedules agree on one lattice of fire times.**  For an enabled interval
schedule with period `I = secs * 1000`, anchored at the last scheduled fire if there is one and
at registration otherwise, and with the operands of its arithmetic in `i64`, the planner's
current due boundary is the greatest boundary at or before `now` (and there is none exactly
when every boundary is later), its next fire is the least boundary after `now`, and the misfire
scan over an empty stretch of the fire index returns the boundaries below its horizon in
increasing order, cut at the scan batch.  Every boundary reported is itself an `i64`. -/
theorem interval_schedules_share_one_lattice (cal : Calendar) (spec : ScheduleSpecRecord)
    (secs : ℤ) (hType : spec.scheduleType = "interval") (hEnabled : spec.enabled = true)
    (hExpr : parseI64 spec.expression = some secs) (hSecs : 0 < secs)
    (lastFire : Option FireRecord) (now h : ℤ) (getFire : String → Except String (Option Unit))
    (hIndex : ∀ t, (lastFire.map (·.scheduledAt)).getD spec.registeredAt < t → t < h →
      getFire (fireId spec.scheduleId t) = .ok none)
    (hRange : IntervalInRange spec (secs * 1000) ((lastFire.map (·.scheduledAt)).getD
      spec.registeredAt) now h) :
    let a := (lastFire.map (·.scheduledAt)).getD spec.registeredAt
    let plan := planSchedule cal spec lastFire now
    (∀ d, plan.currentDueAt = some d ↔
      IsGreatest {t | t ∈ boundaries a (secs * 1000) ∧ t ≤ now} d) ∧
    (plan.currentDueAt = none ↔ ∀ t ∈ boundaries a (secs * 1000), now < t) ∧
    (∃ n, plan.nextFireAt = some n ∧
      IsLeast {t | t ∈ boundaries a (secs * 1000) ∧ now < t} n) ∧
    detectMisfiresBefore cal spec a h getFire =
      .ok ((stepsBelow a (secs * 1000) h).take misfireScanBatch) ∧
    (∀ t, t ∈ stepsBelow a (secs * 1000) h ↔ t ∈ boundaries a (secs * 1000) ∧ t < h) ∧
    (stepsBelow a (secs * 1000) h).Pairwise (· < ·) ∧
    (∀ t, plan.currentDueAt = some t ∨ plan.nextFireAt = some t ∨
      t ∈ stepsBelow a (secs * 1000) h → InI64 t) := by
  intro a plan
  have hpos : 0 < secs * 1000 := by omega
  have hI : intervalMs spec = some (secs * 1000) := intervalMs_of_parse hExpr hSecs
  obtain ⟨hdue, hnext⟩ := planScheduleFromBoundaries_interval cal hType hEnabled
    (lastFire.map (·.scheduledAt)) (lastFire.bind (·.firedAt)) now
  obtain ⟨hsome, hnone⟩ := computeCurrentIntervalDue_spec hI (lastFire.map (·.scheduledAt)) now
  obtain ⟨n, hn, hleast⟩ := computeNextIntervalFire_spec hI (lastFire.map (·.scheduledAt)) now
  have hcurrent : ∀ d, plan.currentDueAt = some d ↔
      IsGreatest {t | t ∈ boundaries a (secs * 1000) ∧ t ≤ now} d := fun d => by
    rw [← hsome d]
    exact Eq.congr_left hdue
  have hplanNext : plan.nextFireAt = some n := by
    rw [← hn]
    exact hnext
  -- every reported boundary lies past the anchor and below `now`, `h` or one period past `now`
  have hbounds : ∀ t, plan.currentDueAt = some t ∨ plan.nextFireAt = some t ∨
      t ∈ stepsBelow a (secs * 1000) h → InI64 t := by
    have hfirst : a < a + secs * 1000 := by omega
    rintro t (hd | hnx | hs)
    · obtain ⟨⟨hmem, hle⟩, -⟩ := (hcurrent t).mp hd
      exact InI64.of_between hRange.anchor_in.1 hRange.now_in.1
        (hfirst.le.trans (le_of_mem_boundaries hpos hmem)) hle
    · obtain rfl : n = t := Option.some.inj (hplanNext.symm.trans hnx)
      refine ⟨hRange.now_in.1.1.trans hleast.1.2.le, ?_⟩
      rcases le_of_isLeast_boundaries hpos hleast with hle | hle
      · exact hle.trans hRange.anchor_in.2
      · exact hle.trans hRange.now_in.2
    · obtain ⟨hmem, hlt⟩ := (mem_stepsBelow hpos).mp hs
      exact InI64.of_between hRange.anchor_in.1 hRange.horizon_in.1
        (hfirst.le.trans (le_of_mem_boundaries hpos hmem)) hlt.le
  refine ⟨hcurrent, ?_, ⟨n, hplanNext, hleast⟩, detectMisfiresBefore_interval hType hExpr hSecs
    hIndex, fun t => mem_stepsBelow hpos, stepsBelow_pairwise hpos, hbounds⟩
  rw [← hnone]
  exact Eq.congr_left hdue

/-- The lattice theorem at a one-second schedule registered at `0`, planned at `now = 5500`
and scanned up to `3000` over an empty fire index. -/
theorem interval_schedules_share_one_lattice_at_one_second :
    let cal : Calendar := ⟨fun _ => none, fun _ _ _ => .ok none, fun _ _ _ _ => none⟩
    let spec : ScheduleSpecRecord :=
      { scheduleId := "nightly", scheduleType := "interval", expression := "1",
        timezone := "UTC", misfirePolicy := "skip", latenessGraceSecs := 60, enabled := true,
        specHash := "", registeredAt := 0 }
    let getFire : String → Except String (Option Unit) := fun _ => .ok none
    (spec.scheduleType = "interval" ∧ spec.enabled = true ∧ parseI64 spec.expression = some 1 ∧
      (0 : ℤ) < 1 ∧ (∀ t, ((none : Option FireRecord).map (·.scheduledAt)).getD spec.registeredAt < t → t < 3000 →
        getFire (fireId spec.scheduleId t) = .ok none) ∧
      IntervalInRange spec (1 * 1000) 0 5500 3000) ∧
    let plan := planSchedule cal spec none 5500
    (∀ d, plan.currentDueAt = some d ↔ IsGreatest {t | t ∈ boundaries 0 (1 * 1000) ∧ t ≤ 5500} d) ∧
    (plan.currentDueAt = none ↔ ∀ t ∈ boundaries 0 (1 * 1000), 5500 < t) ∧
    (∃ n, plan.nextFireAt = some n ∧ IsLeast {t | t ∈ boundaries 0 (1 * 1000) ∧ 5500 < t} n) ∧
    detectMisfiresBefore cal spec 0 3000 getFire =
      .ok ((stepsBelow 0 (1 * 1000) 3000).take misfireScanBatch) ∧
    (∀ t, t ∈ stepsBelow 0 (1 * 1000) 3000 ↔ t ∈ boundaries 0 (1 * 1000) ∧ t < 3000) ∧
    (stepsBelow 0 (1 * 1000) 3000).Pairwise (· < ·) ∧
    (∀ t, plan.currentDueAt = some t ∨ plan.nextFireAt = some t ∨
      t ∈ stepsBelow 0 (1 * 1000) 3000 → InI64 t) :=
  have hRange : IntervalInRange
      { scheduleId := "nightly", scheduleType := "interval", expression := "1",
        timezone := "UTC", misfirePolicy := "skip", latenessGraceSecs := 60, enabled := true,
        specHash := "", registeredAt := 0 } (1 * 1000) 0 5500 3000 := by
    refine ⟨?_, ⟨?_, ?_⟩, ⟨?_, ?_⟩, ⟨?_, ?_⟩, ⟨?_, ?_⟩, ?_⟩ <;>
      norm_num [InI64, i64Min, i64Max]
  ⟨⟨rfl, rfl, by decide, by decide, fun _ _ _ => rfl, hRange⟩,
    interval_schedules_share_one_lattice _ _ 1 rfl rfl (by decide) (by decide) none 5500 3000 _
      (fun _ _ _ => rfl) hRange⟩

/-- **A disabled schedule is planned with nothing due.**  The planner's first branch returns an
empty plan for a disabled schedule, whatever boundaries have passed: here the boundary at
`1000` has passed at `now = 5000`, and `current_due_at` is still `None`. -/
theorem disabled_interval_schedule_has_no_due_boundary :
    (planSchedule ⟨fun _ => none, fun _ _ _ => .ok none, fun _ _ _ _ => none⟩
        { scheduleId := "nightly", scheduleType := "interval", expression := "1",
          timezone := "UTC", misfirePolicy := "skip", latenessGraceSecs := 60,
          enabled := false, specHash := "", registeredAt := 0 } none 5000).currentDueAt = none ∧
    IsGreatest {t | t ∈ boundaries 0 (1 * 1000) ∧ t ≤ 5000} 5000 := by
  refine ⟨rfl, ?_⟩
  have := @boundaries_isGreatest_floor 0 (1 * 1000) 5000 (by norm_num) (by norm_num)
  norm_num at this ⊢
  exact this

/-! ## Evaluating the policy

`evaluate_misfires_before` anchors the scan, collects the missed boundaries, and hands them to
the schedule's policy, which dispatches some now and records the rest as skipped fires.  The
policy arms index and slice the list of missed boundaries, so this part of the model runs in
`Except (Failure String)`: it ends with an `anyhow` error or with a panic.
-/

/-- The fields of `ScheduleCursorRecord` the misfire anchor reads. -/
structure ScheduleCursor where
  specHash : String
  lastScheduledAt : Option ℤ
  deriving DecidableEq, Repr

/-- What `evaluate_misfires_before` reads from the scheduler database and writes through its
context.  Each is a call the model takes as it is. -/
structure MisfireStore where
  /-- `db.get_cursor(schedule_id)`. -/
  getCursor : String → Except String (Option ScheduleCursor)
  /-- `db.get_last_fire(schedule_id)`. -/
  getLastFire : String → Except String (Option FireRecord)
  /-- `FireRecord::validate` on the indexed last fire. -/
  validateFire : FireRecord → Except String Unit
  /-- `db.get_fire(fid)` and then `validate` on a hit, as the scan reads the fire index. -/
  getFire : String → Except String (Option Unit)
  /-- `record_skip`: persist a skipped fire record for a fire id, scheduled time and reason. -/
  recordSkip : String → ℤ → String → Except String Unit

/-- `PendingFire`: a missed fire to dispatch now. -/
structure PendingFire where
  fireId : String
  scheduledAt : ℤ
  reason : String
  deriving DecidableEq, Repr

/-- A missed fire that `record_skip` persisted with status `"skipped"` and this reason. -/
structure SkippedFire where
  fireId : String
  scheduledAt : ℤ
  reason : String
  deriving DecidableEq, Repr

/-- What one evaluation does: the fires it returns for dispatch, and the skipped fires it
recorded, in the order it recorded them. -/
structure MisfireOutcome where
  pending : List PendingFire
  skipped : List SkippedFire
  deriving DecidableEq, Repr

/-- The pending fire for a missed boundary. -/
def pendingFire (spec : ScheduleSpecRecord) (reason : String) (scheduledAt : ℤ) : PendingFire :=
  ⟨fireId spec.scheduleId scheduledAt, scheduledAt, reason⟩

/-- The loop `for &scheduled_at in fires { record_skip(..).await? }`: persist a skipped fire for
each boundary in order, stopping at the first failed write. -/
def recordSkips (recordSkip : String → ℤ → String → Except String Unit)
    (spec : ScheduleSpecRecord) (reason : String) :
    List ℤ → Except (Failure String) (List SkippedFire)
  | [] => .ok []
  | scheduledAt :: rest => do
    let fid := fireId spec.scheduleId scheduledAt
    Failure.lift (recordSkip fid scheduledAt reason)
    let written ← recordSkips recordSkip spec reason rest
    return ⟨fid, scheduledAt, reason⟩ :: written

/-- The policy arms of `evaluate_misfires_before`, on the missed boundaries in chronological
order. -/
def applyMisfirePolicy (recordSkip : String → ℤ → String → Except String Unit)
    (spec : ScheduleSpecRecord) (evaluationNow : ℤ) (missed : List ℤ) :
    MisfirePolicy → Except (Failure String) MisfireOutcome
  | .skip => do
    let skipped ← recordSkips recordSkip spec "misfire_skip" missed
    return ⟨[], skipped⟩
  | .fireOnceNow => do
    -- `&missed[..missed.len().saturating_sub(1)]`: natural subtraction saturates at zero
    let skipped ← recordSkips recordSkip spec "misfire_skipped_collapse"
      (missed.take (missed.length - 1))
    let last ← Failure.index missed (missed.length - 1)
    return ⟨[pendingFire spec "misfire_fire_once" last], skipped⟩
  | .catchUpBounded max => do
    let toFire := missed.take max
    -- the fires beyond the bound are the slice `&missed[max..]`
    let beyond ← Failure.sliceFrom missed max
    let skipped ← recordSkips recordSkip spec "misfire_skipped_bounded" beyond
    return ⟨toFire.map (pendingFire spec "misfire_catch_up"), skipped⟩
  | .catchUpWithinSecs windowSecs => do
    -- the parser bounds the window by `i64::MAX / 1000` seconds, so the product is in range
    let windowMs := (windowSecs : ℤ) * 1000
    let cutoff := evaluationNow - windowMs
    let toFire := missed.filter (· ≥ cutoff)
    let skipped ← recordSkips recordSkip spec "misfire_skipped_window"
      (missed.filter (· < cutoff))
    return ⟨toFire.map (pendingFire spec "misfire_catch_up"), skipped⟩

/-- What each policy is meant to dispatch, as the module documentation describes the four:
nothing, the newest missed fire, the oldest `count`, or those inside the window before
`evaluation_now`.  This is the intent the arms are measured against, not a translation. -/
def MisfirePolicy.dispatched (evaluationNow : ℤ) (missed : List ℤ) : MisfirePolicy → List ℤ
  | .skip => []
  | .fireOnceNow => missed.getLast?.toList
  | .catchUpBounded count => missed.take count
  | .catchUpWithinSecs seconds => missed.filter (· ≥ evaluationNow - seconds * 1000)

/-- The anchor of the scan: the cursor's last boundary when the cursor was written for this
spec, else the indexed last fire, else registration; never before registration. -/
def misfireAnchor (store : MisfireStore) (spec : ScheduleSpecRecord) : Except String ℤ := do
  let cursor ← Except.withContext s!"load scheduler cursor for {spec.scheduleId}"
    (store.getCursor spec.scheduleId)
  match cursor.filter (·.specHash = spec.specHash) with
  | some cursor => return max (cursor.lastScheduledAt.getD spec.registeredAt) spec.registeredAt
  | none =>
    let fire ← Except.withContext s!"load indexed last fire for {spec.scheduleId}"
      (store.getLastFire spec.scheduleId)
    match fire with
    | some fire => do
      Except.withContext s!"invalid indexed last fire for {spec.scheduleId}"
        (store.validateFire fire)
      return max fire.scheduledAt spec.registeredAt
    | none => return spec.registeredAt

/-- `evaluate_misfires_before`: the missed fires before the horizon, dispatched or recorded as
skipped as the schedule's policy says. -/
def evaluateMisfiresBefore (store : MisfireStore) (spec : ScheduleSpecRecord)
    (horizonExclusive evaluationNow : ℤ) : Except (Failure String) MisfireOutcome := do
  let anchor ← Failure.lift (misfireAnchor store spec)
  if anchor ≥ horizonExclusive then return ⟨[], []⟩
  else
    let missed ← Failure.lift <| Except.withContext s!"detect misfires for {spec.scheduleId}"
      (detectMisfiresBefore cal spec anchor horizonExclusive store.getFire)
    if missed.isEmpty then return ⟨[], []⟩
    else
      let policy ← Failure.lift <| Except.withContext
        s!"invalid authored misfire policy for schedule {spec.scheduleId}"
        (parseMisfirePolicy spec.misfirePolicy)
      applyMisfirePolicy store.recordSkip spec evaluationNow missed policy

/-! ## The policy arms partition the missed fires -/

section Policy

variable {recordSkip : String → ℤ → String → Except String Unit} {spec : ScheduleSpecRecord}
  {reason : String} {now : ℤ} {missed : List ℤ} {policy : MisfirePolicy} {out : MisfireOutcome}

/-- A run of the skip loop that returns wrote one skipped fire per boundary, in order, each with
the loop's reason. -/
theorem recordSkips_eq_ok {fires : List ℤ} {written : List SkippedFire}
    (h : recordSkips recordSkip spec reason fires = .ok written) :
    written.map (·.scheduledAt) = fires ∧ ∀ s ∈ written, s.reason = reason := by
  induction fires generalizing written with
  | nil =>
    cases h
    simp
  | cons scheduledAt rest ih =>
    obtain ⟨⟨⟩, -, h⟩ := Except.bind_eq_ok.mp h
    obtain ⟨tail, htail, h⟩ := Except.bind_eq_ok.mp h
    cases h
    obtain ⟨hmap, hreason⟩ := ih htail
    simpa [hmap] using hreason

/-- The skip loop only fails through a failed write; it never panics. -/
theorem noPanic_recordSkips (fires : List ℤ) :
    Failure.NoPanic (recordSkips recordSkip spec reason fires) := by
  induction fires with
  | nil => exact Failure.noPanic_ok _
  | cons scheduledAt rest ih =>
    exact (Failure.noPanic_lift _).bind fun _ _ => ih.bind fun _ _ => Failure.noPanic_ok _

/-- **The policy arms partition the missed fires.**  A run of a policy arm that returns
dispatches what the policy describes and records every other missed fire as skipped: the
dispatched and the skipped fires together are the missed ones, each once. -/
theorem applyMisfirePolicy_eq_ok (h : applyMisfirePolicy recordSkip spec now missed policy = .ok out) :
    out.pending.map (·.scheduledAt) = policy.dispatched now missed ∧
    (out.pending.map (·.scheduledAt) ++ out.skipped.map (·.scheduledAt)).Perm missed := by
  cases policy with
  | skip =>
    obtain ⟨skipped, hskip, h⟩ := Except.bind_eq_ok.mp h
    cases h
    simp [MisfirePolicy.dispatched, (recordSkips_eq_ok hskip).1]
  | fireOnceNow =>
    obtain ⟨skipped, hskip, h⟩ := Except.bind_eq_ok.mp h
    obtain ⟨last, hlast, h⟩ := Except.bind_eq_ok.mp h
    cases h
    -- the index succeeded, so `last` is the last missed fire and the skipped ones precede it
    have hget : missed.getLast? = some last := by
      rw [List.getLast?_eq_getElem?]
      exact Failure.index_eq_ok.mp hlast
    have hsplit : missed.dropLast ++ [last] = missed := List.dropLast_append_getLast? last hget
    refine ⟨by simp [MisfirePolicy.dispatched, pendingFire, hget], ?_⟩
    rw [(recordSkips_eq_ok hskip).1, ← List.dropLast_eq_take]
    simpa [pendingFire, hsplit] using (@List.perm_append_comm _ [last] missed.dropLast)
  | catchUpBounded count =>
    obtain ⟨beyond, hslice, h⟩ := Except.bind_eq_ok.mp h
    obtain ⟨skipped, hskip, h⟩ := Except.bind_eq_ok.mp h
    cases h
    obtain ⟨-, rfl⟩ := Failure.sliceFrom_eq_ok.mp hslice
    simp [MisfirePolicy.dispatched, pendingFire, (recordSkips_eq_ok hskip).1, Function.comp_def]
  | catchUpWithinSecs seconds =>
    obtain ⟨skipped, hskip, h⟩ := Except.bind_eq_ok.mp h
    cases h
    -- the skipped fires are the complement of the window
    have hcomplement : missed.filter (· < now - seconds * 1000) =
        missed.filter fun t => !decide (t ≥ now - seconds * 1000) :=
      List.filter_congr fun t _ => by
        rw [Bool.eq_iff_iff]
        simp only [decide_eq_true_eq, Bool.not_eq_true', decide_eq_false_iff_not, not_le]
    refine ⟨by simp [MisfirePolicy.dispatched, pendingFire, Function.comp_def], ?_⟩
    rw [(recordSkips_eq_ok hskip).1, hcomplement]
    simpa [pendingFire, Function.comp_def] using
      List.filter_append_perm (fun t => decide (t ≥ now - seconds * 1000)) missed

/-- A bounded catch-up past the end of the missed fires panics at the slice `&missed[max..]`,
before it records anything. -/
theorem applyMisfirePolicy_catchUpBounded_of_lt {count : ℕ} (h : missed.length < count) :
    applyMisfirePolicy recordSkip spec now missed (.catchUpBounded count) =
      .error (.panic
        s!"range start index {count} out of range for slice of length {missed.length}") := by
  simp only [applyMisfirePolicy]
  rw [Failure.sliceFrom_of_lt h, Except.error_bind]

/-- Every other arm runs to its end on a non-empty list of missed fires: only a failed write
stops it. -/
theorem noPanic_applyMisfirePolicy (hne : missed ≠ [])
    (hbound : ∀ count, policy = .catchUpBounded count → count ≤ missed.length) :
    Failure.NoPanic (applyMisfirePolicy recordSkip spec now missed policy) := by
  cases policy with
  | skip => exact (noPanic_recordSkips _).bind fun _ _ => Failure.noPanic_ok _
  | fireOnceNow =>
    have hlast : missed.length - 1 < missed.length :=
      Nat.sub_lt (List.length_pos_of_ne_nil hne) Nat.one_pos
    refine (noPanic_recordSkips _).bind fun _ _ => ?_
    simp only [Failure.index_of_lt hlast, Except.ok_bind]
    exact Failure.noPanic_ok _
  | catchUpBounded count =>
    exact (Failure.noPanic_sliceFrom (hbound count rfl)).bind fun _ _ =>
      (noPanic_recordSkips _).bind fun _ _ => Failure.noPanic_ok _
  | catchUpWithinSecs seconds => exact (noPanic_recordSkips _).bind fun _ _ => Failure.noPanic_ok _

/-- **The one panic of the policy arms.**  On a non-empty list of missed fires a policy arm
panics exactly when it is a bounded catch-up whose bound is past the number of missed fires. -/
theorem applyMisfirePolicy_panics_iff (hne : missed ≠ []) :
    ¬ Failure.NoPanic (applyMisfirePolicy recordSkip spec now missed policy) ↔
      ∃ count, policy = .catchUpBounded count ∧ missed.length < count := by
  constructor
  · intro hpanic
    refine by_contra fun hnone => hpanic (noPanic_applyMisfirePolicy hne fun count hc => ?_)
    exact Nat.le_of_not_lt fun hlt => hnone ⟨count, hc, hlt⟩
  · rintro ⟨count, rfl, hlt⟩ hnopanic
    exact hnopanic _ (applyMisfirePolicy_catchUpBounded_of_lt hlt)

end Policy

/-! ## Evaluation end to end -/

section Evaluate

variable {cal} {store : MisfireStore} {spec : ScheduleSpecRecord} {horizon now : ℤ}

/-- Past the anchor and with missed fires from the scan, an evaluation is its policy's arm. -/
lemma evaluateMisfiresBefore_of_missed {anchor : ℤ} {missed : List ℤ} {policy : MisfirePolicy}
    (hanchor : misfireAnchor store spec = .ok anchor) (hlt : anchor < horizon)
    (hdetect : detectMisfiresBefore cal spec anchor horizon store.getFire = .ok missed)
    (hne : missed ≠ []) (hpolicy : parseMisfirePolicy spec.misfirePolicy = .ok policy) :
    evaluateMisfiresBefore cal store spec horizon now =
      applyMisfirePolicy store.recordSkip spec now missed policy := by
  have hempty : missed.isEmpty = false := List.isEmpty_eq_false_iff.mpr hne
  simp only [evaluateMisfiresBefore, hanchor, hdetect, hpolicy, Failure.lift, Except.withContext,
    Except.mapError, Except.ok_bind, if_neg (not_le.mpr hlt), hempty, Bool.false_eq_true,
    if_false]

end Evaluate

/-- A minute-interval schedule with the policy `catch_up_bounded:3`, down for two and a half
minutes over an empty fire index: the scan returns the two missed boundaries, and the evaluation
panics at the slice `&missed[3..]`. -/
theorem catch_up_bounded_past_missed_fires_panics :
    let cal : Calendar := ⟨fun _ => none, fun _ _ _ => .ok none, fun _ _ _ _ => none⟩
    let spec : ScheduleSpecRecord :=
      { scheduleId := "nightly", scheduleType := "interval", expression := "60",
        timezone := "UTC", misfirePolicy := "catch_up_bounded:3", latenessGraceSecs := 60,
        enabled := true, specHash := "", registeredAt := 0 }
    let store : MisfireStore :=
      ⟨fun _ => .ok none, fun _ => .ok none, fun _ => .ok (), fun _ => .ok none,
        fun _ _ _ => .ok ()⟩
    parseMisfirePolicy spec.misfirePolicy = .ok (.catchUpBounded 3) ∧
    detectMisfiresBefore cal spec 0 150000 store.getFire = .ok [60000, 120000] ∧
    evaluateMisfiresBefore cal store spec 150000 150000 =
      .error (.panic "range start index 3 out of range for slice of length 2") := by
  intro cal spec store
  have hpolicy : parseMisfirePolicy spec.misfirePolicy = .ok (.catchUpBounded 3) := by decide
  -- the scan is the interval scan over an empty index
  have hdetect : detectMisfiresBefore cal spec 0 150000 store.getFire = .ok [60000, 120000] := by
    rw [detectMisfiresBefore_interval rfl (by decide : parseI64 "60" = some 60) (by norm_num)
      fun _ _ _ => rfl]
    rfl
  refine ⟨hpolicy, hdetect, ?_⟩
  rw [evaluateMisfiresBefore_of_missed rfl (by norm_num) hdetect (by simp) hpolicy,
    applyMisfirePolicy_catchUpBounded_of_lt (by simp)]
  rfl

end Ryeos.Scheduler
