import Ryeos.Chain.Closure

/-!
# The authoritative history of a chain: `chain/validation.rs`

`validate_authoritative_history_with_cas` accepts a target head only if the whole signed history
behind it is legal.  It checks the target's closure, walks `prev_chain_state_hash` back to the
genesis head, checks the genesis head, and then checks every boundary from the genesis forwards
as a local transition: the chain and every thread only advance along the closure's events, no
thread disappears, a thread that keeps its snapshot keeps its status, a thread that publishes a
new one makes a legal status step and keeps its immutable fields, and a new thread starts
created.

* `historyWalk` — the backward walk, over a finite store;
* `validateChainStateTransition` — one boundary;
* `validateAuthoritativeHistoryWithCas` — the whole check.
-/

namespace Ryeos.Chain

open Ryeos

variable {T : Type} [LinearOrder T] (codec : ChainCodec T) (store : ChainStore)

/-! ## Snapshots -/

/-- The fields of a snapshot that no later version of its thread may change. -/
structure SnapshotIdentity where
  schema : ℕ
  kind : String
  threadId : String
  chainRootId : String
  kindName : String
  itemRef : String
  executorRef : String
  launchMode : String
  originSiteId : String
  upstreamThreadId : Option String
  requestedBy : Option String
  projectRoot : Option String
  projectAuthority : String
  capturedHistoryPolicy : Option String
  createdAt : String
  baseProjectSnapshotHash : Option String
  deriving DecidableEq, Repr

/-- The immutable fields of a snapshot. -/
def ThreadSnapshot.identity (s : ThreadSnapshot) : SnapshotIdentity :=
  ⟨s.schema, s.kind, s.threadId, s.chainRootId, s.kindName, s.itemRef, s.executorRef,
    s.launchMode, s.originSiteId, s.upstreamThreadId, s.requestedBy, s.projectRoot,
    s.projectAuthority, s.capturedHistoryPolicy, s.createdAt, s.baseProjectSnapshotHash⟩

/-- `immutable!(field)`: a field the transition may not change. -/
def immutableField {α : Type} [DecidableEq α] (field : String) (previous next : α) :
    Except String Unit :=
  Except.bailIf (previous ≠ next) s!"snapshot transition cannot change immutable field {field}"

/-- `validate_status_transition`: created may start running or end; running may end; an ended
thread never changes. -/
def validateStatusTransition (previous next : ThreadStatus) : Except String Unit :=
  let valid : Bool := match previous with
    | .created => next = .running || next.isTerminal
    | .running => next.isTerminal
    | _ => false
  let previousStatus := previous.asStr
  let nextStatus := next.asStr
  Except.bailIf (!valid) s!"illegal thread status transition: {previousStatus} -> {nextStatus}"

/-- `validate_snapshot_transition_identity`. -/
def validateSnapshotTransitionIdentity (previous next : ThreadSnapshot) : Except String Unit := do
  immutableField "schema" previous.schema next.schema
  immutableField "kind" previous.kind next.kind
  immutableField "thread_id" previous.threadId next.threadId
  immutableField "chain_root_id" previous.chainRootId next.chainRootId
  immutableField "kind_name" previous.kindName next.kindName
  immutableField "item_ref" previous.itemRef next.itemRef
  immutableField "executor_ref" previous.executorRef next.executorRef
  immutableField "launch_mode" previous.launchMode next.launchMode
  immutableField "origin_site_id" previous.originSiteId next.originSiteId
  immutableField "upstream_thread_id" previous.upstreamThreadId next.upstreamThreadId
  immutableField "requested_by" previous.requestedBy next.requestedBy
  immutableField "project_root" previous.projectRoot next.projectRoot
  immutableField "project_authority" previous.projectAuthority next.projectAuthority
  immutableField "captured_history_policy" previous.capturedHistoryPolicy
    next.capturedHistoryPolicy
  immutableField "created_at" previous.createdAt next.createdAt
  validateStatusTransition previous.status next.status
  Except.bailIf (previous.baseProjectSnapshotHash ≠ next.baseProjectSnapshotHash)
    "base_project_snapshot_hash is a project-authority projection and is immutable"
  let left := previous.resultProjectSnapshotHash
  let right := next.resultProjectSnapshotHash
  Except.bailIf (left ≠ right ∧ ¬ (left.isNone ∧ right.isSome ∧ next.status.isTerminal))
    ("result_project_snapshot_hash may only be established by a terminal transition and is " ++
      "immutable afterwards")
  Except.bailIf (previous.startedAt.isSome ∧ previous.startedAt ≠ next.startedAt)
    "snapshot transition cannot change or clear started_at once established"

/-- `validate_historical_snapshot_transition`: a thread's new snapshot is a legal successor of
its old one, published with an event append no later than it. -/
def validateHistoricalSnapshotTransition (previous next : ThreadSnapshot)
    (appendedThrough : Option String) : Except String Unit := do
  let appended ← appendedThrough.okOr "existing thread snapshot changed without an event append"
  validateSnapshotTransitionIdentity previous next
  codec.validateSnapshot next
  let previousUpdatedAt ← codec.parseCanonicalTimestamp previous.updatedAt
  let nextUpdatedAt ← codec.parseCanonicalTimestamp next.updatedAt
  Except.bailIf (nextUpdatedAt < previousUpdatedAt) "snapshot updated_at moved backwards"
  match previous.startedAt, next.startedAt with
  | none, some startedAt => do
    let startedAt ← codec.parseCanonicalTimestamp startedAt
    Except.bailIf (startedAt < previousUpdatedAt)
      "new snapshot started_at precedes its predecessor update"
  | _, _ => pure ()
  let appendedThrough ← codec.parseCanonicalTimestamp appended
  Except.bailIf (nextUpdatedAt < appendedThrough)
    "snapshot updated_at precedes its publishing event append"
  match next.finishedAt with
  | some finishedAt => do
    let finishedAt ← codec.parseCanonicalTimestamp finishedAt
    Except.bailIf (finishedAt < previousUpdatedAt ∨ finishedAt < appendedThrough)
      "snapshot finished_at precedes its predecessor or publishing append"
  | none => pure ()

/-- `validate_new_thread_project_snapshots`. -/
def validateNewThreadProjectSnapshots (snapshot : ThreadSnapshot)
    (continuationSource : Option String) : Except String Unit := do
  Except.bailIf snapshot.resultProjectSnapshotHash.isSome
    "new created snapshot cannot carry a result project snapshot hash"
  match snapshot.baseProjectSnapshotHash, continuationSource with
  | some _, some source =>
    let upstream := debugOptionalHash snapshot.upstreamThreadId
    Except.bailIf (snapshot.upstreamThreadId ≠ some source)
      s!"continuation successor upstream {upstream} does not match continuation source {source}"
  | _, _ => pure ()

/-- `validate_new_thread_snapshot`: a new thread starts created. -/
def validateNewThreadSnapshot (snapshot : ThreadSnapshot) (continuationSource : Option String) :
    Except String Unit := do
  Except.bailIf (snapshot.status ≠ .created) "new authoritative thread must begin in created status"
  validateNewThreadProjectSnapshots snapshot continuationSource

/-- `validate_snapshot_event_position`. -/
def validateSnapshotEventPosition (snapshot : ThreadSnapshot)
    (events : List (String × EventPosition)) : Except String Unit :=
  match snapshot.lastEventHash with
  | none => .ok ()
  | some hash => do
    let event ← (events.lookup hash).okOr s!"snapshot references event {hash} outside chain history"
    Except.bailIf (event.threadId ≠ snapshot.threadId ∨
        event.threadSequence ≠ snapshot.lastThreadSeq ∨ event.chainSequence > snapshot.lastChainSeq)
      s!"snapshot event identity or position mismatch at {hash}"

/-- `validate_published_snapshot`: the snapshot an entry publishes sits exactly at the entry's
position. -/
def validatePublishedSnapshot (state : ChainState) (threadId : String) (entry : ChainThreadEntry)
    (snapshot : ThreadSnapshot) (events : List (String × EventPosition)) : Except String Unit := do
  validateStoredSnapshot codec state threadId entry snapshot
  Except.bailIf (snapshot.lastChainSeq ≠ state.lastChainSeq ∨
      snapshot.lastThreadSeq ≠ entry.lastThreadSeq ∨ snapshot.lastEventHash ≠ entry.lastEventHash)
    s!"new snapshot for thread {threadId} does not carry its exact publication position"
  let snapshotUpdatedAt ← codec.parseCanonicalTimestamp snapshot.updatedAt
  let stateUpdatedAt ← codec.parseCanonicalTimestamp state.updatedAt
  Except.bailIf (snapshotUpdatedAt > stateUpdatedAt)
    s!"snapshot for thread {threadId} exceeds its publishing ChainState time"
  validateSnapshotEventPosition snapshot events

/-- `validate_entry_event_position`. -/
def validateEntryEventPosition (state : ChainState) (threadId : String) (entry : ChainThreadEntry)
    (events : List (String × EventPosition)) : Except String Unit :=
  match entry.lastEventHash with
  | none => .ok ()
  | some hash => do
    let event ← (events.lookup hash).okOr
      s!"thread {threadId} entry references event {hash} outside chain history"
    Except.bailIf (event.threadId ≠ threadId ∨ event.threadSequence ≠ entry.lastThreadSeq ∨
        event.chainSequence > state.lastChainSeq)
      s!"thread {threadId} entry event position mismatch at {hash}"

/-! ## Event advances -/

/-- `EventHistory`: the chain's history, or one thread's. -/
inductive EventHistory where
  | chain
  | thread (threadId : String)
  deriving DecidableEq, Repr

/-- The loop of `validate_event_advance`: `count` rounds back from `sequence`, each reading the
event under the current hash from the closure; returns the hash reached and the newest and
oldest timestamps read. -/
def advanceLoop (events : List (String × EventPosition)) (history : EventHistory) :
    ℕ → ℕ → Option String → Option String → Option String →
      Except String (Option String × Option String × Option String)
  | 0, _, hash, newest, oldest => .ok (hash, newest, oldest)
  | count + 1, sequence, hash, newest, _ => do
    let currentHash ← hash.okOr s!"event history ended before sequence {sequence}"
    let event ← (events.lookup currentHash).okOr
      s!"event {currentHash} is outside the authoritative chain history"
    let (actualSequence, predecessor) ← match history with
      | .chain => pure (event.chainSequence, event.prevChainHash)
      | .thread threadId => do
        let other := event.threadId
        Except.bailIf (other ≠ threadId)
          s!"thread {threadId} history crosses into thread {other} at {currentHash}"
        pure (event.threadSequence, event.prevThreadHash)
    Except.bailIf (actualSequence ≠ sequence)
      s!"event {currentHash} sequence mismatch: expected {sequence}, got {actualSequence}"
    let newest := if newest.isNone then some event.timestamp else newest
    advanceLoop events history count (sequence - 1) predecessor newest (some event.timestamp)

/-- `validate_event_advance`: a history only moves forward, along the closure's events, from
the previous position to the next; returns the oldest and newest appended timestamps. -/
def validateEventAdvance (events : List (String × EventPosition)) (history : EventHistory)
    (previousHash : Option String) (previousSequence : ℕ) (nextHash : Option String)
    (nextSequence : ℕ) : Except String (Option (String × String)) := do
  Except.bailIf (nextSequence < previousSequence) "event sequence moved backwards"
  if nextSequence = previousSequence then
    Except.bailIf (nextHash ≠ previousHash) "event hash changed without advancing its sequence"
    return none
  let (hash, newest, oldest) ← advanceLoop events history (nextSequence - previousSequence)
    nextSequence nextHash none none
  Except.bailIf (hash ≠ previousHash) "event advance does not join the predecessor history"
  -- a positive advance reads at least one event, so both timestamps are present
  return some (oldest.getD "", newest.getD "")

/-! ## Heads -/

/-- `validate_genesis_state`: the first head has no predecessor, only its root thread, which is
new, and either no event or exactly the root's own first events. -/
def validateGenesisState (state : ChainState) (events : List (String × EventPosition)) :
    Except String Unit := do
  Except.bailIf state.prevChainStateHash.isSome "genesis ChainState has a predecessor"
  Except.bailIf (state.threads.length ≠ 1) "genesis ChainState must contain only its root thread"
  -- `ChainState::validate` has checked that the root entry exists
  let entry ← (state.entry state.chainRootId).okOr "ChainState::validate requires its root entry"
  let snapshot ← store.loadSnapshot entry.snapshotHash
  validatePublishedSnapshot codec state state.chainRootId entry snapshot events
  validateNewThreadSnapshot snapshot none
  if state.lastChainSeq = 0 then
    Except.bailIf state.lastEventHash.isSome "zero-event genesis ChainState carries an event hash"
    return ()
  Except.bailIf (entry.lastThreadSeq ≠ state.lastChainSeq ∨ entry.lastEventHash ≠ state.lastEventHash)
    "historical event-bearing genesis must contain one root-only event history"
  let lastHash ← state.lastEventHash.okOr "positive chain sequence requires an event hash"
  let lastEvent ← (events.lookup lastHash).okOr
    "authoritative closure validation loaded the final event"
  Except.bailIf (lastEvent.threadId ≠ state.chainRootId ∨
      lastEvent.threadSequence ≠ state.lastChainSeq)
    "historical event-bearing genesis must contain only contiguous root events"
  let snapshotUpdatedAt ← codec.parseCanonicalTimestamp snapshot.updatedAt
  let lastEventAt ← codec.parseCanonicalTimestamp lastEvent.timestamp
  Except.bailIf (snapshotUpdatedAt < lastEventAt)
    "historical genesis snapshot predates its final initial event"

/-- The thread round of `validate_chain_state_transition`, for a thread of the next head. -/
def validateThreadTransition (previous next : ChainState) (threadId : String)
    (nextEntry : ChainThreadEntry) (events : List (String × EventPosition))
    (appendedTimes : Option (String × String)) : Except String Unit := do
  validateEntryEventPosition next threadId nextEntry events
  match previous.entry threadId with
  | none => do
    let _ ← validateEventAdvance events (.thread threadId) none 0 nextEntry.lastEventHash
      nextEntry.lastThreadSeq
    let snapshot ← store.loadSnapshot nextEntry.snapshotHash
    validatePublishedSnapshot codec next threadId nextEntry snapshot events
    let continuationSource :=
      (match snapshot.baseProjectSnapshotHash with
        | some _ => snapshot.upstreamThreadId
        | none => none).filter fun source => (previous.entry source).isSome
    validateNewThreadSnapshot snapshot continuationSource
  | some previousEntry => do
    let _ ← validateEventAdvance events (.thread threadId) previousEntry.lastEventHash
      previousEntry.lastThreadSeq nextEntry.lastEventHash nextEntry.lastThreadSeq
    if previousEntry.snapshotHash = nextEntry.snapshotHash then
      Except.bailIf (previousEntry.status ≠ nextEntry.status)
        s!"thread {threadId} changed status without publishing a new snapshot"
    else
      let previousSnapshot ← store.loadSnapshot previousEntry.snapshotHash
      let nextSnapshot ← store.loadSnapshot nextEntry.snapshotHash
      validatePublishedSnapshot codec next threadId nextEntry nextSnapshot events
      validateHistoricalSnapshotTransition codec previousSnapshot nextSnapshot
        (appendedTimes.map (·.2))

/-- The appended chain events of a boundary lie between the two heads' times. -/
def validateAppendedTimes (previousUpdatedAt nextUpdatedAt : T) :
    Option (String × String) → Except String Unit
  | some (oldest, newest) => do
    let oldest ← codec.parseCanonicalTimestamp oldest
    Except.bailIf (oldest < previousUpdatedAt)
      "new chain events precede the previous ChainState timestamp"
    let newest ← codec.parseCanonicalTimestamp newest
    Except.bailIf (newest > nextUpdatedAt) "new chain events exceed the successor ChainState timestamp"
  | none => .ok ()

/-- `validate_chain_state_transition`: one boundary of the history. -/
def validateChainStateTransition (previousHash : String) (previous : ChainState)
    (nextHash : String) (next : ChainState) (events : List (String × EventPosition)) :
    Except String Unit := do
  Except.bailIf (next.prevChainStateHash ≠ some previousHash)
    s!"ChainState {nextHash} does not name {previousHash} as its direct predecessor"
  Except.bailIf (next.schema ≠ previous.schema ∨ next.kind ≠ previous.kind ∨
      next.chainRootId ≠ previous.chainRootId)
    "ChainState transition changed immutable chain identity"
  let previousUpdatedAt ← codec.parseCanonicalTimestamp previous.updatedAt
  let nextUpdatedAt ← codec.parseCanonicalTimestamp next.updatedAt
  Except.bailIf (nextUpdatedAt < previousUpdatedAt) "ChainState updated_at moved backwards"
  let appendedTimes ← validateEventAdvance events .chain previous.lastEventHash
    previous.lastChainSeq next.lastEventHash next.lastChainSeq
  validateAppendedTimes codec previousUpdatedAt nextUpdatedAt appendedTimes
  previous.threads.forM fun (threadId, _) =>
    Except.bailIf (next.entry threadId).isNone s!"ChainState transition removed thread {threadId}"
  next.threads.forM fun (threadId, nextEntry) =>
    validateThreadTransition codec store previous next threadId nextEntry events appendedTimes

/-! ## The history -/

/-- The backward walk of `validate_authoritative_history_with_cas_and_check`: from the target,
follow `prev_chain_state_hash`, validating each head, and list the hashes newest first.  Each
round visits a new stored head, so the store's size bounds the rounds. -/
def historyWalk (chainRootId : String) :
    ℕ → Option String → List String → List String → Except String (List String)
  | _, none, _, newestToOldest => .ok newestToOldest
  | 0, some hash, _, _ => .error s!"cycle in ChainState history at {hash}"
  | fuel + 1, some hash, visited, newestToOldest => do
    Except.bailIf (hash ∈ visited) s!"cycle in ChainState history at {hash}"
    let state ← Except.withContext s!"load historical ChainState {hash}"
      (store.loadChainState hash)
    state.validate codec
    validateChainPositions codec state
    let stateRoot := state.chainRootId
    Except.bailIf (stateRoot ≠ chainRootId)
      s!"historical ChainState {hash} belongs to {stateRoot}, not {chainRootId}"
    historyWalk chainRootId fuel state.prevChainStateHash (hash :: visited)
      (newestToOldest ++ [hash])

/-- The forward loop: each head after the genesis is a legal transition from the one before. -/
def validateTransitions (events : List (String × EventPosition)) :
    String → ChainState → List String → Except String Unit
  | _, _, [] => .ok ()
  | previousHash, previous, nextHash :: rest => do
    let next ← store.loadChainState nextHash
    Except.withContext s!"invalid ChainState transition {previousHash} -> {nextHash}"
      (validateChainStateTransition codec store previousHash previous nextHash next events)
    validateTransitions events nextHash next rest

/-- The target must advance from the expected head: it is on the walked history. -/
def checkExpectedAncestor (targetHash : String) (expectedAncestor : Option String)
    (newestToOldest : List String) : Except String Unit :=
  match expectedAncestor with
  | some expected =>
    Except.bailIf (expected ∉ newestToOldest)
      s!"target ChainState {targetHash} does not advance from expected current head {expected}"
  | none => .ok ()

/-- `validate_authoritative_history_with_cas`: the target's closure is valid, its history walks
back to a genesis head without a cycle, the expected ancestor (if any) is on it, and from the
genesis every boundary is a legal transition. -/
def validateAuthoritativeHistoryWithCas (chainRootId targetHash : String)
    (expectedAncestor : Option String) : Except String Unit := do
  let target ← store.loadChainState targetHash
  let targetRoot := target.chainRootId
  Except.bailIf (targetRoot ≠ chainRootId)
    s!"target chain root mismatch: expected {chainRootId}, got {targetRoot}"
  let eventPositions ← validateAuthoritativeClosure codec store target
  let newestToOldest ← historyWalk codec store chainRootId (store.chainStateHashes.length + 1)
    (some targetHash) [] []
  checkExpectedAncestor targetHash expectedAncestor newestToOldest
  let oldestToNewest := newestToOldest.reverse
  let genesisHash ← oldestToNewest.head?.okOr s!"empty ChainState history for target {targetHash}"
  let genesis ← store.loadChainState genesisHash
  Except.withContext s!"invalid genesis ChainState {genesisHash}"
    (validateGenesisState codec store genesis eventPositions)
  validateTransitions codec store eventPositions genesisHash genesis oldestToNewest.tail

/-! ## The thread lifecycle -/

/-- One step of a thread's life: a created thread starts running, a running one ends. -/
inductive StatusStep : ThreadStatus → ThreadStatus → Prop
  | start : StatusStep .created .running
  | finish {status : ThreadStatus} : status.isTerminal = true → StatusStep .running status

/-- **A legal status change is a walk along the lifecycle from a live status.** -/
lemma validateStatusTransition_eq_ok {previous next : ThreadStatus}
    (h : validateStatusTransition previous next = .ok ()) :
    Relation.TransGen StatusStep previous next ∧ previous.isTerminal = false := by
  cases previous with
  | created =>
    simp only [validateStatusTransition, Except.bailIf_eq_ok, Bool.not_eq_true',
      Bool.not_eq_false, Bool.or_eq_true, decide_eq_true_eq] at h
    refine ⟨?_, rfl⟩
    rcases h with rfl | hterminal
    · exact .single .start
    · exact .tail (.single .start) (.finish hterminal)
  | running =>
    simp only [validateStatusTransition, Except.bailIf_eq_ok, Bool.not_eq_true',
      Bool.not_eq_false] at h
    exact ⟨.single (.finish h), rfl⟩
  | _ => simp [validateStatusTransition] at h

lemma validateSnapshotTransitionIdentity_eq_ok {previous next : ThreadSnapshot}
    (h : validateSnapshotTransitionIdentity previous next = .ok ()) :
    previous.identity = next.identity ∧ validateStatusTransition previous.status next.status = .ok () := by
  simp only [validateSnapshotTransitionIdentity, immutableField, Except.bind_eq_ok,
    Except.bailIf_eq_ok, not_not, exists_const] at h
  obtain ⟨h1, h2, h3, h4, h5, h6, h7, h8, h9, h10, h11, h12, h13, h14, h15, ⟨⟩, hstatus, h16, -⟩ := h
  exact ⟨by simp [ThreadSnapshot.identity, *], hstatus⟩

lemma validateHistoricalSnapshotTransition_identity {previous next : ThreadSnapshot}
    {appendedThrough : Option String}
    (h : validateHistoricalSnapshotTransition codec previous next appendedThrough = .ok ()) :
    validateSnapshotTransitionIdentity previous next = .ok () := by
  simp only [validateHistoricalSnapshotTransition, Except.bind_eq_ok] at h
  obtain ⟨_, -, ⟨⟩, hidentity, -⟩ := h
  exact hidentity

omit [LinearOrder T] in
lemma validateStoredSnapshot_status {state : ChainState} {threadId : String}
    {entry : ChainThreadEntry} {snapshot : ThreadSnapshot}
    (h : validateStoredSnapshot codec state threadId entry snapshot = .ok ()) :
    snapshot.status = entry.status := by
  simp only [validateStoredSnapshot, Except.bind_eq_ok, Except.bailIf_eq_ok, not_not,
    exists_const] at h
  obtain ⟨_, -, -, -, hstatus, -⟩ := h
  exact hstatus

lemma validatePublishedSnapshot_status {state : ChainState} {threadId : String}
    {entry : ChainThreadEntry} {snapshot : ThreadSnapshot}
    {events : List (String × EventPosition)}
    (h : validatePublishedSnapshot codec state threadId entry snapshot events = .ok ()) :
    snapshot.status = entry.status := by
  simp only [validatePublishedSnapshot, Except.bind_eq_ok] at h
  obtain ⟨⟨⟩, hstored, -⟩ := h
  exact validateStoredSnapshot_status codec hstored

lemma validateNewThreadSnapshot_status {snapshot : ThreadSnapshot} {source : Option String}
    (h : validateNewThreadSnapshot snapshot source = .ok ()) : snapshot.status = .created := by
  simp only [validateNewThreadSnapshot, Except.bind_eq_ok, Except.bailIf_eq_ok, not_not,
    exists_const] at h
  exact h.1

/-- A history never moves back. -/
lemma validateEventAdvance_le {events : List (String × EventPosition)} {history : EventHistory}
    {previousHash nextHash : Option String} {previousSequence nextSequence : ℕ}
    {result : Option (String × String)}
    (h : validateEventAdvance events history previousHash previousSequence nextHash nextSequence =
      .ok result) : previousSequence ≤ nextSequence := by
  simp only [validateEventAdvance, Except.bind_eq_ok, Except.bailIf_eq_ok, not_lt] at h
  obtain ⟨_, hle, -⟩ := h
  exact hle

/-! ## One boundary -/

/-- **A thread of the previous head**: its sequence only grows, and either it keeps its snapshot
and status, or it publishes a new snapshot, at the entry's status, that is a legal successor of
the old one. -/
lemma validateThreadTransition_existing {previous next : ChainState} {threadId : String}
    {nextEntry previousEntry : ChainThreadEntry} {events : List (String × EventPosition)}
    {appendedTimes : Option (String × String)}
    (h : validateThreadTransition codec store previous next threadId nextEntry events
      appendedTimes = .ok ())
    (hprev : previous.entry threadId = some previousEntry) :
    previousEntry.lastThreadSeq ≤ nextEntry.lastThreadSeq ∧
    ((previousEntry.snapshotHash = nextEntry.snapshotHash ∧
        previousEntry.status = nextEntry.status) ∨
      ∃ previousSnapshot nextSnapshot,
        store.loadSnapshot previousEntry.snapshotHash = .ok previousSnapshot ∧
        store.loadSnapshot nextEntry.snapshotHash = .ok nextSnapshot ∧
        nextSnapshot.status = nextEntry.status ∧
        validateSnapshotTransitionIdentity previousSnapshot nextSnapshot = .ok ()) := by
  simp only [validateThreadTransition, hprev, Except.bind_eq_ok] at h
  obtain ⟨⟨⟩, -, _, hadvance, hsnapshot⟩ := h
  refine ⟨validateEventAdvance_le hadvance, ?_⟩
  split_ifs at hsnapshot with hsame
  · simp only [Except.bailIf_eq_ok, not_not] at hsnapshot
    exact .inl ⟨hsame, hsnapshot⟩
  · simp only [Except.bind_eq_ok] at hsnapshot
    obtain ⟨previousSnapshot, hprevLoad, nextSnapshot, hnextLoad, ⟨⟩, hpublished, hhistorical⟩ :=
      hsnapshot
    exact .inr ⟨previousSnapshot, nextSnapshot, hprevLoad, hnextLoad,
      validatePublishedSnapshot_status codec hpublished,
      validateHistoricalSnapshotTransition_identity codec hhistorical⟩

/-- **A thread new in the next head** publishes a snapshot at the entry's status, and starts
created. -/
lemma validateThreadTransition_new {previous next : ChainState} {threadId : String}
    {nextEntry : ChainThreadEntry} {events : List (String × EventPosition)}
    {appendedTimes : Option (String × String)}
    (h : validateThreadTransition codec store previous next threadId nextEntry events
      appendedTimes = .ok ())
    (hprev : previous.entry threadId = none) :
    ∃ snapshot, store.loadSnapshot nextEntry.snapshotHash = .ok snapshot ∧
      snapshot.status = nextEntry.status ∧ nextEntry.status = .created := by
  simp only [validateThreadTransition, hprev, Except.bind_eq_ok] at h
  obtain ⟨⟨⟩, -, _, -, snapshot, hload, ⟨⟩, hpublished, hnew⟩ := h
  have hstatus := validatePublishedSnapshot_status codec hpublished
  exact ⟨snapshot, hload, hstatus, hstatus ▸ validateNewThreadSnapshot_status hnew⟩

/-- Every entry of a head names a stored snapshot with the entry's status. -/
def SnapshotsAgree (state : ChainState) : Prop :=
  ∀ threadId entry, (threadId, entry) ∈ state.threads →
    ∃ snapshot, store.loadSnapshot entry.snapshotHash = .ok snapshot ∧ snapshot.status = entry.status

/-- What holds between an earlier head `S` and a later one `S'` of an accepted history: the
chain's sequence and time only grow, and every thread of `S` is in `S'` with a sequence that only
grew, a status reached along the lifecycle and kept once ended, and the same immutable snapshot
fields. -/
structure HeadAdvance (S S' : ChainState) : Prop where
  chainSeq : S.lastChainSeq ≤ S'.lastChainSeq
  updatedAt : ∃ u u', codec.parseCanonicalTimestamp S.updatedAt = .ok u ∧
    codec.parseCanonicalTimestamp S'.updatedAt = .ok u' ∧ u ≤ u'
  threads : ∀ threadId entry, (threadId, entry) ∈ S.threads →
    ∃ entry', (threadId, entry') ∈ S'.threads ∧
      entry.lastThreadSeq ≤ entry'.lastThreadSeq ∧
      Relation.ReflTransGen StatusStep entry.status entry'.status ∧
      (entry.status.isTerminal = true → entry'.status = entry.status) ∧
      ∃ snapshot snapshot', store.loadSnapshot entry.snapshotHash = .ok snapshot ∧
        store.loadSnapshot entry'.snapshotHash = .ok snapshot' ∧
        snapshot.identity = snapshot'.identity

/-- A thread that is not in `S` is created in `S'`. -/
def NewThreadsCreated (S S' : ChainState) : Prop :=
  ∀ threadId entry', (threadId, entry') ∈ S'.threads → S.entry threadId = none →
    entry'.status = .created

/-- **Advancing is transitive**, so it holds between any two heads of a history. -/
lemma HeadAdvance.trans {S₁ S₂ S₃ : ChainState} (h₁₂ : HeadAdvance codec store S₁ S₂)
    (h₂₃ : HeadAdvance codec store S₂ S₃) : HeadAdvance codec store S₁ S₃ where
  chainSeq := h₁₂.chainSeq.trans h₂₃.chainSeq
  updatedAt := by
    obtain ⟨u₁, u₂, hu₁, hu₂, h₁⟩ := h₁₂.updatedAt
    obtain ⟨u₂', u₃, hu₂', hu₃, h₂⟩ := h₂₃.updatedAt
    rw [hu₂, Except.ok.injEq] at hu₂'
    exact ⟨u₁, u₃, hu₁, hu₃, h₁.trans (hu₂' ▸ h₂)⟩
  threads := by
    intro threadId entry₁ hmem₁
    obtain ⟨entry₂, hmem₂, hseq₁, hstatus₁, hterminal₁, s₁, s₂, hs₁, hs₂, hid₁⟩ :=
      h₁₂.threads threadId entry₁ hmem₁
    obtain ⟨entry₃, hmem₃, hseq₂, hstatus₂, hterminal₂, s₂', s₃, hs₂', hs₃, hid₂⟩ :=
      h₂₃.threads threadId entry₂ hmem₂
    rw [hs₂, Except.ok.injEq] at hs₂'
    subst hs₂'
    refine ⟨entry₃, hmem₃, hseq₁.trans hseq₂, hstatus₁.trans hstatus₂, fun hterminal => ?_,
      s₁, s₃, hs₁, hs₃, hid₁.trans hid₂⟩
    rw [hterminal₂ (hterminal₁ hterminal ▸ hterminal), hterminal₁ hterminal]

instance : Trans (HeadAdvance codec store) (HeadAdvance codec store) (HeadAdvance codec store) :=
  ⟨HeadAdvance.trans codec store⟩

/-- **One boundary of an accepted history.**  A legal transition names its predecessor, advances
the head, creates its new threads, and keeps every entry in agreement with its snapshot. -/
lemma validateChainStateTransition_advance {previousHash nextHash : String}
    {previous next : ChainState} {events : List (String × EventPosition)}
    (h : validateChainStateTransition codec store previousHash previous nextHash next events =
      .ok ())
    (hagree : SnapshotsAgree store previous) :
    next.prevChainStateHash = some previousHash ∧ HeadAdvance codec store previous next ∧
      NewThreadsCreated previous next ∧ SnapshotsAgree store next := by
  simp only [validateChainStateTransition, Except.bind_eq_ok, Except.bailIf_eq_ok, not_not,
    not_lt, exists_const] at h
  obtain ⟨hlink, -, u, hu, u', hu', hle, appendedTimes, hadvance, _, -, ⟨⟩, hremoved,
    hthreads⟩ := h
  have hkept := Except.forM_eq_ok.mp hremoved
  have hnext := Except.forM_eq_ok.mp hthreads
  have hnew : NewThreadsCreated previous next := by
    intro threadId entry' hmem hprev
    obtain ⟨_, -, -, hcreated⟩ := validateThreadTransition_new codec store (hnext _ hmem) hprev
    exact hcreated
  refine ⟨hlink, ⟨validateEventAdvance_le hadvance, ⟨u, u', hu, hu', hle⟩, ?_⟩, hnew, ?_⟩
  · intro threadId entry hmem
    have hpresent : next.entry threadId ≠ none := by
      simpa [Except.bailIf_eq_ok] using hkept _ hmem
    obtain ⟨entry', hentry'⟩ := Option.ne_none_iff_exists'.mp hpresent
    have hmem' := ChainState.mem_of_entry hentry'
    obtain ⟨hseq, hcases⟩ := validateThreadTransition_existing codec store (hnext _ hmem')
      (ChainState.entry_of_mem hmem)
    obtain ⟨snapshot, hload, hstatus⟩ := hagree threadId entry hmem
    refine ⟨entry', hmem', hseq, ?_⟩
    rcases hcases with ⟨hsame, hsameStatus⟩ | ⟨previousSnapshot, nextSnapshot, hprevLoad,
      hnextLoad, hnextStatus, hidentity⟩
    · rw [← hsameStatus, ← hsame]
      exact ⟨.refl, fun _ => rfl, snapshot, snapshot, hload, hload, rfl⟩
    · rw [hload, Except.ok.injEq] at hprevLoad
      subst hprevLoad
      obtain ⟨hid, hstep⟩ := validateSnapshotTransitionIdentity_eq_ok hidentity
      obtain ⟨hreach, hlive⟩ := validateStatusTransition_eq_ok hstep
      rw [← hstatus, ← hnextStatus]
      refine ⟨hreach.to_reflTransGen, fun hterminal => ?_, snapshot, nextSnapshot, hload,
        hnextLoad, hid⟩
      rw [hlive] at hterminal
      cases hterminal
  · intro threadId entry' hmem
    cases hprev : previous.entry threadId with
    | none =>
      obtain ⟨snapshot, hload, hstatus, -⟩ :=
        validateThreadTransition_new codec store (hnext _ hmem) hprev
      exact ⟨snapshot, hload, hstatus⟩
    | some entry =>
      obtain ⟨-, hcases⟩ := validateThreadTransition_existing codec store (hnext _ hmem) hprev
      rcases hcases with ⟨hsame, hsameStatus⟩ | ⟨_, nextSnapshot, -, hnextLoad, hnextStatus, -⟩
      · obtain ⟨snapshot, hload, hstatus⟩ := hagree threadId entry (ChainState.mem_of_entry hprev)
        exact ⟨snapshot, hsame ▸ hload, hstatus.trans hsameStatus⟩
      · exact ⟨nextSnapshot, hnextLoad, hnextStatus⟩

/-- The genesis head has no predecessor, agrees with its snapshot, and holds only its root
thread, created. -/
lemma validateGenesisState_eq_ok {state : ChainState} {events : List (String × EventPosition)}
    (h : validateGenesisState codec store state events = .ok ()) :
    state.prevChainStateHash = none ∧ SnapshotsAgree store state ∧
      ∀ threadId entry, (threadId, entry) ∈ state.threads → entry.status = .created := by
  simp only [validateGenesisState, Except.bind_eq_ok, Except.bailIf_eq_ok,
    Option.not_isSome_iff_eq_none, Option.okOr_eq_ok, not_not, exists_const] at h
  obtain ⟨hnone, hlength, entry, hentry, snapshot, hload, ⟨⟩, hpublished, ⟨⟩, hnew, -⟩ := h
  have hstatus := validatePublishedSnapshot_status codec hpublished
  have hcreated := validateNewThreadSnapshot_status hnew
  have honly : ∀ threadId entry', (threadId, entry') ∈ state.threads → entry' = entry := by
    intro threadId entry' hmem
    obtain ⟨x, hx⟩ := List.length_eq_one_iff.mp hlength
    have hroot := ChainState.mem_of_entry hentry
    rw [hx, List.mem_singleton] at hmem hroot
    rw [← hroot] at hmem
    exact (Prod.ext_iff.mp hmem).2
  refine ⟨hnone, fun threadId entry' hmem => ?_, fun threadId entry' hmem => ?_⟩
  · rw [honly threadId entry' hmem]
    exact ⟨snapshot, hload, hstatus⟩
  · rw [honly threadId entry' hmem, ← hstatus, hcreated]

/-- `h`'s head names `p` as its predecessor. -/
def StateLink (hash : String) (prev : Option String) : Prop :=
  ∃ state, store.loadChainState hash = .ok state ∧ state.prevChainStateHash = prev

omit [LinearOrder T] in
/-- **The backward walk reads one linked history**: the heads it lists, newest first, are the
stored heads along `prev_chain_state_hash` from where it starts back to one with no
predecessor. -/
lemma historyWalk_eq_ok {chainRootId : String} :
    ∀ {fuel : ℕ} {current : Option String} {visited newestToOldest result : List String},
      historyWalk codec store chainRootId fuel current visited newestToOldest = .ok result →
      ∃ history : List (String × ChainState),
        result = newestToOldest ++ (history.map (·.1)).reverse ∧
        Linked (StateLink store) none current (history.map (·.1)) ∧
        ∀ p ∈ history, store.loadChainState p.1 = .ok p.2
  | fuel, none, _, newestToOldest, result, h => by
    cases fuel <;>
    · simp only [historyWalk, Except.ok.injEq] at h
      exact ⟨[], by simp [h], .nil, by simp⟩
  | 0, some hash, _, _, _, h => by simp [historyWalk] at h
  | fuel + 1, some hash, visited, newestToOldest, result, h => by
    simp only [historyWalk, Except.bind_eq_ok, Except.bailIf_eq_ok, Except.withContext_eq_ok,
      not_not, exists_const] at h
    obtain ⟨-, state, hload, ⟨⟩, -, ⟨⟩, -, -, hrest⟩ := h
    obtain ⟨history, rfl, hlinked, hloaded⟩ := historyWalk_eq_ok hrest
    refine ⟨history ++ [(hash, state)], by simp, ?_, ?_⟩
    · rw [List.map_append]
      exact hlinked.snoc ⟨state, hload, rfl⟩
    · intro p hp
      rcases List.mem_append.mp hp with hp | hp
      · exact hloaded p hp
      · rw [List.mem_singleton.mp hp]
        exact hload

/-- **The forward loop checks every boundary.**  From a head that agrees with its snapshots,
each later head is loaded from the store and is a legal transition from the one before. -/
lemma validateTransitions_eq_ok {events : List (String × EventPosition)} :
    ∀ {hashes : List String} {previousHash : String} {previous : ChainState},
      validateTransitions codec store events previousHash previous hashes = .ok () →
      SnapshotsAgree store previous →
      ∃ states, List.Forall₂ (fun hash state => store.loadChainState hash = .ok state) hashes
          states ∧
        (previous :: states).IsChain
          (fun S S' => HeadAdvance codec store S S' ∧ NewThreadsCreated S S')
  | [], _, previous, _, _ => ⟨[], .nil, .singleton previous⟩
  | nextHash :: rest, previousHash, previous, h, hagree => by
    simp only [validateTransitions, Except.bind_eq_ok, Except.withContext_eq_ok] at h
    obtain ⟨next, hload, ⟨⟩, htransition, hrest⟩ := h
    obtain ⟨-, hadvance, hnew, hagree'⟩ :=
      validateChainStateTransition_advance codec store htransition hagree
    obtain ⟨states, hloaded, hchain⟩ := validateTransitions_eq_ok hrest hagree'
    exact ⟨next :: states, .cons hload hloaded, .cons_cons ⟨hadvance, hnew⟩ hchain⟩

/-- Loading is a function of the hash: the heads a loop loaded are those of the history. -/
lemma states_eq_of_loaded {history : List (String × ChainState)} {states : List ChainState}
    (hloaded : ∀ p ∈ history, store.loadChainState p.1 = .ok p.2)
    (hstates : List.Forall₂ (fun hash state => store.loadChainState hash = .ok state)
      (history.map (·.1)) states) : states = history.map (·.2) := by
  induction history generalizing states with
  | nil => simpa using hstates
  | cons p history ih =>
    cases hstates with
    | cons hhead htail =>
      rw [hloaded p List.mem_cons_self, Except.ok.injEq] at hhead
      rw [← hhead, ih (fun q hq => hloaded q (List.mem_cons_of_mem p hq)) htail]
      rfl

omit [LinearOrder T] in
lemma checkExpectedAncestor_mem {targetHash : String} {expectedAncestor : Option String}
    {newestToOldest : List String}
    (h : checkExpectedAncestor targetHash expectedAncestor newestToOldest = .ok ()) :
    ∀ expected, expectedAncestor = some expected → expected ∈ newestToOldest := by
  rintro expected rfl
  simpa [checkExpectedAncestor] using h

theorem accepted_history_respects_thread_lifecycle {chainRootId targetHash : String}
    {expectedAncestor : Option String}
    (h : validateAuthoritativeHistoryWithCas codec store chainRootId targetHash expectedAncestor =
      .ok ()) :
    ∃ history : List (String × ChainState),
      (∀ p ∈ history, store.loadChainState p.1 = .ok p.2) ∧
      Linked (StateLink store) none (some targetHash) (history.map (·.1)) ∧
      (history.map (·.2)).Pairwise (HeadAdvance codec store) ∧
      (history.map (·.2)).IsChain NewThreadsCreated ∧
      (∀ genesis, (history.map (·.2)).head? = some genesis →
        ∀ threadId entry, (threadId, entry) ∈ genesis.threads → entry.status = .created) ∧
      (∀ expected, expectedAncestor = some expected → expected ∈ history.map (·.1)) := by
  simp only [validateAuthoritativeHistoryWithCas, Except.bind_eq_ok, Except.bailIf_eq_ok,
    Except.withContext_eq_ok, Option.okOr_eq_ok, not_not, exists_const] at h
  obtain ⟨_, -, -, _, -, newestToOldest, hwalk, ⟨⟩, hanchor, genesisHash, hgenesisHash, genesis,
    hgenesisLoad, ⟨⟩, hgenesis, htransitions⟩ := h
  obtain ⟨history, rfl, hlinked, hloaded⟩ := historyWalk_eq_ok codec store hwalk
  simp only [List.nil_append, List.reverse_reverse] at hgenesisHash htransitions hanchor
  -- the walked history starts at the genesis head the forward loop starts from
  obtain ⟨first, rest, rfl⟩ : ∃ first rest, history = first :: rest := by
    cases history with
    | nil => simp at hgenesisHash
    | cons first rest => exact ⟨first, rest, rfl⟩
  simp only [List.map_cons, List.head?_cons, Option.some.injEq, List.tail_cons] at *
  subst hgenesisHash
  rw [hloaded first List.mem_cons_self, Except.ok.injEq] at hgenesisLoad
  subst hgenesisLoad
  obtain ⟨-, hagree, hcreated⟩ := validateGenesisState_eq_ok codec store hgenesis
  obtain ⟨states, hstates, hchain⟩ := validateTransitions_eq_ok codec store htransitions hagree
  rw [states_eq_of_loaded store (fun p hp => hloaded p (List.mem_cons_of_mem first hp)) hstates]
    at hchain
  refine ⟨first :: rest, hloaded, hlinked, ?_, ?_, ?_, fun expected hexpected => ?_⟩
  · exact List.isChain_iff_pairwise.mp (hchain.imp fun _ _ hstep => hstep.1)
  · exact hchain.imp fun _ _ hstep => hstep.2
  · intro genesis hgenesis
    simp only [List.map_cons, List.head?_cons, Option.some.injEq] at hgenesis
    rw [← hgenesis]
    exact hcreated
  · exact List.mem_reverse.mp (checkExpectedAncestor_mem hanchor expected hexpected)

/-- The root thread's first snapshot: created, before any event. -/
def sampleGenesisSnapshot : ThreadSnapshot :=
  { sampleSnapshot with
    status := .created, startedAt := none, lastEventHash := none, lastChainSeq := 0,
    lastThreadSeq := 0 }

/-- A zero-event genesis head. -/
def sampleGenesis : ChainState where
  schema := 1
  kind := "chain_state"
  chainRootId := "T-root"
  prevChainStateHash := none
  lastEventHash := none
  lastChainSeq := 0
  updatedAt := "2026-01-01T00:00:00Z"
  threads := [("T-root", ⟨sampleHash 'f', none, 0, .created⟩)]
  threads_sorted := List.pairwise_singleton _ _

/-- The two-event head of the closure sample, published after the genesis head. -/
def sampleTarget : ChainState :=
  { sampleHead with prevChainStateHash := some (sampleHash 'd') }

/-- A store holding both heads, their snapshots and the two events. -/
def sampleHistoryStore : ChainStore where
  loadEvent := sampleStore.loadEvent
  loadSnapshot h :=
    if h = sampleHash 'a' then .ok sampleSnapshot
    else if h = sampleHash 'f' then .ok sampleGenesisSnapshot
    else .error s!"authoritative snapshot object {h} is absent"
  loadChainState h :=
    if h = sampleHash 'd' then .ok sampleGenesis
    else if h = sampleHash 'e' then .ok sampleTarget
    else .error s!"authoritative ChainState object {h} is absent"
  chainStateHashes := [sampleHash 'd', sampleHash 'e']
  loadChainState_mem h state hload := by
    by_cases hd : h = sampleHash 'd'
    · simp [hd]
    · by_cases he : h = sampleHash 'e'
      · simp [he]
      · simp [hd, he] at hload

theorem accepted_history_respects_thread_lifecycle_from_genesis :
    validateAuthoritativeHistoryWithCas sampleCodec sampleHistoryStore "T-root" (sampleHash 'e')
        (some (sampleHash 'd')) = .ok () ∧
    ∃ history : List (String × ChainState),
      (∀ p ∈ history, sampleHistoryStore.loadChainState p.1 = .ok p.2) ∧
      Linked (StateLink sampleHistoryStore) none (some (sampleHash 'e')) (history.map (·.1)) ∧
      (history.map (·.2)).Pairwise (HeadAdvance sampleCodec sampleHistoryStore) ∧
      (history.map (·.2)).IsChain NewThreadsCreated ∧
      (∀ genesis, (history.map (·.2)).head? = some genesis →
        ∀ threadId entry, (threadId, entry) ∈ genesis.threads → entry.status = .created) ∧
      (∀ expected, some (sampleHash 'd') = some expected → expected ∈ history.map (·.1)) :=
  have h : validateAuthoritativeHistoryWithCas sampleCodec sampleHistoryStore "T-root"
      (sampleHash 'e') (some (sampleHash 'd')) = .ok () := by
    decide
  ⟨h, accepted_history_respects_thread_lifecycle sampleCodec sampleHistoryStore h⟩

end Ryeos.Chain
