import Ryeos.Core.Result

/-!
# Authoritative chain objects: `ryeos-state/src/objects`

An execution chain is recorded in the CAS as three kinds of objects: `ThreadEvent`s, each naming
the previous event of the chain and of its thread by hash; `ThreadSnapshot`s, the published
state of one thread; and `ChainState`s, the signed heads, each naming the last event, the
previous head and, per thread, the current snapshot and last event.

The model keeps of each object the fields the validators read.  The library functions they call
are parameters (`ChainCodec`): `parse_canonical_timestamp` gives an instant in a linear order,
and the canonical-JSON size of an event and `ThreadSnapshot::validate` are taken as they are.
A CAS store is, for each kind, what loading a hash yields (`ChainStore`): the decoded object,
or the error of a missing, undecodable or non-canonical one.

Errors are `anyhow` chains, modelled as their text with each context in front
(`Except.withContext`).
-/

namespace Ryeos.Chain

/-- `ThreadStatus`. -/
inductive ThreadStatus where
  | created | running | completed | failed | cancelled | killed | timedOut | continued
  deriving DecidableEq, Repr

namespace ThreadStatus

/-- `ThreadStatus::as_str`. -/
def asStr : ThreadStatus → String
  | created => "created"
  | running => "running"
  | completed => "completed"
  | failed => "failed"
  | cancelled => "cancelled"
  | killed => "killed"
  | timedOut => "timed_out"
  | continued => "continued"

/-- `ThreadStatus::is_terminal`. -/
def isTerminal : ThreadStatus → Bool
  | created | running => false
  | completed | failed | cancelled | killed | timedOut | continued => true

end ThreadStatus

/-- `SCHEMA_VERSION`. -/
def schemaVersion : ℕ := 1

/-- `MAX_THREAD_EVENT_SERIALIZED_BYTES`. -/
def maxThreadEventSerializedBytes : ℕ := 512 * 1024

/-- `ChainThreadEntry`: one thread of a chain head. -/
structure ChainThreadEntry where
  snapshotHash : String
  lastEventHash : Option String
  lastThreadSeq : ℕ
  status : ThreadStatus
  deriving DecidableEq, Repr

/-- `ChainState`: a chain head.  The thread map is a `BTreeMap`: its entries are kept in strictly
increasing key order, which `threads_sorted` carries. -/
structure ChainState where
  schema : ℕ
  kind : String
  chainRootId : String
  prevChainStateHash : Option String
  lastEventHash : Option String
  lastChainSeq : ℕ
  updatedAt : String
  threads : List (String × ChainThreadEntry)
  threads_sorted : (threads.map (·.1)).Pairwise (· < ·)

/-- `ThreadEvent`, without its durability and payload, which the validators read only through
the event's canonical size. -/
structure ThreadEvent where
  schema : ℕ
  kind : String
  chainRootId : String
  chainSeq : ℕ
  threadId : String
  threadSeq : ℕ
  eventType : String
  ts : String
  prevChainEventHash : Option String
  prevThreadEventHash : Option String
  deriving DecidableEq, Repr

/-- `ThreadSnapshot`, with the fields the chain validators read.  `project_root`,
`project_authority` and `captured_history_policy` are compared only for equality, and are kept
as their canonical text. -/
structure ThreadSnapshot where
  schema : ℕ
  kind : String
  threadId : String
  chainRootId : String
  status : ThreadStatus
  kindName : String
  itemRef : String
  executorRef : String
  launchMode : String
  originSiteId : String
  upstreamThreadId : Option String
  requestedBy : Option String
  projectRoot : Option String
  projectAuthority : String
  capturedHistoryPolicy : Option String
  baseProjectSnapshotHash : Option String
  resultProjectSnapshotHash : Option String
  createdAt : String
  updatedAt : String
  startedAt : Option String
  finishedAt : Option String
  lastEventHash : Option String
  lastChainSeq : ℕ
  lastThreadSeq : ℕ
  deriving DecidableEq, Repr

/-- `state.threads.get(thread_id)`. -/
def ChainState.entry (state : ChainState) (threadId : String) : Option ChainThreadEntry :=
  (state.threads.find? (·.1 = threadId)).map (·.2)

/-- The library functions the chain validators call. -/
structure ChainCodec (T : Type) where
  /-- `parse_canonical_timestamp`: the instant a canonical UTC timestamp names. -/
  parseCanonicalTimestamp : String → Except String T
  /-- `lillux::canonical_json(&event.to_value())?.len()`. -/
  eventSerializedBytes : ThreadEvent → Except String ℕ
  /-- `ThreadSnapshot::validate`. -/
  validateSnapshot : ThreadSnapshot → Except String Unit

/-- What a CAS store yields for a hash: `load_hashed_event`, `load_hashed_snapshot` and
`load_hashed_chain_state`.  The store is finite: it holds chain states under finitely many
hashes. -/
structure ChainStore where
  loadEvent : String → Except String ThreadEvent
  loadSnapshot : String → Except String ThreadSnapshot
  loadChainState : String → Except String ChainState
  chainStateHashes : List String
  loadChainState_mem : ∀ hash state, loadChainState hash = .ok state → hash ∈ chainStateHashes

variable {T : Type} (codec : ChainCodec T)

/-- `u8::is_ascii_hexdigit`. -/
def isAsciiHexdigit (c : Char) : Bool :=
  ('0' ≤ c && c ≤ '9') || ('a' ≤ c && c ≤ 'f') || ('A' ≤ c && c ≤ 'F')

/-- `lillux::valid_hash`: 64 bytes, all hexadecimal digits. -/
def validHash (s : String) : Bool :=
  s.utf8ByteSize == 64 && s.toList.all isAsciiHexdigit

/-- `validate_canonical_hash`: a valid hash with no uppercase digit. -/
def validateCanonicalHash (label value : String) : Except String Unit :=
  if !validHash value || value.toList.any Char.isUpper then
    .error s!"{label} is not a canonical lowercase hash: {value}"
  else .ok ()

/-- `validate_object_kind`. -/
def validateObjectKind (kind expected : String) : Except String Unit :=
  if kind ≠ expected then .error s!"object kind mismatch: expected '{expected}', got '{kind}'"
  else .ok ()

/-- `validate_canonical_hash` on an optional hash. -/
def validateOptionalHash (label : String) : Option String → Except String Unit
  | some hash => validateCanonicalHash label hash
  | none => .ok ()

/-- `ChainThreadEntry::validate`. -/
def ChainThreadEntry.validate (entry : ChainThreadEntry) : Except String Unit := do
  Except.bailIf entry.snapshotHash.isEmpty "snapshot_hash must not be empty"
  validateCanonicalHash "snapshot_hash" entry.snapshotHash
  validateOptionalHash "last_event_hash" entry.lastEventHash

/-- `ChainState::validate`. -/
def ChainState.validate (state : ChainState) : Except String Unit := do
  validateObjectKind state.kind "chain_state"
  Except.bailIf (state.schema ≠ schemaVersion) s!"unexpected schema version: {state.schema}"
  Except.bailIf state.chainRootId.isEmpty "chain_root_id must not be empty"
  validateOptionalHash "prev_chain_state_hash" state.prevChainStateHash
  validateOptionalHash "last_event_hash" state.lastEventHash
  let _ ← (codec.parseCanonicalTimestamp state.updatedAt).mapError
    fun error => s!"invalid chain state updated_at: {error}"
  state.threads.forM fun (threadId, entry) => do
    Except.bailIf threadId.isEmpty "thread_id in threads map must not be empty"
    let context := s!"invalid thread entry for '{threadId}'"
    Except.withContext context entry.validate
  let rootId := state.chainRootId
  Except.bailIf (state.entry rootId).isNone s!"chain_root_id '{rootId}' must exist in threads map"

/-- `ThreadEvent::validate`. -/
def ThreadEvent.validate (event : ThreadEvent) : Except String Unit := do
  validateObjectKind event.kind "thread_event"
  Except.bailIf (event.schema ≠ schemaVersion) s!"unexpected schema version: {event.schema}"
  Except.bailIf event.chainRootId.isEmpty "chain_root_id must not be empty"
  Except.bailIf event.threadId.isEmpty "thread_id must not be empty"
  Except.bailIf event.eventType.isEmpty "event_type must not be empty"
  let _ ← (codec.parseCanonicalTimestamp event.ts).mapError
    fun error => s!"invalid thread event ts: {error}"
  validateOptionalHash "prev_chain_event_hash" event.prevChainEventHash
  validateOptionalHash "prev_thread_event_hash" event.prevThreadEventHash
  let serializedBytes ←
    Except.withContext "failed to canonicalize thread event" (codec.eventSerializedBytes event)
  let maxBytes := maxThreadEventSerializedBytes
  Except.bailIf (serializedBytes > maxBytes)
    s!"thread event is {serializedBytes} serialized bytes (max {maxBytes})"

/-! ## Sequence and link checks -/

/-- `validate_predecessor_link`: sequence one has no predecessor, every later one has one. -/
def validatePredecessorLink (label : String) (sequence : ℕ) (predecessor : Option String) :
    Except String Unit :=
  match sequence, predecessor with
  | 1, none | _ + 2, some _ => .ok ()
  | 0, _ => .error s!"{label} has sequence zero"
  | 1, some _ => .error s!"{label} sequence one has a predecessor"
  | sequence, none => .error s!"{label} sequence {sequence} is missing its predecessor"

/-- `validate_hash_sequence_pair`: an event hash exactly when the sequence is positive. -/
def validateHashSequencePair (label : String) (sequence : ℕ) (lastEventHash : Option String) :
    Except String Unit :=
  match sequence, lastEventHash with
  | 0, none | _ + 1, some _ => .ok ()
  | 0, some _ => .error s!"{label} has an event hash at sequence zero"
  | sequence, none => .error s!"{label} is missing its event hash at sequence {sequence}"

/-- `validate_chain_positions`. -/
def validateChainPositions (state : ChainState) : Except String Unit := do
  validateHashSequencePair "chain" state.lastChainSeq state.lastEventHash
  let _ ← Except.withContext "invalid chain_state.updated_at"
    (codec.parseCanonicalTimestamp state.updatedAt)
  state.threads.forM fun (threadId, entry) => do
    validateHashSequencePair s!"thread {threadId}" entry.lastThreadSeq entry.lastEventHash
    let seq := entry.lastThreadSeq
    let chainSeq := state.lastChainSeq
    Except.bailIf (seq > chainSeq)
      s!"thread {threadId} sequence {seq} exceeds chain sequence {chainSeq}"

/-- `validate_stored_snapshot`: the snapshot an entry names agrees with the entry and its head. -/
def validateStoredSnapshot (chainState : ChainState) (threadId : String)
    (entry : ChainThreadEntry) (snapshot : ThreadSnapshot) : Except String Unit := do
  codec.validateSnapshot snapshot
  let got := snapshot.threadId
  Except.bailIf (got ≠ threadId)
    s!"snapshot thread_id mismatch: entry is {threadId}, snapshot is {got}"
  let expected := chainState.chainRootId
  let got := snapshot.chainRootId
  Except.bailIf (got ≠ expected)
    s!"snapshot chain_root_id mismatch: expected {expected}, got {got}"
  let entryStatus := entry.status.asStr
  let snapshotStatus := snapshot.status.asStr
  Except.bailIf (snapshot.status ≠ entry.status)
    (s!"snapshot status mismatch for {threadId}: entry is {entryStatus}, " ++
      s!"snapshot is {snapshotStatus}")
  let seq := snapshot.lastChainSeq
  let chainSeq := chainState.lastChainSeq
  Except.bailIf (seq > chainSeq)
    s!"snapshot chain sequence {seq} exceeds authoritative chain sequence {chainSeq}"
  let seq := snapshot.lastThreadSeq
  let entrySeq := entry.lastThreadSeq
  Except.bailIf (seq > entrySeq)
    s!"snapshot thread sequence {seq} exceeds authoritative thread sequence {entrySeq}"
  let chainSeq := snapshot.lastChainSeq
  Except.bailIf (seq > chainSeq)
    s!"snapshot thread sequence {seq} exceeds its chain sequence {chainSeq}"
  validateHashSequencePair s!"snapshot for thread {threadId}" snapshot.lastThreadSeq
    snapshot.lastEventHash
  Except.bailIf (seq = entrySeq ∧ snapshot.lastEventHash ≠ entry.lastEventHash)
    ("snapshot last_event_hash disagrees with the authoritative thread entry at " ++
      s!"sequence {entrySeq}")

/-! ## What the checks establish -/

lemma find?_key_of_mem_sorted {β : Type} {l : List (String × β)}
    (hsorted : (l.map (·.1)).Pairwise (· < ·)) {key : String} {value : β}
    (h : (key, value) ∈ l) : l.find? (·.1 = key) = some (key, value) := by
  induction l with
  | nil => simp at h
  | cons first rest ih =>
    simp only [List.map_cons, List.pairwise_cons, List.mem_map] at hsorted
    rcases List.mem_cons.mp h with rfl | hrest
    · simp
    · have hlt : first.1 < key := hsorted.1 key ⟨(key, value), hrest, rfl⟩
      have hne : ¬ first.1 = key := ne_of_lt hlt
      simpa [hne] using ih hsorted.2 hrest

/-- A thread of the map is found under its own key: the keys are distinct. -/
lemma ChainState.entry_of_mem {state : ChainState} {threadId : String} {entry : ChainThreadEntry}
    (h : (threadId, entry) ∈ state.threads) : state.entry threadId = some entry := by
  simp [ChainState.entry, find?_key_of_mem_sorted state.threads_sorted h]

lemma ChainState.mem_of_entry {state : ChainState} {threadId : String} {entry : ChainThreadEntry}
    (h : state.entry threadId = some entry) : (threadId, entry) ∈ state.threads := by
  simp only [ChainState.entry, Option.map_eq_some_iff] at h
  obtain ⟨⟨key, value⟩, hfind, rfl⟩ := h
  have hkey : key = threadId := by simpa using List.find?_some hfind
  subst hkey
  exact List.mem_of_find?_eq_some hfind

lemma validatePredecessorLink_eq_ok {label : String} {sequence : ℕ} {predecessor : Option String} :
    validatePredecessorLink label sequence predecessor = .ok () ↔
      (sequence = 1 ∧ predecessor = none) ∨ (2 ≤ sequence ∧ predecessor.isSome) := by
  rcases sequence with _ | _ | n <;> cases predecessor <;>
    simp [validatePredecessorLink]

end Ryeos.Chain
