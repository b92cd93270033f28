import Ryeos.Core.Linked
import Ryeos.Chain.Objects

/-!
# The authoritative closure of a chain head: `chain/validation.rs`

`validate_authoritative_closure` checks that a `ChainState` head stands for one linear history.
It loads each thread's published snapshot, then walks the chain backwards from the head's last
event, one event per chain sequence number, following `prev_chain_event_hash`.  Each thread has a
cursor, started at its entry's last event, that the walk moves back along
`prev_thread_event_hash` whenever it meets an event of that thread.  At the end the chain and
every cursor must have run out exactly.

* `closureStep`, `closureLoop` — one round of the walk, and the walk;
* `closureLoop_segment` — what a successful walk has read: a hash-linked segment of events with
  consecutive chain sequences and non-decreasing timestamps, and per thread a hash-linked,
  consecutively numbered run of its cursor;
* `validateAuthoritativeClosure` — the whole check.
-/

namespace Ryeos.Chain

open Ryeos

/-- `ThreadEventCursor`: the next event a thread's history expects, walking backwards. -/
structure ThreadEventCursor where
  nextHash : Option String
  nextSequence : ℕ
  deriving DecidableEq, Repr

/-- `EventPosition`: where an event of the closure sits. -/
structure EventPosition where
  threadId : String
  chainSequence : ℕ
  threadSequence : ℕ
  timestamp : String
  prevChainHash : Option String
  prevThreadHash : Option String
  deriving DecidableEq, Repr

/-- `SnapshotEventPosition`: the last event a published snapshot names. -/
structure SnapshotEventPosition where
  threadId : String
  eventHash : String
  chainSequence : ℕ
  threadSequence : ℕ
  deriving DecidableEq, Repr

/-- The position record of an event. -/
def EventPosition.ofEvent (event : ThreadEvent) : EventPosition :=
  ⟨event.threadId, event.chainSeq, event.threadSeq, event.ts, event.prevChainEventHash,
    event.prevThreadEventHash⟩

/-- The mutable variables of the backward walk.  `thread_cursors` is a map keyed by thread. -/
structure ClosureWalk (T : Type) where
  currentHash : Option String
  newerTimestamp : T
  visited : List String
  eventPositions : List (String × EventPosition)
  threadCursors : String → Option ThreadEventCursor

variable {T : Type} [LinearOrder T] (codec : ChainCodec T) (store : ChainStore)

/-- The end of a round: move to the event's chain predecessor and its thread's cursor to the
event's thread predecessor. -/
def ClosureWalk.advance (walk : ClosureWalk T) (eventHash : String) (event : ThreadEvent)
    (eventTimestamp : T) (cursor : ThreadEventCursor) : ClosureWalk T where
  currentHash := event.prevChainEventHash
  newerTimestamp := eventTimestamp
  visited := eventHash :: walk.visited
  eventPositions := (eventHash, EventPosition.ofEvent event) :: walk.eventPositions
  threadCursors := Function.update walk.threadCursors event.threadId
    (some ⟨event.prevThreadEventHash, cursor.nextSequence - 1⟩)

/-- `{:?}` of an optional hash. -/
def debugOptionalHash : Option String → String
  | some hash => "Some(\"" ++ hash ++ "\")"
  | none => "None"

/-- One round of the walk, at chain sequence `expected`. -/
def closureStep (state : ChainState) (expected : ℕ) (walk : ClosureWalk T) :
    Except String (ClosureWalk T) := do
  let eventHash ← walk.currentHash.okOr
    s!"chain event history ended before sequence {expected}"
  Except.bailIf (eventHash ∈ walk.visited) s!"cycle in chain event history at {eventHash}"
  let event ← Except.withContext s!"load authoritative chain event {eventHash}"
    (store.loadEvent eventHash)
  event.validate codec
  let eventChain := event.chainRootId
  let rootId := state.chainRootId
  Except.bailIf (eventChain ≠ rootId)
    s!"event {eventHash} belongs to chain {eventChain}, not {rootId}"
  let got := event.chainSeq
  Except.bailIf (got ≠ expected)
    s!"event {eventHash} chain sequence mismatch: expected {expected}, got {got}"
  let eventTimestamp ← Except.withContext s!"invalid event timestamp for {eventHash}"
    (codec.parseCanonicalTimestamp event.ts)
  Except.bailIf (eventTimestamp > walk.newerTimestamp)
    s!"event {eventHash} timestamp exceeds the next authoritative chain timestamp"
  let threadId := event.threadId
  let cursor ← (walk.threadCursors threadId).okOr
    s!"event {eventHash} names thread {threadId} absent from the authoritative head"
  let expectedHash := debugOptionalHash cursor.nextHash
  Except.bailIf (cursor.nextHash ≠ some eventHash)
    s!"thread {threadId} event link mismatch: expected {expectedHash}, reached {eventHash}"
  let expectedSeq := cursor.nextSequence
  let gotSeq := event.threadSeq
  Except.bailIf (gotSeq ≠ expectedSeq)
    (s!"event {eventHash} thread sequence mismatch for {threadId}: " ++
      s!"expected {expectedSeq}, got {gotSeq}")
  validatePredecessorLink "chain event" event.chainSeq event.prevChainEventHash
  validatePredecessorLink s!"thread {threadId} event" event.threadSeq event.prevThreadEventHash
  return walk.advance eventHash event eventTimestamp cursor

/-- The walk: `while expected_chain_sequence > 0`, one round per sequence number, counting
down. -/
def closureLoop (state : ChainState) : ℕ → ClosureWalk T → Except String (ClosureWalk T)
  | 0, walk => .ok walk
  | expected + 1, walk =>
    closureStep codec store state (expected + 1) walk >>= closureLoop state expected

/-- The cursors the walk starts from: each thread at its entry's last event. -/
def initialCursors (state : ChainState) (threadId : String) : Option ThreadEventCursor :=
  (state.entry threadId).map fun entry => ⟨entry.lastEventHash, entry.lastThreadSeq⟩

/-- The snapshot-loading round for one thread: the snapshot must agree with its entry and not be
newer than the head; the last event it names is kept for the final check. -/
def loadThreadSnapshot (state : ChainState) (stateUpdatedAt : T) (threadId : String)
    (entry : ChainThreadEntry) : Except String (Option SnapshotEventPosition) := do
  let snapshot ← Except.withContext s!"load authoritative snapshot for thread {threadId}"
    (store.loadSnapshot entry.snapshotHash)
  Except.withContext s!"invalid authoritative snapshot for thread {threadId}"
    (validateStoredSnapshot codec state threadId entry snapshot)
  let snapshotUpdatedAt ← Except.withContext s!"invalid snapshot updated_at for thread {threadId}"
    (codec.parseCanonicalTimestamp snapshot.updatedAt)
  Except.bailIf (snapshotUpdatedAt > stateUpdatedAt)
    s!"snapshot updated_at for thread {threadId} exceeds authoritative chain updated_at"
  return snapshot.lastEventHash.map fun eventHash =>
    ⟨threadId, eventHash, snapshot.lastChainSeq, snapshot.lastThreadSeq⟩

/-- The final check on one thread: its cursor has run out. -/
def checkCursorDrained (walk : ClosureWalk T) (threadId : String) : Except String Unit :=
  match walk.threadCursors threadId with
  | some cursor =>
    Except.bailIf (cursor.nextSequence ≠ 0 ∨ cursor.nextHash.isSome)
      s!"thread {threadId} event history is not fully represented by the chain event history"
  | none => .ok ()

/-- The final check on one snapshot: the event it names is in the closure, of its thread, at
its thread sequence, and not later in the chain than the snapshot. -/
def checkSnapshotPosition (eventPositions : List (String × EventPosition))
    (snapshot : SnapshotEventPosition) : Except String Unit := do
  let threadId := snapshot.threadId
  let eventHash := snapshot.eventHash
  let event ← (eventPositions.lookup eventHash).okOr
    (s!"snapshot for thread {threadId} references event {eventHash} outside the " ++
      "authoritative chain history")
  Except.bailIf (event.threadId ≠ threadId ∨ event.threadSequence ≠ snapshot.threadSequence ∨
      event.chainSequence > snapshot.chainSequence)
    s!"snapshot event position mismatch for thread {threadId} at {eventHash}"

/-- `validate_authoritative_closure`: the head is valid, the published snapshots agree with it,
and the walk reads exactly `last_chain_seq` events and exhausts every thread's cursor.  Returns
the position of each event read. -/
def validateAuthoritativeClosure (state : ChainState) :
    Except String (List (String × EventPosition)) := do
  state.validate codec
  validateChainPositions codec state
  let stateUpdatedAt ← Except.withContext "invalid authoritative chain updated_at"
    (codec.parseCanonicalTimestamp state.updatedAt)
  let snapshotEventPositions ← state.threads.filterMapM fun (threadId, entry) =>
    loadThreadSnapshot codec store state stateUpdatedAt threadId entry
  let walk ← closureLoop codec store state state.lastChainSeq
    ⟨state.lastEventHash, stateUpdatedAt, [], [], initialCursors state⟩
  Except.bailIf walk.currentHash.isSome "chain event history continues before sequence one"
  state.threads.forM fun (threadId, _) => checkCursorDrained walk threadId
  snapshotEventPositions.forM (checkSnapshotPosition walk.eventPositions)
  return walk.eventPositions

/-! ## One round -/

/-- `h`'s event names `p` as its chain predecessor. -/
def ChainLink (eventHash : String) (prev : Option String) : Prop :=
  ∃ event, store.loadEvent eventHash = .ok event ∧ event.prevChainEventHash = prev

/-- `h`'s event names `p` as its thread predecessor. -/
def ThreadLink (eventHash : String) (prev : Option String) : Prop :=
  ∃ event, store.loadEvent eventHash = .ok event ∧ event.prevThreadEventHash = prev

/-- **What a round checks.**  The round reads the event under the current hash, which it has
not visited; the event carries the expected chain sequence, a timestamp no newer than the
last, a thread with a cursor that expects exactly this event at this thread sequence, and a
positive thread sequence. -/
lemma closureStep_eq_ok {state : ChainState} {expected : ℕ} {walk walk' : ClosureWalk T}
    (h : closureStep codec store state expected walk = .ok walk') :
    ∃ eventHash event eventTimestamp cursor,
      walk.currentHash = some eventHash ∧ eventHash ∉ walk.visited ∧
      store.loadEvent eventHash = .ok event ∧ event.chainRootId = state.chainRootId ∧
      event.chainSeq = expected ∧
      codec.parseCanonicalTimestamp event.ts = .ok eventTimestamp ∧
      eventTimestamp ≤ walk.newerTimestamp ∧
      walk.threadCursors event.threadId = some cursor ∧ cursor.nextHash = some eventHash ∧
      event.threadSeq = cursor.nextSequence ∧ 1 ≤ event.threadSeq ∧
      walk' = walk.advance eventHash event eventTimestamp cursor := by
  simp only [closureStep, Except.bind_eq_ok, Option.okOr_eq_ok, Except.bailIf_eq_ok,
    Except.withContext_eq_ok, not_lt, not_not, exists_const] at h
  obtain ⟨eventHash, hcur, hvisited, event, hload, _, -, hroot, hseq, eventTimestamp, hts,
    hnewer, cursor, hcursor, hnext, hthreadSeq, _, -, _, hthreadLink, hwalk⟩ := h
  have hpos : 1 ≤ event.threadSeq := by
    rcases validatePredecessorLink_eq_ok.mp hthreadLink with ⟨h1, -⟩ | ⟨h2, -⟩ <;> omega
  refine ⟨eventHash, event, eventTimestamp, cursor, hcur, hvisited, hload, hroot, hseq, hts,
    hnewer, hcursor, hnext, hthreadSeq, hpos, ?_⟩
  simpa [pure, Except.pure] using hwalk.symm

/-! ## The walk -/

/-- What a successful walk from `walk` to `walk'` has read: the events `seg`, oldest first.
They are the stored events under their hashes; their hashes form the chain segment between the
two current hashes and are new to the walk; their timestamps, parsed, rise towards the walk's
first bound; every thread's cursor has moved back over exactly that thread's events, along
their thread links and one sequence number each; and every event's thread has a cursor. -/
structure WalkSegment (walk walk' : ClosureWalk T) (seg : List (String × ThreadEvent)) :
    Prop where
  loaded : ∀ p ∈ seg, store.loadEvent p.1 = .ok p.2
  linked : Linked (ChainLink store) walk'.currentHash walk.currentHash (seg.map (·.1))
  nodup : (seg.map (·.1)).Nodup
  fresh : ∀ p ∈ seg, p.1 ∉ walk.visited
  timestamps : ∃ times : List T,
    List.Forall₂ (fun p τ => codec.parseCanonicalTimestamp p.2.ts = .ok τ) seg times ∧
    (times ++ [walk.newerTimestamp]).Pairwise (· ≤ ·)
  threads : ∀ threadId cursor, walk.threadCursors threadId = some cursor →
    ∃ cursor', walk'.threadCursors threadId = some cursor' ∧
      cursor'.nextSequence ≤ cursor.nextSequence ∧
      Linked (ThreadLink store) cursor'.nextHash cursor.nextHash
        ((seg.filter (·.2.threadId = threadId)).map (·.1)) ∧
      (seg.filter (·.2.threadId = threadId)).map (·.2.threadSeq) =
        List.range' (cursor'.nextSequence + 1) (cursor.nextSequence - cursor'.nextSequence)
  known : ∀ p ∈ seg, (walk.threadCursors p.2.threadId).isSome
  positions : walk'.eventPositions =
    seg.map (fun p => (p.1, EventPosition.ofEvent p.2)) ++ walk.eventPositions

namespace WalkSegment

variable {codec store}

lemma nil (walk : ClosureWalk T) : WalkSegment codec store walk walk [] where
  loaded := by simp
  linked := .nil
  nodup := List.nodup_nil
  fresh := by simp
  timestamps := ⟨[], .nil, List.pairwise_singleton _ _⟩
  threads := fun _ cursor h => ⟨cursor, h, le_rfl, by simpa using Linked.nil, by simp⟩
  known := by simp
  positions := by simp

section Snoc

variable {walk walk' : ClosureWalk T} {rest : List (String × ThreadEvent)} {eventHash : String}
  {event : ThreadEvent} {eventTimestamp : T} {cursor : ThreadEventCursor}

/-- The thread part of one more, newer round: the cursor of the event's thread moves back over
it; every other cursor stays. -/
lemma threads_snoc (hload : store.loadEvent eventHash = .ok event)
    (hcursor : walk.threadCursors event.threadId = some cursor)
    (hnext : cursor.nextHash = some eventHash) (hseq : event.threadSeq = cursor.nextSequence)
    (hpos : 1 ≤ event.threadSeq)
    (hrest : WalkSegment codec store (walk.advance eventHash event eventTimestamp cursor) walk'
      rest) (threadId : String) (cursor₁ : ThreadEventCursor)
    (h₁ : walk.threadCursors threadId = some cursor₁) :
    ∃ cursor', walk'.threadCursors threadId = some cursor' ∧
      cursor'.nextSequence ≤ cursor₁.nextSequence ∧
      Linked (ThreadLink store) cursor'.nextHash cursor₁.nextHash
        (((rest ++ [(eventHash, event)]).filter (·.2.threadId = threadId)).map (·.1)) ∧
      ((rest ++ [(eventHash, event)]).filter (·.2.threadId = threadId)).map (·.2.threadSeq) =
        List.range' (cursor'.nextSequence + 1) (cursor₁.nextSequence - cursor'.nextSequence) := by
  by_cases hthread : event.threadId = threadId
  · subst hthread
    rw [hcursor, Option.some.injEq] at h₁
    subst h₁
    obtain ⟨cursor', hlast, hle, hlinked, hseqs⟩ :=
      hrest.threads event.threadId ⟨event.prevThreadEventHash, cursor.nextSequence - 1⟩
        (by simp [ClosureWalk.advance])
    have hcount : cursor.nextSequence - cursor'.nextSequence =
        (cursor.nextSequence - 1 - cursor'.nextSequence) + 1 := by
      simp only at hle
      omega
    refine ⟨cursor', hlast, by simp only at hle; omega, ?_, ?_⟩
    · rw [List.filter_append, List.map_append, hnext]
      simpa using hlinked.snoc ⟨event, hload, rfl⟩
    · rw [List.filter_append, List.map_append, hseqs, hcount, List.range'_concat]
      simp only [List.filter_cons_of_pos, decide_true, List.filter_nil, List.map_cons,
        List.map_nil, List.append_cancel_left_eq, List.singleton_inj]
      simp only at hle
      omega
  · have hsame : (walk.advance eventHash event eventTimestamp cursor).threadCursors threadId =
        some cursor₁ := by
      simp [ClosureWalk.advance, Function.update_of_ne (Ne.symm hthread), h₁]
    obtain ⟨cursor', hlast, hle, hlinked, hseqs⟩ := hrest.threads threadId cursor₁ hsame
    have hdrop : (rest ++ [(eventHash, event)]).filter (·.2.threadId = threadId) =
        rest.filter (·.2.threadId = threadId) := by
      simp [List.filter_append, hthread]
    exact ⟨cursor', hlast, hle, by rw [hdrop]; exact hlinked, by rw [hdrop]; exact hseqs⟩

/-- The timestamps of one more, newer round: its own is no newer than the bound and no older
than any it precedes. -/
lemma timestamps_snoc (hts : codec.parseCanonicalTimestamp event.ts = .ok eventTimestamp)
    (hnewer : eventTimestamp ≤ walk.newerTimestamp)
    (hrest : WalkSegment codec store (walk.advance eventHash event eventTimestamp cursor) walk'
      rest) :
    ∃ times : List T,
      List.Forall₂ (fun p τ => codec.parseCanonicalTimestamp p.2.ts = .ok τ)
        (rest ++ [(eventHash, event)]) times ∧
      (times ++ [walk.newerTimestamp]).Pairwise (· ≤ ·) := by
  obtain ⟨times, hparse, hsorted⟩ := hrest.timestamps
  refine ⟨times ++ [eventTimestamp], List.rel_append hparse (.cons hts .nil), ?_⟩
  rw [List.pairwise_append]
  refine ⟨hsorted, List.pairwise_singleton _ _, fun a ha b hb => ?_⟩
  rw [List.mem_singleton.mp hb]
  have hbound : a ≤ eventTimestamp := by
    rcases List.mem_append.mp ha with ha | ha
    · exact (List.pairwise_append.mp hsorted).2.2 a ha eventTimestamp (List.mem_singleton_self _)
    · exact le_of_eq (List.mem_singleton.mp ha)
  exact hbound.trans hnewer

/-- **One more, newer round extends a walk's segment.** -/
lemma snoc (hcur : walk.currentHash = some eventHash) (hvisited : eventHash ∉ walk.visited)
    (hload : store.loadEvent eventHash = .ok event)
    (hts : codec.parseCanonicalTimestamp event.ts = .ok eventTimestamp)
    (hnewer : eventTimestamp ≤ walk.newerTimestamp)
    (hcursor : walk.threadCursors event.threadId = some cursor)
    (hnext : cursor.nextHash = some eventHash) (hseq : event.threadSeq = cursor.nextSequence)
    (hpos : 1 ≤ event.threadSeq)
    (hrest : WalkSegment codec store (walk.advance eventHash event eventTimestamp cursor) walk'
      rest) :
    WalkSegment codec store walk walk' (rest ++ [(eventHash, event)]) where
  loaded := by
    intro p hp
    rcases List.mem_append.mp hp with hp | hp
    · exact hrest.loaded p hp
    · rw [List.mem_singleton.mp hp]
      exact hload
  linked := by
    rw [List.map_append, hcur]
    simpa using hrest.linked.snoc ⟨event, hload, rfl⟩
  nodup := by
    rw [List.map_append, List.nodup_append]
    refine ⟨hrest.nodup, List.nodup_singleton _, ?_⟩
    intro a ha b hb hab
    obtain ⟨p, hp, rfl⟩ := List.mem_map.mp ha
    rw [List.mem_singleton.mp hb] at hab
    exact hrest.fresh p hp (by simp [ClosureWalk.advance, hab])
  fresh := by
    intro p hp
    rcases List.mem_append.mp hp with hp | hp
    · have hfresh := hrest.fresh p hp
      simp only [ClosureWalk.advance, List.mem_cons, not_or] at hfresh
      exact hfresh.2
    · rw [List.mem_singleton.mp hp]
      exact hvisited
  timestamps := timestamps_snoc hts hnewer hrest
  threads := threads_snoc hload hcursor hnext hseq hpos hrest
  known := by
    intro p hp
    rcases List.mem_append.mp hp with hp | hp
    · have hknown := hrest.known p hp
      by_cases hthread : p.2.threadId = event.threadId
      · rw [hthread, hcursor]
        rfl
      · simpa [ClosureWalk.advance, Function.update_of_ne hthread] using hknown
    · rw [List.mem_singleton.mp hp, hcursor]
      rfl
  positions := by
    rw [hrest.positions]
    simp [ClosureWalk.advance]

end Snoc

end WalkSegment

/-- **The walk reads one segment.**  A walk of `n` rounds that succeeds has read `n` events with
chain sequences `1, …, n`, oldest first, forming a `WalkSegment`.  Induction on the rounds; each
is taken apart by `closureStep_eq_ok` and added by `WalkSegment.snoc`. -/
lemma closureLoop_segment {state : ChainState} :
    ∀ {n : ℕ} {walk walk' : ClosureWalk T}, closureLoop codec store state n walk = .ok walk' →
      ∃ seg, seg.map (·.2.chainSeq) = List.range' 1 n ∧ WalkSegment codec store walk walk' seg
  | 0, walk, walk', h => by
    simp only [closureLoop, Except.ok.injEq] at h
    subst h
    exact ⟨[], rfl, .nil walk⟩
  | n + 1, walk, walk', h => by
    obtain ⟨walk₁, hstep, hloop⟩ := Except.bind_eq_ok.mp h
    obtain ⟨eventHash, event, eventTimestamp, cursor, hcur, hvisited, hload, -, hchainSeq, hts,
      hnewer, hcursor, hnext, hseq, hpos, rfl⟩ := closureStep_eq_ok codec store hstep
    obtain ⟨rest, hseqs, hrest⟩ := closureLoop_segment hloop
    refine ⟨rest ++ [(eventHash, event)], ?_,
      hrest.snoc hcur hvisited hload hts hnewer hcursor hnext hseq hpos⟩
    rw [List.map_append, hseqs, List.range'_concat]
    simp [hchainSeq, Nat.add_comm]

/-! ## The closure -/

/-- An event names one chain predecessor. -/
lemma chainLink_functional :
    ∀ eventHash p q, ChainLink store eventHash p → ChainLink store eventHash q → p = q := by
  intro eventHash p q hp hq
  obtain ⟨event, hload, rfl⟩ := hp
  obtain ⟨event', hload', rfl⟩ := hq
  rw [hload, Except.ok.injEq] at hload'
  rw [hload']

omit [LinearOrder T] in
lemma checkCursorDrained_eq_ok {walk : ClosureWalk T} {threadId : String}
    {cursor : ThreadEventCursor} (hcursor : walk.threadCursors threadId = some cursor)
    (h : checkCursorDrained walk threadId = .ok ()) :
    cursor.nextSequence = 0 ∧ cursor.nextHash = none := by
  simp only [checkCursorDrained, hcursor, Except.bailIf_eq_ok, not_or, not_not,
    Option.not_isSome_iff_eq_none] at h
  exact h

/-- **What a successful closure check establishes.**  The walk started at the head read the
whole history (its last current hash is `none`), and every thread's cursor ran out. -/
lemma validateAuthoritativeClosure_eq_ok {state : ChainState}
    {positions : List (String × EventPosition)}
    (h : validateAuthoritativeClosure codec store state = .ok positions) :
    ∃ stateUpdatedAt walk,
      codec.parseCanonicalTimestamp state.updatedAt = .ok stateUpdatedAt ∧
      closureLoop codec store state state.lastChainSeq
        ⟨state.lastEventHash, stateUpdatedAt, [], [], initialCursors state⟩ = .ok walk ∧
      walk.currentHash = none ∧
      (∀ p ∈ state.threads, checkCursorDrained walk p.1 = .ok ()) ∧
      positions = walk.eventPositions := by
  simp only [validateAuthoritativeClosure, Except.bind_eq_ok, Except.withContext_eq_ok,
    Except.bailIf_eq_ok, Option.not_isSome_iff_eq_none, exists_const] at h
  obtain ⟨_, -, _, -, stateUpdatedAt, hupdated, _, -, walk, hloop, hdone, ⟨⟩, hdrained, _, -,
    hresult⟩ := h
  exact ⟨stateUpdatedAt, walk, hupdated, hloop, hdone, Except.forM_eq_ok.mp hdrained, by
    simpa [pure, Except.pure] using hresult.symm⟩

/-- The history a closure-checked head stands for: its events `chain`, oldest first. -/
structure ClosureHistory (state : ChainState) (chain : List (String × ThreadEvent)) : Prop where
  loaded : ∀ p ∈ chain, store.loadEvent p.1 = .ok p.2
  chainSeqs : chain.map (·.2.chainSeq) = List.range' 1 state.lastChainSeq
  nodup : (chain.map (·.1)).Nodup
  linked : Linked (ChainLink store) none state.lastEventHash (chain.map (·.1))
  timestamps : ∃ updatedAt times,
    codec.parseCanonicalTimestamp state.updatedAt = .ok updatedAt ∧
    List.Forall₂ (fun p τ => codec.parseCanonicalTimestamp p.2.ts = .ok τ) chain times ∧
    (times ++ [updatedAt]).Pairwise (· ≤ ·)
  threads : ∀ threadId entry, (threadId, entry) ∈ state.threads →
    Linked (ThreadLink store) none entry.lastEventHash
      ((chain.filter (·.2.threadId = threadId)).map (·.1)) ∧
    (chain.filter (·.2.threadId = threadId)).map (·.2.threadSeq) =
      List.range' 1 entry.lastThreadSeq
  known : ∀ p ∈ chain, ∃ entry, (p.2.threadId, entry) ∈ state.threads

/-- **A successful closure check reads one linear history**, and returns the positions of its
events. -/
lemma validateAuthoritativeClosure_history {state : ChainState}
    {positions : List (String × EventPosition)}
    (h : validateAuthoritativeClosure codec store state = .ok positions) :
    ∃ chain, ClosureHistory codec store state chain ∧
      positions = chain.map fun p => (p.1, EventPosition.ofEvent p.2) := by
  obtain ⟨stateUpdatedAt, walk, hupdated, hloop, hdone, hdrained, rfl⟩ :=
    validateAuthoritativeClosure_eq_ok codec store h
  obtain ⟨chain, hseqs, hseg⟩ := closureLoop_segment codec store hloop
  refine ⟨chain, ⟨hseg.loaded, hseqs, hseg.nodup, ?_, ?_, ?_, ?_⟩, by simpa using hseg.positions⟩
  · simpa [hdone] using hseg.linked
  · obtain ⟨times, hparse, hsorted⟩ := hseg.timestamps
    exact ⟨stateUpdatedAt, times, hupdated, hparse, hsorted⟩
  · intro threadId entry hmem
    have hstart : initialCursors state threadId =
        some ⟨entry.lastEventHash, entry.lastThreadSeq⟩ := by
      simp [initialCursors, ChainState.entry_of_mem hmem]
    obtain ⟨cursor', hlast, -, hlinked, hthreadSeqs⟩ := hseg.threads threadId _ hstart
    obtain ⟨hzero, hnone⟩ := checkCursorDrained_eq_ok hlast (hdrained _ hmem)
    rw [hnone] at hlinked
    rw [hzero] at hthreadSeqs
    exact ⟨hlinked, by simpa using hthreadSeqs⟩
  · intro p hp
    obtain ⟨cursor, hcursor⟩ := Option.isSome_iff_exists.mp (hseg.known p hp)
    simp only [initialCursors, Option.map_eq_some_iff] at hcursor
    obtain ⟨entry, hentry, -⟩ := hcursor
    exact ⟨entry, ChainState.mem_of_entry hentry⟩

theorem closure_is_one_linear_history {state : ChainState}
    {positions : List (String × EventPosition)}
    (h : validateAuthoritativeClosure codec store state = .ok positions) :
    ∃ chain : List (String × ThreadEvent),
      (∀ p ∈ chain, store.loadEvent p.1 = .ok p.2) ∧
      (chain.map (·.1)).Nodup ∧
      chain.map (·.2.chainSeq) = List.range' 1 state.lastChainSeq ∧
      (∀ p, chain.head? = some p → p.2.prevChainEventHash = none) ∧
      Linked (ChainLink store) none state.lastEventHash (chain.map (·.1)) ∧
      (∀ x, (∃ k, state.lastEventHash = some k ∧
          Relation.ReflTransGen (fun a b => ChainLink store a (some b)) k x) ↔
        x ∈ chain.map (·.1)) ∧
      (∃ updatedAt times, codec.parseCanonicalTimestamp state.updatedAt = .ok updatedAt ∧
        List.Forall₂ (fun p τ => codec.parseCanonicalTimestamp p.2.ts = .ok τ) chain times ∧
        (times ++ [updatedAt]).Pairwise (· ≤ ·)) ∧
      (∀ threadId entry, (threadId, entry) ∈ state.threads →
        Linked (ThreadLink store) none entry.lastEventHash
          ((chain.filter (·.2.threadId = threadId)).map (·.1)) ∧
        (chain.filter (·.2.threadId = threadId)).map (·.2.threadSeq) =
          List.range' 1 entry.lastThreadSeq) ∧
      (∀ p ∈ chain, ∃ entry, (p.2.threadId, entry) ∈ state.threads) := by
  obtain ⟨chain, hist, -⟩ := validateAuthoritativeClosure_history codec store h
  have hfirst : ∀ p, chain.head? = some p → p.2.prevChainEventHash = none := by
    intro p hp
    obtain ⟨rest, rfl⟩ : ∃ rest, chain = p :: rest := by
      cases chain with
      | nil => cases hp
      | cons q rest => exact ⟨rest, by simpa using hp⟩
    obtain ⟨event, hload, hprev⟩ := hist.linked.pred_head
    rw [hist.loaded p List.mem_cons_self, Except.ok.injEq] at hload
    rw [hload, hprev]
  have hreach : ∀ x, (∃ k, state.lastEventHash = some k ∧
      Relation.ReflTransGen (fun a b => ChainLink store a (some b)) k x) ↔
      x ∈ chain.map (·.1) := by
    intro x
    constructor
    · rintro ⟨k, hk, hpath⟩
      exact hist.linked.mem_of_reach (chainLink_functional store) k hk x hpath
    · intro hx
      obtain ⟨k, hk, hpath⟩ := hist.linked.exists_reach x hx
      exact ⟨k, hk, hpath⟩
  exact ⟨chain, hist.loaded, hist.nodup, hist.chainSeqs, hfirst, hist.linked, hreach,
    hist.timestamps, hist.threads, hist.known⟩

/-- A canonical hash: 64 copies of one lowercase digit. -/
def sampleHash (c : Char) : String := String.ofList (List.replicate 64 c)

/-- Library functions under which every timestamp is the same instant. -/
def sampleCodec : ChainCodec ℕ := ⟨fun _ => .ok 0, fun _ => .ok 0, fun _ => .ok ()⟩

/-- The root thread's first event. -/
def sampleFirstEvent : ThreadEvent :=
  { schema := 1, kind := "thread_event", chainRootId := "T-root", chainSeq := 1,
    threadId := "T-root", threadSeq := 1, eventType := "thread_created",
    ts := "2026-01-01T00:00:00Z", prevChainEventHash := none, prevThreadEventHash := none }

/-- The root thread's second event, after the first in the chain and in the thread. -/
def sampleSecondEvent : ThreadEvent :=
  { sampleFirstEvent with
    chainSeq := 2, threadSeq := 2, eventType := "thread_started",
    prevChainEventHash := some (sampleHash 'b'), prevThreadEventHash := some (sampleHash 'b') }

/-- The root thread's snapshot at its second event. -/
def sampleSnapshot : ThreadSnapshot :=
  { schema := 1, kind := "thread_snapshot", threadId := "T-root", chainRootId := "T-root",
    status := .running, kindName := "agent", itemRef := "directive:demo",
    executorRef := "native:directive-runtime", launchMode := "wait", originSiteId := "site:host",
    upstreamThreadId := none, requestedBy := none, projectRoot := none,
    projectAuthority := "none", capturedHistoryPolicy := none, baseProjectSnapshotHash := none,
    resultProjectSnapshotHash := none, createdAt := "2026-01-01T00:00:00Z",
    updatedAt := "2026-01-01T00:00:00Z", startedAt := some "2026-01-01T00:00:00Z",
    finishedAt := none, lastEventHash := some (sampleHash 'c'), lastChainSeq := 2,
    lastThreadSeq := 2 }

/-- A store holding the two events and the snapshot. -/
def sampleStore : ChainStore where
  loadEvent h :=
    if h = sampleHash 'b' then .ok sampleFirstEvent
    else if h = sampleHash 'c' then .ok sampleSecondEvent
    else .error s!"authoritative event object {h} is absent"
  loadSnapshot h :=
    if h = sampleHash 'a' then .ok sampleSnapshot
    else .error s!"authoritative snapshot object {h} is absent"
  loadChainState h := .error s!"authoritative ChainState object {h} is absent"
  chainStateHashes := []
  loadChainState_mem _ _ h := nomatch h

/-- A head over the two events, with the root thread running. -/
def sampleHead : ChainState where
  schema := 1
  kind := "chain_state"
  chainRootId := "T-root"
  prevChainStateHash := none
  lastEventHash := some (sampleHash 'c')
  lastChainSeq := 2
  updatedAt := "2026-01-01T00:00:00Z"
  threads := [("T-root", ⟨sampleHash 'a', some (sampleHash 'c'), 2, .running⟩)]
  threads_sorted := List.pairwise_singleton _ _

theorem closure_is_one_linear_history_on_two_events :
    validateAuthoritativeClosure sampleCodec sampleStore sampleHead =
      .ok [(sampleHash 'b', EventPosition.ofEvent sampleFirstEvent),
        (sampleHash 'c', EventPosition.ofEvent sampleSecondEvent)] ∧
    ∃ chain : List (String × ThreadEvent),
      (∀ p ∈ chain, sampleStore.loadEvent p.1 = .ok p.2) ∧
      (chain.map (·.1)).Nodup ∧
      chain.map (·.2.chainSeq) = List.range' 1 sampleHead.lastChainSeq ∧
      (∀ p, chain.head? = some p → p.2.prevChainEventHash = none) ∧
      Linked (ChainLink sampleStore) none sampleHead.lastEventHash (chain.map (·.1)) ∧
      (∀ x, (∃ k, sampleHead.lastEventHash = some k ∧
          Relation.ReflTransGen (fun a b => ChainLink sampleStore a (some b)) k x) ↔
        x ∈ chain.map (·.1)) ∧
      (∃ updatedAt times, sampleCodec.parseCanonicalTimestamp sampleHead.updatedAt = .ok updatedAt ∧
        List.Forall₂ (fun p τ => sampleCodec.parseCanonicalTimestamp p.2.ts = .ok τ) chain times ∧
        (times ++ [updatedAt]).Pairwise (· ≤ ·)) ∧
      (∀ threadId entry, (threadId, entry) ∈ sampleHead.threads →
        Linked (ThreadLink sampleStore) none entry.lastEventHash
          ((chain.filter (·.2.threadId = threadId)).map (·.1)) ∧
        (chain.filter (·.2.threadId = threadId)).map (·.2.threadSeq) =
          List.range' 1 entry.lastThreadSeq) ∧
      (∀ p ∈ chain, ∃ entry, (p.2.threadId, entry) ∈ sampleHead.threads) :=
  have h : validateAuthoritativeClosure sampleCodec sampleStore sampleHead =
      .ok [(sampleHash 'b', EventPosition.ofEvent sampleFirstEvent),
        (sampleHash 'c', EventPosition.ofEvent sampleSecondEvent)] := by
    decide
  ⟨h, closure_is_one_linear_history sampleCodec sampleStore h⟩

end Ryeos.Chain
