import Mathlib

/-!
# Project snapshot compaction: `gc/compact.rs`

`compact_single_project` prunes a project's snapshot DAG.  It walks the DAG from the head,
sorts the snapshots newest first, keeps the head and the newest `N` of each source category,
and rewrites the kept snapshots so that each names its closest kept ancestors as parents.  A
rewritten snapshot is a new object with a new hash, so every kept descendant of a rewritten
snapshot must be rewritten after it: the source orders the rewrite by Kahn's algorithm over
the kept snapshots.

The store is content addressed.  `SnapshotCodec.hash` is `sha256_hex` of the canonical JSON
of `ProjectSnapshot::to_value`, and `SnapshotCodec.accepts` is `ProjectSnapshot::from_value`
on that value; both are taken as parameters.  The store holds decoded snapshots: `load` finds
the stored snapshot whose hash is the requested one.

* `compactSingleProject` — the rewrite, from the verified head to the new head and the objects
  written;
* `compaction_revives_removed_snapshot` — the ordering is by *direct* kept parents only, while
  the rewrite lifts edges through removed snapshots: a kept snapshot can be rewritten before a
  kept ancestor it now points at, and then points at that ancestor's pre-rewrite copy, whose
  removed parent stays reachable from the new head.
-/

namespace Ryeos.State

/-- `ProjectSnapshot`: one generation of a project. -/
structure ProjectSnapshot where
  projectTreeHash : String
  effectivePolicyHash : String
  message : Option String
  parentHashes : List String
  createdAt : String
  source : String
  deriving DecidableEq, Repr

/-- `RetentionPolicy`: how many snapshots of each category survive. -/
structure RetentionPolicy where
  /-- Max snapshots with source `"push"` or `"manual"` to keep per project. -/
  manualPushes : ℕ
  /-- Max snapshots with any other source to keep. -/
  autoSnapshots : ℕ
  deriving DecidableEq, Repr

/-- `SnapshotInfo`: a snapshot of the walked DAG with its hash. -/
structure SnapshotInfo where
  hash : String
  source : String
  parentHashes : List String
  createdAt : String
  snapshot : ProjectSnapshot
  deriving DecidableEq, Repr

/-- Content addressing of snapshots: the CAS hash and the decoder's acceptance. -/
structure SnapshotCodec where
  /-- `sha256_hex(canonical_json(snapshot.to_value()))`. -/
  hash : ProjectSnapshot → String
  /-- `ProjectSnapshot::from_value(&snapshot.to_value()).is_ok()`. -/
  accepts : ProjectSnapshot → Bool

variable (codec : SnapshotCodec)

/-- `CasStore::get_object` followed by decoding: the stored snapshot under a hash. -/
def load (store : List ProjectSnapshot) (hash : String) : Option ProjectSnapshot :=
  store.find? fun s => codec.hash s = hash

/-- `load_project_snapshot_with_cas`: a stored snapshot that does not name itself as a parent. -/
def loadProjectSnapshotWithCas (store : List ProjectSnapshot) (requestedHash : String) :
    Except String ProjectSnapshot :=
  match load codec store requestedHash with
  | none => .error s!"compaction: snapshot {requestedHash} is missing"
  | some snapshot =>
    if snapshot.parentHashes.contains requestedHash then
      .error s!"compaction: project snapshot {requestedHash} references itself"
    else .ok snapshot

/-- The breadth-first loop of `walk_dag_with_cas`.  Each round pops one hash; the fuel bounds
the rounds by the number of hashes that can ever be queued. -/
def walkDagLoop (store : List ProjectSnapshot) :
    ℕ → List String → List SnapshotInfo → List String → Except String (List SnapshotInfo)
  | 0, _, snapshots, _ => .ok snapshots
  | _ + 1, [], snapshots, _ => .ok snapshots
  | fuel + 1, hash :: queue, snapshots, visited =>
    if visited.contains hash then walkDagLoop store fuel queue snapshots visited
    else do
      let snapshot ← loadProjectSnapshotWithCas codec store hash
      let info : SnapshotInfo :=
        { hash, source := snapshot.source, parentHashes := snapshot.parentHashes,
          createdAt := snapshot.createdAt, snapshot }
      let visited := visited ++ [hash]
      let queue := queue ++ snapshot.parentHashes.filter fun p => !visited.contains p
      walkDagLoop store fuel queue (snapshots ++ [info]) visited

/-- `walk_dag_with_cas`: every snapshot reachable from the head, in breadth-first order. -/
def walkDagWithCas (store : List ProjectSnapshot) (headHash : String) :
    Except String (List SnapshotInfo) :=
  walkDagLoop codec store (1 + (store.map fun s => s.parentHashes.length).sum) [headHash] [] []

/-- Kahn's loop of `ensure_snapshot_dag_is_acyclic`: pop a snapshot of in-degree zero, lower its
children's in-degrees, and count.  The count does not depend on the order the source's hash
maps yield. -/
def kahnVisit (snapshots : List SnapshotInfo) :
    ℕ → List String → (String → ℕ) → ℕ → ℕ
  | 0, _, _, visited => visited
  | _ + 1, [], _, visited => visited
  | fuel + 1, hash :: queue, inDegree, visited =>
    let children := snapshots.flatMap fun s => (s.parentHashes.filter (· = hash)).map fun _ => s.hash
    let inDegree' := fun h => inDegree h - children.count h
    let ready := children.dedup.filter fun c => inDegree c ≠ 0 ∧ inDegree' c = 0
    kahnVisit snapshots fuel (queue ++ ready) inDegree' (visited + 1)

/-- `ensure_snapshot_dag_is_acyclic`: every parent was discovered and Kahn's algorithm visits
every snapshot. -/
def ensureSnapshotDagIsAcyclic (snapshots : List SnapshotInfo) : Except String Unit :=
  let hashes := snapshots.map (·.hash)
  match snapshots.findSome? fun s => (s.parentHashes.find? fun p => !hashes.contains p).map
      fun p => (s.hash, p) with
  | some (hash, parent) =>
    .error s!"compaction: snapshot {hash} references undiscovered parent {parent}"
  | none =>
    let inDegree := fun h => ((snapshots.filter (·.hash = h)).map (·.parentHashes.length)).sum
    let roots := hashes.filter fun h => inDegree h = 0
    if kahnVisit snapshots (snapshots.length + 1) roots inDegree 0 ≠ snapshots.length then
      .error "compaction: project snapshot DAG contains a cycle"
    else .ok ()

/-- Whether a source counts against `manual_pushes`. -/
def isManual (source : String) : Bool := source = "push" || source = "manual"

/-- Step 3 of `compact_single_project`: walk the snapshots newest first, keeping the head and
the first `limit` of each category.  Returns the kept and the removed hashes. -/
def applyRetention (policy : RetentionPolicy) (headHash : String) :
    List SnapshotInfo → ℕ → ℕ → List String × List String
  | [], _, _ => ([], [])
  | snap :: rest, manualCount, autoCount =>
    if snap.hash = headHash then
      let (keep, removed) := applyRetention policy headHash rest manualCount autoCount
      (snap.hash :: keep, removed)
    else if isManual snap.source then
      if manualCount < policy.manualPushes then
        let (keep, removed) := applyRetention policy headHash rest (manualCount + 1) autoCount
        (snap.hash :: keep, removed)
      else
        let (keep, removed) := applyRetention policy headHash rest manualCount autoCount
        (keep, snap.hash :: removed)
    else if autoCount < policy.autoSnapshots then
      let (keep, removed) := applyRetention policy headHash rest manualCount (autoCount + 1)
      (snap.hash :: keep, removed)
    else
      let (keep, removed) := applyRetention policy headHash rest manualCount autoCount
      (keep, snap.hash :: removed)

/-- Strings in ascending byte order: `slice::sort` on `String`.  The sort is stable, and any
stable sort yields the same list. -/
def sortStrings (l : List String) : List String := l.insertionSort fun a b => decide (a ≤ b)

/-- Step 2 of `compact_single_project`: `sort_by(|a, b| b.created_at.cmp(&a.created_at))`,
newest first, stable. -/
def sortNewestFirst (snapshots : List SnapshotInfo) : List SnapshotInfo :=
  snapshots.insertionSort fun a b => decide (b.createdAt ≤ a.createdAt)

/-- Kahn's loop of `topological_sort_kept`.  The queue is a stack: `pop` takes its last
element, and each round pushes the newly ready children in ascending order. -/
def topoLoop (children : String → List String) :
    ℕ → List String → (String → ℕ) → List String → List String
  | 0, _, _, result => result
  | fuel + 1, queue, inDegree, result =>
    match queue.getLast? with
    | none => result
    | some node =>
      let kids := children node
      let inDegree' := fun h => inDegree h - kids.count h
      let ready := sortStrings (kids.dedup.filter fun k => inDegree k ≠ 0 ∧ inDegree' k = 0)
      topoLoop children fuel (queue.dropLast ++ ready) inDegree' (result ++ [node])

/-- `topological_sort_kept`: the kept snapshots ordered by their *kept* parents only, roots
first.  A parent that was removed contributes no edge. -/
def topologicalSortKept (allSnapshots : List SnapshotInfo) (keep : List String) : List String :=
  let keptParents := fun h =>
    ((allSnapshots.find? (·.hash = h)).map fun s => s.parentHashes.filter keep.contains).getD []
  let inDegree := fun h => (keptParents h).length
  let children := fun p => keep.flatMap fun h => ((keptParents h).filter (· = p)).map fun _ => h
  topoLoop children (keep.length + 1) (sortStrings (keep.filter fun h => inDegree h = 0))
    inDegree []

/-- `resolve_through_removed`: the depth-first walk from one parent through removed snapshots
to the closest kept ones, sharing the `visited` set across calls.  The fuel bounds the depth;
every level of the walk enters a distinct snapshot. -/
def resolveThroughRemoved (keep : List String) (allSnapshots : List SnapshotInfo) :
    ℕ → String → List String × List String → List String × List String
  | 0, _, state => state
  | fuel + 1, current, (result, visited) =>
    if visited.contains current then (result, visited)
    else
      let visited := visited ++ [current]
      if keep.contains current then (result ++ [current], visited)
      else match allSnapshots.find? (·.hash = current) with
        | some snap =>
          snap.parentHashes.foldl (fun state parent =>
            resolveThroughRemoved keep allSnapshots fuel parent state) (result, visited)
        | none => (result, visited)

/-- `resolve_surviving_parents`: each parent resolved through removed snapshots, in order. -/
def resolveSurvivingParents (parentHashes keep : List String) (allSnapshots : List SnapshotInfo) :
    List String :=
  (parentHashes.foldl (fun state parent =>
    resolveThroughRemoved keep allSnapshots (allSnapshots.length + 1) parent state) ([], [])).1

/-- What one compaction produces: the counts it reports, the head it publishes and the store
after its writes. -/
structure CompactionOutcome where
  snapshotsRemoved : ℕ
  snapshotsRewritten : ℕ
  newHead : String
  store : List ProjectSnapshot
  deriving Repr

/-- The state of the rewrite loop: `hash_remap`, the rewrite count and the store. -/
structure RewriteState where
  hashRemap : List (String × String)
  snapshotsRewritten : ℕ
  store : List ProjectSnapshot

/-- `hash_remap.get(&p).cloned().unwrap_or(p)`. -/
def remapped (hashRemap : List (String × String)) (p : String) : String :=
  ((hashRemap.find? (·.1 = p)).map (·.2)).getD p

/-- One round of step 4: rewrite `snapHash` against its surviving parents as remapped so far. -/
def rewriteKept (allSnapshots : List SnapshotInfo) (keep : List String) (dryRun : Bool)
    (st : RewriteState) (snapHash : String) : Except String RewriteState :=
  match allSnapshots.find? (·.hash = snapHash) with
  | none => .error "called `Option::unwrap()` on a `None` value"
  | some snap =>
    let newParents := ((resolveSurvivingParents snap.parentHashes keep allSnapshots).map
      (remapped st.hashRemap)).eraseDups
    if newParents = snap.parentHashes then .ok st
    else
      let rewritten := { snap.snapshot with parentHashes := newParents }
      if !codec.accepts rewritten then
        .error "validate rewritten project snapshot before CAS publication"
      else
        let newHash := codec.hash rewritten
        if newHash ≠ snapHash then
          .ok { hashRemap := st.hashRemap ++ [(snapHash, newHash)],
                snapshotsRewritten := st.snapshotsRewritten + 1,
                store := if dryRun then st.store else st.store ++ [rewritten] }
        else .ok st

/-- Steps 1 to 3 of `compact_single_project`: the walked DAG newest first, with the hashes the
retention policy keeps and removes. -/
def selectRetained (store : List ProjectSnapshot) (headHash : String) (policy : RetentionPolicy) :
    Except String (List SnapshotInfo × List String × List String) := do
  let allSnapshots ← walkDagWithCas codec store headHash
  ensureSnapshotDagIsAcyclic allSnapshots
  let allSnapshots := sortNewestFirst allSnapshots
  let (keep, removed) := applyRetention policy headHash allSnapshots 0 0
  return (allSnapshots, keep, removed)

/-- `compact_single_project`, from the verified head hash to the head it publishes.  Reading,
locking and advancing the signed head ref are outside the model. -/
def compactSingleProject (store : List ProjectSnapshot) (headHash : String)
    (policy : RetentionPolicy) (dryRun : Bool) : Except String CompactionOutcome := do
  let (allSnapshots, keep, removed) ← selectRetained codec store headHash policy
  if allSnapshots.isEmpty || removed.isEmpty then
    return { snapshotsRemoved := 0, snapshotsRewritten := 0, newHead := headHash, store }
  let keptTopo := topologicalSortKept allSnapshots keep
  if keptTopo.length ≠ keep.length then
    throw s!"compaction: topological sort returned {keptTopo.length} nodes but {keep.length} are kept"
  let st ← keptTopo.foldlM (rewriteKept codec allSnapshots keep dryRun) ⟨[], 0, store⟩
  return { snapshotsRemoved := removed.length, snapshotsRewritten := st.snapshotsRewritten,
           newHead := remapped st.hashRemap headHash, store := st.store }

/-- One parent link of the stored DAG: `p` is a parent of the snapshot stored under `h`. -/
def ParentLink (store : List ProjectSnapshot) (h p : String) : Prop :=
  ∃ s, load codec store h = some s ∧ p ∈ s.parentHashes

/-! ## A rewrite that revives removed history

A chain `head → X → K → Y → R`, in which `X` and `Y` are automatic snapshots and `K` and `R`
manual pushes.  With two manual pushes and no automatic snapshot retained, `X` and `Y` are
removed and `head`, `K` and `R` are kept.  None of the kept snapshots has a *kept* direct
parent, so all three are roots for `topological_sort_kept`, and the stack pops the greatest
hash first.  When that is the head's, the head is rewritten against `K` before `K` itself is
rewritten against `R`, and the new head names the old `K`, whose parent is the removed `Y`.
The hashes below are 64 lowercase hex digits ordered as a run of SHA-256 may order them.
-/

/-- Sixty-four copies of one hex digit. -/
def hexOf (c : Char) : String := String.ofList (List.replicate 64 c)

/-- The manual root `R`. -/
def sampleRoot : ProjectSnapshot :=
  { projectTreeHash := hexOf 'a', effectivePolicyHash := hexOf 'c', message := none,
    parentHashes := [], createdAt := "2026-04-20T00:00:00Z", source := "push" }

/-- The automatic snapshot `Y` above the root. -/
def sampleLowerRemoved : ProjectSnapshot :=
  { sampleRoot with
    parentHashes := [hexOf '1'], createdAt := "2026-04-21T00:00:00Z", source := "fold_back" }

/-- The manual push `K` above `Y`. -/
def sampleKept : ProjectSnapshot :=
  { sampleRoot with
    parentHashes := [hexOf '2'], createdAt := "2026-04-22T00:00:00Z", source := "push" }

/-- The automatic snapshot `X` above `K`. -/
def sampleUpperRemoved : ProjectSnapshot :=
  { sampleRoot with
    parentHashes := [hexOf '3'], createdAt := "2026-04-23T00:00:00Z", source := "fold_back" }

/-- The head, above `X`. -/
def sampleHead : ProjectSnapshot :=
  { sampleRoot with
    parentHashes := [hexOf '4'], createdAt := "2026-04-24T00:00:00Z", source := "fold_back" }

/-- An injective hash on the snapshots of this run, with the head's hash above `K`'s and
`R`'s. -/
def sampleCodec : SnapshotCodec where
  hash s :=
    if s = sampleRoot then hexOf '1'
    else if s = sampleLowerRemoved then hexOf '2'
    else if s = sampleKept then hexOf '3'
    else if s = sampleUpperRemoved then hexOf '4'
    else if s = sampleHead then hexOf '5'
    else if s = { sampleHead with parentHashes := [hexOf '3'] } then hexOf '6'
    else if s = { sampleKept with parentHashes := [hexOf '1'] } then hexOf '7'
    else hexOf '0'
  accepts _ := true

/-- The five stored snapshots. -/
def sampleStore : List ProjectSnapshot :=
  [sampleRoot, sampleLowerRemoved, sampleKept, sampleUpperRemoved, sampleHead]

/-- **Compaction keeps removed history reachable.**  Retention removes `Y` (`hexOf '2'`) and
`X`; the rewrite publishes a new head (`hexOf '6'`) whose parent is the pre-rewrite `K`
(`hexOf '3'`), through which the removed `Y` is still reachable. -/
theorem compaction_revives_removed_snapshot :
    (selectRetained sampleCodec sampleStore (hexOf '5') ⟨2, 0⟩).map (·.2) =
      .ok ([hexOf '5', hexOf '3', hexOf '1'], [hexOf '4', hexOf '2']) ∧
    ∃ store, (compactSingleProject sampleCodec sampleStore (hexOf '5') ⟨2, 0⟩ false).map
        (fun o => (o.newHead, o.store)) = .ok (hexOf '6', store) ∧
      Relation.ReflTransGen (ParentLink sampleCodec store) (hexOf '6') (hexOf '3') ∧
      Relation.ReflTransGen (ParentLink sampleCodec store) (hexOf '6') (hexOf '2') := by
  let published := sampleStore ++
    [{ sampleHead with parentHashes := [hexOf '3'] }, { sampleKept with parentHashes := [hexOf '1'] }]
  have hHead : ParentLink sampleCodec published (hexOf '6') (hexOf '3') :=
    ⟨{ sampleHead with parentHashes := [hexOf '3'] }, by decide, by simp⟩
  have hKept : ParentLink sampleCodec published (hexOf '3') (hexOf '2') :=
    ⟨sampleKept, by decide, by simp [sampleKept]⟩
  exact ⟨by decide, published, by decide, .single hHead, .tail (.single hHead) hKept⟩

end Ryeos.State
