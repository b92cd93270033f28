import Mathlib
import Ryeos.Core.Kahn
import Ryeos.State.Compact

/-!
# The two Kahn loops of compaction

`compact.rs` runs Kahn's algorithm twice.  `ensure_snapshot_dag_is_acyclic` checks the walked
DAG before anything is written: every parent was discovered, and a queue of snapshots of
in-degree zero visits all of them.  `topological_sort_kept` orders the kept snapshots for the
rewrite, over their kept parents only, with a stack whose newly ready entries are pushed in
ascending order.

Both are instances of the worklist loop of the Kahn library (`kahnVisit_eq_length`,
`topoLoop_eq_loop`) on the graph of a predecessor table (`Kahn.childrenOf`): the walked
snapshots with their parents, and the kept snapshots with their kept parents.  So Kahn's theorem
applies to each:

* `ensure_snapshot_dag_is_acyclic_iff`: the check passes exactly when every parent was
  discovered and the parent relation has no cycle;
* `topological_sort_kept_orders_kept_parents_first`: the order lists distinct kept snapshots,
  each after its kept parents, and lists all of them exactly when the kept parents have no cycle.

The second is the order `compaction_revives_removed_snapshot` is about: it is a topological
order of the *direct* kept parents, and nothing more.
-/

namespace Ryeos.State

open Relation

/-! ## The worklists -/

/-- The stack of `topological_sort_kept`: `pop` takes the last entry. -/
def popLast (queue : List String) : Option (String × List String) :=
  queue.getLast?.map fun u => (u, queue.dropLast)

/-- The queue of `ensure_snapshot_dag_is_acyclic`: `pop_front` takes the first entry. -/
def popFront : List String → Option (String × List String)
  | [] => none
  | u :: rest => some (u, rest)

/-- Taking the last entry off a list leaves the others. -/
lemma dropLast_perm_erase {queue : List String} {u : String} (h : queue.getLast? = some u) :
    queue.dropLast.Perm (queue.erase u) := by
  have hsplit : queue = queue.dropLast ++ [u] := (List.dropLast_append_getLast? u h).symm
  have hperm : (queue.dropLast ++ [u]).Perm (u :: queue.dropLast) := List.perm_append_singleton _ _
  rw [hsplit, List.dropLast_concat]
  simpa using (hperm.erase u).symm

lemma worklist_popLast : Kahn.Worklist popLast sortStrings where
  pop_none := fun queue => by simp [popLast]
  pop_some := fun queue u rest h => by
    simp only [popLast, Option.map_eq_some_iff, Prod.mk.injEq] at h
    obtain ⟨u', hlast, rfl, rfl⟩ := h
    exact ⟨List.mem_of_getLast? hlast, dropLast_perm_erase hlast⟩
  arrange_perm := fun l => List.perm_insertionSort _ l

lemma worklist_popFront : Kahn.Worklist popFront id where
  pop_none := fun queue => by cases queue <;> simp [popFront]
  pop_some := fun queue u rest h => by
    cases queue with
    | nil => cases h
    | cons v queue =>
      simp only [popFront, Option.some.injEq, Prod.mk.injEq] at h
      obtain ⟨rfl, rfl⟩ := h
      simp
  arrange_perm := fun l => List.Perm.refl _

/-! ## The loops are the library's -/

/-- `topological_sort_kept`'s loop is the worklist loop with a stack and sorted pushes. -/
lemma topoLoop_eq_loop (children : String → List String) :
    ∀ fuel queue inDegree result, topoLoop children fuel queue inDegree result =
      Kahn.loop children popLast sortStrings fuel queue inDegree result
  | 0, _, _, _ => rfl
  | fuel + 1, queue, inDegree, result => by
    cases h : queue.getLast? with
    | none => simp [topoLoop, Kahn.loop, popLast, h]
    | some node => simp [topoLoop, Kahn.loop, popLast, h, topoLoop_eq_loop children fuel]

/-- `ensure_snapshot_dag_is_acyclic`'s loop is the worklist loop with a queue, counting what it
takes. -/
lemma kahnVisit_eq_length (snapshots : List SnapshotInfo) :
    ∀ fuel queue inDegree (taken : List String),
      kahnVisit snapshots fuel queue inDegree taken.length =
        (Kahn.loop (Kahn.childrenOf snapshots (·.hash) (·.parentHashes)) popFront id fuel queue
          inDegree taken).length
  | 0, _, _, _ => rfl
  | _ + 1, [], _, _ => rfl
  | fuel + 1, hash :: queue, inDegree, taken => by
    have ih := kahnVisit_eq_length snapshots fuel
    simp only [kahnVisit, Kahn.loop, popFront, id]
    rw [← ih, List.length_append, List.length_singleton]
    rfl

/-! ## The kept parents -/

/-- The kept parents of `h`, in order: the `kept_parents` of `topological_sort_kept`. -/
def keptParentsOf (allSnapshots : List SnapshotInfo) (keep : List String) (h : String) :
    List String :=
  ((allSnapshots.find? (·.hash = h)).map fun s => s.parentHashes.filter keep.contains).getD []

/-- `p` is a kept parent of the kept snapshot `h`. -/
def KeptParent (allSnapshots : List SnapshotInfo) (keep : List String) (p h : String) : Prop :=
  h ∈ keep ∧ p ∈ keptParentsOf allSnapshots keep h

lemma mem_keep_of_mem_keptParentsOf {allSnapshots : List SnapshotInfo} {keep : List String}
    {p h : String} (hp : p ∈ keptParentsOf allSnapshots keep h) : p ∈ keep := by
  unfold keptParentsOf at hp
  cases hfind : allSnapshots.find? (·.hash = h) with
  | none => simp [hfind] at hp
  | some s =>
    simp only [hfind, Option.map_some, Option.getD_some, List.mem_filter,
      List.contains_iff_mem] at hp
    exact hp.2

/-- The graph Kahn's loop runs on in `topological_sort_kept` has the kept-parent edges. -/
lemma edge_keptChildren_iff (allSnapshots : List SnapshotInfo) (keep : List String) :
    Kahn.Edge keep (Kahn.childrenOf keep (fun h => h) (keptParentsOf allSnapshots keep)) =
      KeptParent allSnapshots keep := by
  funext p h
  simp only [Kahn.Edge, Kahn.mem_childrenOf, KeptParent, eq_iff_iff]
  constructor
  · rintro ⟨-, x, hx, rfl, hp⟩
    exact ⟨hx, hp⟩
  · rintro ⟨hh, hp⟩
    exact ⟨mem_keep_of_mem_keptParentsOf hp, h, hh, rfl, hp⟩

/-- In a list without duplicates, the entries equal to a member are that member once. -/
lemma filter_eq_singleton {l : List String} (hl : l.Nodup) {v : String} (hv : v ∈ l) :
    l.filter (· = v) = [v] := by
  rw [List.filter_eq, List.count_eq_one_of_mem hl hv, List.replicate_one]

/-- **`topological_sort_kept` is a topological order of the direct kept parents.**  Over kept
snapshots without duplicates it lists distinct kept snapshots, each after all of its kept
parents, and it lists every kept snapshot exactly when the kept-parent relation has no cycle. -/
theorem topological_sort_kept_orders_kept_parents_first (allSnapshots : List SnapshotInfo)
    {keep : List String} (hkeep : keep.Nodup) :
    (topologicalSortKept allSnapshots keep).Nodup ∧
      (∀ h ∈ topologicalSortKept allSnapshots keep, h ∈ keep) ∧
      (∀ p h, KeptParent allSnapshots keep p h → h ∈ topologicalSortKept allSnapshots keep →
        p ∈ topologicalSortKept allSnapshots keep ∧
          (topologicalSortKept allSnapshots keep).idxOf p <
            (topologicalSortKept allSnapshots keep).idxOf h) ∧
      ((topologicalSortKept allSnapshots keep).length = keep.length ↔
        ∀ h, ¬ TransGen (KeptParent allSnapshots keep) h h) := by
  let parents := keptParentsOf allSnapshots keep
  have hclosed : ∀ u ∈ keep, ∀ v ∈ Kahn.childrenOf keep (fun h => h) parents u, v ∈ keep :=
    fun u _ v hv => by simpa using Kahn.mem_map_of_mem_childrenOf hv
  -- the in-degree of a kept snapshot is its number of kept parents
  have hdegree : ∀ v ∈ keep, (parents v).length =
      (keep.map fun u => (Kahn.childrenOf keep (fun h => h) parents u).count v).sum := by
    intro v hv
    rw [Kahn.sum_count_childrenOf hkeep fun x _ u hu => mem_keep_of_mem_keptParentsOf hu,
      filter_eq_singleton hkeep hv]
    simp only [List.map_cons, List.map_nil, List.sum_cons, List.sum_nil, add_zero, parents]
  have hroots : (sortStrings (keep.filter fun h => (parents h).length = 0)).Nodup :=
    (List.perm_insertionSort _ _).nodup_iff.mpr (hkeep.filter _)
  have hready : ∀ v, v ∈ sortStrings (keep.filter fun h => (parents h).length = 0) ↔
      v ∈ keep ∧ (parents v).length = 0 := fun v => by
    rw [sortStrings, (List.perm_insertionSort _ _).mem_iff, List.mem_filter, decide_eq_true_iff]
  obtain ⟨hnodup, hsub, hordered, hall⟩ :=
    Kahn.loop_spec worklist_popLast hkeep hclosed hdegree hroots hready (Nat.lt_succ_self _)
  rw [Kahn.Acyclic, edge_keptChildren_iff] at hall
  rw [edge_keptChildren_iff] at hordered
  have horder : topologicalSortKept allSnapshots keep =
      Kahn.loop (Kahn.childrenOf keep (fun h => h) parents) popLast sortStrings
        (keep.length + 1) (sortStrings (keep.filter fun h => (parents h).length = 0))
        (fun h => (parents h).length) [] :=
    topoLoop_eq_loop _ _ _ _ _
  rw [horder]
  exact ⟨hnodup, hsub, fun p h hph hh => hordered p h hph hh, hall⟩

/-- Two kept snapshots `b` and `a` of three, `a` naming the removed `r` and `b`: `b` comes
first. -/
theorem topological_sort_kept_lists_parent_first :
    let snapshot : ProjectSnapshot := ⟨"", "", none, [], "", "push"⟩
    let allSnapshots : List SnapshotInfo :=
      [⟨"a", "push", ["r", "b"], "3", snapshot⟩, ⟨"r", "push", ["b"], "2", snapshot⟩,
       ⟨"b", "push", [], "1", snapshot⟩]
    ["a", "b"].Nodup ∧
    ((topologicalSortKept allSnapshots ["a", "b"]).Nodup ∧
      (∀ h ∈ topologicalSortKept allSnapshots ["a", "b"], h ∈ ["a", "b"]) ∧
      (∀ p h, KeptParent allSnapshots ["a", "b"] p h →
        h ∈ topologicalSortKept allSnapshots ["a", "b"] →
        p ∈ topologicalSortKept allSnapshots ["a", "b"] ∧
          (topologicalSortKept allSnapshots ["a", "b"]).idxOf p <
            (topologicalSortKept allSnapshots ["a", "b"]).idxOf h) ∧
      ((topologicalSortKept allSnapshots ["a", "b"]).length = ["a", "b"].length ↔
        ∀ h, ¬ TransGen (KeptParent allSnapshots ["a", "b"]) h h)) := by
  intro snapshot allSnapshots
  have hkeep : ["a", "b"].Nodup := by decide
  exact ⟨hkeep, topological_sort_kept_orders_kept_parents_first allSnapshots hkeep⟩

/-! ## The acyclicity check -/

/-- `p` is a listed parent of a walked snapshot `h`. -/
def ParentOf (snapshots : List SnapshotInfo) (p h : String) : Prop :=
  ∃ s ∈ snapshots, s.hash = h ∧ p ∈ s.parentHashes

/-- With every parent discovered, the graph Kahn's loop runs on in
`ensure_snapshot_dag_is_acyclic` has the parent edges. -/
lemma edge_children_iff {snapshots : List SnapshotInfo}
    (hfound : ∀ s ∈ snapshots, ∀ p ∈ s.parentHashes, p ∈ snapshots.map (·.hash)) :
    Kahn.Edge (snapshots.map (·.hash)) (Kahn.childrenOf snapshots (·.hash) (·.parentHashes)) =
      ParentOf snapshots := by
  funext p h
  simp only [Kahn.Edge, Kahn.mem_childrenOf, ParentOf, eq_iff_iff]
  constructor
  · rintro ⟨-, hedge⟩
    exact hedge
  · rintro ⟨s, hs, hh, hp⟩
    exact ⟨hfound s hs p hp, s, hs, hh, hp⟩

/-- The search for an undiscovered parent finds none exactly when every parent was
discovered. -/
lemma findSome_undiscovered_eq_none (snapshots : List SnapshotInfo) :
    snapshots.findSome? (fun s => (s.parentHashes.find? fun p =>
        !(snapshots.map (·.hash)).contains p).map fun p => (s.hash, p)) = none ↔
      ∀ s ∈ snapshots, ∀ p ∈ s.parentHashes, p ∈ snapshots.map (·.hash) := by
  simp only [List.findSome?_eq_none_iff, Option.map_eq_none_iff, List.find?_eq_none,
    Bool.not_eq_true', List.contains_eq_mem, decide_eq_false_iff_not, not_not]

/-- **`ensure_snapshot_dag_is_acyclic` passes exactly on a DAG.**  For walked snapshots with
distinct hashes, the check passes exactly when every parent was discovered and no snapshot is
its own ancestor. -/
theorem ensure_snapshot_dag_is_acyclic_iff {snapshots : List SnapshotInfo}
    (hhashes : (snapshots.map (·.hash)).Nodup) :
    ensureSnapshotDagIsAcyclic snapshots = .ok () ↔
      (∀ s ∈ snapshots, ∀ p ∈ s.parentHashes, p ∈ snapshots.map (·.hash)) ∧
        ∀ h, ¬ TransGen (ParentOf snapshots) h h := by
  unfold ensureSnapshotDagIsAcyclic
  dsimp only
  cases hsearch : snapshots.findSome? (fun s => (s.parentHashes.find? fun p =>
      !(snapshots.map (·.hash)).contains p).map fun p => (s.hash, p)) with
  | some found =>
    -- an undiscovered parent is reported before any counting
    obtain ⟨hash, parent⟩ := found
    have hmissing : ¬ ∀ s ∈ snapshots, ∀ p ∈ s.parentHashes, p ∈ snapshots.map (·.hash) :=
      fun hall => by
        rw [(findSome_undiscovered_eq_none snapshots).mpr hall] at hsearch
        cases hsearch
    dsimp only
    exact iff_of_false (fun h => nomatch h) fun h => hmissing h.1
  | none =>
    have hfound := (findSome_undiscovered_eq_none snapshots).mp hsearch
    let inDegree := fun h =>
      ((snapshots.filter (·.hash = h)).map (·.parentHashes.length)).sum
    have hclosed : ∀ u ∈ snapshots.map (·.hash),
        ∀ v ∈ Kahn.childrenOf snapshots (·.hash) (·.parentHashes) u,
          v ∈ snapshots.map (·.hash) := fun u _ v hv => Kahn.mem_map_of_mem_childrenOf hv
    have hdegree : ∀ v ∈ snapshots.map (·.hash), inDegree v = ((snapshots.map (·.hash)).map
        fun u => (Kahn.childrenOf snapshots (·.hash) (·.parentHashes) u).count v).sum :=
      fun v _ => (Kahn.sum_count_childrenOf hhashes hfound v).symm
    have hready : ∀ v, v ∈ (snapshots.map (·.hash)).filter (fun h => inDegree h = 0) ↔
        v ∈ snapshots.map (·.hash) ∧ inDegree v = 0 := fun v => by
      rw [List.mem_filter, decide_eq_true_iff]
    obtain ⟨-, -, -, hall⟩ := Kahn.loop_spec worklist_popFront hhashes hclosed hdegree
      (hhashes.filter _) hready (Nat.lt_succ_self _)
    rw [Kahn.Acyclic, edge_children_iff hfound, List.length_map] at hall
    have hcount := kahnVisit_eq_length snapshots (snapshots.length + 1)
      ((snapshots.map (·.hash)).filter fun h => inDegree h = 0) inDegree []
    simp only [List.length_nil] at hcount
    dsimp only
    rw [hcount]
    split_ifs with hne
    · exact iff_of_false (fun h => nomatch h) fun h => hne (hall.mpr h.2)
    · exact iff_of_true rfl ⟨hfound, hall.mp (not_not.mp hne)⟩

/-- The DAG `a → b` of two walked snapshots passes the check. -/
theorem ensure_snapshot_dag_is_acyclic_on_two_snapshots :
    let snapshot : ProjectSnapshot := ⟨"", "", none, [], "", "push"⟩
    let snapshots : List SnapshotInfo :=
      [⟨"a", "push", ["b"], "2", snapshot⟩, ⟨"b", "push", [], "1", snapshot⟩]
    (snapshots.map (·.hash)).Nodup ∧
    (ensureSnapshotDagIsAcyclic snapshots = .ok () ↔
      (∀ s ∈ snapshots, ∀ p ∈ s.parentHashes, p ∈ snapshots.map (·.hash)) ∧
        ∀ h, ¬ TransGen (ParentOf snapshots) h h) := by
  intro snapshot snapshots
  have hhashes : (snapshots.map (·.hash)).Nodup := by decide
  exact ⟨hhashes, ensure_snapshot_dag_is_acyclic_iff hhashes⟩

end Ryeos.State
