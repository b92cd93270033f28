import Mathlib

/-!
# Kahn's algorithm on a finite multigraph

A graph is a list of nodes and, for each node, the list of its successors; a successor listed
twice is two parallel edges.  Kahn's algorithm repeatedly *takes* a node none of whose
predecessors is left, and lowers the in-degrees of its successors.  Whatever an implementation
keeps its ready nodes in (a queue, a stack, an ordered set), its state is the list of nodes
taken so far, an in-degree per node, and the set of ready nodes.

**The invariant.**  `Kahn.Invariant` says that the degrees count the edges from the nodes not
yet taken, that the ready nodes are exactly the untaken nodes of degree zero, and that every
node was taken after all of its predecessors.  It holds at the start (`Invariant.init`) and
after each step (`Invariant.take`), for any choice of the ready node taken.

**The end.**  Once no node is ready, a node is left over exactly when its degree is positive,
and every node left over lies below a cycle (`Invariant.below_cycle`): each of them has a
predecessor that is left over too, and a finite set in which every element has a predecessor
holds a cycle (`exists_cycle_above`).  So the loop takes every node exactly when the graph has
no cycle (`Invariant.length_eq_iff_acyclic`).  A taken node is never on a cycle, since the order
of taking strictly increases along every edge into it (`not_on_cycle_of_ordered`).
-/

namespace Kahn

open Relation

/-! ## Cycles in finite relations -/

section Cycles

variable {α : Type} {E : α → α → Prop}

/-- If every element of a finite set has a predecessor in the set, then every element of it is
reachable from a cycle.  Walking backwards can never stop, so it must come round: an element
with no cycle above it would have strictly fewer ancestors than each of its successors. -/
theorem exists_cycle_above (S : List α) (hpred : ∀ v ∈ S, ∃ u ∈ S, E u v) :
    ∀ v ∈ S, ∃ z, TransGen E z z ∧ ReflTransGen E z v := by
  classical
  intro v hv
  by_contra hnone
  simp only [not_exists, not_and] at hnone
  -- `above w` counts the ancestors of `w` in `S`; it drops along every edge into the part of
  -- `S` that reaches `v`.
  let above : α → ℕ := fun w => (S.toFinset.filter fun z => TransGen E z w).card
  have descent : ∀ n, ∀ w ∈ S, ReflTransGen E w v → above w = n → False := by
    intro n
    induction n using Nat.strong_induction_on with
    | _ n ih =>
      intro w hw hreach hn
      obtain ⟨u, hu, hedge⟩ := hpred w hw
      have hureach : ReflTransGen E u v := ReflTransGen.head hedge hreach
      have hlt : above u < above w := by
        apply Finset.card_lt_card
        refine ⟨fun z hz => ?_, fun hsub => ?_⟩
        · simp only [Finset.mem_filter] at hz ⊢
          exact ⟨hz.1, hz.2.tail hedge⟩
        · have hself : u ∈ S.toFinset.filter fun z => TransGen E z w :=
            Finset.mem_filter.mpr ⟨List.mem_toFinset.mpr hu, .single hedge⟩
          exact hnone u (Finset.mem_filter.mp (hsub hself)).2 hureach
      exact ih (above u) (hn ▸ hlt) u hu hureach rfl
  exact descent _ v hv ReflTransGen.refl rfl

/-- A list along which every edge into one of its members comes from an earlier member. -/
def Ordered [BEq α] (E : α → α → Prop) (L : List α) : Prop :=
  ∀ u v, E u v → v ∈ L → u ∈ L ∧ L.idxOf u < L.idxOf v

/-- Along an ordered list, every path into a member starts at an earlier member. -/
theorem Ordered.transGen [BEq α] [LawfulBEq α] {L : List α} (hord : Ordered E L) {a b : α}
    (hpath : TransGen E a b) (hb : b ∈ L) : a ∈ L ∧ L.idxOf a < L.idxOf b := by
  induction hpath with
  | single hedge => exact hord _ _ hedge hb
  | tail _ hedge ih =>
    obtain ⟨hc, hcb⟩ := hord _ _ hedge hb
    obtain ⟨ha, hac⟩ := ih hc
    exact ⟨ha, hac.trans hcb⟩

/-- No member of an ordered list lies on a cycle. -/
theorem not_on_cycle_of_ordered [BEq α] [LawfulBEq α] {L : List α} (hord : Ordered E L)
    {v : α} (hv : v ∈ L) : ¬ TransGen E v v := fun hcycle =>
  (lt_irrefl _ (hord.transGen hcycle hv).2)

end Cycles

/-! ## The graph and the invariant -/

variable {α : Type} [DecidableEq α]

section Graph

variable (nodes : List α) (adj : α → List α)

/-- An edge `u → v`: `v` is among the successors of the node `u`. -/
def Edge (u v : α) : Prop := u ∈ nodes ∧ v ∈ adj u

/-- No node lies on a cycle. -/
def Acyclic : Prop := ∀ v, ¬ TransGen (Edge nodes adj) v v

/-- The in-degree of `v` over the edges from the nodes not in `taken`. -/
def remaining (taken : List α) (v : α) : ℕ :=
  ((nodes.filter (· ∉ taken)).map fun u => (adj u).count v).sum

/-- What every implementation of Kahn's loop keeps, with the ready nodes given by membership. -/
structure Invariant (taken : List α) (degree : α → ℕ) (ready : α → Prop) : Prop where
  nodup : taken.Nodup
  subset : ∀ v ∈ taken, v ∈ nodes
  degree_eq : ∀ v ∈ nodes, degree v = remaining nodes adj taken v
  ready_iff : ∀ v, ready v ↔ v ∈ nodes ∧ v ∉ taken ∧ degree v = 0
  ordered : Ordered (Edge nodes adj) taken

end Graph

section Lemmas

variable {nodes : List α} {adj : α → List α}

/-- Before any node is taken, `remaining` is the in-degree. -/
@[simp] theorem remaining_nil (v : α) :
    remaining nodes adj [] v = (nodes.map fun u => (adj u).count v).sum := by
  simp [remaining]

/-- The degree of `v` is zero exactly when no untaken node has `v` as a successor. -/
theorem remaining_eq_zero_iff {taken : List α} {v : α} :
    remaining nodes adj taken v = 0 ↔ ∀ u ∈ nodes, u ∉ taken → v ∉ adj u := by
  simp only [remaining, List.sum_eq_zero_iff, List.mem_map, List.mem_filter]
  constructor
  · intro h u hu hnot hvu
    have hzero := h _ ⟨u, ⟨hu, by simpa using hnot⟩, rfl⟩
    exact (List.count_pos_iff.mpr hvu).ne' hzero
  · rintro h _ ⟨u, ⟨hu, hnot⟩, rfl⟩
    exact List.count_eq_zero.mpr (h u hu (by simpa using hnot))

/-- Taking the untaken node `u` removes exactly its edges from every degree. -/
theorem remaining_snoc (hnodes : nodes.Nodup) {taken : List α} {u : α} (hu : u ∈ nodes)
    (hnot : u ∉ taken) (v : α) :
    remaining nodes adj (taken ++ [u]) v + (adj u).count v = remaining nodes adj taken v := by
  have hmem : u ∈ nodes.filter (· ∉ taken) := List.mem_filter.mpr ⟨hu, by simpa using hnot⟩
  have herase : (nodes.filter (· ∉ taken)).erase u = nodes.filter (· ∉ taken ++ [u]) := by
    rw [(hnodes.filter _).erase_eq_filter, List.filter_filter]
    congr 1
    funext x
    rcases eq_or_ne x u with rfl | hne <;> simp [*]
  have hperm := (List.perm_cons_erase hmem).map fun w => (adj w).count v
  rw [remaining, remaining, hperm.sum_eq, ← herase]
  simp [add_comm]

/-- The edges from one untaken node are part of every degree. -/
theorem count_le_remaining (hnodes : nodes.Nodup) {taken : List α} {u : α} (hu : u ∈ nodes)
    (hnot : u ∉ taken) (v : α) : (adj u).count v ≤ remaining nodes adj taken v := by
  rw [← remaining_snoc hnodes hu hnot v]
  omega

variable {taken : List α} {degree : α → ℕ} {ready : α → Prop}

/-- The invariant at the start: nothing taken, the in-degrees, and the nodes of in-degree zero. -/
theorem Invariant.init (hdegree : ∀ v ∈ nodes, degree v = (nodes.map fun u => (adj u).count v).sum)
    (hready : ∀ v, ready v ↔ v ∈ nodes ∧ degree v = 0) : Invariant nodes adj [] degree ready where
  nodup := List.nodup_nil
  subset := by simp
  degree_eq := fun v hv => by rw [remaining_nil, hdegree v hv]
  ready_iff := fun v => by simp [hready]
  ordered := fun _ _ _ hv => absurd hv (List.not_mem_nil)

variable (inv : Invariant nodes adj taken degree ready)
include inv

/-- A ready node is an untaken node. -/
theorem Invariant.not_mem_of_ready {u : α} (hu : ready u) : u ∈ nodes ∧ u ∉ taken :=
  let h := (inv.ready_iff u).mp hu
  ⟨h.1, h.2.1⟩

/-- A taken node has degree zero: all its predecessors were taken before it. -/
theorem Invariant.degree_eq_zero_of_mem {v : α} (hv : v ∈ taken) : degree v = 0 := by
  rw [inv.degree_eq v (inv.subset v hv), remaining_eq_zero_iff]
  intro u hu hnot hvu
  exact hnot (inv.ordered u v ⟨hu, hvu⟩ hv).1

/-- The edges from an untaken node are part of the degree of each of its successors. -/
theorem Invariant.count_le_degree (hnodes : nodes.Nodup) {u v : α} (hu : u ∈ nodes)
    (hnot : u ∉ taken) (hv : v ∈ nodes) : (adj u).count v ≤ degree v := by
  rw [inv.degree_eq v hv]
  exact count_le_remaining hnodes hu hnot v

/-- While some node is untaken, fewer nodes have been taken than there are. -/
theorem Invariant.length_lt_of_not_mem {v : α} (hv : v ∈ nodes) (hvt : v ∉ taken) :
    taken.length < nodes.length := by
  have hsub : (v :: taken).Nodup := List.nodup_cons.mpr ⟨hvt, inv.nodup⟩
  have hsubset : v :: taken ⊆ nodes := by
    intro w hw
    rcases List.mem_cons.mp hw with rfl | hw
    · exact hv
    · exact inv.subset w hw
  simpa using (hsub.subperm hsubset).length_le

/-- While a node is ready, fewer nodes have been taken than there are. -/
theorem Invariant.length_lt {u : α} (hu : ready u) : taken.length < nodes.length :=
  let h := inv.not_mem_of_ready hu
  inv.length_lt_of_not_mem h.1 h.2

/-- **One step of Kahn's loop.**  Taking a ready node `u`, lowering the degree of each successor
by its number of edges from `u`, and making ready the successors whose degree reaches zero keeps
the invariant.  The successors of a node must be nodes. -/
theorem Invariant.take (hnodes : nodes.Nodup) (hclosed : ∀ u ∈ nodes, ∀ v ∈ adj u, v ∈ nodes)
    {u : α} (hu : ready u) {degree' : α → ℕ} {ready' : α → Prop}
    (hdegree : ∀ v ∈ nodes, degree' v = degree v - (adj u).count v)
    (hready : ∀ v, ready' v ↔ (ready v ∧ v ≠ u) ∨ (v ∈ adj u ∧ degree' v = 0)) :
    Invariant nodes adj (taken ++ [u]) degree' ready' := by
  obtain ⟨hun, hnot⟩ := inv.not_mem_of_ready hu
  have hdeg_u : degree u = 0 := ((inv.ready_iff u).mp hu).2.2
  -- The degrees after the step are the `remaining` degrees without `u`'s edges.
  have hstep : ∀ v ∈ nodes, degree' v = remaining nodes adj (taken ++ [u]) v := by
    intro v hv
    rw [hdegree v hv, inv.degree_eq v hv, ← remaining_snoc hnodes hun hnot v]
    omega
  refine ⟨?_, ?_, hstep, ?_, ?_⟩
  · refine List.nodup_append.mpr ⟨inv.nodup, List.nodup_singleton u, fun a ha b hb hab => ?_⟩
    rw [List.mem_singleton] at hb
    exact hnot (hb ▸ hab ▸ ha)
  · intro v hv
    rcases List.mem_append.mp hv with hv | hv
    · exact inv.subset v hv
    · exact (List.mem_singleton.mp hv) ▸ hun
  · intro v
    rw [hready v]
    constructor
    · rintro (⟨hrv, hne⟩ | ⟨hvu, hzero⟩)
      · obtain ⟨hvn, hvt, hv0⟩ := (inv.ready_iff v).mp hrv
        refine ⟨hvn, by simpa [hne] using hvt, ?_⟩
        rw [hdegree v hvn, hv0, Nat.zero_sub]
      · have hvn := hclosed u hun v hvu
        -- `v` is not taken: a taken node has all its predecessors taken, and `u` is not.
        have hvt : v ∉ taken := fun hvt => hnot (inv.ordered u v ⟨hun, hvu⟩ hvt).1
        -- `v` is not `u`: an untaken node with an edge to itself has positive degree.
        have hne : v ≠ u := by
          rintro rfl
          have hcount : 0 < (adj v).count v := List.count_pos_iff.mpr hvu
          have := inv.count_le_degree hnodes hun hnot hun
          omega
        exact ⟨hvn, by simpa [hne] using hvt, hzero⟩
    · rintro ⟨hvn, hvt, hzero⟩
      have hvt' : v ∉ taken := fun h => hvt (List.mem_append_left _ h)
      have hne : v ≠ u := by
        rintro rfl
        exact hvt (List.mem_append_right _ (List.mem_singleton_self _))
      by_cases hvu : v ∈ adj u
      · exact .inr ⟨hvu, hzero⟩
      · have hcount : (adj u).count v = 0 := List.count_eq_zero.mpr hvu
        have hv0 : degree v = 0 := by rw [hdegree v hvn, hcount] at hzero; simpa using hzero
        exact .inl ⟨(inv.ready_iff v).mpr ⟨hvn, hvt', hv0⟩, hne⟩
  · intro a b hab hb
    rcases List.mem_append.mp hb with hb | hb
    · obtain ⟨ha, hlt⟩ := inv.ordered a b hab hb
      refine ⟨List.mem_append_left _ ha, ?_⟩
      rwa [List.idxOf_append_of_mem ha, List.idxOf_append_of_mem hb]
    · -- `b = u`: its degree is zero, so every predecessor of it was taken before.
      obtain rfl := List.mem_singleton.mp hb
      have ha : a ∈ taken := by
        by_contra hat
        have hzero := (inv.degree_eq b hun).symm.trans hdeg_u
        exact (remaining_eq_zero_iff.mp hzero) a hab.1 hat hab.2
      refine ⟨List.mem_append_left _ ha, ?_⟩
      rw [List.idxOf_append_of_mem ha, List.idxOf_append_of_notMem hnot]
      simpa using List.idxOf_lt_length_of_mem ha

/-- **One step of a worklist.**  With the ready nodes kept in a list without duplicates, taking
`u` off it leaves the others, in any order, and the successors of `u` whose degree drops from a
positive one to zero are added, in any order: the invariant holds for the new list, which still
has no duplicates. -/
theorem Invariant.take_worklist (hnodes : nodes.Nodup)
    (hclosed : ∀ u ∈ nodes, ∀ v ∈ adj u, v ∈ nodes) {queue : List α}
    (hqueue : ∀ v, ready v ↔ v ∈ queue) (hnodup : queue.Nodup) {u : α} (hu : u ∈ queue)
    {rest fresh : List α} (hrest : rest.Perm (queue.erase u))
    (hfresh : fresh.Perm
      ((adj u).dedup.filter fun v => degree v ≠ 0 ∧ degree v - (adj u).count v = 0)) :
    Invariant nodes adj (taken ++ [u]) (fun v => degree v - (adj u).count v)
        (· ∈ rest ++ fresh) ∧ (rest ++ fresh).Nodup := by
  have hready : ready u := (hqueue u).mpr hu
  obtain ⟨hun, hnot⟩ := inv.not_mem_of_ready hready
  -- a successor of `u` has a positive degree while `u` is untaken
  have hpos : ∀ v ∈ adj u, degree v ≠ 0 := fun v hv => by
    have hcount : 0 < (adj u).count v := List.count_pos_iff.mpr hv
    have := inv.count_le_degree hnodes hun hnot (hclosed u hun v hv)
    omega
  have hmemFresh : ∀ v, v ∈ fresh ↔ v ∈ adj u ∧ degree v - (adj u).count v = 0 := fun v => by
    rw [hfresh.mem_iff, List.mem_filter, List.mem_dedup]
    constructor
    · rintro ⟨hv, h⟩
      exact ⟨hv, (of_decide_eq_true h).2⟩
    · rintro ⟨hv, h⟩
      exact ⟨hv, decide_eq_true ⟨hpos v hv, h⟩⟩
  have hmemRest : ∀ v, v ∈ rest ↔ v ∈ queue ∧ v ≠ u := fun v => by
    rw [hrest.mem_iff, hnodup.mem_erase_iff, and_comm]
  refine ⟨inv.take hnodes hclosed hready (fun v _ => rfl) fun v => ?_, ?_⟩
  · rw [List.mem_append, hmemRest, hmemFresh, hqueue]
  · refine List.nodup_append.mpr ⟨hrest.nodup_iff.mpr (hnodup.erase u),
      hfresh.nodup_iff.mpr ((List.nodup_dedup _).filter _), fun a ha b hb hab => ?_⟩
    subst hab
    -- a listed node has degree zero, a fresh one a positive degree before the step
    have h0 : degree a = 0 := ((inv.ready_iff a).mp ((hqueue a).mpr ((hmemRest a).mp ha).1)).2.2
    exact hpos a ((hmemFresh a).mp hb).1 h0

/-! ## When no node is ready -/

variable (hdone : ∀ v, ¬ ready v)
include hdone

/-- Once no node is ready, a node is left over exactly when its degree is positive. -/
theorem Invariant.not_mem_iff_degree_pos {v : α} (hv : v ∈ nodes) : v ∉ taken ↔ 0 < degree v := by
  constructor
  · intro hvt
    by_contra hzero
    exact hdone v ((inv.ready_iff v).mpr ⟨hv, hvt, by omega⟩)
  · intro hpos hvt
    rw [inv.degree_eq_zero_of_mem hvt] at hpos
    exact lt_irrefl 0 hpos

/-- Once no node is ready, every node left over has a predecessor left over. -/
theorem Invariant.exists_pred {v : α} (hv : v ∈ nodes) (hvt : v ∉ taken) :
    ∃ u ∈ nodes.filter (· ∉ taken), Edge nodes adj u v := by
  have hpos := (inv.not_mem_iff_degree_pos hdone hv).mp hvt
  rw [inv.degree_eq v hv] at hpos
  by_contra hnone
  simp only [not_exists, not_and] at hnone
  have hzero : remaining nodes adj taken v = 0 :=
    remaining_eq_zero_iff.mpr fun u hu hut hvu =>
      hnone u (List.mem_filter.mpr ⟨hu, by simpa using hut⟩) ⟨hu, hvu⟩
  omega

/-- **Every node left over lies below a cycle.** -/
theorem Invariant.below_cycle {v : α} (hv : v ∈ nodes) (hvt : v ∉ taken) :
    ∃ z, TransGen (Edge nodes adj) z z ∧ ReflTransGen (Edge nodes adj) z v := by
  apply exists_cycle_above (nodes.filter (· ∉ taken)) _ v
  · exact List.mem_filter.mpr ⟨hv, by simpa using hvt⟩
  · intro w hw
    have hw' := List.mem_filter.mp hw
    exact inv.exists_pred hdone hw'.1 (by simpa using hw'.2)

/-- **Kahn's theorem.**  Once no node is ready, every node has been taken exactly when the graph
has no cycle. -/
theorem Invariant.length_eq_iff_acyclic (hnodes : nodes.Nodup) :
    taken.length = nodes.length ↔ Acyclic nodes adj := by
  have hle : taken.length ≤ nodes.length := (inv.nodup.subperm inv.subset).length_le
  constructor
  · intro hlen v hcycle
    have hvn : v ∈ nodes := by
      obtain ⟨w, hvw, _⟩ := TransGen.head'_iff.mp hcycle
      exact hvw.1
    -- All nodes are taken, and a taken node is on no cycle.
    have hvt : v ∈ taken := by
      by_contra hvt
      have := inv.length_lt_of_not_mem hvn hvt
      omega
    exact not_on_cycle_of_ordered inv.ordered hvt hcycle
  · intro hacyclic
    have hall : ∀ v ∈ nodes, v ∈ taken := by
      intro v hv
      by_contra hvt
      obtain ⟨z, hz, _⟩ := inv.below_cycle hdone hv hvt
      exact hacyclic z hz
    exact le_antisymm hle (hnodes.subperm hall).length_le

end Lemmas

/-! ## A worklist loop

Kahn's loop over a worklist of ready nodes, for a number of rounds: `pop` takes a node off the
list and the successors whose degree reaches zero go back in the order `arrange` gives them.  A
queue pops the front, a stack the back; any order of the new nodes will do (`Worklist`).  With
one round more than there are nodes, the loop stops with the worklist empty (`Invariant.loop`),
so Kahn's theorem applies to what it took (`loop_spec`).
-/

/-- `loop adj pop arrange fuel queue degree taken`: at most `fuel` rounds of Kahn's loop from
the worklist `queue`, the degrees `degree` and the nodes `taken` so far. -/
def loop (adj : α → List α) (pop : List α → Option (α × List α)) (arrange : List α → List α) :
    ℕ → List α → (α → ℕ) → List α → List α
  | 0, _, _, taken => taken
  | fuel + 1, queue, degree, taken =>
    match pop queue with
    | none => taken
    | some (u, rest) =>
      let degree' := fun v => degree v - (adj u).count v
      loop adj pop arrange fuel
        (rest ++ arrange ((adj u).dedup.filter fun v => degree v ≠ 0 ∧ degree' v = 0)) degree'
        (taken ++ [u])

/-- What a worklist must do: `pop` fails only on the empty list and otherwise takes one of its
nodes and leaves the others, and `arrange` reorders. -/
structure Worklist (pop : List α → Option (α × List α)) (arrange : List α → List α) : Prop where
  pop_none : ∀ queue, pop queue = none ↔ queue = []
  pop_some : ∀ queue u rest, pop queue = some (u, rest) → u ∈ queue ∧ rest.Perm (queue.erase u)
  arrange_perm : ∀ l, (arrange l).Perm l

section Loop

variable {nodes : List α} {adj : α → List α} {pop : List α → Option (α × List α)}
  {arrange : List α → List α}

/-- **A run of the loop.**  From a worklist without duplicates that holds exactly the ready
nodes, with more rounds than nodes left untaken, the loop ends with no node ready.  By induction
on the rounds: each round takes a ready node (`Invariant.take_worklist`), and there is one while
a node is left untaken and ready. -/
theorem Invariant.loop (hw : Worklist pop arrange) (hnodes : nodes.Nodup)
    (hclosed : ∀ u ∈ nodes, ∀ v ∈ adj u, v ∈ nodes) :
    ∀ {fuel : ℕ} {queue : List α} {degree : α → ℕ} {taken : List α},
      Invariant nodes adj taken degree (· ∈ queue) → queue.Nodup →
      nodes.length - taken.length < fuel →
      ∃ degree', Invariant nodes adj (Kahn.loop adj pop arrange fuel queue degree taken) degree'
        (· ∈ ([] : List α)) := by
  intro fuel
  induction fuel with
  | zero => intro _ _ _ _ _ hfuel; omega
  | succ fuel ih =>
    intro queue degree taken inv hnodup hfuel
    cases hpop : pop queue with
    | none =>
      rw [(hw.pop_none queue).mp hpop] at inv
      exact ⟨degree, by simpa only [Kahn.loop, hpop] using inv⟩
    | some next =>
      obtain ⟨u, rest⟩ := next
      obtain ⟨hu, hrest⟩ := hw.pop_some queue u rest hpop
      obtain ⟨inv', hnodup'⟩ :=
        inv.take_worklist hnodes hclosed (fun _ => Iff.rfl) hnodup hu hrest (hw.arrange_perm _)
      have hlt : taken.length < nodes.length := inv.length_lt hu
      simp only [Kahn.loop, hpop]
      exact ih inv' hnodup' (by simp only [List.length_append, List.length_singleton]; omega)

/-- **Kahn's algorithm over a worklist.**  Started from the nodes of in-degree zero, with more
rounds than nodes, the loop takes distinct nodes, each after all of its predecessors, and it
takes every node exactly when the graph has no cycle. -/
theorem loop_spec (hw : Worklist pop arrange) (hnodes : nodes.Nodup)
    (hclosed : ∀ u ∈ nodes, ∀ v ∈ adj u, v ∈ nodes) {roots : List α} {degree : α → ℕ}
    (hdegree : ∀ v ∈ nodes, degree v = (nodes.map fun u => (adj u).count v).sum)
    (hroots : roots.Nodup) (hready : ∀ v, v ∈ roots ↔ v ∈ nodes ∧ degree v = 0) {fuel : ℕ}
    (hfuel : nodes.length < fuel) :
    (Kahn.loop adj pop arrange fuel roots degree []).Nodup ∧
      (∀ v ∈ Kahn.loop adj pop arrange fuel roots degree [], v ∈ nodes) ∧
      Ordered (Edge nodes adj) (Kahn.loop adj pop arrange fuel roots degree []) ∧
      ((Kahn.loop adj pop arrange fuel roots degree []).length = nodes.length ↔
        Acyclic nodes adj) := by
  obtain ⟨degree', inv⟩ :=
    (Invariant.init hdegree hready).loop hw hnodes hclosed hroots (by simpa using hfuel)
  exact ⟨inv.nodup, inv.subset, inv.ordered,
    inv.length_eq_iff_acyclic (fun _ => List.not_mem_nil) hnodes⟩

end Loop

/-! ## The graph of a predecessor table

Items, each with a key and a list of predecessor keys, give a multigraph on keys: one edge from
each listed predecessor to the item's key.  Its in-degrees are the lengths of the lists.
-/

section Table

variable {β : Type} (items : List β) (key : β → α) (preds : β → List α)

/-- The successors of `u`: the key of each item, once for every listing of `u` among the item's
predecessors. -/
def childrenOf (u : α) : List α :=
  items.flatMap fun x => ((preds x).filter (· = u)).map fun _ => key x

variable {items key preds}

lemma mem_childrenOf {u v : α} :
    v ∈ childrenOf items key preds u ↔ ∃ x ∈ items, key x = v ∧ u ∈ preds x := by
  simp only [childrenOf, List.mem_flatMap, List.mem_map, List.mem_filter, decide_eq_true_eq]
  constructor
  · rintro ⟨x, hx, _, ⟨hu, rfl⟩, rfl⟩
    exact ⟨x, hx, rfl, hu⟩
  · rintro ⟨x, hx, rfl, hu⟩
    exact ⟨x, hx, u, ⟨hu, rfl⟩, rfl⟩

/-- Every successor in a table is the key of one of its items. -/
lemma mem_map_of_mem_childrenOf {u v : α} (hv : v ∈ childrenOf items key preds u) :
    v ∈ items.map key := by
  obtain ⟨x, hx, rfl, -⟩ := mem_childrenOf.mp hv
  exact List.mem_map_of_mem hx

lemma count_childrenOf (u v : α) :
    (childrenOf items key preds u).count v =
      ((items.filter (key · = v)).map fun x => (preds x).count u).sum := by
  induction items with
  | nil => rfl
  | cons x rest ih =>
    rw [childrenOf, List.flatMap_cons, List.count_append, ← childrenOf, ih, List.filter_cons]
    by_cases hx : key x = v
    · simp [hx, List.map_const']
      -- the listings of `u` are counted once each
      rw [List.count_eq_length_filter]
      congr 1
    · simp [hx, List.count_eq_zero, Ne.symm hx]

/-- Summed over the nodes, the counts of one list are its length, when its members are nodes. -/
lemma sum_map_count_eq_length {nodes l : List α} (hnodes : nodes.Nodup)
    (hl : ∀ a ∈ l, a ∈ nodes) : (nodes.map fun u => l.count u).sum = l.length := by
  rw [← List.sum_toFinset _ hnodes]
  have h : ∑ a ∈ nodes.toFinset, (l : Multiset α).count a = Multiset.card (l : Multiset α) :=
    Multiset.sum_count_eq_card (by simpa using hl)
  simpa using h

/-- **The in-degree of a key** is the number of predecessors listed for the items of that key,
when every listed predecessor is a node. -/
lemma sum_count_childrenOf {nodes : List α} (hnodes : nodes.Nodup)
    (hpreds : ∀ x ∈ items, ∀ u ∈ preds x, u ∈ nodes) (v : α) :
    (nodes.map fun u => (childrenOf items key preds u).count v).sum =
      ((items.filter (key · = v)).map fun x => (preds x).length).sum := by
  simp only [count_childrenOf]
  induction items with
  | nil => simp
  | cons x rest ih =>
    have hrest := ih fun y hy => hpreds y (List.mem_cons_of_mem _ hy)
    by_cases hx : key x = v
    · simp only [List.filter_cons, hx, decide_true, if_true, List.map_cons, List.sum_cons,
        List.sum_map_add, hrest]
      rw [sum_map_count_eq_length hnodes (hpreds x List.mem_cons_self)]
    · simpa [List.filter_cons, hx] using hrest

end Table

end Kahn
