import Mathlib

/-!
# Arithmetic progressions of boundaries

A periodic schedule with period `p` anchored at `a` fires on the lattice
`{a + k * p : k ≥ 1}`.  Code that works with such a lattice finds its members by floor division
(`a + p + ((now - (a + p)) / p) * p` is the last boundary at or before `now`) or by stepping a
cursor one period at a time.  This file proves, once, that both routes land on the lattice:

* `boundaries_isGreatest_floor` — the floor-division boundary is the greatest member `≤ now`;
* `boundaries_isLeast_succ` — one period after that greatest member is the least member `> now`;
* `stepsBelow` — the members strictly below a horizon, in increasing order, with the unfolding
  `stepsBelow_eq` that a cursor loop follows one step at a time.

Nothing here refers to a scheduler; the scheduler's routines instantiate it.
-/

namespace Ryeos

/-- The boundaries strictly after the anchor `a`: `{a + k * p : k ≥ 1}`. -/
def boundaries (a p : ℤ) : Set ℤ := {t | ∃ k : ℕ, 1 ≤ k ∧ t = a + k * p}

variable {a p now t d : ℤ}

lemma add_mem_boundaries (a p : ℤ) : a + p ∈ boundaries a p := ⟨1, le_rfl, by simp⟩

/-- Stepping a member forward by one period stays on the lattice. -/
lemma boundaries_add_period (ht : t ∈ boundaries a p) : t + p ∈ boundaries a p := by
  obtain ⟨k, hk, rfl⟩ := ht
  exact ⟨k + 1, by omega, by push_cast; ring⟩

/-- Every member lies at least one period after the anchor. -/
lemma le_of_mem_boundaries (hp : 0 < p) (ht : t ∈ boundaries a p) : a + p ≤ t := by
  obtain ⟨k, hk, rfl⟩ := ht
  have : (1 : ℤ) ≤ k := by exact_mod_cast hk
  nlinarith

/-! ## The greatest boundary at or before `now` -/

/-- **Floor division finds the last boundary.**  When the first boundary `a + p` is not after
`now`, the greatest member of the lattice at or before `now` is
`a + p + ((now - (a + p)) / p) * p`. -/
theorem boundaries_isGreatest_floor (hp : 0 < p) (h : a + p ≤ now) :
    IsGreatest {t | t ∈ boundaries a p ∧ t ≤ now} (a + p + ((now - (a + p)) / p) * p) := by
  set q := (now - (a + p)) / p with hq
  have hq0 : 0 ≤ q := Int.ediv_nonneg (by omega) hp.le
  have hlo : q * p ≤ now - (a + p) := Int.ediv_mul_le _ hp.ne'
  have hhi : now - (a + p) < (q + 1) * p := by
    have := Int.lt_ediv_add_one_mul_self (now - (a + p)) hp
    linarith
  refine ⟨⟨⟨q.toNat + 1, by omega, ?_⟩, by linarith⟩, ?_⟩
  · push_cast
    rw [Int.toNat_of_nonneg hq0]
    ring
  · rintro _ ⟨⟨k, hk, rfl⟩, hle⟩
    -- `k ≤ q + 1`, for otherwise `a + k * p` would overshoot `now`
    have hk' : (k : ℤ) ≤ q + 1 := by
      by_contra hc
      have : (q + 2) * p ≤ k * p := by
        apply Int.mul_le_mul_of_nonneg_right _ hp.le
        omega
      nlinarith
    nlinarith

/-- **The next boundary.**  If `d` is the greatest boundary at or before `now`, then `d + p` is
the least boundary after `now`. -/
theorem boundaries_isLeast_succ (hp : 0 < p)
    (hd : IsGreatest {t | t ∈ boundaries a p ∧ t ≤ now} d) :
    IsLeast {t | t ∈ boundaries a p ∧ now < t} (d + p) := by
  obtain ⟨⟨hdmem, hdle⟩, hmax⟩ := hd
  refine ⟨⟨boundaries_add_period hdmem, ?_⟩, ?_⟩
  · by_contra hc
    have := hmax ⟨boundaries_add_period hdmem, by omega⟩
    omega
  · rintro t ⟨⟨k, _, rfl⟩, hnow⟩
    obtain ⟨j, _, rfl⟩ := hdmem
    -- a member after `now` lies after `d = a + j * p`, so its index is past `j`
    have hjk : (j : ℤ) + 1 ≤ k := by
      by_contra hc
      have : (k : ℤ) ≤ j := by omega
      nlinarith
    nlinarith

/-- Before the first boundary there is no boundary at or before `now`, and the first boundary
is the least one after it. -/
theorem boundaries_isLeast_first (hp : 0 < p) (h : now < a + p) :
    (∀ t ∈ boundaries a p, now < t) ∧ IsLeast {t | t ∈ boundaries a p ∧ now < t} (a + p) :=
  ⟨fun _ ht => lt_of_lt_of_le h (le_of_mem_boundaries hp ht),
    ⟨⟨add_mem_boundaries a p, h⟩, fun _ ht => le_of_mem_boundaries hp ht.1⟩⟩

/-- The least boundary after `now` is the first boundary or lies within one period of `now`:
the boundary before it is not after `now`. -/
lemma le_of_isLeast_boundaries {n : ℤ} (hp : 0 < p) (hn : IsLeast {t | t ∈ boundaries a p ∧ now < t} n) :
    n ≤ a + p ∨ n ≤ now + p := by
  obtain ⟨⟨⟨k, hk, rfl⟩, -⟩, hleast⟩ := hn
  rcases Nat.lt_or_ge k 2 with hk2 | hk2
  · left
    obtain rfl : k = 1 := by omega
    simp
  · right
    -- the boundary one period earlier is a boundary too, so it is not after `now`
    have hprev : a + ((k - 1 : ℕ) : ℤ) * p ∈ boundaries a p := ⟨k - 1, by omega, rfl⟩
    have hcast : ((k - 1 : ℕ) : ℤ) = k - 1 := by omega
    by_contra hc
    have := hleast ⟨hprev, by rw [hcast]; linarith⟩
    rw [hcast] at this
    linarith

/-! ## The boundaries below a horizon -/

/-- The members of `boundaries a p` strictly below `h`, in increasing order.  It is empty when
`h ≤ a + p`. -/
def stepsBelow (a p h : ℤ) : List ℤ :=
  (List.range ((h - a - 1) / p).toNat).map fun k : ℕ => a + ((k : ℤ) + 1) * p

lemma index_lt_iff (hp : 0 < p) (k : ℕ) :
    k < ((h - a - 1) / p).toNat ↔ a + (k + 1) * p < h := by
  rw [Int.lt_toNat, ← Int.add_one_le_iff, Int.le_ediv_iff_mul_le hp]
  constructor <;> intro <;> linarith

/-- **Membership.**  `stepsBelow a p h` holds exactly the boundaries below `h`. -/
theorem mem_stepsBelow (hp : 0 < p) : t ∈ stepsBelow a p h ↔ t ∈ boundaries a p ∧ t < h := by
  simp only [stepsBelow, List.mem_map, List.mem_range]
  constructor
  · rintro ⟨k, hk, rfl⟩
    exact ⟨⟨k + 1, by omega, by push_cast; ring⟩, (index_lt_iff hp k).mp hk⟩
  · rintro ⟨⟨k, hk, rfl⟩, hlt⟩
    refine ⟨k - 1, (index_lt_iff hp _).mpr ?_, ?_⟩ <;>
      rw [show ((k - 1 : ℕ) : ℤ) + 1 = k by omega]
    exact hlt

/-- **Order.**  The boundaries come out strictly increasing. -/
theorem stepsBelow_pairwise (hp : 0 < p) : (stepsBelow a p h).Pairwise (· < ·) := by
  refine List.Pairwise.map _ (fun i j (hij : i < j) => ?_) List.pairwise_lt_range
  have : (i : ℤ) + 1 < j + 1 := by exact_mod_cast Nat.succ_lt_succ hij
  nlinarith

/-- **Unfolding.**  The first boundary below `h`, if any, is `a + p`, and the rest are the
boundaries of the lattice anchored there — the shape of a loop that steps a cursor by `p`. -/
theorem stepsBelow_eq (hp : 0 < p) :
    stepsBelow a p h = if a + p < h then (a + p) :: stepsBelow (a + p) p h else [] := by
  split_ifs with hlt
  · have hn : ((h - a - 1) / p).toNat = ((h - (a + p) - 1) / p).toNat + 1 := by
      have : h - a - 1 = (h - (a + p) - 1) + 1 * p := by ring
      rw [this, Int.add_mul_ediv_right _ _ hp.ne']
      have : 0 ≤ (h - (a + p) - 1) / p := Int.ediv_nonneg (by omega) hp.le
      omega
    simp only [stepsBelow, hn, List.range_succ_eq_map, List.map_cons, List.map_map]
    refine congrArg₂ _ (by push_cast; ring) (List.map_congr_left fun k _ => ?_)
    simp only [Function.comp_apply]
    push_cast
    ring
  · have : ((h - a - 1) / p).toNat = 0 := by
      by_contra hne
      have := (index_lt_iff (a := a) (h := h) hp 0).mp (by omega)
      push_cast at this
      omega
    simp [stepsBelow, this]

end Ryeos
