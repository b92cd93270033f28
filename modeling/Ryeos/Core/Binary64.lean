import Mathlib

/-!
# Finite binary64 values

A finite IEEE 754 double is an integer number of units of `2^-1074`, the smallest subnormal:
its magnitude is a significand below `2^53` times a power of two up to `2^2045`.  Counting in
units makes comparisons, truncation and the fractional part integer arithmetic on `scaled`,
with no rounding anywhere.

An operation on doubles is its exact rational result, rounded to nearest with ties to even
(`round`).  `round` answers `none` when the rounded magnitude is past the largest finite
double, where IEEE arithmetic produces an infinity.  Signed zero is not represented: the one
zero is `scaled = 0`, which is what a program that normalizes `-0.0` away observes.

* `Binary64.trunc` and `Binary64.fract` — rounding toward zero and the part it drops, both
  exact;
* `Binary64.scaled_eq_trunc_add_fract` — a double is its truncation plus its fractional part,
  the latter strictly inside one unit of `2^1074` and of the double's sign.
-/

/-- A magnitude, in units of `2^-1074`, that a finite double can have: a significand below
`2^53` times `2^p` with `p ≤ 2045`. -/
def Binary64.Representable (n : ℕ) : Prop :=
  ∃ m p, m < 2 ^ 53 ∧ p ≤ 2045 ∧ n = m * 2 ^ p

/-- A finite double, as a signed number of units of `2^-1074`. -/
structure Binary64 where
  scaled : ℤ
  representable : Binary64.Representable scaled.natAbs

namespace Binary64

instance : DecidableEq Binary64 := fun x y =>
  decidable_of_iff (x.scaled = y.scaled) <| by
    cases x; cases y; simp

/-- The value of a double. -/
def toRat (x : Binary64) : ℚ := x.scaled / 2 ^ 1074

/-! ## Representable magnitudes -/

lemma representable_zero : Representable 0 := ⟨0, 0, by norm_num, by norm_num, by norm_num⟩

/-- A magnitude below one significand times a unit `2^p`, and a multiple of that unit, is
representable: dropping a multiple of a larger power of two keeps the unit. -/
lemma representable_of_dvd {n p : ℕ} (hp : p ≤ 2045) (hdvd : 2 ^ p ∣ n) (hlt : n < 2 ^ 53 * 2 ^ p) :
    Representable n := by
  obtain ⟨m, rfl⟩ := hdvd
  refine ⟨m, p, ?_, hp, Nat.mul_comm _ _⟩
  rw [Nat.mul_comm] at hlt
  exact Nat.lt_of_mul_lt_mul_right hlt

/-- A rounded magnitude `m * 2^k`: a significand up to `2^53`, normalized unless `k = 0`, is
representable as long as it stays below `2^2098`. -/
lemma representable_of_rounded {m k : ℕ} (hm : m ≤ 2 ^ 53) (hnorm : 2 ^ 52 ≤ m ∨ k = 0)
    (hlt : m * 2 ^ k < 2 ^ 2098) : Representable (m * 2 ^ k) := by
  rcases Nat.lt_or_eq_of_le hm with hm | rfl
  · -- a significand below `2^53` keeps its unit, which the bound keeps at most `2^2045`
    refine ⟨m, k, hm, ?_, rfl⟩
    rcases hnorm with hnorm | rfl
    · have : 2 ^ (52 + k) < 2 ^ 2098 :=
        calc 2 ^ (52 + k) = 2 ^ 52 * 2 ^ k := Nat.pow_add _ _ _
          _ ≤ m * 2 ^ k := Nat.mul_le_mul_right _ hnorm
          _ < 2 ^ 2098 := hlt
      have := (Nat.pow_lt_pow_iff_right (by norm_num)).mp this
      omega
    · norm_num
  · -- a significand that rounded up to `2^53` is `2^52` at the next unit
    have hk : 2 ^ (53 + k) < 2 ^ 2098 := by rwa [Nat.pow_add]
    have := (Nat.pow_lt_pow_iff_right (by norm_num)).mp hk
    refine ⟨2 ^ 52, k + 1, by norm_num, by omega, by ring⟩

lemma natAbs_unit : ((2 : ℤ) ^ 1074).natAbs = 2 ^ 1074 := by
  rw [Int.natAbs_pow]
  rfl

/-! ## Constants and exact operations -/

/-- Zero. -/
def zero : Binary64 := ⟨0, representable_zero⟩

/-- The power of two `2^e`, exact for every `e` up to `971`. -/
def pow2 (e : ℕ) (h : e ≤ 971) : Binary64 :=
  ⟨2 ^ (e + 1074), ⟨1, e + 1074, by norm_num, by omega, by simp⟩⟩

/-- Negation flips the sign and keeps the magnitude. -/
def neg (x : Binary64) : Binary64 := ⟨-x.scaled, by simpa using x.representable⟩

/-- `f64::trunc`: rounding toward zero, exact.  Below `2^53` in value the result is an integer
of at most 53 bits; at or above it the double is already an integer. -/
def trunc (x : Binary64) : Binary64 :=
  ⟨x.scaled.tdiv (2 ^ 1074) * 2 ^ 1074, by
    obtain ⟨m, p, hm, hp, hx⟩ := x.representable
    by_cases hlarge : 1074 ≤ p
    · -- a multiple of the unit: truncation changes nothing
      have hdvd : (2 ^ 1074 : ℤ) ∣ x.scaled := by
        rw [← Int.dvd_natAbs, hx]
        exact Int.natCast_dvd_natCast.mpr
          (Dvd.dvd.mul_left (Nat.pow_dvd_pow 2 hlarge) m)
      rw [Int.tdiv_mul_cancel hdvd]
      exact x.representable
    · -- the integer part of a small double has at most 53 bits
      have hq : (x.scaled.tdiv (2 ^ 1074)).natAbs < 2 ^ 53 := by
        have hsplit : (2 : ℕ) ^ 1074 = 2 ^ p * 2 ^ (1074 - p) := by
          rw [← Nat.pow_add]; congr 1; omega
        rw [Int.natAbs_tdiv, hx, natAbs_unit]
        change m * 2 ^ p / 2 ^ 1074 < 2 ^ 53
        rw [hsplit, ← Nat.div_div_eq_div_mul,
          Nat.mul_div_cancel _ (Nat.two_pow_pos p)]
        exact lt_of_le_of_lt (Nat.div_le_self _ _) hm
      rw [Int.natAbs_mul, natAbs_unit]
      exact ⟨_, 1074, hq, by norm_num, rfl⟩⟩

/-- `f64::fract`, which the standard library defines as `self - self.trunc()`: the part
truncation drops.  The subtraction is exact, so the fractional part is the truncated
remainder of the scaled value. -/
def fract (x : Binary64) : Binary64 :=
  ⟨x.scaled.tmod (2 ^ 1074), by
    obtain ⟨m, p, hm, hp, hx⟩ := x.representable
    by_cases hlarge : 1074 ≤ p
    · -- a multiple of the unit has no fractional part
      have hdvd : (2 ^ 1074 : ℤ) ∣ x.scaled := by
        rw [← Int.dvd_natAbs, hx]
        exact Int.natCast_dvd_natCast.mpr
          (Dvd.dvd.mul_left (Nat.pow_dvd_pow 2 hlarge) m)
      rw [Int.tmod_eq_zero_of_dvd hdvd]
      exact representable_zero
    · -- the remainder keeps the double's unit `2^p` and is no larger than the double
      rw [Int.natAbs_tmod, natAbs_unit, hx]
      refine representable_of_dvd hp ?_ ?_
      · exact (Nat.dvd_mod_iff (Nat.pow_dvd_pow 2 (by omega))).mpr (Dvd.intro_left m rfl)
      · calc m * 2 ^ p % 2 ^ 1074 ≤ m * 2 ^ p := Nat.mod_le _ _
          _ < 2 ^ 53 * 2 ^ p := Nat.mul_lt_mul_of_pos_right hm (Nat.two_pow_pos p)⟩

@[simp] lemma scaled_trunc (x : Binary64) :
    x.trunc.scaled = x.scaled.tdiv (2 ^ 1074) * 2 ^ 1074 := rfl

@[simp] lemma scaled_fract (x : Binary64) : x.fract.scaled = x.scaled.tmod (2 ^ 1074) := rfl

/-- **A double is its truncation plus its fractional part.** -/
theorem scaled_eq_trunc_add_fract (x : Binary64) :
    x.scaled = x.trunc.scaled + x.fract.scaled := by
  rw [scaled_trunc, scaled_fract, Int.tdiv_mul_add_tmod]

/-- The fractional part lies strictly within one unit of `2^1074`. -/
lemma natAbs_fract_lt (x : Binary64) : x.fract.scaled.natAbs < 2 ^ 1074 := by
  rw [scaled_fract, Int.natAbs_tmod, natAbs_unit]
  exact Nat.mod_lt _ (Nat.two_pow_pos _)

/-- The fractional part has the sign of the double. -/
lemma fract_nonneg {x : Binary64} (h : 0 ≤ x.scaled) : 0 ≤ x.fract.scaled :=
  Int.tmod_nonneg _ h

/-- `as` from a double to an integer type with range `[lo, hi]`: the truncated value, saturated
at the ends. -/
def castInt (x : Binary64) (lo hi : ℤ) : ℤ := max lo (min hi (x.scaled.tdiv (2 ^ 1074)))

lemma castInt_of_le {x : Binary64} {lo hi : ℤ} (hlo : lo ≤ x.scaled.tdiv (2 ^ 1074))
    (hhi : x.scaled.tdiv (2 ^ 1074) ≤ hi) : x.castInt lo hi = x.scaled.tdiv (2 ^ 1074) := by
  unfold castInt
  omega

/-! ## Rounding -/

/-- Rounding a non-negative rational to the nearest natural number, ties to even. -/
def roundHalfEven (a : ℚ) : ℕ :=
  let f := ⌊a⌋₊
  let r := a - f
  if r < 1 / 2 then f
  else if 1 / 2 < r then f + 1
  else if f % 2 = 0 then f else f + 1

lemma roundHalfEven_le (a : ℚ) : roundHalfEven a ≤ ⌊a⌋₊ + 1 := by
  unfold roundHalfEven
  dsimp only
  split_ifs <;> omega

lemma floor_le_roundHalfEven (a : ℚ) : ⌊a⌋₊ ≤ roundHalfEven a := by
  unfold roundHalfEven
  dsimp only
  split_ifs <;> omega

/-- Rounding a non-negative magnitude (in units) to a significand and a unit exponent: below
`2^53` every integer is a double, above it the unit is the power of two that leaves 53 bits. -/
def roundMag (a : ℚ) : ℕ × ℕ :=
  if a < 2 ^ 53 then (roundHalfEven a, 0)
  else
    let k := Nat.log 2 ⌊a⌋₊ - 52
    (roundHalfEven (a / 2 ^ k), k)

/-- The rounded significand is at most `2^53`, and normalized unless the unit is the smallest. -/
lemma roundMag_spec {a : ℚ} (ha : 0 ≤ a) :
    (roundMag a).1 ≤ 2 ^ 53 ∧ (2 ^ 52 ≤ (roundMag a).1 ∨ (roundMag a).2 = 0) := by
  unfold roundMag
  split_ifs with hsmall
  · have hfloor : ⌊a⌋₊ < 2 ^ 53 := (Nat.floor_lt ha).mpr (by exact_mod_cast hsmall)
    exact ⟨(roundHalfEven_le a).trans hfloor, .inr rfl⟩
  · -- the floor lies in `[2^e, 2^(e+1))`, so the scaled magnitude lies in `[2^52, 2^53)`
    set e := Nat.log 2 ⌊a⌋₊
    have hN : 2 ^ 53 ≤ ⌊a⌋₊ := Nat.le_floor (by exact_mod_cast not_lt.mp hsmall)
    have hlo : 2 ^ e ≤ ⌊a⌋₊ := Nat.pow_log_le_self 2 (by positivity)
    have hhi : ⌊a⌋₊ < 2 ^ (e + 1) := Nat.lt_pow_succ_log_self (by norm_num) _
    have he : 53 ≤ e := by
      by_contra hlt
      have : 2 ^ (e + 1) ≤ 2 ^ 53 := Nat.pow_le_pow_right (by norm_num) (by omega)
      omega
    have hsplit : (2 : ℚ) ^ e = 2 ^ 52 * 2 ^ (e - 52) := by
      rw [← pow_add]; congr 1; omega
    have hsplit' : (2 : ℚ) ^ (e + 1) = 2 ^ 53 * 2 ^ (e - 52) := by
      rw [← pow_add]; congr 1; omega
    have hpos : (0 : ℚ) < 2 ^ (e - 52) := by positivity
    have hge : (2 : ℚ) ^ 52 ≤ a / 2 ^ (e - 52) := by
      rw [le_div_iff₀ hpos, ← hsplit]
      exact le_trans (by exact_mod_cast hlo) (Nat.floor_le ha)
    have hlt : a / 2 ^ (e - 52) < 2 ^ 53 := by
      rw [div_lt_iff₀ hpos, ← hsplit']
      calc a < ⌊a⌋₊ + 1 := Nat.lt_floor_add_one a
        _ ≤ 2 ^ (e + 1) := by exact_mod_cast hhi
    have hfloor_lo : 2 ^ 52 ≤ ⌊a / 2 ^ (e - 52)⌋₊ := Nat.le_floor (by exact_mod_cast hge)
    have hfloor_hi : ⌊a / 2 ^ (e - 52)⌋₊ < 2 ^ 53 :=
      (Nat.floor_lt (div_nonneg ha hpos.le)).mpr (by exact_mod_cast hlt)
    exact ⟨(roundHalfEven_le _).trans hfloor_hi,
      .inl (hfloor_lo.trans (floor_le_roundHalfEven _))⟩

/-- Round an exact rational result to the nearest double, ties to even; `none` when the
rounded magnitude is past the largest finite double, where IEEE arithmetic overflows to an
infinity. -/
def round (q : ℚ) : Option Binary64 :=
  match hmk : roundMag (|q| * 2 ^ 1074) with
  | (m, k) =>
    if h : m * 2 ^ k < 2 ^ 2098 then
      some ⟨if q < 0 then -((m * 2 ^ k : ℕ) : ℤ) else ((m * 2 ^ k : ℕ) : ℤ), by
        have hspec := roundMag_spec (mul_nonneg (abs_nonneg q)
          (by positivity : (0 : ℚ) ≤ 2 ^ 1074))
        rw [hmk] at hspec
        have hrep := representable_of_rounded hspec.1 hspec.2 h
        split_ifs <;> simp only [Int.natAbs_neg, Int.natAbs_natCast] <;> exact hrep⟩
    else none

/-! ## Arithmetic

Each operation is its exact result, rounded.  Division and remainder are called only with a
non-zero divisor.
-/

/-- `a + b`. -/
def add (x y : Binary64) : Option Binary64 := round (x.toRat + y.toRat)

/-- `a - b`. -/
def sub (x y : Binary64) : Option Binary64 := round (x.toRat - y.toRat)

/-- `a * b`. -/
def mul (x y : Binary64) : Option Binary64 := round (x.toRat * y.toRat)

/-- `a / b`. -/
def div (x y : Binary64) : Option Binary64 := round (x.toRat / y.toRat)

/-- `a % b`: the remainder of the truncated quotient, with the sign of the dividend, as C's
`fmod`.  It is exact. -/
def rem (x y : Binary64) : Option Binary64 := round ((x.scaled.tmod y.scaled : ℤ) / 2 ^ 1074)

/-! ## Order

Doubles compare by value, which is the order of their scaled integers.
-/

instance : LT Binary64 := ⟨fun x y => x.scaled < y.scaled⟩

instance : LE Binary64 := ⟨fun x y => x.scaled ≤ y.scaled⟩

instance (x y : Binary64) : Decidable (x < y) := inferInstanceAs (Decidable (x.scaled < y.scaled))

instance (x y : Binary64) : Decidable (x ≤ y) := inferInstanceAs (Decidable (x.scaled ≤ y.scaled))

lemma lt_def {x y : Binary64} : x < y ↔ x.scaled < y.scaled := Iff.rfl

lemma le_def {x y : Binary64} : x ≤ y ↔ x.scaled ≤ y.scaled := Iff.rfl

/-- `f64::partial_cmp` on finite doubles: the order of their values. -/
def cmp (x y : Binary64) : Ordering := compare x.scaled y.scaled

/-- Comparing scaled values compares the values themselves. -/
lemma toRat_lt_toRat {x y : Binary64} : x.toRat < y.toRat ↔ x.scaled < y.scaled := by
  unfold toRat
  rw [div_lt_div_iff_of_pos_right (by positivity)]
  exact_mod_cast Iff.rfl

lemma toRat_inj {x y : Binary64} : x.toRat = y.toRat ↔ x.scaled = y.scaled := by
  unfold toRat
  rw [div_left_inj' (by positivity)]
  exact_mod_cast Iff.rfl

/-- Two comparisons agree when their strict orders and their equalities do. -/
lemma compare_eq_of_iff {α β : Type} [LinearOrder α] [LinearOrder β] {a b : α} {c d : β}
    (hlt : a < b ↔ c < d) (heq : a = b ↔ c = d) : compare a b = compare c d := by
  rcases lt_trichotomy c d with h | h | h
  · rw [compare_lt_iff_lt.mpr (hlt.mpr h), compare_lt_iff_lt.mpr h]
  · rw [compare_eq_iff_eq.mpr (heq.mpr h), compare_eq_iff_eq.mpr h]
  · have hba : b < a := lt_of_le_of_ne (not_lt.mp fun hab => (lt_asymm h) (hlt.mp hab))
      fun hab => (ne_of_gt h) (heq.mp hab.symm)
    rw [compare_gt_iff_gt.mpr hba, compare_gt_iff_gt.mpr h]

/-- **Doubles compare as their scaled integers.** -/
lemma compare_toRat (x y : Binary64) : compare x.toRat y.toRat = compare x.scaled y.scaled :=
  compare_eq_of_iff toRat_lt_toRat toRat_inj

/-- An integer against a number split into whole units and a remainder within one unit: the
whole parts decide, and on a tie the remainder's sign does. -/
lemma compare_mul_add {i t r U : ℤ} (hr : |r| < U) :
    compare (i * U) (t * U + r) =
      match compare i t with
      | .eq => compare 0 r
      | ordering => ordering := by
  obtain ⟨hlo, hhi⟩ := abs_lt.mp hr
  rcases lt_trichotomy i t with h | rfl | h
  · -- a smaller whole part stays below even with the most negative remainder
    have hstep : i * U + U ≤ t * U := by nlinarith
    rw [compare_lt_iff_lt.mpr h, compare_lt_iff_lt.mpr (by linarith)]
  · rw [compare_eq_iff_eq.mpr rfl]
    exact compare_eq_of_iff (by constructor <;> intro <;> linarith)
      (by constructor <;> intro <;> linarith)
  · have hstep : t * U + U ≤ i * U := by nlinarith
    rw [compare_gt_iff_gt.mpr h, compare_gt_iff_gt.mpr (by linarith)]

/-- An integer against a double is the integer in units against the scaled double. -/
lemma compare_intCast_toRat_eq (i : ℤ) (x : Binary64) :
    compare (i : ℚ) x.toRat = compare (i * 2 ^ 1074) x.scaled := by
  have hU : (0 : ℚ) < 2 ^ 1074 := by positivity
  refine compare_eq_of_iff ?_ ?_
  · rw [toRat, lt_div_iff₀ hU]
    exact_mod_cast Iff.rfl
  · rw [toRat, eq_div_iff hU.ne']
    exact_mod_cast Iff.rfl

/-- Truncated division of a number in `[-k U, k U)` lands in `[-k, k)`. -/
lemma tdiv_bounds {x U k : ℤ} (hU : 0 < U) (hk : 0 < k) (hlo : -(k * U) ≤ x) (hhi : x < k * U) :
    -k ≤ x.tdiv U ∧ x.tdiv U < k := by
  rcases le_or_gt 0 x with hx | hx
  · rw [Int.tdiv_eq_ediv_of_nonneg hx]
    exact ⟨le_trans (by omega) (Int.ediv_nonneg hx hU.le), (Int.ediv_lt_iff_lt_mul hU).mpr hhi⟩
  · -- a negative number truncates toward zero, to minus the quotient of its magnitude
    have hneg : x.tdiv U = -((-x) / U) := by
      rw [← Int.tdiv_eq_ediv_of_nonneg (by omega), Int.neg_tdiv, neg_neg]
    rw [hneg]
    have : (-x) / U ≤ k := Int.ediv_le_of_le_mul hU (by linarith)
    have : 0 ≤ (-x) / U := Int.ediv_nonneg (by omega) hU.le
    omega

/-- **An integer against a double**, through the double's truncation and the sign of its
fractional part: the order of their values. -/
theorem compare_intCast_toRat (i : ℤ) (x : Binary64) :
    compare (i : ℚ) x.toRat =
      match compare i (x.scaled.tdiv (2 ^ 1074)) with
      | .eq => compare 0 x.fract.scaled
      | ordering => ordering := by
  have hscaled := compare_intCast_toRat_eq i x
  have hfract : |x.fract.scaled| < 2 ^ 1074 := by
    rw [Int.abs_eq_natAbs]
    exact_mod_cast natAbs_fract_lt x
  rw [hscaled]
  calc compare (i * 2 ^ 1074) x.scaled
      = compare (i * 2 ^ 1074) (x.scaled.tdiv (2 ^ 1074) * 2 ^ 1074 + x.fract.scaled) := by
        rw [← scaled_trunc, ← scaled_eq_trunc_add_fract]
    _ = _ := compare_mul_add hfract

@[simp] lemma scaled_zero : zero.scaled = 0 := rfl

@[simp] lemma scaled_pow2 (e : ℕ) (h : e ≤ 971) : (pow2 e h).scaled = 2 ^ (e + 1074) := rfl

@[simp] lemma toRat_pow2 (e : ℕ) (h : e ≤ 971) : (pow2 e h).toRat = 2 ^ e := by
  rw [toRat, scaled_pow2, Int.cast_pow, Int.cast_two, pow_add,
    mul_div_cancel_right₀ _ (pow_ne_zero _ two_ne_zero)]

@[simp] lemma scaled_neg (x : Binary64) : x.neg.scaled = -x.scaled := rfl

end Binary64
