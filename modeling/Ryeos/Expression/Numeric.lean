import Ryeos.Core.Text

/-!
# Numbers in expressions: `expression/value.rs`

The expression language computes with `Numeric`: an `i64`, a `u64` or a finite `f64`.  An
integer result is computed exactly in `i128` and reported in normal form, `Signed` whenever it
fits and `Unsigned` only above `i64::MAX`; a result outside `[i64::MIN, u64::MAX]` is an error.
Anything with a decimal in it is computed in `f64`, and a result that is not finite is an error.

`checked_add` and `checked_mul` in `i128` are modelled as the checked operations they are.
Subtraction, remainder and negation use unchecked `i128` arithmetic; they are modelled as a
release build runs them, wrapping (`wrapI128`), and `wrapI128_eq` shows that no operand pair
of this type makes them wrap, so a debug build's overflow check never fires either.

* `RangeChecked` — the contract of an integer operation on an exact result;
* `Numeric.compare_eq` — `compare` is the order of the exact values.
-/

namespace Ryeos.Expression

/-- `i64::MIN`. -/
def i64Min : ℤ := -2 ^ 63

/-- `i64::MAX`. -/
def i64Max : ℤ := 2 ^ 63 - 1

/-- `u64::MAX`. -/
def u64Max : ℤ := 2 ^ 64 - 1

/-- `i128::MIN` and `i128::MAX`. -/
def i128Min : ℤ := -2 ^ 127

def i128Max : ℤ := 2 ^ 127 - 1

/-- `i128::checked_add` and `i128::checked_mul`: the exact result when it is in range. -/
def checkedI128 (value : ℤ) : Option ℤ :=
  if i128Min ≤ value ∧ value ≤ i128Max then some value else none

/-- Unchecked `i128` arithmetic as a release build runs it: the exact result, wrapped. -/
def wrapI128 (value : ℤ) : ℤ := value.bmod (2 ^ 128)

/-- `serde_json::Number`: a non-negative integer, a negative integer, or a finite double. -/
inductive JsonNumber where
  | posInt (value : UInt64)
  | negInt (value : Int64)
  | float (value : Binary64)
  deriving DecidableEq

namespace JsonNumber

/-- `Number::from(i64)`. -/
def ofI64 (value : Int64) : JsonNumber :=
  if value.toInt < 0 then negInt value else posInt value.toUInt64

/-- `Number::as_i64`. -/
def asI64 : JsonNumber → Option Int64
  | posInt value => if (value.toNat : ℤ) ≤ i64Max then some (Int64.ofInt value.toNat) else none
  | negInt value => some value
  | float _ => none

/-- `Number::as_u64`. -/
def asU64 : JsonNumber → Option UInt64
  | posInt value => some value
  | _ => none

/-- `Number::as_f64`: the integers convert with `as f64`. -/
def asF64 : JsonNumber → Option Binary64
  | posInt value => Binary64.round value.toNat
  | negInt value => Binary64.round value.toInt
  | float value => some value

end JsonNumber

/-! ## The number grammar of `valid_unsigned_number_token` -/

/-- The integer part of `valid_unsigned_number_token`: a lone `0`, which no digit may follow, or
a run of digits. -/
def validIntegerPart : List Char → Option (List Char)
  | [] => none
  | first :: rest =>
    if first = '0' then
      match rest with
      | c :: _ => if c.isDigit then none else some rest
      | [] => some []
    else if first.isDigit then some (rest.dropWhile Char.isDigit)
    else none

/-- The fraction of `valid_unsigned_number_token`: a point and at least one digit, or
nothing. -/
def validFractionPart (after : List Char) : Option (List Char) :=
  match after with
  | '.' :: more =>
    if (more.takeWhile Char.isDigit).isEmpty then none else some (more.dropWhile Char.isDigit)
  | _ => some after

/-- The exponent of `valid_unsigned_number_token`: `e` or `E`, an optional sign and at least
one digit, or nothing. -/
def validExponentPart (after : List Char) : Option (List Char) :=
  match after with
  | e :: more =>
    if e = 'e' || e = 'E' then
      let digits :=
        match more with
        | s :: more' => if s = '+' || s = '-' then more' else more
        | [] => []
      if (digits.takeWhile Char.isDigit).isEmpty then none else some (digits.dropWhile Char.isDigit)
    else some after
  | [] => some []

/-- `valid_unsigned_number_token`: the three parts read the whole text. -/
def validUnsignedNumberToken (value : List Char) : Bool :=
  (validIntegerPart value >>= validFractionPart >>= validExponentPart) = some []

/-- `Numeric`. -/
inductive Numeric where
  | signed (value : Int64)
  | unsigned (value : UInt64)
  | decimal (value : Binary64)
  deriving DecidableEq

namespace Numeric

/-- The exact value a numeric denotes. -/
def value : Numeric → ℚ
  | signed value => value.toInt
  | unsigned value => value.toNat
  | decimal value => value.toRat

/-- The integer an integer numeric holds, for the source's patterns
`left @ (Signed(_) | Unsigned(_))`; `integer_i128` reads it. -/
def integer? : Numeric → Option ℤ
  | signed value => some value.toInt
  | unsigned value => some value.toNat
  | decimal _ => none

/-- `finite_decimal`: a finite double, else an error.  It also maps `-0.0` to `0.0`, which the
model does not distinguish. -/
def finiteDecimal : Option Binary64 → Except String Numeric
  | some value => .ok (decimal value)
  | none => .error "decimal number must be finite"

/-- `as_f64`: the integers convert with `as f64`. -/
def asF64 : Numeric → Option Binary64
  | signed value => Binary64.round value.toInt
  | unsigned value => Binary64.round value.toNat
  | decimal value => some value

/-- `from_i128`: `Signed` when the value fits `i64`, else `Unsigned` when it fits `u64`. -/
def fromI128 (value : ℤ) (overflow : String) : Except String Numeric :=
  if i64Min ≤ value ∧ value ≤ i64Max then .ok (signed (Int64.ofInt value))
  else if 0 ≤ value ∧ value ≤ u64Max then .ok (unsigned (UInt64.ofNat value.toNat))
  else .error overflow

/-- `parse_unsigned_token`: a token with a point or an exponent is a decimal; otherwise an
integer, `i64` first and `u64` above it. -/
def parseUnsignedToken (token : String) : Except String Numeric :=
  if token.toList.any fun c => c = '.' || c = 'e' || c = 'E' then
    match Rust.parseF64 token.toList with
    | none => .error "invalid decimal number"
    | some value => finiteDecimal value
  else
    match Rust.parseInt true i64Min i64Max token.toList with
    | some value => .ok (signed (Int64.ofInt value))
    | none =>
      match Rust.parseInt false 0 u64Max token.toList with
      | some value => .ok (unsigned (UInt64.ofNat value.toNat))
      | none => .error "integer literal exceeds the u64 range"

/-- `is_zero`. -/
def isZero : Numeric → Bool
  | signed value => value.toInt == 0
  | unsigned value => value.toNat == 0
  | decimal value => value.scaled == 0

/-- `integer_or_decimal`: addition and multiplication, which differ only in the operation
named by `operation`. -/
def integerOrDecimal (self other : Numeric) (operation : String) : Except String Numeric :=
  match self.integer?, other.integer? with
  | some left, some right =>
    let overflow :=
      if operation = "addition" then "integer addition overflow"
      else "integer multiplication overflow"
    let value :=
      if operation = "addition" then checkedI128 (left + right)
      else checkedI128 (left * right)
    match value with
    | some value => fromI128 value overflow
    | none => .error overflow
  | _, _ =>
    (finiteDecimal do
        let x ← self.asF64
        let y ← other.asF64
        if operation = "addition" then x.add y else x.mul y).mapError
      fun _ => "decimal arithmetic produced a non-finite result"

/-- `add`. -/
def add (self other : Numeric) : Except String Numeric :=
  integerOrDecimal self other "addition"

/-- `subtract`. -/
def subtract (self other : Numeric) : Except String Numeric :=
  match self.integer?, other.integer? with
  | some left, some right => fromI128 (wrapI128 (left - right)) "integer subtraction overflow"
  | _, _ =>
    (finiteDecimal do
        let x ← self.asF64
        let y ← other.asF64
        x.sub y).mapError
      fun _ => "decimal subtraction produced a non-finite result"

/-- `multiply`. -/
def multiply (self other : Numeric) : Except String Numeric :=
  integerOrDecimal self other "multiplication"

/-- `divide`: always a decimal. -/
def divide (self other : Numeric) : Except String Numeric :=
  if other.isZero then .error "division by zero"
  else
    (finiteDecimal do
        let x ← self.asF64
        let y ← other.asF64
        x.div y).mapError
      fun _ => "division produced a non-finite result"

/-- `remainder`: `i128`'s `%`, truncated, with the sign of the dividend. -/
def remainder (self other : Numeric) : Except String Numeric :=
  if other.isZero then .error "remainder by zero"
  else
    match self.integer?, other.integer? with
    | some left, some right =>
      fromI128 (wrapI128 (left.tmod right)) "integer remainder overflow"
    | _, _ =>
      (finiteDecimal do
          let x ← self.asF64
          let y ← other.asF64
          x.rem y).mapError
        fun _ => "decimal remainder produced a non-finite result"

/-- `positive`: unary `+`. -/
def positive : Numeric → Except String Numeric
  | decimal value => finiteDecimal (some value)
  | value => .ok value

/-- `negate`: unary `-`. -/
def negate : Numeric → Except String Numeric
  | signed value => fromI128 (wrapI128 (-value.toInt)) "integer negation overflow"
  | unsigned value => fromI128 (wrapI128 (-(value.toNat : ℤ))) "integer negation overflow"
  | decimal value =>
    (finiteDecimal (some value.neg)).mapError
      fun _ => "decimal negation produced a non-finite result"

/-- `as_array_index`: a non-negative integer.  On a 64-bit target `usize::try_from` of an `i64`
that is not negative, or of a `u64`, always succeeds. -/
def asArrayIndex : Numeric → Except String (Option ℕ)
  | signed value =>
    if value.toInt < 0 then .error "array index cannot be negative" else .ok (some value.toInt.toNat)
  | unsigned value => .ok (some value.toNat)
  | decimal _ => .error "array index must be a non-negative integer"

/-- `to_json`.  A decimal is finite, so `Number::from_f64` accepts it. -/
def toJson : Numeric → Except String JsonNumber
  | signed value => .ok (JsonNumber.ofI64 value)
  | unsigned value => .ok (.posInt value)
  | decimal value => .ok (.float value)

/-- `from_json`: `as_i64`, then `as_u64`, then `as_f64`. -/
def fromJson (number : JsonNumber) : Except String Numeric :=
  match number.asI64 with
  | some value => .ok (signed value)
  | none =>
    match number.asU64 with
    | some value => .ok (unsigned value)
    | none =>
      match number.asF64 with
      | some value => finiteDecimal (some value)
      | none => .error "unrepresentable JSON number"

/-- `parse_string`: `number(string)`.  The text must carry no surrounding whitespace, and after
an optional sign it must be a number token. -/
def parseString (value : String) : Except String Numeric :=
  if value.isEmpty || Rust.trim value.toList != value.toList then
    .error "number(string) requires a numeric string without whitespace"
  else
    let (negative, unsignedText) : Bool × List Char :=
      match value.toList with
      | '-' :: rest => (true, rest)
      | '+' :: rest => (false, rest)
      | chars => (false, chars)
    if unsignedText.isEmpty || !validUnsignedNumberToken unsignedText then
      .error "number(string) requires the expression numeric grammar"
    else do
      let parsed ← parseUnsignedToken (String.ofList unsignedText)
      if negative then parsed.negate else pure parsed

/-! ## Comparison -/

/-- `-9_223_372_036_854_775_808.0`, that is `-2^63`. -/
def i64MinF64 : Binary64 := (Binary64.pow2 63 (by norm_num)).neg

/-- `9_223_372_036_854_775_808.0`, that is `2^63`. -/
def i64UpperF64 : Binary64 := Binary64.pow2 63 (by norm_num)

/-- `18_446_744_073_709_551_616.0`, that is `2^64`. -/
def u64UpperF64 : Binary64 := Binary64.pow2 64 (by norm_num)

/-- `compare_i64_f64`. -/
def compareI64F64 (integer : Int64) (decimal : Binary64) : Ordering :=
  if decimal < i64MinF64 then .gt
  else if decimal ≥ i64UpperF64 then .lt
  else
    let truncated : Int64 := Int64.ofInt (decimal.trunc.castInt i64Min i64Max)
    match compare integer.toInt truncated.toInt with
    | .eq =>
      if Binary64.zero < decimal.fract then .lt
      else if decimal.fract < Binary64.zero then .gt
      else .eq
    | ordering => ordering

/-- `compare_u64_f64`.  Past its first test the decimal is not negative, and the source checks
only a positive fractional part. -/
def compareU64F64 (integer : UInt64) (decimal : Binary64) : Ordering :=
  if decimal < Binary64.zero then .gt
  else if decimal ≥ u64UpperF64 then .lt
  else
    let truncated : UInt64 := UInt64.ofNat (decimal.trunc.castInt 0 u64Max).toNat
    match compare integer.toNat truncated.toNat with
    | .eq => if Binary64.zero < decimal.fract then .lt else .eq
    | ordering => ordering

/-- `compare`.  `i64::cmp` and `u64::cmp` compare values; `left as u64` reinterprets the bits
of a non-negative `i64`, which keeps its value. -/
def compare : Numeric → Numeric → Ordering
  | signed left, signed right => Ord.compare left.toInt right.toInt
  | unsigned left, unsigned right => Ord.compare left.toNat right.toNat
  | signed left, unsigned right =>
    if left.toInt < 0 then .lt else Ord.compare left.toUInt64.toNat right.toNat
  | unsigned left, signed right =>
    if right.toInt < 0 then .gt else Ord.compare left.toNat right.toUInt64.toNat
  | signed integer, decimal float => compareI64F64 integer float
  | decimal float, signed integer => (compareI64F64 integer float).swap
  | unsigned integer, decimal float => compareU64F64 integer float
  | decimal float, unsigned integer => (compareU64F64 integer float).swap
  | decimal left, decimal right => left.cmp right

end Numeric

/-! ## Integer arithmetic is exact and range-checked -/

section Integer

lemma i64Min_eq : i64Min = -9223372036854775808 := by norm_num [i64Min]

lemma i64Max_eq : i64Max = 9223372036854775807 := by norm_num [i64Max]

lemma u64Max_eq : u64Max = 18446744073709551615 := by norm_num [u64Max]

lemma i128Min_eq : i128Min = -170141183460469231731687303715884105728 := by norm_num [i128Min]

lemma i128Max_eq : i128Max = 170141183460469231731687303715884105727 := by norm_num [i128Max]

namespace Numeric

/-- The numeric an exact integer result `r` is reported as: `Signed` holding `r`, or `Unsigned`
holding `r` above `i64::MAX`. -/
def IsIntegerResult (n : Numeric) (r : ℤ) : Prop :=
  match n with
  | signed value => value.toInt = r
  | unsigned value => (value.toNat : ℤ) = r ∧ i64Max < r
  | decimal _ => False

/-- The contract of an integer operation whose exact result is `r`: it succeeds exactly when
`r` is in `[i64::MIN, u64::MAX]`, and a success reports `r` in normal form. -/
def RangeChecked (result : Except String Numeric) (r : ℤ) : Prop :=
  ((∃ n, result = .ok n) ↔ i64Min ≤ r ∧ r ≤ u64Max) ∧ ∀ n, result = .ok n → IsIntegerResult n r

/-- An integer numeric holds a value in `[i64::MIN, u64::MAX]`. -/
lemma integer?_mem {n : Numeric} {x : ℤ} (h : n.integer? = some x) :
    i64Min ≤ x ∧ x ≤ u64Max := by
  rw [i64Min_eq, u64Max_eq]
  cases n with
  | signed value =>
    cases h
    have hlo := Int64.le_toInt value
    have hhi := Int64.toInt_le value
    have hmax : Int64.maxValue.toInt = 9223372036854775807 := by decide
    omega
  | unsigned value =>
    cases h
    have := UInt64.toNat_lt value
    omega
  | decimal value => cases h

/-- An integer numeric is zero exactly when its integer is. -/
lemma isZero_of_integer? {n : Numeric} {x : ℤ} (h : n.integer? = some x) :
    n.isZero = (x == 0) := by
  cases n with
  | signed value => cases h; rfl
  | unsigned value =>
    cases h
    simp [isZero]
  | decimal value => cases h

lemma wrapI128_eq {v : ℤ} (hlo : i128Min ≤ v) (hhi : v ≤ i128Max) : wrapI128 v = v := by
  rw [i128Min_eq] at hlo
  rw [i128Max_eq] at hhi
  unfold wrapI128
  apply Int.bmod_eq_of_le <;> norm_num <;> omega

lemma checkedI128_eq {v : ℤ} (hlo : i128Min ≤ v) (hhi : v ≤ i128Max) : checkedI128 v = some v := by
  simp [checkedI128, hlo, hhi]

/-- **`from_i128` is the range check.** -/
theorem fromI128_rangeChecked (value : ℤ) (overflow : String) :
    RangeChecked (fromI128 value overflow) value := by
  unfold fromI128
  split_ifs with hsigned hunsigned
  · -- in `i64`: `Signed`
    have hlo := hsigned.1
    have hhi := hsigned.2
    rw [i64Min_eq] at hlo
    rw [i64Max_eq] at hhi
    refine ⟨⟨fun _ => ⟨by rw [i64Min_eq]; omega, by rw [u64Max_eq]; omega⟩, fun _ => ⟨_, rfl⟩⟩, ?_⟩
    rintro n ⟨⟩
    exact Int64.toInt_ofInt_of_le (by omega) (by omega)
  · -- above `i64::MAX` and in `u64`: `Unsigned`
    have hlo := hunsigned.1
    have hhi := hunsigned.2
    have habove : i64Max < value := by
      simp only [i64Min_eq, i64Max_eq] at hsigned ⊢
      rw [u64Max_eq] at hhi
      omega
    refine ⟨⟨fun _ => ⟨by rw [i64Min_eq]; omega, hhi⟩, fun _ => ⟨_, rfl⟩⟩, ?_⟩
    rintro n ⟨⟩
    rw [u64Max_eq] at hhi
    refine ⟨?_, habove⟩
    rw [UInt64.toNat_ofNat_of_lt' (by rw [UInt64.size]; omega)]
    omega
  · -- outside both: the overflow error
    refine ⟨⟨fun ⟨_, h⟩ => (by cases h), fun hmem => ?_⟩, fun _ h => (by cases h)⟩
    simp only [i64Min_eq, i64Max_eq, u64Max_eq] at hsigned hunsigned hmem
    omega

/-- An error is the right answer for a result out of range. -/
lemma rangeChecked_error {e : String} {r : ℤ} (h : ¬ (i64Min ≤ r ∧ r ≤ u64Max)) :
    RangeChecked (.error e) r :=
  ⟨⟨fun ⟨_, h⟩ => (by cases h), fun hmem => absurd hmem h⟩, fun _ h => (by cases h)⟩

section

variable {a b : Numeric} {x y : ℤ}

theorem add_rangeChecked (ha : a.integer? = some x) (hb : b.integer? = some y) :
    RangeChecked (a.add b) (x + y) := by
  obtain ⟨hx1, hx2⟩ := integer?_mem ha
  obtain ⟨hy1, hy2⟩ := integer?_mem hb
  simp only [i64Min_eq, u64Max_eq] at hx1 hx2 hy1 hy2
  -- operands of `i64` or `u64` cannot overflow `i128` when added
  have hchecked : checkedI128 (x + y) = some (x + y) :=
    checkedI128_eq (by rw [i128Min_eq]; omega) (by rw [i128Max_eq]; omega)
  simp only [add, integerOrDecimal, ha, hb, hchecked]
  exact fromI128_rangeChecked _ _

theorem subtract_rangeChecked (ha : a.integer? = some x) (hb : b.integer? = some y) :
    RangeChecked (a.subtract b) (x - y) := by
  obtain ⟨hx1, hx2⟩ := integer?_mem ha
  obtain ⟨hy1, hy2⟩ := integer?_mem hb
  simp only [i64Min_eq, u64Max_eq] at hx1 hx2 hy1 hy2
  have hwrap : wrapI128 (x - y) = x - y :=
    wrapI128_eq (by rw [i128Min_eq]; omega) (by rw [i128Max_eq]; omega)
  simp only [subtract, ha, hb, hwrap]
  exact fromI128_rangeChecked _ _

theorem multiply_rangeChecked (ha : a.integer? = some x) (hb : b.integer? = some y) :
    RangeChecked (a.multiply b) (x * y) := by
  have hop : ("multiplication" : String) ≠ "addition" := by decide
  simp only [multiply, integerOrDecimal, ha, hb, if_neg hop]
  unfold checkedI128
  split_ifs with hrange
  · exact fromI128_rangeChecked _ _
  · -- past `i128` the product is past `u64::MAX` or below `i64::MIN` as well
    refine rangeChecked_error fun hmem => hrange ⟨?_, ?_⟩
    · rw [i128Min_eq]
      rw [i64Min_eq] at hmem
      omega
    · rw [i128Max_eq]
      rw [u64Max_eq] at hmem
      omega

theorem remainder_rangeChecked (ha : a.integer? = some x) (hb : b.integer? = some y)
    (hy : y ≠ 0) : RangeChecked (a.remainder b) (x.tmod y) := by
  obtain ⟨hx1, hx2⟩ := integer?_mem ha
  simp only [i64Min_eq, u64Max_eq] at hx1 hx2
  -- the truncated remainder is no larger than the dividend
  have hbound : (x.tmod y).natAbs ≤ x.natAbs := by
    rw [Int.natAbs_tmod]
    exact Nat.mod_le _ _
  have hwrap : wrapI128 (x.tmod y) = x.tmod y :=
    wrapI128_eq (by rw [i128Min_eq]; omega) (by rw [i128Max_eq]; omega)
  have hzero : b.isZero = false := by
    rw [isZero_of_integer? hb]
    simpa using hy
  simp only [remainder, hzero, Bool.false_eq_true, if_false, ha, hb, hwrap]
  exact fromI128_rangeChecked _ _

theorem negate_rangeChecked (ha : a.integer? = some x) : RangeChecked a.negate (-x) := by
  obtain ⟨hx1, hx2⟩ := integer?_mem ha
  simp only [i64Min_eq, u64Max_eq] at hx1 hx2
  have hwrap : wrapI128 (-x) = -x :=
    wrapI128_eq (by rw [i128Min_eq]; omega) (by rw [i128Max_eq]; omega)
  cases a with
  | signed value =>
    cases ha
    simp only [negate, hwrap]
    exact fromI128_rangeChecked _ _
  | unsigned value =>
    cases ha
    simp only [negate, hwrap]
    exact fromI128_rangeChecked _ _
  | decimal value => cases ha

/-- **Integer arithmetic is exact and range-checked**: on integer operands each operation
succeeds exactly when its exact result is in `[i64::MIN, u64::MAX]`, and then reports that
result in normal form. -/
theorem integer_arithmetic_is_exact_and_range_checked (ha : a.integer? = some x)
    (hb : b.integer? = some y) :
    RangeChecked (a.add b) (x + y) ∧ RangeChecked (a.subtract b) (x - y) ∧
      RangeChecked (a.multiply b) (x * y) ∧
      (y ≠ 0 → RangeChecked (a.remainder b) (x.tmod y)) ∧ RangeChecked a.negate (-x) :=
  ⟨add_rangeChecked ha hb, subtract_rangeChecked ha hb, multiply_rangeChecked ha hb,
    remainder_rangeChecked ha hb, negate_rangeChecked ha⟩

/-- At `i64::MIN` and `-1`: the sum leaves the range, the product and the negation are `2^63`,
an `Unsigned`, and the remainder is `0`. -/
theorem integer_arithmetic_is_exact_and_range_checked_at_i64_min :
    let a := signed Int64.minValue
    let b := signed (-1)
    (a.integer? = some (-9223372036854775808) ∧ b.integer? = some (-1)) ∧
    RangeChecked (a.add b) (-9223372036854775808 + -1) ∧
      RangeChecked (a.subtract b) (-9223372036854775808 - -1) ∧
      RangeChecked (a.multiply b) (-9223372036854775808 * -1) ∧
      ((-1 : ℤ) ≠ 0 → RangeChecked (a.remainder b) ((-9223372036854775808 : ℤ).tmod (-1))) ∧
      RangeChecked a.negate (-(-9223372036854775808)) :=
  ⟨⟨by decide, by decide⟩, integer_arithmetic_is_exact_and_range_checked (by decide) (by decide)⟩

end

end Numeric

end Integer

/-! ## Comparison is exact -/

section Compare

namespace Numeric

/-- The source's tie-break on the fractional part is the sign of the fractional part. -/
lemma fract_tieBreak (f : Binary64) :
    (if Binary64.zero < f then Ordering.lt else if f < Binary64.zero then .gt else .eq) =
      Ord.compare 0 f.scaled := by
  simp only [Binary64.lt_def, Binary64.scaled_zero]
  split_ifs with hpos hneg
  · exact (compare_lt_iff_lt.mpr hpos).symm
  · exact (compare_gt_iff_gt.mpr hneg).symm
  · exact (compare_eq_iff_eq.mpr (by omega)).symm

lemma toInt_toUInt64 {x : Int64} (h : 0 ≤ x.toInt) : (x.toUInt64.toNat : ℤ) = x.toInt := by
  have hb := x.toBitVec.isLt
  change (x.toBitVec.toNat : ℤ) = x.toBitVec.toInt
  change 0 ≤ x.toBitVec.toInt at h
  rw [BitVec.toInt_eq_toNat_cond] at h ⊢
  split_ifs at h ⊢ with hc
  · rfl
  · push_cast at h
    omega

lemma Int64.toInt_mem (x : Int64) : -2 ^ 63 ≤ x.toInt ∧ x.toInt ≤ 2 ^ 63 - 1 := by
  have hmax : Int64.maxValue.toInt = 2 ^ 63 - 1 := by decide
  exact ⟨Int64.le_toInt x, hmax ▸ Int64.toInt_le x⟩

/-- **`compare_i64_f64` is exact.**  Past the two boundary tests the truncation fits `i64`, so
the cast is exact, and the fractional part breaks a tie. -/
theorem compareI64F64_eq (integer : Int64) (decimal : Binary64) :
    compareI64F64 integer decimal = Ord.compare (integer.toInt : ℚ) decimal.toRat := by
  have hU : (0 : ℤ) < 2 ^ 1074 := by positivity
  have hpow : (2 : ℤ) ^ (63 + 1074) = 2 ^ 63 * 2 ^ 1074 := pow_add _ _ _
  obtain ⟨hlo, hhi⟩ := Int64.toInt_mem integer
  unfold compareI64F64
  by_cases hmin : decimal < i64MinF64
  · -- below `-2^63` every `i64` is greater
    rw [if_pos hmin]
    simp only [Binary64.lt_def, i64MinF64, Binary64.scaled_neg, Binary64.scaled_pow2] at hmin
    rw [Binary64.compare_intCast_toRat_eq, eq_comm, compare_gt_iff_gt]
    rw [hpow] at hmin
    calc decimal.scaled < -(2 ^ 63 * 2 ^ 1074) := hmin
      _ = -2 ^ 63 * 2 ^ 1074 := (neg_mul _ _).symm
      _ ≤ integer.toInt * 2 ^ 1074 := mul_le_mul_of_nonneg_right hlo hU.le
  by_cases hupper : decimal ≥ i64UpperF64
  · -- at or above `2^63` every `i64` is less
    rw [if_neg hmin, if_pos hupper]
    simp only [ge_iff_le, Binary64.le_def, i64UpperF64, Binary64.scaled_pow2] at hupper
    rw [Binary64.compare_intCast_toRat_eq, eq_comm, compare_lt_iff_lt]
    rw [hpow] at hupper
    calc integer.toInt * 2 ^ 1074 ≤ (2 ^ 63 - 1) * 2 ^ 1074 := mul_le_mul_of_nonneg_right hhi hU.le
      _ < 2 ^ 63 * 2 ^ 1074 := mul_lt_mul_of_pos_right (by norm_num) hU
      _ ≤ decimal.scaled := hupper
  -- in range the truncation is an `i64`, exactly
  rw [if_neg hmin, if_neg hupper]
  simp only [Binary64.lt_def, i64MinF64, Binary64.scaled_neg, Binary64.scaled_pow2, ge_iff_le,
    Binary64.le_def, i64UpperF64, not_lt, not_le] at hmin hupper
  obtain ⟨htlo, hthi⟩ := Binary64.tdiv_bounds hU (by norm_num : (0 : ℤ) < 2 ^ 63)
    (show -(2 ^ 63 * 2 ^ 1074) ≤ decimal.scaled by rw [← hpow]; exact hmin)
    (show decimal.scaled < 2 ^ 63 * 2 ^ 1074 by rw [← hpow]; exact hupper)
  have hdiv : decimal.trunc.scaled.tdiv (2 ^ 1074) = decimal.scaled.tdiv (2 ^ 1074) := by
    rw [Binary64.scaled_trunc, Int.mul_tdiv_cancel _ hU.ne']
  have htrunc : (Int64.ofInt (decimal.trunc.castInt i64Min i64Max)).toInt =
      decimal.scaled.tdiv (2 ^ 1074) := by
    rw [Binary64.castInt_of_le (by rw [hdiv, i64Min_eq]; omega) (by rw [hdiv, i64Max_eq]; omega),
      hdiv, Int64.toInt_ofInt_of_le (by omega) (by omega)]
  dsimp only
  rw [htrunc, Binary64.compare_intCast_toRat]
  -- the two sides match on the same comparison; only its tie differs in form
  cases Ord.compare integer.toInt (decimal.scaled.tdiv (2 ^ 1074)) <;> simp only [fract_tieBreak]

/-- **`compare_u64_f64` is exact.**  Past its tests the decimal is not negative, so its
fractional part is not negative either, and the missing negative tie-break is never needed. -/
theorem compareU64F64_eq (integer : UInt64) (decimal : Binary64) :
    compareU64F64 integer decimal = Ord.compare (integer.toNat : ℚ) decimal.toRat := by
  have hU : (0 : ℤ) < 2 ^ 1074 := by positivity
  have hpow : (2 : ℤ) ^ (64 + 1074) = 2 ^ 64 * 2 ^ 1074 := pow_add _ _ _
  have hlt := UInt64.toNat_lt integer
  have hcast : ((integer.toNat : ℕ) : ℚ) = ((integer.toNat : ℤ) : ℚ) := rfl
  rw [hcast]
  unfold compareU64F64
  by_cases hneg : decimal < Binary64.zero
  · -- a negative decimal is below every `u64`
    rw [if_pos hneg]
    simp only [Binary64.lt_def, Binary64.scaled_zero] at hneg
    rw [Binary64.compare_intCast_toRat_eq, eq_comm, compare_gt_iff_gt]
    exact lt_of_lt_of_le hneg (mul_nonneg (Int.natCast_nonneg _) hU.le)
  by_cases hupper : decimal ≥ u64UpperF64
  · -- at or above `2^64` every `u64` is less
    rw [if_neg hneg, if_pos hupper]
    simp only [ge_iff_le, Binary64.le_def, u64UpperF64, Binary64.scaled_pow2] at hupper
    rw [Binary64.compare_intCast_toRat_eq, eq_comm, compare_lt_iff_lt]
    rw [hpow] at hupper
    calc (integer.toNat : ℤ) * 2 ^ 1074 < 2 ^ 64 * 2 ^ 1074 :=
          mul_lt_mul_of_pos_right (by exact_mod_cast hlt) hU
      _ ≤ decimal.scaled := hupper
  rw [if_neg hneg, if_neg hupper]
  simp only [Binary64.lt_def, Binary64.scaled_zero, ge_iff_le, Binary64.le_def, u64UpperF64,
    Binary64.scaled_pow2, not_lt, not_le] at hneg hupper
  obtain ⟨-, hthi⟩ := Binary64.tdiv_bounds hU (by norm_num : (0 : ℤ) < 2 ^ 64)
    (show -(2 ^ 64 * 2 ^ 1074) ≤ decimal.scaled by
      have : (0 : ℤ) ≤ 2 ^ 64 * 2 ^ 1074 := by positivity
      omega)
    (show decimal.scaled < 2 ^ 64 * 2 ^ 1074 by rw [← hpow]; exact hupper)
  have htlo : 0 ≤ decimal.scaled.tdiv (2 ^ 1074) := Int.tdiv_nonneg hneg hU.le
  have hdiv : decimal.trunc.scaled.tdiv (2 ^ 1074) = decimal.scaled.tdiv (2 ^ 1074) := by
    rw [Binary64.scaled_trunc, Int.mul_tdiv_cancel _ hU.ne']
  have htrunc : ((UInt64.ofNat (decimal.trunc.castInt 0 u64Max).toNat).toNat : ℤ) =
      decimal.scaled.tdiv (2 ^ 1074) := by
    rw [Binary64.castInt_of_le (by rw [hdiv]; omega) (by rw [hdiv, u64Max_eq]; omega), hdiv,
      UInt64.toNat_ofNat_of_lt' (by rw [UInt64.size]; omega)]
    omega
  -- the natural comparison is the integer one, and a non-negative fraction breaks ties upward
  have hnat : Ord.compare integer.toNat (UInt64.ofNat (decimal.trunc.castInt 0 u64Max).toNat).toNat =
      Ord.compare (integer.toNat : ℤ) (decimal.scaled.tdiv (2 ^ 1074)) := by
    rw [← htrunc]
    exact Binary64.compare_eq_of_iff Int.ofNat_lt.symm Int.ofNat_inj.symm
  have hfract : 0 ≤ decimal.fract.scaled := Binary64.fract_nonneg hneg
  have htie : (if Binary64.zero < decimal.fract then Ordering.lt else .eq) =
      Ord.compare 0 decimal.fract.scaled := by
    rw [← fract_tieBreak, if_neg (show ¬ decimal.fract < Binary64.zero by
      simp only [Binary64.lt_def, Binary64.scaled_zero]; omega)]
  dsimp only
  rw [hnat, Binary64.compare_intCast_toRat]
  -- the two sides match on the same comparison; only its tie differs in form
  cases Ord.compare (integer.toNat : ℤ) (decimal.scaled.tdiv (2 ^ 1074)) <;> simp only [htie]

/-- **Comparison is exact**: `compare` orders numerics by the values they denote, with no
rounding through `f64`. -/
theorem compare_eq (a b : Numeric) : a.compare b = Ord.compare a.value b.value := by
  cases a with
  | signed left =>
    cases b with
    | signed right =>
      exact Binary64.compare_eq_of_iff Int.cast_lt.symm Int.cast_inj.symm
    | unsigned right =>
      simp only [compare, value]
      split_ifs with hneg
      · exact (compare_lt_iff_lt.mpr (by
          have : (0 : ℚ) ≤ right.toNat := by positivity
          have : (left.toInt : ℚ) < 0 := by exact_mod_cast hneg
          linarith)).symm
      · -- a non-negative `i64` read as `u64` keeps its value
        have hval : ((left.toUInt64.toNat : ℕ) : ℚ) = (left.toInt : ℚ) := by
          exact_mod_cast toInt_toUInt64 (not_lt.mp hneg)
        rw [← hval]
        exact Binary64.compare_eq_of_iff Nat.cast_lt.symm Nat.cast_inj.symm
    | decimal right => exact compareI64F64_eq left right
  | unsigned left =>
    cases b with
    | signed right =>
      simp only [compare, value]
      split_ifs with hneg
      · exact (compare_gt_iff_gt.mpr (by
          have : (0 : ℚ) ≤ left.toNat := by positivity
          have : (right.toInt : ℚ) < 0 := by exact_mod_cast hneg
          linarith)).symm
      · have hval : ((right.toUInt64.toNat : ℕ) : ℚ) = (right.toInt : ℚ) := by
          exact_mod_cast toInt_toUInt64 (not_lt.mp hneg)
        rw [← hval]
        exact Binary64.compare_eq_of_iff Nat.cast_lt.symm Nat.cast_inj.symm
    | unsigned right => exact Binary64.compare_eq_of_iff Nat.cast_lt.symm Nat.cast_inj.symm
    | decimal right => exact compareU64F64_eq left right
  | decimal left =>
    cases b with
    | signed right =>
      simp only [compare, value]
      rw [compareI64F64_eq]
      exact Std.OrientedOrd.eq_swap.symm
    | unsigned right =>
      simp only [compare, value]
      rw [compareU64F64_eq]
      exact Std.OrientedOrd.eq_swap.symm
    | decimal right => exact (Binary64.compare_toRat left right).symm

end Numeric

end Compare

end Ryeos.Expression
