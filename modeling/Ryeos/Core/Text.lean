import Ryeos.Core.Binary64

/-!
# Rust's text functions

The parts of Rust's `str` and `char` that the models call, on lists of characters:
`char::is_whitespace` and `str::trim`, the ASCII classes of `u8`, and `str::parse` at the
integer types and at `f64`.

`str::parse` at an integer type accepts an optional sign (a `-` only for a signed type) and a
non-empty run of ASCII digits whose value is in range.  At `f64` it accepts an optional sign and
a decimal significand with an optional exponent, or `inf`, `infinity` or `nan` in any case, and
rounds the exact value to the nearest double; a value past the largest double parses to an
infinity, which `parseF64` reports as `some none`.
-/

namespace Rust

/-- `char::is_whitespace`: the Unicode `White_Space` property. -/
def isWhitespace (c : Char) : Bool :=
  let n := c.toNat
  (0x09 ≤ n && n ≤ 0x0D) || n == 0x20 || n == 0x85 || n == 0xA0 || n == 0x1680 ||
    (0x2000 ≤ n && n ≤ 0x200A) || n == 0x2028 || n == 0x2029 || n == 0x202F || n == 0x205F ||
    n == 0x3000

/-- `str::trim`: drop whitespace from both ends. -/
def trim (cs : List Char) : List Char :=
  ((cs.dropWhile isWhitespace).reverse.dropWhile isWhitespace).reverse

/-- `u8::is_ascii_whitespace`: space, tab, line feed, form feed and carriage return. -/
def isAsciiWhitespace (c : Char) : Bool :=
  c = ' ' || c = '\t' || c = '\n' || c = '\x0C' || c = '\r'

/-- The value of a run of ASCII digits. -/
def digitsValue (ds : List Char) : ℕ :=
  ds.foldl (fun acc c => acc * 10 + (c.toNat - '0'.toNat)) 0

/-- `str::parse` at an integer type whose values are `[lo, hi]`; `signed` says whether a
leading `-` is a sign. -/
def parseInt (signed : Bool) (lo hi : ℤ) (s : List Char) : Option ℤ :=
  let (negative, digits) : Bool × List Char :=
    match s with
    | '+' :: rest => (false, rest)
    | '-' :: rest => if signed then (true, rest) else (false, s)
    | _ => (false, s)
  if digits.isEmpty || !digits.all Char.isDigit then none
  else
    let value : ℤ := if negative then -(digitsValue digits : ℤ) else digitsValue digits
    if lo ≤ value ∧ value ≤ hi then some value else none

/-- A decimal significand with an optional exponent, read as `mantissa * 10 ^ scale`: integer
digits, an optional point with fraction digits (at least one digit in all), and an optional
`e` or `E` with an optional sign and at least one digit, with nothing after. -/
def scanDecimal (s : List Char) : Option (ℕ × ℤ) :=
  let intDigits := s.takeWhile Char.isDigit
  let rest := s.dropWhile Char.isDigit
  let (fracDigits, rest) : List Char × List Char :=
    match rest with
    | '.' :: after => (after.takeWhile Char.isDigit, after.dropWhile Char.isDigit)
    | _ => ([], rest)
  if intDigits.isEmpty && fracDigits.isEmpty then none
  else
    let exponent : Option ℤ :=
      match rest with
      | [] => some 0
      | e :: after =>
        if e = 'e' || e = 'E' then
          let (negative, digits) : Bool × List Char :=
            match after with
            | '+' :: ds => (false, ds)
            | '-' :: ds => (true, ds)
            | ds => (false, ds)
          if digits.isEmpty || !digits.all Char.isDigit then none
          else some (if negative then -(digitsValue digits : ℤ) else digitsValue digits)
        else none
    exponent.map fun exp => (digitsValue (intDigits ++ fracDigits), exp - fracDigits.length)

/-- `inf`, `infinity` or `nan`, in any case. -/
def isSpecialFloat (s : List Char) : Bool :=
  let lower := s.map Char.toLower
  lower = "inf".toList || lower = "infinity".toList || lower = "nan".toList

/-- `str::parse::<f64>`: `none` for text that is not a float, `some none` for a result that is
not finite, and otherwise the correctly rounded double. -/
def parseF64 (s : List Char) : Option (Option Binary64) :=
  let (negative, rest) : Bool × List Char :=
    match s with
    | '+' :: rest => (false, rest)
    | '-' :: rest => (true, rest)
    | _ => (false, s)
  match scanDecimal rest with
  | some (mantissa, scale) =>
    let magnitude : ℚ := mantissa * (10 : ℚ) ^ scale
    some (Binary64.round (if negative then -magnitude else magnitude))
  | none => if isSpecialFloat rest then some none else none

/-! ## Integers that start with a digit -/

/-- From a digit, `parse` at an integer type reads the whole text as digits: there is no sign
to take off. -/
lemma parseInt_of_isDigit {signed : Bool} {lo hi : ℤ} {c : Char} {rest : List Char}
    (hc : c.isDigit = true) :
    parseInt signed lo hi (c :: rest) =
      if (c :: rest).all Char.isDigit = true ∧ lo ≤ (digitsValue (c :: rest) : ℤ) ∧
          (digitsValue (c :: rest) : ℤ) ≤ hi then some (digitsValue (c :: rest) : ℤ)
      else none := by
  unfold parseInt
  split
  next negative digits heq =>
    split at heq
    -- a sign is not a digit
    · next hsign =>
      cases hsign
      cases hc
    · next hsign =>
      cases hsign
      cases hc
    · cases heq
      by_cases hdigits : (c :: rest).all Char.isDigit = true <;> simp [hdigits]

lemma parseInt_range {signed : Bool} {lo hi v : ℤ} {s : List Char}
    (h : parseInt signed lo hi s = some v) : lo ≤ v ∧ v ≤ hi := by
  unfold parseInt at h
  dsimp only at h
  split_ifs at h <;> cases h <;> assumption

/-- A text of digits that `parse` reads at one integer type it reads at any other whose range
holds the value. -/
lemma parseInt_of_isDigit_eq_some {signed signed' : Bool} {lo hi lo' hi' v : ℤ} {c : Char}
    {rest : List Char} (hc : c.isDigit = true) (h : parseInt signed lo hi (c :: rest) = some v) :
    parseInt signed' lo' hi' (c :: rest) = if lo' ≤ v ∧ v ≤ hi' then some v else none := by
  rw [parseInt_of_isDigit hc] at h ⊢
  split_ifs at h with hread
  cases h
  simp [hread.1]

end Rust
