import Mathlib

/-!
# Hexadecimal digits

Writing a number in lowercase hexadecimal, zero-padded on the left to a width (the `{:0wx}`
directive of a format string), and reading hexadecimal digits of either case back.

* `Hex.format w n` is the padded rendering, as the format directive produces it: the digits of
  `Nat.toDigits 16`, padded with `'0'`;
* `Hex.fixed w n` spells out the `w` low digits of `n`; below `16 ^ w` the two agree
  (`format_eq_fixed`), and `fixed` is the form the proofs compute with;
* `Hex.value` reads a list of digits back (`value_fixed`).
-/

namespace Ryeos

namespace Hex

/-- **The `{:0wx}` rendering**: lowercase hexadecimal digits, padded with `'0'` to `width`. -/
def format (width n : Nat) : List Char :=
  (Nat.toDigits 16 n).leftpad width '0'

/-- The `width` low hexadecimal digits of `n`, most significant first. -/
def fixed : Nat → Nat → List Char
  | 0, _ => []
  | w + 1, n => fixed w (n / 16) ++ [Nat.digitChar (n % 16)]

/-- The value of one hexadecimal digit of either case. -/
def digitValue (c : Char) : Option Nat :=
  if c.isDigit then some (c.toNat - '0'.toNat)
  else if 'a' ≤ c ∧ c ≤ 'f' then some (c.toNat - 'a'.toNat + 10)
  else if 'A' ≤ c ∧ c ≤ 'F' then some (c.toNat - 'A'.toNat + 10)
  else none

/-- The value of a list of hexadecimal digits, most significant first. -/
def value (ds : List Char) : Option Nat :=
  ds.foldlM (fun acc d => (digitValue d).map (acc * 16 + ·)) 0

lemma digitValue_digitChar : ∀ d, d < 16 → digitValue (Nat.digitChar d) = some d := by
  decide

@[simp] lemma fixed_zero (n : Nat) : fixed 0 n = [] := rfl

lemma fixed_succ (w n : Nat) : fixed (w + 1) n = fixed w (n / 16) ++ [Nat.digitChar (n % 16)] :=
  rfl

@[simp] lemma length_fixed : ∀ w n, (fixed w n).length = w
  | 0, _ => rfl
  | w + 1, n => by simp [fixed_succ, length_fixed w]

/-- The low digits of zero are zeros. -/
lemma fixed_of_zero : ∀ w, fixed w 0 = List.replicate w '0'
  | 0 => rfl
  | w + 1 => by
    rw [fixed_succ, Nat.zero_div, fixed_of_zero w, List.replicate_succ']
    rfl

/-- Every character of `fixed w n` is one of the sixteen digits. -/
lemma mem_fixed : ∀ {w n : Nat} {c : Char}, c ∈ fixed w n → ∃ d, d < 16 ∧ c = Nat.digitChar d
  | 0, _, _, h => by simp at h
  | w + 1, n, c, h => by
    rw [fixed_succ, List.mem_append, List.mem_singleton] at h
    rcases h with h | h
    · exact mem_fixed h
    · exact ⟨n % 16, Nat.mod_lt n (by decide), h⟩

lemma format_succ_eq_fixed {w n : Nat} (h : n < 16 ^ (w + 1)) :
    format (w + 1) n = fixed (w + 1) n := by
  induction w generalizing n with
  | zero =>
    have hsmall : n < 16 := by simpa using h
    simp [format, fixed_succ, Nat.toDigits_of_lt_base hsmall, Nat.div_eq_of_lt hsmall,
      Nat.mod_eq_of_lt hsmall, List.leftpad]
  | succ w ih =>
    by_cases hsmall : n < 16
    · -- a single digit, padded with zeros: the high digits of `fixed` are those zeros
      rw [format, Nat.toDigits_of_lt_base hsmall, fixed_succ, Nat.div_eq_of_lt hsmall,
        fixed_of_zero, Nat.mod_eq_of_lt hsmall]
      simp [List.leftpad]
    · -- the last digit is `n % 16`; the ones before it are the digits of `n / 16`
      have hlt : n / 16 < 16 ^ (w + 1) := by
        rw [Nat.div_lt_iff_lt_mul (by decide), ← Nat.pow_succ]
        exact h
      have ihn := ih hlt
      rw [format] at ihn ⊢
      rw [Nat.toDigits_of_base_le (by decide) (by omega), fixed_succ, ← ihn]
      simp only [List.leftpad, List.length_append, List.length_cons, List.length_nil,
        List.append_assoc]
      congr 2
      omega

/-- **Below `16 ^ w`, padding the digits is spelling out `w` of them**, for a positive width
(`{:00x}` still prints one digit). -/
lemma format_eq_fixed {w n : Nat} (hw : 0 < w) (h : n < 16 ^ w) : format w n = fixed w n := by
  obtain ⟨w, rfl⟩ : ∃ w', w = w' + 1 := ⟨w - 1, by omega⟩
  exact format_succ_eq_fixed h

lemma value_append_singleton (ds : List Char) (d : Char) :
    value (ds ++ [d]) = (value ds).bind fun acc => (digitValue d).map (acc * 16 + ·) := by
  simp [value, List.foldlM_append]

/-- Reading back the spelled-out digits gives the number modulo `16 ^ w`. -/
lemma value_fixed : ∀ w n, value (fixed w n) = some (n % 16 ^ w)
  | 0, n => by simp [value, Nat.mod_one]
  | w + 1, n => by
    rw [fixed_succ, value_append_singleton, value_fixed w (n / 16), Option.bind_some,
      digitValue_digitChar _ (Nat.mod_lt n (by decide)), Option.map_some,
      Nat.pow_succ, Nat.mul_comm (16 ^ w) 16, Nat.mod_mul]
    -- `n % (16 * 16 ^ w)` is the last digit plus sixteen times the digits of `n / 16`
    congr 1
    omega

lemma value_fixed_of_lt {w n : Nat} (h : n < 16 ^ w) : value (fixed w n) = some n := by
  rw [value_fixed, Nat.mod_eq_of_lt h]

end Hex

end Ryeos
