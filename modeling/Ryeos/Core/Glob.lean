import Mathlib

/-!
# Anchored glob patterns

Capability and namespace patterns use two wildcards: `*` stands for any run of characters and
`?` for any one character, neither matching a line feed; every other character stands for
itself.  Code that checks such a pattern usually compiles it into the regular expression
`^…$`, translating `*` to `.*`, `?` to `.` and escaping the rest.  Under the default flags
`.` matches any character but `'\n'` and the anchors pin the whole text, so that expression
accepts exactly the texts `globMatch` accepts.

* `globMatch` — the matcher, by structural recursion on the pattern;
* `globMatch_literal` — a pattern with no wildcard matches exactly itself.
-/

namespace Ryeos

/-- Whether a text can be read as a pattern with no wildcard. -/
def isLiteral (p : List Char) : Bool := p.all fun c => c ≠ '*' && c ≠ '?'

/-- Anchored glob matching: does the whole text `s` match the pattern `p`? -/
def globMatch : List Char → List Char → Bool
  | [], s => s.isEmpty
  | '*' :: p, s =>
    (List.range ((s.takeWhile (· ≠ '\n')).length + 1)).any fun k => globMatch p (s.drop k)
  | '?' :: p, c :: s => c ≠ '\n' && globMatch p s
  | '?' :: _, [] => false
  | c :: p, d :: s => c = d && globMatch p s
  | _ :: _, [] => false

/-- **A literal pattern matches exactly itself.**  Induction on the pattern; with no wildcard
each step compares one character (`globMatch.eq_5`, `globMatch.eq_6`). -/
theorem globMatch_literal : ∀ {p : List Char}, isLiteral p = true →
    ∀ s, globMatch p s = true ↔ p = s
  | [], _, s => by cases s <;> simp [globMatch]
  | c :: p, hp, s => by
      simp only [isLiteral, List.all_cons, Bool.and_eq_true, decide_eq_true_eq] at hp
      obtain ⟨⟨hstar, hq⟩, hrest⟩ := hp
      have ih := @globMatch_literal p (by simpa [isLiteral] using hrest)
      cases s with
      | nil => simp [globMatch.eq_6 c p hstar hq]
      | cons d s =>
        rw [globMatch.eq_5 c p d s hstar hq, List.cons.injEq, Bool.and_eq_true,
          decide_eq_true_eq, ih s]

end Ryeos
