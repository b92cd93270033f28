import Ryeos.Expression.Soundness

/-!
# `number(string)` and numeric literals: `expression/value.rs`, `expression/lexer.rs`

`Numeric::parse_string`, the text form of the builtin `number(...)`, takes an optional sign off
its text, asks `valid_unsigned_number_token` of the rest and reads it with
`parse_unsigned_token`, the reader of the lexer's number tokens.  The same text compiled as an
expression is a number literal, under the parser's unary `+` or `-` when it has a sign.  The two
readings meet: `parse_string` accepts a sign and a token of the grammar whose value it can read,
the lexer reads exactly the tokens of the grammar as one token, and the compiled text evaluates
to the number `number(...)` returns.

The grammar alone does not decide: a token whose value does not fit (an integer past
`u64::MAX`, a decimal that rounds to an infinity, a negated integer below `i64::MIN`) is refused
with the error of its reader.

The evaluations are stated both ways: every successful run returns the number (`Ensures`), and
a budget that affords the run's fuel, within the result limits, makes it succeed (`Returns`).
-/

namespace Ryeos.Expression

open StateT

/-! ## Runs under a budget that affords them -/

namespace Evaluator

/-- A budget under `limits` with at least `fuel` fuel left. -/
def Affords (limits : EvaluationLimits) (fuel : ℕ) (budget : Budget) : Prop :=
  budget.limits = limits ∧ fuel ≤ budget.fuelRemaining

lemma Affords.mono {limits : EvaluationLimits} {fuel fuel' : ℕ} {budget : Budget}
    (h : Affords limits fuel budget) (hle : fuel' ≤ fuel) : Affords limits fuel' budget :=
  ⟨h.1, hle.trans h.2⟩

lemma spendFuel_returns {limits : EvaluationLimits} {amount fuel : ℕ} {purpose : String} :
    Returns (spendFuel amount purpose) (Affords limits (amount + fuel))
      fun _ => Affords limits fuel := by
  unfold spendFuel
  refine Returns.get_bind fun budget ⟨hlimits, hfuel⟩ => ?_
  refine Returns.guard (by omega) (Returns.set fun _ _ => ?_)
  exact ⟨hlimits, by dsimp only; omega⟩

lemma addResultBytes_returns {limits : EvaluationLimits} {total amount fuel : ℕ}
    (hbytes : satAdd total amount ≤ limits.maxResultBytes) :
    Returns (addResultBytes total amount) (Affords limits (amount + fuel))
      fun _ => Affords limits fuel := by
  unfold addResultBytes
  refine Returns.get_bind fun budget ⟨hlimits, _⟩ => ?_
  refine Returns.guard (by rw [hlimits]; omega) ?_
  exact Returns.bind spendFuel_returns fun _ => Returns.pure fun _ hs => hs

variable (host : Host)

/-- A number passes `inspect_result` for one unit of fuel and one per byte of its text. -/
lemma inspectResult_number_returns {limits : EvaluationLimits} {j : JsonNumber}
    {depth nodes bytes fuel : ℕ} (hdepth : depth ≤ limits.maxResultDepth)
    (hnodes : nodes + 1 ≤ limits.maxResultNodes)
    (hbytes : satAdd bytes (j.toText host).utf8ByteSize ≤ limits.maxResultBytes) :
    Returns (inspectResult host (.number j) depth nodes bytes)
      (Affords limits (1 + ((j.toText host).utf8ByteSize + fuel)))
      fun _ => Affords limits fuel := by
  rw [inspectResult]
  refine Returns.get_bind fun budget ⟨hlimits, _⟩ => ?_
  refine Returns.guard (by rw [hlimits]; omega) ?_
  refine Returns.get_bind fun budget ⟨hlimits, _⟩ => ?_
  refine Returns.guard (by rw [hlimits]; omega) ?_
  refine Returns.bind spendFuel_returns fun _ => ?_
  exact Returns.bind (addResultBytes_returns hbytes) fun _ => Returns.pure fun _ hs => hs

lemma finish_number_returns {limits : EvaluationLimits} {j : JsonNumber} {fuel : ℕ}
    (hdepth : 1 ≤ limits.maxResultDepth) (hnodes : 1 ≤ limits.maxResultNodes)
    (hbytes : (j.toText host).utf8ByteSize ≤ limits.maxResultBytes) :
    Returns (finish host (.owned (.number j)))
      (Affords limits (1 + ((j.toText host).utf8ByteSize + fuel)))
      fun value _ => value = .number j := by
  unfold finish
  refine Returns.bind_eq (Returns.pure fun _ hs => ⟨rfl, hs⟩) ?_
  have hbytes' : satAdd 0 (j.toText host).utf8ByteSize ≤ limits.maxResultBytes :=
    (min_le_left _ _).trans (by simpa using hbytes)
  exact Returns.bind (inspectResult_number_returns host hdepth hnodes hbytes') fun _ =>
    Returns.pure fun _ _ => rfl

/-- An owned result is finished as it is. -/
lemma finish_owned_ensures (value : Value) : Ensures (finish host (.owned value)) (· = value) := by
  unfold finish
  exact Ensures.bind_eq (Ensures.pure rfl) (Ensures.bind_forall fun _ => Ensures.pure rfl)

lemma requireNumber_number {j : JsonNumber} {p : Numeric} {purpose : String}
    (hp : Numeric.fromJson j = .ok p) : requireNumber (.owned (.number j)) purpose = .ok p := by
  simp [requireNumber, RuntimeValue.asJson, hp]

variable (context : ContextView)

/-- The literal's number, in JSON, for one unit of fuel. -/
lemma evaluate_literal_returns {limits : EvaluationLimits} {p : Numeric} {j : JsonNumber}
    {fuel : ℕ} (hj : p.toJson = .ok j) :
    Returns (evaluate host context (.literal (.number p))) (Affords limits (1 + fuel))
      fun value budget => value = .owned (.number j) ∧ Affords limits fuel budget := by
  rw [evaluate]
  refine Returns.bind spendFuel_returns fun _ => ?_
  simp only [literal, hj, liftExcept_ok, pure_bind]
  exact Returns.pure fun _ hs => ⟨rfl, hs⟩

lemma evaluate_literal_ensures {p : Numeric} {j : JsonNumber} (hj : p.toJson = .ok j) :
    Ensures (evaluate host context (.literal (.number p))) (· = .owned (.number j)) := by
  rw [evaluate]
  refine Ensures.bind_forall fun _ => ?_
  simp only [literal, hj, liftExcept_ok, pure_bind]
  exact Ensures.pure rfl

/-- A number literal under unary `+` or `-`: the literal's JSON is read back as the number
`p`, the operator applies to it, and the result goes back into JSON. -/
lemma evaluate_unary_returns {limits : EvaluationLimits} {operator : UnaryOperator}
    {p r : Numeric} {j j' : JsonNumber} {fuel : ℕ} (hoperator : operator ≠ .not)
    (hj : p.toJson = .ok j) (hp : Numeric.fromJson j = .ok p)
    (hr : (if operator = .plus then p.positive else p.negate) = .ok r) (hj' : r.toJson = .ok j') :
    Returns (evaluate host context (.unary operator (.literal (.number p))))
      (Affords limits (1 + (1 + fuel)))
      fun value budget => value = .owned (.number j') ∧ Affords limits fuel budget := by
  rw [evaluate]
  refine Returns.bind spendFuel_returns fun _ => ?_
  unfold unary
  refine Returns.bind_eq (evaluate_literal_returns host context hj) ?_
  cases operator
  · exact absurd rfl hoperator
  all_goals
    dsimp only
    refine Returns.bind_eq (Returns.lift (requireNumber_number hp) fun _ hs => ⟨rfl, hs⟩) ?_
    simp only [reduceCtorEq, ↓reduceIte] at hr ⊢
    simp only [hr, hj', liftExcept_ok, pure_bind]
    exact Returns.pure fun _ hs => ⟨rfl, hs⟩

lemma evaluate_unary_ensures {operator : UnaryOperator} {p r : Numeric} {j j' : JsonNumber}
    (hoperator : operator ≠ .not) (hj : p.toJson = .ok j) (hp : Numeric.fromJson j = .ok p)
    (hr : (if operator = .plus then p.positive else p.negate) = .ok r) (hj' : r.toJson = .ok j') :
    Ensures (evaluate host context (.unary operator (.literal (.number p))))
      (· = .owned (.number j')) := by
  rw [evaluate]
  refine Ensures.bind_forall fun _ => ?_
  unfold unary
  refine Ensures.bind_eq (evaluate_literal_ensures host context hj) ?_
  cases operator
  · exact absurd rfl hoperator
  all_goals
    dsimp only
    refine Ensures.bind_eq (Ensures.lift_eq (requireNumber_number hp)) ?_
    simp only [reduceCtorEq, ↓reduceIte] at hr ⊢
    simp only [hr, hj', liftExcept_ok, pure_bind]
    exact Ensures.pure rfl

end Evaluator

/-! ## Sessions that return -/

/-- A computation that returns from the session's budget makes the session return. -/
lemma EvaluationSession.run_of_returns {α : Type} {computation : EvalM α} {P : Budget → Prop}
    {Q : α → Budget → Prop} {session : EvaluationSession} (hcomputation : Returns computation P Q)
    (hbudget : P session.budget) :
    ∃ a session', session.run computation = .ok (a, session') ∧ Q a session'.budget := by
  obtain ⟨a, budget, hrun, hQ⟩ := hcomputation session.budget hbudget
  exact ⟨a, { session with budget }, by simp [EvaluationSession.run, hrun], hQ⟩

/-! ## The lexer and the parser on a signed number -/

namespace Lexer

/-- A number token followed by nothing is read as one `Number` and then `Eof`. -/
lemma run_of_validUnsignedNumberToken {limits : CompilationLimits} {u : List Char}
    {tokens : List TokenKind} (hvalid : validUnsignedNumberToken u = true) :
    run limits u tokens =
      (push limits tokens (.number (String.ofList u)) >>= fun tokens => push limits tokens .eof) := by
  obtain ⟨first, rest, rfl, hdigit, hnumber⟩ := (validUnsignedNumberToken_iff u).mp hvalid
  rw [run_cons_of_scanToken (isAsciiWhitespace_of_isDigit hdigit)
    ((scanToken_of_isDigit hdigit).trans hnumber)]
  congr 1
  funext tokens
  rw [run]

end Lexer

/-- A sign and a number token are read as the sign's token, the `Number` and `Eof`. -/
lemma lex_signed_number {limits : CompilationLimits} {s : String} {sign : Char}
    {kind : TokenKind} {u : List Char} (hs : s.toList = sign :: u)
    (hws : Rust.isAsciiWhitespace sign = false) (hsign : Lexer.scanToken sign u = .ok (kind, u))
    (hvalid : validUnsignedNumberToken u = true) (hbytes : s.utf8ByteSize ≤ limits.maxSourceBytes)
    (htokens : 3 ≤ limits.maxTokens) :
    lex limits s = .ok [kind, .number (String.ofList u), .eof] := by
  rw [lex, if_neg (by omega), hs, Lexer.run_cons_of_scanToken hws hsign, Lexer.push,
    if_neg (by simp; omega), Except.ok_bind, Lexer.run_of_validUnsignedNumberToken hvalid]
  simp only [Lexer.push, List.length_nil, List.nil_append, List.singleton_append,
    List.length_cons]
  rw [if_neg (by omega), Except.ok_bind, if_neg (by simp; omega)]
  rfl

namespace Parser

lemma expressionLoop_eof (limits : CompilationLimits) (minBindingPower depth : ℕ) (left : Expr)
    (elements : ℕ) :
    expressionLoop limits minBindingPower depth left [.eof] elements =
      .ok (.unread left elements) := by
  rw [expressionLoop.eq_def]
  rfl

lemma expression_number {limits : CompilationLimits} {minBindingPower depth elements : ℕ}
    {text : String} {numeric : Numeric} (hdepth : depth ≤ limits.maxAstDepth)
    (hnumber : Numeric.parseUnsignedToken text = .ok numeric) :
    expression limits minBindingPower depth [.number text, .eof] elements =
      .ok ⟨.literal (.number numeric), [.eof], elements, by simp⟩ := by
  rw [expression]
  simp only [checkDepth, if_neg (Nat.not_lt.mpr hdepth)]
  rw [parsePrefix]
  simp only [hnumber, bind, Except.bind, pure, Except.pure, expressionLoop_eof, Parsed.unread]

lemma expression_signed_number {limits : CompilationLimits} {minBindingPower depth elements : ℕ}
    {token : TokenKind} {operator : UnaryOperator} {text : String} {numeric : Numeric}
    (hdepth : depth + 1 ≤ limits.maxAstDepth) (hoperator : unaryOperator token = some operator)
    (hnumber : Numeric.parseUnsignedToken text = .ok numeric) :
    expression limits minBindingPower depth [token, .number text, .eof] elements =
      .ok ⟨.unary operator (.literal (.number numeric)), [.eof], elements, by simp⟩ := by
  rw [expression]
  simp only [checkDepth, if_neg (show ¬ depth > limits.maxAstDepth by omega)]
  -- the unary operators are `!`, `+` and `-`
  have hleading : parsePrefix limits depth [token, .number text, .eof] elements =
      .ok ⟨.unary operator (.literal (.number numeric)), [.eof], elements, by simp⟩ := by
    cases token <;> dsimp only [unaryOperator] at hoperator <;> cases hoperator <;>
      rw [parsePrefix.eq_def] <;>
      simp only [unaryOperator, bind, Except.bind, pure, Except.pure,
        expression_number (by omega) hnumber]
  simp only [hleading, bind, Except.bind, pure, Except.pure, expressionLoop_eof, Parsed.unread]

end Parser

lemma parse_number {limits : CompilationLimits} {text : String} {numeric : Numeric}
    (hdepth : 1 ≤ limits.maxAstDepth) (hnumber : Numeric.parseUnsignedToken text = .ok numeric) :
    parse limits [.number text, .eof] = .ok (.literal (.number numeric)) := by
  rw [parse, Parser.expression_number hdepth hnumber]
  simp [validateAstDepth, Expr.depth, Parser.current, show limits.maxAstDepth ≠ 0 by omega, bind,
    Except.bind, pure, Except.pure]

lemma parse_signed_number {limits : CompilationLimits} {token : TokenKind}
    {operator : UnaryOperator} {text : String} {numeric : Numeric}
    (hdepth : 2 ≤ limits.maxAstDepth) (hoperator : Parser.unaryOperator token = some operator)
    (hnumber : Numeric.parseUnsignedToken text = .ok numeric) :
    parse limits [token, .number text, .eof] =
      .ok (.unary operator (.literal (.number numeric))) := by
  rw [parse, Parser.expression_signed_number hdepth hoperator hnumber]
  simp [validateAstDepth, Expr.depth, Parser.current, show ¬ limits.maxAstDepth < 2 by omega, bind,
    Except.bind, pure, Except.pure]

/-! ## The characters of a number token -/

/-- The characters a number token is made of. -/
def IsNumberChar (c : Char) : Prop :=
  c.isDigit = true ∨ c = '.' ∨ c = 'e' ∨ c = 'E' ∨ c = '+' ∨ c = '-'

lemma isNumberChar_of_mem_takeWhile {cs : List Char} {c : Char}
    (h : c ∈ cs.takeWhile Char.isDigit) : IsNumberChar c :=
  .inl (List.mem_takeWhile_imp h)

lemma validIntegerPart_chars {cs after : List Char} (h : validIntegerPart cs = some after) :
    ∃ part, cs = part ++ after ∧ ∀ c ∈ part, IsNumberChar c := by
  cases cs with
  | nil => cases h
  | cons first rest =>
    simp only [validIntegerPart] at h
    split_ifs at h with hzero hdigit
    · -- a lone `0`
      subst hzero
      split at h
      · split_ifs at h
        cases h
        exact ⟨['0'], rfl, by simp [IsNumberChar]⟩
      · cases h
        exact ⟨['0'], rfl, by simp [IsNumberChar]⟩
    · cases h
      refine ⟨first :: rest.takeWhile Char.isDigit, by simp, ?_⟩
      simp only [List.mem_cons, forall_eq_or_imp]
      exact ⟨.inl hdigit, fun c hc => isNumberChar_of_mem_takeWhile hc⟩

lemma validFractionPart_chars {cs after : List Char} (h : validFractionPart cs = some after) :
    ∃ part, cs = part ++ after ∧ ∀ c ∈ part, IsNumberChar c := by
  unfold validFractionPart at h
  split at h
  · next more =>
    split_ifs at h
    cases h
    refine ⟨'.' :: more.takeWhile Char.isDigit, by simp, ?_⟩
    simp only [List.mem_cons, forall_eq_or_imp]
    exact ⟨.inr (.inl rfl), fun c hc => isNumberChar_of_mem_takeWhile hc⟩
  · cases h
    exact ⟨[], rfl, by simp⟩

lemma validExponentPart_chars {cs after : List Char} (h : validExponentPart cs = some after) :
    ∃ part, cs = part ++ after ∧ ∀ c ∈ part, IsNumberChar c := by
  unfold validExponentPart at h
  split at h
  · next e more =>
    split_ifs at h with hexponent
    · have he : IsNumberChar e := by
        simp only [Bool.or_eq_true, decide_eq_true_eq] at hexponent
        rcases hexponent with rfl | rfl <;> simp [IsNumberChar]
      dsimp only at h
      -- the digits follow the exponent's sign, if there is one
      split at h
      · next s more' =>
        by_cases hsign : (decide (s = '+') || decide (s = '-')) = true
        · rw [if_pos hsign] at h
          split_ifs at h
          cases h
          have hs : IsNumberChar s := by
            simp only [Bool.or_eq_true, decide_eq_true_eq] at hsign
            rcases hsign with rfl | rfl <;> simp [IsNumberChar]
          refine ⟨e :: s :: more'.takeWhile Char.isDigit, by simp, ?_⟩
          simp only [List.mem_cons, forall_eq_or_imp]
          exact ⟨he, hs, fun c hc => isNumberChar_of_mem_takeWhile hc⟩
        · rw [if_neg hsign] at h
          split_ifs at h
          cases h
          refine ⟨e :: (s :: more').takeWhile Char.isDigit, by simp, ?_⟩
          simp only [List.mem_cons, forall_eq_or_imp]
          exact ⟨he, fun c hc => isNumberChar_of_mem_takeWhile hc⟩
      · simp at h
    · cases h
      exact ⟨[], rfl, by simp⟩
  · cases h
    exact ⟨[], rfl, by simp⟩

/-- A number token is made of digits, points, exponent letters and signs. -/
lemma validUnsignedNumberToken_chars {u : List Char} (h : validUnsignedNumberToken u = true) :
    ∀ c ∈ u, IsNumberChar c := by
  simp only [validUnsignedNumberToken, decide_eq_true_eq, Option.bind_eq_bind,
    Option.bind_eq_some_iff] at h
  obtain ⟨afterFraction, ⟨afterInteger, hinteger, hfraction⟩, hexponent⟩ := h
  obtain ⟨integer, rfl, hintegerChars⟩ := validIntegerPart_chars hinteger
  obtain ⟨fraction, rfl, hfractionChars⟩ := validFractionPart_chars hfraction
  obtain ⟨exponent, rfl, hexponentChars⟩ := validExponentPart_chars hexponent
  intro c hc
  simp only [List.append_nil, List.mem_append] at hc
  rcases hc with hc | hc | hc
  exacts [hintegerChars c hc, hfractionChars c hc, hexponentChars c hc]

lemma isWhitespace_of_isNumberChar {c : Char} (h : IsNumberChar c) :
    Rust.isWhitespace c = false := by
  rcases h with hdigit | rfl | rfl | rfl | rfl | rfl
  · have hrange := Char.isDigit_iff_toNat.mp hdigit
    have hzero : '0'.toNat = 48 := rfl
    have hnine : '9'.toNat = 57 := rfl
    simp only [Rust.isWhitespace, Bool.or_eq_false_iff, Bool.and_eq_false_iff,
      decide_eq_false_iff_not, beq_eq_false_iff_ne]
    omega
  all_goals decide

lemma dropWhile_of_forall_false {p : Char → Bool} {cs : List Char}
    (h : ∀ c ∈ cs, p c = false) : cs.dropWhile p = cs := by
  cases cs with
  | nil => rfl
  | cons c cs => simp [h c List.mem_cons_self]

/-- `trim` keeps a text that has no whitespace in it. -/
lemma trim_of_forall_not_whitespace {cs : List Char}
    (h : ∀ c ∈ cs, Rust.isWhitespace c = false) : Rust.trim cs = cs := by
  rw [Rust.trim, dropWhile_of_forall_false h,
    dropWhile_of_forall_false (fun c hc => h c (List.mem_reverse.mp hc)), List.reverse_reverse]

/-! ## `parse_string` -/

namespace Numeric

/-- The text `s` is an optional sign, `-` exactly when `negative`, and then `u`. -/
def SignedText (s : List Char) (negative : Bool) (u : List Char) : Prop :=
  s = '-' :: u ∧ negative = true ∨ s = '+' :: u ∧ negative = false ∨ s = u ∧ negative = false

/-- The value of the number token `u` under its sign: `u` read by `parse_unsigned_token`, and
negated after a `-`. -/
def signedValue (negative : Bool) (u : List Char) : Except String Numeric := do
  let parsed ← parseUnsignedToken (String.ofList u)
  if negative then parsed.negate else pure parsed

lemma signedText_chars {s u : List Char} {negative : Bool} (hs : SignedText s negative u)
    (hvalid : validUnsignedNumberToken u = true) : ∀ c ∈ s, IsNumberChar c := by
  have hu := validUnsignedNumberToken_chars hvalid
  rcases hs with ⟨rfl, -⟩ | ⟨rfl, -⟩ | ⟨rfl, -⟩
  · exact List.forall_mem_cons.mpr ⟨by simp [IsNumberChar], hu⟩
  · exact List.forall_mem_cons.mpr ⟨by simp [IsNumberChar], hu⟩
  · exact hu

/-- `parse_string` of a signed number token is the token's signed value. -/
lemma parseString_of_signedText {value : String} {negative : Bool} {u : List Char}
    (hs : SignedText value.toList negative u) (hvalid : validUnsignedNumberToken u = true) :
    parseString value = signedValue negative u := by
  have hchars := signedText_chars hs hvalid
  obtain ⟨first, rest, rfl, hdigit, -⟩ := (Lexer.validUnsignedNumberToken_iff _).mp hvalid
  have hnonempty : value.toList ≠ [] := by
    rcases hs with ⟨hs, -⟩ | ⟨hs, -⟩ | ⟨hs, -⟩ <;> simp [hs]
  have htrim := trim_of_forall_not_whitespace fun c hc =>
    isWhitespace_of_isNumberChar (hchars c hc)
  unfold parseString
  rw [if_neg (by simpa [String.isEmpty, htrim] using hnonempty)]
  split
  next negative' unsignedText heq =>
    -- the sign the source takes off is the sign of the text
    have hsign : negative' = negative ∧ unsignedText = first :: rest := by
      split at heq <;> cases heq <;> rcases hs with ⟨hs, rfl⟩ | ⟨hs, rfl⟩ | ⟨hs, rfl⟩ <;>
        simp_all
    obtain ⟨rfl, rfl⟩ := hsign
    rw [if_neg (by simp [hvalid])]
    rfl

lemma signedText_of_parseString_eq_ok {value : String} {n : Numeric}
    (h : parseString value = .ok n) :
    ∃ negative u, SignedText value.toList negative u ∧ validUnsignedNumberToken u = true ∧
      signedValue negative u = .ok n := by
  unfold parseString at h
  split_ifs at h
  split at h
  next negative u heq =>
    by_cases hu : (u.isEmpty || !validUnsignedNumberToken u) = true
    · rw [if_pos hu] at h
      cases h
    rw [if_neg hu] at h
    have hvalid : validUnsignedNumberToken u = true := by
      simp only [Bool.or_eq_true, Bool.not_eq_eq_eq_not, Bool.not_true, not_or] at hu
      simpa using hu.2
    refine ⟨negative, u, ?_, hvalid, h⟩
    split at heq <;> cases heq
    · exact .inl ⟨‹_›, rfl⟩
    · exact .inr (.inl ⟨‹_›, rfl⟩)
    · exact .inr (.inr ⟨rfl, rfl⟩)

/-- **What `parse_string` accepts**: a sign and a number token whose signed value can be
read. -/
theorem parseString_eq_ok_iff {value : String} {n : Numeric} :
    parseString value = .ok n ↔
      ∃ negative u, SignedText value.toList negative u ∧ validUnsignedNumberToken u = true ∧
        signedValue negative u = .ok n :=
  ⟨signedText_of_parseString_eq_ok, fun ⟨_, _, hs, hvalid, hvalue⟩ =>
    (parseString_of_signedText hs hvalid).trans hvalue⟩

/-! ## Literals through JSON -/

/-- An integer token that `parse_unsigned_token` reads as `Unsigned` is past `i64::MAX`: `i64`
is tried first. -/
lemma parseUnsignedToken_unsigned {token : String} {v : UInt64}
    (hvalid : validUnsignedNumberToken token.toList = true)
    (h : parseUnsignedToken token = .ok (.unsigned v)) : i64Max < v.toNat := by
  obtain ⟨first, rest, htoken, hdigit, -⟩ := (Lexer.validUnsignedNumberToken_iff _).mp hvalid
  unfold parseUnsignedToken at h
  split_ifs at h
  · split at h
    · cases h
    · next value _ =>
      cases value <;> cases h
  · split at h
    · cases h
    · next _ hsigned =>
      split at h
      · next _ value hunsigned =>
        cases h
        rw [htoken] at hsigned hunsigned
        have hrange := Rust.parseInt_range hunsigned
        rw [Rust.parseInt_of_isDigit_eq_some hdigit hunsigned] at hsigned
        -- the value did not fit `i64`, and it is not negative
        have hout : ¬ (i64Min ≤ value ∧ value ≤ i64Max) := fun hin => by simp [hin] at hsigned
        rw [u64Max_eq] at hrange
        rw [i64Min_eq, i64Max_eq] at hout
        have hfits : value.toNat < 2 ^ 64 := by omega
        rw [UInt64.toNat_ofNat', Nat.mod_eq_of_lt hfits, i64Max_eq]
        omega
      · cases h

/-- A literal that `parse_unsigned_token` reads comes back unchanged through `to_json` and
`from_json`, the trip a literal takes on its way to a unary operator. -/
lemma fromJson_toJson_of_parseUnsignedToken {token : String} {p : Numeric}
    (hvalid : validUnsignedNumberToken token.toList = true)
    (h : parseUnsignedToken token = .ok p) : ∃ j, p.toJson = .ok j ∧ fromJson j = .ok p := by
  cases p with
  | signed v =>
    refine ⟨JsonNumber.ofI64 v, rfl, ?_⟩
    unfold JsonNumber.ofI64
    split_ifs with hneg
    · rfl
    · have hv : ((v.toUInt64.toNat : ℕ) : ℤ) = v.toInt := toInt_toUInt64 (by omega)
      have hmax : v.toInt ≤ i64Max := (Int64.toInt_mem v).2
      simp [fromJson, JsonNumber.asI64, hv, hmax]
  | unsigned v =>
    have hbig := parseUnsignedToken_unsigned hvalid h
    refine ⟨.posInt v, rfl, ?_⟩
    simp [fromJson, JsonNumber.asI64, JsonNumber.asU64, not_le.mpr hbig]
  | decimal v => exact ⟨.float v, rfl, rfl⟩

lemma positive_eq (p : Numeric) : p.positive = .ok p := by
  cases p <;> rfl

lemma signedValue_eq_ok {negative : Bool} {u : List Char} {n : Numeric}
    (h : signedValue negative u = .ok n) :
    ∃ p, parseUnsignedToken (String.ofList u) = .ok p ∧
      (if negative then p.negate else pure p) = .ok n := by
  obtain ⟨p, hp, hn⟩ := Except.bind_eq_ok.mp h
  exact ⟨p, hp, hn⟩

end Numeric

/-! ## Compiling a signed number text -/

/-- A tree that evaluates, in every context, to the number `j` and nothing else, and does so
from any budget with two units of fuel to spare. -/
def EvaluatesToNumber (host : Host) (root : Expr) (j : JsonNumber) : Prop :=
  ∀ context, Ensures (Evaluator.evaluate host context root) (· = .owned (.number j)) ∧
    ∀ limits fuel, Returns (Evaluator.evaluate host context root)
      (Evaluator.Affords limits (2 + fuel))
      fun value budget => value = .owned (.number j) ∧ Evaluator.Affords limits fuel budget

variable (host : Host)

lemma evaluatesToNumber_literal {p : Numeric} {j : JsonNumber} (hj : p.toJson = .ok j) :
    EvaluatesToNumber host (.literal (.number p)) j := fun context =>
  ⟨Evaluator.evaluate_literal_ensures host context hj, fun _ fuel =>
    (Evaluator.evaluate_literal_returns host context hj).consequence
      (fun _ hs => hs.mono (show 1 + (1 + fuel) ≤ 2 + fuel by omega))
      fun _ _ h => ⟨h.1, h.2.mono (by omega)⟩⟩

lemma evaluatesToNumber_unary {operator : UnaryOperator} {p r : Numeric} {j j' : JsonNumber}
    (hoperator : operator ≠ .not) (hj : p.toJson = .ok j) (hp : Numeric.fromJson j = .ok p)
    (hr : (if operator = .plus then p.positive else p.negate) = .ok r) (hj' : r.toJson = .ok j') :
    EvaluatesToNumber host (.unary operator (.literal (.number p))) j' := fun context =>
  ⟨Evaluator.evaluate_unary_ensures host context hoperator hj hp hr hj', fun _ fuel =>
    (Evaluator.evaluate_unary_returns host context hoperator hj hp hr hj').consequence
      (fun _ hs => hs.mono (show 1 + (1 + fuel) ≤ 2 + fuel by omega)) fun _ _ h => h⟩

/-- A signed number text whose value can be read compiles, within the limits, to a tree that
evaluates to that value: the literal, under `+` or `-` when the text has a sign. -/
lemma compileExpression_signedText {limits : CompilationLimits} {s : String} {negative : Bool}
    {u : List Char} {n : Numeric} {j : JsonNumber} (hs : Numeric.SignedText s.toList negative u)
    (hvalid : validUnsignedNumberToken u = true) (hn : Numeric.signedValue negative u = .ok n)
    (hj : n.toJson = .ok j) (hbytes : s.utf8ByteSize ≤ limits.maxSourceBytes)
    (htokens : 3 ≤ limits.maxTokens) (hdepth : 2 ≤ limits.maxAstDepth) :
    ∃ compiled, compileExpression limits s = .ok compiled ∧
      EvaluatesToNumber host compiled.root j := by
  obtain ⟨p, hp, hsigned⟩ := Numeric.signedValue_eq_ok hn
  have hvalid' : validUnsignedNumberToken (String.ofList u).toList = true := by
    rwa [String.toList_ofList]
  obtain ⟨j₀, hj₀, hround⟩ := Numeric.fromJson_toJson_of_parseUnsignedToken hvalid' hp
  rcases hs with ⟨hs, rfl⟩ | ⟨hs, rfl⟩ | ⟨hs, rfl⟩
  · -- `-u`: the literal under unary minus
    have hlex := lex_signed_number hs (by decide) rfl hvalid hbytes htokens
    have hparse := parse_signed_number hdepth (show Parser.unaryOperator .minus = some .minus from rfl) hp
    let root : Expr := .unary .minus (.literal (.number p))
    refine ⟨⟨s, root, References.collect root⟩, ?_, ?_⟩
    · simp only [compileExpression, hlex, hparse, Except.ok_bind]
      rfl
    · exact evaluatesToNumber_unary host (by decide) hj₀ hround (by simpa using hsigned) hj
  · -- `+u`: the literal under unary plus
    have hlex := lex_signed_number hs (by decide) rfl hvalid hbytes htokens
    have hparse := parse_signed_number hdepth (show Parser.unaryOperator .plus = some .plus from rfl) hp
    let root : Expr := .unary .plus (.literal (.number p))
    refine ⟨⟨s, root, References.collect root⟩, ?_, ?_⟩
    · simp only [compileExpression, hlex, hparse, Except.ok_bind]
      rfl
    · refine evaluatesToNumber_unary host (by decide) hj₀ hround ?_ hj
      rw [if_pos rfl, Numeric.positive_eq]
      exact hsigned
  · -- `u`: the literal alone
    have htext : String.ofList u = s := by rw [← hs, String.ofList_toList]
    have hlex : lex limits s = .ok [.number s, .eof] :=
      (lex_eq_number_iff hbytes (by omega)).mpr (hs ▸ hvalid)
    have hparse : parse limits [.number s, .eof] = .ok (.literal (.number p)) :=
      parse_number (by omega) (htext ▸ hp)
    let root : Expr := .literal (.number p)
    refine ⟨⟨s, root, References.collect root⟩, ?_, ?_⟩
    · simp only [compileExpression, hlex, hparse, Except.ok_bind]
      rfl
    · have hpn : p = n := Except.ok.inj hsigned
      exact evaluatesToNumber_literal host (hpn ▸ hj)

/-- What a tree that evaluates to `j` gives as a compiled expression: `j` whenever evaluation
succeeds, and success under limits that afford the fuel and the result. -/
lemma evaluate_of_evaluatesToNumber {expression : CompiledExpression} {j : JsonNumber}
    (h : EvaluatesToNumber host expression.root j) (context : Value)
    (limits : EvaluationLimits) :
    (∀ v, evaluate host expression context limits = .ok v → v = .number j) ∧
      (3 + (j.toText host).utf8ByteSize ≤ limits.fuel → 1 ≤ limits.maxResultDepth →
        1 ≤ limits.maxResultNodes → (j.toText host).utf8ByteSize ≤ limits.maxResultBytes →
        evaluate host expression context limits = .ok (.number j)) := by
  obtain ⟨hensures, hreturns⟩ := h (.value context)
  constructor
  · intro v hv
    simp only [evaluate] at hv
    cases hsession : (EvaluationSession.new context limits).evaluate host expression with
    | error e =>
      rw [hsession] at hv
      cases hv
    | ok result =>
      obtain ⟨value, session'⟩ := result
      rw [hsession] at hv
      cases hv
      rw [EvaluationSession.evaluate] at hsession
      have hcomputation : Ensures (do
          let value ← Evaluator.evaluate host (.value context) expression.root
          Evaluator.finish host value) (· = .number j) :=
        Ensures.bind_eq hensures (Evaluator.finish_owned_ensures host _)
      have hvalue := EvaluationSession.ensures_run hcomputation hsession
      exact hvalue
  · intro hfuel hdepth hnodes hbytes
    have hcomputation := Returns.bind_eq (hreturns limits (1 + ((j.toText host).utf8ByteSize + 0)))
      (Evaluator.finish_number_returns host hdepth hnodes hbytes)
    have hbudget : Evaluator.Affords limits (2 + (1 + ((j.toText host).utf8ByteSize + 0)))
        (EvaluationSession.new context limits).budget :=
      ⟨rfl, by simp only [EvaluationSession.new, Budget.new]; omega⟩
    obtain ⟨v, session', hrun, rfl⟩ := EvaluationSession.run_of_returns hcomputation hbudget
    have hsession : (EvaluationSession.new context limits).evaluate host expression =
        .ok (.number j, session') := hrun
    simp only [evaluate, hsession]
    rfl

/-- `number(s)` on a string returns the number `parse_string` reads, in JSON. -/
lemma number_string_ensures {s : String} {n : Numeric} {j : JsonNumber}
    (hn : Numeric.parseString s = .ok n) (hj : n.toJson = .ok j) :
    Ensures (Functions.number (.owned (.string s))) (· = .owned (.number j)) := by
  unfold Functions.number
  dsimp only [RuntimeValue.asJson]
  simp only [hn, hj, Evaluator.liftExcept_ok, pure_bind]
  exact Ensures.bind_forall fun _ => Ensures.bind_forall fun _ => Ensures.pure rfl

end Ryeos.Expression
