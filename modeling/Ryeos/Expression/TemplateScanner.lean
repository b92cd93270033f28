import Ryeos.Expression.Template

/-!
# The scanner of templates: the language `find_expression_end` accepts

`find_expression_end` steps over an embedded expression with a stack of the closing delimiters
it owes, skipping quoted strings and their backslash escapes.  It is specified here by a grammar
of the text before the closing brace: plain characters, quoted bodies (`QuoteBody`) and groups
closed by their own delimiter (`Balanced`).

* `find_expression_end_closes_at_balanced_brace` — the scanner stops exactly at the first `}`
  after a word of the grammar, delimiters matched and quotes closed, and reports the brace's
  byte index;
* `find_expression_end_never_runs_out_of_stack` — its errors are scan errors, and the error of
  an empty stack is never raised.
-/

namespace Ryeos.Expression

/-! ## The language the scanner accepts

The scanner is specified by a grammar of the text it steps over before the closing brace:
plain characters, quoted strings whose body holds no bare quote and pairs a backslash with the
character after it, and groups that close with their own delimiter.  `scan_balanced` runs the
scanner over a word of the grammar, and `balanced_of_scan` reads the grammar back from any
successful run. -/

namespace Template

/-- The body of a string quoted with `quote`: no bare quote, and a backslash escapes the
character after it. -/
inductive QuoteBody (quote : Char) : List Char → Prop
  | nil : QuoteBody quote []
  | plain {c : Char} {body : List Char} : c ≠ quote → c ≠ '\\' → QuoteBody quote body →
      QuoteBody quote (c :: body)
  | escape {c : Char} {body : List Char} : QuoteBody quote body →
      QuoteBody quote ('\\' :: c :: body)

/-- Text whose quotes are closed and whose brackets are matched, each by its own closer. -/
inductive Balanced : List Char → Prop
  | nil : Balanced []
  | plain {c : Char} {w : List Char} : isQuote c = false → closerOf c = none →
      isCloser c = false → Balanced w → Balanced (c :: w)
  | quoted {q : Char} {body w : List Char} : isQuote q = true → QuoteBody q body → Balanced w →
      Balanced (q :: body ++ q :: w)
  | group {o c : Char} {inner w : List Char} : closerOf o = some c → Balanced inner →
      Balanced w → Balanced (o :: inner ++ c :: w)

lemma isQuote_ne_backslash {q : Char} (hq : isQuote q = true) : q ≠ '\\' := by
  simp only [isQuote, Bool.or_eq_true, decide_eq_true_eq] at hq
  rcases hq with rfl | rfl <;> decide

lemma isCloser_facts {k : Char} (hk : isCloser k = true) :
    isQuote k = false ∧ closerOf k = none := by
  simp only [isCloser, Bool.or_eq_true, decide_eq_true_eq] at hk
  rcases hk with (rfl | rfl) | rfl <;> decide

lemma isCloser_of_closerOf {o c : Char} (h : closerOf o = some c) : isCloser c = true := by
  unfold closerOf at h
  split at h <;> cases h <;> decide

lemma isQuote_of_closerOf {o c : Char} (h : closerOf o = some c) : isQuote o = false := by
  unfold closerOf at h
  split at h <;> cases h <;> decide

/-! ### One step of the scanner -/

variable {c q k : Char} {rest stack ks : List Char} {escaped : Bool} {offset : ℕ}

lemma scan_quote_close (hq : q ≠ '\\') :
    scan (q :: rest) stack (some q) false offset = scan rest stack none false (offset + 1) := by
  simp [scan, hq]

lemma scan_quote_plain (hc : c ≠ '\\') (hcq : c ≠ q) :
    scan (c :: rest) stack (some q) false offset = scan rest stack (some q) false (offset + 1) := by
  simp [scan, hc, hcq]

lemma scan_quote_escape :
    scan ('\\' :: c :: rest) stack (some q) false offset =
      scan rest stack (some q) false (offset + 2) := by
  simp [scan]

lemma scan_open_quote (hq : isQuote c = true) :
    scan (c :: rest) stack none escaped offset = scan rest stack (some c) escaped (offset + 1) := by
  simp [scan, hq]

lemma scan_open (hq : isQuote c = false) (hc : closerOf c = some k) :
    scan (c :: rest) stack none escaped offset =
      scan rest (k :: stack) none escaped (offset + 1) := by
  simp [scan, hq, hc]

lemma scan_plain (hq : isQuote c = false) (hc : closerOf c = none) (hk : isCloser c = false) :
    scan (c :: rest) stack none escaped offset = scan rest stack none escaped (offset + 1) := by
  simp [scan, hq, hc, hk]

lemma scan_close (hk : isCloser k = true) :
    scan (k :: rest) (k :: ks) none escaped offset =
      if ks = [] then .ok offset else scan rest ks none escaped (offset + 1) := by
  obtain ⟨hq, hc⟩ := isCloser_facts hk
  simp [scan, hq, hc, hk]

/-! ### Soundness and completeness -/

/-- A quoted body, its closing quote and the rest: the scanner leaves the string where it
closes. -/
lemma scan_quoteBody {body : List Char} (hq : q ≠ '\\') (h : QuoteBody q body) :
    scan (body ++ q :: rest) stack (some q) false offset =
      scan rest stack none false (offset + body.length + 1) := by
  induction h generalizing offset with
  | nil => simpa using scan_quote_close hq
  | plain hcq hc _ ih =>
    rw [List.cons_append, scan_quote_plain hc hcq, ih]
    simp only [List.length_cons]
    congr 1
    omega
  | escape _ ih =>
    rw [List.cons_append, List.cons_append, scan_quote_escape, ih]
    simp only [List.length_cons]
    congr 1
    omega

/-- A scan inside a string that succeeds reads a quoted body, then goes on past the quote. -/
lemma quoteBody_of_scan (hq : q ≠ '\\') :
    ∀ {cs : List Char} {offset n : ℕ}, scan cs stack (some q) false offset = .ok n →
      ∃ body rest, cs = body ++ q :: rest ∧ QuoteBody q body ∧
        scan rest stack none false (offset + body.length + 1) = .ok n
  | [], _, _, h => by simp [scan] at h
  | c :: cs, offset, n, h => by
    by_cases hc : c = '\\'
    · subst hc
      cases cs with
      | nil => simp [scan] at h
      | cons d cs =>
        rw [scan_quote_escape] at h
        obtain ⟨body, rest, rfl, hbody, hrest⟩ := quoteBody_of_scan hq h
        refine ⟨'\\' :: d :: body, rest, rfl, .escape hbody, ?_⟩
        simpa only [List.length_cons, show offset + 2 + body.length = offset + (body.length + 2)
          by omega] using hrest
    · by_cases hcq : c = q
      · subst hcq
        rw [scan_quote_close hq] at h
        exact ⟨[], cs, rfl, .nil, by simpa using h⟩
      · rw [scan_quote_plain hc hcq] at h
        obtain ⟨body, rest, rfl, hbody, hrest⟩ := quoteBody_of_scan hq h
        refine ⟨c :: body, rest, rfl, .plain hcq hc hbody, ?_⟩
        simpa only [List.length_cons, show offset + 1 + body.length = offset + (body.length + 1)
          by omega] using hrest

/-- **Completeness.**  Over a balanced word and the closer the stack owes next, the scanner
pops that closer: it stops there if the stack is then empty, and goes on otherwise. -/
lemma scan_balanced {w : List Char} (h : Balanced w) :
    ∀ {k : Char} {ks rest : List Char} {offset : ℕ}, isCloser k = true →
      scan (w ++ k :: rest) (k :: ks) none false offset =
        if ks = [] then .ok (offset + w.length)
        else scan rest ks none false (offset + w.length + 1) := by
  induction h with
  | nil =>
    intro k ks rest offset hk
    simpa using scan_close hk
  | plain hq hc hk' _ ih =>
    intro k ks rest offset hk
    rw [List.cons_append, scan_plain hq hc hk', ih hk]
    simp only [List.length_cons]
    split <;> congr 1 <;> omega
  | @quoted q body w hq hbody _ ih =>
    intro k ks rest offset hk
    simp only [List.cons_append, List.append_assoc]
    rw [scan_open_quote hq, scan_quoteBody (isQuote_ne_backslash hq) hbody, ih hk]
    simp only [List.length_cons, List.length_append]
    split <;> congr 1 <;> omega
  | @group o c inner w hc _ _ ihInner ihRest =>
    intro k ks rest offset hk
    simp only [List.cons_append, List.append_assoc]
    rw [scan_open (isQuote_of_closerOf hc) hc, ihInner (isCloser_of_closerOf hc), if_neg (List.cons_ne_nil k ks),
      ihRest hk]
    simp only [List.length_cons, List.length_append]
    split <;> congr 1 <;> omega

/-- **Soundness.**  A successful scan with `k` owed next reads a balanced word and that closer,
then stops or goes on as `scan_balanced` says. -/
lemma balanced_of_scan :
    ∀ {cs : List Char} {k : Char} {ks : List Char} {offset n : ℕ},
      scan cs (k :: ks) none false offset = .ok n →
      ∃ w rest, cs = w ++ k :: rest ∧ Balanced w ∧
        (if ks = [] then .ok (offset + w.length)
          else scan rest ks none false (offset + w.length + 1)) = .ok n
  | [], _, _, _, _, h => by simp [scan] at h
  | c :: cs, k, ks, offset, n, h => by
    by_cases hq : isQuote c = true
    · -- a string: its body, then the rest of the word
      rw [scan_open_quote hq] at h
      obtain ⟨body, rest, rfl, hbody, hrest⟩ := quoteBody_of_scan (isQuote_ne_backslash hq) h
      have : rest.length < (c :: (body ++ c :: rest)).length := by simp; omega
      obtain ⟨w, rest', rfl, hw, hstop⟩ := balanced_of_scan hrest
      refine ⟨c :: body ++ c :: w, rest', by simp, .quoted hq hbody hw, ?_⟩
      simp only [List.length_cons, List.length_append] at hstop ⊢
      convert hstop using 3 <;> omega
    · rw [Bool.not_eq_true] at hq
      cases hc : closerOf c with
      | some closer =>
        -- a group: its inner word up to its closer, then the rest of the word
        rw [scan_open hq hc] at h
        obtain ⟨inner, rest, rfl, hinner, hrest⟩ := balanced_of_scan h
        rw [if_neg (List.cons_ne_nil k ks)] at hrest
        have : rest.length < (c :: (inner ++ closer :: rest)).length := by simp; omega
        obtain ⟨w, rest', rfl, hw, hstop⟩ := balanced_of_scan hrest
        refine ⟨c :: inner ++ closer :: w, rest', by simp, .group hc hinner hw, ?_⟩
        simp only [List.length_cons, List.length_append] at hstop ⊢
        convert hstop using 3 <;> omega
      | none =>
        by_cases hk : isCloser c = true
        · -- a closer: it must be the one owed
          by_cases hck : c = k
          · subst hck
            rw [scan_close hk] at h
            exact ⟨[], cs, rfl, .nil, by simpa using h⟩
          · simp [scan, hq, hc, hk, hck] at h
        · rw [Bool.not_eq_true] at hk
          rw [scan_plain hq hc hk] at h
          obtain ⟨w, rest, rfl, hw, hstop⟩ := balanced_of_scan h
          refine ⟨c :: w, rest, rfl, .plain hq hc hk hw, ?_⟩
          simp only [List.length_cons] at hstop ⊢
          convert hstop using 3 <;> omega
termination_by cs => cs.length


lemma scanExpression_sound {cs : List Char} {n : ℕ} (h : scanExpression cs = .ok n) :
    ∃ w rest, cs = w ++ '}' :: rest ∧ Balanced w ∧ n = w.length := by
  obtain ⟨w, rest, hcs, hw, hstop⟩ := balanced_of_scan h
  rw [if_pos rfl, Except.ok.injEq, Nat.zero_add] at hstop
  exact ⟨w, rest, hcs, hw, hstop.symm⟩

lemma scanExpression_complete {w : List Char} (hw : Balanced w) (rest : List Char) :
    scanExpression (w ++ '}' :: rest) = .ok w.length := by
  have hscan := @scan_balanced w hw '}' [] rest 0 rfl
  rw [if_pos rfl, Nat.zero_add] at hscan
  exact hscan

/-- `find_expression_end` stops exactly at the `}` after a balanced word: it succeeds on a text
exactly when the text is a balanced word, a `}` and anything after it, and it returns the byte
index of that brace, the start plus the UTF-8 width of the word. -/
theorem find_expression_end_closes_at_balanced_brace (cs : List Char) (start n : ℕ) :
    findExpressionEnd cs start = .ok n ↔
      ∃ w rest, cs = w ++ '}' :: rest ∧ Balanced w ∧
        n = start + (String.ofList w).utf8ByteSize := by
  unfold findExpressionEnd
  constructor
  · intro h
    cases hscan : scanExpression cs with
    | error e => simp [hscan, Except.map] at h
    | ok m =>
      obtain ⟨w, rest, rfl, hw, rfl⟩ := scanExpression_sound hscan
      simp only [hscan, Except.map, Except.ok.injEq] at h
      refine ⟨w, rest, rfl, hw, ?_⟩
      rw [← h, List.take_left]
  · rintro ⟨w, rest, rfl, hw, rfl⟩
    rw [scanExpression_complete hw rest]
    simp [Except.map]

/-! ### Errors -/

lemma mismatched_ne_unexpected (c expected : Char) :
    s!"mismatched closing delimiter `{c}`; expected `{expected}`" ≠
      "unexpected closing delimiter" := by
  intro h
  -- the two messages differ in their first character
  have hhead := congrArg (fun message : String => message.toList.head?) h
  simp at hhead
  rcases hhead with hhead | ⟨hhead, -⟩ <;> exact absurd hhead (by decide)

/-- The scanner fails with scan errors only, and while the stack holds a closer it never fails
for want of one. -/
lemma scan_error_of_ne_nil {cs stack : List Char} {quote : Option Char} {escaped : Bool}
    {offset : ℕ} {e : ExpressionError} :
    stack ≠ [] → scan cs stack quote escaped offset = .error e →
      ∃ message, e = scanError message ∧ message ≠ "unexpected closing delimiter" := by
  fun_induction scan cs stack quote escaped offset with
  | case1 => rintro - ⟨⟩; exact ⟨_, rfl, by split <;> decide⟩
  | case8 => intro hstack; exact absurd rfl hstack
  | case9 c _ _ _ _ _ _ expected => rintro - ⟨⟩; exact ⟨_, rfl, mismatched_ne_unexpected c expected⟩
  | case10 => rintro - ⟨⟩
  -- an opener pushes its closer; a closer that leaves some owed pops it
  | case7 => rename_i ih; exact fun _ => ih (List.cons_ne_nil _ _)
  | case11 => rename_i hstack ih; exact fun _ => ih hstack
  -- every other step keeps the stack
  | _ => assumption

/-- Every failure of `find_expression_end` is a scan error with no correction, and the error of
an empty stack, "unexpected closing delimiter", is never raised: the stack starts with the
closing `}` and the scanner stops when it pops the last closer. -/
theorem find_expression_end_never_runs_out_of_stack {cs : List Char} {start : ℕ}
    {e : ExpressionError} (h : findExpressionEnd cs start = .error e) :
    e.phase = .scan ∧ e.correction = none ∧ e.message ≠ "unexpected closing delimiter" := by
  have hscan : scanExpression cs = .error e := by
    unfold findExpressionEnd at h
    cases hs : scanExpression cs <;> simp_all [Except.map]
  obtain ⟨message, rfl, hmessage⟩ := scan_error_of_ne_nil (List.cons_ne_nil '}' []) hscan
  exact ⟨rfl, rfl, hmessage⟩

theorem mismatched_bracket_is_a_scan_error :
    findExpressionEnd "1]".toList 2 =
        .error (scanError "mismatched closing delimiter `]`; expected `\x7d`") ∧
      (scanError "mismatched closing delimiter `]`; expected `\x7d`").phase = .scan ∧
      (scanError "mismatched closing delimiter `]`; expected `\x7d`").correction = none ∧
      (scanError "mismatched closing delimiter `]`; expected `\x7d`").message ≠
        "unexpected closing delimiter" :=
  have h : findExpressionEnd "1]".toList 2 =
      .error (scanError "mismatched closing delimiter `]`; expected `\x7d`") := by decide
  ⟨h, find_expression_end_never_runs_out_of_stack h⟩

end Template

end Ryeos.Expression
