import Ryeos.Expression.TemplateScanner

/-!
# Templates written back, and the invariants of the compiler

`writeParts` writes a template's parts back as template text: a literal with each `${` escaped
as `$${`, an expression as its source in `${...}`.  The compile loop is read through one
induction principle over the four things its step can do, and its invariants are instances.

* `compiled_template_parts_are_well_formed` — a compiled template's parts never hold two
  literals in a row or an empty literal (but for the empty source), and count at most the
  expressions the limits allow;
* `compiled_template_spells_its_source` — the parts, written back, give the source exactly, and
  every expression part is the compiled form of its own balanced, non-blank source;
* `escaped_literal_compiles_and_renders_to_itself` — a text escaped with `$${` is one literal
  part, and renders to the text.
-/

namespace Ryeos.Expression

namespace Template

/-! ## Writing a template back -/

/-- Literal text as a template writes it: each `${` as `$${`. -/
def escapeLiteral : List Char → List Char
  | '$' :: '{' :: rest => '$' :: '$' :: '{' :: escapeLiteral rest
  | c :: rest => c :: escapeLiteral rest
  | [] => []

/-- A part as template text. -/
def writePart : TemplatePart → List Char
  | .literal text => escapeLiteral text.toList
  | .expression expression => '$' :: '{' :: expression.source.toList ++ ['}']

/-- Parts as template text, one after another. -/
def writeParts (parts : List TemplatePart) : List Char := parts.flatMap writePart

/-- No two literal parts in a row, and no empty literal. -/
def WellFormedParts (parts : List TemplatePart) : Prop :=
  parts.IsChain (fun a b => a.isLiteral = false ∨ b.isLiteral = false) ∧
    ∀ text, TemplatePart.literal text ∈ parts → text ≠ ""

/-- What `compile` guarantees of an expression part: it is the compiled form of its source, a
balanced text that is not blank. -/
def ExpressionPart (limits : CompilationLimits) (expression : CompiledExpression) : Prop :=
  compileExpression limits expression.source = .ok expression ∧
    Balanced expression.source.toList ∧ Rust.trim expression.source.toList ≠ []

/-! ### Escaping -/

lemma escapeLiteral_cons {c : Char} {rest : List Char} (h : ¬ (c = '$' ∧ rest.head? = some '{')) :
    escapeLiteral (c :: rest) = c :: escapeLiteral rest := by
  rw [escapeLiteral.eq_2]
  rintro rest' rfl rfl
  simp at h

/-- Escaping is written piece by piece, unless the join makes a new `${`. -/
lemma escapeLiteral_append {l m : List Char} :
    ¬ (l.getLast? = some '$' ∧ m.head? = some '{') →
      escapeLiteral (l ++ m) = escapeLiteral l ++ escapeLiteral m := by
  fun_induction escapeLiteral l with
  | case1 rest ih =>
    intro h
    have hrest : ¬ (rest.getLast? = some '$' ∧ m.head? = some '{') := by
      cases rest with
      | nil => simp
      | cons d rest => simpa [List.getLast?_cons_cons] using h
    simp only [List.cons_append, escapeLiteral, ih hrest]
  | case2 c rest hnot ih =>
    intro h
    have hrest : ¬ (rest.getLast? = some '$' ∧ m.head? = some '{') := by
      cases rest with
      | nil => simp
      | cons d rest => simpa [List.getLast?_cons_cons] using h
    -- the join makes no `${`: `l` does not start with one, and `m` does not continue a `$`
    have hjoin : ¬ (c = '$' ∧ (rest ++ m).head? = some '{') := by
      cases rest with
      | nil => simpa using h
      | cons d rest =>
        rintro ⟨rfl, hd⟩
        exact hnot rest rfl (by simpa using hd)
    rw [List.cons_append, escapeLiteral_cons hjoin, ih hrest, List.cons_append]
  | case3 => intro _; rfl

/-! ### The steps of the compile loop -/

lemma toList_dollar_brace : "$\x7b".toList = ['$', '{'] := by decide

lemma toList_escaped_dollar_brace : "$$\x7b".toList = ['$', '$', '{'] := by decide

lemma isPrefixOf_dollar_brace {cs : List Char} :
    "$\x7b".toList.isPrefixOf cs = true ↔ ∃ rest, cs = '$' :: '{' :: rest := by
  rw [toList_dollar_brace]
  match cs with
  | [] => simp [List.isPrefixOf]
  | [c] => simp [List.isPrefixOf]
  | c :: d :: rest =>
    simp only [List.isPrefixOf, Bool.and_eq_true, beq_iff_eq, List.cons.injEq, exists_and_left,
      exists_eq', and_true]
    constructor <;> rintro ⟨h₁, h₂⟩ <;> exact ⟨h₁.symm, h₂.symm⟩

lemma isPrefixOf_escaped_dollar_brace {cs : List Char} :
    "$$\x7b".toList.isPrefixOf cs = true ↔ ∃ rest, cs = '$' :: '$' :: '{' :: rest := by
  rw [toList_escaped_dollar_brace]
  match cs with
  | [] | [_] | [_, _] => simp [List.isPrefixOf]
  | c :: d :: e :: rest =>
    simp only [List.isPrefixOf, Bool.and_eq_true, beq_iff_eq, List.cons.injEq, exists_and_left,
      exists_eq', and_true]
    constructor <;> rintro ⟨h₁, h₂, h₃⟩ <;> exact ⟨h₁.symm, h₂.symm, h₃.symm⟩

lemma pushLiteral_filter (parts : List TemplatePart) (literal : List Char) :
    (pushLiteral parts literal).filter (fun part => !part.isLiteral) =
      parts.filter (fun part => !part.isLiteral) := by
  unfold pushLiteral
  split <;> simp [TemplatePart.isLiteral]

lemma writeParts_pushLiteral (parts : List TemplatePart) (literal : List Char) :
    writeParts (pushLiteral parts literal) = writeParts parts ++ escapeLiteral literal := by
  unfold pushLiteral
  split
  · rename_i hempty
    rw [List.isEmpty_iff.mp hempty]
    simp [escapeLiteral]
  · simp [writeParts, writePart]

lemma compileExpression_source {limits : CompilationLimits} {source : String}
    {expression : CompiledExpression} (h : compileExpression limits source = .ok expression) :
    expression.source = source := by
  simp only [compileExpression, bind, Except.bind] at h
  split at h
  · cases h
  · split at h
    · cases h
    · split at h
      · cases h
      · cases h
        rfl

section Induction

variable (limits : CompilationLimits)
  (P : List Char → List TemplatePart → List Char → ℕ → Prop) (Q : List TemplatePart → Prop)

/-- **Induction over the compile loop.**  A property of the loop's state that each of its four
steps keeps, and that gives `Q` at the end of the source, gives `Q` of the parts of every
successful run: the end, a `$${` escape, an embedded expression (balanced, not blank, compiled,
within the expression limit), and a character of literal text (which is not the start of `${`). -/
lemma compileLoop_induction
    (hend : ∀ parts literal n, P [] parts literal n → Q (pushLiteral parts literal))
    (hescaped : ∀ rest parts literal n, P ('$' :: '$' :: '{' :: rest) parts literal n →
      P rest parts (literal ++ ['$', '{']) n)
    (hexpression : ∀ w rest expression parts literal n, Balanced w → Rust.trim w ≠ [] →
      compileExpression limits (String.ofList w) = .ok expression →
      n + 1 ≤ limits.maxExpressionsPerTemplate →
      P ('$' :: '{' :: (w ++ '}' :: rest)) parts literal n →
      P rest (pushLiteral parts literal ++ [.expression expression]) [] (n + 1))
    (hplain : ∀ c rest parts literal n, (c = '$' → rest.head? ≠ some '{') →
      P (c :: rest) parts literal n → P rest parts (literal ++ [c]) n)
    {cs : List Char} {parts result : List TemplatePart} {literal : List Char} {n : ℕ} :
    P cs parts literal n → compileLoop limits cs parts literal n = .ok result → Q result := by
  fun_induction compileLoop limits cs parts literal n with
  | case1 parts literal n =>
    rintro hP ⟨⟩
    exact hend parts literal n hP
  | case3 _ _ _ c rest _ hescape ih =>
    obtain ⟨rest, hcs⟩ := isPrefixOf_escaped_dollar_brace.mp hescape
    obtain ⟨rfl, rfl⟩ := List.cons.inj hcs
    intro hP h
    rw [toList_dollar_brace] at ih h
    exact ih (hescaped rest _ _ _ hP) h
  | case8 _ literal _ c rest _ _ hdollar _ _ hlimit close hclose _ source hblank expression hcompile
      ih =>
    obtain ⟨rest, hcs⟩ := isPrefixOf_dollar_brace.mp hdollar
    obtain ⟨rfl, rfl⟩ := List.cons.inj hcs
    -- the scanner closes the expression at the `}` after a balanced word
    obtain ⟨w, after, rfl, hw, rfl⟩ := scanExpression_sound hclose
    have htake : (w ++ '}' :: after).take w.length = w := by simp
    have hdrop : (w ++ '}' :: after).drop (w.length + 1) = after := by simp
    have hsource : source.toList = w := by simp only [source, List.drop_succ_cons,
      List.drop_zero, htake, String.toList_ofList]
    intro hP h
    refine ih ?_ h
    rw [List.drop_succ_cons, List.drop_succ_cons, List.drop_zero, hdrop]
    refine hexpression w after expression _ literal _ hw ?_ ?_ (by omega) hP
    · simpa [hsource, List.isEmpty_iff] using hblank
    · rwa [← hsource, String.ofList_toList]
  | case9 _ _ _ c rest _ _ hdollar ih =>
    -- a `$` of literal text is not followed by `{`, or it would have begun an expression
    have hboundary : c = '$' → rest.head? ≠ some '{' := by
      cases rest with
      | nil => simp
      | cons d rest =>
        rintro rfl hd
        obtain rfl : d = '{' := by simpa using hd
        exact hdollar (isPrefixOf_dollar_brace.mpr ⟨rest, rfl⟩)
    intro hP h
    exact ih (hplain c rest _ _ _ hboundary hP) h
  | _ => rintro - ⟨⟩

end Induction

/-! ### The invariants of the compile loop -/

lemma WellFormedParts.pushLiteral {parts : List TemplatePart} (h : WellFormedParts parts)
    (hlast : ∀ part ∈ parts.getLast?, part.isLiteral = false) (literal : List Char) :
    WellFormedParts (pushLiteral parts literal) := by
  unfold Template.pushLiteral
  split
  · exact h
  · rename_i hliteral
    refine ⟨List.IsChain.append h.1 (List.isChain_singleton _) ?_, ?_⟩
    · intro a ha b hb
      exact .inl (hlast a ha)
    · intro text htext
      rcases List.mem_append.mp htext with htext | htext
      · exact h.2 text htext
      · obtain rfl := (TemplatePart.literal.injEq _ _).mp (List.mem_singleton.mp htext)
        simpa [List.isEmpty_iff] using hliteral

lemma WellFormedParts.append_expression {parts : List TemplatePart} (h : WellFormedParts parts)
    (expression : CompiledExpression) : WellFormedParts (parts ++ [.expression expression]) := by
  refine ⟨List.IsChain.append h.1 (List.isChain_singleton _) ?_, ?_⟩
  · intro a _ b hb
    obtain rfl := Option.mem_some_iff.mp hb
    exact .inr rfl
  · intro text htext
    rcases List.mem_append.mp htext with htext | htext
    · exact h.2 text htext
    · simp at htext

variable {limits : CompilationLimits} {cs : List Char} {parts result : List TemplatePart}
  {literal : List Char} {n : ℕ}

/-- The parts the loop returns, written back, are what it read: the parts before it, the literal
it holds and the rest of the source. -/
lemma compileLoop_spells {target : List Char}
    (hboundary : literal.getLast? = some '$' → cs.head? ≠ some '{')
    (htarget : writeParts parts ++ escapeLiteral literal ++ cs = target)
    (h : compileLoop limits cs parts literal n = .ok result) : writeParts result = target := by
  refine compileLoop_induction limits
    (fun cs parts literal _ => (literal.getLast? = some '$' → cs.head? ≠ some '{') ∧
      writeParts parts ++ escapeLiteral literal ++ cs = target)
    (fun result => writeParts result = target) ?finish ?escape ?embedded ?text
    ⟨hboundary, htarget⟩ h
  case finish =>
    rintro parts literal _ ⟨-, htext⟩
    rw [writeParts_pushLiteral, ← htext, List.append_nil]
  case escape =>
    rintro rest parts literal _ ⟨-, htext⟩
    refine ⟨by simp, ?_⟩
    rw [← htext, escapeLiteral_append (by simp)]
    simp [escapeLiteral]
  case embedded =>
    rintro w rest expression parts literal _ - - hcompile - ⟨-, htext⟩
    refine ⟨by simp, ?_⟩
    rw [← htext, writeParts, List.flatMap_append, ← writeParts, writeParts_pushLiteral]
    simp [writePart, escapeLiteral, compileExpression_source hcompile]
  case text =>
    rintro c rest parts literal _ hnext ⟨hprev, htext⟩
    refine ⟨fun hlast => hnext (by simpa using hlast), ?_⟩
    -- the character joins the literal without making a `${` with the `$` before it
    rw [← htext, escapeLiteral_append (fun hjoin => hprev hjoin.1 (by simpa using hjoin.2)),
      escapeLiteral_cons (by simp)]
    simp [escapeLiteral]

/-- The parts the loop returns never hold two literals in a row or an empty literal, and count
the expressions the loop met, within the limit. -/
lemma compileLoop_shape (hparts : WellFormedParts parts)
    (hlast : ∀ part ∈ parts.getLast?, part.isLiteral = false)
    (hcount : (parts.filter fun part => !part.isLiteral).length = n)
    (hn : n ≤ limits.maxExpressionsPerTemplate)
    (h : compileLoop limits cs parts literal n = .ok result) :
    WellFormedParts result ∧
      (result.filter fun part => !part.isLiteral).length ≤ limits.maxExpressionsPerTemplate := by
  refine compileLoop_induction limits
    (fun _ parts _ n => WellFormedParts parts ∧ (∀ part ∈ parts.getLast?, part.isLiteral = false) ∧
      (parts.filter fun part => !part.isLiteral).length = n ∧ n ≤ limits.maxExpressionsPerTemplate)
    (fun result => WellFormedParts result ∧
      (result.filter fun part => !part.isLiteral).length ≤ limits.maxExpressionsPerTemplate)
    ?finish ?escape ?embedded ?text ⟨hparts, hlast, hcount, hn⟩ h
  case finish =>
    rintro parts literal n ⟨hparts, hlast, hcount, hn⟩
    exact ⟨hparts.pushLiteral hlast literal, by rw [pushLiteral_filter]; omega⟩
  case escape => exact fun _ _ _ _ hP => hP
  case embedded =>
    rintro w rest expression parts literal n - - - hn' ⟨hparts, hlast, hcount, -⟩
    refine ⟨(hparts.pushLiteral hlast literal).append_expression expression,
      by simp [TemplatePart.isLiteral], ?_, hn'⟩
    rw [List.filter_append, pushLiteral_filter, List.length_append, hcount]
    rfl
  case text => exact fun _ _ _ _ _ _ hP => hP

/-- Every expression part the loop adds is the compiled form of its source, a balanced text
that is not blank. -/
lemma compileLoop_expressions
    (hparts : ∀ expression, TemplatePart.expression expression ∈ parts →
      ExpressionPart limits expression)
    (h : compileLoop limits cs parts literal n = .ok result) :
    ∀ expression, TemplatePart.expression expression ∈ result →
      ExpressionPart limits expression := by
  refine compileLoop_induction limits
    (fun _ parts _ _ => ∀ expression, TemplatePart.expression expression ∈ parts →
      ExpressionPart limits expression)
    (fun result => ∀ expression, TemplatePart.expression expression ∈ result →
      ExpressionPart limits expression)
    ?finish ?escape ?embedded ?text hparts h
  case finish =>
    intro parts literal _ hP expression hmem
    unfold pushLiteral at hmem
    split at hmem
    · exact hP expression hmem
    · exact hP expression (by simpa using hmem)
  case escape => exact fun _ _ _ _ hP => hP
  case embedded =>
    intro w rest expression parts literal _ hw hblank hcompile _ hP expression' hmem
    rcases List.mem_append.mp hmem with hmem | hmem
    · unfold pushLiteral at hmem
      split at hmem
      · exact hP expression' hmem
      · exact hP expression' (by simpa using hmem)
    · obtain rfl : expression' = expression := by simpa using hmem
      have hsource := compileExpression_source hcompile
      refine ⟨by rwa [hsource], ?_, ?_⟩ <;> rw [hsource, String.toList_ofList] <;> assumption
  case text => exact fun _ _ _ _ _ _ hP => hP

/-! ### Forward steps of the compile loop -/

lemma toList_input : "\x7binput:".toList = ['{', 'i', 'n', 'p', 'u', 't', ':'] := by decide

lemma isPrefixOf_input_dollar {rest : List Char} :
    "\x7binput:".toList.isPrefixOf ('$' :: rest) = false := by
  simp [toList_input, List.isPrefixOf]

lemma compileLoop_nil : compileLoop limits [] parts literal n = .ok (pushLiteral parts literal) := by
  rw [compileLoop]

lemma compileLoop_escaped {rest : List Char} :
    compileLoop limits ('$' :: '$' :: '{' :: rest) parts literal n =
      compileLoop limits rest parts (literal ++ ['$', '{']) n := by
  rw [compileLoop, isPrefixOf_input_dollar,
    if_pos (isPrefixOf_escaped_dollar_brace.mpr ⟨rest, rfl⟩), toList_dollar_brace]
  rfl

lemma compileLoop_plain {c : Char} {rest : List Char}
    (hinput : "\x7binput:".toList.isPrefixOf (c :: rest) = false)
    (hescape : "$$\x7b".toList.isPrefixOf (c :: rest) = false)
    (hdollar : "$\x7b".toList.isPrefixOf (c :: rest) = false) :
    compileLoop limits (c :: rest) parts literal n =
      compileLoop limits rest parts (literal ++ [c]) n := by
  rw [compileLoop]
  simp only [hinput, hescape, hdollar, Bool.false_eq_true, if_false]

/-! ### Escaped text through the compile loop -/

@[simp] lemma head?_escapeLiteral (l : List Char) : (escapeLiteral l).head? = l.head? := by
  fun_induction escapeLiteral l <;> rfl

/-- Escaped text never begins with a bare `${`. -/
lemma escapeLiteral_ne_dollar_brace (l r : List Char) : escapeLiteral l ≠ '$' :: '{' :: r := by
  fun_induction escapeLiteral l with
  | case1 => simp
  | case2 c rest hnot _ =>
    intro h
    obtain ⟨rfl, hrest⟩ := List.cons.inj h
    have hhead := head?_escapeLiteral rest
    rw [hrest] at hhead
    cases rest with
    | nil => simp at hhead
    | cons d rest =>
      obtain rfl : d = '{' := by simpa using hhead.symm
      exact hnot rest rfl rfl
  | case3 => simp

/-- Escaping adds only `$`, so a pattern without one is a prefix of the escaped text exactly
when it is a prefix of the text. -/
lemma isPrefixOf_escapeLiteral {p : List Char} (hp : '$' ∉ p) :
    ∀ l, p.isPrefixOf (escapeLiteral l) = p.isPrefixOf l := by
  induction p with
  | nil => simp [List.isPrefixOf]
  | cons a p ih =>
    have ha : a ≠ '$' := fun h => hp (h ▸ List.mem_cons_self)
    intro l
    match l with
    | [] => rfl
    | c :: rest =>
      by_cases hescape : c = '$' ∧ rest.head? = some '{'
      · obtain ⟨rfl, hrest⟩ := hescape
        cases rest with
        | nil => simp at hrest
        | cons d rest =>
          obtain rfl : d = '{' := by simpa using hrest
          simp [escapeLiteral, List.isPrefixOf, beq_eq_false_iff_ne.mpr ha]
      · rw [escapeLiteral_cons hescape]
        simp only [List.isPrefixOf, ih (fun h => hp (List.mem_cons_of_mem a h))]

/-- A text with no `{input:` in it, escaped, is read by the loop as one literal. -/
lemma compileLoop_escapeLiteral {text : List Char} (hinput : ¬ "\x7binput:".toList <:+: text) :
    compileLoop limits (escapeLiteral text) parts literal n =
      .ok (pushLiteral parts (literal ++ text)) := by
  fun_induction escapeLiteral text generalizing literal with
  | case1 rest ih =>
    -- a `${` of the text, written `$${`
    have hrest : ¬ "\x7binput:".toList <:+: rest :=
      fun h => hinput (h.trans ((List.infix_cons (List.infix_cons (List.infix_refl rest)))))
    rw [compileLoop_escaped, ih hrest, List.append_assoc]
    rfl
  | case2 c rest hnot ih =>
    have hrest : ¬ "\x7binput:".toList <:+: rest :=
      fun h => hinput (h.trans (List.infix_cons (List.infix_refl rest)))
    have hwritten : c :: escapeLiteral rest = escapeLiteral (c :: rest) :=
      (escapeLiteral.eq_2 c rest hnot).symm
    have hinput' : "\x7binput:".toList.isPrefixOf (c :: escapeLiteral rest) = false := by
      rw [hwritten, isPrefixOf_escapeLiteral (by decide), Bool.eq_false_iff]
      exact fun h => hinput (List.isPrefixOf_iff_prefix.mp h).isInfix
    have hescape : "$$\x7b".toList.isPrefixOf (c :: escapeLiteral rest) = false := by
      rw [Bool.eq_false_iff]
      intro h
      obtain ⟨r, hr⟩ := isPrefixOf_escaped_dollar_brace.mp h
      exact escapeLiteral_ne_dollar_brace rest r (List.cons.inj hr).2
    have hdollar : "$\x7b".toList.isPrefixOf (c :: escapeLiteral rest) = false := by
      rw [Bool.eq_false_iff]
      intro h
      obtain ⟨r, hr⟩ := isPrefixOf_dollar_brace.mp h
      obtain ⟨rfl, hrest⟩ := List.cons.inj hr
      have hhead := head?_escapeLiteral rest
      rw [hrest] at hhead
      cases rest with
      | nil => simp at hhead
      | cons d rest =>
        obtain rfl : d = '{' := by simpa using hhead.symm
        exact hnot rest rfl rfl
    rw [compileLoop_plain hinput' hescape hdollar, ih hrest, List.append_assoc]
    rfl
  | case3 => rw [compileLoop_nil, List.append_nil]

/-! ### Compiled templates -/

/-- A successful compile read a source within the limit with one run of the loop; no parts is
one empty literal. -/
lemma compile_eq_ok {source : String} {template : CompiledTemplate}
    (h : compile limits source = .ok template) :
    source.utf8ByteSize ≤ limits.maxTemplateBytes ∧
      ∃ parts, compileLoop limits source.toList [] [] 0 = .ok parts ∧
        template.parts = if parts.isEmpty then [.literal ""] else parts := by
  unfold compile at h
  split at h
  · cases h
  · rename_i hsize
    cases hloop : compileLoop limits source.toList [] [] 0 with
    | error e => rw [hloop] at h; cases h
    | ok parts =>
      rw [hloop] at h
      cases h
      exact ⟨by omega, parts, rfl, rfl⟩

lemma compile_escapeLiteral {text : List Char} (hinput : ¬ "\x7binput:".toList <:+: text)
    (hsize : (String.ofList (escapeLiteral text)).utf8ByteSize ≤ limits.maxTemplateBytes) :
    ∃ template, compile limits (String.ofList (escapeLiteral text)) = .ok template ∧
      template.parts = [.literal (String.ofList text)] ∧ template.wholeExpression = false := by
  have hloop := @compileLoop_escapeLiteral limits [] [] 0 text hinput
  rw [List.nil_append] at hloop
  -- the parts are one literal, or none for the empty text: one empty literal either way
  have hparts : (if (pushLiteral [] text).isEmpty then [.literal ""] else pushLiteral [] text) =
      [TemplatePart.literal (String.ofList text)] := by
    cases text with
    | nil => rfl
    | cons c text => rfl
  unfold compile
  rw [if_neg (by omega), String.toList_ofList, hloop]
  exact ⟨_, rfl, hparts, by simp only [hparts]; rfl⟩

/-- The parts of a compiled template never hold two literals in a row or an empty literal, but
for the one empty literal of the empty source, and they hold at most as many expressions as the
limits allow. -/
theorem compiled_template_parts_are_well_formed {source : String} {template : CompiledTemplate}
    (h : compile limits source = .ok template) :
    (template.parts.filter fun part => !part.isLiteral).length ≤
        limits.maxExpressionsPerTemplate ∧
      (source = "" ∧ template.parts = [.literal ""] ∨
        template.parts ≠ [] ∧ WellFormedParts template.parts) := by
  obtain ⟨-, parts, hloop, hparts⟩ := compile_eq_ok h
  obtain ⟨hwf, hcount⟩ := compileLoop_shape ⟨.nil, by simp⟩ (by simp) rfl (Nat.zero_le _) hloop
  rw [hparts]
  cases parts with
  | nil =>
    -- a run that returns no parts read nothing
    have hspell := compileLoop_spells (by simp)
        (show writeParts [] ++ escapeLiteral [] ++ source.toList = source.toList by
          simp [writeParts, escapeLiteral]) hloop
    refine ⟨by simp [TemplatePart.isLiteral], .inl ⟨?_, rfl⟩⟩
    rw [← String.toList_inj, ← hspell]
    rfl
  | cons part parts => exact ⟨hcount, .inr ⟨List.cons_ne_nil _ _, hwf⟩⟩

theorem compiled_template_parts_are_well_formed_on_escape :
    (∃ template, compile .default (String.ofList (escapeLiteral "a$\x7bb".toList)) = .ok template ∧
      (template.parts.filter fun part => !part.isLiteral).length ≤
          CompilationLimits.default.maxExpressionsPerTemplate ∧
        (String.ofList (escapeLiteral "a$\x7bb".toList) = "" ∧ template.parts = [.literal ""] ∨
          template.parts ≠ [] ∧ WellFormedParts template.parts)) := by
  obtain ⟨template, h, -⟩ :=
    @compile_escapeLiteral CompilationLimits.default "a$\x7bb".toList (by decide) (by decide)
  exact ⟨template, h, compiled_template_parts_are_well_formed h⟩

/-- A compiled template spells its source: its parts written back, literals with `${` escaped
as `$${` and expressions in `${...}`, are the source, character for character.  Every
expression part is the compiled form of its own source, which is a balanced text and not
blank. -/
theorem compiled_template_spells_its_source {source : String} {template : CompiledTemplate}
    (h : compile limits source = .ok template) :
    writeParts template.parts = source.toList ∧
      ∀ expression, TemplatePart.expression expression ∈ template.parts →
        ExpressionPart limits expression := by
  obtain ⟨-, parts, hloop, hparts⟩ := compile_eq_ok h
  have hspell := compileLoop_spells (by simp)
      (show writeParts [] ++ escapeLiteral [] ++ source.toList = source.toList by
        simp [writeParts, escapeLiteral]) hloop
  have hexpressions := compileLoop_expressions (by simp) hloop
  rw [hparts]
  cases parts with
  | nil => exact ⟨by simpa [writeParts, writePart, escapeLiteral] using hspell, by simp⟩
  | cons part parts => exact ⟨hspell, hexpressions⟩

theorem compiled_template_spells_its_source_on_escape :
    (∃ template, compile .default (String.ofList (escapeLiteral "a$\x7bb".toList)) = .ok template ∧
      writeParts template.parts = (String.ofList (escapeLiteral "a$\x7bb".toList)).toList ∧
      ∀ expression, TemplatePart.expression expression ∈ template.parts →
        ExpressionPart .default expression) := by
  obtain ⟨template, h, -⟩ :=
    @compile_escapeLiteral CompilationLimits.default "a$\x7bb".toList (by decide) (by decide)
  exact ⟨template, h, compiled_template_spells_its_source h⟩

end Template

/-! ## Rendering literal text

A template of one literal renders, in a fresh session, to the literal as a string, when the
limits afford it: as a produced string, as an allocation, and as a result. -/

open StateT

/-- Evaluation limits that afford the text `s` produced as a string and returned as the result:
its bytes as a produced string, an allocation, a scalar and a result, and the fuel to check the
result. -/
def EvaluationLimits.AffordsText (limits : EvaluationLimits) (s : String) : Prop :=
  s.utf8ByteSize ≤ limits.maxProducedStringBytes ∧ s.utf8ByteSize ≤ limits.maxAllocationBytes ∧
    s.utf8ByteSize ≤ usizeMax ∧ s.utf8ByteSize ≤ limits.maxScalarBytes ∧
    1 ≤ limits.maxResultDepth ∧ 1 ≤ limits.maxResultNodes ∧
    jsonStringBytes s ≤ limits.maxResultBytes ∧ 1 + jsonStringBytes s ≤ limits.fuel

instance (limits : EvaluationLimits) (s : String) : Decidable (limits.AffordsText s) :=
  inferInstanceAs (Decidable (_ ∧ _ ∧ _ ∧ _ ∧ _ ∧ _ ∧ _ ∧ _))

namespace Evaluator

variable {limits : EvaluationLimits} {fuel : ℕ}

/-- The check of a produced string leaves the budget as it is. -/
lemma checkProducedString_returns {P : Budget → Prop} {bytes : ℕ}
    (hlimits : ∀ budget, P budget → budget.limits = limits)
    (h : bytes ≤ limits.maxProducedStringBytes) :
    Returns (checkProducedString bytes) P fun _ => P := by
  unfold checkProducedString
  refine Returns.get_bind fun budget hbudget => ?_
  rw [if_neg (by rw [hlimits budget hbudget]; omega)]
  exact Returns.pure fun _ hs => hs

/-- The check of a scalar leaves the budget as it is. -/
lemma checkScalar_returns {P : Budget → Prop} {value : String}
    (hlimits : ∀ budget, P budget → budget.limits = limits)
    (h : value.utf8ByteSize ≤ limits.maxScalarBytes) :
    Returns (checkScalar value) P fun _ => P := by
  unfold checkScalar
  refine Returns.get_bind fun budget hbudget => ?_
  rw [if_neg (by rw [hlimits budget hbudget]; omega)]
  exact Returns.pure fun _ hs => hs

/-- An allocation that stays within the counter and the limit. -/
lemma allocate_returns {bytes : ℕ} :
    Returns (allocate bytes)
      (fun budget => Affords limits fuel budget ∧ budget.allocationBytes + bytes ≤ usizeMax ∧
        budget.allocationBytes + bytes ≤ limits.maxAllocationBytes)
      fun _ => Affords limits fuel := by
  unfold allocate
  refine Returns.get_bind fun budget hbudget => ?_
  obtain ⟨⟨hlimits, hfuel⟩, hcounter, hlimit⟩ := hbudget
  refine Returns.guard (by omega) (Returns.guard (by rw [hlimits]; omega) ?_)
  exact Returns.set fun _ _ => ⟨hlimits, hfuel⟩

variable (host : Host)

/-- A string passes `inspect_result` for one unit of fuel and one per byte of its JSON text. -/
lemma inspectResult_string_returns {value : String} {depth nodes bytes : ℕ}
    (hdepth : depth ≤ limits.maxResultDepth) (hnodes : nodes + 1 ≤ limits.maxResultNodes)
    (hscalar : value.utf8ByteSize ≤ limits.maxScalarBytes)
    (hbytes : satAdd bytes (jsonStringBytes value) ≤ limits.maxResultBytes) :
    Returns (inspectResult host (.string value) depth nodes bytes)
      (Affords limits (1 + (jsonStringBytes value + fuel)))
      fun _ => Affords limits fuel := by
  rw [inspectResult]
  refine Returns.get_bind fun budget hbudget => ?_
  refine Returns.guard (by rw [hbudget.1]; omega) ?_
  refine Returns.get_bind fun budget hbudget => ?_
  refine Returns.guard (by rw [hbudget.1]; omega) ?_
  refine Returns.bind spendFuel_returns fun _ => ?_
  refine Returns.bind (checkScalar_returns (fun _ hs => hs.1) hscalar) fun _ => ?_
  exact Returns.bind (addResultBytes_returns hbytes) fun _ => Returns.pure fun _ hs => hs

lemma finish_string_returns {value : String} (hdepth : 1 ≤ limits.maxResultDepth)
    (hnodes : 1 ≤ limits.maxResultNodes) (hscalar : value.utf8ByteSize ≤ limits.maxScalarBytes)
    (hbytes : jsonStringBytes value ≤ limits.maxResultBytes) :
    Returns (finish host (.owned (.string value)))
      (Affords limits (1 + (jsonStringBytes value + fuel)))
      fun result _ => result = .string value := by
  unfold finish
  refine Returns.bind_eq (Returns.pure fun _ hs => ⟨rfl, hs⟩) ?_
  have hbytes' : satAdd 0 (jsonStringBytes value) ≤ limits.maxResultBytes :=
    (min_le_left _ _).trans (by simpa using hbytes)
  exact Returns.bind (inspectResult_string_returns host hdepth hnodes hscalar hbytes') fun _ =>
    Returns.pure fun _ _ => rfl

end Evaluator

namespace Template

open Evaluator

variable (host : Host) (context : ContextView)

/-- The render of one literal part returns the literal. -/
lemma renderParts_literal_ensures (text : String) :
    Ensures (renderParts host context [.literal text] "") (· = text) := by
  simp only [renderParts]
  refine Ensures.bind_forall fun _ => Ensures.bind_forall fun _ => Ensures.pure ?_
  exact String.empty_append

/-- The whole render of a template that is one literal, after the parts: the produced-string
check and the finished result. -/
lemma renderLiteral_ensures (text : String) :
    Ensures (do
        let output ← renderParts host context [.literal text] ""
        checkProducedString output.utf8ByteSize
        finish host (.owned (.string output))) (· = .string text) := by
  refine Ensures.bind (Ensures.mono (renderParts_literal_ensures host context text) ?_)
  rintro _ rfl
  exact Ensures.bind_forall fun _ => finish_owned_ensures host _

lemma renderLiteral_returns {limits : EvaluationLimits} {text : String}
    (h : limits.AffordsText text) :
    Returns (do
        let output ← renderParts host context [.literal text] ""
        checkProducedString output.utf8ByteSize
        finish host (.owned (.string output)))
      (fun budget => Affords limits (1 + (jsonStringBytes text + 0)) budget ∧
        budget.allocationBytes = 0)
      fun result _ => result = .string text := by
  obtain ⟨hproduced, hallocation, hcounter, hscalar, hdepth, hnodes, hbytes, -⟩ := h
  simp only [renderParts, bind_assoc, String.empty_append, pure_bind]
  have hfirst : satAdd "".utf8ByteSize text.utf8ByteSize ≤ limits.maxProducedStringBytes :=
    (min_le_left _ _).trans (by simpa using hproduced)
  refine Returns.bind (checkProducedString_returns (fun _ hs => hs.1.1) hfirst) fun _ => ?_
  -- the literal's bytes are the first allocation of the session
  refine Returns.bind (Returns.consequence allocate_returns
    (fun _ hs => ⟨hs.1, by rw [hs.2]; omega, by rw [hs.2]; omega⟩) fun _ _ hs => hs) fun _ => ?_
  refine Returns.bind (checkProducedString_returns (fun _ hs => hs.1) hproduced) fun _ => ?_
  exact finish_string_returns host hdepth hnodes hscalar hbytes

end Template

/-- A text with no `{input:` in it, escaped with `$${` and compiled as a template, is one
literal part holding the text, and not a whole expression.  Rendered in a fresh session, it is
the text as a string whenever the render succeeds, and the render succeeds whenever the limits
afford the text. -/
theorem escaped_literal_compiles_and_renders_to_itself (host : Host) (limits : CompilationLimits)
    (text : List Char) (hinput : ¬ "\x7binput:".toList <:+: text)
    (hsize : (String.ofList (Template.escapeLiteral text)).utf8ByteSize ≤ limits.maxTemplateBytes) :
    ∃ template, compileTemplate limits (String.ofList (Template.escapeLiteral text)) = .ok template ∧
      template.parts = [.literal (String.ofList text)] ∧ template.wholeExpression = false ∧
      ∀ (context : Value) (evaluationLimits : EvaluationLimits),
        (∀ value, renderTemplate host template context evaluationLimits = .ok value →
          value = .string (String.ofList text)) ∧
        (evaluationLimits.AffordsText (String.ofList text) →
          renderTemplate host template context evaluationLimits =
            .ok (.string (String.ofList text))) := by
  obtain ⟨template, hcompile, hparts, hwhole⟩ := Template.compile_escapeLiteral hinput hsize
  refine ⟨template, hcompile, hparts, hwhole, fun context evaluationLimits => ?_⟩
  -- not a whole expression: the template renders its one literal
  have hrender : (EvaluationSession.new context evaluationLimits).renderTemplate host template =
      (EvaluationSession.new context evaluationLimits).run (do
        let output ← Template.renderParts host (.value context) [.literal (String.ofList text)] ""
        Evaluator.checkProducedString output.utf8ByteSize
        Evaluator.finish host (.owned (.string output))) := by
    rw [EvaluationSession.renderTemplate, hwhole, hparts]
    rfl
  constructor
  · intro value h
    cases hsession : (EvaluationSession.new context evaluationLimits).renderTemplate host template with
    | error e => simp [renderTemplate, hsession] at h
    | ok result =>
      obtain ⟨value', session'⟩ := result
      simp only [renderTemplate, hsession, Functor.map, Except.map, Except.ok.injEq] at h
      subst h
      rw [hrender] at hsession
      have hvalue := EvaluationSession.ensures_run (Template.renderLiteral_ensures host _ _) hsession
      exact hvalue
  · intro haffords
    obtain ⟨value, session', hrun, rfl⟩ := EvaluationSession.run_of_returns
      (Template.renderLiteral_returns host (.value context) haffords)
      (show Evaluator.Affords evaluationLimits (1 + (jsonStringBytes (String.ofList text) + 0))
          (EvaluationSession.new context evaluationLimits).budget ∧
          (EvaluationSession.new context evaluationLimits).budget.allocationBytes = 0 from
        ⟨⟨rfl, by simpa [EvaluationSession.new, Budget.new] using haffords.2.2.2.2.2.2.2⟩, rfl⟩)
    simp only [renderTemplate, hrender, hrun]
    rfl

theorem escaped_literal_compiles_and_renders_to_itself_on_dollar_brace :
    let host : Host := ⟨fun _ => "", fun c => [c], fun c => [c], fun _ _ _ => .ok false,
      fun _ => .error (.parse ""), 24, 56, 16, 8, 32⟩
    ¬ "\x7binput:".toList <:+: "a$\x7bb".toList ∧
      (String.ofList (Template.escapeLiteral "a$\x7bb".toList)).utf8ByteSize ≤
        CompilationLimits.default.maxTemplateBytes ∧
      ∃ template, compileTemplate .default
          (String.ofList (Template.escapeLiteral "a$\x7bb".toList)) = .ok template ∧
        template.parts = [.literal (String.ofList "a$\x7bb".toList)] ∧
        template.wholeExpression = false ∧
        ∀ (context : Value) (evaluationLimits : EvaluationLimits),
          (∀ value, renderTemplate host template context evaluationLimits = .ok value →
            value = .string (String.ofList "a$\x7bb".toList)) ∧
          (evaluationLimits.AffordsText (String.ofList "a$\x7bb".toList) →
            renderTemplate host template context evaluationLimits =
              .ok (.string (String.ofList "a$\x7bb".toList))) := by
  intro host
  have hinput : ¬ "\x7binput:".toList <:+: "a$\x7bb".toList := by decide
  have hsize : (String.ofList (Template.escapeLiteral "a$\x7bb".toList)).utf8ByteSize ≤
      CompilationLimits.default.maxTemplateBytes := by decide
  exact ⟨hinput, hsize,
    escaped_literal_compiles_and_renders_to_itself host .default "a$\x7bb".toList hinput hsize⟩

end Ryeos.Expression
