import Ryeos.Expression.NumberStrings

/-!
# Templates: `expression/template.rs` and the templates of `expression/mod.rs`

A template is text with embedded expressions `${...}`; `$${` writes a literal `${`.  `compile`
reads the source left to right, keeping the literal text it has read, and at each `${` asks
`find_expression_end` for the `}` that closes the expression: the scanner keeps a stack of the
closing delimiters it owes, skips quoted strings with their backslash escapes, and stops when
the stack runs empty.  Rendering writes the literal parts and the text of each expression's
value; a template that is one whole expression renders to the expression's value itself.

The source reads bytes; every byte it compares with is ASCII, and it steps over a character
above ASCII whole, so the model reads characters.  `find_expression_end` returns the byte index
of the closing brace in the source, which `findExpressionEnd` reports as the start plus the
UTF-8 width of the characters scanned; `compile` slices the source at that index, which the
model's loop does by counting the same characters (`scanExpression`).  Spans and field names
are left out, as elsewhere.

The scanner's grammar and its soundness and completeness are in `TemplateScanner`; writing a
template back, the compiler's invariants and the round trip of literal text in `TemplateText`.
-/

namespace Ryeos.Expression

/-! ## Compiled templates -/

/-- `TemplatePart`. -/
inductive TemplatePart where
  | literal (text : String)
  | expression (expression : CompiledExpression)

namespace TemplatePart

/-- Whether a part is literal text. -/
def isLiteral : TemplatePart → Bool
  | .literal _ => true
  | .expression _ => false

end TemplatePart

/-- `matches!(parts.as_slice(), [TemplatePart::Expression(_)])`. -/
def isWholeExpression : List TemplatePart → Bool
  | [.expression _] => true
  | _ => false

/-- `CompiledTemplate`: the source, its parts, whether it is one whole expression, and the
references of its expressions.  `whole_expression` is computed from the parts where the one
template is built; the field says so, which is what the source's `unreachable!()` after
`is_whole_expression()` relies on. -/
structure CompiledTemplate where
  source : String
  parts : List TemplatePart
  wholeExpression : Bool
  references : ReferenceSet
  wholeExpression_eq : wholeExpression = isWholeExpression parts

/-- `CompiledTemplate::new`: the references of the expression parts, in order. -/
def CompiledTemplate.new (source : String) (parts : List TemplatePart) (wholeExpression : Bool)
    (h : wholeExpression = isWholeExpression parts) : CompiledTemplate :=
  let references := parts.foldl (fun references part =>
    match part with
    | .expression expression => references.extend expression.references
    | .literal _ => references) {}
  ⟨source, parts, wholeExpression, references, h⟩

/-! ## The scanner: `find_expression_end` -/

namespace Template

/-- The closing delimiter of `{`, `[` and `(`. -/
def closerOf : Char → Option Char
  | '{' => some '}'
  | '[' => some ']'
  | '(' => some ')'
  | _ => none

/-- `b'}' | b']' | b')'`. -/
def isCloser (c : Char) : Bool := c = '}' || c = ']' || c = ')'

/-- `b'\'' | b'"'`. -/
def isQuote (c : Char) : Bool := c = '\'' || c = '"'

/-- `scan_error`. -/
def scanError (message : String) : ExpressionError := ⟨.scan, message, none⟩

/-- The loop of `find_expression_end` over what is left of the source, with the stack of closing
delimiters it owes, the open quote, whether the last character inside it was a backslash, and
the characters read so far. -/
def scan : List Char → List Char → Option Char → Bool → ℕ → Except ExpressionError ℕ
  | [], _, quote, _, _ =>
    .error (scanError (if quote.isSome then "unterminated quoted string in template expression"
      else "unmatched `$\x7b` in template"))
  | c :: rest, stack, some activeQuote, escaped, offset =>
    if escaped then scan rest stack (some activeQuote) false (offset + 1)
    else if c = '\\' then scan rest stack (some activeQuote) true (offset + 1)
    else if c = activeQuote then scan rest stack none escaped (offset + 1)
    else scan rest stack (some activeQuote) escaped (offset + 1)
  | c :: rest, stack, none, escaped, offset =>
    if isQuote c then scan rest stack (some c) escaped (offset + 1)
    else
      match closerOf c with
      | some closer => scan rest (closer :: stack) none escaped (offset + 1)
      | none =>
        if isCloser c then
          match stack with
          | [] => .error (scanError "unexpected closing delimiter")
          | expected :: stack =>
            if c ≠ expected then
              .error (scanError s!"mismatched closing delimiter `{c}`; expected `{expected}`")
            else if stack = [] then .ok offset
            else scan rest stack none escaped (offset + 1)
        else scan rest stack none escaped (offset + 1)

/-- The scan of `find_expression_end` from just past `${`, where the stack owes the closing `}`,
counting characters: on success, the closing brace is the `n`-th character of `cs`. -/
def scanExpression (cs : List Char) : Except ExpressionError ℕ :=
  scan cs ['}'] none false 0

/-- `find_expression_end(source, start)`, given the characters of the source from byte `start`
on.  The source's cursor is a byte index that steps over whole characters, so the brace it
returns is at `start` plus the UTF-8 width of the characters scanned before it. -/
def findExpressionEnd (cs : List Char) (start : ℕ) : Except ExpressionError ℕ :=
  (scanExpression cs).map fun n => start + (String.ofList (cs.take n)).utf8ByteSize

/-! ## The compiler: `template::compile` -/

/-- `push_literal`: the literal read so far becomes a part, unless it is empty. -/
def pushLiteral (parts : List TemplatePart) (literal : List Char) : List TemplatePart :=
  if literal.isEmpty then parts else parts ++ [.literal (String.ofList literal)]

/-- The error of the removed `{input:...}` shorthand. -/
def removedInputError : ExpressionError :=
  ⟨.parse, "removed `\x7binput:...\x7d` interpolation is not valid in rye-expr/1",
    some "write `$\x7binputs.name\x7d` and use `??` for an explicit fallback"⟩

/-- A successful scan stops inside the text it read. -/
lemma scan_lt_length {cs stack : List Char} {quote : Option Char} {escaped : Bool}
    {offset n : ℕ} : scan cs stack quote escaped offset = .ok n → n < offset + cs.length := by
  fun_induction scan cs stack quote escaped offset <;> intro h <;> grind

/-- The loop of `compile` over what is left of the source, with the parts and the literal text
read so far and the number of expressions met. -/
def compileLoop (limits : CompilationLimits) (cs : List Char) (parts : List TemplatePart)
    (literal : List Char) (expressions : ℕ) : Except ExpressionError (List TemplatePart) :=
  match cs with
  | [] => .ok (pushLiteral parts literal)
  | c :: rest =>
    if "\x7binput:".toList.isPrefixOf (c :: rest) then .error removedInputError
    else if "$$\x7b".toList.isPrefixOf (c :: rest) then
      compileLoop limits ((c :: rest).drop 3) parts (literal ++ "$\x7b".toList) expressions
    else if "$\x7b".toList.isPrefixOf (c :: rest) then
      let parts := pushLiteral parts literal
      let expressions := expressions + 1
      if expressions > limits.maxExpressionsPerTemplate then
        let maxExpressionsPerTemplate := limits.maxExpressionsPerTemplate
        .error ⟨.limit, s!"template exceeds expression limit of {maxExpressionsPerTemplate}", none⟩
      else
        -- `find_expression_end(&source, cursor + 2)`, counted in characters: the source slices
        -- the expression at the byte index it returns, which is where these characters end
        match h : scanExpression ((c :: rest).drop 2) with
        | .error e => .error e
        | .ok close =>
          have := scan_lt_length h
          let expressionSource := String.ofList (((c :: rest).drop 2).take close)
          if (Rust.trim expressionSource.toList).isEmpty then
            .error ⟨.parse, "template expression cannot be empty", none⟩
          else
            match compileExpression limits expressionSource with
            | .error e => .error e
            | .ok expression =>
              compileLoop limits (((c :: rest).drop 2).drop (close + 1))
                (parts ++ [.expression expression]) [] expressions
    else compileLoop limits rest parts (literal ++ [c]) expressions
termination_by cs.length
decreasing_by all_goals simp only [List.length_drop, List.length_cons]; omega

/-- `template::compile`: a source past `max_template_bytes` is refused before it is read; a
source with no parts is one empty literal. -/
def compile (limits : CompilationLimits) (source : String) :
    Except ExpressionError CompiledTemplate :=
  if source.utf8ByteSize > limits.maxTemplateBytes then
    let length := source.utf8ByteSize
    let maxTemplateBytes := limits.maxTemplateBytes
    .error ⟨.limit, s!"template source is {length} bytes; limit is {maxTemplateBytes}", none⟩
  else do
    let parts ← compileLoop limits source.toList [] [] 0
    let parts := if parts.isEmpty then [.literal ""] else parts
    pure (CompiledTemplate.new source parts (isWholeExpression parts) rfl)

end Template

/-- `compile_template`. -/
def compileTemplate (limits : CompilationLimits) (source : String) :
    Except ExpressionError CompiledTemplate :=
  Template.compile limits source

/-- `compile_condition_for`: a condition's trimmed source is an expression, or a template that
must be one whole expression; either way its static type must allow a bool.  (The source's
`unreachable!()`, a whole template whose first part is not an expression, cannot happen:
`CompiledTemplate.wholeExpression_eq`.) -/
def compileConditionFor (limits : CompilationLimits) (source : String) :
    Except ExpressionError CompiledExpression :=
  let source := String.ofList (Rust.trim source.toList)
  if source.isEmpty then .error ⟨.parse, "condition expression cannot be empty", none⟩
  else if "$\x7b".toList.isPrefixOf source.toList then do
    let template ← compileTemplate limits source
    match template.wholeExpression, template.parts with
    | true, .expression expression :: _ => requireBooleanCondition expression
    | _, _ =>
      .error ⟨.parse, "condition wrapper must contain exactly one whole expression", none⟩
  else do
    requireBooleanCondition (← compileExpression limits source)

/-! ## Rendering -/

namespace Template

open Evaluator

variable (host : Host)

/-- `append_embedded`: the text of an embedded expression's value after the output so far; a
null adds nothing, and a container is refused. -/
def appendEmbedded (value : RuntimeValue) (output : String) : EvalM String := do
  let some value := value.asJson | throw (evalError "embedded expression resolved to missing")
  match value with
  | .null => pure output
  | .number number =>
    let rendered ← liftExcept ((Numeric.fromJson number).bind (Numeric.canonical host))
    checkProducedString (satAdd output.utf8ByteSize rendered.utf8ByteSize)
    allocate (satMul rendered.utf8ByteSize 2)
    pure (output ++ rendered)
  | .string value =>
    checkScalar value
    checkProducedString (satAdd output.utf8ByteSize value.utf8ByteSize)
    allocate value.utf8ByteSize
    pure (output ++ value)
  | .array _ | .object _ =>
    throw { evalError "embedded arrays and objects require json(...) or string(...)" with
      correction := some "wrap the expression with json(...) for deterministic text" }
  | .bool b =>
    let rendered := if b then "true" else "false"
    checkProducedString (satAdd output.utf8ByteSize rendered.utf8ByteSize)
    allocate rendered.utf8ByteSize
    pure (output ++ rendered)

/-- The loop of `render_template` over the parts of a template that is not one whole
expression: a literal is charged and written, an expression evaluated and its text written. -/
def renderParts (context : ContextView) : List TemplatePart → String → EvalM String
  | [], output => pure output
  | .literal literal :: parts, output => do
    checkProducedString (satAdd output.utf8ByteSize literal.utf8ByteSize)
    allocate literal.utf8ByteSize
    renderParts context parts (output ++ literal)
  | .expression expression :: parts, output => do
    let value ← Evaluator.evaluate host context expression.root
    let output ← appendEmbedded host value output
    renderParts context parts output

end Template

namespace EvaluationSession

variable (host : Host)

/-- `EvaluationSession::render_template`: a whole expression is evaluated to its own value;
any other template renders to the string of its parts. -/
def renderTemplate (session : EvaluationSession) (template : CompiledTemplate) :
    Except ExpressionError (Value × EvaluationSession) :=
  match template.wholeExpression, template.parts with
  | true, .expression expression :: _ => session.evaluate host expression
  | _, parts =>
    session.run do
      let output ← Template.renderParts host session.context parts ""
      Evaluator.checkProducedString output.utf8ByteSize
      Evaluator.finish host (.owned (.string output))

end EvaluationSession

/-- `render_template`: a template rendered in a fresh session over a JSON context. -/
def renderTemplate (host : Host) (template : CompiledTemplate) (context : Value)
    (limits : EvaluationLimits) : Except ExpressionError Value :=
  Prod.fst <$> (EvaluationSession.new context limits).renderTemplate host template

/-- `compile_and_render`. -/
def compileAndRender (host : Host) (source : String) (context : Value)
    (compilationLimits : CompilationLimits) (evaluationLimits : EvaluationLimits) :
    Except ExpressionError Value := do
  let template ← compileTemplate compilationLimits source
  renderTemplate host template context evaluationLimits

end Ryeos.Expression
