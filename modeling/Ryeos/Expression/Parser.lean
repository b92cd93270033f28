import Ryeos.Expression.Syntax

/-!
# The expression parser: `expression/parser.rs`

A Pratt parser over the lexer's tokens.  The source's `Parser` holds a cursor into the tokens
and a count of the literal elements charged so far; the model passes the tokens from the cursor
on and the count, and every parsing function returns a `Parsed`: its value, the tokens after
what it read and the new count.  The tokens after are never more than the tokens before, and
that bound is a field of `Parsed`, so the recursion terminates on the number of tokens left:
every call either reads a token first or goes to a function of lower rank (`expression` before
`parsePrefix` and `expressionLoop`, the element loops before `expression`).

`advance` never moves past `Eof`, and the lexer ends every token list with it; the model reads
an empty token list as `Eof` too.
-/

namespace Ryeos.Expression

namespace Parser

/-- A parse error. -/
def parseError (message : String) : ExpressionError := ⟨.parse, message, none⟩

/-- A limit error. -/
def limitError (message : String) : ExpressionError := ⟨.limit, message, none⟩

/-- What a parsing function returns: its value, the tokens after what it read, and the literal
elements charged so far. -/
structure Parsed (ts : List TokenKind) (α : Type) where
  value : α
  rest : List TokenKind
  elements : ℕ
  rest_le : rest.length ≤ ts.length

/-- A parse that read no token. -/
def Parsed.unread {ts : List TokenKind} {α : Type} (value : α) (elements : ℕ) : Parsed ts α :=
  ⟨value, ts, elements, le_refl _⟩

/-- `Parser::current`. -/
def current (ts : List TokenKind) : TokenKind := ts.headD .eof

/-- `Parser::expect`: the current token if it is the one expected, else an error naming what
was found. -/
def expect (predicate : TokenKind → Bool) (expected : String) (ts : List TokenKind)
    (elements : ℕ) : Except ExpressionError (Parsed ts TokenKind) :=
  match ts with
  | token :: rest =>
    if predicate token then
      -- `advance` stays on `Eof`
      if token = .eof then .ok (.unread token elements)
      else .ok ⟨token, rest, elements, by simp⟩
    else
      let found := token.description
      .error (parseError s!"expected {expected}, found {found}")
  | [] =>
    if predicate .eof then .ok (.unread .eof elements)
    else .error (parseError s!"expected {expected}, found end of expression")

/-- `Parser::charge_literal_element`. -/
def chargeLiteralElement (limits : CompilationLimits) (elements : ℕ) :
    Except ExpressionError ℕ :=
  if elements + 1 > limits.maxLiteralElements then
    let maxLiteralElements := limits.maxLiteralElements
    .error (limitError s!"expression exceeds literal element limit of {maxLiteralElements}")
  else .ok (elements + 1)

/-- `Parser::check_depth`. -/
def checkDepth (limits : CompilationLimits) (depth : ℕ) : Except ExpressionError Unit :=
  if depth > limits.maxAstDepth then
    let maxAstDepth := limits.maxAstDepth
    .error (limitError s!"expression exceeds AST depth limit of {maxAstDepth}")
  else .ok ()

/-- The unary operators of `Parser::prefix`. -/
def unaryOperator : TokenKind → Option UnaryOperator
  | .bang => some .not
  | .plus => some .plus
  | .minus => some .minus
  | _ => none

/-- The arity error of `Parser::identifier`. -/
def arityError (function : BuiltinFunction) (received : ℕ) : ExpressionError :=
  let name := function.name
  let arity := function.arity
  let plural := if function.arity = 1 then "" else "s"
  parseError s!"function `{name}` expects {arity} argument{plural}, received {received}"

variable (limits : CompilationLimits)

mutual

/-- `Parser::expression`: a prefix, then the postfix, conditional and infix operators that
bind at least `minBindingPower`. -/
def expression (minBindingPower depth : ℕ) (ts : List TokenKind) (elements : ℕ) :
    Except ExpressionError (Parsed ts Expr) := do
  checkDepth limits depth
  let ⟨left, rest, elements, h⟩ ← parsePrefix depth ts elements
  let ⟨result, rest', elements, h'⟩ ← expressionLoop minBindingPower depth left rest elements
  pure ⟨result, rest', elements, h'.trans h⟩
termination_by 5 * ts.length + 2

/-- The loop of `Parser::expression`, with the tree `left` read so far. -/
def expressionLoop (minBindingPower depth : ℕ) (left : Expr) (ts : List TokenKind)
    (elements : ℕ) : Except ExpressionError (Parsed ts Expr) :=
  match ts with
  | .dot :: rest =>
    if 20 < minBindingPower then pure (.unread left elements)
    else do
      let ⟨left, rest₁, elements, h₁⟩ ← parsePostfix depth left .dot rest elements
      let ⟨result, rest₂, elements, h₂⟩ ← expressionLoop minBindingPower depth left rest₁ elements
      pure ⟨result, rest₂, elements, by simp only [List.length_cons]; omega⟩
  | .leftBracket :: rest =>
    if 20 < minBindingPower then pure (.unread left elements)
    else do
      let ⟨left, rest₁, elements, h₁⟩ ← parsePostfix depth left .leftBracket rest elements
      let ⟨result, rest₂, elements, h₂⟩ ← expressionLoop minBindingPower depth left rest₁ elements
      pure ⟨result, rest₂, elements, by simp only [List.length_cons]; omega⟩
  | .question :: rest =>
    if 1 < minBindingPower then pure (.unread left elements)
    else do
      let ⟨thenBranch, rest₁, elements, h₁⟩ ← expression 0 (depth + 1) rest elements
      let ⟨_, rest₂, elements, h₂⟩ ←
        expect (· = .colon) "`:` in conditional expression" rest₁ elements
      let ⟨elseBranch, rest₃, elements, h₃⟩ ← expression 1 (depth + 1) rest₂ elements
      let ⟨result, rest₄, elements, h₄⟩ ← expressionLoop minBindingPower depth
        (.conditional left thenBranch elseBranch) rest₃ elements
      pure ⟨result, rest₄, elements, by simp only [List.length_cons]; omega⟩
  | token :: rest =>
    match infixOperator token with
    | none => pure (.unread left elements)
    | some (leftBindingPower, rightBindingPower, operator) =>
      if leftBindingPower < minBindingPower then pure (.unread left elements)
      else do
        let ⟨right, rest₁, elements, h₁⟩ ← expression rightBindingPower (depth + 1) rest elements
        if mixesNullishAndBoolean operator left right then
          throw { phase := .parse,
                  message := "`??` cannot be mixed with `&&` or `||` without parentheses",
                  correction := some "parenthesize either the nullish or boolean expression" }
        let ⟨result, rest₂, elements, h₂⟩ ← expressionLoop minBindingPower depth
          (.binary operator left right) rest₁ elements
        pure ⟨result, rest₂, elements, by simp only [List.length_cons]; omega⟩
  | [] => pure (.unread left elements)
termination_by 5 * ts.length + 1

/-- `Parser::prefix`: a literal, a variable or call, a unary operator, a group, an array or an
object. -/
def parsePrefix (depth : ℕ) (ts : List TokenKind) (elements : ℕ) :
    Except ExpressionError (Parsed ts Expr) :=
  match ts with
  | .null :: rest => pure ⟨.literal .null, rest, elements, by simp⟩
  | .true :: rest => pure ⟨.literal (.bool true), rest, elements, by simp⟩
  | .false :: rest => pure ⟨.literal (.bool false), rest, elements, by simp⟩
  | .string value :: rest => pure ⟨.literal (.string value), rest, elements, by simp⟩
  | .number text :: rest =>
    match Numeric.parseUnsignedToken text with
    | .ok numeric => pure ⟨.literal (.number numeric), rest, elements, by simp⟩
    | .error message => throw (parseError message)
  | .identifier name :: rest => do
    let ⟨value, rest₁, elements, h₁⟩ ← parseIdentifier name depth rest elements
    pure ⟨value, rest₁, elements, Nat.le_succ_of_le h₁⟩
  | .leftParen :: rest => do
    let ⟨inner, rest₁, elements, h₁⟩ ← expression 0 (depth + 1) rest elements
    let ⟨_, rest₂, elements, h₂⟩ ← expect (· = .rightParen) "`)`" rest₁ elements
    pure ⟨.group inner, rest₂, elements, Nat.le_succ_of_le (h₂.trans h₁)⟩
  | .leftBracket :: rest => do
    let ⟨value, rest₁, elements, h₁⟩ ← parseArray depth rest elements
    pure ⟨value, rest₁, elements, Nat.le_succ_of_le h₁⟩
  | .leftBrace :: rest => do
    let ⟨value, rest₁, elements, h₁⟩ ← parseObject depth rest elements
    pure ⟨value, rest₁, elements, Nat.le_succ_of_le h₁⟩
  | token :: rest =>
    match unaryOperator token with
    | some operator => do
      let ⟨operand, rest₁, elements, h₁⟩ ← expression 18 (depth + 1) rest elements
      pure ⟨.unary operator operand, rest₁, elements, Nat.le_succ_of_le h₁⟩
    | none =>
      let found := token.description
      throw (parseError s!"expected an expression, found {found}")
  | [] => throw (parseError "expected an expression, found end of expression")
termination_by 5 * ts.length + 1

/-- `Parser::identifier`, after the name: a variable, or a call of a builtin function with its
arguments counted, checked against the arity, and a path for `exists`. -/
def parseIdentifier (name : String) (depth : ℕ) (ts : List TokenKind) (elements : ℕ) :
    Except ExpressionError (Parsed ts Expr) :=
  match ts with
  | .leftParen :: rest => do
    let some function := BuiltinFunction.fromName name
      | throw (parseError s!"unknown function `{name}`")
    let ⟨arguments, rest₁, elements, h₁⟩ ← (if current rest = .rightParen then
        pure (.unread [] elements)
      else callArguments depth [] rest elements : Except ExpressionError (Parsed rest (List Expr)))
    let ⟨_, rest₂, elements, h₂⟩ ← expect (· = .rightParen) "`)`" rest₁ elements
    if arguments.length ≠ function.arity then throw (arityError function arguments.length)
    match function, arguments with
    | .exists, first :: _ =>
      if !isPathExpression first then
        throw { phase := .parse, message := "exists(...) requires a path expression",
                correction := some "pass a context path such as exists(inputs.optional)" }
    | _, _ => pure ()
    pure ⟨.call function arguments, rest₂, elements, by simp only [List.length_cons]; omega⟩
  | _ => pure (.unread (.var name) elements)
termination_by 5 * ts.length

/-- The argument loop of `Parser::identifier`, with the arguments read so far. -/
def callArguments (depth : ℕ) (arguments : List Expr) (ts : List TokenKind) (elements : ℕ) :
    Except ExpressionError (Parsed ts (List Expr)) := do
  if limits.maxFunctionArguments ≤ arguments.length then
    let maxFunctionArguments := limits.maxFunctionArguments
    throw (limitError s!"function call exceeds argument limit of {maxFunctionArguments}")
  let ⟨argument, rest₁, elements, h₁⟩ ← expression 0 (depth + 1) ts elements
  let arguments := arguments ++ [argument]
  match hrest : rest₁ with
  | .comma :: rest₂ =>
    if current rest₂ = .rightParen then throw (parseError "trailing function argument comma")
    let ⟨arguments, rest₃, elements, h₃⟩ ← callArguments depth arguments rest₂ elements
    pure ⟨arguments, rest₃, elements, by subst hrest; simp only [List.length_cons] at h₁; omega⟩
  | _ => pure ⟨arguments, rest₁, elements, h₁⟩
termination_by 5 * ts.length + 3
decreasing_by all_goals ((try subst hrest); (try simp only [List.length_cons] at *); omega)

/-- `Parser::postfix`, after its token: `.` and a key, or `[`, an index and `]`.  It is only
called at one of the two; the source's other arm is unreachable. -/
def parsePostfix (depth : ℕ) (target : Expr) (token : TokenKind) (ts : List TokenKind)
    (elements : ℕ) : Except ExpressionError (Parsed ts Expr) :=
  match token with
  | .dot =>
    match ts with
    | .identifier key :: rest => pure ⟨.member target key, rest, elements, by simp⟩
    | _ =>
      throw { phase := .parse, message := "dot access requires a non-reserved identifier",
              correction := some "use bracket access with a quoted key" }
  | _ => do
    let ⟨index, rest₁, elements, h₁⟩ ← expression 0 (depth + 1) ts elements
    let ⟨_, rest₂, elements, h₂⟩ ← expect (· = .rightBracket) "`]`" rest₁ elements
    pure ⟨.index target index, rest₂, elements, by omega⟩
termination_by 5 * ts.length + 3

/-- `Parser::array`, after `[`. -/
def parseArray (depth : ℕ) (ts : List TokenKind) (elements : ℕ) :
    Except ExpressionError (Parsed ts Expr) := do
  let ⟨values, rest₁, elements, h₁⟩ ← (if current ts = .rightBracket then
      pure (.unread [] elements)
    else arrayElements depth [] ts elements : Except ExpressionError (Parsed ts (List Expr)))
  let ⟨_, rest₂, elements, h₂⟩ ← expect (· = .rightBracket) "`]`" rest₁ elements
  pure ⟨.array values, rest₂, elements, by omega⟩
termination_by 5 * ts.length + 4

/-- The element loop of `Parser::array`, with the elements read so far. -/
def arrayElements (depth : ℕ) (values : List Expr) (ts : List TokenKind) (elements : ℕ) :
    Except ExpressionError (Parsed ts (List Expr)) := do
  let elements ← chargeLiteralElement limits elements
  let ⟨value, rest₁, elements, h₁⟩ ← expression 0 (depth + 1) ts elements
  let values := values ++ [value]
  match hrest : rest₁ with
  | .comma :: rest₂ =>
    if current rest₂ = .rightBracket then throw (parseError "trailing array element comma")
    let ⟨values, rest₃, elements, h₃⟩ ← arrayElements depth values rest₂ elements
    pure ⟨values, rest₃, elements, by subst hrest; simp only [List.length_cons] at h₁; omega⟩
  | _ => pure ⟨values, rest₁, elements, h₁⟩
termination_by 5 * ts.length + 3
decreasing_by all_goals ((try subst hrest); (try simp only [List.length_cons] at *); omega)

/-- `Parser::object`, after `{`. -/
def parseObject (depth : ℕ) (ts : List TokenKind) (elements : ℕ) :
    Except ExpressionError (Parsed ts Expr) := do
  let ⟨entries, rest₁, elements, h₁⟩ ← (if current ts = .rightBrace then
      pure (.unread [] elements)
    else objectEntries depth [] ts elements :
      Except ExpressionError (Parsed ts (List (String × Expr))))
  let ⟨_, rest₂, elements, h₂⟩ ← expect (· = .rightBrace) "`\x7d`" rest₁ elements
  pure ⟨.object entries, rest₂, elements, by omega⟩
termination_by 5 * ts.length + 4

/-- The entry loop of `Parser::object`, with the entries read so far: a key, `:`, a value, and
no key twice. -/
def objectEntries (depth : ℕ) (entries : List (String × Expr)) (ts : List TokenKind)
    (elements : ℕ) : Except ExpressionError (Parsed ts (List (String × Expr))) := do
  let elements ← chargeLiteralElement limits elements
  match hts : ts with
  | keyToken :: rest =>
    let key ← match keyToken with
      | .identifier key | .string key => pure key
      | other =>
        let found := other.description
        throw (parseError s!"object key must be an identifier or quoted string, found {found}")
    if entries.any (·.1 = key) then throw (parseError s!"duplicate object key `{key}`")
    let ⟨_, rest₁, elements, h₁⟩ ← expect (· = .colon) "`:` after object key" rest elements
    let ⟨value, rest₂, elements, h₂⟩ ← expression 0 (depth + 1) rest₁ elements
    let entries := entries ++ [(key, value)]
    match hrest : rest₂ with
    | .comma :: rest₃ =>
      if current rest₃ = .rightBrace then throw (parseError "trailing object entry comma")
      let ⟨entries, rest₄, elements, h₄⟩ ← objectEntries depth entries rest₃ elements
      pure ⟨entries, rest₄, elements, by
        subst hts hrest; simp only [List.length_cons] at h₂ ⊢; omega⟩
    | _ => pure ⟨entries, rest₂, elements, by subst hts; simp only [List.length_cons]; omega⟩
  | [] =>
    throw (parseError "object key must be an identifier or quoted string, found end of expression")
termination_by 5 * ts.length + 3
decreasing_by
  all_goals ((try subst hts); (try subst hrest); (try simp only [List.length_cons] at *); omega)

end

end Parser

/-- `Parser::validate_ast_depth`: the walk fails exactly when a node lies deeper than
`max_ast_depth`, the root being at depth 1. -/
def validateAstDepth (limits : CompilationLimits) (root : Expr) : Except ExpressionError Unit :=
  if root.depth > limits.maxAstDepth then
    let maxAstDepth := limits.maxAstDepth
    .error (Parser.limitError s!"expression exceeds AST depth limit of {maxAstDepth}")
  else .ok ()

/-- `parse`: one expression, no deeper than the limit, and then `Eof`. -/
def parse (limits : CompilationLimits) (tokens : List TokenKind) : Except ExpressionError Expr := do
  let ⟨expression, rest, _, _⟩ ← Parser.expression limits 0 1 tokens 0
  validateAstDepth limits expression
  match Parser.current rest with
  | .eof => pure expression
  | token =>
    let found := token.description
    throw (Parser.parseError s!"unexpected {found}; expected end of expression")

end Ryeos.Expression
