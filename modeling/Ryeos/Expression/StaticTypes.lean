import Ryeos.Expression.Syntax

/-!
# Static result types: `infer_static_type` and `expression/static_types.rs`

`inferStaticType` reads the result type of an expression off its shape where the shape decides
it, and answers `none` where runtime data can change it.  `StaticTypeValidator` walks a parsed
tree and refuses the operators whose operands have a static type the operator cannot take.
-/

namespace Ryeos.Expression

/-- `ExpressionValueType`. -/
inductive ExpressionValueType where
  | null
  | bool
  | number
  | string
  | array
  | object
  deriving DecidableEq, Repr

/-- `ExpressionValueType::as_str`. -/
def ExpressionValueType.asStr : ExpressionValueType → String
  | .null => "null"
  | .bool => "bool"
  | .number => "number"
  | .string => "string"
  | .array => "array"
  | .object => "object"

/-- `infer_static_type`. -/
def inferStaticType : Expr → Option ExpressionValueType
  | .literal .null => some .null
  | .literal (.bool _) => some .bool
  | .literal (.string _) => some .string
  | .literal (.number _) => some .number
  | .array _ => some .array
  | .object _ => some .object
  | .var _ | .member _ _ | .index _ _ => none
  | .group inner => inferStaticType inner
  | .unary .not _ => some .bool
  | .unary .plus _ | .unary .minus _ => some .number
  | .binary operator left right =>
    match operator with
    | .equal | .notEqual | .less | .lessEqual | .greater | .greaterEqual | .in | .and | .or =>
      some .bool
    | .subtract | .multiply | .divide | .remainder => some .number
    | .add =>
      -- a string on either side makes the sum a string, before a number does
      match inferStaticType left, inferStaticType right with
      | some .string, _ | _, some .string => some .string
      | some .number, _ | _, some .number => some .number
      | _, _ => none
    | .coalesce =>
      match inferStaticType left with
      | some .null => inferStaticType right
      | some kind => some kind
      | none => none
  | .conditional _ thenBranch elseBranch =>
    if inferStaticType thenBranch = inferStaticType elseBranch then inferStaticType thenBranch
    else none
  | .call function _ =>
    match function with
    | .length | .number => some .number
    | .contains | .exists | .matches => some .bool
    | .keys => some .array
    | .upper | .lower | .json | .type | .string => some .string
    | .fromJson => none

namespace StaticTypeValidator

/-- A static type error, reported in the parse phase. -/
def typeError (message : String) : ExpressionError := ⟨.parse, message, none⟩

/-- `unary_symbol`. -/
def unarySymbol : UnaryOperator → String
  | .not => "!"
  | .plus => "+"
  | .minus => "-"

/-- `binary_symbol`. -/
def binarySymbol : BinaryOperator → String
  | .add => "+"
  | .subtract => "-"
  | .multiply => "*"
  | .divide => "/"
  | .remainder => "%"
  | .equal => "=="
  | .notEqual => "!="
  | .less => "<"
  | .lessEqual => "<="
  | .greater => ">"
  | .greaterEqual => ">="
  | .in => "in"
  | .and => "&&"
  | .or => "||"
  | .coalesce => "??"

/-- `StaticTypeValidator::require`: an operand whose static type is known must have one of the
allowed types. -/
def require (operand : Expr) (allowed : List ExpressionValueType) (purpose expected : String) :
    Except ExpressionError Unit :=
  match inferStaticType operand with
  | none => .ok ()
  | some actual =>
    if actual ∈ allowed then .ok ()
    else
      let shown := actual.asStr
      .error (typeError s!"{purpose} is statically {shown}; expected {expected}")

/-- `StaticTypeValidator::require_boolean_operand`. -/
def requireBooleanOperand (operator : BinaryOperator) (operand : Expr) (side : String) :
    Except ExpressionError Unit :=
  match inferStaticType operand with
  | none => .ok ()
  | some actual =>
    if actual = .bool then .ok ()
    else
      let symbol := if operator = .and then "&&" else "||"
      let shown := actual.asStr
      let message := s!"operator `{symbol}` {side} operand is statically {shown}; expected bool"
      if operator = .or then
        .error { typeError message with
          correction := some "use `??` for missing/null fallback; `||` accepts bool operands only" }
      else .error (typeError message)

/-- `StaticTypeValidator::require_matching_scalar_pair`: both operands numbers or strings, and
the same one when both are known. -/
def requireMatchingScalarPair (left right : Expr) (purpose expected : String) :
    Except ExpressionError Unit := do
  require left [.number, .string] s!"{purpose} left operand" expected
  require right [.number, .string] s!"{purpose} right operand" expected
  match inferStaticType left, inferStaticType right with
  | some leftType, some rightType =>
    if leftType = rightType then pure ()
    else
      let shownLeft := leftType.asStr
      let shownRight := rightType.asStr
      throw (typeError
        s!"{purpose} requires {expected}; operands are statically {shownLeft}/{shownRight}")
  | _, _ => pure ()

/-- `StaticTypeValidator::require_membership`: a container, and a string needle for an object
or a string. -/
def requireMembership (needle container : Expr) (purpose : String) :
    Except ExpressionError Unit := do
  require container [.array, .object, .string] s!"{purpose} container" "array, object, or string"
  match inferStaticType container with
  | some .object | some .string =>
    require needle [.string] s!"{purpose} key/needle" "string"
  | _ => pure ()

/-- `StaticTypeValidator::unary`. -/
def unary (operator : UnaryOperator) (operand : Expr) : Except ExpressionError Unit :=
  match operator with
  | .not => require operand [.bool] "operator `!` operand" "bool"
  | .plus | .minus =>
    let symbol := unarySymbol operator
    require operand [.number] s!"operator `{symbol}` operand" "number"

/-- `StaticTypeValidator::binary`. -/
def binary (operator : BinaryOperator) (left right : Expr) : Except ExpressionError Unit :=
  let symbol := binarySymbol operator
  match operator with
  | .and | .or => do
    requireBooleanOperand operator left "left"
    requireBooleanOperand operator right "right"
  | .subtract | .multiply | .divide | .remainder => do
    require left [.number] s!"operator `{symbol}` left operand" "number"
    require right [.number] s!"operator `{symbol}` right operand" "number"
  | .add => requireMatchingScalarPair left right "operator `+`" "number/number or string/string"
  | .less | .lessEqual | .greater | .greaterEqual =>
    requireMatchingScalarPair left right s!"operator `{symbol}`" "number/number or string/string"
  | .in => requireMembership left right "operator `in`"
  | .equal | .notEqual | .coalesce => pure ()

/-- `StaticTypeValidator::call`.  The parser checked the arity, so a call has its arguments. -/
def call (function : BuiltinFunction) (arguments : List Expr) : Except ExpressionError Unit :=
  match arguments with
  | [] => pure ()
  | first :: others =>
    let second := others.headD first
    match function with
    | .length =>
      require first [.array, .object, .string] "function `length` argument"
        "array, object, or string"
    | .contains => requireMembership second first "function `contains`"
    | .keys => require first [.object] "function `keys` argument" "object"
    | .upper | .lower =>
      let name := function.name
      require first [.string] s!"function `{name}` argument" "string"
    | .fromJson => require first [.string] "function `from_json` argument" "string"
    | .matches => do
      require first [.string] "function `matches` value" "string"
      require second [.string] "function `matches` pattern" "string"
    | .number =>
      require first [.number, .string] "function `number` argument" "number or string"
    | .json | .type | .exists | .string => pure ()

mutual

/-- `StaticTypeValidator::expression`: the operands first, then the node itself. -/
def expression : Expr → Except ExpressionError Unit
  | .literal _ | .var _ => pure ()
  | .member target _ => expression target
  | .index target position => do
    expression target
    expression position
  | .array elements => expressionList elements
  | .object entries => expressionEntries entries
  | .unary operator operand => do
    expression operand
    unary operator operand
  | .binary operator left right => do
    expression left
    expression right
    binary operator left right
  | .conditional condition thenBranch elseBranch => do
    expression condition
    expression thenBranch
    expression elseBranch
    require condition [.bool] "ternary condition" "bool"
  | .call function arguments => do
    expressionList arguments
    call function arguments
  | .group inner => expression inner

/-- The loop over an array's elements or a call's arguments. -/
def expressionList : List Expr → Except ExpressionError Unit
  | [] => pure ()
  | e :: es => do
    expression e
    expressionList es

/-- The loop over an object's values. -/
def expressionEntries : List (String × Expr) → Except ExpressionError Unit
  | [] => pure ()
  | (_, e) :: es => do
    expression e
    expressionEntries es

end

end StaticTypeValidator

/-- `static_types::validate`. -/
def validateStaticTypes (root : Expr) : Except ExpressionError Unit :=
  StaticTypeValidator.expression root

end Ryeos.Expression
