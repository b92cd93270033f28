import Ryeos.Expression.Functions

/-!
# The evaluator: `expression/evaluator.rs`

`evaluate` walks a tree, spending one unit of fuel for every node, and returns a
`RuntimeValue`: a value borrowed from the context, a value the evaluation built, or the text of
a path the context lacks.  A missing path flows through member and index nodes and `??`; the
operators that need a value refuse it.

Each node's own function (`member`, `index`, `array`, `object`, `unary`, `binary`) takes the
evaluations of its subtrees as computations and runs them where the source calls
`self.evaluate`, so that the recursion is structural on the tree while each function keeps its
source's order of charges.
-/

namespace Ryeos.Expression

/-- `ContextView`: the roots are the members of a JSON value, which must be an object, or the
map of an `EvaluationContext`. -/
inductive ContextView where
  | value (value : Value)
  | roots (roots : List (String × Value))

/-- `ContextView::get`. -/
def ContextView.get (context : ContextView) (root : String) : Except String (Option Value) :=
  match context with
  | .value (.object object) => .ok ((Json.object object).get root)
  | .value _ => .error "expression context must be an object"
  | .roots map => .ok (map.lookup root)

/-- `path_text_len`: the bytes of `write_path_text`, saturating. -/
def pathTextLen : Expr → ℕ
  | .var root => root.utf8ByteSize
  | .member target key => satAdd (satAdd (pathTextLen target) 1) key.utf8ByteSize
  | .index target _ => satAdd (pathTextLen target) 3
  | .group inner => pathTextLen inner
  | _ => "<expression>".utf8ByteSize

/-- `write_path_text`: the path a tree names, a dynamic index written `[?]`. -/
def writePathText : Expr → String
  | .var root => root
  | .member target key => writePathText target ++ "." ++ key
  | .index target _ => writePathText target ++ "[?]"
  | .group inner => writePathText inner
  | _ => "<expression>"

namespace Evaluator

variable (host : Host) (context : ContextView)

/-- `Evaluator::literal`. -/
def literal : Literal → EvalM RuntimeValue
  | .null => pure (.owned .null)
  | .bool value => pure (.owned (.bool value))
  | .string value => do
    checkScalar value
    allocate value.utf8ByteSize
    pure (.owned (.string value))
  | .number value => do
    let number ← liftExcept value.toJson
    pure (.owned (.number number))

/-- `Evaluator::variable`: a root of the context, or the missing path that names it. -/
def «variable» (name : String) : EvalM RuntimeValue := do
  checkScalar name
  spendFuel name.utf8ByteSize "looking up context root"
  match ← liftExcept (context.get name) with
  | some value => pure (.borrowed value)
  | none =>
    allocate name.utf8ByteSize
    pure (.missing name)

/-- `Evaluator::extend_missing`: a missing path grown by one segment. -/
def extendMissing (path separator suffix : String) : EvalM RuntimeValue := do
  allocate (satAdd separator.utf8ByteSize suffix.utf8ByteSize)
  pure (.missing (path ++ separator ++ suffix))

/-- `Evaluator::expression_missing`: the path of a target that is null or lacks the segment. -/
def expressionMissing (target : Expr) (separator suffix : String) : EvalM RuntimeValue := do
  allocate (satAdd (satAdd (pathTextLen target) separator.utf8ByteSize) suffix.utf8ByteSize)
  pure (.missing (writePathText target ++ separator ++ suffix))

/-- `Evaluator::array_position`. -/
def arrayPosition : Value → EvalM (Option ℕ)
  | .number number => do
    let numeric ← liftExcept (Numeric.fromJson number)
    liftExcept numeric.asArrayIndex
  | _ => throw (evalError "array index must be a non-negative integer")

/-- `Evaluator::validate_unknown_target_index`: under a missing or null target, an index that
no container could take is still an error. -/
def validateUnknownTargetIndex : Value → EvalM Unit
  | .string key => do
    checkScalar key
    spendFuel key.utf8ByteSize "validating object index"
  | .number number => do
    let _ ← arrayPosition (.number number)
  | _ => throw (evalError "dynamic index must be a string or non-negative integer")

/-- `Evaluator::member`: the segment is charged before the target is evaluated. -/
def member (target : Expr) (key : String) (evaluateTarget : EvalM RuntimeValue) :
    EvalM RuntimeValue := do
  spendFuel 1 "traversing path segment"
  checkScalar key
  spendFuel key.utf8ByteSize "looking up object field"
  match ← evaluateTarget with
  | .missing path => extendMissing path "." key
  | .borrowed .null | .owned .null => expressionMissing target "." key
  | .borrowed (.object object) =>
    match (Json.object object).get key with
    | some value => pure (.borrowed value)
    | none => expressionMissing target "." key
  -- `object.remove(key)` takes the member out of the owned map
  | .owned (.object object) =>
    match (Json.object object).get key with
    | some value => pure (.owned value)
    | none => expressionMissing target "." key
  | value =>
    let received := value.typeName
    throw (evalError s!"cannot access field `{key}` on {received}; expected object")

/-- `Evaluator::index`: the target, then the index; an owned array is charged for the elements
up to the position. -/
def index (target : Expr) (evaluateTarget evaluateIndex : EvalM RuntimeValue) :
    EvalM RuntimeValue := do
  spendFuel 1 "traversing dynamic index"
  let targetValue ← evaluateTarget
  let indexValue ← evaluateIndex
  let some indexJson := indexValue.asJson
    | throw (evalError "dynamic index expression resolved to missing")
  match targetValue with
  | .missing path =>
    validateUnknownTargetIndex indexJson
    extendMissing path "[?]" ""
  | .borrowed .null | .owned .null =>
    validateUnknownTargetIndex indexJson
    expressionMissing target "[?]" ""
  | .borrowed (.array array) =>
    let position ← arrayPosition indexJson
    match position.bind (array[·]?) with
    | some value => pure (.borrowed value)
    | none => expressionMissing target "[?]" ""
  | .owned (.array array) =>
    let position ← arrayPosition indexJson
    if let some position := position then
      Functions.chargeElements (min array.length (satAdd position 1))
    match position.bind (array[·]?) with
    | some value => pure (.owned value)
    | none => expressionMissing target "[?]" ""
  | .borrowed (.object object) =>
    let some key := indexJson.asStr | throw (evalError "object index must evaluate to a string")
    checkScalar key
    spendFuel key.utf8ByteSize "looking up object key"
    match (Json.object object).get key with
    | some value => pure (.borrowed value)
    | none => expressionMissing target "[?]" ""
  | .owned (.object object) =>
    let some key := indexJson.asStr | throw (evalError "object index must evaluate to a string")
    checkScalar key
    spendFuel key.utf8ByteSize "looking up object key"
    match (Json.object object).get key with
    | some value => pure (.owned value)
    | none => expressionMissing target "[?]" ""
  | value =>
    let received := value.typeName
    throw (evalError s!"cannot index {received}; expected array or object")

/-- `Evaluator::array`: the elements' slots, then the elements. -/
def array (elementCount : ℕ) (evaluateElements : EvalM (List Value)) : EvalM RuntimeValue := do
  allocate (elementCount * host.sizeOfValue)
  let output ← evaluateElements
  pure (.owned (.array output))

/-- `Evaluator::object`: the entries' slots, then the entries. -/
def object (entryCount : ℕ) (evaluateEntries : EvalM (List (String × Value))) :
    EvalM RuntimeValue := do
  allocate (satMul entryCount (host.sizeOfEntry * 2))
  let output ← evaluateEntries
  pure (.owned (.object output))

/-- `Evaluator::unary`. -/
def unary (operator : UnaryOperator) (evaluateOperand : EvalM RuntimeValue) :
    EvalM RuntimeValue := do
  let value ← evaluateOperand
  match operator with
  | .not => pure (.owned (.bool !(← requireBool value "operator `!`")))
  | .plus | .minus =>
    let number ← requireNumber value "unary numeric operator"
    let result ← liftExcept (if operator = .plus then number.positive else number.negate)
    let number ← liftExcept result.toJson
    pure (.owned (.number number))

/-- `Evaluator::numeric_binary`, given the operator's `Numeric` operation.  An operand that is
not a number is reported with both operands' types. -/
def numericBinary (operation : Numeric → Numeric → Except String Numeric)
    (left right : RuntimeValue) : Except ExpressionError RuntimeValue := do
  let leftType := left.typeName
  let rightType := right.typeName
  let refused :=
    evalError s!"numeric operator requires numbers; received {leftType} and {rightType}"
  let left ← (requireNumber left "numeric operator").mapError fun _ => refused
  let right ← (requireNumber right "numeric operator").mapError fun _ => refused
  let result ← (operation left right).mapError evalError
  let number ← result.toJson.mapError evalError
  pure (.owned (.number number))

/-- `Evaluator::add`: two strings concatenate; anything else is numeric addition. -/
def add (left right : RuntimeValue) : EvalM RuntimeValue :=
  match left.asJson, right.asJson with
  | some (.string leftText), some (.string rightText) => do
    checkScalar leftText
    checkScalar rightText
    let length := leftText.utf8ByteSize + rightText.utf8ByteSize
    if length > usizeMax then throw (limitError "string concatenation length overflow")
    spendFuel length "concatenating strings"
    checkProducedString length
    allocate length
    pure (.owned (.string (leftText ++ rightText)))
  | _, _ => monadLift (numericBinary Numeric.add left right)

/-- `Evaluator::binary`: `&&`, `||` and `??` evaluate their right operand only when the left
one does not decide; every other operator evaluates both, left first. -/
def binary (operator : BinaryOperator) (evaluateLeft evaluateRight : EvalM RuntimeValue) :
    EvalM RuntimeValue :=
  let operands : EvalM (RuntimeValue × RuntimeValue) := do
    let leftValue ← evaluateLeft
    let rightValue ← evaluateRight
    pure (leftValue, rightValue)
  let arithmetic (operation : Numeric → Numeric → Except String Numeric) := do
    let (leftValue, rightValue) ← operands
    monadLift (numericBinary operation leftValue rightValue)
  let equality (equal : Bool) := do
    let (leftValue, rightValue) ← operands
    let same ← deepEqual leftValue rightValue 1
    pure (.owned (.bool (if equal then same else !same)))
  let comparison (test : Ordering → Bool) := do
    let (leftValue, rightValue) ← operands
    let ordering ← order leftValue rightValue
    pure (.owned (.bool (test ordering)))
  match operator with
  | .and => do
    let leftValue ← evaluateLeft
    if !(← requireBool leftValue "operator `&&`") then return .owned (.bool false)
    let rightValue ← evaluateRight
    return .owned (.bool (← requireBool rightValue "operator `&&`"))
  | .or => do
    let leftValue ← evaluateLeft
    if ← requireBool leftValue "operator `||`" then return .owned (.bool true)
    let rightValue ← evaluateRight
    return .owned (.bool (← requireBool rightValue "operator `||`"))
  | .coalesce => do
    let leftValue ← evaluateLeft
    match leftValue with
    | .missing _ | .borrowed .null | .owned .null => evaluateRight
    | _ => pure leftValue
  | .add => do
    let (leftValue, rightValue) ← operands
    add leftValue rightValue
  | .subtract => arithmetic Numeric.subtract
  | .multiply => arithmetic Numeric.multiply
  | .divide => arithmetic Numeric.divide
  | .remainder => arithmetic Numeric.remainder
  | .equal => equality true
  | .notEqual => equality false
  | .less => comparison (· == .lt)
  | .lessEqual => comparison (· != .gt)
  | .greater => comparison (· == .gt)
  | .greaterEqual => comparison (· != .lt)
  -- `left in right` asks whether the right operand contains the left one
  | .in => do
    let (leftValue, rightValue) ← operands
    Functions.containsValues rightValue leftValue

mutual

/-- `Evaluator::evaluate`: a unit of fuel for the node, then the node's own function. -/
def evaluate (expression : Expr) : EvalM RuntimeValue := do
  spendFuel 1 "evaluating expression node"
  match expression with
  | .literal value => literal value
  | .var name => «variable» context name
  | .member target key => member target key (evaluate target)
  | .index target position => index target (evaluate target) (evaluate position)
  | .array elements => array host elements.length (arrayElements elements)
  | .object entries => object host entries.length (objectEntries entries [])
  | .unary operator operand => unary operator (evaluate operand)
  | .binary operator left right => binary operator (evaluate left) (evaluate right)
  | .conditional condition thenBranch elseBranch => do
    let conditionValue ← evaluate condition
    if ← requireBool conditionValue "ternary condition" then evaluate thenBranch
    else evaluate elseBranch
  | .call function arguments =>
    Functions.call host function arguments.length (firstArgument arguments)
      (callArguments function arguments)
  | .group inner => evaluate inner

/-- The loop of `Evaluator::array`: each element evaluated and kept, in order. -/
def arrayElements : List Expr → EvalM (List Value)
  | [] => pure []
  | element :: elements => do
    let evaluated ← evaluate element
    let value ← own host evaluated "array element"
    let output ← arrayElements elements
    pure (value :: output)

/-- The loop of `Evaluator::object`: each key charged, its value evaluated, kept and inserted. -/
def objectEntries : List (String × Expr) → List (String × Value) →
    EvalM (List (String × Value))
  | [], output => pure output
  | (key, expression) :: entries, output => do
    checkScalar key
    allocate key.utf8ByteSize
    let evaluated ← evaluate expression
    let value ← own host evaluated "object value"
    objectEntries entries (Json.insertField key value output)

/-- `arguments[0]` of `functions::call`, evaluated, for `exists`. -/
def firstArgument : List Expr → EvalM RuntimeValue
  | [] => throw (Functions.indexPanic 0 0)
  | argument :: _ => evaluate argument

/-- The argument loop of `functions::call`: a missing argument is an error that names the
function. -/
def callArguments (function : BuiltinFunction) : List Expr → EvalM (List RuntimeValue)
  | [] => pure []
  | argument :: arguments => do
    let value ← evaluate argument
    if let .missing path := value then
      let name := function.name
      throw (evalError s!"function `{name}` received missing path `{path}`")
    let values ← callArguments function arguments
    pure (value :: values)

end

end Evaluator

end Ryeos.Expression
