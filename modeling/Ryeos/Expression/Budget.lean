import Ryeos.Core.Json
import Ryeos.Expression.Lexer

/-!
# The evaluation budget and what it charges: `expression/evaluator.rs`, `expression/limits.rs`

An evaluation runs against a `Budget`: fuel it spends, bytes it allocates and container elements
it traverses, each bounded by `EvaluationLimits`.  The model runs in `EvalM`, a state of the
budget over `Except ExpressionError`; a charge past a limit is an error of the limit phase.

The parts of the evaluator that walk JSON values and charge for it are here: cloning a borrowed
value (`clone_bounded`), checking a result's shape (`inspect_result`), deep equality and the
order of two values.  What Rust's libraries compute (the text of a double, case mapping, regular
expressions, the JSON parser) and the sizes of the types the allocation count charges for are a
`Host`, left unmodelled.
-/

namespace Ryeos.Expression

/-- `serde_json::Value`.  Without `preserve_order` its objects are `BTreeMap`s, whose members
stay in key order; `Json.insertField` is their `insert`. -/
abbrev Value := Json JsonNumber

/-- `usize::MAX`, where the source saturates. -/
def usizeMax : ℕ := 2 ^ 64 - 1

/-- `usize::saturating_add`. -/
def satAdd (a b : ℕ) : ℕ := min (a + b) usizeMax

/-- `usize::saturating_mul`. -/
def satMul (a b : ℕ) : ℕ := min (a * b) usizeMax

/-- The errors of `Value::deserialize` and of `Deserializer::end`, with their texts. -/
inductive JsonDecodeError where
  | parse (detail : String)
  | trailing (detail : String)

/-- What the evaluator takes from Rust's libraries and its target, left unmodelled. -/
structure Host where
  /-- `serde_json`'s text of a finite `f64`. -/
  formatF64 : Binary64 → String
  /-- `char::to_uppercase` and `char::to_lowercase`. -/
  toUppercase : Char → List Char
  toLowercase : Char → List Char
  /-- `RegexBuilder::new(pattern)` with the size limits, `build`, then `is_match`; an error is
  the text of the build error. -/
  regexIsMatch : String → ℕ → String → Except String Bool
  /-- `Value::deserialize` on a `serde_json::Deserializer`, then its `end`. -/
  deserializeJson : String → Except JsonDecodeError Value
  /-- `size_of::<Value>()`, `size_of::<(String, Value)>()`, `size_of::<(&String, &Value)>()`,
  `size_of::<&String>()` and `size_of::<RuntimeValue>()`. -/
  sizeOfValue : ℕ
  sizeOfEntry : ℕ
  sizeOfEntryRef : ℕ
  sizeOfKeyRef : ℕ
  sizeOfRuntimeValue : ℕ

/-- `Number::to_string`. -/
def JsonNumber.toText (host : Host) : JsonNumber → String
  | .posInt value => toString value.toNat
  | .negInt value => toString value.toInt
  | .float value => host.formatF64 value

/-- `json_type`. -/
def jsonType : Value → String
  | .null => "null"
  | .bool _ => "bool"
  | .number _ => "number"
  | .string _ => "string"
  | .array _ => "array"
  | .object _ => "object"

/-- `json_string_bytes`: the length of a string written as JSON, quotes included. -/
def jsonStringBytes (value : String) : ℕ :=
  value.toList.foldl (fun bytes c => satAdd bytes (match c with
    | '"' | '\\' | '\x08' | '\x0C' | '\n' | '\r' | '\t' => 2
    | c => if c ≤ '\x1F' then 6 else c.utf8Size)) 2

/-- `EvaluationLimits`. -/
structure EvaluationLimits where
  fuel : ℕ
  maxTraversalDepth : ℕ
  maxContainerElements : ℕ
  maxScalarBytes : ℕ
  maxRegexPatternBytes : ℕ
  maxRegexHaystackBytes : ℕ
  maxFromJsonBytes : ℕ
  maxResultDepth : ℕ
  maxResultNodes : ℕ
  maxResultBytes : ℕ
  maxProducedStringBytes : ℕ
  maxAllocationBytes : ℕ
  deriving DecidableEq, Repr

/-- `EvaluationLimits::default`. -/
def EvaluationLimits.default : EvaluationLimits where
  fuel := 200000
  maxTraversalDepth := 128
  maxContainerElements := 100000
  maxScalarBytes := 1024 * 1024
  maxRegexPatternBytes := 16 * 1024
  maxRegexHaystackBytes := 1024 * 1024
  maxFromJsonBytes := 1024 * 1024
  maxResultDepth := 128
  maxResultNodes := 100000
  maxResultBytes := 4 * 1024 * 1024
  maxProducedStringBytes := 4 * 1024 * 1024
  maxAllocationBytes := 8 * 1024 * 1024

/-- `Budget`. -/
structure Budget where
  limits : EvaluationLimits
  fuelRemaining : ℕ
  allocationBytes : ℕ
  traversedElements : ℕ

/-- `Budget::new`. -/
def Budget.new (limits : EvaluationLimits) : Budget := ⟨limits, limits.fuel, 0, 0⟩

/-- The evaluator's computations: the budget as state, over an expression error. -/
abbrev EvalM := StateT Budget (Except ExpressionError)

/-- `RuntimeValue`: a value of the context, a value the evaluation made, or a path that is
missing from the context. -/
inductive RuntimeValue where
  | borrowed (value : Value)
  | owned (value : Value)
  | missing (path : String)

namespace RuntimeValue

/-- `RuntimeValue::type_name`. -/
def typeName : RuntimeValue → String
  | missing _ => "missing"
  | borrowed value | owned value => jsonType value

/-- `RuntimeValue::as_json`. -/
def asJson : RuntimeValue → Option Value
  | borrowed value | owned value => some value
  | missing _ => none

end RuntimeValue

namespace Evaluator

/-- `Evaluator::error`. -/
def evalError (message : String) : ExpressionError := ⟨.evaluate, message, none⟩

/-- `Evaluator::limit_error`. -/
def limitError (message : String) : ExpressionError := ⟨.limit, message, none⟩

/-- `Evaluator::spend_fuel`. -/
def spendFuel (amount : ℕ) (purpose : String) : EvalM Unit := do
  let budget ← get
  if budget.fuelRemaining < amount then
    throw (limitError s!"evaluation fuel exhausted while {purpose}")
  set { budget with fuelRemaining := budget.fuelRemaining - amount }

/-- `Evaluator::allocate`: `checked_add` on the count, then the limit. -/
def allocate (bytes : ℕ) : EvalM Unit := do
  let budget ← get
  let total := budget.allocationBytes + bytes
  if total > usizeMax then throw (limitError "evaluation allocation counter overflow")
  if total > budget.limits.maxAllocationBytes then
    let maxAllocationBytes := budget.limits.maxAllocationBytes
    throw (limitError
      s!"evaluation exceeds cumulative allocation limit of {maxAllocationBytes} bytes")
  set { budget with allocationBytes := total }

/-- `Evaluator::traverse_element`. -/
def traverseElement : EvalM Unit := do
  let budget ← get
  let traversed := budget.traversedElements + 1
  set { budget with traversedElements := traversed }
  if traversed > budget.limits.maxContainerElements then
    throw (limitError "container traversal element limit exceeded")
  spendFuel 1 "traversing container element"

/-- `Evaluator::check_scalar`. -/
def checkScalar (value : String) : EvalM Unit := do
  let budget ← get
  if value.utf8ByteSize > budget.limits.maxScalarBytes then
    let length := value.utf8ByteSize
    let maxScalarBytes := budget.limits.maxScalarBytes
    throw (limitError s!"scalar is {length} bytes; limit is {maxScalarBytes}")

/-- `Evaluator::check_produced_string`. -/
def checkProducedString (bytes : ℕ) : EvalM Unit := do
  let budget ← get
  if bytes > budget.limits.maxProducedStringBytes then
    let maxProducedStringBytes := budget.limits.maxProducedStringBytes
    throw (limitError s!"produced string is {bytes} bytes; limit is {maxProducedStringBytes}")

/-- The depth test the walks over values begin with. -/
def checkTraversalDepth (depth : ℕ) (message : String) : EvalM Unit := do
  if depth > (← get).limits.maxTraversalDepth then throw (limitError message)

variable (host : Host)

mutual

/-- `Evaluator::clone_bounded`: a copy of a borrowed value, charged node by node. -/
def cloneBounded (value : Value) (depth : ℕ) : EvalM Value := do
  checkTraversalDepth depth "selected value exceeds traversal depth limit"
  spendFuel 1 "materializing selected value"
  match value with
  | .null => pure .null
  | .bool b => pure (.bool b)
  | .number n => pure (.number n)
  | .string s =>
    checkScalar s
    spendFuel s.utf8ByteSize "materializing selected string"
    allocate s.utf8ByteSize
    pure (.string s)
  | .array values =>
    allocate (values.length * host.sizeOfValue)
    let output ← cloneItems values depth []
    pure (.array output)
  | .object values =>
    allocate (satMul values.length (host.sizeOfEntry * 2))
    let output ← cloneFields values depth []
    pure (.object output)

/-- The loop of `clone_bounded` over an array, pushing onto `output`. -/
def cloneItems (values : List Value) (depth : ℕ) (output : List Value) : EvalM (List Value) :=
  match values with
  | [] => pure output
  | value :: values => do
    traverseElement
    let copy ← cloneBounded value (depth + 1)
    cloneItems values depth (output ++ [copy])

/-- The loop of `clone_bounded` over an object, inserting into `output`. -/
def cloneFields (values : List (String × Value)) (depth : ℕ) (output : List (String × Value)) :
    EvalM (List (String × Value)) :=
  match values with
  | [] => pure output
  | (key, value) :: values => do
    traverseElement
    checkScalar key
    spendFuel key.utf8ByteSize "materializing object key"
    allocate key.utf8ByteSize
    let copy ← cloneBounded value (depth + 1)
    cloneFields values depth (Json.insertField key copy output)

end

/-- `Evaluator::add_result_bytes`. -/
def addResultBytes (total amount : ℕ) : EvalM ℕ := do
  let total := satAdd total amount
  if total > (← get).limits.maxResultBytes then
    throw (limitError "result exceeds JSON byte limit")
  spendFuel amount "validating serialized result bytes"
  pure total

mutual

/-- `Evaluator::inspect_result`: a result within the depth, node and byte limits, with the
node and byte counts so far. -/
def inspectResult (value : Value) (depth nodes bytes : ℕ) : EvalM (ℕ × ℕ) := do
  if depth > (← get).limits.maxResultDepth then throw (limitError "result exceeds JSON depth limit")
  let nodes := nodes + 1
  if nodes > (← get).limits.maxResultNodes then throw (limitError "result exceeds JSON node limit")
  spendFuel 1 "validating result value"
  match value with
  | .null => pure (nodes, ← addResultBytes bytes 4)
  | .bool b => pure (nodes, ← addResultBytes bytes (if b then 4 else 5))
  | .number n => pure (nodes, ← addResultBytes bytes (n.toText host).utf8ByteSize)
  | .string s =>
    checkScalar s
    pure (nodes, ← addResultBytes bytes (jsonStringBytes s))
  | .array values =>
    let bytes ← addResultBytes bytes (satAdd 2 (values.length - 1))
    inspectItems values depth nodes bytes
  | .object values =>
    let bytes ← addResultBytes bytes (satAdd 2 (values.length - 1))
    inspectFields values depth nodes bytes

/-- The loop of `inspect_result` over an array. -/
def inspectItems (values : List Value) (depth nodes bytes : ℕ) : EvalM (ℕ × ℕ) :=
  match values with
  | [] => pure (nodes, bytes)
  | value :: values => do
    traverseElement
    let (nodes, bytes) ← inspectResult value (depth + 1) nodes bytes
    inspectItems values depth nodes bytes

/-- The loop of `inspect_result` over an object. -/
def inspectFields (values : List (String × Value)) (depth nodes bytes : ℕ) : EvalM (ℕ × ℕ) :=
  match values with
  | [] => pure (nodes, bytes)
  | (key, value) :: values => do
    traverseElement
    checkScalar key
    let bytes ← addResultBytes bytes (satAdd (jsonStringBytes key) 1)
    let (nodes, bytes) ← inspectResult value (depth + 1) nodes bytes
    inspectFields values depth nodes bytes

end

mutual

/-- `Evaluator::deep_equal_json`: numbers by value, strings and keys charged by length, arrays
and objects member by member, anything else by equality. -/
def deepEqualJson (left right : Value) (depth : ℕ) : EvalM Bool := do
  spendFuel 1 "comparing values"
  checkTraversalDepth depth "deep equality exceeds traversal depth limit"
  match left, right with
  | .number left, .number right =>
    let left ← liftExcept (Numeric.fromJson left)
    let right ← liftExcept (Numeric.fromJson right)
    pure (left.compare right == .eq)
  | .string left, .string right =>
    checkScalar left
    checkScalar right
    spendFuel (satAdd left.utf8ByteSize right.utf8ByteSize) "comparing strings"
    pure (left == right)
  | .array left, .array right =>
    if left.length ≠ right.length then pure false
    else deepEqualItems left right depth
  | .object left, .object right =>
    if left.length ≠ right.length then pure false
    else deepEqualFields left right depth
  | left, right => pure (decide (left = right))

/-- The loop of `deep_equal_json` over two arrays of the same length. -/
def deepEqualItems (left right : List Value) (depth : ℕ) : EvalM Bool :=
  match left, right with
  | l :: left, r :: right => do
    traverseElement
    if !(← deepEqualJson l r (depth + 1)) then pure false
    else deepEqualItems left right depth
  | _, _ => pure true

/-- The loop of `deep_equal_json` over the members of the left object. -/
def deepEqualFields (left : List (String × Value)) (right : List (String × Value)) (depth : ℕ) :
    EvalM Bool :=
  match left with
  | [] => pure true
  | (key, l) :: left => do
    traverseElement
    checkScalar key
    spendFuel key.utf8ByteSize "comparing object keys"
    match (Json.object right).get key with
    | none => pure false
    | some r =>
      if !(← deepEqualJson l r (depth + 1)) then pure false
      else deepEqualFields left right depth

/-- A message of `Numeric` raised as an evaluation error. -/
def liftExcept {α : Type} (x : Except String α) : EvalM α :=
  match x with
  | .ok a => pure a
  | .error message => throw (evalError message)

end

@[simp] lemma liftExcept_ok {α : Type} (a : α) : liftExcept (.ok a) = pure a := rfl

/-- `Evaluator::clone_external`: a bounded copy of a value from outside the evaluation, checked
as a result. -/
def cloneExternal (value : Value) : EvalM Value := do
  let value ← cloneBounded host value 1
  let _ ← inspectResult host value 1 0 0
  pure value

/-- `Evaluator::finish`: the value an evaluation ends with, owned and checked as a result; a
missing path is an error. -/
def finish (value : RuntimeValue) : EvalM Value := do
  let value ← match value with
    | .missing path =>
      throw { evalError s!"required path `{path}` is missing" with
        correction := some "handle an optional path with `??` or exists(...)" }
    | .borrowed value => cloneBounded host value 1
    | .owned value => pure value
  let _ ← inspectResult host value 1 0 0
  pure value

/-- `Evaluator::require_bool`. -/
def requireBool (value : RuntimeValue) (purpose : String) : Except ExpressionError Bool :=
  match value.asJson with
  | some (.bool b) => .ok b
  | _ =>
    let received := value.typeName
    .error (evalError s!"{purpose} requires bool, received {received}")

/-- `Evaluator::require_number`. -/
def requireNumber (value : RuntimeValue) (purpose : String) : Except ExpressionError Numeric :=
  match value.asJson with
  | some (.number number) =>
    match Numeric.fromJson number with
    | .ok n => .ok n
    | .error message => .error (evalError message)
  | _ =>
    let received := value.typeName
    .error (evalError s!"{purpose} requires number, received {received}")

/-- `Evaluator::own`: a value to keep, cloning a borrowed one; a missing path is an error. -/
def own (value : RuntimeValue) (purpose : String) : EvalM Value :=
  match value with
  | .borrowed value => cloneBounded host value 1
  | .owned value => pure value
  | .missing path => throw (evalError s!"{purpose} references missing path `{path}`")

/-- `Evaluator::deep_equal`: equality of two runtime values, neither missing. -/
def deepEqual (left right : RuntimeValue) (depth : ℕ) : EvalM Bool := do
  let some left := left.asJson
    | throw (evalError "equality cannot be applied to a missing path")
  let some right := right.asJson
    | throw (evalError "equality cannot be applied to a missing path")
  deepEqualJson left right depth

/-- `Evaluator::order`: numbers by value, strings character by character. -/
def order (left right : RuntimeValue) : EvalM Ordering :=
  match left.asJson, right.asJson with
  | some (.number l), some (.number r) => do
    let l ← liftExcept (Numeric.fromJson l)
    let r ← liftExcept (Numeric.fromJson r)
    pure (l.compare r)
  | some (.string l), some (.string r) => do
    checkScalar l
    checkScalar r
    spendFuel (satAdd l.utf8ByteSize r.utf8ByteSize) "ordering strings"
    pure (compare l.toList r.toList)
  | _, _ =>
    let leftType := left.typeName
    let rightType := right.typeName
    throw (evalError
      s!"ordering requires number/number or string/string; received {leftType}/{rightType}")

/-! ## Numbers compare by their exact values -/

lemma compare_beq_eq_decide {α : Type} [LinearOrder α] (x y : α) :
    (compare x y == .eq) = decide (x = y) :=
  Bool.eq_iff_iff.mpr (by simp)

/-- `Numeric::compare` orders two numbers as the rationals they denote, and so do `order` and the
number arm of `deep_equal_json`, which ask it of the numbers read from JSON. -/
theorem numeric_compare_is_exact {l r : JsonNumber} {a b : Numeric}
    (hl : Numeric.fromJson l = .ok a) (hr : Numeric.fromJson r = .ok b) (depth : ℕ) :
    a.compare b = compare a.value b.value ∧
      order (.owned (.number l)) (.owned (.number r)) = pure (compare a.value b.value) ∧
      deepEqualJson (.number l) (.number r) depth =
        (do
          spendFuel 1 "comparing values"
          checkTraversalDepth depth "deep equality exceeds traversal depth limit"
          pure (decide (a.value = b.value))) := by
  have hcompare := Numeric.compare_eq a b
  refine ⟨hcompare, ?_, ?_⟩
  · simp [order, RuntimeValue.asJson, hl, hr, hcompare]
  · rw [deepEqualJson]
    simp [hl, hr, hcompare, compare_beq_eq_decide]

/-- `1 == 1.0`: the integer one read from JSON and the double one compare equal. -/
theorem integer_one_compares_equal_to_decimal_one :
    Numeric.fromJson (.posInt 1) = .ok (.signed (Int64.ofInt 1)) ∧
      Numeric.fromJson (.float (Binary64.pow2 0 (by norm_num))) =
        .ok (.decimal (Binary64.pow2 0 (by norm_num))) ∧
      (Numeric.signed (Int64.ofInt 1)).compare (.decimal (Binary64.pow2 0 (by norm_num))) = .eq := by
  have hl : Numeric.fromJson (.posInt 1) = .ok (.signed (Int64.ofInt 1)) := by decide
  have hr : Numeric.fromJson (.float (Binary64.pow2 0 (by norm_num))) =
      .ok (.decimal (Binary64.pow2 0 (by norm_num))) := rfl
  refine ⟨hl, hr, ?_⟩
  rw [(numeric_compare_is_exact hl hr 1).1, compare_eq_iff_eq]
  simp only [Numeric.value, Binary64.toRat_pow2]
  decide

end Evaluator

end Ryeos.Expression
