import Ryeos.Expression.Budget
import Ryeos.Expression.Syntax

/-!
# The builtin functions: `expression/functions.rs`

Each builtin takes the values of its arguments, already evaluated and none of them missing, and
charges the budget for the work it does.  `call` is given the evaluation of its arguments as
computations (the first argument alone, for `exists`, and the loop over all of them), which the
evaluator builds from the call's argument trees; it runs them where the source evaluates.
-/

namespace Ryeos.Expression

/-- `Numeric::canonical`: an integer's decimal digits, or `serde_json`'s text of a finite
double. -/
def Numeric.canonical (host : Host) : Numeric → Except String String
  | .signed value => .ok (toString value.toInt)
  | .unsigned value => .ok (toString value.toNat)
  | .decimal value => .ok (host.formatF64 value)

namespace Functions

open Evaluator

variable (host : Host)

/-- `charge_elements`. -/
def chargeElements : ℕ → EvalM Unit
  | 0 => pure ()
  | count + 1 => do
    traverseElement
    chargeElements count

/-- `push_bounded`: append to the output within the produced-string limit, charging its
bytes. -/
def pushBounded (output value : String) : EvalM String := do
  checkProducedString (satAdd output.utf8ByteSize value.utf8ByteSize)
  allocate value.utf8ByteSize
  pure (output ++ value)

/-- A hexadecimal digit of `push_json_string`'s `\u` escapes. -/
def hexDigit (n : ℕ) : Char := "0123456789abcdef".toList.getD (n % 16) '0'

/-- The JSON text of one character of a string. -/
def escapeCharacter (c : Char) : String :=
  match c with
  | '"' => "\\\""
  | '\\' => "\\\\"
  | '\x08' => "\\b"
  | '\x0C' => "\\f"
  | '\n' => "\\n"
  | '\r' => "\\r"
  | '\t' => "\\t"
  | c =>
    if c ≤ '\x1F' then
      String.ofList ['\\', 'u', hexDigit (c.toNat / 4096), hexDigit (c.toNat / 256),
        hexDigit (c.toNat / 16), hexDigit c.toNat]
    else String.ofList [c]

/-- The loop of `push_json_string` over the characters. -/
def pushEscaped (output : String) : List Char → EvalM String
  | [] => pure output
  | c :: cs => do
    let output ← pushBounded output (escapeCharacter c)
    pushEscaped output cs

/-- `push_json_string`: a string in quotes, escaped. -/
def pushJsonString (value output : String) : EvalM String := do
  let output ← pushBounded output "\""
  let output ← pushEscaped output value.toList
  pushBounded output "\""

mutual

/-- `canonical_json`: compact JSON with every object's members sorted by key, charged as it is
written. -/
def canonicalJson (value : Value) (depth : ℕ) (output : String) : EvalM String := do
  checkTraversalDepth depth "JSON serialization depth limit exceeded"
  spendFuel 1 "serializing JSON"
  let output ← match value with
    | .null => pushBounded output "null"
    | .bool b => pushBounded output (if b then "true" else "false")
    | .number number => do
      let numeric ← liftExcept (Numeric.fromJson number)
      let rendered ← liftExcept (numeric.canonical host)
      allocate rendered.utf8ByteSize
      pushBounded output rendered
    | .string s => do
      checkScalar s
      spendFuel s.utf8ByteSize "serializing string"
      pushJsonString s output
    | .array values => do
      let output ← pushBounded output "["
      let output ← canonicalItems values depth 0 output
      pushBounded output "]"
    | .object values => do
      let output ← pushBounded output "\x7b"
      allocate (satMul values.length host.sizeOfEntryRef)
      let entries := values.mergeSort fun a b => decide (a.1 ≤ b.1)
      chargeElements entries.length
      let output ← canonicalFields entries depth 0 output
      pushBounded output "\x7d"
  checkProducedString output.utf8ByteSize
  pure output
termination_by sizeOf value
decreasing_by
  all_goals simp_wf
  -- the sorted members of an object are its members
  all_goals (try rw [Json.sizeOf_perm (List.mergeSort_perm _ _)]); omega

/-- The loop of `canonical_json` over an array, from position `index`. -/
def canonicalItems (values : List Value) (depth index : ℕ) (output : String) : EvalM String :=
  match values with
  | [] => pure output
  | value :: values => do
    traverseElement
    let output ← if index > 0 then pushBounded output "," else pure output
    let output ← canonicalJson value (depth + 1) output
    canonicalItems values depth (index + 1) output
termination_by sizeOf values

/-- The loop of `canonical_json` over an object's sorted members, from position `index`. -/
def canonicalFields (entries : List (String × Value)) (depth index : ℕ) (output : String) :
    EvalM String :=
  match entries with
  | [] => pure output
  | (key, value) :: entries => do
    let output ← if index > 0 then pushBounded output "," else pure output
    checkScalar key
    spendFuel key.utf8ByteSize "serializing object key"
    let output ← pushJsonString key output
    let output ← pushBounded output ":"
    let output ← canonicalJson value (depth + 1) output
    canonicalFields entries depth (index + 1) output
termination_by sizeOf entries

end

/-- The numeric of a length: `Signed` when it fits `i64`. -/
def lengthNumeric (length : ℕ) : Numeric :=
  if (length : ℤ) ≤ i64Max then .signed (Int64.ofNat length) else .unsigned (UInt64.ofNat length)

/-- `length`: the elements of an array or an object, or the characters of a string. -/
def length (value : RuntimeValue) : EvalM RuntimeValue := do
  let count ← match value.asJson with
    | some (.array values) => do
      chargeElements values.length
      pure values.length
    | some (.object values) => do
      chargeElements values.length
      pure values.length
    | some (.string s) => do
      checkScalar s
      spendFuel s.utf8ByteSize "counting string length"
      pure s.length
    | _ =>
      let received := value.typeName
      throw (evalError
        s!"length(...) requires array, object, or string; received {received}")
  let number ← liftExcept (lengthNumeric count).toJson
  pure (.owned (.number number))

/-- The array loop of `contains_values`: the first element deeply equal to the needle. -/
def containsItem (needle : Value) : List Value → EvalM Bool
  | [] => pure false
  | value :: values => do
    traverseElement
    if ← deepEqualJson value needle 1 then pure true
    else containsItem needle values

/-- `contains_values`: an element of an array, a key of an object, or a substring of a
string. -/
def containsValues (container needle : RuntimeValue) : EvalM RuntimeValue := do
  let result ← match container.asJson with
    | some (.array values) => do
      let some needle := needle.asJson
        | throw (evalError "array membership needle is missing")
      containsItem needle values
    | some (.object values) => do
      let some (.string key) := needle.asJson
        | throw (evalError "object membership requires a string key")
      checkScalar key
      spendFuel key.utf8ByteSize "checking object membership"
      pure ((Json.object values).get key).isSome
    | some (.string haystack) => do
      let some (.string needle) := needle.asJson
        | throw (evalError "string membership requires a string needle")
      checkScalar haystack
      checkScalar needle
      spendFuel (satAdd haystack.utf8ByteSize needle.utf8ByteSize) "checking string membership"
      pure (decide (needle.toList <:+: haystack.toList))
    | _ =>
      let received := container.typeName
      throw (evalError
        s!"membership requires array, object, or string container; received {received}")
  pure (.owned (.bool result))

/-- The key loop of `keys`: every key within the scalar and produced-string limits, and the
total of their bytes. -/
def chargeKeys (bytes : ℕ) : List String → EvalM ℕ
  | [] => pure bytes
  | key :: keys => do
    checkScalar key
    checkProducedString key.utf8ByteSize
    spendFuel key.utf8ByteSize "copying object key"
    chargeKeys (satAdd bytes key.utf8ByteSize) keys

/-- `keys`: an object's keys, sorted. -/
def keys (value : RuntimeValue) : EvalM RuntimeValue := do
  let some (.object object) := value.asJson | throw (evalError "keys(...) requires object")
  chargeElements object.length
  let bytes ← chargeKeys 0 (object.map (·.1))
  allocate (satAdd bytes (satMul object.length (satAdd host.sizeOfKeyRef host.sizeOfValue)))
  let sorted := (object.map (·.1)).mergeSort fun a b => decide (a ≤ b)
  pure (.owned (.array (sorted.map .string)))

/-- `push_case_character`. -/
def pushCaseCharacter (output : String) (c : Char) : EvalM String := do
  checkProducedString (satAdd output.utf8ByteSize c.utf8Size)
  allocate c.utf8Size
  pure (output.push c)

/-- The loops of `case`: each character's mapping, pushed one character at a time. -/
def pushMapped (output : String) : List Char → EvalM String
  | [] => pure output
  | c :: cs => do
    let output ← pushCaseCharacter output c
    pushMapped output cs

/-- `case`: `upper` or `lower`. -/
def case (value : RuntimeValue) (upper : Bool) : EvalM RuntimeValue := do
  let some (.string s) := value.asJson
    | throw (evalError (if upper then "upper(...) requires string" else "lower(...) requires string"))
  checkScalar s
  spendFuel s.utf8ByteSize "converting string case"
  let mapped := s.toList.flatMap fun c => if upper then host.toUppercase c else host.toLowercase c
  let output ← pushMapped "" mapped
  pure (.owned (.string output))

/-- `stringify_json`: `json(...)`. -/
def stringifyJson (value : RuntimeValue) : EvalM RuntimeValue := do
  let some value := value.asJson | throw (evalError "string conversion received missing path")
  let output ← canonicalJson host value 1 ""
  checkProducedString output.utf8ByteSize
  pure (.owned (.string output))

/-- `stringify_explicit`: `string(...)`; a string stays as it is, containers become JSON. -/
def stringifyExplicit (value : RuntimeValue) : EvalM RuntimeValue := do
  let some value := value.asJson | throw (evalError "string conversion received missing path")
  let output ← match value with
    | .string s => do
      checkScalar s
      checkProducedString s.utf8ByteSize
      allocate s.utf8ByteSize
      pure s
    | .null => do
      checkProducedString 4
      allocate 4
      pure "null"
    | .bool b => do
      let output := if b then "true" else "false"
      checkProducedString output.utf8ByteSize
      allocate output.utf8ByteSize
      pure output
    | .number number => do
      let output ← liftExcept (Numeric.fromJson number >>= Numeric.canonical host)
      checkProducedString output.utf8ByteSize
      allocate output.utf8ByteSize
      pure output
    | .array _ | .object _ => canonicalJson host value 1 ""
  checkProducedString output.utf8ByteSize
  pure (.owned (.string output))

/-- `from_json`: parse a string as JSON within the limits, and keep a bounded copy. -/
def fromJson (value : RuntimeValue) : EvalM RuntimeValue := do
  let some (.string source) := value.asJson | throw (evalError "from_json(...) requires string")
  let budget ← get
  if source.utf8ByteSize > budget.limits.maxFromJsonBytes then
    let length := source.utf8ByteSize
    let maxFromJsonBytes := budget.limits.maxFromJsonBytes
    throw (limitError s!"from_json input is {length} bytes; limit is {maxFromJsonBytes}")
  spendFuel source.utf8ByteSize "parsing JSON"
  allocate (satMul source.utf8ByteSize 64)
  let parsed ← match host.deserializeJson source with
    | .ok parsed => pure parsed
    | .error (.parse detail) => throw (evalError s!"from_json parse failed: {detail}")
    | .error (.trailing detail) => throw (evalError s!"from_json trailing content: {detail}")
  let bounded ← cloneExternal host parsed
  pure (.owned bounded)

/-- `matches_regex`: the pattern and haystack within their limits, and the compiled program's
reservation within what is left of the allocation limit. -/
def matchesRegex (value pattern : RuntimeValue) : EvalM RuntimeValue := do
  let some (.string haystack) := value.asJson | throw (evalError "matches value must be string")
  let some (.string pattern) := pattern.asJson | throw (evalError "matches pattern must be string")
  let budget ← get
  if pattern.utf8ByteSize > budget.limits.maxRegexPatternBytes then
    throw (limitError "regex pattern byte limit exceeded")
  if haystack.utf8ByteSize > budget.limits.maxRegexHaystackBytes then
    throw (limitError "regex haystack byte limit exceeded")
  spendFuel (satAdd pattern.utf8ByteSize haystack.utf8ByteSize) "matching regex"
  let budget ← get
  let remaining := budget.limits.maxAllocationBytes - budget.allocationBytes
  let compiledLimit := max (satMul pattern.utf8ByteSize 64) (256 * 1024)
  let reservation := satMul compiledLimit 2
  if reservation > remaining then throw (limitError "regex compilation allocation limit exceeded")
  allocate reservation
  match host.regexIsMatch pattern compiledLimit haystack with
  | .ok matched => pure (.owned (.bool matched))
  | .error detail => throw (evalError s!"invalid regex pattern: {detail}")

/-- `number`: a number as it is, or a numeric string parsed. -/
def number (value : RuntimeValue) : EvalM RuntimeValue := do
  let numeric ← match value.asJson with
    | some (.number number) => liftExcept (Numeric.fromJson number)
    | some (.string s) => do
      checkScalar s
      spendFuel s.utf8ByteSize "parsing numeric string"
      liftExcept (Numeric.parseString s)
    | _ =>
      let received := value.typeName
      throw (evalError
        s!"number(...) requires number or numeric string; received {received}")
  let number ← liftExcept numeric.toJson
  pure (.owned (.number number))

/-- The panic of `values[position]` past the end of a slice, which the model reports as an
error with the text Rust prints.  The parser checks every call's arity, so a parsed tree never
reaches it. -/
def indexPanic (length position : ℕ) : ExpressionError :=
  evalError s!"index out of bounds: the len is {length} but the index is {position}"

/-- `values[position]`. -/
def argumentAt (values : List RuntimeValue) (position : ℕ) : EvalM RuntimeValue :=
  match values[position]? with
  | some value => pure value
  | none => throw (indexPanic values.length position)

/-- `functions::call`: `exists` evaluates its argument and asks whether it is present; every
other builtin evaluates all its arguments, none of them missing, and applies itself. -/
def call (function : BuiltinFunction) (argumentCount : ℕ) (evaluateFirst : EvalM RuntimeValue)
    (evaluateArguments : EvalM (List RuntimeValue)) : EvalM RuntimeValue := do
  if function = .exists then
    let value ← evaluateFirst
    return .owned (.bool (match value with
      | .borrowed _ | .owned _ => true
      | .missing _ => false))
  allocate (argumentCount * host.sizeOfRuntimeValue)
  let values ← evaluateArguments
  match function with
  | .length => length (← argumentAt values 0)
  | .contains => containsValues (← argumentAt values 0) (← argumentAt values 1)
  | .keys => keys host (← argumentAt values 0)
  | .upper => case host (← argumentAt values 0) true
  | .lower => case host (← argumentAt values 0) false
  | .json => stringifyJson host (← argumentAt values 0)
  | .string => stringifyExplicit host (← argumentAt values 0)
  | .fromJson => fromJson host (← argumentAt values 0)
  | .type => do
    let name := (← argumentAt values 0).typeName
    checkProducedString name.utf8ByteSize
    allocate name.utf8ByteSize
    pure (.owned (.string name))
  | .matches => matchesRegex host (← argumentAt values 0) (← argumentAt values 1)
  | .number => number (← argumentAt values 0)
  -- `exists` returned above
  | .exists => throw (evalError "internal error: entered unreachable code")

end Functions

end Ryeos.Expression
