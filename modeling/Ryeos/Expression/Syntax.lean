import Ryeos.Expression.Lexer

/-!
# Expression syntax: `expression/ast.rs`

The tree the parser builds.  Spans are left out of the model: they locate errors and nothing
else.  The helpers of `parser.rs` that read a tree's root (`is_boolean_root`,
`is_coalesce_root`, `is_path_expression`) and the binding powers of `infix_operator` are here
too, beside the syntax they read.
-/

namespace Ryeos.Expression

/-- `Literal`. -/
inductive Literal where
  | null
  | bool (value : Bool)
  | string (value : String)
  | number (value : Numeric)
  deriving DecidableEq

/-- `UnaryOperator`. -/
inductive UnaryOperator where
  | not
  | plus
  | minus
  deriving DecidableEq, Repr

/-- `BinaryOperator`. -/
inductive BinaryOperator where
  | add
  | subtract
  | multiply
  | divide
  | remainder
  | equal
  | notEqual
  | less
  | lessEqual
  | greater
  | greaterEqual
  | «in»
  | and
  | or
  | coalesce
  deriving DecidableEq, Repr

/-- `BuiltinFunction`. -/
inductive BuiltinFunction where
  | length
  | contains
  | keys
  | upper
  | lower
  | json
  | fromJson
  | type
  | «exists»
  | matches
  | string
  | number
  deriving DecidableEq, Repr

namespace BuiltinFunction

/-- `BuiltinFunction::from_name`. -/
def fromName (name : String) : Option BuiltinFunction :=
  if name = "length" then some .length
  else if name = "contains" then some .contains
  else if name = "keys" then some .keys
  else if name = "upper" then some .upper
  else if name = "lower" then some .lower
  else if name = "json" then some .json
  else if name = "from_json" then some .fromJson
  else if name = "type" then some .type
  else if name = "exists" then some .exists
  else if name = "matches" then some .matches
  else if name = "string" then some .string
  else if name = "number" then some .number
  else none

/-- `BuiltinFunction::name`. -/
def name : BuiltinFunction → String
  | .length => "length"
  | .contains => "contains"
  | .keys => "keys"
  | .upper => "upper"
  | .lower => "lower"
  | .json => "json"
  | .fromJson => "from_json"
  | .type => "type"
  | .exists => "exists"
  | .matches => "matches"
  | .string => "string"
  | .number => "number"

/-- `BuiltinFunction::arity`. -/
def arity : BuiltinFunction → ℕ
  | .contains | .matches => 2
  | _ => 1

end BuiltinFunction

/-- `Expr` (its `kind`): the expression tree.  `Variable` is `var`, since `variable` is a
command of Lean. -/
inductive Expr where
  | literal (value : Literal)
  | var (name : String)
  | member (target : Expr) (key : String)
  | index (target index : Expr)
  | array (elements : List Expr)
  | object (entries : List (String × Expr))
  | unary (operator : UnaryOperator) (operand : Expr)
  | binary (operator : BinaryOperator) (left right : Expr)
  | conditional (condition thenBranch elseBranch : Expr)
  | call (function : BuiltinFunction) (arguments : List Expr)
  | group (inner : Expr)

namespace Expr

mutual

/-- The depth of a tree: its root is at depth 1. -/
def depth : Expr → ℕ
  | literal _ | var _ => 1
  | member target _ => target.depth + 1
  | index target position => max target.depth position.depth + 1
  | array elements => depthList elements + 1
  | object entries => depthEntries entries + 1
  | unary _ operand => operand.depth + 1
  | binary _ left right => max left.depth right.depth + 1
  | conditional condition thenBranch elseBranch =>
    max condition.depth (max thenBranch.depth elseBranch.depth) + 1
  | call _ arguments => depthList arguments + 1
  | group inner => inner.depth + 1

/-- The greatest depth of a list of trees. -/
def depthList : List Expr → ℕ
  | [] => 0
  | e :: es => max e.depth (depthList es)

/-- The greatest depth of the values of a list of entries. -/
def depthEntries : List (String × Expr) → ℕ
  | [] => 0
  | (_, e) :: es => max e.depth (depthEntries es)

end

end Expr

/-! ## What the parser reads off a tree's root -/

/-- `is_boolean_root`. -/
def isBooleanRoot : Expr → Bool
  | .binary .and _ _ | .binary .or _ _ => true
  | _ => false

/-- `is_coalesce_root`. -/
def isCoalesceRoot : Expr → Bool
  | .binary .coalesce _ _ => true
  | _ => false

/-- `mixes_nullish_and_boolean`: `??` directly over `&&` or `||`, or the other way round,
without parentheses. -/
def mixesNullishAndBoolean (operator : BinaryOperator) (left right : Expr) : Bool :=
  match operator with
  | .coalesce => isBooleanRoot left || isBooleanRoot right
  | .and | .or => isCoalesceRoot left || isCoalesceRoot right
  | _ => false

/-- `is_path_expression`: a variable under member, index and group nodes. -/
def isPathExpression : Expr → Bool
  | .var _ => true
  | .member target _ => isPathExpression target
  | .index target _ => isPathExpression target
  | .group inner => isPathExpression inner
  | _ => false

/-- `infix_operator`: the left and right binding powers of an infix token, and its
operator. -/
def infixOperator : TokenKind → Option (ℕ × ℕ × BinaryOperator)
  | .coalesce => some (2, 3, .coalesce)
  | .or => some (4, 5, .or)
  | .and => some (6, 7, .and)
  | .equal => some (8, 9, .equal)
  | .notEqual => some (8, 9, .notEqual)
  | .less => some (10, 11, .less)
  | .lessEqual => some (10, 11, .lessEqual)
  | .greater => some (10, 11, .greater)
  | .greaterEqual => some (10, 11, .greaterEqual)
  | .in => some (10, 11, .in)
  | .plus => some (12, 13, .add)
  | .minus => some (12, 13, .subtract)
  | .star => some (14, 15, .multiply)
  | .slash => some (14, 15, .divide)
  | .percent => some (14, 15, .remainder)
  | _ => none

end Ryeos.Expression
