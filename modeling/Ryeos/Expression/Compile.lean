import Ryeos.Expression.Parser
import Ryeos.Expression.StaticTypes
import Ryeos.Expression.Evaluator

/-!
# Compiling and evaluating expressions: `expression/mod.rs`, `expression/references.rs`

`compile_expression` lexes, parses and checks the static types of a source, and records the
context paths the tree reads.  An `EvaluationSession` evaluates compiled expressions against a
context under one budget.  The field name the source threads into errors is left out, as the
errors are.
-/

namespace Ryeos.Expression

/-! ## References -/

/-- `ReferenceSegment`. -/
inductive ReferenceSegment where
  | key (key : String)
  | index (value : UInt64)
  | dynamic
  deriving DecidableEq, Ord, Repr

/-- `Reference`: a context root and the segments under it.  The derived order is the source's
derived `Ord`: by root, then segment by segment. -/
structure Reference where
  root : String
  segments : List ReferenceSegment
  deriving DecidableEq, Ord, Repr

/-- `ReferenceSet`: a `BTreeSet` of references, as its list of members in order. -/
structure ReferenceSet where
  references : List Reference := []
  deriving DecidableEq, Repr

namespace ReferenceSet

/-- `BTreeSet::insert` into the ordered members. -/
def insertInto (reference : Reference) : List Reference → List Reference
  | [] => [reference]
  | other :: others =>
    match compare reference other with
    | .lt => reference :: other :: others
    | .eq => other :: others
    | .gt => other :: insertInto reference others

/-- `BTreeSet::insert`. -/
def insert (set : ReferenceSet) (reference : Reference) : ReferenceSet :=
  ⟨insertInto reference set.references⟩

/-- `ReferenceSet::extend`. -/
def extend (set other : ReferenceSet) : ReferenceSet :=
  other.references.foldl insert set

end ReferenceSet

namespace References

/-- `static_index_segment`: a literal key or non-negative integer, under any groups. -/
def staticIndexSegment : Expr → Option ReferenceSegment
  | .literal (.string key) => some (.key key)
  | .literal (.number (.signed value)) =>
    if 0 ≤ value.toInt then some (.index value.toUInt64) else none
  | .literal (.number (.unsigned value)) => some (.index value)
  | .group inner => staticIndexSegment inner
  | _ => none

/-- `descend` of `path`: the root of a path expression, its segments from the root, and its
dynamic index expressions in the same order. -/
def descend : Expr → Option (String × List ReferenceSegment × List Expr)
  | .var root => some (root, [], [])
  | .member target key => do
    let (root, segments, dynamic) ← descend target
    pure (root, segments ++ [.key key], dynamic)
  | .index target position => do
    let (root, segments, dynamic) ← descend target
    match staticIndexSegment position with
    | some segment => pure (root, segments ++ [segment], dynamic)
    | none => pure (root, segments ++ [.dynamic], dynamic ++ [position])
  | .group inner => descend inner
  | _ => none

/-- The dynamic index expressions of a path are parts of it. -/
lemma sizeOf_lt_of_mem_descend :
    ∀ {expression : Expr} {root : String} {segments : List ReferenceSegment}
      {dynamic : List Expr}, descend expression = some (root, segments, dynamic) →
      ∀ position ∈ dynamic, sizeOf position < sizeOf expression
  | .var _, _, _, _, h, position, hmem => by
    simp only [descend, Option.some.injEq, Prod.mk.injEq] at h
    obtain ⟨-, -, rfl⟩ := h
    simp at hmem
  | .member target key, _, _, _, h, position, hmem => by
    simp only [descend, Option.bind_eq_bind, Option.bind_eq_some_iff] at h
    obtain ⟨⟨root, segments, dynamic⟩, htarget, h⟩ := h
    simp only [Option.pure_def, Option.some.injEq, Prod.mk.injEq] at h
    obtain ⟨-, -, rfl⟩ := h
    have := sizeOf_lt_of_mem_descend htarget position hmem
    simp only [Expr.member.sizeOf_spec]
    omega
  | .index target index, _, _, _, h, position, hmem => by
    simp only [descend, Option.bind_eq_bind, Option.bind_eq_some_iff] at h
    obtain ⟨⟨root, segments, dynamic⟩, htarget, h⟩ := h
    have hindex : sizeOf index < sizeOf (Expr.index target index) := by
      simp only [Expr.index.sizeOf_spec]
      omega
    -- the position is the new dynamic index, or one of the target's
    have hmem : position ∈ dynamic ∨ position = index := by
      split at h <;>
        simp only [Option.pure_def, Option.some.injEq, Prod.mk.injEq] at h <;>
        obtain ⟨-, -, rfl⟩ := h <;> simp_all
    rcases hmem with hmem | rfl
    · have := sizeOf_lt_of_mem_descend htarget position hmem
      simp only [Expr.index.sizeOf_spec]
      omega
    · exact hindex
  | .group inner, _, _, _, h, position, hmem => by
    have := sizeOf_lt_of_mem_descend (show descend inner = _ from h) position hmem
    simp only [Expr.group.sizeOf_spec]
    omega
  | .literal _, _, _, _, h, _, _ | .array _, _, _, _, h, _, _ | .object _, _, _, _, h, _, _
  | .unary _ _, _, _, _, h, _, _ | .binary _ _ _, _, _, _, h, _, _
  | .conditional _ _ _, _, _, _, h, _, _ | .call _ _, _, _, _, h, _, _ => by
    simp [descend] at h

/-- `visit`: a path expression is one reference, and its dynamic indexes are visited; any other
node visits its children in order. -/
def visit (set : ReferenceSet) (expression : Expr) : ReferenceSet :=
  -- `_h` is read only by the termination proof: a dynamic index is smaller than the path
  match _h : descend expression with
  | some (root, segments, dynamic) =>
    dynamic.attach.foldl (fun set position => visit set position.1)
      (set.insert ⟨root, segments⟩)
  | none =>
    match expression with
    | .literal _ | .var _ => set
    | .member target _ => visit set target
    | .index target position => visit (visit set target) position
    | .array elements => elements.attach.foldl (fun set element => visit set element.1) set
    | .object entries => entries.attach.foldl (fun set entry => visit set entry.1.2) set
    | .unary _ operand | .group operand => visit set operand
    | .binary _ left right => visit (visit set left) right
    | .conditional condition thenBranch elseBranch =>
      visit (visit (visit set condition) thenBranch) elseBranch
    | .call _ arguments => arguments.attach.foldl (fun set argument => visit set argument.1) set
termination_by sizeOf expression
decreasing_by
  all_goals simp_wf
  · exact sizeOf_lt_of_mem_descend _h position.1 position.2
  all_goals first
    | omega
    | have := List.sizeOf_lt_of_mem element.2; omega
    | have := List.sizeOf_lt_of_mem argument.2; omega
    | have := List.sizeOf_lt_of_mem entry.2
      have : sizeOf entry.1.2 < sizeOf entry.1 := by
        rcases entry with ⟨⟨key, value⟩, _⟩
        simp only [Prod.mk.sizeOf_spec]
        omega
      omega

/-- `references::collect`. -/
def collect (expression : Expr) : ReferenceSet := visit {} expression

end References

/-! ## Compiled expressions -/

/-- `CompiledExpression`: the source, its tree and the context paths it reads. -/
structure CompiledExpression where
  source : String
  root : Expr
  references : ReferenceSet

/-- `CompiledExpression::static_result_type`. -/
def CompiledExpression.staticResultType (expression : CompiledExpression) :
    Option ExpressionValueType :=
  inferStaticType expression.root

/-- `compile_expression_arc`: lex, parse, check the static types, collect the references. -/
def compileExpression (limits : CompilationLimits) (source : String) :
    Except ExpressionError CompiledExpression := do
  let tokens ← lex limits source
  let root ← parse limits tokens
  validateStaticTypes root
  pure ⟨source, root, References.collect root⟩

/-- `require_boolean_condition`: a condition whose static type is known must be a bool. -/
def requireBooleanCondition (expression : CompiledExpression) :
    Except ExpressionError CompiledExpression :=
  match expression.staticResultType with
  | some kind =>
    if kind ≠ .bool then
      let shown := kind.asStr
      .error ⟨.parse, s!"condition expression is statically {shown}; expected bool", none⟩
    else .ok expression
  | none => .ok expression

/-! ## Evaluation sessions -/

/-- `EvaluationSession`: a context and the budget every evaluation in the session draws on. -/
structure EvaluationSession where
  context : ContextView
  budget : Budget

namespace EvaluationSession

/-- `EvaluationSession::new`. -/
def new (context : Value) (limits : EvaluationLimits) : EvaluationSession :=
  ⟨.value context, Budget.new limits⟩

/-- `EvaluationSession::with_context`. -/
def withContext (roots : List (String × Value)) (limits : EvaluationLimits) : EvaluationSession :=
  ⟨.roots roots, Budget.new limits⟩

variable (host : Host)

/-- A run of the evaluator in the session: the value and the session after it.  On an error the
source's session keeps what was spent; the model returns the error alone. -/
def run {α : Type} (session : EvaluationSession) (computation : EvalM α) :
    Except ExpressionError (α × EvaluationSession) := do
  let (value, budget) ← computation.run session.budget
  pure (value, { session with budget })

/-- `EvaluationSession::evaluate`: the tree evaluated, then finished as a result. -/
def evaluate (session : EvaluationSession) (expression : CompiledExpression) :
    Except ExpressionError (Value × EvaluationSession) :=
  session.run do
    let value ← Evaluator.evaluate host session.context expression.root
    Evaluator.finish host value

/-- `EvaluationSession::evaluate_bool`. -/
def evaluateBool (session : EvaluationSession) (expression : CompiledExpression) :
    Except ExpressionError (Bool × EvaluationSession) := do
  let (value, session) ← session.evaluate host expression
  match value with
  | .bool b => pure (b, session)
  | value =>
    let received := jsonType value
    .error ⟨.evaluate, s!"condition expression must produce bool, received {received}", none⟩

end EvaluationSession

/-- `evaluate`: one expression in a fresh session over a JSON context. -/
def evaluate (host : Host) (expression : CompiledExpression) (context : Value)
    (limits : EvaluationLimits) : Except ExpressionError Value :=
  Prod.fst <$> (EvaluationSession.new context limits).evaluate host expression

/-- `evaluate_bool`. -/
def evaluateBool (host : Host) (expression : CompiledExpression) (context : Value)
    (limits : EvaluationLimits) : Except ExpressionError Bool :=
  Prod.fst <$> (EvaluationSession.new context limits).evaluateBool host expression

end Ryeos.Expression
