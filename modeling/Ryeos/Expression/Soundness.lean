import Ryeos.Core.Ensures
import Ryeos.Expression.Compile

/-!
# The static result type is sound

`infer_static_type` reads a result type off a tree's shape where the shape decides it.  This
module proves that it is right: a tree whose static type is `t` evaluates, whenever the
evaluation succeeds, to a present value of type `t`, and finishing the value as a result keeps
its type, so a session that evaluates a compiled expression returns a value whose `json_type`
is `t`.  Neither the static validator nor the limits matter: the statement holds of every tree,
every context and every budget.

The proof is in `StateT.Ensures`, the postconditions of `Core/Ensures.lean`.  Each builtin and
each of the evaluator's node functions gets one lemma saying what type its successful results
have; the induction over the tree then needs its subtrees only at `+` (a string operand makes a
string, a number operand a number), `??` (a null left operand hands over to the right one, any
other left operand is the result), the conditional (both branches have the type) and groups.
-/

namespace Ryeos.Expression

open StateT


/-! ## The type of a value -/

/-- The type of a JSON value, as `ExpressionValueType` names it. -/
def valueType : Value → ExpressionValueType
  | .null => .null
  | .bool _ => .bool
  | .number _ => .number
  | .string _ => .string
  | .array _ => .array
  | .object _ => .object

@[simp] lemma jsonType_eq_asStr (value : Value) : jsonType value = (valueType value).asStr := by
  cases value <;> rfl

namespace RuntimeValue

/-- A runtime value is present and has type `t`. -/
def HasType (value : RuntimeValue) (t : ExpressionValueType) : Prop :=
  value.asJson.map valueType = some t

variable {t : ExpressionValueType}

@[simp] lemma hasType_owned {v : Value} : (owned v).HasType t ↔ valueType v = t := by
  simp [HasType, asJson]

@[simp] lemma hasType_borrowed {v : Value} : (borrowed v).HasType t ↔ valueType v = t := by
  simp [HasType, asJson]

@[simp] lemma not_hasType_missing {path : String} : ¬ (missing path).HasType t := by
  simp [HasType, asJson]

lemma hasType_iff {value : RuntimeValue} :
    value.HasType t ↔ ∃ json, value.asJson = some json ∧ valueType json = t := by
  simp [HasType, Option.map_eq_some_iff]

end RuntimeValue

/-! ## What the static rules say of a tree's parts -/

lemma inferStaticType_add {left right : Expr} {t : ExpressionValueType}
    (h : inferStaticType (.binary .add left right) = some t) :
    t = .string ∧ (inferStaticType left = some .string ∨ inferStaticType right = some .string) ∨
      t = .number ∧ (inferStaticType left = some .number ∨ inferStaticType right = some .number) := by
  simp only [inferStaticType] at h
  split at h <;> simp_all

lemma inferStaticType_coalesce {left right : Expr} {t : ExpressionValueType}
    (h : inferStaticType (.binary .coalesce left right) = some t) :
    inferStaticType left = some .null ∧ inferStaticType right = some t ∨
      inferStaticType left = some t ∧ t ≠ .null := by
  simp only [inferStaticType] at h
  split at h
  · exact .inl ⟨‹_›, h⟩
  · next kind hnull hkind =>
    cases h
    exact .inr ⟨hkind, hnull⟩
  · cases h

lemma inferStaticType_conditional {condition thenBranch elseBranch : Expr}
    {t : ExpressionValueType}
    (h : inferStaticType (.conditional condition thenBranch elseBranch) = some t) :
    inferStaticType thenBranch = some t ∧ inferStaticType elseBranch = some t := by
  simp only [inferStaticType] at h
  split_ifs at h with hsame
  exact ⟨h, hsame ▸ h⟩

/-! ## The builtins

Each builtin ends every successful path with a value of one type.  The proofs walk the
function's body: a bind whose value the type does not depend on, a branch, a throw, and the
final `pure`. -/

namespace Functions

variable (host : Host)

lemma length_hasType (value : RuntimeValue) : Ensures (length value) (·.HasType .number) := by
  unfold length
  dsimp only
  split <;> repeat' first
    | exact Ensures.throw
    | exact Ensures.pure rfl
    | refine Ensures.bind_forall fun _ => ?_

lemma containsValues_hasType (container needle : RuntimeValue) :
    Ensures (containsValues container needle) (·.HasType .bool) := by
  unfold containsValues
  dsimp only
  split <;> repeat' first
    | exact Ensures.throw
    | exact Ensures.pure rfl
    | refine Ensures.bind_forall fun _ => ?_
    | split

lemma keys_hasType (value : RuntimeValue) : Ensures (keys host value) (·.HasType .array) := by
  unfold keys
  split
  · exact Ensures.bind_forall fun _ => Ensures.bind_forall fun _ => Ensures.bind_forall fun _ =>
      Ensures.pure (by simp [valueType])
  · exact Ensures.throw

lemma case_hasType (value : RuntimeValue) (upper : Bool) :
    Ensures (case host value upper) (·.HasType .string) := by
  unfold case
  dsimp only
  split <;> repeat' first
    | exact Ensures.throw
    | exact Ensures.pure rfl
    | refine Ensures.bind_forall fun _ => ?_

lemma stringifyJson_hasType (value : RuntimeValue) :
    Ensures (stringifyJson host value) (·.HasType .string) := by
  unfold stringifyJson
  split <;> repeat' first
    | exact Ensures.throw
    | exact Ensures.pure rfl
    | refine Ensures.bind_forall fun _ => ?_

lemma stringifyExplicit_hasType (value : RuntimeValue) :
    Ensures (stringifyExplicit host value) (·.HasType .string) := by
  unfold stringifyExplicit
  split <;> repeat' first
    | exact Ensures.throw
    | exact Ensures.pure rfl
    | refine Ensures.bind_forall fun _ => ?_
    | split

lemma matchesRegex_hasType (value pattern : RuntimeValue) :
    Ensures (matchesRegex host value pattern) (·.HasType .bool) := by
  unfold matchesRegex
  dsimp only
  split
  · split
    · -- the two byte limits, the fuel, the reservation, then the match
      refine Ensures.bind_forall fun _ => Ensures.guard (Ensures.guard ?_)
      refine Ensures.bind_forall fun _ => Ensures.bind_forall fun _ => Ensures.guard ?_
      refine Ensures.bind_forall fun _ => ?_
      split
      · exact Ensures.pure rfl
      · exact Ensures.throw
    · exact Ensures.throw
  · exact Ensures.throw

lemma number_hasType (value : RuntimeValue) : Ensures (number value) (·.HasType .number) := by
  unfold number
  dsimp only
  split <;> repeat' first
    | exact Ensures.throw
    | exact Ensures.pure rfl
    | refine Ensures.bind_forall fun _ => ?_

lemma call_hasType {function : BuiltinFunction} {arguments : List Expr} {t : ExpressionValueType}
    (h : inferStaticType (.call function arguments) = some t) (argumentCount : ℕ)
    (evaluateFirst : EvalM RuntimeValue) (evaluateArguments : EvalM (List RuntimeValue)) :
    Ensures (call host function argumentCount evaluateFirst evaluateArguments) (·.HasType t) := by
  unfold call
  split
  · next hexists =>
    subst hexists
    simp only [inferStaticType, Option.some.injEq] at h
    subst h
    exact Ensures.bind_forall fun _ => Ensures.pure rfl
  · refine Ensures.bind_forall fun _ => Ensures.bind_forall fun values => ?_
    cases function <;> simp only [inferStaticType, Option.some.injEq, reduceCtorEq] at h <;>
      subst h
    case length => exact Ensures.bind_forall fun value => length_hasType value
    case contains => exact Ensures.bind_forall fun container => Ensures.bind_forall fun needle =>
      containsValues_hasType container needle
    case keys => exact Ensures.bind_forall fun value => keys_hasType host value
    case upper => exact Ensures.bind_forall fun value => case_hasType host value true
    case lower => exact Ensures.bind_forall fun value => case_hasType host value false
    case json => exact Ensures.bind_forall fun value => stringifyJson_hasType host value
    case type =>
      exact Ensures.bind_forall fun _ => Ensures.bind_forall fun _ => Ensures.bind_forall fun _ =>
        Ensures.pure rfl
    case «exists» => exact Ensures.throw
    case «matches» => exact Ensures.bind_forall fun value => Ensures.bind_forall fun pattern =>
      matchesRegex_hasType host value pattern
    case string => exact Ensures.bind_forall fun value => stringifyExplicit_hasType host value
    case number => exact Ensures.bind_forall fun value => number_hasType value

end Functions


/-! ## The evaluator's nodes -/

namespace Evaluator

lemma requireNumber_hasType {value : RuntimeValue} {purpose : String} {n : Numeric}
    (h : requireNumber value purpose = .ok n) : value.HasType .number := by
  unfold requireNumber at h
  split at h
  · next number hjson => simp [RuntimeValue.HasType, hjson, valueType]
  · cases h

lemma numericBinary_hasType {operation : Numeric → Numeric → Except String Numeric}
    {left right result : RuntimeValue} (h : numericBinary operation left right = .ok result) :
    result.HasType .number ∧ left.HasType .number ∧ right.HasType .number := by
  simp only [numericBinary, Except.bind_eq_ok, Except.mapError_eq_ok] at h
  obtain ⟨a, ha, b, hb, c, -, number, -, hresult⟩ := h
  cases hresult
  exact ⟨rfl, requireNumber_hasType ha, requireNumber_hasType hb⟩

lemma unary_hasType {operator : UnaryOperator} {operand : Expr} {t : ExpressionValueType}
    (h : inferStaticType (.unary operator operand) = some t) (evaluateOperand : EvalM RuntimeValue) :
    Ensures (unary operator evaluateOperand) (·.HasType t) := by
  unfold unary
  refine Ensures.bind_forall fun _ => ?_
  cases operator <;> simp only [inferStaticType, Option.some.injEq] at h <;> subst h
  all_goals repeat' first
    | (with_reducible refine Ensures.pure ?_); rfl
    | with_reducible refine Ensures.bind_forall fun _ => ?_

lemma add_hasType_string {left right : RuntimeValue}
    (h : left.HasType .string ∨ right.HasType .string) :
    Ensures (add left right) (·.HasType .string) := by
  unfold add
  split
  · repeat' first
      | with_reducible exact Ensures.bind Ensures.throw
      | (with_reducible refine Ensures.pure ?_); rfl
      | with_reducible refine Ensures.bind_forall fun _ => ?_
      | split
      | dsimp only
  · -- numeric addition needs two numbers, and one operand is a string
    refine Ensures.lift fun result hresult => ?_
    obtain ⟨-, hleft, hright⟩ := numericBinary_hasType hresult
    rcases h with h | h
    · obtain ⟨j, hj, ht⟩ := RuntimeValue.hasType_iff.mp h
      obtain ⟨k, hk, hn⟩ := RuntimeValue.hasType_iff.mp hleft
      rw [hj, Option.some.injEq] at hk
      subst hk
      rw [ht] at hn
      cases hn
    · obtain ⟨j, hj, ht⟩ := RuntimeValue.hasType_iff.mp h
      obtain ⟨k, hk, hn⟩ := RuntimeValue.hasType_iff.mp hright
      rw [hj, Option.some.injEq] at hk
      subst hk
      rw [ht] at hn
      cases hn

/-- A left operand that is statically a string or a number fixes the sum's type, whatever the
right one is at run time. -/
lemma add_hasType_number {left right : RuntimeValue}
    (h : left.HasType .number ∨ right.HasType .number) :
    Ensures (add left right) (·.HasType .number) := by
  unfold add
  split
  · -- two strings concatenate, but one operand is a number
    next leftText rightText hleft hright =>
    rcases h with h | h
    · obtain ⟨j, hj, ht⟩ := RuntimeValue.hasType_iff.mp h
      rw [hleft, Option.some.injEq] at hj
      subst hj
      cases ht
    · obtain ⟨j, hj, ht⟩ := RuntimeValue.hasType_iff.mp h
      rw [hright, Option.some.injEq] at hj
      subst hj
      cases ht
  · exact Ensures.lift fun result hresult => (numericBinary_hasType hresult).1

lemma binary_hasType {operator : BinaryOperator} {left right : Expr} {t : ExpressionValueType}
    (h : inferStaticType (.binary operator left right) = some t) (hadd : operator ≠ .add)
    (hcoalesce : operator ≠ .coalesce) (evaluateLeft evaluateRight : EvalM RuntimeValue) :
    Ensures (binary operator evaluateLeft evaluateRight) (·.HasType t) := by
  cases operator
  case add => exact absurd rfl hadd
  case coalesce => exact absurd rfl hcoalesce
  all_goals
    simp only [inferStaticType, Option.some.injEq] at h
    subst h
    unfold binary
    dsimp only
  all_goals repeat' first
    | with_reducible exact Ensures.bind Ensures.throw
    | (with_reducible refine Ensures.pure ?_); rfl
    | with_reducible exact Ensures.lift fun _ hresult => (numericBinary_hasType hresult).1
    | with_reducible exact Functions.containsValues_hasType _ _
    | with_reducible refine Ensures.bind_forall fun _ => ?_
    | split

lemma binary_coalesce_of_null {P : RuntimeValue → Prop}
    {evaluateLeft evaluateRight : EvalM RuntimeValue}
    (hleft : Ensures evaluateLeft (·.HasType .null)) (hright : Ensures evaluateRight P) :
    Ensures (binary .coalesce evaluateLeft evaluateRight) P := by
  unfold binary
  refine Ensures.bind (hleft.mono fun leftValue hnull => ?_)
  -- a null left operand is a null value, borrowed or owned, so the right operand decides
  rcases leftValue with value | value | path
  · cases value <;> simp only [RuntimeValue.hasType_borrowed, valueType, reduceCtorEq] at hnull
    exact hright
  · cases value <;> simp only [RuntimeValue.hasType_owned, valueType, reduceCtorEq] at hnull
    exact hright
  · exact absurd hnull RuntimeValue.not_hasType_missing

lemma binary_coalesce_of_present {t : ExpressionValueType} (ht : t ≠ .null)
    {evaluateLeft : EvalM RuntimeValue} (evaluateRight : EvalM RuntimeValue)
    (hleft : Ensures evaluateLeft (·.HasType t)) :
    Ensures (binary .coalesce evaluateLeft evaluateRight) (·.HasType t) := by
  unfold binary
  refine Ensures.bind (hleft.mono fun leftValue hpresent => ?_)
  -- a left operand of another type than null is kept
  rcases leftValue with value | value | path
  · cases value <;> first
      | exact Ensures.pure hpresent
      | exact absurd (RuntimeValue.hasType_borrowed.mp hpresent).symm ht
  · cases value <;> first
      | exact Ensures.pure hpresent
      | exact absurd (RuntimeValue.hasType_owned.mp hpresent).symm ht
  · exact absurd hpresent RuntimeValue.not_hasType_missing

lemma literal_hasType {value : Literal} {t : ExpressionValueType}
    (h : inferStaticType (.literal value) = some t) :
    Ensures (literal value) (·.HasType t) := by
  cases value <;> simp only [inferStaticType, Option.some.injEq] at h <;> subst h <;>
    unfold literal
  all_goals repeat' first
    | (with_reducible refine Ensures.pure ?_); rfl
    | with_reducible refine Ensures.bind_forall fun _ => ?_

/-! ## Finishing a result keeps its type -/

variable (host : Host)

lemma cloneBounded_valueType (value : Value) (depth : ℕ) :
    Ensures (cloneBounded host value depth) (fun copy => valueType copy = valueType value) := by
  unfold cloneBounded
  refine Ensures.bind_forall fun _ => Ensures.bind_forall fun _ => ?_
  cases value
  all_goals repeat' first
    | (with_reducible refine Ensures.pure ?_); rfl
    | with_reducible refine Ensures.bind_forall fun _ => ?_

lemma finish_valueType {value : RuntimeValue} {t : ExpressionValueType} (h : value.HasType t) :
    Ensures (finish host value) (fun result => valueType result = t) := by
  unfold finish
  rcases value with value | value | path
  · refine Ensures.bind ((cloneBounded_valueType host value 1).mono fun copy hcopy => ?_)
    refine Ensures.bind_forall fun _ => Ensures.pure ?_
    rw [hcopy]
    exact RuntimeValue.hasType_borrowed.mp h
  · refine Ensures.bind (Ensures.pure ?_)
    exact Ensures.bind_forall fun _ => Ensures.pure (RuntimeValue.hasType_owned.mp h)
  · exact absurd h RuntimeValue.not_hasType_missing

/-- `+` whose result is a string, or a number, because an operand is one. -/
lemma binary_add_hasType {t : ExpressionValueType} (ht : t = .string ∨ t = .number)
    {evaluateLeft evaluateRight : EvalM RuntimeValue}
    (hoperand : Ensures evaluateLeft (·.HasType t) ∨ Ensures evaluateRight (·.HasType t)) :
    Ensures (binary .add evaluateLeft evaluateRight) (·.HasType t) := by
  unfold binary
  dsimp only
  -- the pair of operands has one of the sum's type
  have hoperands : Ensures (do
      let leftValue ← evaluateLeft
      let rightValue ← evaluateRight
      pure (leftValue, rightValue))
      (fun operands => operands.1.HasType t ∨ operands.2.HasType t) := by
    rcases hoperand with hleft | hright
    · exact Ensures.bind (hleft.mono fun _ hl => Ensures.bind_forall fun _ => Ensures.pure (.inl hl))
    · exact Ensures.bind_forall fun _ =>
        Ensures.bind (hright.mono fun _ hr => Ensures.pure (.inr hr))
  refine Ensures.bind (hoperands.mono fun operands hone => ?_)
  obtain ⟨leftValue, rightValue⟩ := operands
  rcases ht with rfl | rfl
  · exact add_hasType_string hone
  · exact add_hasType_number hone

/-! ## The induction over the tree -/

variable (context : ContextView)

/-- **Static types are sound for evaluation.**  A tree whose static type is `t` evaluates, when
it succeeds, to a present value of type `t`.  The induction is on the tree; only `+`, `??`, the
conditional and groups need their subtrees' types. -/
theorem evaluate_hasType : ∀ (expression : Expr) {t : ExpressionValueType},
    inferStaticType expression = some t →
      Ensures (evaluate host context expression) (·.HasType t)
  | .literal value, _, h => by
    rw [evaluate]
    exact Ensures.bind_forall fun _ => literal_hasType h
  | .var _, _, h | .member _ _, _, h | .index _ _, _, h => by
    simp [inferStaticType] at h
  | .array _, _, h | .object _, _, h => by
    simp only [inferStaticType, Option.some.injEq] at h
    subst h
    rw [evaluate]
    refine Ensures.bind_forall fun _ => ?_
    first | unfold array | unfold object
    exact Ensures.bind_forall fun _ => Ensures.bind_forall fun _ => Ensures.pure rfl
  | .unary _ _, _, h => by
    rw [evaluate]
    exact Ensures.bind_forall fun _ => unary_hasType h _
  | .binary operator left right, t, h => by
    rw [evaluate]
    refine Ensures.bind_forall fun _ => ?_
    by_cases hadd : operator = .add
    · subst hadd
      -- a string operand makes a string, else a number operand a number
      rcases inferStaticType_add h with ⟨rfl, hside⟩ | ⟨rfl, hside⟩
      all_goals
        refine binary_add_hasType (by simp) ?_
        rcases hside with hleft | hright
        · exact .inl (evaluate_hasType left hleft)
        · exact .inr (evaluate_hasType right hright)
    by_cases hcoalesce : operator = .coalesce
    · subst hcoalesce
      rcases inferStaticType_coalesce h with ⟨hleft, hright⟩ | ⟨hleft, hpresent⟩
      · exact binary_coalesce_of_null (evaluate_hasType left hleft) (evaluate_hasType right hright)
      · exact binary_coalesce_of_present hpresent _ (evaluate_hasType left hleft)
    exact binary_hasType h hadd hcoalesce _ _
  | .conditional condition thenBranch elseBranch, _, h => by
    obtain ⟨hthen, helse⟩ := inferStaticType_conditional h
    rw [evaluate]
    refine Ensures.bind_forall fun _ => Ensures.bind_forall fun _ => Ensures.bind_forall fun _ => ?_
    split
    · exact evaluate_hasType thenBranch hthen
    · exact evaluate_hasType elseBranch helse
  | .call _ _, _, h => by
    rw [evaluate]
    exact Ensures.bind_forall fun _ => Functions.call_hasType host h _ _ _
  | .group inner, _, h => by
    rw [evaluate]
    exact Ensures.bind_forall fun _ => evaluate_hasType inner h

end Evaluator

/-! ## Sessions -/

/-- What every successful run of a computation returns, a session's run of it returns. -/
lemma EvaluationSession.ensures_run {α : Type} {computation : EvalM α} {Q : α → Prop}
    {session session' : EvaluationSession} {a : α} (hcomputation : Ensures computation Q)
    (hrun : session.run computation = .ok (a, session')) : Q a := by
  simp only [EvaluationSession.run, Except.bind_eq_ok] at hrun
  obtain ⟨⟨b, budget⟩, hfirst, hpure⟩ := hrun
  cases hpure
  exact hcomputation _ _ _ hfirst

/-- A session that evaluates a compiled expression whose static result type is `t` returns, when
it succeeds, a value whose `json_type` is `t`; `compile_condition_for` rests on this to refuse a
condition that is statically not a bool. -/
theorem static_result_type_is_sound (host : Host) {session session' : EvaluationSession}
    {expression : CompiledExpression} {t : ExpressionValueType} {value : Value}
    (htype : expression.staticResultType = some t)
    (hevaluate : session.evaluate host expression = .ok (value, session')) :
    jsonType value = t.asStr := by
  -- the tree's value has the static type, and finishing it keeps that type
  have hcomputation : Ensures (do
      let result ← Evaluator.evaluate host session.context expression.root
      Evaluator.finish host result) (fun result => valueType result = t) :=
    Ensures.bind ((Evaluator.evaluate_hasType host session.context expression.root htype).mono
      fun _ hvalue => Evaluator.finish_valueType host hvalue)
  rw [jsonType_eq_asStr, EvaluationSession.ensures_run hcomputation hevaluate]

/-- `true ? null ?? 'a' + 'b' : 'c'` in a fresh session: the conditional's branches, the
coalescing of `null` and the concatenation all have the static type string, and the value is the
string `"ab"`. -/
theorem conditional_coalesced_concatenation_is_a_string :
    let host : Host := ⟨fun _ => "", fun c => [c], fun c => [c], fun _ _ _ => .ok false,
      fun _ => .error (.parse ""), 24, 56, 16, 8, 32⟩
    let root : Expr := .conditional (.literal (.bool true))
      (.binary .coalesce (.literal .null)
        (.binary .add (.literal (.string "a")) (.literal (.string "b"))))
      (.literal (.string "c"))
    let expression : CompiledExpression := ⟨"true ? null ?? 'a' + 'b' : 'c'", root, {}⟩
    let session := EvaluationSession.new .null .default
    expression.staticResultType = some .string ∧
      session.evaluate host expression = .ok (.string "ab", { session with budget :=
        { session.budget with fuelRemaining := 199986, allocationBytes := 4 } }) ∧
      jsonType (.string "ab") = ExpressionValueType.string.asStr := by
  intro host root expression session
  have htype : expression.staticResultType = some .string := rfl
  have hevaluate : session.evaluate host expression = .ok (.string "ab", { session with budget :=
      { session.budget with fuelRemaining := 199986, allocationBytes := 4 } }) := by
    rfl
  exact ⟨htype, hevaluate, static_result_type_is_sound host htype hevaluate⟩

end Ryeos.Expression
