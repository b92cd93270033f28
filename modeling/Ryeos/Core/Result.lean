import Mathlib

/-!
# Reasoning about `Except`

Code that fails with an error value is modelled in `Except ε`.  A proof about a successful run
peels the computation apart one bind at a time: `Except.bind_eq_ok` turns a successful bind
into a successful first step and a successful continuation, and `Except.forM_eq_ok` turns a
successful loop of checks into a check that succeeds on every element.

Guard clauses are written with `Except.bailIf` (fail with a message when a condition holds) and
`Option.okOr` (the value of an option, or an error), so that a block of checks is a chain of
binds that `Except.bind_eq_ok` peels one at a time.  `Except.withContext` puts a context in
front of an error text, as an error chain prints it.
-/

namespace Except

variable {ε α β : Type}

/-- **Bind inversion.**  A bind succeeds exactly when its first step does and the continuation
succeeds on that step's value. -/
theorem bind_eq_ok {x : Except ε α} {f : α → Except ε β} {b : β} :
    x >>= f = .ok b ↔ ∃ a, x = .ok a ∧ f a = .ok b := by
  cases x with
  | error e => simp [bind, Except.bind]
  | ok a => simp [bind, Except.bind]

theorem ok_bind {a : α} {f : α → Except ε β} : (Except.ok a >>= f) = f a := rfl

theorem error_bind {e : ε} {f : α → Except ε β} : (Except.error e >>= f) = .error e := rfl

/-- Renaming the error leaves a success as it is. -/
@[simp] theorem mapError_eq_ok {ε' : Type} {x : Except ε α} {f : ε → ε'} {a : α} :
    x.mapError f = .ok a ↔ x = .ok a := by
  cases x <;> simp [Except.mapError]

/-- A loop of checks succeeds exactly when every check does. -/
theorem forM_eq_ok {xs : List α} {f : α → Except ε Unit} :
    xs.forM f = .ok () ↔ ∀ x ∈ xs, f x = .ok () := by
  induction xs with
  | nil => simp [pure, Except.pure]
  | cons x xs ih =>
    change f x >>= (fun _ => xs.forM f) = .ok () ↔ _
    rw [bind_eq_ok]
    constructor
    · rintro ⟨⟨⟩, hx, hxs⟩
      exact List.forall_mem_cons.mpr ⟨hx, ih.mp hxs⟩
    · intro h
      exact ⟨(), h x List.mem_cons_self, ih.mpr fun y hy => h y (List.mem_cons_of_mem x hy)⟩

/-- A guard clause: fail with `msg` when `cond` holds. -/
def bailIf (cond : Prop) [Decidable cond] (msg : ε) : Except ε Unit :=
  if cond then .error msg else .ok ()

@[simp] theorem bailIf_eq_ok {cond : Prop} [Decidable cond] {msg : ε} {u : Unit} :
    bailIf cond msg = .ok u ↔ ¬ cond := by
  by_cases h : cond <;> simp [bailIf, h]

/-- An error context: a failure's text gets `context` in front. -/
def withContext (context : String) (x : Except String α) : Except String α :=
  x.mapError fun e => context ++ ": " ++ e

@[simp] theorem withContext_eq_ok {context : String} {x : Except String α} {a : α} :
    withContext context x = .ok a ↔ x = .ok a := by
  cases x <;> simp [withContext, Except.mapError]

end Except

namespace Option

variable {ε α : Type}

/-- The value of an option, or the error `e`. -/
def okOr (o : Option α) (e : ε) : Except ε α :=
  match o with
  | some a => .ok a
  | none => .error e

@[simp] theorem okOr_eq_ok {o : Option α} {e : ε} {a : α} : o.okOr e = .ok a ↔ o = some a := by
  cases o <;> simp [okOr]

end Option

/-! ## Panics

Rust code has two ways not to return a value: an error the caller handles, and a panic that
unwinds the thread.  Code that can panic is modelled in `Except (Failure ε)`, where an ordinary
error is `Failure.error` and a panic is `Failure.panic` with the message Rust prints.  The
slice and index operations below panic exactly where Rust's do.
-/

/-- How a Rust call ends without a value: with an error, or with a panic. -/
inductive Failure (ε : Type) where
  | error (e : ε)
  | panic (message : String)
  deriving DecidableEq, Repr

namespace Failure

variable {ε α : Type}

/-- A call that only fails with an error, run where a panic is also possible. -/
def lift (x : Except ε α) : Except (Failure ε) α :=
  x.mapError Failure.error

@[simp] theorem lift_eq_ok {x : Except ε α} {a : α} : lift x = .ok a ↔ x = .ok a := by
  cases x <;> simp [lift, Except.mapError]

/-- A run that does not panic: it returns a value, or fails with an ordinary error. -/
def NoPanic (x : Except (Failure ε) α) : Prop :=
  ∀ message, x ≠ .error (.panic message)

theorem noPanic_ok (a : α) : NoPanic (.ok a : Except (Failure ε) α) := by
  simp [NoPanic]

@[simp] theorem noPanic_pure (a : α) : NoPanic (pure a : Except (Failure ε) α) :=
  noPanic_ok a

theorem noPanic_lift (x : Except ε α) : NoPanic (lift x) := by
  intro message
  cases x <;> simp [lift, Except.mapError]

/-- A bind after a call that cannot panic panics only through its continuation. -/
theorem noPanic_lift_bind {β : Type} {x : Except ε α} {f : α → Except (Failure ε) β} :
    NoPanic (lift x >>= f) ↔ ∀ a, x = .ok a → NoPanic (f a) := by
  cases x with
  | error e => simp [lift, Except.mapError, NoPanic, Except.error_bind]
  | ok a => simp [lift, Except.mapError, Except.ok_bind]

/-- **Sequencing.**  A bind does not panic when its first step does not and the continuation
does not on any value the first step returns. -/
theorem NoPanic.bind {β : Type} {x : Except (Failure ε) α} {f : α → Except (Failure ε) β}
    (hx : NoPanic x) (hf : ∀ a, x = .ok a → NoPanic (f a)) : NoPanic (x >>= f) := by
  cases x with
  | error e =>
    intro message hpanic
    rw [Except.error_bind] at hpanic
    cases hpanic
    exact hx message rfl
  | ok a => exact hf a rfl

/-- `&xs[start..]`: the suffix from `start`, a panic when `start` is past the end. -/
def sliceFrom (xs : List α) (start : Nat) : Except (Failure ε) (List α) :=
  let len := xs.length
  if start ≤ len then .ok (xs.drop start)
  else .error (.panic s!"range start index {start} out of range for slice of length {len}")

@[simp] theorem sliceFrom_eq_ok {xs ys : List α} {start : Nat} :
    (sliceFrom xs start : Except (Failure ε) _) = .ok ys ↔ start ≤ xs.length ∧ xs.drop start = ys := by
  unfold sliceFrom
  by_cases h : start ≤ xs.length <;> simp [h]

/-- `xs[i]`: the element at `i`, a panic when `i` is out of bounds. -/
def index (xs : List α) (i : Nat) : Except (Failure ε) α :=
  let len := xs.length
  match xs[i]? with
  | some a => .ok a
  | none => .error (.panic s!"index out of bounds: the len is {len} but the index is {i}")

theorem noPanic_sliceFrom {xs : List α} {start : Nat} (h : start ≤ xs.length) :
    NoPanic (sliceFrom xs start : Except (Failure ε) _) := by
  simp [sliceFrom, h, NoPanic]

theorem sliceFrom_of_lt {xs : List α} {start : Nat} (h : xs.length < start) :
    (sliceFrom xs start : Except (Failure ε) _) =
      .error (.panic s!"range start index {start} out of range for slice of length {xs.length}") := by
  simp [sliceFrom, Nat.not_le.mpr h]

@[simp] theorem index_eq_ok {xs : List α} {i : Nat} {a : α} :
    (index xs i : Except (Failure ε) α) = .ok a ↔ xs[i]? = some a := by
  unfold index
  split <;> simp_all

theorem index_of_lt {xs : List α} {i : Nat} (h : i < xs.length) :
    (index xs i : Except (Failure ε) α) = .ok xs[i] := by
  simp [index, List.getElem?_eq_getElem h]

end Failure
