import Ryeos.Core.Result

/-!
# Postconditions of stateful computations that can fail

A computation in `StateT σ (Except ε)` *ensures* `Q` when every run of it that succeeds, from
any state, returns a value that satisfies `Q`.  This is partial correctness with no precondition
and nothing said of the state: it is what a statement about the kind of value a successful run
returns needs, whatever the run spends on its way.

The rules follow the monad: `pure`, `bind` (and `bind_forall`, for a first step whose value the
rest does not need to know anything about), `throw`, a lifted `Except`, and the consequence rule
`mono`.  A `match` or an `if` of a program is split where it stands and each branch gets its own
rule.  `Returns`, at the end, is the total counterpart, with a precondition on the state.
-/

namespace StateT

variable {σ ε α β : Type}

/-- Every successful run of `x` returns a value satisfying `Q`. -/
def Ensures (x : StateT σ (Except ε) α) (Q : α → Prop) : Prop :=
  ∀ s a s', x.run s = .ok (a, s') → Q a

namespace Ensures

variable {x : StateT σ (Except ε) α} {P Q : α → Prop}

theorem pure {a : α} (h : Q a) : Ensures (Pure.pure a : StateT σ (Except ε) α) Q := by
  intro s b s' hrun
  cases hrun
  exact h

theorem bind {R : β → Prop} {f : α → StateT σ (Except ε) β}
    (hx : Ensures x fun a => Ensures (f a) R) : Ensures (x >>= f) R := by
  intro s b s' hrun
  simp only [StateT.run_bind, Except.bind_eq_ok] at hrun
  obtain ⟨⟨a, s₁⟩, hfirst, hrest⟩ := hrun
  exact hx s a s₁ hfirst s₁ b s' hrest

/-- A first step whose value does not matter to the postcondition. -/
theorem bind_forall {R : β → Prop} {f : α → StateT σ (Except ε) β}
    (hf : ∀ a, Ensures (f a) R) : Ensures (x >>= f) R :=
  bind fun _ _ _ _ => hf _

theorem throw {e : ε} : Ensures (MonadExcept.throw e : StateT σ (Except ε) α) Q := by
  intro s a s' hrun
  cases hrun

/-- A guard clause of `do` notation, `if c then throw e` before the rest `k`: only the rest can
return. -/
theorem guard {c : Prop} [Decidable c] {e : ε} {k : PUnit → StateT σ (Except ε) α}
    (hk : Ensures (k ⟨⟩) Q) :
    Ensures (if c then MonadExcept.throw e >>= k else k ⟨⟩) Q := by
  split
  · exact bind throw
  · exact hk

/-- An `Except` computation run in the state monad. -/
theorem lift {y : Except ε α} (h : ∀ a, y = .ok a → Q a) :
    Ensures (monadLift y : StateT σ (Except ε) α) Q := by
  intro s a s' hrun
  cases y with
  | error e => cases hrun
  | ok b =>
    cases hrun
    exact h _ rfl

/-- An `Except` computation that succeeds, run in the state monad. -/
theorem lift_eq {y : Except ε α} {a : α} (hy : y = .ok a) :
    Ensures (monadLift y : StateT σ (Except ε) α) (· = a) :=
  lift fun _ h => (Except.ok.inj (hy.symm.trans h)).symm

theorem mono (hx : Ensures x P) (h : ∀ a, P a → Q a) : Ensures x Q :=
  fun s a s' hrun => h a (hx s a s' hrun)

/-- A first step that returns one known value. -/
theorem bind_eq {R : β → Prop} {f : α → StateT σ (Except ε) β} {v : α}
    (hx : Ensures x (· = v)) (hf : Ensures (f v) R) : Ensures (x >>= f) R :=
  bind (hx.mono fun _ ha => ha ▸ hf)

theorem map {f : α → β} {R : β → Prop} (hx : Ensures x fun a => R (f a)) :
    Ensures (f <$> x) R := by
  intro s b s' hrun
  rw [StateT.run_map] at hrun
  cases hfirst : x.run s with
  | error e =>
    rw [hfirst] at hrun
    cases hrun
  | ok p =>
    rw [hfirst] at hrun
    cases hrun
    exact hx s p.1 p.2 hfirst

end Ensures

/-! ## Runs that succeed

`Returns x P Q` is total correctness: from every state that satisfies `P` the run of `x`
succeeds, and its value and final state satisfy `Q`.  A statement that a computation does return
under a state that allows it, and not only that its successful runs are right, is one of these.
A guard clause, a read of the state and a lifted `Except` get their own rules, as for
`Ensures`. -/

/-- From every state satisfying `P`, `x` succeeds with a value and a state satisfying `Q`. -/
def Returns (x : StateT σ (Except ε) α) (P : σ → Prop) (Q : α → σ → Prop) : Prop :=
  ∀ s, P s → ∃ a s', x.run s = .ok (a, s') ∧ Q a s'

namespace Returns

variable {x : StateT σ (Except ε) α} {P P' : σ → Prop} {Q Q' : α → σ → Prop}

theorem pure {a : α} (h : ∀ s, P s → Q a s) : Returns (Pure.pure a : StateT σ (Except ε) α) P Q :=
  fun s hs => ⟨a, s, rfl, h s hs⟩

theorem bind {R : α → σ → Prop} {Q : β → σ → Prop} {f : α → StateT σ (Except ε) β}
    (hx : Returns x P R) (hf : ∀ a, Returns (f a) (R a) Q) : Returns (x >>= f) P Q := by
  intro s hs
  obtain ⟨a, s₁, hfirst, hmiddle⟩ := hx s hs
  obtain ⟨b, s₂, hrest, hlast⟩ := hf a s₁ hmiddle
  refine ⟨b, s₂, ?_, hlast⟩
  rw [StateT.run_bind, hfirst]
  exact hrest

/-- A first step that returns one known value. -/
theorem bind_eq {R : σ → Prop} {Q : β → σ → Prop} {f : α → StateT σ (Except ε) β} {v : α}
    (hx : Returns x P fun a s => a = v ∧ R s) (hf : Returns (f v) R Q) : Returns (x >>= f) P Q :=
  bind hx fun _ s ⟨ha, hs⟩ => ha ▸ hf s hs

/-- A read of the state: the rest runs from the state it read. -/
theorem get_bind {Q : β → σ → Prop} {f : σ → StateT σ (Except ε) β}
    (h : ∀ s, P s → Returns (f s) P Q) : Returns (get >>= f) P Q :=
  fun s hs => h s hs s hs

theorem set {s' : σ} {Q : PUnit → σ → Prop} (h : ∀ s, P s → Q ⟨⟩ s') :
    Returns (MonadStateOf.set s' : StateT σ (Except ε) PUnit) P Q :=
  fun s hs => ⟨⟨⟩, s', rfl, h s hs⟩

/-- A guard clause whose condition does not hold. -/
theorem guard {c : Prop} [Decidable c] {e : ε} {k : PUnit → StateT σ (Except ε) α}
    (hc : ¬ c) (hk : Returns (k ⟨⟩) P Q) :
    Returns (if c then MonadExcept.throw e >>= k else k ⟨⟩) P Q := by
  rw [if_neg hc]
  exact hk

/-- An `Except` computation that succeeds, run in the state monad. -/
theorem lift {y : Except ε α} {a : α} (hy : y = .ok a) (h : ∀ s, P s → Q a s) :
    Returns (monadLift y : StateT σ (Except ε) α) P Q := by
  subst hy
  exact fun s hs => ⟨a, s, rfl, h s hs⟩

theorem consequence (h : Returns x P Q) (hpre : ∀ s, P' s → P s)
    (hpost : ∀ a s, Q a s → Q' a s) : Returns x P' Q' := by
  intro s hs
  obtain ⟨a, s', hrun, hQ⟩ := h s (hpre s hs)
  exact ⟨a, s', hrun, hpost a s' hQ⟩

end Returns

end StateT
