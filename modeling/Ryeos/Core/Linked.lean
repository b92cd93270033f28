import Mathlib

/-!
# Hash-linked histories

A history kept as records that each name their predecessor by key, as an append-only log whose
entries carry the hash of the previous entry does.  Reading it back from the newest key means
following those links until a record names none.

`Linked pred o o' l` says that following predecessors from `o'` visits the keys of `l`, newest
last, and arrives at `o`; `pred k o` reads "the record under `k` names `o` as its predecessor".
A whole history is a segment that starts at `none`.

* `Linked.append` — two segments that meet compose;
* `Linked.pred_head` — the oldest key names the start of the segment;
* `Linked.exists_reach`, `Linked.mem_of_reach` — in a whole history whose records each name one
  predecessor, the keys reachable from the newest are exactly the keys of the list.
-/

namespace Ryeos

variable {κ : Type}

/-- Following predecessors from `o'` visits `l` backwards and arrives at `o`. -/
inductive Linked (pred : κ → Option κ → Prop) (o : Option κ) : Option κ → List κ → Prop
  | nil : Linked pred o o []
  | snoc {p : Option κ} {k : κ} {l : List κ} :
      Linked pred o p l → pred k p → Linked pred o (some k) (l ++ [k])

namespace Linked

variable {pred : κ → Option κ → Prop}

lemma single {k : κ} {p : Option κ} (hk : pred k p) : Linked pred p (some k) [k] := by
  simpa using (@Linked.nil κ pred p).snoc hk

/-- **Segments compose.** -/
lemma append {o p q : Option κ} {l l' : List κ} (h₁ : Linked pred o p l)
    (h₂ : Linked pred p q l') : Linked pred o q (l ++ l') := by
  induction h₂ with
  | nil => simpa using h₁
  | snoc _ hk ih =>
    rw [← List.append_assoc]
    exact ih.snoc hk

lemma eq_of_nil {o p : Option κ} (h : Linked pred o p []) : p = o := by
  generalize hl : ([] : List κ) = l at h
  cases h with
  | nil => rfl
  | snoc _ _ => simp at hl

/-- **The oldest key of a segment names the segment's start as its predecessor.** -/
lemma pred_head {o p : Option κ} {k : κ} {l : List κ} (h : Linked pred o p (k :: l)) :
    pred k o := by
  generalize hkl : k :: l = kl at h
  induction h generalizing l with
  | nil => cases hkl
  | @snoc p k' l' hprev hk ih =>
    cases l' with
    | nil =>
      simp only [List.nil_append, List.cons.injEq] at hkl
      obtain ⟨rfl, -⟩ := hkl
      rw [← hprev.eq_of_nil]
      exact hk
    | cons k'' l'' =>
      simp only [List.cons_append, List.cons.injEq] at hkl
      obtain ⟨rfl, -⟩ := hkl
      exact ih rfl

/-- Every key of a segment is reached from its newest key by following predecessors. -/
lemma exists_reach {o p : Option κ} {l : List κ} (h : Linked pred o p l) :
    ∀ x ∈ l, ∃ k, p = some k ∧ Relation.ReflTransGen (fun a b => pred a (some b)) k x := by
  induction h with
  | nil => simp
  | @snoc p k l _ hk ih =>
    intro x hx
    rcases List.mem_append.mp hx with hx | hx
    · obtain ⟨k', rfl, hreach⟩ := ih x hx
      exact ⟨k, rfl, .head hk hreach⟩
    · rw [List.mem_singleton.mp hx]
      exact ⟨k, rfl, .refl⟩

/-- **A whole history holds everything reachable from its newest key**, when each record
names one predecessor. -/
lemma mem_of_reach (hfun : ∀ k p q, pred k p → pred k q → p = q) {p : Option κ} {l : List κ}
    (h : Linked pred none p l) :
    ∀ k, p = some k → ∀ x, Relation.ReflTransGen (fun a b => pred a (some b)) k x → x ∈ l := by
  induction h with
  | nil => simp
  | @snoc p k l _ hk ih =>
    rintro k' hk' x hreach
    cases hk'
    rcases hreach.cases_head with rfl | ⟨y, hy, hrest⟩
    · exact List.mem_append_right l (List.mem_singleton_self _)
    · exact List.mem_append_left [k] (ih y (hfun k p (some y) hk hy) x hrest)

end Linked

end Ryeos
