import Mathlib

/-!
# Checked computations

Inversion lemmas for computations in `Except`: what a successful run of a
sequence of checks and steps says about each of them.  The lemmas are stated as
equivalences with `… = .ok …` on the left, so that a proof opens a successful
run with `simp only` and never unfolds the monad.
-/

namespace Lint4d.Lib

variable {ε α β σ : Type} {x : Except ε α} {b : β} {a : α} {e : ε} {check : α → Except ε Unit}
  {items : List α}

lemma bind_ok_iff {f : α → Except ε β} : x >>= f = .ok b ↔ ∃ a, x = .ok a ∧ f a = .ok b := by
  cases x with
  | error e => simp [bind, Except.bind]
  | ok a => simp [bind, Except.bind]

lemma ok_of_bind_ok {y : Except ε β} (h : x >>= (fun _ => y) = .ok b) : y = .ok b := by
  obtain ⟨_, -, h⟩ := bind_ok_iff.mp h
  exact h

lemma pure_ok_iff {b : α} : (pure a : Except ε α) = .ok b ↔ b = a := by
  simp [pure, Except.pure, eq_comm]

lemma throw_ok_iff {b : α} : (throw e : Except ε α) = .ok b ↔ False := by
  simp [throw, throwThe, MonadExceptOf.throw]

/-- A refusal before a computation: the refusal did not apply. -/
lemma refuse_ok_iff {c : Prop} [Decidable c] :
    (if c then .error e else x) = .ok a ↔ ¬ c ∧ x = .ok a := by
  split
  · rename_i hc
    simp [hc]
  · rename_i hc
    simp [hc]

/-- A check run on every item succeeds when it does on each. -/
lemma forM_ok_iff : items.forM check = .ok () ↔ ∀ a ∈ items, check a = .ok () := by
  induction items with
  | nil => simp [pure, Except.pure]
  | cons a items ih =>
    rw [List.forall_mem_cons, ← ih]
    change (check a >>= fun _ => items.forM check) = _ ↔ _
    rw [bind_ok_iff]
    constructor
    · intro ⟨_, ha, hrest⟩
      exact ⟨ha, hrest⟩
    · intro h
      exact ⟨(), h.1, h.2⟩

/-- A check of an optional value that passed holds of the value. -/
lemma option_forM_ok {value : Option α} (h : value.forM check = .ok ()) {a : α}
    (ha : value = some a) : check a = .ok () := by
  subst ha
  exact h

/-- What every step keeps, a whole successful run keeps. -/
lemma foldlM_invariant {step : σ → α → Except ε σ} {P : σ → Prop}
    (hstep : ∀ s a s', P s → step s a = .ok s' → P s') {s t : σ} (hs : P s)
    (hrun : items.foldlM step s = .ok t) : P t := by
  induction items generalizing s with
  | nil =>
    obtain rfl := pure_ok_iff.mp hrun
    exact hs
  | cons a items ih =>
    rw [List.foldlM_cons, bind_ok_iff] at hrun
    obtain ⟨s', hs', hrest⟩ := hrun
    exact ih (hstep s a s' hs hs') hrest

end Lint4d.Lib
