import Mathlib.Tactic

/-!
# Runs of interleaved steps

A system of agents over a shared state is a partial step function `next : σ → α → Option σ`: the
label `a : α` says which agent moves and how, and `next s a = none` when that move is not enabled.

`Run next ok s₀ s` says that `s` is reached from `s₀` by finitely many steps, each taken from a
state that satisfies the side condition `ok` for its label. `ok` carries what the environment
promises (a caller's precondition, a branch that is not taken); `Free` is the condition that
promises nothing. Invariants are proved by `Run.invariant`: once for the initial state and once for
one step. A schedule is a list of labels; `exec` runs it and `Run.of_exec` turns the result into a
run.

A `Simulation` compares two systems: every step of the first is matched by a run of the second, of
any length, so that what holds in every run of the second is known of the first
(`Simulation.run`).
-/

namespace Interleaving

variable {σ α τ β : Type*}

/-- The side condition that excludes no step. -/
def Free (_ : σ) (_ : α) : Prop := True

instance (s : σ) (a : α) : Decidable (Free s a) := .isTrue trivial

/-- States reached from `s₀` by steps that all meet `ok`. -/
inductive Run (next : σ → α → Option σ) (ok : σ → α → Prop) (s₀ : σ) : σ → Prop
  | refl : Run next ok s₀ s₀
  | step {s s' : σ} {a : α} : Run next ok s₀ s → ok s a → next s a = some s' → Run next ok s₀ s'

section

variable {next : σ → α → Option σ} {ok : σ → α → Prop} {s₀ s : σ}

/-- **Invariant rule.** What holds at the start and is kept by every step holds in every state. -/
theorem Run.invariant {P : σ → Prop} (h0 : P s₀)
    (hstep : ∀ s a s', P s → ok s a → next s a = some s' → P s') (h : Run next ok s₀ s) :
    P s := by
  induction h with
  | refl => exact h0
  | step _ hok hn ih => exact hstep _ _ _ ih hok hn

theorem Run.trans {t : σ} (h : Run next ok s₀ s) (h' : Run next ok s t) : Run next ok s₀ t := by
  induction h' with
  | refl => exact h
  | step _ hok hn ih => exact ih.step hok hn

theorem Run.single {a : α} (hok : ok s₀ a) (hn : next s₀ a = some s) : Run next ok s₀ s :=
  Run.step .refl hok hn

end

/-- Runs a schedule, stopping at the first label that is not enabled or breaks the condition. -/
def exec (next : σ → α → Option σ) (ok : σ → α → Prop) [∀ s a, Decidable (ok s a)] :
    σ → List α → Option σ
  | s, [] => some s
  | s, a :: as => if ok s a then (next s a).bind (exec next ok · as) else none

theorem Run.of_exec {next : σ → α → Option σ} {ok : σ → α → Prop} [∀ s a, Decidable (ok s a)]
    {s₀ : σ} {l : List α} : ∀ {s s' : σ}, Run next ok s₀ s → exec next ok s l = some s' →
      Run next ok s₀ s' := by
  induction l with
  | nil =>
    intro s s' hr h
    obtain rfl : s = s' := Option.some.inj h
    exact hr
  | cons a as ih =>
    intro s s' hr h
    unfold exec at h
    split_ifs at h with hok
    obtain ⟨t, ht, hrest⟩ := Option.bind_eq_some_iff.mp h
    exact ih (hr.step hok ht) hrest

/-! ## Two systems -/

/-- **Forward simulation.** Whatever step the first system makes from a state that `R` relates to
one of the second, the second can make some steps of its own so that the two are related again. -/
structure Simulation (next : σ → α → Option σ) (ok : σ → α → Prop) (next' : τ → β → Option τ)
    (ok' : τ → β → Prop) (R : σ → τ → Prop) : Prop where
  step : ∀ {s t a s'}, R s t → ok s a → next s a = some s' → ∃ t', Run next' ok' t t' ∧ R s' t'

theorem Simulation.run {next : σ → α → Option σ} {ok : σ → α → Prop} {next' : τ → β → Option τ}
    {ok' : τ → β → Prop} {R : σ → τ → Prop} (h : Simulation next ok next' ok' R) {s₀ s : σ}
    {t₀ : τ} (h0 : R s₀ t₀) (hrun : Run next ok s₀ s) : ∃ t, Run next' ok' t₀ t ∧ R s t := by
  induction hrun with
  | refl => exact ⟨t₀, .refl, h0⟩
  | step _ hok hn ih =>
    obtain ⟨t, ht, hR⟩ := ih
    obtain ⟨t', ht', hR'⟩ := h.step hR hok hn
    exact ⟨t', ht.trans ht', hR'⟩

end Interleaving
