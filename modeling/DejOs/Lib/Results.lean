import Mathlib.Data.Set.Functor
import Mathlib.Tactic

/-!
# Programs by their results

A program that can stop with an exception, and need not come to an end at all, is the set of its
results: a value of `ExceptT ε SetM`. One that comes to a single result is equal to `pure` or
`throw` of it, so that a run is a chain of equations. `loop` repeats a program until it leaves.

`Ensures` says something of all results. Its rules are those of the constructs, and for a loop an
invariant.
-/

namespace Results

universe u

variable {ε σ τ υ : Type u}

/-- A program, by its results. -/
abbrev Program (ε τ : Type u) := ExceptT ε SetM τ

/-- `r` is a result. -/
def Yields (x : Program ε τ) (r : Except ε τ) : Prop := r ∈ x.run.run

/-- The loop of `body` comes from `s` to `r`: `body` goes on to the next round with `inl`, and
leaves with `inr`. -/
inductive Leaves (body : σ → Program ε (σ ⊕ τ)) : σ → Except ε τ → Prop
  | stop {s e} (h : Yields (body s) (.error e)) : Leaves body s (.error e)
  | out {s r} (h : Yields (body s) (.ok (.inr r))) : Leaves body s (.ok r)
  | again {s t r} (h : Yields (body s) (.ok (.inl t))) (ht : Leaves body t r) : Leaves body s r

def loop (body : σ → Program ε (σ ⊕ τ)) (s : σ) : Program ε τ :=
  ExceptT.mk {r : Except ε τ | Leaves body s r}

/-! ## Results -/

section Rules

variable {x y : Program ε τ} {f : τ → Program ε υ} {a : τ} {e : ε} {r : Except ε τ}
  {q : Except ε υ}

theorem program_ext (h : ∀ r, Yields x r ↔ Yields y r) : x = y := Set.ext h

theorem yields_pure : Yields (pure a : Program ε τ) r ↔ r = .ok a := Iff.rfl

theorem yields_throw : Yields (throw e : Program ε τ) r ↔ r = .error e := Iff.rfl

theorem yields_bind : Yields (x >>= f) q ↔
    (∃ a, Yields x (.ok a) ∧ Yields (f a) q) ∨ ∃ e, Yields x (.error e) ∧ q = .error e := by
  have hbind : Yields (x >>= f) q ↔ ∃ r, Yields x r ∧
      Yields (match r with | .ok a => f a | .error e => (throw e : Program ε υ)) q := by
    refine Set.mem_iUnion₂.trans (exists_congr fun r => ?_)
    rw [exists_prop]
    refine and_congr_right fun _ => ?_
    cases r <;> rfl
  rw [hbind]
  constructor
  · rintro ⟨_ | a, hx, hq⟩
    · exact .inr ⟨_, hx, hq⟩
    · exact .inl ⟨a, hx, hq⟩
  · rintro (⟨a, hx, hq⟩ | ⟨e, hx, hq⟩)
    · exact ⟨.ok a, hx, hq⟩
    · exact ⟨.error e, hx, hq⟩

@[simp] theorem throw_bind (e : ε) (f : τ → Program ε υ) :
    (throw e : Program ε τ) >>= f = throw e := by
  apply program_ext
  intro q
  rw [yields_bind]
  simp [yields_throw]

@[simp] theorem map_throw (g : τ → υ) (e : ε) :
    g <$> (throw e : Program ε τ) = throw e := by
  rw [← bind_pure_comp, throw_bind]

theorem throw_ne_pure : (throw e : Program ε τ) ≠ pure a := by
  intro h
  have hyields : Yields (throw e : Program ε τ) (.ok a) := by
    rw [h]
    exact yields_pure.mpr rfl
  cases yields_throw.mp hyields

theorem yields_tryCatch {c : ε → Program ε τ} : Yields (tryCatch x c) r ↔
    (∃ a, Yields x (.ok a) ∧ r = .ok a) ∨ ∃ e, Yields x (.error e) ∧ Yields (c e) r := by
  constructor
  · intro hr
    obtain ⟨q, hq, hr⟩ := Set.mem_iUnion₂.mp hr
    cases q with
    | ok a => exact .inl ⟨a, hq, hr⟩
    | error e => exact .inr ⟨e, hq, hr⟩
  · rintro (⟨a, ha, rfl⟩ | ⟨e, he, hr⟩)
    · exact Set.mem_iUnion₂.mpr ⟨.ok a, ha, rfl⟩
    · exact Set.mem_iUnion₂.mpr ⟨.error e, he, hr⟩

@[simp] theorem tryCatch_throw (e : ε) (c : ε → Program ε τ) :
    tryCatch (throw e : Program ε τ) c = c e := by
  apply program_ext
  intro r
  rw [yields_tryCatch]
  simp [yields_throw]

end Rules

/-! ## Loops -/

section LoopRules

variable {body : σ → Program ε (σ ⊕ τ)} {s t : σ} {a : τ} {e : ε}

theorem loop_eq (body : σ → Program ε (σ ⊕ τ)) (s : σ) : loop body s =
    body s >>= Sum.elim (loop body) pure := by
  apply program_ext
  intro r
  rw [yields_bind, Sum.exists]
  show Leaves body s r ↔ _
  constructor
  · intro h
    cases h with
    | stop h => exact .inr ⟨_, h, rfl⟩
    | out h => exact .inl (.inr ⟨_, h, rfl⟩)
    | again h ht => exact .inl (.inl ⟨_, h, ht⟩)
  · rintro ((⟨t, h, ht⟩ | ⟨a, h, rfl⟩) | ⟨e, h, rfl⟩)
    · exact .again h ht
    · exact .out h
    · exact .stop h

theorem loop_next (h : body s = pure (.inl t)) : loop body s = loop body t := by
  rw [loop_eq, h, pure_bind]
  rfl

theorem loop_out (h : body s = pure (.inr a)) : loop body s = pure a := by
  rw [loop_eq, h, pure_bind]
  rfl

theorem loop_stop (h : body s = throw e) : loop body s = throw e := by
  rw [loop_eq, h, throw_bind]

end LoopRules

/-! ## What all results have -/

/-- Every result is a value with `Q` or an exception with `E`. -/
def Ensures (x : Program ε τ) (Q : τ → Prop) (E : ε → Prop) : Prop :=
  (∀ a, Yields x (.ok a) → Q a) ∧ ∀ e, Yields x (.error e) → E e

section EnsuresRules

variable {x : Program ε τ} {f : τ → Program ε υ} {body : σ → Program ε (σ ⊕ τ)} {s : σ} {a : τ}
  {e : ε} {Q Q' : τ → Prop} {R : υ → Prop} {E : ε → Prop} {I : σ → Prop}

theorem ensures_pure (h : Q a) : Ensures (pure a : Program ε τ) Q E := by
  constructor
  · intro b hb
    obtain rfl := Except.ok.inj (yields_pure.mp hb)
    exact h
  · intro e he
    cases yields_pure.mp he

theorem ensures_throw (h : E e) : Ensures (throw e : Program ε τ) Q E := by
  constructor
  · intro b hb
    cases yields_throw.mp hb
  · intro e' he
    obtain rfl := Except.error.inj (yields_throw.mp he)
    exact h

theorem Ensures.imp {E' : ε → Prop} (h : Ensures x Q E) (hQ : ∀ a, Q a → Q' a)
    (hE : ∀ e, E e → E' e) : Ensures x Q' E' :=
  ⟨fun a ha => hQ a (h.1 a ha), fun e he => hE e (h.2 e he)⟩

theorem Ensures.bind (h : Ensures x Q E) (hf : ∀ a, Q a → Ensures (f a) R E) :
    Ensures (x >>= f) R E := by
  constructor
  · intro b hb
    obtain ⟨a, ha, hb⟩ | ⟨e, -, he⟩ := yields_bind.mp hb
    · exact (hf a (h.1 a ha)).1 b hb
    · cases he
  · intro e he
    obtain ⟨a, ha, he⟩ | ⟨e', he', heq⟩ := yields_bind.mp he
    · exact (hf a (h.1 a ha)).2 e he
    · obtain rfl := Except.error.inj heq
      exact h.2 e he'

theorem Ensures.map (g : τ → υ) (h : Ensures x (fun a => R (g a)) E) : Ensures (g <$> x) R E := by
  rw [← bind_pure_comp]
  exact h.bind fun a ha => ensures_pure ha

theorem Ensures.tryCatch {F : ε → Prop} {c : ε → Program ε τ} (h : Ensures x Q F)
    (hc : ∀ e, F e → Ensures (c e) Q E) : Ensures (tryCatch x c) Q E := by
  constructor
  · intro a ha
    obtain ⟨b, hb, hab⟩ | ⟨e, he, ha⟩ := yields_tryCatch.mp ha
    · obtain rfl := Except.ok.inj hab
      exact h.1 _ hb
    · exact (hc e (h.2 e he)).1 a ha
  · intro e he
    obtain ⟨b, hb, hab⟩ | ⟨e', he', he⟩ := yields_tryCatch.mp he
    · cases hab
    · exact (hc e' (h.2 e' he')).2 e he

/-- What the rounds keep, the loop keeps. -/
theorem Ensures.loop (hbody : ∀ s, I s → Ensures (body s) (Sum.elim I Q) E) (hs : I s) :
    Ensures (loop body s) Q E := by
  have hleaves : ∀ r, Leaves body s r → match r with | .ok a => Q a | .error e => E e := by
    intro r h
    induction h with
    | stop h => exact (hbody _ hs).2 _ h
    | out h => exact (hbody _ hs).1 _ h
    | again h _ ih => exact ih ((hbody _ hs).1 _ h)
  exact ⟨fun a ha => hleaves _ ha, fun e he => hleaves _ he⟩

end EnsuresRules

end Results
