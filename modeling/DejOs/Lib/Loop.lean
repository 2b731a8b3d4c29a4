import Mathlib.Tactic
import Mathlib.Data.Fintype.Card

/-!
# Loops

The body of a loop is a function `body : σ → σ ⊕ ρ`: from the state at the head of a round it goes
on to the next round or leaves the loop with a result. `run body n` makes at most `n` rounds;
`Returns` and `Halts` say that enough rounds give a result. The states at the heads of the rounds
are the orbit of the partial function `again body`.

A loop often decides whether to go on by a part of its state only. `orbit_map` then compares it with
the partial function on that part, and `ends_iff` says when such an orbit ends: over a finite type,
exactly when it does not come back to a point.
-/

namespace Loop

/-! ## Orbits of a partial function -/

section Orbit

variable {α β : Type*} {f : α → Option α} {a b x : α}

/-- The point after `n` steps. -/
def orbit (f : α → Option α) : ℕ → α → Option α
  | 0, a => some a
  | n + 1, a => (f a).bind (orbit f n)

@[simp] theorem orbit_zero : orbit f 0 a = some a := rfl

theorem orbit_succ (n : ℕ) : orbit f (n + 1) a = (f a).bind (orbit f n) := rfl

theorem orbit_of_some (n : ℕ) (h : f a = some b) : orbit f (n + 1) a = orbit f n b := by
  rw [orbit_succ, h]
  rfl

theorem orbit_add (m n : ℕ) : orbit f (m + n) a = (orbit f m a).bind (orbit f n) := by
  induction m generalizing a with
  | zero => rw [Nat.zero_add]; rfl
  | succ m ih =>
    rw [Nat.succ_add, orbit_succ, orbit_succ]
    cases f a with
    | none => rfl
    | some b => exact ih

theorem orbit_succ' (n : ℕ) : orbit f (n + 1) a = (orbit f n a).bind f := by
  rw [orbit_add]
  cases orbit f n a with
  | none => rfl
  | some x =>
    show (f x).bind (orbit f 0) = f x
    cases f x <;> rfl

theorem orbit_none_of_le {m n : ℕ} (h : orbit f m a = none) (hle : m ≤ n) : orbit f n a = none := by
  obtain ⟨k, rfl⟩ := Nat.exists_eq_add_of_le hle
  rw [orbit_add, h]
  rfl

theorem orbit_map {g : β → Option β} {φ : α → β} (h : ∀ a, (f a).map φ = g (φ a)) (n : ℕ) :
    (orbit f n a).map φ = orbit g n (φ a) := by
  induction n generalizing a with
  | zero => rfl
  | succ n ih =>
    rw [orbit_succ, orbit_succ, ← h]
    cases f a with
    | none => rfl
    | some b => exact ih

/-- An orbit that comes back to a point goes round for ever. -/
theorem orbit_periodic {i j : ℕ} (hij : i < j) (hi : orbit f i a = some x)
    (hj : orbit f j a = some x) (n : ℕ) : orbit f n a ≠ none := by
  obtain ⟨k, rfl⟩ := Nat.exists_eq_add_of_lt hij
  -- after `i` steps and any number of rounds of length `k + 1` it is at `x`
  have hround : ∀ r, orbit f (i + r * (k + 1)) a = some x := by
    intro r
    induction r with
    | zero => rw [Nat.zero_mul, Nat.add_zero]; exact hi
    | succ r ih =>
      have hback : orbit f (k + 1) x = some x := by
        rw [show i + k + 1 = i + (k + 1) by omega, orbit_add, hi] at hj
        exact hj
      rw [Nat.succ_mul, ← Nat.add_assoc, orbit_add, ih]
      exact hback
  intro hn
  have hle : n ≤ i + n * (k + 1) := by
    have hmul : n ≤ n * (k + 1) := Nat.le_mul_of_pos_right n (Nat.succ_pos k)
    omega
  have hnone := orbit_none_of_le hn hle
  rw [hround n] at hnone
  cases hnone

/-- **When an orbit ends.** Over a finite type: exactly when it meets no point twice. -/
theorem ends_iff [Finite α] : (∃ n, orbit f n a = none) ↔
    ∀ i j x, i < j → orbit f i a = some x → orbit f j a ≠ some x := by
  constructor
  · rintro ⟨n, hn⟩ i j x hij hi hj
    exact orbit_periodic hij hi hj n hn
  · intro hinj
    by_contra hall
    have hsome : ∀ n, ∃ x, orbit f n a = some x := fun n =>
      Option.ne_none_iff_exists'.mp fun h => hall ⟨n, h⟩
    choose p hp using hsome
    refine not_injective_infinite_finite p fun i j hpij => ?_
    by_contra hne
    rcases Nat.lt_or_gt_of_ne hne with hlt | hgt
    · exact hinj i j (p i) hlt (hp i) (hpij ▸ hp j)
    · exact hinj j i (p j) hgt (hp j) (hpij ▸ hp i)

end Orbit

/-! ## Loops with a result -/

section Body

variable {σ ρ : Type*} {body : σ → σ ⊕ ρ} {s t : σ} {r r' : ρ}

/-- At most `n` rounds. -/
def run (body : σ → σ ⊕ ρ) : ℕ → σ → Option ρ
  | 0, _ => none
  | n + 1, s =>
    match body s with
    | .inl t => run body n t
    | .inr r => some r

/-- The loop leaves with `r`. -/
def Returns (body : σ → σ ⊕ ρ) (s : σ) (r : ρ) : Prop := ∃ n, run body n s = some r

/-- The loop leaves. -/
def Halts (body : σ → σ ⊕ ρ) (s : σ) : Prop := ∃ r, Returns body s r

/-- The state at the head of the next round, if there is one. -/
def again (body : σ → σ ⊕ ρ) (s : σ) : Option σ := (body s).getLeft?

theorem again_eq_some : again body s = some t ↔ body s = .inl t := Sum.getLeft?_eq_some_iff

theorem again_eq_none (h : body s = .inr r) : again body s = none := by
  unfold again
  rw [h]
  rfl

theorem Returns.here (h : body s = .inr r) : Returns body s r :=
  ⟨1, by unfold run; rw [h]⟩

theorem Returns.next (h : body s = .inl t) (ht : Returns body t r) : Returns body s r := by
  obtain ⟨n, hn⟩ := ht
  refine ⟨n + 1, ?_⟩
  unfold run
  rw [h]
  exact hn

theorem Returns.tail (h : body s = .inl t) (hs : Returns body s r) : Returns body t r := by
  obtain ⟨n, hn⟩ := hs
  cases n with
  | zero => cases hn
  | succ n =>
    unfold run at hn
    rw [h] at hn
    exact ⟨n, hn⟩

/-- A relation between the states and the result holds if it holds in the last round and is handed
back from each round to the one before. -/
theorem Returns.rel {P : σ → ρ → Prop} (hlast : ∀ s r, body s = .inr r → P s r)
    (hnext : ∀ s t r, body s = .inl t → P t r → P s r) (h : Returns body s r) : P s r := by
  obtain ⟨n, hn⟩ := h
  induction n generalizing s with
  | zero => cases hn
  | succ n ih =>
    unfold run at hn
    cases hb : body s with
    | inl t =>
      rw [hb] at hn
      exact hnext s t r hb (ih hn)
    | inr r' =>
      rw [hb] at hn
      obtain rfl := Option.some.inj hn
      exact hlast s r' hb

theorem Returns.of_orbit {n : ℕ} (h : orbit (again body) n s = some t) (ht : Returns body t r) :
    Returns body s r := by
  induction n generalizing s with
  | zero =>
    obtain rfl := Option.some.inj h
    exact ht
  | succ n ih =>
    obtain ⟨u, hu, h⟩ := Option.bind_eq_some_iff.mp h
    exact Returns.next (again_eq_some.mp hu) (ih h)

theorem Returns.last (h : Returns body s r) :
    ∃ n t, orbit (again body) n s = some t ∧ body t = .inr r := by
  obtain ⟨n, hn⟩ := h
  induction n generalizing s with
  | zero => cases hn
  | succ n ih =>
    unfold run at hn
    cases hb : body s with
    | inl u =>
      rw [hb] at hn
      obtain ⟨m, t, hm, ht⟩ := ih hn
      exact ⟨m + 1, t, (orbit_of_some m (again_eq_some.mpr hb)).trans hm, ht⟩
    | inr r' =>
      rw [hb] at hn
      obtain rfl := Option.some.inj hn
      exact ⟨0, s, rfl, hb⟩

theorem run_succ_of_some {n : ℕ} (h : run body n s = some r) : run body (n + 1) s = some r := by
  induction n generalizing s with
  | zero => cases h
  | succ n ih =>
    unfold run at h ⊢
    cases hb : body s with
    | inl t =>
      rw [hb] at h
      exact ih h
    | inr r' =>
      rw [hb] at h
      exact h

theorem run_of_le {m n : ℕ} (h : run body m s = some r) (hle : m ≤ n) : run body n s = some r := by
  induction n, hle using Nat.le_induction with
  | base => exact h
  | succ n _ ih => exact run_succ_of_some ih

theorem Returns.unique (h : Returns body s r) (h' : Returns body s r') : r = r' := by
  obtain ⟨m, hm⟩ := h
  obtain ⟨n, hn⟩ := h'
  have hm := run_of_le hm (le_max_left m n)
  rw [run_of_le hn (le_max_right m n)] at hm
  exact (Option.some.inj hm).symm

theorem run_eq_none_iff {n : ℕ} : run body n s = none ↔ orbit (again body) n s ≠ none := by
  induction n generalizing s with
  | zero => simp [run]
  | succ n ih =>
    unfold run
    cases hb : body s with
    | inl t => rw [orbit_of_some n (again_eq_some.mpr hb)]; exact ih
    | inr r => simp [orbit_succ, again_eq_none hb]

/-- A loop halts exactly when the orbit of its heads ends. -/
theorem halts_iff : Halts body s ↔ ∃ n, orbit (again body) n s = none := by
  constructor
  · rintro ⟨r, n, hn⟩
    refine ⟨n, ?_⟩
    by_contra hne
    rw [run_eq_none_iff.mpr hne] at hn
    cases hn
  · rintro ⟨n, hn⟩
    cases hr : run body n s with
    | none => exact absurd hn (run_eq_none_iff.mp hr)
    | some r => exact ⟨r, n, hr⟩

end Body

/-! ## Two nested counters -/

section Nested

variable {σ τ : Type*} {w : ℕ}

/-- `for (i = 0; outer; i++) for (j = 0; inner; j++) visit`, with counters of `w` bits. The tests
may change the state as well. Without a `j` the state is at the head of the outer loop. -/
def nested (outer inner : σ → BitVec w → σ × Bool) (visit : σ → BitVec w → BitVec w → σ) :
    σ × BitVec w × Option (BitVec w) → (σ × BitVec w × Option (BitVec w)) ⊕ σ
  | (s, i, none) =>
    if (outer s i).2 then .inl ((outer s i).1, i, some 0) else .inr (outer s i).1
  | (s, i, some j) =>
    if (inner s j).2 then .inl (visit (inner s j).1 i j, i, some (j + 1))
    else .inl ((inner s j).1, i + 1, none)

/-- The values of two nested counters, in order. -/
def pairs (M N : ℕ) : List (ℕ × ℕ) := (List.range M).flatMap fun k => (List.range N).map (k, ·)

@[simp] theorem mem_pairs {M N : ℕ} {p : ℕ × ℕ} : p ∈ pairs M N ↔ p.1 < M ∧ p.2 < N := by
  obtain ⟨k, l⟩ := p
  simp [pairs]

/-- While `P` holds the tests compare the counters with `M` and `N`; what the loops are about is
`view`, which the tests leave alone and a visit steps on. -/
structure NestedCounts (outer inner : σ → BitVec w → σ × Bool) (visit : σ → BitVec w → BitVec w → σ)
    (P : σ → Prop) (view : σ → τ) (step : τ → ℕ → ℕ → τ) (M N : ℕ) : Prop where
  outer : ∀ s i, P s → P (outer s i).1 ∧ view (outer s i).1 = view s ∧
    ((outer s i).2 = true ↔ i.toNat < M)
  inner : ∀ s j, P s → P (inner s j).1 ∧ view (inner s j).1 = view s ∧
    ((inner s j).2 = true ↔ j.toNat < N)
  visit : ∀ s i j, P s → i.toNat < M → j.toNat < N →
    P (visit s i j) ∧ view (visit s i j) = step (view s) i.toNat j.toNat
  outer_lt : M < 2 ^ w
  inner_lt : N < 2 ^ w

namespace NestedCounts

variable {outer inner : σ → BitVec w → σ × Bool} {visit : σ → BitVec w → BitVec w → σ}
  {P : σ → Prop} {view : σ → τ} {step : τ → ℕ → ℕ → τ} {M N : ℕ} {s : σ} {i j : BitVec w}

theorem toNat_add_one {n : ℕ} (hn : i.toNat < n) (hlt : n < 2 ^ w) :
    (i + 1).toNat = i.toNat + 1 := by
  have hw : 0 < w := Nat.pos_of_ne_zero (by rintro rfl; omega)
  show (i + 1#w).toNat = _
  rw [BitVec.toNat_add, BitVec.toNat_one hw, Nat.mod_eq_of_lt (by omega)]

theorem inner_loop (h : NestedCounts outer inner visit P view step M N) (hs : P s)
    (hi : i.toNat < M) {n : ℕ} (hj : j.toNat + n = N) : ∃ t, P t ∧
      view t = (List.range' j.toNat n).foldl (fun a k => step a i.toNat k) (view s) ∧
      ∀ r, Returns (nested outer inner visit) (t, i + 1, none) r →
        Returns (nested outer inner visit) (s, i, some j) r := by
  induction n generalizing s j with
  | zero =>
    obtain ⟨hP, hview, htest⟩ := h.inner s j hs
    refine ⟨_, hP, hview, fun r hr => Returns.next ?_ hr⟩
    exact if_neg fun hlt => by have := htest.mp hlt; omega
  | succ n ih =>
    obtain ⟨hP, hview, htest⟩ := h.inner s j hs
    obtain ⟨hP', hview'⟩ := h.visit _ i j hP hi (by omega)
    have hnext := toNat_add_one (show j.toNat < N by omega) h.inner_lt
    obtain ⟨t, ht, hvt, hret⟩ := ih hP' (j := j + 1) (by omega)
    refine ⟨t, ht, ?_, fun r hr => Returns.next ?_ (hret r hr)⟩
    · rw [hvt, hnext, hview', hview, List.range'_succ, List.foldl_cons]
    · exact if_pos (htest.mpr (by omega))

theorem outer_loop (h : NestedCounts outer inner visit P view step M N) (hs : P s) {n : ℕ}
    (hi : i.toNat + n = M) : ∃ t, P t ∧
      view t = (List.range' i.toNat n).foldl
        (fun a k => (List.range N).foldl (fun a l => step a k l) a) (view s) ∧
      Returns (nested outer inner visit) (s, i, none) t := by
  induction n generalizing s i with
  | zero =>
    obtain ⟨hP, hview, htest⟩ := h.outer s i hs
    refine ⟨_, hP, hview, Returns.here ?_⟩
    exact if_neg fun hlt => by have := htest.mp hlt; omega
  | succ n ih =>
    obtain ⟨hP, hview, htest⟩ := h.outer s i hs
    have hnext := toNat_add_one (show i.toNat < M by omega) h.outer_lt
    have hzero : (0 : BitVec w).toNat = 0 := BitVec.toNat_zero ..
    obtain ⟨u, hu, hvu, hrow⟩ := h.inner_loop (j := 0) hP (i := i) (by omega)
      (n := N) (by omega)
    obtain ⟨t, ht, hvt, hret⟩ := ih hu (i := i + 1) (by omega)
    refine ⟨t, ht, ?_, Returns.next ?_ (hrow t hret)⟩
    · rw [hvt, hvu, hview, hnext, hzero, List.range'_succ, List.foldl_cons, List.range_eq_range']
    · exact if_pos (htest.mpr (by omega))

/-- **Nested counters.** The loops leave, and have visited every pair once, row by row. -/
theorem returns (h : NestedCounts outer inner visit P view step M N) (hs : P s) : ∃ t, P t ∧
    view t = (pairs M N).foldl (fun a p => step a p.1 p.2) (view s) ∧
    Returns (nested outer inner visit) (s, 0, none) t := by
  have hzero : (0 : BitVec w).toNat = 0 := BitVec.toNat_zero ..
  obtain ⟨t, ht, hvt, hret⟩ := h.outer_loop hs (i := 0) (n := M) (by omega)
  refine ⟨t, ht, ?_, hret⟩
  rw [hvt, hzero, ← List.range_eq_range', pairs, List.foldl_flatMap]
  simp only [List.foldl_map]

end NestedCounts

end Nested

end Loop
