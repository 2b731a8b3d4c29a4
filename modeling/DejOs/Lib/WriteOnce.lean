import Mathlib.Tactic

/-!
# Write-once maps

A partial map whose entries are never replaced: `add` gives a key its entry when it has none, and
answers whether it did. A sequence of additions leaves every key with what it had, or else with the
first entry it was offered (`addAll_map`). When the keys offered are different, every addition is
answered as if it were the only one (`addAll_answers`) and their order does not matter
(`addAll_perm`).
-/

namespace WriteOnce

variable {K E : Type*} [DecidableEq K]

/-- Give `k` the entry `e` unless it has one, and say whether it was given. -/
def add (m : K → Option E) (k : K) (e : E) : Bool × (K → Option E) :=
  if m k = none then (true, Function.update m k (some e)) else (false, m)

/-- The answers to a list of additions, in their order, and the map after them. -/
def addAll (m : K → Option E) : List (K × E) → List Bool × (K → Option E)
  | [] => ([], m)
  | r :: l =>
    let a := add m r.1 r.2
    let b := addAll a.2 l
    (a.1 :: b.1, b.2)

variable {m : K → Option E} {k : K} {e : E} {l l' : List (K × E)}

@[simp] theorem addAll_nil : addAll m [] = ([], m) := rfl

@[simp] theorem addAll_cons (r : K × E) : addAll m (r :: l) =
    ((add m r.1 r.2).1 :: (addAll (add m r.1 r.2).2 l).1, (addAll (add m r.1 r.2).2 l).2) := rfl

theorem add_fst (m : K → Option E) (k : K) (e : E) : (add m k e).1 = (m k).isNone := by
  unfold add
  cases h : m k <;> simp

theorem add_self (m : K → Option E) (k : K) (e : E) : (add m k e).2 k = (m k).or (some e) := by
  unfold add
  cases h : m k <;> simp [h]

theorem add_of_ne {k' : K} (h : k' ≠ k) : (add m k e).2 k' = m k' := by
  unfold add
  split
  · exact Function.update_of_ne h ..
  · rfl

/-- A key keeps its entry, and otherwise has the first it was offered. -/
theorem addAll_map (m : K → Option E) (l : List (K × E)) (k : K) :
    (addAll m l).2 k = (m k).or (l.lookup k) := by
  induction l generalizing m with
  | nil => simp
  | cons r l ih =>
    rw [addAll_cons, List.lookup_cons]
    show (addAll (add m r.1 r.2).2 l).2 k = _
    rw [ih]
    by_cases hk : k = r.1
    · subst hk
      rw [add_self]
      cases m r.1 <;> simp
    · have hb : (k == r.1) = false := by simpa using hk
      rw [add_of_ne hk, hb]

/-- With different keys, each addition is answered as on the map before all of them. -/
theorem addAll_answers (m : K → Option E) (h : (l.map Prod.fst).Nodup) :
    (addAll m l).1 = l.map fun r => (m r.1).isNone := by
  induction l generalizing m with
  | nil => rfl
  | cons r l ih =>
    rw [List.map_cons, List.nodup_cons] at h
    rw [addAll_cons, List.map_cons, add_fst, ih _ h.2]
    refine congrArg _ (List.map_congr_left fun q hq => ?_)
    have hne : q.1 ≠ r.1 := fun he => h.1 (he ▸ List.mem_map_of_mem hq)
    rw [add_of_ne hne]

/-- With different keys, a key is offered the one entry listed for it. -/
theorem lookup_eq_some_iff_mem (h : (l.map Prod.fst).Nodup) : l.lookup k = some e ↔ (k, e) ∈ l := by
  induction l with
  | nil => simp
  | cons r l ih =>
    obtain ⟨k', e'⟩ := r
    rw [List.map_cons, List.nodup_cons] at h
    rw [List.lookup_cons, List.mem_cons]
    by_cases hk : k = k'
    · subst hk
      have hnot : (k, e) ∉ l := fun hm => h.1 (List.mem_map.mpr ⟨_, hm, rfl⟩)
      simp [hnot, eq_comm]
    · have hb : (k == k') = false := by simpa using hk
      rw [hb, ih h.2]
      simp [hk]

/-- **The order of additions to different keys does not matter.** -/
theorem addAll_perm (m : K → Option E) (h : (l.map Prod.fst).Nodup) (hp : l.Perm l') :
    (addAll m l).2 = (addAll m l').2 := by
  have h' : (l'.map Prod.fst).Nodup := (hp.map Prod.fst).nodup_iff.mp h
  have hlookup : ∀ k, l.lookup k = l'.lookup k := fun k => Option.ext fun e => by
    rw [lookup_eq_some_iff_mem h, lookup_eq_some_iff_mem h', hp.mem_iff]
  funext k
  rw [addAll_map, addAll_map, hlookup]

end WriteOnce
