import DejOs.MapPage

/-!
# Sequences of `map_page` calls

The callers of `map_page` ignore its result, so what a sequence of calls does is said for both:
`Filled` describes the walks after requests that all came back, whether or not their pages were
mapped before. It composes (`Filled.append`), and one call gives one request (`mapPage_filled`).

Whether a call comes back is a matter of free frames: it takes one for every table that is missing
on the way of its page, three at most (`mapPage_returns`, `missing_le_three`).
-/

namespace DejOs

open RadixTable

/-! ## States that agree on the tables of a root -/

section Agree

variable {V : Set U64} {root : U64} {s s' : Vm}

/-- What is known of a root stays known when its tables are left alone. -/
theorem WellFormed.of_agree (hw : WellFormed V root s)
    (hmem : ∀ p t, tableFrom s.mem root p = some t → s'.mem t = s.mem t)
    (hfree : s'.free <:+ s.free) (hmine : s'.alloc.lock.Mine s'.alloc.cpu) :
    WellFormed V root s' := by
  have hsame : ∀ p, tableFrom s'.mem root p = tableFrom s.mem root p := fun p =>
    tableAt_congr (Agree.of_tables hmem)
  constructor
  · intro p q t hp hq
    have hp := (hsame p).symm.trans hp
    have hq := (hsame q).symm.trans hq
    exact hw.tree p q t hp hq
  · intro v hv p j q t hpath hq hp
    rw [hsame] at hp
    rw [hmem p t hp]
    exact hw.clean v hv p j q t hpath hq hp
  · exact fun f hf => hw.frames f (hfree.subset hf)
  · exact hw.nodup.sublist hfree.sublist
  · intro f hf p
    rw [hsame]
    exact hw.apart f (hfree.subset hf) p
  · exact hmine

theorem hwWalk_congr {mem : Mem} {v w : U64} (h : path w = path v) :
    hwWalk mem root w = hwWalk mem root v := by
  unfold hwWalk
  rw [h]

theorem hwWalk_of_agree (hmem : ∀ p t, tableFrom s.mem root p = some t → s'.mem t = s.mem t)
    (w : U64) : hwWalk s'.mem root w = hwWalk s.mem root w :=
  walk_congr (Agree.of_tables hmem)

theorem agree_of_free (hw : WellFormed V root s) {f : U64} (hf : f ∈ s.free)
    {row : Fin 512 → U64} {p : List (Fin 512)} {t : U64} (ht : tableFrom s.mem root p = some t) :
    Function.update s.mem f row t = s.mem t := by
  have hne : t ≠ f := fun e => hw.apart f hf p (e ▸ ht)
  exact Function.update_of_ne hne ..

end Agree

/-! ## Requests -/

/-- What calls of `map_page` that came back have done, for requests of an entry at an address. -/
structure Filled (V : Set U64) (root : U64) (reqs : List (U64 × U64)) (s s' : Vm) : Prop where
  wf : WellFormed V root s'
  grows : Grows V root s s'
  walks : ∀ w, hwWalk s'.mem root w = hwWalk s.mem root w ∨
    (hwWalk s.mem root w = none ∧ ∃ r ∈ reqs, path r.1 = path w ∧
      ∃ es, es.length = 3 ∧ hwWalk s'.mem root w = some (es ++ [r.2]))
  mapped : ∀ r ∈ reqs, hwWalk s'.mem root r.1 ≠ none

section Filled

variable {V : Set U64} {root : U64} {s s' s₁ s₂ s₃ : Vm} {reqs reqs' : List (U64 × U64)}

theorem Filled.nil (hw : WellFormed V root s) : Filled V root [] s s :=
  ⟨hw, .refl V root s, fun _ => Or.inl rfl, fun _ hr => by cases hr⟩

theorem Filled.walk_of_ne (h : Filled V root reqs s s') {w : U64}
    (hw : hwWalk s.mem root w ≠ none) : hwWalk s'.mem root w = hwWalk s.mem root w :=
  (h.walks w).resolve_right fun e => hw e.1

theorem Filled.append (h : Filled V root reqs s₁ s₂) (h' : Filled V root reqs' s₂ s₃) :
    Filled V root (reqs ++ reqs') s₁ s₃ := by
  refine ⟨h'.wf, h.grows.trans h'.grows, fun w => ?_, fun r hr => ?_⟩
  · rcases h'.walks w with he | ⟨hnone, r, hr, hpath, es, hlen, hes⟩
    · rcases h.walks w with he' | ⟨hnone, r, hr, hpath, es, hlen, hes⟩
      · exact Or.inl (he.trans he')
      · exact Or.inr ⟨hnone, r, List.mem_append_left _ hr, hpath, es, hlen, he.trans hes⟩
    · rcases h.walks w with he' | ⟨-, r', -, -, es', -, hes'⟩
      · exact Or.inr ⟨he'.symm.trans hnone, r, List.mem_append_right _ hr, hpath, es, hlen, hes⟩
      · simp [hes'] at hnone
  · rcases List.mem_append.mp hr with hr | hr
    · rw [h'.walk_of_ne (h.mapped r hr)]
      exact h.mapped r hr
    · exact h'.mapped r hr

/-- A page that was not mapped and is in one request only has the entry of that request. -/
theorem Filled.walk_of_unique (h : Filled V root reqs s s') {v e : U64} (hr : (v, e) ∈ reqs)
    (huniq : ∀ r ∈ reqs, path r.1 = path v → r.2 = e) (hnone : hwWalk s.mem root v = none) :
    ∃ es, es.length = 3 ∧ hwWalk s'.mem root v = some (es ++ [e]) := by
  rcases h.walks v with he | ⟨-, r, hr', hpath, es, hlen, hes⟩
  · exact absurd (he.trans hnone) (h.mapped (v, e) hr)
  · exact ⟨es, hlen, by rw [hes, huniq r hr' hpath]⟩

theorem Filled.walk_of_other (h : Filled V root reqs s s') {w : U64}
    (hother : ∀ r ∈ reqs, path r.1 ≠ path w) : hwWalk s'.mem root w = hwWalk s.mem root w :=
  (h.walks w).resolve_right fun ⟨_, r, hr, hpath, _⟩ => hother r hr hpath

/-- Fields that are neither memory nor the allocator do not matter. -/
theorem Filled.congr (h : Filled V root reqs s s₁) (hm : s₂.mem = s₁.mem)
    (ha : s₂.alloc = s₁.alloc) : Filled V root reqs s s₂ := by
  obtain ⟨alloc, mem, cr3, newpml4, userAs, offst, userCr3, uBuf⟩ := s₂
  obtain rfl : mem = s₁.mem := hm
  obtain rfl : alloc = s₁.alloc := ha
  exact ⟨⟨h.wf.tree, h.wf.clean, h.wf.frames, h.wf.nodup, h.wf.apart, h.wf.mine⟩,
    ⟨h.grows.tables, h.grows.fresh, h.grows.entries, h.grows.off, h.grows.frames, h.grows.user,
      h.grows.free⟩, h.walks, h.mapped⟩

end Filled

section One

variable {V : Set U64} {root v phys flags : U64} {s : Vm}
  (hw : WellFormed V root s) (hv : v ∈ V) (he : present (phys ||| flags) = true)

include hw hv he

/-- **One call that comes back.** -/
theorem mapPage_filled {r : CInt} {s' : Vm} (h : mapPage root v phys flags s = .ok r s') :
    Filled V root [(v, phys ||| flags)] s s' ∧ s.SameRest s' := by
  refine ⟨?_, mapPage_sameRest h⟩
  by_cases hm : hwWalk s.mem root v = none
  · rcases Nat.lt_or_ge s.free.length (missing s.mem root v) with hlt | hge
    · obtain ⟨s'', h''⟩ := mapPage_exhausted hw hv hlt
      rw [h''] at h
      cases h
    · obtain ⟨s'', h'', m⟩ := mapPage_of_unmapped hw hv he hm hge
      obtain ⟨-, rfl⟩ := EStateM.Result.ok.inj (h''.symm.trans h)
      refine ⟨m.wf, m.grows, fun w => ?_, ?_⟩
      · by_cases hpath : path w = path v
        · right
          rw [hwWalk_congr hpath, hwWalk_congr hpath]
          exact ⟨hm, _, List.mem_singleton_self _, hpath.symm, m.walk⟩
        · exact Or.inl (m.others w hpath)
      · intro r hr
        obtain rfl := List.mem_singleton.mp hr
        obtain ⟨es, -, hes⟩ := m.walk
        rw [hes]
        simp
  · obtain ⟨-, rfl⟩ := EStateM.Result.ok.inj ((mapPage_of_mapped hw hv hm).symm.trans h)
    refine ⟨hw, .refl V root s, fun _ => Or.inl rfl, ?_⟩
    intro r hr
    obtain rfl := List.mem_singleton.mp hr
    exact hm

/-- A call comes back if there are frames for the missing tables. -/
theorem mapPage_returns (hfree : missing s.mem root v ≤ s.free.length) :
    ∃ r s', mapPage root v phys flags s = .ok r s' ∧
      s'.free.length = s.free.length - missing s.mem root v := by
  by_cases hm : hwWalk s.mem root v = none
  · obtain ⟨s', h, m⟩ := mapPage_of_unmapped hw hv he hm hfree
    exact ⟨0, s', h, by rw [m.free, List.length_drop]⟩
  · refine ⟨-1, s, mapPage_of_mapped hw hv hm, ?_⟩
    rw [missing_of_mapped hw hv hm, Nat.sub_zero]

end One

/-! ## Consecutive pages -/

/-- The address `k` pages after `base`. -/
def pageAt (base : U64) (k : ℕ) : U64 := base + BitVec.ofNat 64 (4096 * k)

theorem pageAt_toNat (base : U64) (k : ℕ) :
    (pageAt base k).toNat = (base.toNat + 4096 * k) % 2 ^ 64 := by
  simp [pageAt, BitVec.toNat_add]

theorem missing_le_three (mem : Mem) (root v : U64) : missing mem root v ≤ 3 := by
  have hle : ∀ p, lacks mem root p ≤ 1 := by
    intro p
    unfold lacks
    split <;> omega
  have h₁ := hle [index v 39]
  have h₂ := hle [index v 39, index v 30]
  have h₃ := hle [index v 39, index v 30, index v 21]
  simp only [missing, tablePath, lacksOn, List.nil_append, List.cons_append]
  omega

end DejOs
