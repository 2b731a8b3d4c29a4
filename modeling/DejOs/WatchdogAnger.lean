import DejOs.Base

/-!
# The anger of the watchdog

The visits of `jump_to_watchdog` of `dog.c`: the 8-bit `anger` of each monitored CPU, the weights it
grows by, the lines logged and the panic. Which slots are visited is the subject of `Watchdog`; here
the CPUs 1 to `n` are visited in every round, and what the watchdog sees of them is arbitrary.

`missed` is what `anger` stands for: the weights of the rounds since the last response, added up.
`anger_history` says that `anger` is that sum, without wrapping, up to the first round in which a
sum gets to 200, and that the watchdog panics in that round.
-/

namespace DejOs.Anger

/-! ## The code -/

/-- What the watchdog sees of a CPU at a visit. -/
structure Observation where
  /-- `here`, after the delay -/
  here : Bool
  isHavingHardTime : Bool
  deriving DecidableEq, Repr

structure Dogs where
  anger : ℕ → Byte
  log : List Logf

/-- `(curr_watchdog->is_having_hard_time) ? 1 : 10` -/
def Observation.step (o : Observation) : Byte := if o.isHavingHardTime then 1 else 10

/-- `anger` after the response or its absence. -/
def Observation.anger (o : Observation) (anger : Byte) : Byte :=
  if !o.here then anger + o.step else 0

/-- `panic("cpu not responding", STATUS_LOCKUP)` -/
def bark : Halt := .panic "cpu not responding" .lockup

/-- The visit of CPU `i`, whose `cpu_id` is `id`. -/
def visit (id : BitVec 32) (i : ℕ) (o : Observation) : Kernel Dogs Unit := fun s =>
  let anger := o.anger (s.anger i)
  let angers := Function.update s.anger i anger
  if 200 ≤ anger then
    .error bark ⟨angers, s.log ++ [⟨"dog:", "cpu %u is not responding \n", [id.setWidth 64]⟩]⟩
  else if 100 < anger then
    .ok () ⟨angers, s.log ++ [⟨"Dog:",
      "cpu %i not responding will take action if still uncorrected (anger = %u)\n",
      [id.setWidth 64, anger.setWidth 64]⟩]⟩
  else .ok () ⟨angers, s.log⟩

/-- The visits of the CPUs in a list. -/
def visits (ids : ℕ → BitVec 32) (obs : ℕ → Observation) : List ℕ → Kernel Dogs Unit
  | [] => pure ()
  | i :: is => do
    visit (ids i) i (obs i)
    visits ids obs is

/-- A round, over the CPUs 1 to `n`. -/
def round (n : ℕ) (ids : ℕ → BitVec 32) (obs : ℕ → Observation) : Kernel Dogs Unit :=
  visits ids obs (List.range' 1 n)

/-- The first `r` rounds of a history. -/
def rounds (n : ℕ) (ids : ℕ → BitVec 32) (history : ℕ → ℕ → Observation) : ℕ → Kernel Dogs Unit
  | 0 => pure ()
  | r + 1 => do
    rounds n ids history r
    round n ids (history r)

/-! ## What it stands for -/

/-- The weight of a missed round. -/
def weight (o : Observation) : ℕ := if o.isHavingHardTime then 1 else 10

/-- The weights of the rounds before `r` that CPU `i` missed since its last response. -/
def missed (history : ℕ → ℕ → Observation) (i r : ℕ) : ℕ :=
  ∑ k ∈ Finset.range r with ∀ j < r, k ≤ j → (history j i).here = false, weight (history k i)

/-- The watchdog panics in round `r`. -/
def PanicsIn (n : ℕ) (ids : ℕ → BitVec 32) (history : ℕ → ℕ → Observation) (s : Dogs) (r : ℕ) :
    Prop :=
  ∃ s₁ s₂, rounds n ids history r s = .ok () s₁ ∧ round n ids (history r) s₁ = .error bark s₂

/-! ## The sums -/

section Missed

variable {history : ℕ → ℕ → Observation} {i r : ℕ}

theorem missed_zero (history : ℕ → ℕ → Observation) (i : ℕ) : missed history i 0 = 0 := rfl

theorem missed_succ (history : ℕ → ℕ → Observation) (i r : ℕ) : missed history i (r + 1) =
    if (history r i).here then 0 else missed history i r + weight (history r i) := by
  unfold missed
  split_ifs with hhere
  · refine Finset.sum_eq_zero fun k hk => ?_
    obtain ⟨hk, hall⟩ := Finset.mem_filter.mp hk
    have hlast := hall r (Nat.lt_succ_self r) (by have := Finset.mem_range.mp hk; omega)
    rw [hhere] at hlast
    cases hlast
  · have hfalse := Bool.eq_false_of_not_eq_true hhere
    rw [Finset.range_add_one, Finset.filter_insert, if_pos, Finset.sum_insert, Nat.add_comm]
    · congr 1
      refine Finset.sum_congr (Finset.filter_congr fun k hk => ?_) fun _ _ => rfl
      have hk := Finset.mem_range.mp hk
      constructor
      · intro h j hj
        exact h j (by omega)
      · intro h j hj hkj
        rcases Nat.lt_succ_iff_lt_or_eq.mp hj with hj | rfl
        · exact h j hj hkj
        · exact hfalse
    · simp
    · intro j hj hrj
      obtain rfl : j = r := by omega
      exact hfalse

theorem weight_le (o : Observation) : weight o ≤ 10 := by
  unfold weight
  split_ifs <;> omega

theorem missed_le (history : ℕ → ℕ → Observation) (i r : ℕ) : missed history i r ≤ 10 * r := by
  induction r with
  | zero => rw [missed_zero]
  | succ r ih =>
    have := weight_le (history r i)
    rw [missed_succ]
    split_ifs <;> omega

theorem step_toNat (o : Observation) : o.step.toNat = weight o := by
  unfold Observation.step weight
  split_ifs <;> rfl

theorem add_step_toNat {a : Byte} (h : a.toNat < 200) (o : Observation) :
    (a + o.step).toNat = a.toNat + weight o := by
  have := weight_le o
  rw [BitVec.toNat_add, step_toNat]
  omega

/-- A visit adds to the sum as the history does. -/
theorem anger_toNat {a : Byte} (h : a.toNat = missed history i r) (hlt : a.toNat < 200) :
    ((history r i).anger a).toNat = missed history i (r + 1) := by
  rw [missed_succ]
  unfold Observation.anger
  cases (history r i).here with
  | true => rfl
  | false =>
    show (a + (history r i).step).toNat = missed history i r + weight (history r i)
    rw [add_step_toNat hlt, h]

end Missed

/-! ## A round -/

section Round

variable {obs : ℕ → Observation} {s : Dogs} {i : ℕ} {is : List ℕ}

theorem visit_calm (id : BitVec 32) (h : ((obs i).anger (s.anger i)).toNat < 200) :
    ∃ log, visit id i (obs i) s =
      .ok () ⟨Function.update s.anger i ((obs i).anger (s.anger i)), log⟩ := by
  have hlt : ¬ 200 ≤ (obs i).anger (s.anger i) := by
    rw [BitVec.le_def]
    exact Nat.not_le.mpr h
  unfold visit
  dsimp only
  rw [if_neg hlt]
  split_ifs
  · exact ⟨_, rfl⟩
  · exact ⟨_, rfl⟩

theorem visit_bark (id : BitVec 32) (h : 200 ≤ ((obs i).anger (s.anger i)).toNat) :
    ∃ s', visit id i (obs i) s = .error bark s' := by
  have hle : 200 ≤ (obs i).anger (s.anger i) := by
    rw [BitVec.le_def]
    exact h
  unfold visit
  dsimp only
  rw [if_pos hle]
  exact ⟨_, rfl⟩

/-- The visits do not touch each other's counters. -/
theorem visits_calm (ids : ℕ → BitVec 32) (hnodup : is.Nodup)
    (h : ∀ i ∈ is, ((obs i).anger (s.anger i)).toNat < 200) :
    ∃ s', visits ids obs is s = .ok () s' ∧
      ∀ i, s'.anger i = if i ∈ is then (obs i).anger (s.anger i) else s.anger i := by
  induction is generalizing s with
  | nil => exact ⟨s, rfl, fun i => (if_neg List.not_mem_nil).symm⟩
  | cons k is ih =>
    obtain ⟨hk, hnodup⟩ := List.nodup_cons.mp hnodup
    obtain ⟨log, hvisit⟩ := visit_calm (ids k) (h k List.mem_cons_self)
    have hrest : ∀ i ∈ is, Function.update s.anger k ((obs k).anger (s.anger k)) i = s.anger i :=
      fun i hi => Function.update_of_ne (fun e : i = k => hk (e ▸ hi)) _ _
    obtain ⟨s', hs', hanger⟩ := ih hnodup
      (s := ⟨Function.update s.anger k ((obs k).anger (s.anger k)), log⟩)
      (fun i hi => by
        dsimp only
        rw [hrest i hi]
        exact h i (List.mem_cons_of_mem _ hi))
    refine ⟨s', (Kernel.bind_of_ok hvisit).trans hs', fun i => ?_⟩
    rw [hanger i]
    dsimp only
    by_cases hi : i ∈ is
    · rw [if_pos hi, if_pos (List.mem_cons_of_mem _ hi), hrest i hi]
    · rw [if_neg hi]
      by_cases hik : i = k
      · rw [if_pos (hik ▸ List.mem_cons_self), hik, Function.update_self]
      · rw [if_neg fun h => (List.mem_cons.mp h).elim hik hi, Function.update_of_ne hik]

theorem visits_bark (ids : ℕ → BitVec 32) (hnodup : is.Nodup)
    (h : ∃ i ∈ is, 200 ≤ ((obs i).anger (s.anger i)).toNat) :
    ∃ s', visits ids obs is s = .error bark s' := by
  induction is generalizing s with
  | nil =>
    obtain ⟨i, hi, -⟩ := h
    cases hi
  | cons k is ih =>
    obtain ⟨hk, hnodup⟩ := List.nodup_cons.mp hnodup
    by_cases hbark : 200 ≤ ((obs k).anger (s.anger k)).toNat
    · obtain ⟨s', hs'⟩ := visit_bark (ids k) hbark
      exact ⟨s', Kernel.bind_of_error hs'⟩
    · obtain ⟨log, hvisit⟩ := visit_calm (ids k) (Nat.lt_of_not_le hbark)
      obtain ⟨i, hi, hle⟩ := h
      have hi : i ∈ is := (List.mem_cons.mp hi).resolve_left fun e => hbark (e ▸ hle)
      have hne : i ≠ k := fun e => hk (e ▸ hi)
      obtain ⟨s', hs'⟩ := ih hnodup
        (s := ⟨Function.update s.anger k ((obs k).anger (s.anger k)), log⟩)
        ⟨i, hi, by
          dsimp only
          rw [Function.update_of_ne hne]
          exact hle⟩
      exact ⟨s', (Kernel.bind_of_ok hvisit).trans hs'⟩

end Round

/-! ## Histories -/

section History

variable {n : ℕ} {ids : ℕ → BitVec 32} {history : ℕ → ℕ → Observation} {s : Dogs} {r : ℕ}

/-- A monitored CPU. -/
def Monitored (n i : ℕ) : Prop := 1 ≤ i ∧ i ≤ n

theorem mem_round {i : ℕ} : i ∈ List.range' 1 n ↔ Monitored n i := by
  rw [List.mem_range'_1]
  unfold Monitored
  omega

/-- `anger` is the sum, below 200. -/
def Tracks (n : ℕ) (history : ℕ → ℕ → Observation) (r : ℕ) (s : Dogs) : Prop :=
  ∀ i, Monitored n i → (s.anger i).toNat = missed history i r ∧ missed history i r < 200

theorem Tracks.round (ids : ℕ → BitVec 32) (h : Tracks n history r s)
    (hlt : ∀ i, Monitored n i → missed history i (r + 1) < 200) :
    ∃ s', round n ids (history r) s = .ok () s' ∧ Tracks n history (r + 1) s' := by
  have hanger : ∀ i, Monitored n i →
      ((history r i).anger (s.anger i)).toNat = missed history i (r + 1) := fun i hi =>
    anger_toNat (h i hi).1 ((h i hi).1.trans_lt (h i hi).2)
  obtain ⟨s', hs', hs⟩ := visits_calm (s := s) ids List.nodup_range'
    fun i hi => (hanger i (mem_round.mp hi)).trans_lt (hlt i (mem_round.mp hi))
  refine ⟨s', hs', fun i hi => ⟨?_, hlt i hi⟩⟩
  rw [hs i, if_pos (mem_round.mpr hi)]
  exact hanger i hi

theorem Tracks.panics (ids : ℕ → BitVec 32) (h : Tracks n history r s)
    (hge : ∃ i, Monitored n i ∧ 200 ≤ missed history i (r + 1)) :
    ∃ s', Anger.round n ids (history r) s = .error bark s' := by
  obtain ⟨i, hi, hge⟩ := hge
  refine visits_bark ids List.nodup_range' ⟨i, mem_round.mpr hi, ?_⟩
  rw [anger_toNat (h i hi).1 ((h i hi).1.trans_lt (h i hi).2)]
  exact hge

/-- The sums have not got to 200 in the first `r` rounds. -/
def Calm (n : ℕ) (history : ℕ → ℕ → Observation) (r : ℕ) : Prop :=
  ∀ q < r, ∀ i, Monitored n i → missed history i (q + 1) < 200

theorem Tracks.start (h0 : ∀ i, Monitored n i → s.anger i = 0) : Tracks n history 0 s := by
  intro i hi
  rw [h0 i hi, missed_zero]
  exact ⟨rfl, by omega⟩

theorem rounds_calm (ids : ℕ → BitVec 32) (h0 : ∀ i, Monitored n i → s.anger i = 0)
    (h : Calm n history r) :
    ∃ s', rounds n ids history r s = .ok () s' ∧ Tracks n history r s' := by
  induction r with
  | zero => exact ⟨s, rfl, Tracks.start h0⟩
  | succ r ih =>
    obtain ⟨s₁, hs₁, htracks⟩ := ih fun q hq => h q (by omega)
    obtain ⟨s₂, hs₂, htracks⟩ := htracks.round ids (h r (Nat.lt_succ_self r))
    exact ⟨s₂, (Kernel.bind_of_ok hs₁).trans hs₂, htracks⟩

/-- Only calm rounds return, with the sums in the counters. -/
theorem calm_of_rounds (h0 : ∀ i, Monitored n i → s.anger i = 0) {s' : Dogs}
    (h : rounds n ids history r s = .ok () s') : Calm n history r ∧ Tracks n history r s' := by
  induction r generalizing s' with
  | zero =>
    obtain ⟨-, rfl⟩ := EStateM.Result.ok.inj h
    exact ⟨fun q hq => absurd hq (Nat.not_lt_zero q), Tracks.start h0⟩
  | succ r ih =>
    obtain ⟨_, s₁, hs₁, hround⟩ := Kernel.bind_eq_ok.mp h
    obtain ⟨hcalm, htracks⟩ := ih hs₁
    have hlt : ∀ i, Monitored n i → missed history i (r + 1) < 200 := by
      intro i hi
      by_contra hge
      obtain ⟨s₃, hs₃⟩ := htracks.panics ids ⟨i, hi, Nat.le_of_not_lt hge⟩
      rw [hs₃] at hround
      cases hround
    obtain ⟨s₂, hs₂, htracks⟩ := htracks.round ids hlt
    rw [hs₂] at hround
    obtain ⟨-, rfl⟩ := EStateM.Result.ok.inj hround
    refine ⟨fun q hq => ?_, htracks⟩
    rcases Nat.lt_succ_iff_lt_or_eq.mp hq with hq | rfl
    · exact hcalm q hq
    · exact hlt

end History

/-- **The anger of a history.** At the start of round `r`, if it is reached, every `anger` is the
sum of the missed weights, below 200, and the increment of the round does not wrap; the watchdog
panics in exactly the first round in which a sum gets to 200, and goes on for ever if none does. -/
theorem anger_history (n : ℕ) (ids : ℕ → BitVec 32) (history : ℕ → ℕ → Observation) (s : Dogs)
    (h0 : ∀ i, Monitored n i → s.anger i = 0) (r : ℕ) :
    (∀ s', rounds n ids history r s = .ok () s' → ∀ i, Monitored n i →
      (s'.anger i).toNat = missed history i r ∧ missed history i r < 200 ∧
        (s'.anger i + (history r i).step).toNat = missed history i r + weight (history r i)) ∧
    (PanicsIn n ids history s r ↔
      IsLeast {q | ∃ i, Monitored n i ∧ 200 ≤ missed history i (q + 1)} r) ∧
    ((∃ s', rounds n ids history r s = .ok () s') ↔
      ∀ q < r, ¬ ∃ i, Monitored n i ∧ 200 ≤ missed history i (q + 1)) := by
  have hcalm : Calm n history r ↔
      ∀ q < r, ¬ ∃ i, Monitored n i ∧ 200 ≤ missed history i (q + 1) := by
    unfold Calm
    simp only [not_exists, not_and, Nat.not_le]
  refine ⟨fun s' hs' i hi => ?_, ?_, ?_⟩
  · obtain ⟨hsum, hlt⟩ := (calm_of_rounds h0 hs').2 i hi
    exact ⟨hsum, hlt, by rw [add_step_toNat (hsum.trans_lt hlt), hsum]⟩
  · constructor
    · rintro ⟨s₁, s₂, hs₁, hround⟩
      obtain ⟨hcalm₁, htracks⟩ := calm_of_rounds h0 hs₁
      refine ⟨?_, fun q hq => Nat.le_of_not_lt fun hlt => hcalm.mp hcalm₁ q hlt hq⟩
      by_contra hno
      obtain ⟨s₃, hs₃, -⟩ := htracks.round ids fun i hi =>
        Nat.lt_of_not_le fun hge => hno ⟨i, hi, hge⟩
      rw [hs₃] at hround
      cases hround
    · rintro ⟨hge, hleast⟩
      obtain ⟨s₁, hs₁, htracks⟩ := rounds_calm ids h0
        (hcalm.mpr fun q hq hex => absurd (hleast hex) (Nat.not_le.mpr hq))
      obtain ⟨s₂, hs₂⟩ := htracks.panics ids hge
      exact ⟨s₁, s₂, hs₁, hs₂⟩
  · rw [← hcalm]
    constructor
    · rintro ⟨s', hs'⟩
      exact (calm_of_rounds h0 hs').1
    · intro h
      obtain ⟨s', hs', -⟩ := rounds_calm ids h0 h
      exact ⟨s', hs'⟩

/-- A CPU that never answers, next to one that does: the panic is in the 20th round. -/
theorem anger_history_silent : PanicsIn 2 (fun i => BitVec.ofNat 32 i)
    (fun _ i => ⟨decide (i = 1), false⟩) ⟨fun _ => 0, []⟩ 19 := by
  refine (anger_history 2 _ _ ⟨fun _ => 0, []⟩ (fun _ _ => rfl) 19).2.1.mpr ⟨?_, ?_⟩
  · exact ⟨2, ⟨by omega, by omega⟩, by decide⟩
  · rintro q ⟨i, -, hge⟩
    have hle := missed_le (fun _ i => ⟨decide (i = 1), false⟩) i (q + 1)
    omega

end DejOs.Anger
