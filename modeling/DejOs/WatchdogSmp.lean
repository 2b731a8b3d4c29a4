import DejOs.WatchdogAnger
import DejOs.Lib.Interleaving

/-!
# The watchdog and the handlers it waits for

`jump_to_watchdog` of `dog.c` on the boot CPU, interleaved with `watchdog_handler` on the CPUs 1 to
`n`, one step for each access to the flags they share. An interrupt is pending from the write of the
ICR on and is taken at any later time, or never; a second one sent before is merged with it, and one
sent while the handler is before its store waits for it.

A visit is answered when the handler stores `here` between the store and the load of the watchdog
(`Visit.answered`). `grudge` adds up the visits since the last answered one, and in every
interleaving `anger` is that sum: the watchdog panics over a CPU exactly when the sum gets to 200,
so after at least 20 unanswered visits in a row (`grudges_held`). And it is certain to: when the
handler of some CPU stops running, the watchdog panics within a number of its own steps
(`silence_detected`).

Nothing in the source sets `is_having_hard_time`; here every CPU may change its flag at any time.
The lines the watchdog logs are in `WatchdogAnger`, and how the interrupt is sent and its end
signalled is in `Ipi`.
-/

namespace DejOs.WatchdogSmp

open Interleaving Anger

/-! ## The code -/

/-- Where the watchdog is. -/
inductive Dog
  /-- `while (i <= cpus)`, and for a visit the store of `false` to `here` -/
  | top (i : ℕ)
  /-- `send_ipi(0x30, *id)` -/
  | send (i : ℕ)
  /-- `delay_bad(100)` and the load of `here` -/
  | load (i : ℕ)
  /-- The load of `is_having_hard_time`, for a CPU that was not here -/
  | blame (i : ℕ)
  /-- `panic("cpu not responding", STATUS_LOCKUP)` -/
  | barked (i : ℕ)
  deriving DecidableEq, Repr

/-- A finished visit: how often the handler had stored `here` when the watchdog cleared it and when
it loaded it, and the hard time it saw. -/
structure Visit where
  before : ℕ
  after : ℕ
  isHavingHardTime : Bool
  deriving DecidableEq, Repr

structure State where
  /-- The fields of `cpu_percpu[i] + percpu_offsetof(dog)` -/
  anger : ℕ → Byte
  isHavingHardTime : ℕ → Bool
  here : ℕ → Bool
  /-- Vector 0x30 waits in the local APIC. -/
  pending : ℕ → Bool
  /-- The handler has begun and has not stored `here` yet. -/
  handling : ℕ → Bool
  dog : Dog
  /-- How often the handler has stored `here`, and what that was at the last clear and load. -/
  handled : ℕ → ℕ
  cleared : ℕ → ℕ
  loaded : ℕ → ℕ
  /-- The finished visits, latest first. -/
  visits : ℕ → List Visit
  rounds : ℕ
  /-- The steps of the watchdog. -/
  steps : ℕ

inductive Act
  | dog
  /-- The pending interrupt is taken. -/
  | interrupt (i : ℕ)
  /-- `atomic_store(&w->here, true)` of `watchdog_handler` -/
  | handler (i : ℕ)
  | hardTime (i : ℕ) (b : Bool)
  deriving DecidableEq, Repr

namespace State

/-- `atomic_store(&curr_watchdog->here, false)` -/
def clear (s : State) (i : ℕ) : State :=
  { s with
    here := Function.update s.here i false
    cleared := Function.update s.cleared i (s.handled i)
    dog := .send i }

/-- The interrupt is sent; one that is still pending is merged with it. -/
def send (s : State) (i : ℕ) : State :=
  { s with pending := Function.update s.pending i true, dog := .load i }

/-- `atomic_load(&curr_watchdog->here)` -/
def load (s : State) (i : ℕ) : State :=
  { s with loaded := Function.update s.loaded i (s.handled i), dog := .blame i }

/-- The end of a visit, in which `o` was seen. -/
def judge (s : State) (i : ℕ) (o : Observation) : State :=
  let anger := o.anger (s.anger i)
  { s with
    anger := Function.update s.anger i anger
    visits := Function.update s.visits i
      (⟨s.cleared i, s.loaded i, o.isHavingHardTime⟩ :: s.visits i)
    dog := if 200 ≤ anger then .barked i else .top (i + 1) }

/-- The next step of `jump_to_watchdog`, but for the count of steps. -/
def dogStep (n : ℕ) (s : State) : Option State :=
  match s.dog with
  | .top i =>
    if n < i then some { s with dog := .top 0, rounds := s.rounds + 1 }
    else if i = 0 then some { s with dog := .top 1 }
    else some (s.clear i)
  | .send i => some (s.send i)
  | .load i => if s.here i then some ((s.load i).judge i ⟨true, false⟩) else some (s.load i)
  | .blame i => some (s.judge i ⟨false, s.isHavingHardTime i⟩)
  | .barked _ => none

/-- `watchdog_handler` is entered. -/
def interrupt (s : State) (i : ℕ) : State :=
  { s with
    pending := Function.update s.pending i false
    handling := Function.update s.handling i true }

/-- The store of `watchdog_handler` -/
def handle (s : State) (i : ℕ) : State :=
  { s with
    here := Function.update s.here i true
    handling := Function.update s.handling i false
    handled := Function.update s.handled i (s.handled i + 1) }

end State

/-- One step of one of the CPUs. -/
def next (n : ℕ) (s : State) : Act → Option State
  | .dog => (s.dogStep n).map fun s' => { s' with steps := s.steps + 1 }
  | .interrupt i => if s.pending i && !s.handling i then some (s.interrupt i) else none
  | .handler i => if s.handling i then some (s.handle i) else none
  | .hardTime i b => some { s with isHavingHardTime := Function.update s.isHavingHardTime i b }

/-- The watchdog starts with no anger; the flags may have any value. -/
structure Start (s : State) : Prop where
  anger : ∀ i, s.anger i = 0
  visits : ∀ i, s.visits i = []
  dog : s.dog = .top 0
  rounds : s.rounds = 0
  steps : s.steps = 0

/-! ## What `anger` stands for -/

/-- The handler ran in time. -/
def Visit.answered (v : Visit) : Prop := v.before < v.after

instance (v : Visit) : Decidable v.answered := inferInstanceAs (Decidable (v.before < v.after))

/-- What a visit adds to the anger when it is not answered. -/
def Visit.weight (v : Visit) : ℕ := Anger.weight ⟨false, v.isHavingHardTime⟩

/-- The visits since the last answered one. -/
def unanswered (l : List Visit) : List Visit := l.takeWhile fun v => ¬ v.answered

/-- Their weights, added up. -/
def grudge (l : List Visit) : ℕ := ((unanswered l).map Visit.weight).sum

theorem grudge_nil : grudge [] = 0 := rfl

theorem grudge_of_answered {v : Visit} (h : v.answered) (l : List Visit) : grudge (v :: l) = 0 := by
  simp [grudge, unanswered, h]

theorem grudge_of_unanswered {v : Visit} (h : ¬ v.answered) (l : List Visit) :
    grudge (v :: l) = v.weight + grudge l := by
  simp [grudge, unanswered, h]

theorem Visit.weight_le (v : Visit) : v.weight ≤ 10 := Anger.weight_le _

theorem length_unanswered_le (l : List Visit) : grudge l ≤ 10 * (unanswered l).length := by
  have h := List.sum_le_card_nsmul ((unanswered l).map Visit.weight) 10 fun w hw => by
    obtain ⟨v, -, rfl⟩ := List.mem_map.mp hw
    exact v.weight_le
  rw [List.length_map, smul_eq_mul, Nat.mul_comm] at h
  exact h

theorem grudge_append {l : List Visit} (h : ∀ v ∈ l, ¬ v.answered) (l' : List Visit) :
    grudge (l ++ l') = (l.map Visit.weight).sum + grudge l' := by
  induction l with
  | nil => simp
  | cons v l ih =>
    obtain ⟨hv, hl⟩ := List.forall_mem_cons.mp h
    rw [List.cons_append, grudge_of_unanswered hv, ih hl, List.map_cons, List.sum_cons,
      Nat.add_assoc]

/-! ## The steps of the watchdog -/

/-- What a step of the watchdog does. -/
inductive Goes (n : ℕ) (s : State) : State → Prop
  | round {i : ℕ} : s.dog = .top i → n < i →
      Goes n s { s with dog := .top 0, rounds := s.rounds + 1 }
  | skip : s.dog = .top 0 → Goes n s { s with dog := .top 1 }
  | clear {i : ℕ} : s.dog = .top i → Monitored n i → Goes n s (s.clear i)
  | send {i : ℕ} : s.dog = .send i → Goes n s (s.send i)
  | answer {i : ℕ} : s.dog = .load i → s.here i = true →
      Goes n s ((s.load i).judge i ⟨true, false⟩)
  | miss {i : ℕ} : s.dog = .load i → s.here i = false → Goes n s (s.load i)
  | blame {i : ℕ} : s.dog = .blame i → Goes n s (s.judge i ⟨false, s.isHavingHardTime i⟩)

section Steps

variable {n : ℕ} {s s' : State}

theorem goes_of_dogStep (h : s.dogStep n = some s') : Goes n s s' := by
  unfold State.dogStep at h
  split at h
  · rename_i i hd
    split_ifs at h with hlt hi
    · obtain rfl := Option.some.inj h
      exact .round hd hlt
    · obtain rfl := Option.some.inj h
      exact .skip (hi ▸ hd)
    · obtain rfl := Option.some.inj h
      exact .clear hd ⟨Nat.one_le_iff_ne_zero.mpr hi, Nat.le_of_not_lt hlt⟩
  · rename_i i hd
    obtain rfl := Option.some.inj h
    exact .send hd
  · rename_i i hd
    split_ifs at h with hhere
    · obtain rfl := Option.some.inj h
      exact .answer hd hhere
    · obtain rfl := Option.some.inj h
      exact .miss hd (Bool.eq_false_of_not_eq_true hhere)
  · rename_i i hd
    obtain rfl := Option.some.inj h
    exact .blame hd
  · cases h

theorem next_dog_isSome (h : ∀ i, s.dog ≠ .barked i) : (next n s .dog).isSome := by
  unfold next
  rw [Option.isSome_map]
  unfold State.dogStep
  split
  · split_ifs <;> rfl
  · rfl
  · split_ifs <;> rfl
  · rfl
  · rename_i i hd
    exact absurd hd (h i)

theorem next_cases {a : Act} (h : next n s a = some s') :
    (∃ t, a = .dog ∧ Goes n s t ∧ s' = { t with steps := s.steps + 1 }) ∨
    (∃ i, a = .interrupt i ∧ s' = s.interrupt i) ∨
    (∃ i, a = .handler i ∧ s' = s.handle i) ∨
    (∃ i b, a = .hardTime i b ∧
      s' = { s with isHavingHardTime := Function.update s.isHavingHardTime i b }) := by
  cases a with
  | dog =>
    obtain ⟨t, ht, rfl⟩ := Option.map_eq_some_iff.mp h
    exact Or.inl ⟨t, rfl, goes_of_dogStep ht, rfl⟩
  | interrupt i =>
    have h : (if s.pending i && !s.handling i then some (s.interrupt i) else none) = some s' := h
    split_ifs at h
    obtain rfl := Option.some.inj h
    exact Or.inr (Or.inl ⟨i, rfl, rfl⟩)
  | handler i =>
    have h : (if s.handling i then some (s.handle i) else none) = some s' := h
    split_ifs at h
    obtain rfl := Option.some.inj h
    exact Or.inr (Or.inr (Or.inl ⟨i, rfl, rfl⟩))
  | hardTime i b =>
    obtain rfl := Option.some.inj h
    exact Or.inr (Or.inr (Or.inr ⟨i, b, rfl, rfl⟩))

end Steps

/-! ## Rounds -/

/-- How far the watchdog is in its round: the CPUs below have been visited. -/
def Dog.passed : Dog → ℕ
  | .top i | .send i | .load i | .blame i => i
  | .barked i => i + 1

/-- The steps of a round so far, at most. -/
def Dog.rank : Dog → ℕ
  | .top i => 4 * i - 3
  | .send i => 4 * i - 2
  | .load i => 4 * i - 1
  | .blame i => 4 * i
  | .barked i => 4 * i + 1

/-- The CPUs in a visit are the monitored ones. -/
def Dog.Placed (n : ℕ) : Dog → Prop
  | .top i => i ≤ n + 1
  | .send i | .load i | .blame i | .barked i => Monitored n i

/-- What grows with every step of the watchdog. -/
def State.progress (n : ℕ) (s : State) : ℕ := (4 * n + 2) * s.rounds + s.dog.rank

/-- Every monitored CPU has been visited once in every round. -/
structure Paced (n : ℕ) (s : State) : Prop where
  placed : s.dog.Placed n
  visits : ∀ i, Monitored n i →
    (s.visits i).length = s.rounds + if i < s.dog.passed then 1 else 0

section Paced

variable {n : ℕ} {s s' : State} {i : ℕ} {o : Observation}

theorem judge_dog (s : State) (i : ℕ) (o : Observation) :
    (s.judge i o).dog = .barked i ∨ (s.judge i o).dog = .top (i + 1) := by
  unfold State.judge
  dsimp only
  split_ifs
  · exact Or.inl rfl
  · exact Or.inr rfl

theorem judge_passed (s : State) (i : ℕ) (o : Observation) :
    (s.judge i o).dog.passed = i + 1 := by
  rcases judge_dog s i o with h | h <;> rw [h] <;> rfl

theorem judge_rank (s : State) (i : ℕ) (o : Observation) :
    (s.judge i o).dog.rank = 4 * i + 1 := by
  rcases judge_dog s i o with h | h <;> rw [h] <;> simp only [Dog.rank]
  omega

theorem Dog.Placed.rank_le {d : Dog} (h : d.Placed n) : d.rank ≤ 4 * n + 1 := by
  cases d <;> simp only [Dog.Placed, Monitored] at h <;> simp only [Dog.rank] <;> omega

theorem Paced.judge (hi : Monitored n i) (hpassed : s.dog.passed = i)
    (hvisits : ∀ i, Monitored n i →
      (s.visits i).length = s.rounds + if i < s.dog.passed then 1 else 0) :
    Paced n (s.judge i o) where
  placed := by
    rcases judge_dog s i o with h | h <;> rw [h]
    · exact hi
    · exact Nat.succ_le_succ hi.2
  visits j hj := by
    have hv := hvisits j hj
    rw [hpassed] at hv
    rw [judge_passed]
    show (Function.update s.visits i _ j).length = s.rounds + _
    by_cases hji : j = i
    · subst hji
      rw [Function.update_self, List.length_cons, hv]
      simp
    · rw [Function.update_of_ne hji, hv]
      have hiff : j < i + 1 ↔ j < i := by omega
      simp only [hiff]

theorem Paced.goes (h : Paced n s) (hg : Goes n s s') : Paced n s' := by
  have hplaced := h.placed
  have hvisits := h.visits
  cases hg with
  | round hd hlt =>
    rename_i i
    rw [hd] at hplaced hvisits
    obtain rfl : i = n + 1 := le_antisymm hplaced hlt
    refine ⟨Nat.zero_le _, fun j hj => ?_⟩
    have hjn : j < (Dog.top (n + 1)).passed := Nat.lt_succ_of_le hj.2
    show (s.visits j).length = s.rounds + 1 + if j < 0 then 1 else 0
    rw [hvisits j hj, if_pos hjn, if_neg (Nat.not_lt_zero j)]
  | skip hd =>
    rw [hd] at hvisits
    refine ⟨Nat.succ_le_succ (Nat.zero_le n), fun j hj => ?_⟩
    have hj1 : ¬ j < 1 := Nat.not_lt.mpr hj.1
    show (s.visits j).length = s.rounds + if j < 1 then 1 else 0
    rw [hvisits j hj, if_neg hj1]
    simp [Dog.passed]
  | clear hd hi =>
    rw [hd] at hvisits
    exact ⟨hi, hvisits⟩
  | send hd | miss hd =>
    rw [hd] at hplaced hvisits
    exact ⟨hplaced, hvisits⟩
  | answer hd =>
    rename_i i hhere
    rw [hd] at hplaced hvisits
    exact Paced.judge (s := s.load i) hplaced rfl hvisits
  | blame hd =>
    rw [hd] at hplaced
    exact Paced.judge hplaced (by rw [hd]; rfl) hvisits

theorem Paced.next {a : Act} (h : Paced n s) (hn : next n s a = some s') : Paced n s' := by
  rcases next_cases hn with ⟨t, -, hg, rfl⟩ | ⟨i, -, rfl⟩ | ⟨i, -, rfl⟩ | ⟨i, b, -, rfl⟩
  · have ht := h.goes hg
    exact ⟨ht.placed, ht.visits⟩
  · exact ⟨h.placed, h.visits⟩
  · exact ⟨h.placed, h.visits⟩
  · exact ⟨h.placed, h.visits⟩

/-- A round is at most `4 * n + 2` steps. -/
theorem Paced.progress_lt (h : Paced n s) (hg : Goes n s s') : s.progress n < s'.progress n := by
  have hplaced := h.placed
  unfold State.progress
  cases hg with
  | round hd =>
    rw [hd] at hplaced ⊢
    have hrank := hplaced.rank_le
    show _ < (4 * n + 2) * (s.rounds + 1) + 0
    rw [Nat.mul_succ]
    omega
  | skip hd =>
    rw [hd]
    exact Nat.lt_succ_self _
  | clear hd hi =>
    rename_i i
    have := hi.1
    rw [hd]
    show (4 * n + 2) * s.rounds + (4 * i - 3) < (4 * n + 2) * s.rounds + (4 * i - 2)
    omega
  | send hd =>
    rename_i i
    rw [hd] at hplaced ⊢
    have := hplaced.1
    show (4 * n + 2) * s.rounds + (4 * i - 2) < (4 * n + 2) * s.rounds + (4 * i - 1)
    omega
  | answer hd =>
    rename_i i hhere
    rw [hd, judge_rank]
    show (4 * n + 2) * s.rounds + (4 * i - 1) < (4 * n + 2) * s.rounds + (4 * i + 1)
    omega
  | miss hd =>
    rename_i i hhere
    rw [hd] at hplaced ⊢
    have := hplaced.1
    show (4 * n + 2) * s.rounds + (4 * i - 1) < (4 * n + 2) * s.rounds + 4 * i
    omega
  | blame hd =>
    rename_i i
    rw [hd, judge_rank]
    exact Nat.lt_succ_self _

end Paced

/-! ## The flags and the sums -/

/-- During a visit `here` says whether the handler has run since it was cleared. -/
structure Flags (s : State) : Prop where
  window : ∀ i, s.dog = .send i ∨ s.dog = .load i →
    s.cleared i ≤ s.handled i ∧ (s.here i = true ↔ s.cleared i < s.handled i)
  blame : ∀ i, s.dog = .blame i → s.loaded i = s.cleared i

/-- `anger` is the sum of the unanswered visits, and the panic is at the first that gets to 200. -/
structure Sums (s : State) : Prop where
  anger : ∀ i, (s.anger i).toNat = grudge (s.visits i)
  calm : ∀ i, s.dog ≠ .barked i → grudge (s.visits i) < 200
  barked : ∀ i, s.dog = .barked i →
    200 ≤ grudge (s.visits i) ∧ grudge (s.visits i).tail < 200

section Sums

variable {n : ℕ} {s s' : State} {i : ℕ} {o : Observation}

/-- A dog that is not in a visit has no flag to mind. -/
theorem Flags.of_dog (h : ∀ i, s.dog ≠ .send i ∧ s.dog ≠ .load i ∧ s.dog ≠ .blame i) : Flags s where
  window i hd := by
    rcases hd with hd | hd
    · exact absurd hd (h i).1
    · exact absurd hd (h i).2.1
  blame i hd := absurd hd (h i).2.2

theorem Flags.judge (s : State) (i : ℕ) (o : Observation) : Flags (s.judge i o) := by
  refine .of_dog fun j => ?_
  rcases judge_dog s i o with h | h <;> rw [h] <;> simp

theorem Flags.goes (h : Flags s) (hg : Goes n s s') : Flags s' := by
  cases hg with
  | round | skip => exact .of_dog fun j => by simp
  | clear hd hi =>
    rename_i i
    constructor
    · intro j hj
      obtain rfl : i = j := by simpa [State.clear] using hj
      show Function.update s.cleared i (s.handled i) i ≤ s.handled i ∧
        (Function.update s.here i false i = true ↔
          Function.update s.cleared i (s.handled i) i < s.handled i)
      rw [Function.update_self, Function.update_self]
      simp
    · intro j hj
      cases hj
  | send hd =>
    rename_i i
    constructor
    · intro j hj
      obtain rfl : i = j := by simpa [State.send] using hj
      exact h.window i (Or.inl hd)
    · intro j hj
      cases hj
  | answer | blame => exact .judge ..
  | miss hd hhere =>
    rename_i i
    constructor
    · intro j hj
      rcases hj with hj | hj <;> cases hj
    · intro j hj
      obtain rfl : i = j := by simpa [State.load] using hj
      -- not here, so the handler has not run since the clear
      obtain ⟨hle, hiff⟩ := h.window i (Or.inr hd)
      have hge : ¬ s.cleared i < s.handled i := fun hlt => by
        rw [hiff.mpr hlt] at hhere
        cases hhere
      show Function.update s.loaded i (s.handled i) i = s.cleared i
      rw [Function.update_self]
      omega

theorem Flags.handle (h : Flags s) (i : ℕ) : Flags (s.handle i) where
  window j hj := by
    obtain ⟨hle, hiff⟩ := h.window j hj
    by_cases hji : j = i
    · subst hji
      simp only [State.handle, Function.update_self]
      exact ⟨by omega, iff_of_true trivial (by omega)⟩
    · simp only [State.handle, Function.update_of_ne hji]
      exact ⟨hle, hiff⟩
  blame := h.blame

theorem Flags.next {a : Act} (h : Flags s) (hn : next n s a = some s') : Flags s' := by
  rcases next_cases hn with ⟨t, -, hg, rfl⟩ | ⟨i, -, rfl⟩ | ⟨i, -, rfl⟩ | ⟨i, b, -, rfl⟩
  · have ht := h.goes hg
    exact ⟨ht.window, ht.blame⟩
  · exact ⟨h.window, h.blame⟩
  · exact h.handle i
  · exact ⟨h.window, h.blame⟩

/-- The visit that a dog at its end writes down. -/
def State.visit (s : State) (i : ℕ) (o : Observation) : Visit :=
  ⟨s.cleared i, s.loaded i, o.isHavingHardTime⟩

theorem judge_visits_self (s : State) (i : ℕ) (o : Observation) :
    (s.judge i o).visits i = s.visit i o :: s.visits i := Function.update_self ..

theorem judge_visits_of_ne {j : ℕ} (h : j ≠ i) : (s.judge i o).visits j = s.visits j :=
  Function.update_of_ne h ..

theorem Sums.grudge_visit (h : Sums s) (hd : s.dog ≠ .barked i)
    (ho : o.here = true ↔ (s.visit i o).answered) :
    grudge (s.visit i o :: s.visits i) = (o.anger (s.anger i)).toNat := by
  have hlt : (s.anger i).toNat < 200 := (h.anger i).trans_lt (h.calm i hd)
  unfold Observation.anger
  cases hhere : o.here with
  | true => exact grudge_of_answered (ho.mp hhere) _
  | false =>
    have hno : ¬ (s.visit i o).answered := fun hv => by
      rw [ho.mpr hv] at hhere
      cases hhere
    have hweight : (s.visit i o).weight = weight o := rfl
    rw [grudge_of_unanswered hno, hweight, ← h.anger]
    show weight o + (s.anger i).toNat = (s.anger i + o.step).toNat
    rw [add_step_toNat hlt, Nat.add_comm]

theorem Sums.judge (h : Sums s) (hd : ∀ j, s.dog ≠ .barked j)
    (ho : o.here = true ↔ (s.visit i o).answered) : Sums (s.judge i o) := by
  have hsum := h.grudge_visit (hd i) ho
  have hdog : (s.judge i o).dog =
      if 200 ≤ o.anger (s.anger i) then .barked i else .top (i + 1) := rfl
  constructor
  · intro j
    by_cases hji : j = i
    · subst hji
      rw [judge_visits_self, hsum]
      exact congrArg BitVec.toNat (Function.update_self ..)
    · rw [judge_visits_of_ne hji, ← h.anger j]
      exact congrArg BitVec.toNat (Function.update_of_ne hji ..)
  · intro j hj
    by_cases hji : j = i
    · subst hji
      rw [judge_visits_self, hsum]
      by_contra hge
      exact hj (hdog.trans (if_pos (Nat.le_of_not_lt hge)))
    · rw [judge_visits_of_ne hji]
      exact h.calm j (hd j)
  · intro j hj
    rw [hdog] at hj
    split_ifs at hj with hge
    obtain rfl : i = j := Dog.barked.inj hj
    rw [judge_visits_self, hsum, List.tail_cons]
    exact ⟨hge, h.calm i (hd i)⟩

theorem Sums.goes (h : Sums s) (hf : Flags s) (hg : Goes n s s') : Sums s' := by
  -- apart from the end of a visit nothing that is summed changes
  have hkeep : ∀ t : State, t.anger = s.anger → t.visits = s.visits →
      (∀ j, t.dog ≠ .barked j) → (∀ j, s.dog ≠ .barked j) → Sums t := by
    intro t ha hv ht hs
    refine ⟨fun j => ?_, fun j _ => ?_, fun j hj => absurd hj (ht j)⟩
    · rw [ha, hv]
      exact h.anger j
    · rw [hv]
      exact h.calm j (hs j)
  have hgoes : ∀ d, s.dog = d → (∀ j, d ≠ .barked j) → ∀ j, s.dog ≠ .barked j := by
    rintro _ rfl h
    exact h
  cases hg with
  | round hd | skip hd | send hd | miss hd =>
    exact hkeep _ rfl rfl (fun j => Dog.noConfusion) (hgoes _ hd fun j => Dog.noConfusion)
  | clear hd =>
    exact hkeep _ rfl rfl (fun j => Dog.noConfusion) (hgoes _ hd fun j => Dog.noConfusion)
  | answer hd hhere =>
    rename_i i
    have hload : Sums (s.load i) :=
      hkeep _ rfl rfl (fun j => Dog.noConfusion) (hgoes _ hd fun j => Dog.noConfusion)
    refine hload.judge (fun j => Dog.noConfusion) ?_
    have hlt := (hf.window i (Or.inr hd)).2.mp hhere
    have hans : ((s.load i).visit i ⟨true, false⟩).answered := by
      show s.cleared i < Function.update s.loaded i (s.handled i) i
      rw [Function.update_self]
      exact hlt
    simp [hans]
  | blame hd =>
    rename_i i
    refine h.judge (hgoes _ hd fun j => Dog.noConfusion) ?_
    have hno : ¬ (s.visit i ⟨false, s.isHavingHardTime i⟩).answered := by
      show ¬ s.cleared i < s.loaded i
      rw [hf.blame i hd]
      exact lt_irrefl _
    simp [hno]

theorem Sums.next {a : Act} (h : Sums s) (hf : Flags s) (hn : next n s a = some s') : Sums s' := by
  rcases next_cases hn with ⟨t, -, hg, rfl⟩ | ⟨i, -, rfl⟩ | ⟨i, -, rfl⟩ | ⟨i, b, -, rfl⟩
  · have ht := h.goes hf hg
    exact ⟨ht.anger, ht.calm, ht.barked⟩
  · exact ⟨h.anger, h.calm, h.barked⟩
  · exact ⟨h.anger, h.calm, h.barked⟩
  · exact ⟨h.anger, h.calm, h.barked⟩

end Sums

/-! ## Runs -/

/-- What holds of every state of a run. -/
structure Held (n : ℕ) (s : State) : Prop where
  paced : Paced n s
  flags : Flags s
  sums : Sums s

section Runs

variable {n i : ℕ} {ok : State → Act → Prop} {s₀ s s' : State}

theorem Start.held (n : ℕ) (h : Start s) : Held n s where
  paced :=
    { placed := by rw [h.dog]; exact Nat.zero_le _
      visits := fun i _ => by rw [h.visits, h.dog, h.rounds]; rfl }
  flags := .of_dog fun i => by rw [h.dog]; simp
  sums :=
    { anger := fun i => by rw [h.anger, h.visits]; rfl
      calm := fun i _ => by rw [h.visits, grudge_nil]; decide
      barked := fun i hd => by rw [h.dog] at hd; cases hd }

theorem Held.next {a : Act} (h : Held n s) (hn : next n s a = some s') : Held n s' :=
  ⟨h.paced.next hn, h.flags.next hn, h.sums.next h.flags hn⟩

theorem Held.run (h : Held n s₀) (hrun : Run (WatchdogSmp.next n) ok s₀ s) : Held n s :=
  hrun.invariant h fun _ _ _ ht _ hn => ht.next hn

/-- The watchdog takes no more steps than it makes progress. -/
theorem Held.steps_le (h : Held n s₀) (hrun : Run (WatchdogSmp.next n) ok s₀ s) :
    s.steps + s₀.progress n ≤ s₀.steps + s.progress n := by
  induction hrun with
  | refl => exact le_refl _
  | step hr _ hn ih =>
    rcases next_cases hn with ⟨t, -, hg, rfl⟩ | ⟨j, -, rfl⟩ | ⟨j, -, rfl⟩ | ⟨j, b, -, rfl⟩
    · have hlt := (h.run hr).paced.progress_lt hg
      show _ + 1 + _ ≤ _ + t.progress n
      omega
    · exact ih
    · exact ih
    · exact ih

/-- **Every grudge is earned.** However the watchdog and the handlers are interleaved, the anger at
a CPU is the sum of the visits since one was answered, every monitored CPU has been visited in every
round, and the watchdog goes on until it panics, over the first CPU whose sum gets to 200: one that
has left at least the last 20 visits unanswered. -/
theorem grudges_held (hs : Start s₀) (hrun : Run (next n) Free s₀ s) :
    (∀ i, (s.anger i).toNat = grudge (s.visits i)) ∧
    (∀ i, Monitored n i → (s.visits i).length = s.rounds ∨ (s.visits i).length = s.rounds + 1) ∧
    (∀ i, s.dog = .barked i ↔ 200 ≤ grudge (s.visits i)) ∧
    (∀ i, s.dog = .barked i → Monitored n i ∧ 20 ≤ (unanswered (s.visits i)).length) ∧
    ((∀ i, s.dog ≠ .barked i) → (next n s .dog).isSome) := by
  obtain ⟨hpaced, -, hsums⟩ := (hs.held n).run hrun
  have hbarked : ∀ i, s.dog = .barked i ↔ 200 ≤ grudge (s.visits i) := fun i =>
    ⟨fun hd => (hsums.barked i hd).1, fun hge => by
      by_contra hd
      exact absurd (hsums.calm i hd) (Nat.not_lt.mpr hge)⟩
  refine ⟨hsums.anger, fun i hi => ?_, hbarked, fun i hd => ⟨?_, ?_⟩, next_dog_isSome⟩
  · rw [hpaced.visits i hi]
    split_ifs
    · exact Or.inr rfl
    · exact Or.inl rfl
  · have hplaced := hpaced.placed
    rw [hd] at hplaced
    exact hplaced
  · have hge := (hbarked i).mp hd
    have hle := length_unanswered_le (s.visits i)
    omega

/-- No flag is set yet. -/
def quiet : State where
  anger _ := 0
  isHavingHardTime _ := false
  here _ := false
  pending _ := false
  handling _ := false
  dog := .top 0
  handled _ := 0
  cleared _ := 0
  loaded _ := 0
  visits _ := []
  rounds := 0
  steps := 0

theorem quiet_start : Start quiet := ⟨fun _ => rfl, fun _ => rfl, rfl, rfl, rfl⟩

/-- One round, in which the handler runs too late. -/
def lateRound : List Act := [.dog, .dog, .dog, .dog, .interrupt 1, .handler 1, .dog, .dog]

theorem grudges_held_late : ∃ s, exec (next 1) Free quiet lateRound = some s ∧
    s.handled 1 = 1 ∧ (s.anger 1).toNat = 10 := by
  obtain ⟨s, hs⟩ : ∃ s, exec (next 1) Free quiet lateRound = some s := ⟨_, rfl⟩
  have hanger := (grudges_held quiet_start (Run.of_exec .refl hs)).1 1
  obtain rfl := Option.some.inj hs
  exact ⟨_, rfl, rfl, hanger⟩

/-! ## A CPU that has fallen silent -/

/-- The handler of CPU `i` does not run, and an unanswered visit to it weighs `w` at least: `1` is
no condition, and with `10` it is not having a hard time. -/
def Silent (i w : ℕ) (s : State) (a : Act) : Prop :=
  a ≠ .handler i ∧ w ≤ Anger.weight ⟨false, s.isHavingHardTime i⟩

instance (i w : ℕ) (s : State) (a : Act) : Decidable (Silent i w s a) :=
  inferInstanceAs (Decidable (_ ∧ _))

/-- The visit CPU `i` is in has begun since its handler last ran. -/
def State.Begun (s : State) (i : ℕ) : Prop :=
  s.dog = .send i ∨ s.dog = .load i ∨ s.dog = .blame i → s.cleared i = s.handled i

/-- The visits since `s₀`, in a run in which CPU `i` is silent: all but the first, which may have
begun earlier, are unanswered. -/
def Waited (i w : ℕ) (s₀ s : State) : Prop :=
  s.visits i = s₀.visits i ∨ s.Begun i ∧ ∃ fresh v,
    s.visits i = fresh ++ v :: s₀.visits i ∧ ∀ u ∈ fresh, ¬ u.answered ∧ w ≤ u.weight

variable {w : ℕ}

theorem Waited.keep (h : Waited i w s₀ s) (hv : s'.visits i = s.visits i)
    (hb : s.Begun i → s'.Begun i) : Waited i w s₀ s' := by
  unfold Waited
  rw [hv]
  exact h.imp_right fun ⟨hbegun, h⟩ => ⟨hb hbegun, h⟩

theorem begun_judge (s : State) (i j : ℕ) (o : Observation) : (s.judge j o).Begun i := by
  rintro (hd | hd | hd) <;> rcases judge_dog s j o with h | h <;> rw [h] at hd <;> cases hd

theorem begun_load {j : ℕ} (hd : s.dog = .load j) (hb : s.Begun i) : (s.load j).Begun i := by
  intro hd'
  obtain rfl : j = i := by simpa [State.load] using hd'
  exact hb (Or.inr (Or.inl hd))

/-- A visit to the silent CPU ends. -/
theorem Waited.judge (h : Waited i w s₀ s) {o : Observation}
    (hfresh : s.Begun i → ¬ (s.visit i o).answered ∧ w ≤ (s.visit i o).weight) :
    Waited i w s₀ (s.judge i o) := by
  have hbegun := begun_judge s i i o
  unfold Waited
  rw [judge_visits_self]
  rcases h with hv | ⟨hb, fresh, v, hv, hall⟩
  · exact Or.inr ⟨hbegun, [], s.visit i o, by rw [hv]; rfl, List.forall_mem_nil _⟩
  · refine Or.inr ⟨hbegun, s.visit i o :: fresh, v, by rw [hv]; rfl, ?_⟩
    exact List.forall_mem_cons.mpr ⟨hfresh hb, hall⟩

theorem Waited.goes (h : Waited i w s₀ s) (hf : Flags s)
    (hw : w ≤ Anger.weight ⟨false, s.isHavingHardTime i⟩) (hg : Goes n s s') :
    Waited i w s₀ s' := by
  cases hg with
  | round | skip => exact h.keep rfl fun _ hd => by simp at hd
  | clear hd =>
    rename_i j _
    refine h.keep rfl fun _ hd' => ?_
    obtain rfl : j = i := by simpa [State.clear] using hd'
    exact Function.update_self ..
  | send hd =>
    rename_i j
    refine h.keep rfl fun hb hd' => ?_
    obtain rfl : j = i := by simpa [State.send] using hd'
    exact hb (Or.inl hd)
  | miss hd => exact h.keep rfl (begun_load hd)
  | answer hd hhere =>
    rename_i j
    have hload : Waited i w s₀ (s.load j) := h.keep rfl (begun_load hd)
    by_cases hji : i = j
    · subst hji
      -- an answer to a visit that has begun since the handler ran would need the handler
      refine hload.judge fun hb => ?_
      have hlt : s.cleared i < s.handled i := (hf.window i (Or.inr hd)).2.mp hhere
      have heq : s.cleared i = s.handled i := hb (Or.inr (Or.inr rfl))
      exact absurd heq hlt.ne
    · exact hload.keep (judge_visits_of_ne hji) fun _ => begun_judge _ _ _ _
  | blame hd =>
    rename_i j
    by_cases hji : i = j
    · subst hji
      refine h.judge fun _ => ⟨?_, hw⟩
      show ¬ s.cleared i < s.loaded i
      rw [hf.blame i hd]
      exact lt_irrefl _
    · exact h.keep (judge_visits_of_ne hji) fun _ => begun_judge _ _ _ _

theorem Waited.next {a : Act} (h : Waited i w s₀ s) (hf : Flags s) (hs : Silent i w s a)
    (hn : WatchdogSmp.next n s a = some s') : Waited i w s₀ s' := by
  rcases next_cases hn with ⟨t, -, hg, rfl⟩ | ⟨j, -, rfl⟩ | ⟨j, rfl, rfl⟩ | ⟨j, b, -, rfl⟩
  · exact (h.goes hf hs.2 hg).keep rfl id
  · exact h.keep rfl id
  · have hij : i ≠ j := fun e => hs.1 (e ▸ rfl)
    refine h.keep rfl fun hb hd => ?_
    show s.cleared i = Function.update s.handled j _ i
    rw [Function.update_of_ne hij]
    exact hb hd
  · exact h.keep rfl id

/-- What the unanswered visits weigh is in the sum. -/
theorem Waited.length_le (h : Waited i w s₀ s) (hsums : Sums s) :
    w * ((s.visits i).length - (s₀.visits i).length - 2) < 200 := by
  rcases h with hv | ⟨-, fresh, v, hv, hall⟩
  · rw [hv]
    simp
  cases fresh with
  | nil =>
    rw [hv]
    simp
  | cons u fresh =>
    have hfresh := (List.forall_mem_cons.mp hall).2
    have hgrudge : grudge (s.visits i).tail < 200 := by
      by_cases hd : s.dog = .barked i
      · exact (hsums.barked i hd).2
      · have hcalm := hsums.calm i hd
        rw [hv, List.cons_append, grudge_of_unanswered (hall u List.mem_cons_self).1] at hcalm
        rw [hv, List.cons_append, List.tail_cons]
        omega
    have hsum : w * fresh.length ≤ (fresh.map Visit.weight).sum := by
      have hcard := List.card_nsmul_le_sum (fresh.map Visit.weight) w fun x hx => by
        obtain ⟨u, hu, rfl⟩ := List.mem_map.mp hx
        exact (hfresh u hu).2
      rw [List.length_map, smul_eq_mul, Nat.mul_comm] at hcard
      exact hcard
    rw [hv, List.cons_append, List.tail_cons, grudge_append fun u hu => (hfresh u hu).1] at hgrudge
    have hlen : (s.visits i).length - (s₀.visits i).length - 2 = fresh.length := by
      rw [hv]
      simp only [List.length_cons, List.length_append]
      omega
    rw [hlen]
    omega

theorem rounds_of_silent (h : Held n s₀) (hi : Monitored n i)
    (hrun : Run (WatchdogSmp.next n) (Silent i w) s₀ s) :
    w * (s.rounds - s₀.rounds - 3) < 200 := by
  have hwaited : Waited i w s₀ s := by
    refine (hrun.invariant (P := fun s => Held n s ∧ Waited i w s₀ s) ⟨h, Or.inl rfl⟩ ?_).2
    rintro t a t' ⟨ht, hw⟩ hok hn
    exact ⟨ht.next hn, hw.next ht.flags hok hn⟩
  have hheld := h.run hrun
  have hfirst := h.paced.visits i hi
  have hlast := hheld.paced.visits i hi
  refine lt_of_le_of_lt (Nat.mul_le_mul_left w ?_) (hwaited.length_le hheld.sums)
  split_ifs at hfirst hlast <;> omega

theorem steps_of_silent (h : Held n s₀) (hrun : Run (WatchdogSmp.next n) ok s₀ s) {k : ℕ}
    (hk : s.rounds ≤ s₀.rounds + k) : s.steps < s₀.steps + (k + 1) * (4 * n + 2) := by
  have hsteps := h.steps_le hrun
  have hrank := (h.run hrun).paced.placed.rank_le
  have hmul : (4 * n + 2) * s.rounds ≤ (4 * n + 2) * (s₀.rounds + k) := Nat.mul_le_mul_left _ hk
  have hadd : (4 * n + 2) * (s₀.rounds + k) = (4 * n + 2) * s₀.rounds + k * (4 * n + 2) := by ring
  have hlast : (k + 1) * (4 * n + 2) = k * (4 * n + 2) + (4 * n + 2) := Nat.succ_mul ..
  unfold State.progress at hsteps
  omega

/-- **Silence is detected.** From any reachable state in which the handler of a monitored CPU has
stopped running, the watchdog takes fewer than 203 times `4 * n + 2` further steps, and fewer than
23 times that many if the CPU is not having a hard time; and it is stopped by nothing but its own
panic. -/
theorem silence_detected (hs : Start s₀) (hrun : Run (next n) Free s₀ s) (hi : Monitored n i) :
    (Run (next n) (Silent i 1) s s' → s'.steps < s.steps + 203 * (4 * n + 2)) ∧
    (Run (next n) (Silent i 10) s s' → s'.steps < s.steps + 23 * (4 * n + 2)) ∧
    ((∀ j, s'.dog ≠ .barked j) → (next n s' .dog).isSome) := by
  have hheld := (hs.held n).run hrun
  refine ⟨fun h => ?_, fun h => ?_, next_dog_isSome⟩
  · have hrounds := rounds_of_silent hheld hi h
    exact steps_of_silent hheld h (k := 202) (by omega)
  · have hrounds := rounds_of_silent hheld hi h
    exact steps_of_silent hheld h (k := 22) (by omega)

theorem silence_detected_quiet : ∃ s, exec (next 2) (Silent 1 10) quiet
    [.dog, .dog, .dog, .dog, .dog] = some s ∧ (s.anger 1).toNat = 10 ∧ s.steps < 230 := by
  obtain ⟨s, hs⟩ : ∃ s, exec (next 2) (Silent 1 10) quiet
      [.dog, .dog, .dog, .dog, .dog] = some s := ⟨_, rfl⟩
  have hsteps := (silence_detected quiet_start (n := 2) .refl ⟨by omega, by omega⟩).2.1
    (Run.of_exec .refl hs)
  obtain rfl := Option.some.inj hs
  exact ⟨_, rfl, rfl, hsteps⟩

end Runs

end DejOs.WatchdogSmp
