import DejOs.BringUpPages

/-!
# The watchdog and the starting CPUs

`jump_to_watchdog` of `dog.c` on the boot CPU, interleaved with the APs in `ap_entry`. The watchdog
counts the filled slots of `cpu_percpu` once and then visits the slots 1 to that number, round after
round. The APs take their slots in one order and fill them in another, and the watchdog does not
wait for them: a slot it visits may be empty, and a slot it does not visit may be filled.

`Timely` is the condition under which this does not happen: the count finds no empty slot below a
filled one, and no AP fills its slot when the count is past it or past an empty one. Then the
counted slots are the filled ones for good (`watchdog_checks`).

The `anger` counters are the subject of `WatchdogAnger`; the interrupts sent at a visit are left
out.
-/

namespace DejOs

open Interleaving

/-! ## What the APs leave for the watchdog -/

namespace BringUp

variable {mp : MpResponse} {tssForCpus : U64} {F : List U64} {s s' : State mp}

/-- The APs get blocks distinct from `NULL`, and are numbered. -/
structure Supplied (F : List U64) (s : State mp) : Prop where
  stock : Stock F s
  ordered : ∃ l, Ordered s l
  nonzero : ∀ f ∈ F, f + s.ap.smp.hhdm ≠ 0

theorem Supplied.block_ne (h : Supplied F s) {c : Fin mp.cpuCount} {b : U64}
    (hb : (s.stage c).block = some b) : b ≠ 0 := by
  obtain ⟨f, hf, rfl⟩ := (h.stock.cpus c).block b hb
  exact h.nonzero f hf

theorem Moved.hhdm {c : Fin mp.cpuCount} (h : Moved tssForCpus s c s') :
    s'.ap.smp.hhdm = s.ap.smp.hhdm := by
  cases h with
  | access he hst ht => exact ht.hhdm
  | went he hw => cases hw <;> rfl

theorem Supplied.moved {c : Fin mp.cpuCount} (h : Supplied F s) (hm : Moved tssForCpus s c s') :
    Supplied F s' := by
  obtain ⟨l, hl⟩ := h.ordered
  refine ⟨h.stock.moved hm, hl.moved hm, ?_⟩
  rw [hm.hhdm]
  exact h.nonzero

theorem Supplied.kentry (h : Supplied F s) (hn : s.kentry = some s') : Supplied F s' := by
  obtain ⟨l, hl⟩ := h.ordered
  refine ⟨h.stock.kentry hn, ⟨l, hl.kentry hn⟩, ?_⟩
  rw [(kentry_ap hn).1]
  exact h.nonzero

theorem Moved.slots {c : Fin mp.cpuCount} (h : Moved tssForCpus s c s') :
    s'.cpuPercpu = s.cpuPercpu ∨ ∃ k b, s.stage c = .pointed k b ∧
      s'.cpuPercpu = Function.update s.cpuPercpu k b := by
  cases h with
  | access => exact Or.inl rfl
  | went he hw =>
    cases hw with
    | store hst => exact Or.inr ⟨_, _, hst, rfl⟩
    | claim | call | back | fill | base | name | point => exact Or.inl rfl

theorem Supplied.number (h : Supplied F s) (haps : mp.aps.length ≤ 63)
    {c : Fin mp.cpuCount} {k : ℕ} (hk : (s.stage c).core = some k) : 1 ≤ k ∧ k < 64 := by
  obtain ⟨l, hl⟩ := h.ordered
  obtain ⟨-, he, hlt⟩ := hl.number (hl.length_le.trans haps) hk
  exact ⟨by omega, hlt⟩

end BringUp

/-! ## The code -/

namespace Watchdog

/-- Where the boot CPU is in `jump_to_watchdog`. -/
inductive Dog
  /-- `if (cpu_percpu[i] != NULL) cpus++` -/
  | count (i : ℕ)
  /-- `while (i <= cpus)`, and the load of `cpu_percpu[i]` for `id` -/
  | id (i : ℕ)
  /-- The load of `cpu_percpu[i]` for `curr_watchdog` -/
  | dog (i : ℕ) (p : U64)
  /-- The visit, through the two pointers -/
  | visit (i : ℕ) (p q : U64)
  /-- The end of a round, `delay_bad(1000000)` -/
  | rest
  deriving DecidableEq, Repr

structure State (mp : MpResponse) where
  boot : BringUp.State mp
  dog : Dog
  cpus : ℕ
  /-- The slots that were filled when the round began. -/
  before : ℕ → Bool
  /-- The slots visited in this round. -/
  checked : List ℕ
  /-- The slots used as pointers so far, with their contents. -/
  derefs : List (ℕ × U64)

inductive Act (mp : MpResponse)
  | boot (act : BringUp.Act mp)
  | dog

variable {mp : MpResponse}

/-- `cpu_percpu[i]` -/
def State.slot (s : State mp) (i : ℕ) : U64 := s.boot.cpuPercpu i

/-- `i = 0` at the top of the outer loop. -/
def State.beginRound (s : State mp) : State mp :=
  { s with dog := .id 0, before := fun k => s.slot k ≠ 0, checked := [] }

/-- The next step of `jump_to_watchdog`. Slot 0 is the boot CPU's and is skipped. -/
def State.step (s : State mp) : State mp :=
  match s.dog with
  | .count i =>
    if i < 64 then
      { s with cpus := if s.slot i ≠ 0 then s.cpus + 1 else s.cpus, dog := .count (i + 1) }
    else s.beginRound
  | .id i =>
    if i ≤ s.cpus then
      if i = 0 then { s with dog := .id 1 } else { s with dog := .dog i (s.slot i) }
    else { s with dog := .rest }
  | .dog i p => { s with dog := .visit i p (s.slot i) }
  | .visit i p q =>
    { s with
      dog := .id (i + 1)
      checked := i :: s.checked
      derefs := (i, p) :: (i, q) :: s.derefs }
  | .rest => s.beginRound

/-- The watchdog runs after the loop of `kentry`. -/
def next (tssForCpus : U64) (s : State mp) : Act mp → Option (State mp)
  | .boot act => (BringUp.next tssForCpus s.boot act).map fun b => { s with boot := b }
  | .dog => if s.boot.i < mp.cpuCount then none else some s.step

/-- Before the watchdog. -/
def init (s : BringUp.State mp) : State mp := ⟨s, .count 1, 0, fun _ => false, [], []⟩

/-- The count finds no empty slot below a filled one, and an AP fills its slot only while the count
has found no empty slot and has not come to it. -/
def Timely (s : State mp) : Act mp → Prop
  | .boot .kentry => True
  | .boot (.ap c) => ∀ k b, s.boot.stage c = .pointed k b → s.dog = .count (s.cpus + 1) ∧ s.cpus < k
  | .dog => ∀ i < 64, s.dog = .count i → s.slot i = 0 → ∀ j < 64, i < j → s.slot j = 0

instance (s : State mp) : DecidablePred (Timely s)
  | .boot .kentry => .isTrue trivial
  | .boot (.ap c) =>
    match h : s.boot.stage c with
    | .pointed k b =>
      decidable_of_iff (s.dog = .count (s.cpus + 1) ∧ s.cpus < k)
        ⟨fun hk k' b' e => by
          cases h.symm.trans e
          exact hk, fun hall => hall k b h⟩
    | .start | .claimed _ | .calling _ | .got _ _ | .filled _ _ | .based _ _ | .named _ _
    | .running _ _ =>
      .isTrue fun k b e => nomatch h.symm.trans e
  | .dog =>
    match h : s.dog with
    | .count i =>
      decidable_of_iff (i < 64 → s.slot i = 0 → ∀ j < 64, i < j → s.slot j = 0)
        ⟨fun hk i' hi e => by
          cases h.symm.trans e
          exact hk hi, fun hall hi => hall i hi h⟩
    | .id _ | .dog _ _ | .visit _ _ _ | .rest => .isTrue fun i _ e => nomatch h.symm.trans e

/-! ## The invariant -/

/-- The slots 1 to `cpus` are filled. -/
def Filled (s : State mp) : Prop := ∀ k, 1 ≤ k → k ≤ s.cpus → s.slot k ≠ 0

/-- The slots above `cpus` are empty. -/
def Empty (s : State mp) : Prop := ∀ k, s.cpus < k → s.slot k = 0

/-- What the watchdog knows at its place. -/
def DogOk (s : State mp) : Dog → Prop
  | .count i => s.cpus < i ∧ i ≤ 64 ∧ (s.cpus + 1 < i → Empty s)
  | .id i => Empty s ∧ ∀ k, 1 ≤ k → k < i → k ∈ s.checked
  | .dog i p => Empty s ∧ (∀ k, 1 ≤ k → k < i → k ∈ s.checked) ∧ 1 ≤ i ∧ i ≤ s.cpus ∧ p ≠ 0
  | .visit i p q => Empty s ∧ (∀ k, 1 ≤ k → k < i → k ∈ s.checked) ∧ p ≠ 0 ∧ q ≠ 0
  | .rest => Empty s ∧ ∀ k, 1 ≤ k → k ≤ s.cpus → k ∈ s.checked

structure Inv (F : List U64) (s : State mp) : Prop where
  boot : BringUp.Supplied F s.boot
  range : ∀ k, 64 ≤ k → s.slot k = 0
  filled : Filled s
  dog : DogOk s s.dog
  before : (∀ i, s.dog ≠ .count i) → ∀ k, s.before k = true → k ≤ s.cpus
  derefs : ∀ d ∈ s.derefs, d.2 ≠ 0

section Keep

variable {tssForCpus : U64} {F : List U64} {s s' : State mp}

/-- Steps of the APs that leave `cpu_percpu` alone. -/
theorem Inv.of_slots (h : Inv F s) {b : BringUp.State mp}
    (hb : BringUp.Supplied F b) (hs : b.cpuPercpu = s.boot.cpuPercpu) :
    Inv F { s with boot := b } := by
  have hslot : ∀ k, State.slot { s with boot := b } k = s.slot k := fun k => congrFun hs k
  have hempty : Empty s → Empty { s with boot := b } := fun he k hk => (hslot k).trans (he k hk)
  refine ⟨hb, fun k hk => (hslot k).trans (h.range k hk), fun k h1 hk => ?_, ?_, h.before, h.derefs⟩
  · rw [hslot]
    exact h.filled k h1 hk
  · have hok := h.dog
    show DogOk { s with boot := b } s.dog
    cases hd : s.dog with
    | count i =>
      rw [hd] at hok
      exact ⟨hok.1, hok.2.1, fun hi => hempty (hok.2.2 hi)⟩
    | id | dog | visit | rest =>
      rw [hd] at hok
      exact ⟨hempty hok.1, hok.2⟩

/-- An AP fills its slot before the count comes to it. -/
theorem Inv.store (h : Inv F s) {b : BringUp.State mp} {k : ℕ} {p : U64}
    (hb : BringUp.Supplied F b) (hs : b.cpuPercpu = Function.update s.boot.cpuPercpu k p)
    (hp : p ≠ 0) (hk : k < 64) (hd : s.dog = .count (s.cpus + 1)) :
    Inv F { s with boot := b } := by
  have hslot : ∀ j, State.slot { s with boot := b } j = if j = k then p else s.slot j := by
    intro j
    show b.cpuPercpu j = _
    rw [hs, Function.update_apply]
    rfl
  refine ⟨hb, fun j hj => ?_, fun j h1 hj => ?_, ?_, h.before, h.derefs⟩
  · rw [hslot, if_neg (by omega)]
    exact h.range j hj
  · rw [hslot]
    split
    · exact hp
    · exact h.filled j h1 hj
  · have hok := h.dog
    show DogOk { s with boot := b } s.dog
    rw [hd] at hok ⊢
    exact ⟨hok.1, hok.2.1, fun hlt => absurd hlt (lt_irrefl _)⟩

theorem Inv.bootStep (h : Inv F s) (haps : mp.aps.length ≤ 63) {act : BringUp.Act mp}
    (hok : Timely s (.boot act)) {b : BringUp.State mp}
    (hn : BringUp.next tssForCpus s.boot act = some b) : Inv F { s with boot := b } := by
  cases act with
  | kentry =>
    have hap := (BringUp.kentry_ap hn).1
    exact h.of_slots (h.boot.kentry hn) (congrArg Ap.State.cpuPercpu hap)
  | ap c =>
    have hm := BringUp.moved_of_apEntry hn
    have hb := h.boot.moved hm
    rcases hm.slots with hs | ⟨k, p, hst, hs⟩
    · exact h.of_slots hb hs
    · obtain ⟨hd, -⟩ := hok k p hst
      have hk : (s.boot.stage c).core = some k := by rw [hst]; rfl
      exact h.store hb hs (h.boot.block_ne (c := c) (by rw [hst]; rfl)) (h.boot.number haps hk).2 hd

theorem Inv.beginRound (h : Inv F s) (he : Empty s) : Inv F s.beginRound := by
  refine ⟨h.boot, h.range, h.filled, ⟨he, fun k h1 hk => absurd hk (Nat.not_lt_zero _)⟩,
    fun _ k hk => ?_, h.derefs⟩
  by_contra hlt
  have hk : s.slot k ≠ 0 := of_decide_eq_true hk
  have hlt : ¬ k ≤ s.cpus := hlt
  exact hk (he k (by omega))

/-- The count finds a slot filled: it is the one after those counted so far. -/
theorem Inv.countFilled (h : Inv F s) {i : ℕ} (hd : s.dog = .count i) (hi : i < 64)
    (hslot : s.slot i ≠ 0) :
    Inv F { s with cpus := s.cpus + 1, dog := .count (i + 1) } := by
  have hdog := h.dog
  rw [hd] at hdog
  obtain ⟨hlt, hle, hempty⟩ := hdog
  have hnext : s.cpus + 1 = i := by
    by_contra hne
    exact hslot (hempty (by omega) i hlt)
  refine ⟨h.boot, h.range, fun k h1 hk => ?_, ⟨?_, by omega, fun hgap => ?_⟩,
    fun hne => absurd rfl (hne (i + 1)), h.derefs⟩
  · have hk : k ≤ s.cpus + 1 := hk
    rcases Nat.lt_or_ge s.cpus k with hgt | hge
    · obtain rfl : k = i := by omega
      exact hslot
    · exact h.filled k h1 hge
  · show s.cpus + 1 < i + 1
    omega
  · have hgap : s.cpus + 1 + 1 < i + 1 := hgap
    omega

/-- The count finds a slot empty: from here on every slot is. -/
theorem Inv.countEmpty (h : Inv F s) (hok : Timely s .dog) {i : ℕ}
    (hd : s.dog = .count i) (hi : i < 64) (hslot : s.slot i = 0) :
    Inv F { s with dog := .count (i + 1) } := by
  have hdog := h.dog
  rw [hd] at hdog
  obtain ⟨hlt, hle, hempty⟩ := hdog
  have hall : Empty s := by
    intro j hj
    by_cases hgap : s.cpus + 1 < i
    · exact hempty hgap j hj
    · rcases Nat.lt_trichotomy i j with hij | rfl | hij
      · rcases Nat.lt_or_ge j 64 with hj64 | hj64
        · exact hok i hi hd hslot j hj64 hij
        · exact h.range j hj64
      · exact hslot
      · omega
  refine ⟨h.boot, h.range, h.filled, ⟨?_, by omega, fun _ => hall⟩,
    fun hne => absurd rfl (hne (i + 1)), h.derefs⟩
  show s.cpus < i + 1
  omega

theorem Inv.select (h : Inv F s) {i : ℕ} (hd : s.dog = .id i) :
    Inv F s.step := by
  have hdog := h.dog
  rw [hd] at hdog
  obtain ⟨hempty, hchecked⟩ := hdog
  have hbefore : ∀ k, s.before k = true → k ≤ s.cpus := h.before (by rw [hd]; simp)
  unfold State.step
  rw [hd]
  dsimp only
  split_ifs with hle hzero
  · subst hzero
    exact ⟨h.boot, h.range, h.filled, ⟨hempty, fun k h1 hk => by omega⟩, fun _ => hbefore,
      h.derefs⟩
  · have hslot := h.filled i (by omega) hle
    exact ⟨h.boot, h.range, h.filled, ⟨hempty, hchecked, by omega, hle, hslot⟩,
      fun _ => hbefore, h.derefs⟩
  · refine ⟨h.boot, h.range, h.filled, ⟨hempty, fun k h1 hk => hchecked k h1 ?_⟩,
      fun _ => hbefore, h.derefs⟩
    have hk : k ≤ s.cpus := hk
    omega

theorem Inv.visit (h : Inv F s) {i : ℕ} {p q : U64} (hd : s.dog = .visit i p q) :
    Inv F s.step := by
  have hdog := h.dog
  rw [hd] at hdog
  obtain ⟨hempty, hchecked, hp, hq⟩ := hdog
  unfold State.step
  rw [hd]
  refine ⟨h.boot, h.range, h.filled, ⟨hempty, fun k h1 hk => ?_⟩,
    fun _ => h.before (by rw [hd]; simp), fun d hmem => ?_⟩
  · show k ∈ i :: s.checked
    rcases Nat.lt_or_ge k i with hlt | hge
    · exact List.mem_cons_of_mem _ (hchecked k h1 hlt)
    · obtain rfl : k = i := by omega
      exact List.mem_cons_self
  · rcases List.mem_cons.mp hmem with rfl | hmem
    · exact hp
    · rcases List.mem_cons.mp hmem with rfl | hmem
      · exact hq
      · exact h.derefs d hmem

theorem Inv.dogStep (h : Inv F s) (hok : Timely s .dog) : Inv F s.step := by
  have hdog := h.dog
  cases hd : s.dog with
  | count i =>
    rw [hd] at hdog
    obtain ⟨hlt, hle, hempty⟩ := hdog
    unfold State.step
    rw [hd]
    dsimp only
    split_ifs with hi hslot
    · exact h.countFilled hd hi hslot
    · exact h.countEmpty hok hd hi (not_not.mp hslot)
    · refine h.beginRound fun k hk => ?_
      by_cases hgap : s.cpus + 1 < i
      · exact hempty hgap k hk
      · exact h.range k (by omega)
  | id i => exact h.select hd
  | dog i p =>
    rw [hd] at hdog
    obtain ⟨hempty, hchecked, h1, hle, hp⟩ := hdog
    unfold State.step
    rw [hd]
    exact ⟨h.boot, h.range, h.filled, ⟨hempty, hchecked, hp, h.filled i h1 hle⟩,
      fun _ => h.before (by rw [hd]; simp), h.derefs⟩
  | visit i p q => exact h.visit hd
  | rest =>
    rw [hd] at hdog
    unfold State.step
    rw [hd]
    exact h.beginRound hdog.1

end Keep

section Main

variable {tssForCpus : U64} {a : Allocator} {s₀ : BringUp.State mp} {s : State mp}

theorem Inv.init (hl : a.lock = .free) (hz : ∀ f ∈ freeFrames a.pages, f + a.hhdm ≠ 0)
    (hpages : mp.aps.length < (freeFrames a.pages).length)
    (h₀ : BringUp.setupBspCpuData tssForCpus (BringUp.blank mp a) = .ok () s₀) :
    ∃ F, Inv F (init s₀) := by
  obtain ⟨a', b, -, hg, rfl⟩ := BringUp.setupBspCpuData_blank hl h₀
  obtain ⟨f, hf, -⟩ := hg.of_ne_nil (List.ne_nil_of_length_pos (by omega))
  have hslot : ∀ k, 1 ≤ k → (Watchdog.init (BringUp.booted mp tssForCpus a' b)).slot k = 0 := by
    intro k hk
    show Function.update (fun _ => (0 : U64)) 0 b k = 0
    exact Function.update_of_ne (by omega) ..
  have hsupplied : BringUp.Supplied (freeFrames a'.pages) (BringUp.booted mp tssForCpus a' b) := by
    refine ⟨BringUp.Stock.booted hg hpages, BringUp.ordered_of_run .refl, fun g hg' => ?_⟩
    show g + a'.hhdm ≠ 0
    rw [hg.hhdm]
    refine hz g ?_
    rw [hf]
    exact List.mem_cons_of_mem _ hg'
  refine ⟨_, hsupplied, fun k hk => hslot k (by omega), fun k h1 hk => ?_,
    ⟨Nat.zero_lt_one, by omega, fun _ k hk => hslot k hk⟩, fun hne => absurd rfl (hne 1),
    List.forall_mem_nil _⟩
  have hk : k ≤ 0 := hk
  omega

/-- **The watchdog.** With fewer than 64 APs and a page for every CPU, in every run that is timely:
every slot the watchdog uses as a pointer is not `NULL` then, and at the end of a round every slot
of an AP that was filled before the round has been visited. -/
theorem watchdog_checks (haps : mp.aps.length < 64) (hl : a.lock = .free)
    (hz : ∀ f ∈ freeFrames a.pages, f + a.hhdm ≠ 0)
    (hpages : mp.aps.length < (freeFrames a.pages).length)
    (h₀ : BringUp.setupBspCpuData tssForCpus (BringUp.blank mp a) = .ok () s₀)
    (h : Run (next tssForCpus) Timely (init s₀) s) :
    (∀ d ∈ s.derefs, d.2 ≠ 0) ∧
      (s.dog = .rest → ∀ k, 1 ≤ k → s.before k = true → k ∈ s.checked) := by
  obtain ⟨F, h0⟩ := Inv.init hl hz hpages h₀
  have hinv : Inv F s :=
    h.invariant h0 fun s act s' hs hok hn => by
      cases act with
      | boot act =>
        obtain ⟨b, hb, rfl⟩ := Option.map_eq_some_iff.mp hn
        exact hs.bootStep (by omega) hok hb
      | dog =>
        unfold next at hn
        split_ifs at hn
        cases hn
        exact hs.dogStep hok
  refine ⟨hinv.derefs, fun hrest k h1 hk => ?_⟩
  have hok := hinv.dog
  have hle := hinv.before (by rw [hrest]; simp) k hk
  rw [hrest] at hok
  exact hok.2 k h1 hle

end Main

theorem threePages_ne_zero : ∀ f ∈ freeFrames BringUp.threePages.pages,
    f + BringUp.threePages.hhdm ≠ 0 := by
  intro f hf
  fin_cases hf <;> decide

/-- The AP fills its slot, and then the watchdog counts and makes a round. -/
def early : List (Act (BringUp.twoCpus 0 1)) :=
  List.replicate 2 (.boot .kentry) ++ List.replicate 17 (.boot (.ap ⟨1, by decide⟩)) ++
    List.replicate 69 .dog

theorem watchdog_checks_early : ∃ s₀ s,
    BringUp.setupBspCpuData 0 (BringUp.blank (BringUp.twoCpus 0 1) BringUp.threePages) =
      .ok () s₀ ∧
    Run (next 0) Timely (init s₀) s ∧ s.dog = .rest ∧ (∀ d ∈ s.derefs, d.2 ≠ 0) ∧
      1 ∈ s.checked := by
  have hrun : ∃ s₀,
      BringUp.setupBspCpuData 0 (BringUp.blank (BringUp.twoCpus 0 1) BringUp.threePages) =
        .ok () s₀ ∧
      ((exec (next 0) Timely (init s₀) early).any fun s => s.dog = .rest ∧ s.before 1 = true) =
        true := ⟨_, rfl, by decide +kernel⟩
  obtain ⟨s₀, h₀, hany⟩ := hrun
  obtain ⟨s, hs, hend⟩ := (Option.any_eq_true _ _).mp hany
  obtain ⟨hrest, hbefore⟩ := of_decide_eq_true hend
  have hr := Run.of_exec .refl hs
  have hall := watchdog_checks (by decide) rfl threePages_ne_zero (by decide) h₀ hr
  exact ⟨s₀, s, h₀, hr, hrest, hall.1, hall.2 hrest 1 le_rfl hbefore⟩

/-- The AP fills its slot after the count: the next round does not come to it. -/
def late : List (Act (BringUp.twoCpus 0 1)) :=
  List.replicate 2 (.boot .kentry) ++ List.replicate 66 .dog ++
    List.replicate 17 (.boot (.ap ⟨1, by decide⟩)) ++ List.replicate 3 .dog

/-- The round after the late AP has visited no slot. -/
theorem watchdog_misses_late :
    ¬ ∀ (mp : MpResponse) (tssForCpus : U64) (a : Allocator) (s₀ : BringUp.State mp) (s : State mp),
      mp.aps.length < 64 → a.lock = .free → (freeFrames a.pages).Nodup →
      (∀ f ∈ freeFrames a.pages, f + a.hhdm ≠ 0) → mp.aps.length < (freeFrames a.pages).length →
      BringUp.setupBspCpuData tssForCpus (BringUp.blank mp a) = .ok () s₀ →
      Run (next tssForCpus) Free (init s₀) s →
      (∀ d ∈ s.derefs, d.2 ≠ 0) ∧
        (s.dog = .rest → ∀ k, 1 ≤ k → s.before k = true → k ∈ s.checked) := by
  intro hall
  have hrun : ∃ s₀,
      BringUp.setupBspCpuData 0 (BringUp.blank (BringUp.twoCpus 0 1) BringUp.threePages) =
        .ok () s₀ ∧
      ((exec (next 0) Free (init s₀) late).any fun s =>
        s.dog = .rest ∧ s.before 1 = true ∧ s.checked = []) = true := ⟨_, rfl, by decide +kernel⟩
  obtain ⟨s₀, h₀, hany⟩ := hrun
  obtain ⟨s, hs, hend⟩ := (Option.any_eq_true _ _).mp hany
  obtain ⟨hrest, hbefore, hchecked⟩ := of_decide_eq_true hend
  have hr := Run.of_exec .refl hs
  have hmem := (hall _ 0 _ s₀ s (by decide) rfl (by decide) threePages_ne_zero (by decide) h₀ hr).2
    hrest 1 le_rfl hbefore
  rw [hchecked] at hmem
  exact List.not_mem_nil hmem

end Watchdog

end DejOs
