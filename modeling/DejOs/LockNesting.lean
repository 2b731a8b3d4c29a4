import DejOs.Lib.Interleaving
import DejOs.Lock

/-!
# Nested use of the kernel lock

Each CPU has a stack of `aquire_lock`/`release_lock` pairs on one lock: a pair is opened on top of
the others by a call, or by an interrupt handler that takes the same lock, and the pairs below go on
only when it is closed. A `Frame` is the access a pair makes next; `inside` is the code between the
two calls. The steps of all CPUs are interleaved in any order.

A CPU that holds the lock is let through `aquire_lock`, but the inner `release_lock` already clears
the lock. `Outermost` is the condition that `release_lock` is called only by a pair with no other
open pair of its CPU below it; then at most one CPU is inside (`mutual_exclusion`).
-/

namespace DejOs

open Interleaving

namespace Nesting

/-- Where one `aquire_lock`/`release_lock` pair is. -/
inductive Frame
  /-- `if (lock->holding_cpu == current_cpu) return` -/
  | check
  /-- `while (atomic_exchange(&lock->held, true))` -/
  | spin
  /-- `lock->holding_cpu = current_cpu` -/
  | tag
  /-- Between the two calls. -/
  | inside
  /-- `lock->holding_cpu = -1` -/
  | untag
  /-- `atomic_store(&lock->held, false)` -/
  | unhold
  deriving DecidableEq, Repr

/-- The pair has the lock, and `release_lock` is not through. -/
def Frame.isOpen : Frame → Bool
  | .check | .spin => false
  | .tag | .inside | .untag | .unhold => true

variable {ι : Type}

/-- The lock, and the pairs of every CPU, innermost first. -/
structure State (ι : Type) where
  lock : Lock
  stack : ι → List Frame

/-- A move of a CPU: it calls `aquire_lock`, it calls `release_lock`, or it makes its next
access. -/
inductive Act
  | aquire
  | release
  | run
  deriving DecidableEq, Repr

section Step

variable [DecidableEq ι]

/-- The state after CPU `c` changed its pairs. -/
def State.set (s : State ι) (c : ι) (l : List Frame) : State ι :=
  { s with stack := Function.update s.stack c l }

/-- The next access of the innermost pair of `c`, whose number is `n`. -/
def State.step (n : CInt) (s : State ι) (c : ι) : Option (State ι) :=
  match s.stack c with
  | .check :: r => if s.lock.passes n then s.set c (.inside :: r) else s.set c (.spin :: r)
  | .spin :: r =>
    if s.lock.held then some { s with lock := s.lock.exchange }
    else some { s.set c (.tag :: r) with lock := s.lock.exchange }
  | .tag :: r => some { s.set c (.inside :: r) with lock := s.lock.tag n }
  | .untag :: r => some { s.set c (.unhold :: r) with lock := s.lock.untag }
  | .unhold :: r => some { s.set c r with lock := s.lock.unhold }
  | .inside :: _ | [] => none

/-- One move of one CPU; `id` gives the CPUs' numbers. -/
def next (id : ι → CInt) (s : State ι) : ι × Act → Option (State ι)
  | (c, .aquire) => s.set c (.check :: s.stack c)
  | (c, .release) =>
    match s.stack c with
    | .inside :: r => s.set c (.untag :: r)
    | _ => none
  | (c, .run) => s.step (id c) c

theorem next_release (id : ι → CInt) {s : State ι} {c : ι} {r : List Frame}
    (h : s.stack c = .inside :: r) : next id s (c, .release) = some (s.set c (.untag :: r)) := by
  unfold next
  simp only [h]

end Step

/-- `c` is between `aquire_lock` and `release_lock`. -/
def State.Inside (s : State ι) (c : ι) : Prop := .inside ∈ s.stack c

/-- Some pair of `c` has the lock. -/
def State.Open (s : State ι) (c : ι) : Prop := ∃ f ∈ s.stack c, f.isOpen = true

/-- `release_lock` is called only when the pairs below are not open. -/
def Outermost (s : State ι) : ι × Act → Prop
  | (c, .release) => ∀ f ∈ (s.stack c).tail, f.isOpen = false
  | _ => True

instance (s : State ι) (m : ι × Act) : Decidable (Outermost s m) :=
  match m with
  | (c, .release) => inferInstanceAs (Decidable (∀ f ∈ (s.stack c).tail, f.isOpen = false))
  | (_, .aquire) | (_, .run) => .isTrue trivial

/-! ## The invariant -/

/-- Below a pair that is taking the lock or giving it back no pair is open. -/
def Above (f g : Frame) : Prop := f = .tag ∨ f = .untag ∨ f = .unhold → g.isOpen = false

/-- What the lock says about the CPUs with an open pair. -/
structure Inv (id : ι → CInt) (s : State ι) : Prop where
  held : ∀ c, s.Open c → s.lock.held = true
  excl : ∀ c d, s.Open c → s.Open d → c = d
  tagged : ∀ c, s.lock.holdingCpu = id c → s.Open c
  cleared : ∀ c, .unhold ∈ s.stack c → s.lock.holdingCpu = -1
  nested : ∀ c, (s.stack c).Pairwise Above

section Keep

variable {id : ι → CInt} {s t : State ι} {c : ι} {l : List Frame}

theorem not_open_of_free (h : Inv id s) (hl : s.lock.held = false) (d : ι) : ¬ s.Open d := by
  intro hd
  rw [h.held d hd] at hl
  cases hl

/-- Under a pair that is taking the lock or giving it back, no pair is open. -/
theorem below_closed (h : Inv id s) {f : Frame} {r : List Frame} (hs : s.stack c = f :: r)
    (hf : f = .tag ∨ f = .untag ∨ f = .unhold) : ∀ g ∈ r, g.isOpen = false := by
  have hp := h.nested c
  rw [hs, List.pairwise_cons] at hp
  exact fun g hg => hp.1 g hg hf

theorem tail_nested (h : Inv id s) {f : Frame} {r : List Frame} (hs : s.stack c = f :: r) :
    r.Pairwise Above := by
  have hp := h.nested c
  rw [hs] at hp
  exact hp.of_cons

theorem open_of_head {f : Frame} {r : List Frame} (hs : s.stack c = f :: r)
    (hf : f.isOpen = true) : s.Open c :=
  ⟨f, by rw [hs]; exact List.mem_cons_self, hf⟩

/-- Replacing the innermost pair by one that is open exactly when it was. -/
theorem open_head_iff {f g : Frame} {r : List Frame} (hs : s.stack c = f :: r)
    (hfg : g.isOpen = f.isOpen) : (∃ k ∈ g :: r, k.isOpen = true) ↔ s.Open c := by
  unfold State.Open
  simp only [hs, List.mem_cons, exists_eq_or_imp, hfg]

variable [DecidableEq ι]

theorem stack_set {P : ι → List Frame → Prop} (ht : t.stack = (s.set c l).stack) (hc : P c l)
    (ho : ∀ d, d ≠ c → P d (s.stack d)) (d : ι) : P d (t.stack d) := by
  rw [ht]
  show P d (Function.update s.stack c l d)
  rcases eq_or_ne d c with rfl | hd
  · rw [Function.update_self]; exact hc
  · rw [Function.update_of_ne hd]; exact ho d hd

/-- A move after which `c` has an open pair if and only if it had one before. -/
theorem Inv.move (h : Inv id s) (ht : t.stack = (s.set c l).stack) (hl : t.lock = s.lock)
    (hopen : (∃ f ∈ l, f.isOpen = true) ↔ s.Open c) (hun : .unhold ∈ l → .unhold ∈ s.stack c)
    (hnest : l.Pairwise Above) : Inv id t := by
  have hiff : ∀ d, t.Open d ↔ s.Open d :=
    stack_set (P := fun d k => (∃ f ∈ k, f.isOpen = true) ↔ s.Open d) ht hopen fun _ _ => Iff.rfl
  constructor
  · intro d hd
    rw [hl]
    exact h.held d ((hiff d).mp hd)
  · exact fun d e hd he => h.excl d e ((hiff d).mp hd) ((hiff e).mp he)
  · intro d hd
    rw [hl] at hd
    exact (hiff d).mpr (h.tagged d hd)
  · rw [hl]
    exact stack_set (P := fun _ k => .unhold ∈ k → s.lock.holdingCpu = -1) ht
      (fun hm => h.cleared c (hun hm)) fun d _ => h.cleared d
  · exact stack_set (P := fun _ k => k.Pairwise Above) ht hnest fun d _ => h.nested d

/-- A pair that is not taking the lock or giving it back may be put on any others. -/
theorem nested_cons {f : Frame} {r : List Frame} (hf : ¬ (f = .tag ∨ f = .untag ∨ f = .unhold))
    (hr : r.Pairwise Above) : (f :: r).Pairwise Above :=
  List.pairwise_cons.mpr ⟨fun _ _ hc => absurd hc hf, hr⟩

theorem nested_cons_closed {f : Frame} {r : List Frame} (hclosed : ∀ g ∈ r, g.isOpen = false)
    (hr : r.Pairwise Above) : (f :: r).Pairwise Above :=
  List.pairwise_cons.mpr ⟨fun g hg _ => hclosed g hg, hr⟩

theorem Inv.take (h : Inv id s) {r : List Frame} (hs : s.stack c = .spin :: r)
    (hl : s.lock.held = false) :
    Inv id { s.set c (.tag :: r) with lock := s.lock.exchange } := by
  have hno := not_open_of_free h hl
  have honly : ∀ d, (∃ f ∈ (s.set c (.tag :: r)).stack d, f.isOpen = true) → d = c :=
    stack_set (s := s) (c := c) (P := fun d k => (∃ f ∈ k, f.isOpen = true) → d = c) rfl
      (fun _ => rfl) fun d _ hd => absurd hd (hno d)
  have hclosed : ∀ g ∈ r, g.isOpen = false := by
    intro g hg
    by_contra hopen
    refine hno c ⟨g, ?_, Bool.not_eq_false _ ▸ hopen⟩
    rw [hs]
    exact List.mem_cons_of_mem _ hg
  constructor
  · exact fun _ _ => rfl
  · exact fun d e hd he => (honly d hd).trans (honly e he).symm
  · exact fun d hd => absurd (h.tagged d hd) (hno d)
  · refine stack_set (s := s) (c := c) (P := fun _ k => .unhold ∈ k → _) rfl ?_
      fun d _ => h.cleared d
    intro hm
    exact h.cleared c (by rw [hs]; simpa using hm)
  · exact stack_set (s := s) (c := c) (P := fun _ k => k.Pairwise Above) rfl
      (nested_cons_closed hclosed (tail_nested h hs)) fun d _ => h.nested d

/-- A pair that is already open makes its next access to the lock and stays open. -/
theorem Inv.stay (h : Inv id s) {f g : Frame} {r : List Frame} {lk : Lock}
    (hs : s.stack c = f :: r) (hf : f = .tag ∨ f = .untag) (hg : g.isOpen = true)
    (hheld : lk.held = s.lock.held) (htag : ∀ d, lk.holdingCpu = id d → d = c)
    (hun : g = .unhold → lk.holdingCpu = -1) :
    Inv id { s.set c (g :: r) with lock := lk } := by
  have hc : s.Open c := open_of_head hs (by rcases hf with rfl | rfl <;> rfl)
  have hclosed := below_closed h hs (hf.imp_right Or.inl)
  have hiff : ∀ d, (∃ f ∈ (s.set c (g :: r)).stack d, f.isOpen = true) ↔ s.Open d :=
    stack_set (s := s) (c := c) (P := fun d k => (∃ f ∈ k, f.isOpen = true) ↔ s.Open d) rfl
      ⟨fun _ => hc, fun _ => ⟨g, List.mem_cons_self, hg⟩⟩ fun _ _ => Iff.rfl
  constructor
  · exact fun d hd => hheld.trans (h.held d ((hiff d).mp hd))
  · exact fun d e hd he => h.excl d e ((hiff d).mp hd) ((hiff e).mp he)
  · intro d hd
    rw [htag d hd]
    exact (hiff c).mpr hc
  · refine stack_set (s := s) (c := c) (P := fun _ k => .unhold ∈ k → lk.holdingCpu = -1) rfl ?_ ?_
    · intro hm
      rcases List.mem_cons.mp hm with he | hm
      · exact hun he.symm
      · exact absurd (hclosed _ hm) (by decide)
    · -- another CPU at `unhold` would have an open pair too
      intro d hd hm
      exact absurd (h.excl d c ⟨_, hm, rfl⟩ hc) hd
  · exact stack_set (s := s) (c := c) (P := fun _ k => k.Pairwise Above) rfl
      (nested_cons_closed hclosed (tail_nested h hs)) fun d _ => h.nested d

theorem Inv.unhold (h : Inv id s) (hne : ∀ c, id c ≠ -1) {r : List Frame}
    (hs : s.stack c = .unhold :: r) : Inv id { s.set c r with lock := s.lock.unhold } := by
  have hc : s.Open c := open_of_head hs rfl
  have hclosed := below_closed h hs (Or.inr (Or.inr rfl))
  have hfree : s.lock.holdingCpu = -1 := h.cleared c (by rw [hs]; exact List.mem_cons_self)
  have hno : ∀ d, ¬ ∃ f ∈ (s.set c r).stack d, f.isOpen = true := by
    refine stack_set (s := s) (c := c) (P := fun d k => ¬ ∃ f ∈ k, f.isOpen = true) rfl ?_ ?_
    · rintro ⟨f, hf, hopen⟩
      rw [hclosed f hf] at hopen
      cases hopen
    · exact fun d hd hopen => hd (h.excl d c hopen hc)
  constructor
  · exact fun d hd => absurd hd (hno d)
  · exact fun d _ hd => absurd hd (hno d)
  · exact fun d hd => absurd (hd.symm.trans hfree) (hne d)
  · exact fun _ _ => hfree
  · exact stack_set (s := s) (c := c) (P := fun _ k => k.Pairwise Above) rfl (tail_nested h hs)
      fun d _ => h.nested d

theorem Inv.step (h : Inv id s) (hinj : Function.Injective id) (hne : ∀ c, id c ≠ -1)
    (hn : s.step (id c) c = some t) : Inv id t := by
  unfold State.step at hn
  split at hn
  · rename_i r hs
    split_ifs at hn with hp
    · cases hn
      have hc : s.Open c := h.tagged c hp
      refine h.move (l := .inside :: r) rfl rfl ⟨fun _ => hc, fun _ => ?_⟩ ?_ ?_
      · exact ⟨.inside, List.mem_cons_self, rfl⟩
      · rw [hs]; simp
      · exact nested_cons (by decide) (tail_nested h hs)
    · cases hn
      refine h.move (l := .spin :: r) rfl rfl (open_head_iff hs rfl) ?_ ?_
      · rw [hs]; simp
      · exact nested_cons (by decide) (tail_nested h hs)
  · rename_i r hs
    split_ifs at hn with hl
    · cases hn
      exact ⟨fun _ _ => rfl, h.excl, h.tagged, h.cleared, h.nested⟩
    · cases hn
      exact h.take hs (by simpa using hl)
  · rename_i r hs
    cases hn
    exact h.stay hs (Or.inl rfl) rfl rfl (fun d hd => (hinj hd).symm) (fun e => by cases e)
  · rename_i r hs
    cases hn
    exact h.stay hs (Or.inr rfl) rfl rfl (fun d hd => absurd hd.symm (hne d)) fun _ => rfl
  · rename_i r hs
    cases hn
    exact h.unhold hne hs
  · cases hn
  · cases hn

/-- **One move.** The invariant is kept. -/
theorem Inv.next {m : ι × Act} (h : Inv id s) (hinj : Function.Injective id)
    (hne : ∀ c, id c ≠ -1) (hout : Outermost s m) (hn : next id s m = some t) : Inv id t := by
  obtain ⟨c, _ | _ | _⟩ := m
  · cases hn
    refine h.move (l := .check :: s.stack c) rfl rfl ?_ ?_ (nested_cons (by decide) (h.nested c))
    · simp only [List.mem_cons, exists_eq_or_imp]
      exact or_iff_right (by decide)
    · simp
  · have hn : (match s.stack c with
      | .inside :: r => some (s.set c (.untag :: r))
      | _ => none) = some t := hn
    split at hn
    · rename_i r hs
      cases hn
      have hclosed : ∀ f ∈ r, f.isOpen = false := by
        have hout : ∀ f ∈ (s.stack c).tail, f.isOpen = false := hout
        rwa [hs] at hout
      refine h.move (l := .untag :: r) rfl rfl (open_head_iff hs rfl) ?_ ?_
      · rw [hs]; simp
      · exact nested_cons_closed hclosed (tail_nested h hs)
    · cases hn
  · exact h.step hinj hne hn

/-- **The bit is not left behind.** When it is set, some CPU has an open pair. -/
theorem held_next {m : ι × Act} (h : s.lock.held = true → ∃ d, s.Open d)
    (hn : next id s m = some t) : t.lock.held = true → ∃ d, t.Open d := by
  have hhead : ∀ (lk : Lock) {l : List Frame}, (∃ f ∈ l, f.isOpen = true) → ∀ {c : ι},
      State.Open { s.set c l with lock := lk } c := by
    intro lk l hl c
    show ∃ f ∈ Function.update s.stack c l c, f.isOpen = true
    rwa [Function.update_self]
  have hkeep : ∀ {c : ι} {l : List Frame}, (s.Open c → ∃ f ∈ l, f.isOpen = true) →
      s.lock.held = true → ∃ d, (s.set c l).Open d := by
    intro c l hl hheld
    obtain ⟨d, hd⟩ := h hheld
    rcases eq_or_ne d c with rfl | hne
    · exact ⟨d, hhead s.lock (hl hd)⟩
    · refine ⟨d, ?_⟩
      show ∃ f ∈ Function.update s.stack c l d, f.isOpen = true
      rwa [Function.update_of_ne hne]
  obtain ⟨c, _ | _ | _⟩ := m
  · cases hn
    exact hkeep fun ⟨f, hf, hopen⟩ => ⟨f, List.mem_cons_of_mem _ hf, hopen⟩
  · have hn : (match s.stack c with
      | .inside :: r => some (s.set c (.untag :: r))
      | _ => none) = some t := hn
    split at hn
    · cases hn
      exact hkeep fun _ => ⟨.untag, List.mem_cons_self, rfl⟩
    · cases hn
  · have hn : s.step (id c) c = some t := hn
    unfold State.step at hn
    split at hn
    · rename_i r hs
      split_ifs at hn with hp
      · cases hn
        exact hkeep fun _ => ⟨.inside, List.mem_cons_self, rfl⟩
      · cases hn
        exact hkeep (open_head_iff (g := .spin) hs rfl).mpr
    · split_ifs at hn with hl
      · cases hn
        exact fun _ => h hl
      · cases hn
        exact fun _ => ⟨c, hhead _ ⟨.tag, List.mem_cons_self, rfl⟩⟩
    · cases hn
      exact fun _ => ⟨c, hhead _ ⟨.inside, List.mem_cons_self, rfl⟩⟩
    · cases hn
      exact fun _ => ⟨c, hhead _ ⟨.unhold, List.mem_cons_self, rfl⟩⟩
    · cases hn
      exact fun hheld => by cases hheld
    · cases hn
    · cases hn

end Keep

/-! ## Mutual exclusion -/

/-- Nobody has called `aquire_lock`, and the lock is free. -/
def initial (ι : Type) : State ι := ⟨.free, fun _ => []⟩

theorem initial_inv {id : ι → CInt} (hne : ∀ c, id c ≠ -1) : Inv id (initial ι) where
  held c hc := by obtain ⟨f, hf, -⟩ := hc; cases hf
  excl c d hc := by obtain ⟨f, hf, -⟩ := hc; cases hf
  tagged c hc := absurd hc.symm (hne c)
  cleared c hm := by cases hm
  nested c := List.Pairwise.nil

/-- **Mutual exclusion.** CPUs with distinct numbers, none of them `-1`, nest their pairs to any
depth, by calls or from interrupt handlers, in any interleaving. As long as `release_lock` is never
called with another pair of the same CPU open below, at most one CPU is between `aquire_lock` and
`release_lock`. -/
theorem mutual_exclusion [DecidableEq ι] {id : ι → CInt} {s : State ι}
    (hinj : Function.Injective id) (hne : ∀ c, id c ≠ -1)
    (hrun : Run (next id) Outermost (initial ι) s) {c d : ι} (hc : s.Inside c) (hd : s.Inside d) :
    c = d := by
  have h : Inv id s := hrun.invariant (initial_inv hne) fun _ _ _ hi => hi.next hinj hne
  exact h.excl c d ⟨_, hc, rfl⟩ ⟨_, hd, rfl⟩

/-- The numbers of two CPUs. -/
def ids : Fin 2 → CInt := ![0, 1]

/-- CPU 0 is inside, and a handler on it is let through. -/
def nested : List (Fin 2 × Act) :=
  [.aquire, .run, .run, .run, .aquire, .run].map fun a => (⟨0, Nat.two_pos⟩, a)

theorem mutual_exclusion_nested :
    ∃ s, exec (next ids) Outermost (initial (Fin 2)) (nested ++ [(1, .aquire), (1, .run)]) =
        some s ∧
      s.stack 0 = [.inside, .inside] ∧ s.stack 1 = [.spin] ∧ ∀ d, s.Inside d → 0 = d := by
  refine ⟨_, rfl, rfl, rfl, fun d hd => ?_⟩
  have hrun : Run (next ids) Outermost (initial (Fin 2)) _ :=
    Run.of_exec (l := nested ++ [(1, .aquire), (1, .run)]) .refl rfl
  refine mutual_exclusion (by decide) (by decide) hrun ?_ hd
  exact List.mem_cons_self

/-- The handler's `release_lock` clears the lock, and CPU 1 comes in while CPU 0 is still inside. -/
theorem two_inside_nested :
    ¬ ∀ s : State (Fin 2), Run (next ids) Free (initial (Fin 2)) s →
      ∀ c d, s.Inside c → s.Inside d → c = d := by
  intro h
  have hrun : Run (next ids) Free (initial (Fin 2)) _ :=
    Run.of_exec (l := nested ++ [(0, .release), (0, .run), (0, .run),
      (1, .aquire), (1, .run), (1, .run), (1, .run)]) .refl rfl
  exact absurd (h _ hrun 0 1 List.mem_cons_self List.mem_cons_self) (by decide)

end Nesting

end DejOs
