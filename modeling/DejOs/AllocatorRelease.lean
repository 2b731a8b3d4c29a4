import DejOs.AllocatorSmp

/-!
# The allocator gives its lock back

When no call is under way the memory lock is free, except that a `KGetPage` that finds no page
returns without `release_lock`. `NoFailure` is the condition that this return is not taken.

Nothing is asked of the CPUs' numbers here: whoever is let through `aquire_lock`, every way out of
the locked part but the failing return clears both words of the lock. `Release` says that a word of
the lock that is set is still to be cleared by some CPU.
-/

namespace DejOs

open Interleaving Allocator

namespace Smp

variable {ι : Type}

/-- The next access of `c` is the end of the loop of `KGetPage` with no page found. -/
def State.fails (s : State ι) (c : ι) : Bool :=
  match s.pc c with
  | .scan .kGetPage i => s.pages.length ≤ i
  | _ => false

/-- No `KGetPage` takes its failing return. -/
def NoFailure (s : State ι) : ι × Act → Prop
  | (c, .run) => s.fails c = false
  | _ => True

instance (s : State ι) (m : ι × Act) : Decidable (NoFailure s m) :=
  match m with
  | (c, .run) => inferInstanceAs (Decidable (s.fails c = false))
  | (_, .call _) => .isTrue trivial

/-- Places from which a CPU still clears `holding_cpu`, or never returns. -/
def Pc.tagged : Pc → Bool
  | .scan _ _ | .mark _ _ | .untag _ _ | .halted => true
  | _ => false

/-- Places from which a CPU still clears `held`, or never returns. -/
def Pc.holds : Pc → Bool
  | .tag _ _ | .scan _ _ | .mark _ _ | .untag _ _ | .unhold _ _ | .halted => true
  | _ => false

/-- What is set in the lock is still to be cleared. -/
structure Release (s : State ι) : Prop where
  held : s.lock.held = true → ∃ c, (s.pc c).holds = true
  tagged : s.lock.holdingCpu ≠ -1 → ∃ c, (s.pc c).tagged = true

section Keep

variable [DecidableEq ι] {s s' : State ι} {c : ι}

/-- A CPU at one of the places of `P` is still there after `c` moved to another of them. -/
theorem exists_goto {P : Pc → Bool} {p : Pc} (hp : P (s.pc c) = true → P p = true)
    (h : ∃ d, P (s.pc d) = true) : ∃ d, P ((s.goto c p).pc d) = true := by
  obtain ⟨d, hd⟩ := h
  rcases eq_or_ne d c with rfl | hne
  · exact ⟨d, by rw [goto_pc_self]; exact hp hd⟩
  · exact ⟨d, by rw [goto_pc_of_ne _ _ hne]; exact hd⟩

/-- A move that sets nothing in the lock and leaves none of the places. -/
theorem Release.move (h : Release s) {t : State ι} {p : Pc} (hpc : t.pc = (s.goto c p).pc)
    (hl : t.lock = s.lock) (hh : (s.pc c).holds = true → p.holds = true)
    (ht : (s.pc c).tagged = true → p.tagged = true) : Release t where
  held := by rw [hl, hpc]; exact fun e => exists_goto hh (h.held e)
  tagged := by rw [hl, hpc]; exact fun e => exists_goto ht (h.tagged e)

theorem Release.outside (h : Release s) {t : State ι} {p : Pc} (hpc : t.pc = (s.goto c p).pc)
    (hl : t.lock = s.lock) (hh : (s.pc c).holds = false) (ht : (s.pc c).tagged = false) :
    Release t :=
  h.move hpc hl (by rw [hh]; exact fun e => by cases e) (by rw [ht]; exact fun e => by cases e)

theorem Release.trans (h : Release s) (hok : s.fails c = false) (ht : Trans s c s') :
    Release s' := by
  cases ht with
  | pass hpc hn => exact h.move rfl rfl (fun _ => rfl) (fun _ => rfl)
  | miss hpc hn => exact h.outside rfl rfl (by rw [hpc]; rfl) (by rw [hpc]; rfl)
  | poll hpc hl => exact ⟨fun _ => h.held hl, h.tagged⟩
  | @take f n hpc hl =>
    refine ⟨fun _ => ⟨c, ?_⟩, fun e => ?_⟩
    · show ((s.goto c (.tag f n)).pc c).holds = true
      rw [goto_pc_self]; rfl
    · exact exists_goto (p := .tag f n) (by rw [hpc]; exact id) (h.tagged e)
  | @tag f n hpc =>
    have hc : (s.goto c (.scan f 0)).pc c = .scan f 0 := goto_pc_self ..
    exact ⟨fun _ => ⟨c, congrArg Pc.holds hc⟩, fun _ => ⟨c, congrArg Pc.tagged hc⟩⟩
  | busy hpc hp hu => exact h.move rfl rfl (fun _ => rfl) (fun _ => rfl)
  | found hpc hp hu => exact h.move rfl rfl (fun _ => rfl) (fun _ => rfl)
  | @fail i hpc hp =>
    -- the side condition excludes the failing return
    have hi : s.pages.length ≤ i := List.getElem?_eq_none_iff.mp hp
    unfold State.fails at hok
    rw [hpc] at hok
    exact absurd hi (of_decide_eq_false hok)
  | exhausted hpc hp => exact h.move rfl rfl (fun _ => rfl) (fun _ => rfl)
  | mark hpc => exact h.move rfl rfl (fun _ => rfl) (fun _ => rfl)
  | @untag f i hpc =>
    refine ⟨fun e => ?_, fun e => absurd rfl e⟩
    exact exists_goto (p := .unhold f i) (fun _ => rfl) (h.held e)
  | @unhold f i hpc =>
    refine ⟨Bool.noConfusion, fun e => ?_⟩
    exact exists_goto (p := .load f i) (by rw [hpc]; exact id) (h.tagged e)
  | load hpc => exact h.outside rfl rfl (by rw [hpc]; rfl) (by rw [hpc]; rfl)
  | skip hpc hp hs => exact h.outside rfl rfl (by rw [hpc]; rfl) (by rw [hpc]; rfl)
  | hit hpc hp hs => exact h.outside rfl rfl (by rw [hpc]; rfl) (by rw [hpc]; rfl)
  | lost hpc => exact h.move rfl rfl (fun _ => rfl) (fun _ => rfl)
  | inUse hpc => exact h.outside rfl rfl (by rw [hpc]; rfl) (by rw [hpc]; rfl)
  | clear hpc => exact h.outside rfl rfl (by rw [hpc]; rfl) (by rw [hpc]; rfl)

theorem Release.next {m : ι × Act} (h : Release s) (hok : NoFailure s m)
    (hn : next s m = some s') : Release s' := by
  obtain ⟨c, r | _⟩ := m
  · have hn : (if s.pc c = .idle then some (s.enter c r) else none) = some s' := hn
    split_ifs at hn with hpc
    cases hn
    cases r with
    | kGetPage | giveRawPage | retPage =>
      exact h.outside rfl rfl (by rw [hpc]; rfl) (by rw [hpc]; rfl)
  · exact h.trans hok (trans_of_step hn)

end Keep

/-- **The lock comes back.** Any CPUs call the three functions in any order and interleaving, from
any page list. If no `KGetPage` takes its failing return, the memory lock is free whenever no call
is under way. -/
theorem lock_free_of_idle [DecidableEq ι] {s₀ s : State ι} (hlock : s₀.lock = .free)
    (hrun : Run next NoFailure s₀ s) (hidle : ∀ c, s.pc c = .idle) : s.lock = .free := by
  have h0 : Release s₀ := by
    constructor <;> rw [hlock] <;> intro e <;> exact absurd e (by decide)
  have h : Release s := hrun.invariant h0 fun _ _ _ => Release.next
  have hheld : s.lock.held = false := by
    by_contra e
    obtain ⟨c, hc⟩ := h.held (Bool.not_eq_false _ ▸ e)
    rw [hidle c] at hc
    cases hc
  have htag : s.lock.holdingCpu = -1 := by
    by_contra e
    obtain ⟨c, hc⟩ := h.tagged e
    rw [hidle c] at hc
    cases hc
  rw [Lock.free, ← hheld, ← htag]

/-- One `KGetPage` of CPU 0, to its return. -/
def oneCall (accesses : ℕ) : List (Fin 2 × Act) :=
  (⟨0, Nat.two_pos⟩, .call .kGetPage) :: List.replicate accesses (⟨0, Nat.two_pos⟩, .run)

theorem lock_free_of_idle_onePage :
    ∃ s, exec next NoFailure (twoCpus 0 1 [0x100000]) (oneCall 8) = some s ∧
      (∀ c, s.pc c = .idle) ∧ s.ret 0 = 0xFFFF800000100000 ∧ s.lock = .free := by
  refine ⟨_, rfl, by decide, by decide, ?_⟩
  have hrun : Run next NoFailure (twoCpus 0 1 [0x100000]) _ :=
    Run.of_exec (l := oneCall 8) .refl rfl
  exact lock_free_of_idle rfl hrun (by decide)

/-- With no page left the call returns `NULL` and keeps the lock. -/
theorem lock_kept_noPage :
    ¬ ∀ s₀ s : State (Fin 2), (∀ c, s₀.pc c = .idle) → s₀.lock = .free → Run next Free s₀ s →
      (∀ c, s.pc c = .idle) → s.lock = .free := by
  intro h
  have hrun : Run next Free (twoCpus 0 1 []) _ := Run.of_exec (l := oneCall 4) .refl rfl
  exact absurd (h _ _ (fun _ => rfl) rfl hrun (by decide)) (by decide)

end Smp

end DejOs
