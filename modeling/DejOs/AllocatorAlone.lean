import DejOs.AllocatorSmp

/-!
# A CPU that is alone in the allocator

As long as no other CPU moves, the accesses of a `KGetPage` do to the allocator what the function
`Allocator.kGetPage` does, and its caller gets what the function returns (`alone_kGetPage`).
-/

namespace DejOs

open Interleaving Allocator

namespace Smp

variable {ι : Type} [DecidableEq ι] {s s' : State ι} {c : ι}

/-! ## What one access of the allocator leaves alone -/

theorem Trans.gsBase (ht : Trans s c s') : s'.gsBase = s.gsBase := by
  cases ht <;> rfl

theorem Trans.hhdm (ht : Trans s c s') : s'.hhdm = s.hhdm := by
  cases ht <;> rfl

theorem Trans.cpuId (ht : Trans s c s') : s'.cpuId = s.cpuId := by
  cases ht <;> rfl

theorem Trans.pc_of_ne (ht : Trans s c s') {d : ι} (hd : d ≠ c) : s'.pc d = s.pc d := by
  cases ht <;> first | rfl | exact goto_pc_of_ne _ _ hd

theorem Trans.ret_of_ne (ht : Trans s c s') {d : ι} (hd : d ≠ c) : s'.ret d = s.ret d := by
  cases ht <;> first | rfl | exact Function.update_of_ne hd ..

/-- The allocator as CPU `c` sees it. -/
def State.allocator (s : State ι) (c : ι) : Allocator :=
  ⟨s.pages, s.lock, s.hhdm, ⟨s.gsBase c, s.cpuId (s.gsBase c)⟩⟩

/-- Only CPU `c` moves. -/
def Only (c : ι) (_ : State ι) (m : ι × Act) : Prop := m = (c, .run)

/-- What a CPU in the allocator leaves alone. -/
structure Aside (s : State ι) (c : ι) (s' : State ι) : Prop where
  gsBase : s'.gsBase = s.gsBase
  cpuId : s'.cpuId = s.cpuId
  hhdm : s'.hhdm = s.hhdm
  pc : ∀ d, d ≠ c → s'.pc d = s.pc d

theorem aside_of_only (h : Run next (Only c) s s') : Aside s c s' := by
  refine h.invariant (P := Aside s c) ⟨rfl, rfl, rfl, fun _ _ => rfl⟩ ?_
  rintro t m t' ha rfl hn
  have ht : Trans t c t' := trans_of_step hn
  exact ⟨ht.gsBase.trans ha.gsBase, ht.cpuId.trans ha.cpuId, ht.hhdm.trans ha.hhdm,
    fun d hd => (ht.pc_of_ne hd).trans (ha.pc d hd)⟩

theorem startAt_setUsed (pages : List Page) (i j : ℕ) (b : Bool) :
    startAt (setUsed pages i b) j = startAt pages j := by
  unfold startAt
  rw [getElem?_setUsed]
  split
  · cases pages[j]? <;> rfl
  · rfl

/-! ## The accesses of a call -/

section Alone

variable {f : Get} {n : CInt} {i j : ℕ} {p : Page} {cpu : Cpu} {l : Lock} {t : State ι}

theorem only_step (h : Run next (Only c) s t) (hn : t.step c = some s') :
    Run next (Only c) s s' := h.step rfl hn

theorem alone_acquire (hpc : s.pc c = .check f cpu.current)
    (hl : aquireLock cpu s.lock = .ok () l) :
    ∃ s', Run next (Only c) s s' ∧ s'.pc c = .scan f 0 ∧ s'.lock = l ∧ s'.pages = s.pages := by
  unfold aquireLock at hl
  split_ifs at hl with hpass hheld
  · cases hl
    have h₁ : s.step c = some (s.goto c (.scan f 0)) := by
      unfold State.step
      simp only [hpc, if_pos hpass]
    exact ⟨_, only_step .refl h₁, goto_pc_self s c _, rfl, rfl⟩
  · cases hl
    have h₁ : s.step c = some (s.goto c (.spin f cpu.current)) := by
      unfold State.step
      simp only [hpc, if_neg hpass]
    have r₁ := only_step .refl h₁
    have hpc₁ := goto_pc_self s c (.spin f cpu.current)
    have h₂ : (s.goto c (.spin f cpu.current)).step c =
        some { (s.goto c (.spin f cpu.current)).goto c (.tag f cpu.current) with
          lock := s.lock.exchange, holder := some c } := by
      unfold State.step
      rw [hpc₁]
      exact if_neg hheld
    have r₂ := only_step r₁ h₂
    generalize hu : ({ (s.goto c (.spin f cpu.current)).goto c (.tag f cpu.current) with
        lock := s.lock.exchange, holder := some c } : State ι) = u at r₂
    have hpc₂ : u.pc c = .tag f cpu.current := by
      rw [← hu]
      exact goto_pc_self (s.goto c (.spin f cpu.current)) c _
    have h₃ : u.step c = some { u.goto c (.scan f 0) with lock := u.lock.tag cpu.current } := by
      unfold State.step
      rw [hpc₂]
    refine ⟨_, only_step r₂ h₃, goto_pc_self u c _, ?_, ?_⟩
    · rw [← hu]
    · rw [← hu]
      rfl

theorem goto_goto (s : State ι) (c : ι) (p q : Pc) : (s.goto c p).goto c q = s.goto c q := by
  unfold State.goto
  rw [Function.update_idem]

theorem alone_scan (hp : FirstUnused s.pages j p) (hij : i ≤ j) (hpc : s.pc c = .scan f i) :
    Run next (Only c) s (s.goto c (.mark f j)) := by
  induction hn : j - i generalizing s i with
  | zero =>
    obtain rfl : i = j := by omega
    refine only_step .refl ?_
    unfold State.step
    simp only [hpc, hp.get, hp.unused]
    rfl
  | succ n ih =>
    obtain ⟨hlt, -⟩ := List.getElem?_eq_some_iff.mp hp.get
    have hi : i < s.pages.length := by omega
    have hused := hp.below i s.pages[i] (by omega) (List.getElem?_eq_getElem hi)
    have hstep : s.step c = some (s.goto c (.scan f (i + 1))) := by
      unfold State.step
      simp only [hpc, List.getElem?_eq_getElem hi, if_pos hused]
    have hrest := ih (s := s.goto c (.scan f (i + 1))) hp (by omega) (goto_pc_self s c _) (by omega)
    rw [goto_goto] at hrest
    exact (only_step .refl hstep).trans hrest

theorem alone_scan_end (hall : ∀ p ∈ s.pages, p.used = true) (hi : i ≤ s.pages.length)
    (hpc : s.pc c = .scan .kGetPage i) :
    Run next (Only c) s { s.goto c .idle with ret := Function.update s.ret c 0 } := by
  induction hn : s.pages.length - i generalizing s i with
  | zero =>
    have hp : s.pages[i]? = none := List.getElem?_eq_none (by omega)
    refine only_step .refl ?_
    unfold State.step
    simp only [hpc, hp]
  | succ n ih =>
    have hi : i < s.pages.length := by omega
    have hstep : s.step c = some (s.goto c (.scan .kGetPage (i + 1))) := by
      unfold State.step
      simp only [hpc, List.getElem?_eq_getElem hi, if_pos (hall _ (List.getElem_mem hi))]
    have hrest := ih (s := s.goto c (.scan .kGetPage (i + 1))) hall hi (goto_pc_self s c _)
      (by show s.pages.length - _ = n; omega)
    rw [goto_goto] at hrest
    exact (only_step .refl hstep).trans hrest

/-- `release_lock`. -/
theorem alone_release (hpc : s.pc c = .untag f i) : ∃ s', Run next (Only c) s s' ∧
    s'.pc c = .load f i ∧ s'.lock = .free ∧ s'.pages = s.pages := by
  have h₁ : s.step c = some { s.goto c (.unhold f i) with lock := s.lock.untag } := by
    unfold State.step
    rw [hpc]
  have r₁ := only_step .refl h₁
  generalize ht : ({ s.goto c (.unhold f i) with lock := s.lock.untag } : State ι) = t at r₁
  have hpc₁ : t.pc c = .unhold f i := by
    rw [← ht]
    exact goto_pc_self s c _
  have h₂ : t.step c = some { t.goto c (.load f i) with
      lock := t.lock.unhold, holder := none } := by
    unfold State.step
    rw [hpc₁]
  refine ⟨_, only_step r₁ h₂, goto_pc_self t c _, ?_, ?_⟩
  · rw [← ht]
    rfl
  · rw [← ht]
    rfl

theorem alone_mark (hpc : s.pc c = .mark .kGetPage i) :
    ∃ s', Run next (Only c) s s' ∧ s'.pc c = .idle ∧ s'.lock = .free ∧
      s'.pages = setUsed s.pages i true ∧ s'.ret c = startAt s.pages i + s.hhdm := by
  have h₁ : s.step c = some { s.goto c (.untag .kGetPage i) with
      pages := setUsed s.pages i true
      owned := (c, startAt s.pages i) :: s.owned } := by
    unfold State.step
    rw [hpc]
  have r₁ := only_step .refl h₁
  generalize ht : ({ s.goto c (.untag .kGetPage i) with
      pages := setUsed s.pages i true
      owned := (c, startAt s.pages i) :: s.owned } : State ι) = t at r₁
  have hpc₁ : t.pc c = .untag .kGetPage i := by
    rw [← ht]
    exact goto_pc_self s c _
  obtain ⟨u, r₂, hload, hfree, hpages⟩ := alone_release hpc₁
  have h₂ : u.step c = some { u.goto c .idle with
      ret := Function.update u.ret c (u.result .kGetPage i) } := by
    unfold State.step
    rw [hload]
  have hset : u.pages = setUsed s.pages i true := hpages.trans (by rw [← ht])
  refine ⟨_, only_step (r₁.trans r₂) h₂, goto_pc_self u c .idle, hfree, hset, ?_⟩
  refine (Function.update_self ..).trans ?_
  show startAt u.pages i + u.hhdm = _
  rw [hset, startAt_setUsed, (aside_of_only (r₁.trans r₂)).hhdm]

theorem alone_toMark (hpc : s.pc c = .check f cpu.current) (hl : aquireLock cpu s.lock = .ok () l)
    (hp : FirstUnused s.pages j p) :
    ∃ s', Run next (Only c) s s' ∧ s'.pc c = .mark f j ∧ s'.lock = l ∧ s'.pages = s.pages := by
  obtain ⟨t, ht, hscan, hlock, hpages⟩ := alone_acquire hpc hl
  have hp : FirstUnused t.pages j p := by
    rw [hpages]
    exact hp
  exact ⟨_, ht.trans (alone_scan hp (Nat.zero_le j) hscan), goto_pc_self t c _, hlock, hpages⟩

/-- The ways `KGetPage` returns. -/
theorem kGetPage_eq_ok {a a' : Allocator} {b : U64} (hk : kGetPage a = .ok b a') :
    ∃ l, aquireLock a.cpu a.lock = .ok () l ∧
      ((∀ p ∈ a.pages, p.used = true) ∧ b = 0 ∧ a' = { a with lock := l } ∨
        ∃ p, FirstUnused a.pages (firstUnused a.pages) p ∧
          b = startAt a.pages (firstUnused a.pages) + a.hhdm ∧
          a' = { a with pages := setUsed a.pages (firstUnused a.pages) true, lock := .free }) := by
  obtain ⟨_, a₁, hlock, hrest⟩ := Kernel.bind_eq_ok.mp hk
  obtain ⟨l, hl, rfl⟩ : ∃ l, aquireLock a.cpu a.lock = .ok () l ∧ { a with lock := l } = a₁ := by
    cases hl : aquireLock a.cpu a.lock with
    | ok u l =>
      have hz : lockMemory a = .ok () { a with lock := l } := Kernel.zoom_of_ok hl
      rw [hz] at hlock
      exact ⟨l, rfl, (EStateM.Result.ok.inj hlock).2⟩
    | error e l =>
      have hz : lockMemory a = .error e { a with lock := l } := Kernel.zoom_of_error hl
      rw [hz] at hlock
      cases hlock
  refine ⟨l, hl, ?_⟩
  rcases firstUnused_cases a.pages with ⟨hi, hall⟩ | ⟨p, hp⟩
  · have hrest : (if firstUnused a.pages = a.pages.length then _ else _ : Kernel Allocator U64) _ =
        .ok b a' := hrest
    rw [if_pos hi] at hrest
    obtain ⟨rfl, rfl⟩ := EStateM.Result.ok.inj hrest
    exact Or.inl ⟨hall, rfl, rfl⟩
  · have hrest : (if firstUnused a.pages = a.pages.length then _ else _ : Kernel Allocator U64) _ =
        .ok b a' := hrest
    rw [if_neg hp.ne_length] at hrest
    obtain ⟨rfl, rfl⟩ := EStateM.Result.ok.inj hrest
    exact Or.inr ⟨p, hp, rfl, rfl⟩

omit [DecidableEq ι] in
theorem Aside.allocator {a : Allocator} (h : Aside s c s')
    (hpages : s'.pages = a.pages) (hlock : s'.lock = a.lock) (hh : a.hhdm = s.hhdm)
    (hcpu : a.cpu = (s.allocator c).cpu) : s'.allocator c = a := by
  have hcpu : ⟨s.gsBase c, s.cpuId (s.gsBase c)⟩ = a.cpu := hcpu.symm
  unfold State.allocator
  rw [hpages, hlock, h.gsBase, h.cpuId, h.hhdm, ← hh, hcpu]

/-- **`KGetPage` of a CPU that is alone.** Its accesses do what the function does, when that
returns. -/
theorem alone_kGetPage {b : U64} {a : Allocator} (hpc : s.pc c = .check .kGetPage (s.current c))
    (hk : kGetPage (s.allocator c) = .ok b a) :
    ∃ s', Run next (Only c) s s' ∧ s'.pc c = .idle ∧ s'.allocator c = a ∧ s'.ret c = b := by
  have hcheck : s.pc c = .check .kGetPage (s.allocator c).cpu.current := hpc
  obtain ⟨l, hl, ⟨hall, rfl, rfl⟩ | ⟨p, hp, rfl, rfl⟩⟩ := kGetPage_eq_ok hk
  · obtain ⟨t, ht, hscan, hlock, hpages⟩ := alone_acquire hcheck hl
    have hend := alone_scan_end (by rw [hpages]; exact hall) (Nat.zero_le _) hscan
    refine ⟨_, ht.trans hend, goto_pc_self t c _, ?_, Function.update_self ..⟩
    exact (aside_of_only (ht.trans hend)).allocator hpages hlock rfl rfl
  · obtain ⟨t, ht, hmark, -, hpages⟩ := alone_toMark hcheck hl hp
    obtain ⟨u, hu, hidle, hfree, hset, hret⟩ := alone_mark hmark
    refine ⟨u, ht.trans hu, hidle, ?_, ?_⟩
    · exact (aside_of_only (ht.trans hu)).allocator (hset.trans (by rw [hpages]; rfl)) hfree rfl rfl
    · rw [hret, hpages, (aside_of_only ht).hhdm]
      rfl

end Alone

end Smp

end DejOs
