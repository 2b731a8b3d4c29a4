import DejOs.BringUpPages

/-!
# The identities of the CPUs

The words `cpu_id` and `tss` of the per-CPU blocks, once every AP has gone through `ap_entry`. The
boot CPU has written the constant `0`, the APs their LAPIC ids. As long as the lock lets only the
CPU through that took it, the identities are distinct exactly when no AP has the LAPIC id `0`. In
all runs they are distinct only with one AP at most: two APs that start have number `0` both, are in
`KGetPage` together and get the same block (`run_sameBlock`).
-/

namespace DejOs

open Interleaving Allocator

namespace BringUp

variable {mp : MpResponse}

/-- The boot CPU and the APs. -/
def Started (mp : MpResponse) : Id mp → Prop
  | none => True
  | some c => mp.IsAp c

/-- Every AP has gone through `ap_entry`. -/
def AllUp (s : State mp) : Prop := ∀ c, mp.IsAp c → ∃ k b, s.stage c = .running k b

/-- No two CPUs have the same `cpu_id` or the same `tss`. -/
def Distinct (s : State mp) : Prop :=
  ∀ c d, Started mp c → Started mp d → c ≠ d → s.cpuId c ≠ s.cpuId d ∧ s.tss c ≠ s.tss d

/-- `aquire_lock` lets an AP through only when it took the lock. -/
def OwnPass (s : State mp) : Act mp → Prop
  | .kentry => True
  | .ap c => s.ap.smp.intrudes (some c) = false

instance (s : State mp) : DecidablePred (OwnPass s)
  | .kentry => .isTrue trivial
  | .ap c => inferInstanceAs (Decidable (s.ap.smp.intrudes (some c) = false))

/-! ## Only the CPU that took the lock is let through -/

/-- The blocks are the CPUs' own, with what they have written, and there are frames. -/
structure Kept (tssForCpus : U64) (F : List U64) (s : State mp) : Prop where
  inv : Ap.Inv s.ap
  words : ∀ c, Ap.WordsOk tssForCpus (number mp) s.ap c (s.ap.stage c)
  bsp : ∃ b, s.ap.stage none = .running 0 b
  stock : Stock F s

section Kept

variable {tssForCpus : U64} {F : List U64} {a a' : Allocator} {b : U64} {s₀ s s' : State mp}
  {c : Fin mp.cpuCount}

theorem Moved.stage_none (h : Moved tssForCpus s c s') : s'.ap.stage none = s.ap.stage none := by
  cases h with
  | access => rfl
  | went he hw => exact hw.stage_of_ne (Option.some_ne_none c).symm

theorem Kept.ap (h : Kept tssForCpus F s) (hown : s.ap.smp.intrudes (some c) = false)
    (hn : s.apEntry tssForCpus c = some s') : Kept tssForCpus F s' := by
  have hm := moved_of_apEntry hn
  have hbsp : ∃ b, s'.ap.stage none = .running 0 b := by
    rw [hm.stage_none]
    exact h.bsp
  have hstock := h.stock.moved hm
  unfold State.apEntry at hn
  split_ifs at hn with he
  obtain ⟨t, ht, rfl⟩ := Option.map_eq_some_iff.mp hn
  obtain ⟨m, hnext, hret, hserved⟩ : ∃ m, Ap.next tssForCpus (number mp) s.ap (some c, m) = some t ∧
      Ap.RetOther s.ap (some c, m) ∧ Ap.Served s.ap (some c, m) := by
    rcases apStep_cases ht with hentry | ⟨-, hmem⟩
    · exact ⟨.entry, hentry, trivial, trivial⟩
    · exact ⟨.mem .run, hmem, trivial, hown, fun hc => h.stock.not_fails hc⟩
  exact ⟨h.inv.next hret hserved hnext, Ap.words_next h.inv h.words hnext, hbsp, hstock⟩

theorem Kept.kentry (h : Kept tssForCpus F s) (hn : s.kentry = some s') :
    Kept tssForCpus F s' := by
  have hstock := h.stock.kentry hn
  obtain ⟨hap, -⟩ := kentry_ap hn
  exact ⟨hap ▸ h.inv, hap ▸ h.words, hap ▸ h.bsp, hstock⟩

theorem booted_ap (hn : (a.pages.map Page.start).Nodup) (hl : a.lock = .free)
    (hne : freeFrames a.pages ≠ [])
    (hk : Allocator.kGetPage { a with cpu := ⟨0, 0⟩ } = .ok b a') :
    Ap.Booted (booted mp tssForCpus a' b).ap none := by
  obtain ⟨f, rest, hf⟩ := List.exists_cons_of_ne_nil hne
  obtain ⟨p, hp, -, -⟩ := firstUnused_of_free hf
  have hsucc := kGetPage_success (a := { a with cpu := ⟨0, 0⟩ }) (Or.inl hl) hp
  obtain ⟨rfl, rfl⟩ := EStateM.Result.ok.inj (hk.symm.trans hsucc)
  have hmem : (⟨p.start, true⟩ : Page) ∈ setUsed a.pages (firstUnused a.pages) true := by
    refine List.mem_of_getElem? (i := firstUnused a.pages) ?_
    rw [getElem?_setUsed, if_pos rfl, hp.get]
    rfl
  refine ⟨?_, rfl, rfl, fun _ => rfl, List.nodup_singleton _, fun c x hx => ?_, ?_, ?_,
    fun c hc => ?_, rfl, ?_⟩
  · show ((setUsed a.pages (firstUnused a.pages) true).map Page.start).Nodup
    rw [map_start_setUsed]
    exact hn
  · obtain ⟨-, rfl⟩ := Prod.mk.inj (List.mem_singleton.mp hx)
    rw [show p.start + a.hhdm - a.hhdm = p.start from BitVec.add_sub_cancel ..]
    exact hmem
  · rw [booted_gsBase]
    exact List.mem_singleton_self _
  · rw [booted_gsBase, booted_stage_none]
  · obtain ⟨c, rfl⟩ := Option.ne_none_iff_exists'.mp hc
    exact ⟨booted_stage _ c, booted_gsBase_some _ c⟩
  · rw [booted_gsBase]
    rfl

theorem Kept.booted (hn : (a.pages.map Page.start).Nodup) (hl : a.lock = .free)
    (hlen : mp.aps.length < (freeFrames a.pages).length)
    (hk : Allocator.kGetPage { a with cpu := ⟨0, 0⟩ } = .ok b a') (hg : Gave a a' b) :
    Kept tssForCpus (freeFrames a'.pages) (booted mp tssForCpus a' b) where
  inv := (booted_ap hn hl (List.ne_nil_of_length_pos (by omega)) hk).inv
  words c := by
    cases c with
    | none =>
      rw [booted_stage_none]
      exact ⟨Function.update_self .., Function.update_self ..⟩
    | some c =>
      rw [show (BringUp.booted mp tssForCpus a' b).ap.stage (some c) = _ from booted_stage b c]
      trivial
  bsp := ⟨b, booted_stage_none b⟩
  stock := Stock.booted hg hlen

theorem Kept.identity (h : Kept tssForCpus F s) (hup : AllUp s) {c : Id mp} (hc : Started mp c) :
    s.cpuId c = (number mp c).setWidth 64 ∧
      s.tss c = tssPointer tssForCpus ((number mp c).setWidth 64) := by
  obtain ⟨k, b, hst⟩ : ∃ k b, s.ap.stage c = .running k b := by
    cases c with
    | none => exact ⟨0, h.bsp⟩
    | some c => exact hup c hc
  obtain ⟨hgs, -, -⟩ := Ap.stageOk_of_eq h.inv hst
  have hwords := h.words c
  rw [hst] at hwords
  unfold State.cpuId State.tss
  rw [hgs]
  exact hwords

theorem setWidth_inj {x y : BitVec 32} (h : x.setWidth 64 = y.setWidth 64) : x = y := by
  have h := congrArg BitVec.toNat h
  have hx := x.isLt
  have hy := y.isLt
  rw [BitVec.toNat_setWidth, BitVec.toNat_setWidth] at h
  exact BitVec.eq_of_toNat_eq (by omega)

theorem tss_offset (x : BitVec 32) : (x.setWidth 64 * tssCpuSize).toNat = x.toNat * 16496 := by
  have hx := x.isLt
  have hsize : tssCpuSize.toNat = 16496 := rfl
  rw [BitVec.toNat_mul, BitVec.toNat_setWidth, hsize,
    Nat.mod_eq_of_lt (by omega : x.toNat < 2 ^ 64), Nat.mod_eq_of_lt (by omega)]

/-- The entries of `tssforcpus` are apart. -/
theorem tssPointer_inj {x y : BitVec 32}
    (h : tssPointer tssForCpus (x.setWidth 64) = tssPointer tssForCpus (y.setWidth 64)) :
    x = y := by
  have hoff := congrArg BitVec.toNat ((BitVec.add_right_inj tssForCpus).mp h)
  rw [tss_offset, tss_offset] at hoff
  exact BitVec.eq_of_toNat_eq (Nat.eq_of_mul_eq_mul_right (by decide) hoff)

/-- The identities are distinct exactly when the numbers are. -/
theorem Kept.distinct_iff (h : Kept tssForCpus F s) (hup : AllUp s)
    (hids : Function.Injective mp.lapicId) :
    Distinct s ↔ ∀ c, mp.IsAp c → mp.lapicId c ≠ 0 := by
  have hwords : Distinct s ↔
      ∀ c d, Started mp c → Started mp d → c ≠ d → number mp c ≠ number mp d := by
    refine forall₅_congr fun c d hc hd _ => ?_
    obtain ⟨hid, htss⟩ := h.identity hup hc
    obtain ⟨hid', htss'⟩ := h.identity hup hd
    rw [hid, hid', htss, htss']
    refine ⟨fun hne e => hne.1 (congrArg _ e), fun hne => ⟨fun e => ?_, fun e => ?_⟩⟩
    · exact hne (setWidth_inj e)
    · exact hne (tssPointer_inj e)
  rw [hwords]
  constructor
  · intro hne c hc hzero
    exact hne none (some c) trivial hc (Option.some_ne_none c).symm hzero.symm
  · intro hzero c d hc hd hne e
    cases c with
    | none =>
      cases d with
      | none => exact hne rfl
      | some d => exact hzero d hd e.symm
    | some c =>
      cases d with
      | none => exact hzero c hc e
      | some d => exact hne (congrArg some (hids e))

theorem Kept.run (h : Kept tssForCpus F s₀) (hrun : Run (next tssForCpus) OwnPass s₀ s) :
    Kept tssForCpus F s := by
  refine hrun.invariant h ?_
  intro t m t' ht hok hn
  cases m with
  | kentry => exact ht.kentry hn
  | ap c => exact ht.ap hok hn

end Kept

/-! ## One AP -/

/-- An AP finds the lock free when it calls `KGetPage`. -/
structure Clear (s : State mp) : Prop where
  before : ∀ c, mp.IsAp c → (s.stage c = .start ∨ ∃ k, s.stage c = .claimed k) →
    s.ap.smp.lock = .free
  check : ∀ c, mp.IsAp c → ∀ f n, s.ap.smp.pc (some c) = .check f n →
    s.ap.smp.lock = .free ∧ n = 0

section Clear

variable {tssForCpus : U64} {F : List U64} {s₀ s s' : State mp} {c : Fin mp.cpuCount}

theorem not_check {ι : Type} [DecidableEq ι] {s s' : Smp.State ι} {c : ι} (ht : Smp.Trans s c s')
    (f : Smp.Get) (n : CInt) : s'.pc c ≠ .check f n := by
  cases ht with
  | poll hpc => exact fun e => by cases hpc.symm.trans e
  | pass | miss | take | tag | busy | found | fail | exhausted | mark | untag | unhold | load | skip
  | hit | lost | inUse | clear =>
    exact fun e => by cases (Smp.goto_pc_self _ _ _).symm.trans e

theorem Clear.ownPass (h : Clear s) (hc : mp.IsAp c) : s.ap.smp.intrudes (some c) = false := by
  unfold Smp.State.intrudes
  split
  · rename_i f n hpc
    obtain ⟨hfree, rfl⟩ := h.check c hc _ _ hpc
    rw [hfree]
    rfl
  · rfl

/-- With one AP nobody else takes the lock. -/
theorem Clear.moved (h : Clear s) (hinv : Ap.Inv s.ap) (hone : ∀ d, mp.IsAp d → d = c)
    (hm : Moved tssForCpus s c s') : Clear s' := by
  cases hm with
  | @access k u he hst ht =>
    refine ⟨fun d hd hbefore => ?_, fun d hd f n hpc => ?_⟩
    · obtain rfl := hone d hd
      rcases hbefore with hstart | ⟨j, hclaimed⟩
      · cases hst.symm.trans hstart
      · cases hst.symm.trans hclaimed
    · obtain rfl := hone d hd
      exact absurd hpc (not_check ht f n)
  | went he hw =>
    -- behind the call the AP is not at its start any more
    have hpast : ∀ {t : Ap.State (Id mp)} {st : Ap.Stage} {d : Fin mp.cpuCount}, mp.IsAp d →
        st ≠ .start → (∀ k, st ≠ .claimed k) →
        ¬ ((t.goto (some c) st).stage (some d) = .start ∨
          ∃ k, (t.goto (some c) st).stage (some d) = .claimed k) := by
      intro t st d hd hstart hclaimed
      rw [hone d hd, Ap.goto_stage_self]
      exact fun e => e.elim hstart fun ⟨k, hk⟩ => hclaimed k hk
    cases hw with
    | claim hst => exact ⟨fun d hd _ => h.before d hd (Or.inl (hone d hd ▸ hst)), h.check⟩
    | @call k hst =>
      refine ⟨fun d hd e => absurd e (hpast (t := s.ap) hd nofun nofun), fun d hd f n hpc => ?_⟩
      obtain rfl := hone d hd
      have hn : (s.ap.smp.enter (some d) .kGetPage).pc (some d) = .check f n := hpc
      obtain ⟨-, rfl⟩ := Smp.Pc.check.inj ((Smp.goto_pc_self _ _ _).symm.trans hn)
      exact ⟨h.before d hd (Or.inr ⟨k, hst⟩), current_of_gsBase (Ap.stageOk_of_eq hinv hst).1⟩
    | back | fill | base | name | point | store =>
      exact ⟨fun d hd e => absurd e (hpast hd nofun nofun), h.check⟩

theorem Clear.kentry (h : Clear s) (hn : s.kentry = some s') : Clear s' := by
  obtain ⟨hap, -⟩ := kentry_ap hn
  refine ⟨fun c => ?_, fun c => ?_⟩
  · unfold State.stage
    rw [hap]
    exact h.before c
  · rw [hap]
    exact h.check c

/-- With one AP every run is one in which only the CPU that took the lock is let through. -/
theorem ownPass_of_one (hone : ∀ c d, mp.IsAp c → mp.IsAp d → c = d)
    (hkept : Kept tssForCpus F s₀) (hclear : Clear s₀) (h : Run (next tssForCpus) Free s₀ s) :
    Run (next tssForCpus) OwnPass s₀ s := by
  suffices hall : Run (next tssForCpus) OwnPass s₀ s ∧ Clear s from hall.1
  refine h.invariant (P := fun s => Run (next tssForCpus) OwnPass s₀ s ∧ Clear s)
    ⟨.refl, hclear⟩ ?_
  rintro t m t' ⟨hr, hc⟩ - hn
  have ht := hkept.run hr
  cases m with
  | kentry => exact ⟨hr.step (a := .kentry) trivial hn, hc.kentry hn⟩
  | ap c =>
    have hm := moved_of_apEntry hn
    have hap := ht.stock.basic.entered c hm.entered
    exact ⟨hr.step (a := .ap c) (hc.ownPass hap) hn,
      hc.moved ht.inv (fun d hd => hone d c hd hap) hm⟩

end Clear

/-! ## Two APs -/

section Race

variable {tssForCpus : U64} {s₀ s : State mp} {c d : Fin mp.cpuCount} {k j : ℕ} {p : Page}

theorem aquireLock_unlocked {l : Lock} (h : Unlocked l) :
    aquireLock ⟨0, 0⟩ l = .ok () ⟨true, 0⟩ := by
  rcases h with rfl | rfl <;> rfl

theorem run_toMark (h : Run (next tssForCpus) Free s₀ s) (he : s.entered c = true)
    (hst : s.stage c = .start) (hbase : s.ap.smp.gsBase (some c) = 0)
    (hul : Unlocked s.ap.smp.lock) (hp : FirstUnused s.ap.smp.pages j p) :
    ∃ s', Run (next tssForCpus) Free s₀ s' ∧ Way s c s' ∧
      s'.stage c = .calling (s.ap.core.toNat + 1) ∧ s'.ap.smp.pc (some c) = .mark .kGetPage j ∧
      s'.ap.smp.lock = ⟨true, 0⟩ ∧ s'.ap.smp.pages = s.ap.smp.pages := by
  obtain ⟨s₁, r₁, w₁, hst₁, -, -, hsmp₁⟩ := run_call h he hst
  have hcheck : s₁.ap.smp.pc (some c) = .check .kGetPage (Cpu.current ⟨0, 0⟩) := by
    rw [hsmp₁]
    refine (Smp.goto_pc_self _ _ _).trans (congrArg _ ?_)
    exact current_of_gsBase hbase
  have hl : aquireLock ⟨0, 0⟩ s₁.ap.smp.lock = .ok () ⟨true, 0⟩ := by
    rw [hsmp₁]
    exact aquireLock_unlocked hul
  have hp₁ : FirstUnused s₁.ap.smp.pages j p := by
    rw [hsmp₁]
    exact hp
  obtain ⟨u, hu, hmark, hlock, hpages⟩ := Smp.alone_toMark hcheck hl hp₁
  obtain ⟨r₂, w₂⟩ := run_accesses r₁ (w₁.entered ▸ he) hst₁ hu
  refine ⟨_, r₂, w₁.trans w₂, hst₁, hmark, hlock, hpages.trans ?_⟩
  rw [hsmp₁]
  rfl

theorem run_fromMark (h : Run (next tssForCpus) Free s₀ s) (he : s.entered c = true)
    (hst : s.stage c = .calling k) (hpc : s.ap.smp.pc (some c) = .mark .kGetPage j) :
    ∃ s' b, Run (next tssForCpus) Free s₀ s' ∧ Way s c s' ∧ s'.stage c = .running k b ∧
      s'.ap.smp.gsBase (some c) = b ∧ b = startAt s.ap.smp.pages j + s.ap.smp.hhdm ∧
      s'.ap.smp.pc (some c) = .idle ∧ s'.ap.smp.lock = .free ∧
      s'.ap.smp.pages = setUsed s.ap.smp.pages j true := by
  obtain ⟨u, hu, hidle, hfree, hset, hret⟩ := Smp.alone_mark hpc
  obtain ⟨r₁, w₁⟩ := run_accesses h he hst hu
  obtain ⟨s₂, r₂, i⟩ := run_install r₁ he hst hidle
  refine ⟨s₂, u.ret (some c), r₂, w₁.trans i.way, i.up, i.gsBase, hret, ?_, i.lock.trans hfree,
    i.pages.trans hset⟩
  rw [i.pc]
  exact hidle

/-- Two APs that start can get the same block: the second one is let through while the first one is
about to mark its page. -/
theorem run_sameBlock (h : Run (next tssForCpus) Free s₀ s) (hq : Quiet s) (hcd : c ≠ d)
    (he : s.entered c = true ∧ s.entered d = true) (hst : s.stage c = .start ∧ s.stage d = .start)
    (hp : FirstUnused s.ap.smp.pages j p) :
    ∃ s' k k' b, Run (next tssForCpus) Free s₀ s' ∧ Quiet s' ∧ s'.entered = s.entered ∧
      (∀ e, e ≠ c → e ≠ d → s'.stage e = s.stage e) ∧
      s'.stage c = .running k b ∧ s'.stage d = .running k' b ∧
      s'.ap.smp.gsBase (some c) = b ∧ s'.ap.smp.gsBase (some d) = b := by
  have hdc : (some d : Id mp) ≠ some c := fun e => hcd (Option.some.inj e).symm
  obtain ⟨s₁, r₁, w₁, hst₁, hpc₁, hlock₁, hpages₁⟩ :=
    run_toMark h he.1 hst.1 (hq.noBase c hst.1) hq.unlocked hp
  -- the lock is held under the number 0, which is also that of `d`
  obtain ⟨s₂, r₂, w₂, hst₂, hpc₂, -, hpages₂⟩ :=
    run_toMark r₁ (w₁.entered ▸ he.2) ((w₁.stage _ hdc).trans hst.2)
      ((w₁.gsBase _ hdc).trans (hq.noBase d hst.2)) (Or.inr hlock₁) (hpages₁.symm ▸ hp)
  have w₁₂ := w₂.entered.trans w₁.entered
  obtain ⟨s₃, b, r₃, w₃, hst₃, hgs₃, hb, hidle₃, -, hpages₃⟩ :=
    run_fromMark r₂ (w₁₂ ▸ he.1) ((w₂.stage _ hdc.symm).trans hst₁)
      ((w₂.pc _ hdc.symm).trans hpc₁)
  obtain ⟨s₄, b', r₄, w₄, hst₄, hgs₄, hb', hidle₄, hfree, -⟩ :=
    run_fromMark r₃ (w₃.entered.trans w₁₂ ▸ he.2) ((w₃.stage _ hdc).trans hst₂)
      ((w₃.pc _ hdc).trans hpc₂)
  obtain rfl : b' = b := by rw [hb', hb, hpages₃, Smp.startAt_setUsed, w₃.hhdm]
  have hstage : ∀ e, e ≠ some c → e ≠ some d → s₄.ap.stage e = s.ap.stage e := fun e hc hd =>
    (w₄.stage e hd).trans <| (w₃.stage e hc).trans <| (w₂.stage e hd).trans (w₁.stage e hc)
  have hstc : s₄.stage c = .running _ b' := (w₄.stage _ hdc.symm).trans hst₃
  refine ⟨s₄, _, _, b', r₄, ⟨Or.inl hfree, fun e => ?_, fun e hstart => ?_⟩,
    w₄.entered.trans (w₃.entered.trans w₁₂), fun e hc hd => ?_, hstc, hst₄,
    (w₄.gsBase _ hdc.symm).trans hgs₃, hgs₄⟩
  · rcases eq_or_ne e (some d) with rfl | hd
    · exact hidle₄
    · rw [w₄.pc e hd]
      rcases eq_or_ne e (some c) with rfl | hc
      · exact hidle₃
      · rw [w₃.pc e hc, w₂.pc e hd, w₁.pc e hc]
        exact hq.idle e
  · have hc : (some e : Id mp) ≠ some c := by
      rintro ⟨⟩
      cases hstc.symm.trans hstart
    have hd : (some e : Id mp) ≠ some d := by
      rintro ⟨⟩
      cases hst₄.symm.trans hstart
    rw [w₄.gsBase _ hd, w₃.gsBase _ hc, w₂.gsBase _ hd, w₁.gsBase _ hc]
    exact hq.noBase e ((hstage _ hc hd).symm.trans hstart)
  · exact hstage (some e) (fun h => hc (Option.some.inj h)) fun h => hd (Option.some.inj h)

end Race

/-! ## The identities -/

section Identities

variable {tssForCpus : U64} {a : Allocator} {s₀ s : State mp} {j : ℕ} {p : Page}

theorem run_allUp (hq : Quiet s₀) (h0 : s₀.i = 0) (hst : ∀ c, s₀.stage c = .start) :
    ∃ s, Run (next tssForCpus) Free s₀ s ∧ AllUp s := by
  obtain ⟨e, hr, he⟩ := run_kentry tssForCpus s₀ h0
  obtain ⟨s, hs, b⟩ := run_apEntries mp.nodup_aps hr ⟨hq.unlocked, hq.idle, hq.noBase⟩ fun c hc =>
    ⟨he c (MpResponse.mem_aps.mp hc), hst c⟩
  exact ⟨s, hs, fun c hc => b.up c (MpResponse.mem_aps.mpr hc)⟩

/-- With two APs they can come up with the same identity. -/
theorem run_sameIdentity (hq : Quiet s₀) (h0 : s₀.i = 0) (hst : ∀ c, s₀.stage c = .start)
    {c d : Fin mp.cpuCount} (hc : mp.IsAp c) (hd : mp.IsAp d) (hcd : c ≠ d)
    (hp : FirstUnused s₀.ap.smp.pages j p) :
    ∃ s, Run (next tssForCpus) Free s₀ s ∧ AllUp s ∧ ¬ Distinct s := by
  obtain ⟨e, hr, he⟩ := run_kentry tssForCpus s₀ h0
  obtain ⟨s₁, k, k', b, r₁, hq₁, he₁, hst₁, hc₁, hd₁, hgc, hgd⟩ :=
    run_sameBlock hr ⟨hq.unlocked, hq.idle, hq.noBase⟩ hcd ⟨he c hc, he d hd⟩ ⟨hst c, hst d⟩ hp
  have hrest : ∀ x, x ∈ mp.aps.filter (fun x => x ≠ c ∧ x ≠ d) ↔ mp.IsAp x ∧ x ≠ c ∧ x ≠ d := by
    simp [MpResponse.mem_aps]
  obtain ⟨s, hs, hb⟩ := run_apEntries (mp.nodup_aps.filter _) r₁ hq₁ fun x hx => by
    obtain ⟨hap, hxc, hxd⟩ := (hrest x).mp hx
    exact ⟨he₁ ▸ he x hap, (hst₁ x hxc hxd).trans (hst x)⟩
  obtain ⟨hstc, hgsc⟩ := hb.others c fun h => ((hrest c).mp h).2.1 rfl
  obtain ⟨hstd, hgsd⟩ := hb.others d fun h => ((hrest d).mp h).2.2 rfl
  refine ⟨s, hs, fun x hx => ?_, fun hdist => ?_⟩
  · by_cases hxc : x = c
    · exact ⟨k, b, by rw [hxc, hstc, hc₁]⟩
    · by_cases hxd : x = d
      · exact ⟨k', b, by rw [hxd, hstd, hd₁]⟩
      · exact hb.up x ((hrest x).mpr ⟨hx, hxc, hxd⟩)
  · refine (hdist (some c) (some d) hc hd fun h => hcd (Option.some.inj h)).1 ?_
    unfold State.cpuId
    rw [hgsc, hgsd, hgc, hgd]

theorem eq_of_length_aps (hlen : mp.aps.length ≤ 1) {c d : Fin mp.cpuCount} (hc : mp.IsAp c)
    (hd : mp.IsAp d) : c = d := by
  obtain ⟨i, hi, rfl⟩ := List.getElem_of_mem (MpResponse.mem_aps.mpr hc)
  obtain ⟨j, hj, rfl⟩ := List.getElem_of_mem (MpResponse.mem_aps.mpr hd)
  have hij : i = j := by omega
  subst hij
  rfl

theorem exists_ne_of_length_aps (hlen : 1 < mp.aps.length) :
    ∃ c d, mp.IsAp c ∧ mp.IsAp d ∧ c ≠ d := by
  refine ⟨mp.aps[0], mp.aps[1], MpResponse.mem_aps.mp (List.getElem_mem _),
    MpResponse.mem_aps.mp (List.getElem_mem _), fun h => ?_⟩
  have h01 := (mp.nodup_aps.getElem_inj_iff).mp h
  cases h01

/-- **The identities.** With distinct LAPIC ids and a page for every CPU, after all APs have gone
through `ap_entry`:

* in every run in which the lock lets only the CPU through that took it, the CPUs have distinct
  `cpu_id` and distinct `tss` if and only if no AP has the LAPIC id `0`, the boot CPU's number;
* they have them in every run at all if and only if, moreover, there is at most one AP. -/
theorem identities_distinct_iff (hids : Function.Injective mp.lapicId) (hl : a.lock = .free)
    (hn : (a.pages.map Page.start).Nodup) (hpages : mp.aps.length < (freeFrames a.pages).length)
    (h₀ : setupBspCpuData tssForCpus (blank mp a) = .ok () s₀) :
    (∀ s, Run (next tssForCpus) OwnPass s₀ s → AllUp s →
      (Distinct s ↔ ∀ c, mp.IsAp c → mp.lapicId c ≠ 0)) ∧
    ((∀ s, Run (next tssForCpus) Free s₀ s → AllUp s → Distinct s) ↔
      (∀ c, mp.IsAp c → mp.lapicId c ≠ 0) ∧ mp.aps.length ≤ 1) := by
  obtain ⟨a', b, hk, hg, rfl⟩ := setupBspCpuData_blank hl h₀
  have hne : freeFrames a.pages ≠ [] := List.ne_nil_of_length_pos (by omega)
  have hboot : Ap.Booted (booted mp tssForCpus a' b).ap none := booted_ap hn hl hne hk
  have hkept : Kept tssForCpus _ (booted mp tssForCpus a' b) := Kept.booted hn hl hpages hk hg
  have hq : Quiet (booted mp tssForCpus a' b) := Quiet.booted hg.unlocked
  have hone : mp.aps.length ≤ 1 → ∀ s, Run (next tssForCpus) Free (booted mp tssForCpus a' b) s →
      AllUp s → (Distinct s ↔ ∀ c, mp.IsAp c → mp.lapicId c ≠ 0) := by
    intro hlen s hr hup
    have hclear : Clear (booted mp tssForCpus a' b) :=
      ⟨fun _ _ _ => hboot.lock, fun c _ f n hpc => by cases hpc⟩
    have hr := ownPass_of_one (fun c d => eq_of_length_aps hlen) hkept hclear hr
    exact (hkept.run hr).distinct_iff hup hids
  refine ⟨fun s hr hup => (hkept.run hr).distinct_iff hup hids, ?_, ?_⟩
  · intro hall
    have hlen : mp.aps.length ≤ 1 := by
      by_contra hlen
      obtain ⟨c, d, hc, hd, hcd⟩ := exists_ne_of_length_aps (Nat.lt_of_not_le hlen)
      obtain ⟨f, hf, -⟩ := hg.of_ne_nil hne
      rw [hf, List.length_cons] at hpages
      obtain ⟨f', rest, hf'⟩ := List.exists_cons_of_ne_nil
        (List.ne_nil_of_length_pos (by omega : 0 < (freeFrames a'.pages).length))
      obtain ⟨p, hp, -, -⟩ := firstUnused_of_free hf'
      obtain ⟨s, hr, hup, hsame⟩ := run_sameIdentity hq rfl (booted_stage b) hc hd hcd hp
      exact hsame (hall s hr hup)
    obtain ⟨s, hr, hup⟩ := run_allUp hq rfl (booted_stage b)
    exact ⟨(hone hlen s hr hup).mp (hall s hr hup), hlen⟩
  · rintro ⟨hzero, hlen⟩ s hr hup
    exact (hone hlen s hr hup).mpr hzero

/-- The boot CPU and two APs. -/
def threeCpus : MpResponse := ⟨0, 3, ![0, 1, 2]⟩

/-- The APs go through `ap_entry` one after the other: the second one passes over one page more. -/
def oneByOne : List (Act threeCpus) :=
  [.kentry, .kentry, .kentry] ++ List.replicate 17 (.ap ⟨1, by decide⟩) ++
    List.replicate 18 (.ap ⟨2, by decide⟩)

/-- The state of the three CPUs after `setupbspcpudata`. -/
def threeBooted : State threeCpus :=
  booted threeCpus 0xFFFFFFFF80010000
    ⟨[⟨0x100000, true⟩, ⟨0x101000, false⟩, ⟨0x102000, false⟩], .free, 0xFFFF800000000000, ⟨0, 0⟩⟩
    0xFFFF800000100000

theorem identities_distinct_iff_threeCpus :
    setupBspCpuData 0xFFFFFFFF80010000 (blank threeCpus threePages) = .ok () threeBooted ∧
    (∃ s, exec (next 0xFFFFFFFF80010000) OwnPass threeBooted oneByOne = some s ∧ AllUp s ∧
      Distinct s) ∧
    ∃ s, Run (next 0xFFFFFFFF80010000) Free threeBooted s ∧ AllUp s ∧ ¬ Distinct s := by
  have h₀ : setupBspCpuData 0xFFFFFFFF80010000 (blank threeCpus threePages) = .ok () threeBooted :=
    setupBspCpuData_of_kGetPage rfl rfl
  have hids : Function.Injective threeCpus.lapicId := by decide
  have hiff := identities_distinct_iff hids rfl (by decide) (by decide) h₀
  refine ⟨h₀, ?_, ?_⟩
  · have hany : ((exec (next 0xFFFFFFFF80010000) OwnPass threeBooted oneByOne).any fun s =>
        s.stage ⟨1, by decide⟩ = .running 1 0xFFFF800000101000 ∧
          s.stage ⟨2, by decide⟩ = .running 2 0xFFFF800000102000) = true := by decide +kernel
    obtain ⟨s, hs, hend⟩ := (Option.any_eq_true _ _).mp hany
    obtain ⟨hst₁, hst₂⟩ := of_decide_eq_true hend
    have hup : AllUp s
      | ⟨0, _⟩, hc => absurd rfl hc
      | ⟨1, _⟩, _ => ⟨_, _, hst₁⟩
      | ⟨2, _⟩, _ => ⟨_, _, hst₂⟩
    exact ⟨s, hs, hup, (hiff.1 s (Run.of_exec .refl hs) hup).mpr (by decide)⟩
  · by_contra hnone
    push Not at hnone
    exact absurd (hiff.2.mp hnone).2 (by decide)

/-- The boot CPU has the LAPIC id 1 and the AP has 0: both have the `cpu_id` 0. -/
theorem same_identity :
    ¬ ∀ (mp : MpResponse) (tssForCpus : U64) (a : Allocator) (s₀ s : State mp),
      Function.Injective mp.lapicId → a.lock = .free → (a.pages.map Page.start).Nodup →
      mp.aps.length < (freeFrames a.pages).length →
      setupBspCpuData tssForCpus (blank mp a) = .ok () s₀ → Run (next tssForCpus) Free s₀ s →
      AllUp s → Distinct s := by
  intro hall
  have hrun : ∃ s₀, setupBspCpuData 0 (blank (twoCpus 1 0) threePages) = .ok () s₀ ∧
      ((exec (next 0) Free s₀ ([.kentry, .kentry] ++ List.replicate 17 (.ap ⟨1, by decide⟩))).any
        fun s => s.stage ⟨1, by decide⟩ = .running 1 0xFFFF800000101000 ∧
          s.cpuId none = s.cpuId (some ⟨1, by decide⟩)) = true := ⟨_, rfl, by decide +kernel⟩
  obtain ⟨s₀, h₀, hany⟩ := hrun
  obtain ⟨s, hs, hend⟩ := (Option.any_eq_true _ _).mp hany
  obtain ⟨hst, hsame⟩ := of_decide_eq_true hend
  have hup : AllUp s
    | ⟨0, _⟩, hc => absurd rfl hc
    | ⟨1, _⟩, _ => ⟨_, _, hst⟩
  have hids : Function.Injective (twoCpus 1 0).lapicId := by decide
  have hdist := hall _ 0 _ s₀ s hids rfl (by decide) (by decide) h₀ (Run.of_exec .refl hs) hup
  have hap : (twoCpus 1 0).IsAp ⟨1, by decide⟩ := by decide
  exact (hdist none (some ⟨1, by decide⟩) trivial hap (Option.some_ne_none _).symm).1 hsame

end Identities

end BringUp

end DejOs
