import DejOs.ApEntry
import DejOs.MapPage

/-!
# Numbers of the CPUs

`setupbspcpudata` of `percpu.c`, the loop of `kentry` that starts the application processors, and
the numbers and table entries `ap_entry` takes for each of them: `my_core` from an atomic counter of
8 bits, `cpu_id` and the entry of `tssforcpus` from the LAPIC id. The boot CPU has the constant `0`
for both.

The APs go through `ap_entry` as in `ApEntry`, with the single accesses of their `KGetPage`, in any
interleaving. Other calls of the allocator are left out. `NULL` is not looked at: an AP without a
page goes on with the block at address `0`.

The tables are large enough for 63 APs with LAPIC ids below 32 (`accesses_inRange_iff`).
-/

namespace DejOs

open Interleaving

/-- `struct limine_mp_response`, with the `lapic_id` of each of its `cpu_count` CPUs. -/
structure MpResponse where
  bspLapicId : BitVec 32
  cpuCount : ℕ
  lapicId : Fin cpuCount → BitVec 32

/-- `cpu->apic_id != mp->bsp_id`: the CPUs `kentry` starts. -/
def MpResponse.IsAp (mp : MpResponse) (c : Fin mp.cpuCount) : Prop := mp.lapicId c ≠ mp.bspLapicId

instance (mp : MpResponse) : DecidablePred mp.IsAp := fun _ => inferInstanceAs (Decidable (_ ≠ _))

/-- The CPUs `kentry` starts, in its order. -/
def MpResponse.aps (mp : MpResponse) : List (Fin mp.cpuCount) :=
  (List.finRange mp.cpuCount).filter fun c => mp.IsAp c

theorem MpResponse.mem_aps {mp : MpResponse} {c : Fin mp.cpuCount} : c ∈ mp.aps ↔ mp.IsAp c := by
  simp [aps]

theorem MpResponse.nodup_aps (mp : MpResponse) : mp.aps.Nodup := (List.nodup_finRange _).filter _

theorem MpResponse.length_le_aps {mp : MpResponse} {l : List (Fin mp.cpuCount)} (hn : l.Nodup)
    (hl : ∀ c ∈ l, mp.IsAp c) : l.length ≤ mp.aps.length :=
  (hn.subperm fun c hc => MpResponse.mem_aps.mpr (hl c hc)).length_le

namespace BringUp

/-- An entry of one of the two tables. -/
inductive Access
  | cpuPercpu (i : ℕ)
  | tssForCpus (i : ℕ)
  deriving DecidableEq, Repr

/-- The sizes of the tables, `MAX_CPUS` and 32. -/
def Access.InRange : Access → Prop
  | .cpuPercpu i => i < 64
  | .tssForCpus i => i < 32

instance : DecidablePred Access.InRange
  | .cpuPercpu i => inferInstanceAs (Decidable (i < 64))
  | .tssForCpus i => inferInstanceAs (Decidable (i < 32))

/-- A CPU: the boot CPU, or one of the response. -/
abbrev Id (mp : MpResponse) := Option (Fin mp.cpuCount)

/-- The number a CPU is known by: `0` or the LAPIC id. -/
def number (mp : MpResponse) : Id mp → BitVec 32
  | none => 0
  | some c => mp.lapicId c

structure State (mp : MpResponse) where
  ap : Ap.State (Id mp)
  /-- The loop counter of `kentry`. -/
  i : ℕ
  /-- `goto_address` is set. -/
  entered : Fin mp.cpuCount → Bool
  /-- The table entries touched so far. -/
  accesses : List Access

variable {mp : MpResponse}

namespace State

def stage (s : State mp) (c : Fin mp.cpuCount) : Ap.Stage := s.ap.stage (some c)

def cpuPercpu (s : State mp) : ℕ → U64 := s.ap.cpuPercpu

/-- The `cpu_id` of a CPU. -/
def cpuId (s : State mp) (c : Id mp) : U64 := s.ap.smp.cpuId (s.ap.smp.gsBase c)

/-- The `tss` of a CPU. -/
def tss (s : State mp) (c : Id mp) : U64 := s.ap.tss (s.ap.smp.gsBase c)

/-- The globals of the allocator, and what `aquire_lock` reads on a CPU. -/
def allocator (s : State mp) (c : Id mp) : Allocator := s.ap.smp.allocator c

def setAllocator (a : Allocator) (s : State mp) : State mp :=
  { s with ap := { s.ap with smp := { s.ap.smp with pages := a.pages, lock := a.lock } } }

def onAp (s : State mp) (f : Ap.State (Id mp) → Ap.State (Id mp)) : State mp :=
  { s with ap := f s.ap }

def touch (s : State mp) (x : Access) : State mp := { s with accesses := x :: s.accesses }

/-- The boot CPU has its page, and `ap_entry` is not for it. -/
def start (s : State mp) (b : U64) : State mp :=
  { s with
    ap := { s.ap.goto none (.running 0 b) with
      smp := { s.ap.smp with owned := [(none, b - s.ap.smp.hhdm)] } } }

end State

/-- `KGetPage` on a CPU that is alone. -/
def kGetPage (c : Id mp) : Kernel (State mp) U64 :=
  Kernel.zoom (fun s => s.allocator c) State.setAllocator Allocator.kGetPage

/-- `setupbspcpudata`, without the `sil` word. -/
def setupBspCpuData (tssForCpus : U64) : Kernel (State mp) Unit := do
  let nBlock ← kGetPage none
  modify fun s => s.onAp fun t => t.fillBlock nBlock
  modify fun s => s.onAp fun t => t.setGsBase none nBlock
  modify fun s => s.onAp fun t => t.writeCpuId none 0
  modify fun s => (s.onAp fun t => t.writeTss none (tssPointer tssForCpus 0)).touch (.tssForCpus 0)
  modify fun s => (s.onAp fun t => t.storePercpu 0 nBlock).touch (.cpuPercpu 0)
  modify fun s => s.start nBlock

/-- One round of the loop of `kentry`. -/
def State.kentry (s : State mp) : Option (State mp) :=
  if h : s.i < mp.cpuCount then
    some { s with
      i := s.i + 1
      entered := if mp.IsAp ⟨s.i, h⟩ then Function.update s.entered ⟨s.i, h⟩ true else s.entered }
  else none

/-- The next step of a CPU in `ap_entry`, or the next access of its `KGetPage`. -/
def apStep (tssForCpus : U64) (s : Ap.State (Id mp)) (c : Id mp) : Option (Ap.State (Id mp)) :=
  match s.stage c with
  | .calling _ =>
    if s.smp.pc c = .idle then s.entry tssForCpus (number mp) c else s.mem c .run
  | _ => s.entry tssForCpus (number mp) c

/-- The table entries a step of `ap_entry` touches. -/
def touched (c : Fin mp.cpuCount) : Ap.Stage → List Access
  | .named _ _ => [.tssForCpus (mp.lapicId c).toNat]
  | .pointed k _ => [.cpuPercpu k]
  | _ => []

/-- The next step of CPU `c`, once `goto_address` is set. -/
def State.apEntry (tssForCpus : U64) (s : State mp) (c : Fin mp.cpuCount) : Option (State mp) :=
  if s.entered c then
    (apStep tssForCpus s.ap (some c)).map fun t =>
      { s with ap := t, accesses := touched c (s.stage c) ++ s.accesses }
  else none

/-- A step: of the boot CPU in `kentry`, or of an AP in `ap_entry`. -/
inductive Act (mp : MpResponse)
  | kentry
  | ap (c : Fin mp.cpuCount)

def next (tssForCpus : U64) (s : State mp) : Act mp → Option (State mp)
  | .kentry => s.kentry
  | .ap c => s.apEntry tssForCpus c

/-- Before the boot CPU has its block. -/
def blank (mp : MpResponse) (a : Allocator) : State mp where
  ap :=
    { smp :=
        { pages := a.pages
          lock := a.lock
          hhdm := a.hhdm
          gsBase := fun _ => 0
          cpuId := fun _ => 0
          pc := fun _ => .idle
          ret := fun _ => 0
          owned := []
          holder := none }
      tss := fun _ => 0
      core := 0
      cpuPercpu := fun _ => 0
      stage := fun _ => .start }
  i := 0
  entered _ := false
  accesses := []

/-- Two CPUs, the first of them the boot CPU. -/
def twoCpus (bsp ap : BitVec 32) : MpResponse := ⟨bsp, 2, ![bsp, ap]⟩

/-- An allocator with the pages from 1 MiB to 1 MiB + 12 KiB. -/
def threePages : Allocator :=
  ⟨[⟨0x100000, false⟩, ⟨0x101000, false⟩, ⟨0x102000, false⟩], .free, 0xFFFF800000000000, ⟨0, 0⟩⟩

/-! ## The boot CPU -/

/-- The lock is free, or left held by a CPU without a block. -/
def Unlocked (l : Lock) : Prop := l = .free ∨ l = ⟨true, 0⟩

/-- What `KGetPage` has done to the allocator when it returned `b`. -/
structure Gave (a a' : Allocator) (b : U64) : Prop where
  unlocked : Unlocked a'.lock
  hhdm : a'.hhdm = a.hhdm
  free : (∃ f, freeFrames a.pages = f :: freeFrames a'.pages ∧ b = f + a.hhdm) ∨
    (freeFrames a.pages = [] ∧ freeFrames a'.pages = [] ∧ b = 0)

theorem Gave.of_ne_nil {a a' : Allocator} {b : U64} (h : Gave a a' b)
    (hne : freeFrames a.pages ≠ []) :
    ∃ f, freeFrames a.pages = f :: freeFrames a'.pages ∧ b = f + a.hhdm :=
  h.free.resolve_right fun e => hne e.1

theorem current_of_gsBase {cpu : Cpu} (h : cpu.gsBase = 0) : cpu.current = 0 := by
  unfold Cpu.current
  rw [h]
  rfl

theorem kGetPage_gave {a : Allocator} (hl : Unlocked a.lock) (hg : a.cpu.gsBase = 0) :
    ∃ b a', Allocator.kGetPage a = .ok b a' ∧ Gave a a' b := by
  have hcur := current_of_gsBase hg
  have hmine : a.lock.Mine a.cpu := by
    unfold Lock.Mine
    rw [hcur]
    exact hl
  cases hf : freeFrames a.pages with
  | nil =>
    obtain ⟨l, hk, hm⟩ := Allocator.kGetPage_exhausted hmine (freeFrames_eq_nil_iff.mp hf)
    refine ⟨_, _, hk, ?_, rfl, Or.inr ⟨hf, hf, rfl⟩⟩
    unfold Lock.Mine at hm
    rw [hcur] at hm
    exact hm
  | cons f rest =>
    obtain ⟨p, hp, rfl, hrest⟩ := firstUnused_of_free hf
    exact ⟨_, _, Allocator.kGetPage_success hmine hp, Or.inl rfl, rfl,
      Or.inl ⟨_, by rw [hf, hrest], rfl⟩⟩

/-- The state after `setupbspcpudata`, when its `KGetPage` returned `b`. -/
def booted (mp : MpResponse) (tssForCpus : U64) (a : Allocator) (b : U64) : State mp where
  ap :=
    { smp :=
        { pages := a.pages
          lock := a.lock
          hhdm := a.hhdm
          gsBase := Function.update (fun _ => 0) none b
          cpuId := Function.update (Function.update (fun _ => 0) b 0) b 0
          pc := fun _ => .idle
          ret := fun _ => 0
          owned := [(none, b - a.hhdm)]
          holder := none }
      tss := Function.update (Function.update (fun _ => 0) b 0) b (tssPointer tssForCpus 0)
      core := 0
      cpuPercpu := Function.update (fun _ => 0) 0 b
      stage := Function.update (fun _ => .start) none (.running 0 b) }
  i := 0
  entered _ := false
  accesses := [.cpuPercpu 0, .tssForCpus 0]

section Boot

variable {tssForCpus : U64} {a : Allocator} {s₀ s : State mp} {b : U64}

theorem booted_gsBase (b : U64) : (booted mp tssForCpus a b).ap.smp.gsBase none = b := by
  simp [booted]

theorem booted_gsBase_some (b : U64) (c : Fin mp.cpuCount) :
    (booted mp tssForCpus a b).ap.smp.gsBase (some c) = 0 := by
  simp [booted]

theorem booted_stage_none (b : U64) :
    (booted mp tssForCpus a b).ap.stage none = .running 0 b := by
  simp [booted]

@[simp] theorem booted_stage (b : U64) (c : Fin mp.cpuCount) :
    (booted mp tssForCpus a b).stage c = .start := by
  simp [booted, State.stage]

theorem setupBspCpuData_of_kGetPage {a' : Allocator}
    (hk : Allocator.kGetPage { a with cpu := ⟨0, 0⟩ } = .ok b a') (hh : a'.hhdm = a.hhdm) :
    setupBspCpuData tssForCpus (blank mp a) = .ok () (booted mp tssForCpus a' b) := by
  have hget : kGetPage none (blank mp a) = .ok b (State.setAllocator a' (blank mp a)) :=
    Kernel.zoom_of_ok hk
  unfold setupBspCpuData
  rw [Kernel.bind_of_ok hget]
  refine congrArg (EStateM.Result.ok ()) ?_
  simp [booted, blank, State.setAllocator, State.onAp, State.touch, State.start, Ap.State.fillBlock,
    Ap.State.setGsBase, Ap.State.writeCpuId, Ap.State.writeTss, Ap.State.storePercpu,
    Ap.State.goto, hh]

theorem setupBspCpuData_blank (hl : a.lock = .free)
    (h : setupBspCpuData tssForCpus (blank mp a) = .ok () s₀) :
    ∃ a' b, Allocator.kGetPage { a with cpu := ⟨0, 0⟩ } = .ok b a' ∧ Gave a a' b ∧
      s₀ = booted mp tssForCpus a' b := by
  obtain ⟨b, a', hk, hg⟩ := kGetPage_gave (a := { a with cpu := ⟨0, 0⟩ }) (Or.inl hl) rfl
  have hrun : setupBspCpuData tssForCpus (blank mp a) = .ok () (booted mp tssForCpus a' b) :=
    setupBspCpuData_of_kGetPage hk hg.hhdm
  rw [h] at hrun
  obtain ⟨-, rfl⟩ := EStateM.Result.ok.inj hrun
  exact ⟨a', b, hk, ⟨hg.unlocked, hg.hhdm, hg.free⟩, rfl⟩

theorem setupBspCpuData_returns (mp : MpResponse) (tssForCpus : U64) (hl : a.lock = .free) :
    ∃ s₀, setupBspCpuData tssForCpus (blank mp a) = .ok () s₀ := by
  obtain ⟨b, a', hk, hg⟩ := kGetPage_gave (a := { a with cpu := ⟨0, 0⟩ }) (Or.inl hl) rfl
  exact ⟨_, setupBspCpuData_of_kGetPage hk hg.hhdm⟩

end Boot

/-! ## One step of an AP -/

/-- What every reachable state has. -/
structure Basic (s : State mp) : Prop where
  entered : ∀ c, s.entered c = true → mp.IsAp c
  started : ∀ c, s.stage c ≠ .start → s.entered c = true

/-- The steps of an AP. -/
inductive Moved (tssForCpus : U64) (s : State mp) (c : Fin mp.cpuCount) : State mp → Prop
  | went {t : Ap.State (Id mp)} (he : s.entered c = true)
      (h : Ap.Went tssForCpus (number mp) s.ap (some c) t) :
      Moved tssForCpus s c { s with ap := t, accesses := touched c (s.stage c) ++ s.accesses }
  | access {k : ℕ} {t : Smp.State (Id mp)} (he : s.entered c = true)
      (hst : s.stage c = .calling k) (h : Smp.Trans s.ap.smp (some c) t) :
      Moved tssForCpus s c { s with ap := { s.ap with smp := t } }

section Step

variable {tssForCpus : U64} {s s' : State mp} {c d : Fin mp.cpuCount}

/-- A step is a move of `ap_entry` or of the allocator. -/
theorem apStep_cases {s t : Ap.State (Id mp)} {c : Id mp} (h : apStep tssForCpus s c = some t) :
    s.entry tssForCpus (number mp) c = some t ∨
      (s.stage c).isCalling = true ∧ s.mem c .run = some t := by
  unfold apStep at h
  split at h
  · rename_i k hst
    split_ifs at h with hpc
    · exact Or.inl h
    · exact Or.inr ⟨by rw [hst]; rfl, h⟩
  · exact Or.inl h

theorem moved_of_apEntry (h : s.apEntry tssForCpus c = some s') : Moved tssForCpus s c s' := by
  unfold State.apEntry at h
  split_ifs at h with he
  obtain ⟨t, ht, rfl⟩ := Option.map_eq_some_iff.mp h
  rcases apStep_cases ht with hentry | ⟨hcalling, hmem⟩
  · exact .went he (Ap.went_of_entry hentry)
  · cases hst : s.ap.stage (some c) with
    | calling k =>
      unfold Ap.State.mem at hmem
      rw [hst] at hmem
      obtain ⟨u, hu, rfl⟩ := Option.map_eq_some_iff.mp hmem
      have htouched : touched c (s.stage c) = [] := by
        unfold State.stage
        rw [hst]
        rfl
      rw [htouched]
      exact .access he hst (Smp.trans_of_step hu)
    | _ =>
      rw [hst] at hcalling
      cases hcalling

/-- After a step of `c` the others are where they were, and `c` is not at the start. -/
theorem Moved.stage (h : Moved tssForCpus s c s') :
    s'.entered = s.entered ∧ s'.i = s.i ∧ (∀ d, d ≠ c → s'.stage d = s.stage d) ∧
      s'.stage c ≠ .start := by
  cases h with
  | went he hw =>
    refine ⟨rfl, rfl, fun d hd => hw.stage_of_ne fun e => hd (Option.some.inj e), ?_⟩
    cases hw <;> exact fun e => by cases (Ap.goto_stage_self _ _ _).symm.trans e
  | access he hst hw =>
    refine ⟨rfl, rfl, fun _ _ => rfl, ?_⟩
    show s.stage c ≠ .start
    rw [hst]
    exact Ap.Stage.noConfusion

theorem Moved.entered (h : Moved tssForCpus s c s') : s.entered c = true := by
  cases h with
  | went he | access he => exact he

theorem Basic.moved (hb : Basic s) (h : Moved tssForCpus s c s') : Basic s' := by
  obtain ⟨he, -, hd, -⟩ := h.stage
  refine ⟨fun d hd => hb.entered d (he ▸ hd), fun d hne => ?_⟩
  rw [he]
  rcases eq_or_ne d c with rfl | hdc
  · exact h.entered
  · rw [hd d hdc] at hne
    exact hb.started d hne

theorem Basic.kentry (hb : Basic s) (h : s.kentry = some s') : Basic s' := by
  unfold State.kentry at h
  split_ifs at h with hi hap
  · cases h
    refine ⟨fun d hd => ?_, fun d hd => ?_⟩
    · rcases eq_or_ne d ⟨s.i, hi⟩ with rfl | hne
      · exact hap
      · exact hb.entered d ((Function.update_of_ne hne ..).symm.trans hd)
    · rcases eq_or_ne d ⟨s.i, hi⟩ with rfl | hne
      · exact Function.update_self ..
      · exact (Function.update_of_ne hne ..).trans (hb.started d hd)
  · cases h
    exact ⟨hb.entered, hb.started⟩

theorem kentry_ap (h : s.kentry = some s') : s'.ap = s.ap ∧ s'.accesses = s.accesses := by
  unfold State.kentry at h
  split_ifs at h <;> cases h <;> exact ⟨rfl, rfl⟩

theorem Basic.booted {b : U64} (a : Allocator) : Basic (booted mp tssForCpus a b) where
  entered _ h := by cases h
  started c h := absurd (booted_stage b c) h

end Step

/-! ## Bringing up -/

/-- Nobody is in the allocator, and the APs at the start have no block. -/
structure Quiet (s : State mp) : Prop where
  unlocked : Unlocked s.ap.smp.lock
  idle : ∀ c, s.ap.smp.pc c = .idle
  noBase : ∀ c, s.stage c = .start → s.ap.smp.gsBase (some c) = 0

/-- What the others have is left alone by `c`. -/
structure Way (s : State mp) (c : Fin mp.cpuCount) (s' : State mp) : Prop where
  entered : s'.entered = s.entered
  hhdm : s'.ap.smp.hhdm = s.ap.smp.hhdm
  stage : ∀ d, d ≠ some c → s'.ap.stage d = s.ap.stage d
  pc : ∀ d, d ≠ some c → s'.ap.smp.pc d = s.ap.smp.pc d
  gsBase : ∀ d, d ≠ some c → s'.ap.smp.gsBase d = s.ap.smp.gsBase d

theorem Way.trans {s t u : State mp} {c : Fin mp.cpuCount} (h : Way s c t) (h' : Way t c u) :
    Way s c u where
  entered := h'.entered.trans h.entered
  hhdm := h'.hhdm.trans h.hhdm
  stage d hd := (h'.stage d hd).trans (h.stage d hd)
  pc d hd := (h'.pc d hd).trans (h.pc d hd)
  gsBase d hd := (h'.gsBase d hd).trans (h.gsBase d hd)

/-- `s'` is `s` after `c` has made what its `KGetPage` returned its block, as number `k`. -/
structure Installed (s : State mp) (c : Fin mp.cpuCount) (k : ℕ) (s' : State mp) : Prop where
  way : Way s c s'
  up : s'.stage c = .running k (s.ap.smp.ret (some c))
  gsBase : s'.ap.smp.gsBase (some c) = s.ap.smp.ret (some c)
  core : s'.ap.core = s.ap.core
  accesses : s'.accesses = .cpuPercpu k :: .tssForCpus (mp.lapicId c).toNat :: s.accesses
  pages : s'.ap.smp.pages = s.ap.smp.pages
  lock : s'.ap.smp.lock = s.ap.smp.lock
  pc : s'.ap.smp.pc = s.ap.smp.pc

/-- `s'` is `s` after `c` has gone through `ap_entry`. -/
structure Brought (s : State mp) (c : Fin mp.cpuCount) (s' : State mp) : Prop where
  quiet : Quiet s'
  way : Way s c s'
  core : s'.ap.core = s.ap.core + 1
  up : ∃ b, s'.stage c = .running (s.ap.core.toNat + 1) b
  accesses : s'.accesses =
    .cpuPercpu (s.ap.core.toNat + 1) :: .tssForCpus (mp.lapicId c).toNat :: s.accesses

section Run

variable {tssForCpus : U64} {s₀ s : State mp} {c : Fin mp.cpuCount} {k : ℕ} {b : U64}

theorem Quiet.booted {a : Allocator} (hu : Unlocked a.lock) :
    Quiet (booted mp tssForCpus a b) where
  unlocked := hu
  idle _ := rfl
  noBase c _ := booted_gsBase_some b c

/-- The loop of `kentry` can run before any AP does. -/
theorem run_kentry (tssForCpus : U64) (s₀ : State mp) (h0 : s₀.i = 0) :
    ∃ e : Fin mp.cpuCount → Bool,
      Run (next tssForCpus) Free s₀ { s₀ with i := mp.cpuCount, entered := e } ∧
        ∀ c, mp.IsAp c → e c = true := by
  have hloop : ∀ j ≤ mp.cpuCount, ∃ e : Fin mp.cpuCount → Bool,
      Run (next tssForCpus) Free s₀ { s₀ with i := j, entered := e } ∧
        ∀ c, c.val < j → mp.IsAp c → e c = true := by
    intro j
    induction j with
    | zero =>
      refine fun _ => ⟨s₀.entered, ?_, fun c hc => absurd hc (Nat.not_lt_zero _)⟩
      rw [← h0]
      exact .refl
    | succ j ih =>
      intro hj
      obtain ⟨e, hr, he⟩ := ih (by omega)
      have hn : next tssForCpus { s₀ with i := j, entered := e } .kentry = _ := dif_pos hj
      refine ⟨_, hr.step trivial hn, fun c hc hap => ?_⟩
      rcases eq_or_ne c ⟨j, hj⟩ with rfl | hne
      · rw [if_pos hap, Function.update_self]
      · have hval : c.val ≠ j := fun h => hne (Fin.ext h)
        have hold := he c (by omega) hap
        split
        · exact (Function.update_of_ne hne ..).trans hold
        · exact hold
  obtain ⟨e, hr, he⟩ := hloop mp.cpuCount le_rfl
  exact ⟨e, hr, fun c => he c c.isLt⟩

theorem run_went {st : Ap.Stage} {t : Ap.State (Id mp)} (h : Run (next tssForCpus) Free s₀ s)
    (he : s.entered c = true) (hst : s.ap.stage (some c) = st)
    (hw : Ap.Went tssForCpus (number mp) s.ap (some c) t) :
    Run (next tssForCpus) Free s₀ { s with ap := t, accesses := touched c st ++ s.accesses } := by
  have hstep : apStep tssForCpus s.ap (some c) = some t := by
    unfold apStep Ap.State.entry
    cases hw with
    | back hst hpc => simp only [hst, if_pos hpc]
    | claim hst | call hst | fill hst | base hst | name hst | point hst | store hst =>
      simp only [hst]
  refine h.step (a := .ap c) trivial ?_
  show s.apEntry tssForCpus c = _
  unfold State.apEntry
  rw [if_pos he, hstep, ← hst]
  rfl

theorem run_call (h : Run (next tssForCpus) Free s₀ s) (he : s.entered c = true)
    (hst : s.stage c = .start) : ∃ s', Run (next tssForCpus) Free s₀ s' ∧ Way s c s' ∧
      s'.stage c = .calling (s.ap.core.toNat + 1) ∧ s'.ap.core = s.ap.core + 1 ∧
      s'.accesses = s.accesses ∧ s'.ap.smp = s.ap.smp.enter (some c) .kGetPage := by
  have r₁ := run_went h he hst (.claim hst)
  have r₂ := run_went r₁ he (Ap.goto_stage_self _ _ _) (.call (Ap.goto_stage_self _ _ _))
  refine ⟨_, r₂, ⟨rfl, rfl, fun d hd => ?_, fun d hd => Smp.goto_pc_of_ne _ _ hd, fun _ _ => rfl⟩,
    Ap.goto_stage_self _ _ _, rfl, rfl, rfl⟩
  exact (Ap.goto_stage_of_ne _ _ hd).trans (Ap.goto_stage_of_ne _ _ hd)

theorem run_accesses (h : Run (next tssForCpus) Free s₀ s) (he : s.entered c = true)
    (hst : s.stage c = .calling k) {u : Smp.State (Id mp)}
    (hu : Run Smp.next (Smp.Only (some c)) s.ap.smp u) :
    Run (next tssForCpus) Free s₀ { s with ap := { s.ap with smp := u } } ∧
      Way s c { s with ap := { s.ap with smp := u } } := by
  refine ⟨?_, rfl, (Smp.aside_of_only hu).hhdm, fun _ _ => rfl, (Smp.aside_of_only hu).pc,
    fun d _ => congrFun (Smp.aside_of_only hu).gsBase d⟩
  have hst : s.ap.stage (some c) = .calling k := hst
  induction hu with
  | refl => exact h
  | @step t t' m _ hm hn ih =>
    obtain rfl := hm
    have hn : t.step (some c) = some t' := hn
    have hbusy : t.pc (some c) ≠ .idle := by
      intro hidle
      unfold Smp.State.step at hn
      rw [hidle] at hn
      cases hn
    refine ih.step (a := .ap c) trivial ?_
    show State.apEntry tssForCpus { s with ap := { s.ap with smp := t } } c = _
    have hstep : apStep tssForCpus { s.ap with smp := t } (some c) =
        some { s.ap with smp := t' } := by
      unfold apStep Ap.State.mem
      simp only [hst, if_neg hbusy]
      show (t.step (some c)).map _ = _
      rw [hn]
      rfl
    unfold State.apEntry
    rw [if_pos he, hstep]
    show some { s with
      ap := { s.ap with smp := t' }, accesses := touched c (s.ap.stage (some c)) ++ s.accesses } = _
    rw [hst]
    rfl

theorem run_install (h : Run (next tssForCpus) Free s₀ s) (he : s.entered c = true)
    (hst : s.stage c = .calling k) (hidle : s.ap.smp.pc (some c) = .idle) :
    ∃ s', Run (next tssForCpus) Free s₀ s' ∧ Installed s c k s' := by
  have r₁ := run_went h he hst (.back hst hidle)
  have r₂ := run_went r₁ he (Ap.goto_stage_self _ _ _) (.fill (Ap.goto_stage_self _ _ _))
  have r₃ := run_went r₂ he (Ap.goto_stage_self _ _ _) (.base (Ap.goto_stage_self _ _ _))
  have r₄ := run_went r₃ he (Ap.goto_stage_self _ _ _) (.name (Ap.goto_stage_self _ _ _))
  have r₅ := run_went r₄ he (Ap.goto_stage_self _ _ _) (.point (Ap.goto_stage_self _ _ _))
  have r₆ := run_went r₅ he (Ap.goto_stage_self _ _ _) (.store (Ap.goto_stage_self _ _ _))
  refine ⟨_, r₆,
    ⟨rfl, rfl, fun d hd => ?_, fun _ _ => rfl, fun d hd => Function.update_of_ne hd ..⟩,
    Ap.goto_stage_self _ _ _, Function.update_self .., rfl, rfl, rfl, rfl, rfl⟩
  simp [Ap.State.goto, Ap.State.storePercpu, Ap.State.writeTss, Ap.State.writeCpuId,
    Ap.State.setGsBase, Ap.State.fillBlock, hd]

theorem Way.quiet {s' : State mp} (w : Way s c s') (hq : Quiet s)
    (hidle : s'.ap.smp.pc (some c) = .idle) (hul : Unlocked s'.ap.smp.lock)
    (hst : s'.stage c ≠ .start) : Quiet s' where
  unlocked := hul
  idle d := by
    rcases eq_or_ne d (some c) with rfl | hd
    · exact hidle
    · rw [w.pc d hd]
      exact hq.idle d
  noBase d hd := by
    have hne : (some d : Id mp) ≠ some c := fun e => hst (Option.some.inj e ▸ hd)
    have hd : s'.ap.stage (some d) = .start := hd
    rw [w.stage _ hne] at hd
    rw [w.gsBase _ hne]
    exact hq.noBase d hd

/-- An AP can go through `ap_entry` while the others wait. -/
theorem run_apEntry (h : Run (next tssForCpus) Free s₀ s) (hq : Quiet s)
    (he : s.entered c = true) (hst : s.stage c = .start) :
    ∃ s', Run (next tssForCpus) Free s₀ s' ∧ Brought s c s' := by
  obtain ⟨s₁, r₁, w₁, hst₁, hcore₁, hacc₁, hsmp₁⟩ := run_call h he hst
  have hcheck : s₁.ap.smp.pc (some c) = .check .kGetPage (s₁.ap.smp.current (some c)) := by
    rw [hsmp₁]
    exact Smp.goto_pc_self _ _ _
  have hgs : s₁.ap.smp.gsBase (some c) = 0 := by
    rw [hsmp₁]
    exact hq.noBase c hst
  have hul : Unlocked s₁.ap.smp.lock := by
    rw [hsmp₁]
    exact hq.unlocked
  obtain ⟨b, a, hk, hgave⟩ := kGetPage_gave (a := s₁.ap.smp.allocator (some c)) hul hgs
  obtain ⟨u, hu, hidle, hall, -⟩ := Smp.alone_kGetPage hcheck hk
  have hlock : u.lock = a.lock := congrArg Allocator.lock hall
  obtain ⟨r₂, w₂⟩ := run_accesses r₁ (w₁.entered ▸ he) hst₁ hu
  obtain ⟨s₃, r₃, i⟩ := run_install r₂ (w₁.entered ▸ he) hst₁ hidle
  have w := (w₁.trans w₂).trans i.way
  refine ⟨s₃, r₃, w.quiet hq ?_ ?_ ?_, w, i.core.trans hcore₁, ⟨_, i.up⟩, ?_⟩
  · rw [i.pc]
    exact hidle
  · rw [i.lock]
    show Unlocked u.lock
    rw [hlock]
    exact hgave.unlocked
  · rw [i.up]
    exact Ap.Stage.noConfusion
  · rw [i.accesses]
    show _ :: _ :: s₁.accesses = _
    rw [hacc₁]

/-- `s'` is `s` after the APs of `l` have gone through `ap_entry`. -/
structure BroughtAll (s : State mp) (l : List (Fin mp.cpuCount)) (s' : State mp) : Prop where
  quiet : Quiet s'
  entered : s'.entered = s.entered
  others : ∀ d, d ∉ l → s'.stage d = s.stage d ∧
    s'.ap.smp.gsBase (some d) = s.ap.smp.gsBase (some d)
  core : s'.ap.core = s.ap.core + BitVec.ofNat 8 l.length
  up : ∀ c ∈ l, ∃ k b, s'.stage c = .running k b

theorem run_apEntries {l : List (Fin mp.cpuCount)} (hl : l.Nodup)
    (h : Run (next tssForCpus) Free s₀ s) (hq : Quiet s)
    (hst : ∀ c ∈ l, s.entered c = true ∧ s.stage c = .start) :
    ∃ s', Run (next tssForCpus) Free s₀ s' ∧ BroughtAll s l s' := by
  induction l generalizing s with
  | nil =>
    exact ⟨s, h, hq, rfl, fun _ _ => ⟨rfl, rfl⟩, (BitVec.add_zero _).symm, List.forall_mem_nil _⟩
  | cons c l ih =>
    obtain ⟨hc, hl⟩ := List.nodup_cons.mp hl
    obtain ⟨he, hs⟩ := hst c List.mem_cons_self
    obtain ⟨s₁, h₁, b₁⟩ := run_apEntry h hq he hs
    have hother : ∀ d, d ≠ c → s₁.stage d = s.stage d ∧
        s₁.ap.smp.gsBase (some d) = s.ap.smp.gsBase (some d) := fun d hd =>
      have hne : (some d : Id mp) ≠ some c := fun e => hd (Option.some.inj e)
      ⟨b₁.way.stage _ hne, b₁.way.gsBase _ hne⟩
    obtain ⟨s₂, h₂, b₂⟩ := ih hl h₁ b₁.quiet fun d hd => by
      have hdc : d ≠ c := fun e => hc (e ▸ hd)
      rw [b₁.way.entered, (hother d hdc).1]
      exact hst d (List.mem_cons_of_mem _ hd)
    refine ⟨s₂, h₂, b₂.quiet, b₂.entered.trans b₁.way.entered, fun d hd => ?_, ?_, fun d hd => ?_⟩
    · obtain ⟨hdc, hdl⟩ : d ≠ c ∧ d ∉ l := by simpa using hd
      exact ⟨(b₂.others d hdl).1.trans (hother d hdc).1,
        (b₂.others d hdl).2.trans (hother d hdc).2⟩
    · rw [b₂.core, b₁.core, List.length_cons, Nat.add_comm, BitVec.ofNat_add, BitVec.add_assoc]
      rfl
    · rcases List.mem_cons.mp hd with rfl | hd
      · obtain ⟨b, hup⟩ := b₁.up
        exact ⟨_, b, by rw [(b₂.others d hc).1, hup]⟩
      · exact b₂.up d hd

end Run

/-! ## The numbers -/

/-- The APs of `l` have taken their numbers, in this order, and what they have touched. -/
structure Ordered (s : State mp) (l : List (Fin mp.cpuCount)) : Prop where
  basic : Basic s
  nodup : l.Nodup
  core : s.ap.core.toNat = l.length % 256
  numbers : ∀ c, (s.stage c).core = if c ∈ l then some (l.idxOf c % 256 + 1) else none
  accesses : ∀ x ∈ s.accesses, x = .cpuPercpu 0 ∨ x = .tssForCpus 0 ∨
    (∃ c, mp.IsAp c ∧ x = .tssForCpus (mp.lapicId c).toNat) ∨
    ∃ c k, (s.stage c).core = some k ∧ x = .cpuPercpu k

section Ordered

variable {tssForCpus : U64} {s s' : State mp} {c : Fin mp.cpuCount} {l : List (Fin mp.cpuCount)}

theorem mem_touched {st : Ap.Stage} {x : Access} (hx : x ∈ touched c st) :
    x = .tssForCpus (mp.lapicId c).toNat ∨ ∃ k, st.core = some k ∧ x = .cpuPercpu k := by
  cases st with
  | named => exact Or.inl (List.mem_singleton.mp hx)
  | pointed k b => exact Or.inr ⟨k, rfl, List.mem_singleton.mp hx⟩
  | start | claimed | calling | got | filled | based | running => cases hx

theorem Moved.core (h : Moved tssForCpus s c s') :
    (s.stage c = .start ∧ s'.ap.core = s.ap.core + 1 ∧
      s'.stage c = .claimed (s.ap.core.toNat + 1) ∧ s'.accesses = s.accesses) ∨
    (s'.ap.core = s.ap.core ∧ (s'.stage c).core = (s.stage c).core ∧
      ∀ x ∈ s'.accesses, x ∈ s.accesses ∨ x = .tssForCpus (mp.lapicId c).toNat ∨
        ∃ k, (s.stage c).core = some k ∧ x = .cpuPercpu k) := by
  cases h with
  | access he hst ht => exact Or.inr ⟨rfl, rfl, fun x hx => Or.inl hx⟩
  | went he hw =>
    have hacc : ∀ x ∈ touched c (s.stage c) ++ s.accesses, x ∈ s.accesses ∨
        x = .tssForCpus (mp.lapicId c).toNat ∨ ∃ k, (s.stage c).core = some k ∧ x = .cpuPercpu k :=
      fun x hx => (List.mem_append.mp hx).elim (fun hx => Or.inr (mem_touched hx)) Or.inl
    cases hw with
    | claim hst =>
      have hstart : s.stage c = .start := hst
      refine Or.inl ⟨hst, rfl, Ap.goto_stage_self _ _ _, ?_⟩
      rw [hstart]
      rfl
    | call hst | back hst | fill hst | base hst | name hst | point hst | store hst =>
      refine Or.inr ⟨rfl, ?_, hacc⟩
      rw [show (s.stage c).core = _ from congrArg Ap.Stage.core hst]
      refine (congrArg Ap.Stage.core (Ap.goto_stage_self _ _ _)).trans ?_
      rfl

/-- As long as the APs keep their numbers. -/
theorem Ordered.accesses_keep (h : Ordered s l)
    (hkeep : ∀ d k, (s.stage d).core = some k → (s'.stage d).core = some k) {x : Access}
    (hx : x ∈ s.accesses) : x = .cpuPercpu 0 ∨ x = .tssForCpus 0 ∨
      (∃ d, mp.IsAp d ∧ x = .tssForCpus (mp.lapicId d).toNat) ∨
      ∃ d k, (s'.stage d).core = some k ∧ x = .cpuPercpu k := by
  refine (h.accesses x hx).imp_right (Or.imp_right (Or.imp_right ?_))
  rintro ⟨d, k, hk, rfl⟩
  exact ⟨d, k, hkeep d k hk, rfl⟩

theorem Ordered.not_mem (h : Ordered s l) (hst : s.stage c = .start) : c ∉ l := by
  intro hc
  have hn := h.numbers c
  rw [hst, if_pos hc] at hn
  cases hn

theorem Ordered.claim (h : Ordered s l) (hm : Moved tssForCpus s c s') (hst : s.stage c = .start)
    (hcore : s'.ap.core = s.ap.core + 1) (hst' : s'.stage c = .claimed (s.ap.core.toNat + 1))
    (hacc : s'.accesses = s.accesses) : Ordered s' (l ++ [c]) := by
  have hc := h.not_mem hst
  obtain ⟨-, -, hd, -⟩ := hm.stage
  have hkeep : ∀ d k, (s.stage d).core = some k → (s'.stage d).core = some k := by
    intro d k hk
    have hne : d ≠ c := fun e => by
      rw [e, hst] at hk
      cases hk
    rw [hd d hne, hk]
  refine ⟨h.basic.moved hm, ?_, ?_, fun d => ?_, fun x hx => ?_⟩
  · rw [List.nodup_append]
    refine ⟨h.nodup, List.nodup_singleton c, fun d hd e he hde => hc ?_⟩
    rw [← List.mem_singleton.mp he, ← hde]
    exact hd
  · have hlen := h.core
    rw [hcore, BitVec.toNat_add, hlen, List.length_append, List.length_singleton]
    exact Nat.mod_add_mod l.length 256 1
  · rcases eq_or_ne d c with rfl | hne
    · rw [hst', if_pos (by simp), List.idxOf_append_of_notMem hc, h.core]
      simp [Ap.Stage.core]
    · rw [hd d hne, h.numbers d]
      by_cases hmem : d ∈ l
      · rw [if_pos hmem, if_pos (List.mem_append_left _ hmem), List.idxOf_append_of_mem hmem]
      · rw [if_neg hmem, if_neg (by simp [hmem, hne])]
  · rw [hacc] at hx
    exact h.accesses_keep hkeep hx

theorem Ordered.moved (h : Ordered s l) (hm : Moved tssForCpus s c s') :
    ∃ l', Ordered s' l' := by
  rcases hm.core with ⟨hst, hcore, hst', hacc⟩ | ⟨hcore, hst, hacc⟩
  · exact ⟨_, h.claim hm hst hcore hst' hacc⟩
  · obtain ⟨-, -, hd, -⟩ := hm.stage
    have hsame : ∀ d, (s'.stage d).core = (s.stage d).core := by
      intro d
      rcases eq_or_ne d c with rfl | hne
      · exact hst
      · rw [hd d hne]
    refine ⟨l, h.basic.moved hm, h.nodup, by rw [hcore, h.core], fun d => ?_, fun x hx => ?_⟩
    · rw [hsame, h.numbers]
    · rcases hacc x hx with hx | rfl | ⟨k, hk, rfl⟩
      · exact h.accesses_keep (fun d k hk => (hsame d).trans hk) hx
      · exact Or.inr (Or.inr (Or.inl ⟨c, h.basic.entered c hm.entered, rfl⟩))
      · exact Or.inr (Or.inr (Or.inr ⟨c, k, hst.trans hk, rfl⟩))

theorem Ordered.kentry (h : Ordered s l) (hn : s.kentry = some s') : Ordered s' l := by
  have hb := h.basic.kentry hn
  obtain ⟨hap, hacc⟩ := kentry_ap hn
  refine ⟨hb, h.nodup, by rw [hap]; exact h.core, fun c => ?_, ?_⟩
  · unfold State.stage
    rw [hap]
    exact h.numbers c
  · unfold State.stage
    rw [hap, hacc]
    exact h.accesses

theorem Ordered.booted (a : Allocator) (b : U64) : Ordered (booted mp tssForCpus a b) [] where
  basic := Basic.booted a
  nodup := List.nodup_nil
  core := rfl
  numbers c := by
    rw [booted_stage]
    rfl
  accesses x hx := by
    rcases List.mem_cons.mp hx with rfl | hx
    · exact Or.inl rfl
    · exact Or.inr (Or.inl (List.mem_singleton.mp hx))

theorem Ordered.length_le (h : Ordered s l) : l.length ≤ mp.aps.length := by
  refine MpResponse.length_le_aps h.nodup fun c hc => ?_
  refine h.basic.entered c (h.basic.started c fun hst => ?_)
  exact h.not_mem hst hc

/-- Up to 63 APs the number of an AP is its place in the order. -/
theorem Ordered.number (h : Ordered s l) (hlen : l.length ≤ 63) {k : ℕ}
    (hk : (s.stage c).core = some k) : c ∈ l ∧ k = l.idxOf c + 1 ∧ k < 64 := by
  rw [h.numbers] at hk
  split_ifs at hk with hc
  have hlt := List.idxOf_lt_length_of_mem hc
  have hk := Option.some.inj hk
  rw [Nat.mod_eq_of_lt (by omega)] at hk
  exact ⟨hc, hk.symm, by omega⟩

theorem Ordered.inRange (h : Ordered s l) (hlen : l.length ≤ 63)
    (hids : ∀ c, mp.IsAp c → (mp.lapicId c).toNat < 32) {x : Access} (hx : x ∈ s.accesses) :
    x.InRange := by
  rcases h.accesses x hx with rfl | rfl | ⟨c, hc, rfl⟩ | ⟨c, k, hk, rfl⟩
  · decide
  · decide
  · exact hids c hc
  · exact (h.number hlen hk).2.2

end Ordered

section Sizes

variable {tssForCpus : U64} {a : Allocator} {s₀ s : State mp}

theorem ordered_of_run {b : U64}
    (h : Run (next tssForCpus) Free (booted mp tssForCpus a b) s) : ∃ l, Ordered s l := by
  refine h.invariant (P := fun s => ∃ l, Ordered s l) ⟨[], Ordered.booted a b⟩ ?_
  rintro s act s' ⟨l, hs⟩ - hn
  cases act with
  | kentry => exact ⟨l, hs.kentry hn⟩
  | ap c => exact hs.moved (moved_of_apEntry hn)

/-- Some run touches the entry of `tssforcpus` of an AP. -/
theorem run_tssForCpus (hq : Quiet s₀) (h0 : s₀.i = 0) (hst : ∀ c, s₀.stage c = .start)
    {c : Fin mp.cpuCount} (hc : mp.IsAp c) : ∃ s, Run (next tssForCpus) Free s₀ s ∧
      Access.tssForCpus (mp.lapicId c).toNat ∈ s.accesses := by
  obtain ⟨e, hr, he⟩ := run_kentry tssForCpus s₀ h0
  have hq' : Quiet { s₀ with i := mp.cpuCount, entered := e } :=
    ⟨hq.unlocked, hq.idle, hq.noBase⟩
  obtain ⟨s, hs, b⟩ := run_apEntry hr hq' (he c hc) (hst c)
  refine ⟨s, hs, ?_⟩
  rw [b.accesses]
  exact List.mem_cons_of_mem _ List.mem_cons_self

/-- With more than 63 APs some run touches `cpu_percpu[64]`. -/
theorem run_cpuPercpu (hq : Quiet s₀) (h0 : s₀.i = 0) (hst : ∀ c, s₀.stage c = .start)
    (hcore : s₀.ap.core = 0) (hlt : 63 < mp.aps.length) : ∃ s, Run (next tssForCpus) Free s₀ s ∧
      Access.cpuPercpu 64 ∈ s.accesses := by
  obtain ⟨e, hr, he⟩ := run_kentry tssForCpus s₀ h0
  have hap : ∀ c ∈ mp.aps, e c = true := fun c hc => he c (MpResponse.mem_aps.mp hc)
  -- after 63 APs the next one takes the number 64
  have hsplit : mp.aps.take 63 ++ [mp.aps[63]] = mp.aps.take 64 := by simp
  have hnd : (mp.aps.take 63 ++ [mp.aps[63]]).Nodup := by
    rw [hsplit]
    exact mp.nodup_aps.sublist (List.take_sublist 64 _)
  obtain ⟨hnd, -, hdis⟩ := List.nodup_append.mp hnd
  have hnot : mp.aps[63] ∉ mp.aps.take 63 := fun hm => hdis _ hm _ (List.mem_singleton_self _) rfl
  obtain ⟨s₁, h₁, b₁⟩ := run_apEntries hnd hr ⟨hq.unlocked, hq.idle, hq.noBase⟩ fun c hc =>
    ⟨hap c (List.mem_of_mem_take hc), hst c⟩
  obtain ⟨s₂, h₂, b₂⟩ := run_apEntry (c := mp.aps[63]) h₁ b₁.quiet
    (by rw [b₁.entered]; exact hap _ (List.getElem_mem hlt))
    ((b₁.others _ hnot).1.trans (hst _))
  have hcore : s₁.ap.core.toNat = 63 := by
    rw [b₁.core, List.length_take, min_eq_left (by omega), hcore]
    rfl
  refine ⟨s₂, h₂, ?_⟩
  rw [b₂.accesses, hcore]
  exact List.mem_cons_self

/-- **The sizes of the tables.** In every run the entries of `cpu_percpu` and `tssforcpus` that are
touched exist and no two APs have the same `my_core`, if and only if there are at most 63 APs and
their LAPIC ids are below 32. -/
theorem accesses_inRange_iff (hl : a.lock = .free)
    (h₀ : setupBspCpuData tssForCpus (blank mp a) = .ok () s₀) :
    (∀ s, Run (next tssForCpus) Free s₀ s → (∀ x ∈ s.accesses, x.InRange) ∧
      ∀ c d k, (s.stage c).core = some k → (s.stage d).core = some k → c = d) ↔
    mp.aps.length ≤ 63 ∧ ∀ c, mp.IsAp c → (mp.lapicId c).toNat < 32 := by
  obtain ⟨a', b, -, hg, rfl⟩ := setupBspCpuData_blank hl h₀
  have hq : Quiet (booted mp tssForCpus a' b) := Quiet.booted hg.unlocked
  constructor
  · intro hall
    refine ⟨?_, fun c hc => ?_⟩
    · by_contra hlen
      obtain ⟨s, hs, hx⟩ := run_cpuPercpu hq rfl (booted_stage b) rfl (by omega)
      exact absurd ((hall s hs).1 _ hx) (by decide)
    · obtain ⟨s, hs, hx⟩ := run_tssForCpus hq rfl (booted_stage b) hc
      exact (hall s hs).1 _ hx
  · rintro ⟨hlen, hids⟩ s hr
    obtain ⟨l, h⟩ := ordered_of_run hr
    have hlen : l.length ≤ 63 := h.length_le.trans hlen
    refine ⟨fun x hx => h.inRange hlen hids hx, fun c d k hc hd => ?_⟩
    obtain ⟨hcl, hk, -⟩ := h.number hlen hc
    obtain ⟨-, hk', -⟩ := h.number hlen hd
    exact (List.idxOf_inj hcl).mp (by omega)

theorem accesses_inRange_iff_twoCpus : ∃ s₀,
    setupBspCpuData 0xFFFFFFFF80010000 (blank (twoCpus 0 1) threePages) = .ok () s₀ ∧
    ∀ s, Run (next 0xFFFFFFFF80010000) Free s₀ s → ∀ x ∈ s.accesses, x.InRange := by
  obtain ⟨s₀, h₀⟩ := setupBspCpuData_returns (a := threePages) (twoCpus 0 1) 0xFFFFFFFF80010000 rfl
  have hiff := accesses_inRange_iff rfl h₀
  have hids : ∀ c, (twoCpus 0 1).IsAp c → ((twoCpus 0 1).lapicId c).toNat < 32 := by decide
  exact ⟨s₀, h₀, fun s hs => (hiff.mpr ⟨by decide, hids⟩ s hs).1⟩

/-- One AP with the LAPIC id 32 writes past the end of `tssforcpus`. -/
theorem tss_out_of_range :
    ¬ ∀ (mp : MpResponse) (tssForCpus : U64) (a : Allocator) (s₀ s : State mp), a.lock = .free →
      setupBspCpuData tssForCpus (blank mp a) = .ok () s₀ → Run (next tssForCpus) Free s₀ s →
      (∀ x ∈ s.accesses, x.InRange) ∧
        ∀ c d k, (s.stage c).core = some k → (s.stage d).core = some k → c = d := by
  intro hall
  obtain ⟨s₀, h₀⟩ := setupBspCpuData_returns (a := threePages) (twoCpus 0 32) 0 rfl
  obtain ⟨a, b, -, hg, rfl⟩ := setupBspCpuData_blank rfl h₀
  have hap : (twoCpus 0 32).IsAp ⟨1, by decide⟩ := by decide
  obtain ⟨s, hs, hx⟩ := run_tssForCpus (Quiet.booted hg.unlocked) rfl (booted_stage b) hap
  exact absurd ((hall _ _ _ _ _ rfl h₀ hs).1 _ hx) (by decide)

end Sizes

end BringUp

end DejOs
