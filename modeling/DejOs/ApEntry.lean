import DejOs.AllocatorAlone
import DejOs.AllocatorRelease

/-!
# Starting the application processors

`ap_entry` of `generic.c`, run by any number of CPUs while the boot CPU and the CPUs that are
already up use the allocator. `Stage` is the place of a CPU in `ap_entry`; its call of `KGetPage`
goes through the accesses of `Smp`.

Until its `wrmsr` an AP has GS base `0`, so `aquire_lock` takes its number to be `0`, the number of
the boot CPU and of every other starting AP. The lock then lets several CPUs through, and two of
them can install the same page. As long as only the CPU that took the lock is let through, and
`KGetPage` gives `ap_entry` a page, the blocks are distinct (`blocks_distinct`), and so each keeps
the words that its CPU has written (`words_next`).

`InterruptInit`, `load_gdt`, the check of `percpu_size`, the `sil` word and the log are left out:
they do not touch the allocator, the block's address or the CPU's identity.
-/

namespace DejOs

open Interleaving Allocator

namespace Smp

variable {ι : Type} [DecidableEq ι] {s s' : State ι} {c : ι}

/-! ## Pages and results of the accesses -/

/-- The address `retpage` is to free, once it is called. -/
def Pc.returns : Pc → Option U64
  | .search a _ | .probe a _ | .clear a _ => some a
  | _ => none

/-- A page stays outstanding unless its owner is in `retpage` for it. -/
theorem Trans.mem_owned (ht : Trans s c s') {d : ι} {a : U64} (hm : (d, a) ∈ s.owned)
    (hr : d = c → (s.pc c).returns ≠ some a) : (d, a) ∈ s'.owned := by
  cases ht with
  | mark hpc => exact List.mem_cons_of_mem _ hm
  | clear hpc =>
    refine (List.mem_erase_of_ne fun e => ?_).mpr hm
    obtain ⟨hd, ha⟩ := Prod.mk.inj e
    rw [hpc, ha] at hr
    exact hr hd rfl
  | pass | miss | poll | take | tag | busy | found | fail | exhausted | untag | unhold | load
  | skip | hit | lost | inUse => exact hm

theorem Trans.returns (ht : Trans s c s') {a : U64} (hr : (s.pc c).returns ≠ some a) :
    (s'.pc c).returns ≠ some a := by
  cases ht with
  | poll hpc hl => exact hr
  | skip hpc | hit hpc | inUse hpc =>
    rw [goto_pc_self]
    rw [hpc] at hr
    exact hr
  | pass | miss | take | tag | busy | found | fail | exhausted | mark | untag | unhold | load
  | lost | clear =>
    refine ne_of_eq_of_ne (congrArg Pc.returns (goto_pc_self s c _)) ?_
    exact fun e => by cases e

/-- Places of a CPU in `KGetPage`, or back from it. -/
def Pc.inKGetPage : Pc → Bool
  | .check f _ | .spin f _ | .tag f _ | .scan f _ | .mark f _ | .untag f _ | .unhold f _
  | .load f _ => f = .kGetPage
  | .idle => true
  | _ => false

theorem Trans.inKGetPage (ht : Trans s c s') (h : (s.pc c).inKGetPage = true) :
    (s'.pc c).inKGetPage = true := by
  cases ht with
  | poll => exact h
  | pass hpc | miss hpc | take hpc | tag hpc | busy hpc | found hpc | mark hpc | untag hpc
  | unhold hpc =>
    rw [hpc] at h
    exact (congrArg Pc.inKGetPage (goto_pc_self s c _)).trans h
  | load | fail => exact congrArg Pc.inKGetPage (goto_pc_self s c _)
  | exhausted hpc | skip hpc | hit hpc | inUse hpc | clear hpc =>
    rw [hpc] at h
    cases h
  | lost hpc =>
    rcases hpc with hpc | hpc <;> rw [hpc] at h <;> cases h

/-- A `KGetPage` that does not fail comes back with a page of its caller. -/
theorem Trans.result_owned (ht : Trans s c s') (hi : Inv s) (hok : s.fails c = false)
    (h : (s.pc c).inKGetPage = true) (hidle : s'.pc c = .idle) :
    (c, s'.ret c - s'.hhdm) ∈ s'.owned := by
  cases ht with
  | @load f i hpc =>
    rw [hpc] at h
    obtain rfl : f = .kGetPage := of_decide_eq_true h
    obtain ⟨p, hp, hm⟩ := pcOk_of_eq hi hpc
    show (c, Function.update s.ret c (s.result .kGetPage i) c - s.hhdm) ∈ s.owned
    have hst : startAt s.pages i = p.start := by unfold startAt; rw [hp]; rfl
    rw [Function.update_self, State.result, hst, BitVec.add_sub_cancel]
    exact hm
  | @fail i hpc hp =>
    have hi : s.pages.length ≤ i := List.getElem?_eq_none_iff.mp hp
    unfold State.fails at hok
    rw [hpc] at hok
    exact absurd hi (of_decide_eq_false hok)
  | poll hpc hl => cases hpc.symm.trans hidle
  | pass | miss | take | tag | busy | found | mark | untag | unhold =>
    cases (goto_pc_self s c _).symm.trans hidle
  | exhausted hpc | skip hpc | hit hpc | inUse hpc | clear hpc =>
    rw [hpc] at h
    cases h
  | lost hpc =>
    rcases hpc with hpc | hpc <;> rw [hpc] at h <;> cases h

end Smp

/-- `sizeof(tss_cpu)`: 104 bytes, 8 of padding, and the stack of 16384. -/
def tssCpuSize : U64 := 16496

/-- `&tssforcpus[i]` -/
def tssPointer (tssForCpus i : U64) : U64 := tssForCpus + i * tssCpuSize

namespace Ap

variable {ι : Type}

/-- Where a CPU is in `ap_entry`; `k` is its `my_core` and `b` its `n_block`. -/
inductive Stage
  /-- `my_core = atomic_fetch_add(&core, 1) + 1` -/
  | start
  /-- `n_block = KGetPage()`, before the call -/
  | claimed (k : ℕ)
  /-- In `KGetPage`, or back from it -/
  | calling (k : ℕ)
  /-- `memset` and `memcpy` of the block -/
  | got (k : ℕ) (b : U64)
  /-- `wrmsr(MSR_GS_BASE, n_block)` -/
  | filled (k : ℕ) (b : U64)
  /-- `percpu_write(cpu_id, cpu->lapic_id)` -/
  | based (k : ℕ) (b : U64)
  /-- `percpu_write(tss, &tssforcpus[cpu->lapic_id])` -/
  | named (k : ℕ) (b : U64)
  /-- `cpu_percpu[my_core] = n_block` -/
  | pointed (k : ℕ) (b : U64)
  /-- Up; the boot CPU is here from the beginning. -/
  | running (k : ℕ) (b : U64)
  deriving DecidableEq, Repr

/-- In the `KGetPage` of `ap_entry`. -/
def Stage.isCalling : Stage → Bool
  | .calling _ => true
  | _ => false

/-- The number a CPU has taken. -/
def Stage.core : Stage → Option ℕ
  | .start => none
  | .claimed k | .calling k | .got k _ | .filled k _ | .based k _ | .named k _ | .pointed k _
  | .running k _ => some k

/-- The block a CPU has been given. -/
def Stage.block : Stage → Option U64
  | .start | .claimed _ | .calling _ => none
  | .got _ b | .filled _ b | .based _ b | .named _ b | .pointed _ b | .running _ b => some b

/-- The allocator with all CPUs, and what `ap_entry` shares. -/
structure State (ι : Type) where
  smp : Smp.State ι
  /-- The `tss` word of the per-CPU block at an address. -/
  tss : U64 → U64
  /-- `core` -/
  core : BitVec 8
  /-- `cpu_percpu`; the index is not compared with `MAX_CPUS`. -/
  cpuPercpu : ℕ → U64
  stage : ι → Stage

/-- A move of a CPU: the next step of `ap_entry`, or one of the allocator. -/
inductive Act
  | entry
  | mem (m : Smp.Act)
  deriving DecidableEq, Repr

section Step

variable [DecidableEq ι]

/-- CPU `c` goes on in `ap_entry`. -/
def State.goto (s : State ι) (c : ι) (st : Stage) : State ι :=
  { s with stage := Function.update s.stage c st }

/-- `atomic_fetch_add(&core, 1)` -/
def State.fetchCore (s : State ι) : State ι := { s with core := s.core + 1 }

/-- `memset` and `memcpy` of a block; the words are `0` in `.percpu`. -/
def State.fillBlock (s : State ι) (b : U64) : State ι :=
  { s with
    smp := { s.smp with cpuId := Function.update s.smp.cpuId b 0 }
    tss := Function.update s.tss b 0 }

/-- `wrmsr(MSR_GS_BASE, b)` -/
def State.setGsBase (s : State ι) (c : ι) (b : U64) : State ι :=
  { s with smp := { s.smp with gsBase := Function.update s.smp.gsBase c b } }

/-- `percpu_write(cpu_id, v)` -/
def State.writeCpuId (s : State ι) (c : ι) (v : U64) : State ι :=
  { s with smp := { s.smp with cpuId := Function.update s.smp.cpuId (s.smp.gsBase c) v } }

/-- `percpu_write(tss, v)` -/
def State.writeTss (s : State ι) (c : ι) (v : U64) : State ι :=
  { s with tss := Function.update s.tss (s.smp.gsBase c) v }

/-- `cpu_percpu[k] = b` -/
def State.storePercpu (s : State ι) (k : ℕ) (b : U64) : State ι :=
  { s with cpuPercpu := Function.update s.cpuPercpu k b }

/-- The next step of `ap_entry` on CPU `c`; `n_block` is not compared with `NULL`. -/
def State.entry (tssForCpus : U64) (lapicId : ι → BitVec 32) (s : State ι) (c : ι) :
    Option (State ι) :=
  match s.stage c with
  | .start => some (s.fetchCore.goto c (.claimed (s.core.toNat + 1)))
  | .claimed k => some { s.goto c (.calling k) with smp := s.smp.enter c .kGetPage }
  | .calling k => if s.smp.pc c = .idle then s.goto c (.got k (s.smp.ret c)) else none
  | .got k b => some ((s.fillBlock b).goto c (.filled k b))
  | .filled k b => some ((s.setGsBase c b).goto c (.based k b))
  | .based k b => some ((s.writeCpuId c ((lapicId c).setWidth 64)).goto c (.named k b))
  | .named k b =>
    some ((s.writeTss c (tssPointer tssForCpus ((lapicId c).setWidth 64))).goto c (.pointed k b))
  | .pointed k b => some ((s.storePercpu k b).goto c (.running k b))
  | .running _ _ => none

/-- A move of CPU `c` in the allocator. In `ap_entry` the only call is its `KGetPage`. -/
def State.mem (s : State ι) (c : ι) (m : Smp.Act) : Option (State ι) :=
  match s.stage c, m with
  | .calling _, .run | .running _ _, _ =>
    (Smp.next s.smp (c, m)).map fun t => { s with smp := t }
  | _, _ => none

/-- One move of one CPU. -/
def next (tssForCpus : U64) (lapicId : ι → BitVec 32) (s : State ι) : ι × Act → Option (State ι)
  | (c, .entry) => s.entry tssForCpus lapicId c
  | (c, .mem m) => s.mem c m

/-- The steps of `ap_entry`. -/
inductive Went (tssForCpus : U64) (lapicId : ι → BitVec 32) (s : State ι) (c : ι) : State ι → Prop
  | claim (hst : s.stage c = .start) :
      Went tssForCpus lapicId s c (s.fetchCore.goto c (.claimed (s.core.toNat + 1)))
  | call {k : ℕ} (hst : s.stage c = .claimed k) :
      Went tssForCpus lapicId s c { s.goto c (.calling k) with smp := s.smp.enter c .kGetPage }
  | back {k : ℕ} (hst : s.stage c = .calling k) (hpc : s.smp.pc c = .idle) :
      Went tssForCpus lapicId s c (s.goto c (.got k (s.smp.ret c)))
  | fill {k : ℕ} {b : U64} (hst : s.stage c = .got k b) :
      Went tssForCpus lapicId s c ((s.fillBlock b).goto c (.filled k b))
  | base {k : ℕ} {b : U64} (hst : s.stage c = .filled k b) :
      Went tssForCpus lapicId s c ((s.setGsBase c b).goto c (.based k b))
  | name {k : ℕ} {b : U64} (hst : s.stage c = .based k b) :
      Went tssForCpus lapicId s c
        ((s.writeCpuId c ((lapicId c).setWidth 64)).goto c (.named k b))
  | point {k : ℕ} {b : U64} (hst : s.stage c = .named k b) :
      Went tssForCpus lapicId s c
        ((s.writeTss c (tssPointer tssForCpus ((lapicId c).setWidth 64))).goto c (.pointed k b))
  | store {k : ℕ} {b : U64} (hst : s.stage c = .pointed k b) :
      Went tssForCpus lapicId s c ((s.storePercpu k b).goto c (.running k b))

theorem went_of_entry {tssForCpus : U64} {lapicId : ι → BitVec 32} {s s' : State ι} {c : ι}
    (h : s.entry tssForCpus lapicId c = some s') : Went tssForCpus lapicId s c s' := by
  unfold State.entry at h
  split at h
  · rename_i hst
    cases h
    exact .claim hst
  · rename_i hst
    cases h
    exact .call hst
  · rename_i hst
    split_ifs at h with hpc
    cases h
    exact .back hst hpc
  · rename_i hst
    cases h
    exact .fill hst
  · rename_i hst
    cases h
    exact .base hst
  · rename_i hst
    cases h
    exact .name hst
  · rename_i hst
    cases h
    exact .point hst
  · rename_i hst
    cases h
    exact .store hst
  · cases h

@[simp] theorem goto_stage_self (s : State ι) (c : ι) (st : Stage) :
    (s.goto c st).stage c = st := Function.update_self ..

theorem goto_stage_of_ne (s : State ι) {c d : ι} (st : Stage) (hd : d ≠ c) :
    (s.goto c st).stage d = s.stage d := Function.update_of_ne hd ..

theorem Went.stage_of_ne {tssForCpus : U64} {lapicId : ι → BitVec 32} {s s' : State ι} {c d : ι}
    (h : Went tssForCpus lapicId s c s') (hd : d ≠ c) : s'.stage d = s.stage d := by
  cases h with
  | call => exact goto_stage_of_ne s _ hd
  | claim | back | fill | base | name | point | store => exact goto_stage_of_ne _ _ hd

end Step

/-! ## Side conditions -/

/-- `retpage` is called on a page its caller owns, not on its per-CPU block. -/
def RetOther (s : State ι) : ι × Act → Prop
  | (c, .mem (.call (.retPage ptr))) => (c, ptr - s.smp.hhdm) ∈ s.smp.owned ∧ ptr ≠ s.smp.gsBase c
  | _ => True

/-- Only the CPU that took the lock is let through, and the `KGetPage` of `ap_entry` finds a
page. -/
def Served [DecidableEq ι] (s : State ι) : ι × Act → Prop
  | (c, .mem .run) => s.smp.intrudes c = false ∧
      ((s.stage c).isCalling = true → s.smp.fails c = false)
  | _ => True

/-! ## The invariant -/

/-- What holds of a CPU at its place in `ap_entry`. -/
def StageOk (s : Smp.State ι) (c : ι) : Stage → Prop
  | .start | .claimed _ => s.gsBase c = 0 ∧ s.pc c = .idle
  | .calling _ => s.gsBase c = 0 ∧ (s.pc c).inKGetPage = true ∧
      (s.pc c = .idle → (c, s.ret c - s.hhdm) ∈ s.owned)
  | .got _ b | .filled _ b => s.gsBase c = 0 ∧ s.pc c = .idle ∧ (c, b - s.hhdm) ∈ s.owned
  | .based _ b | .named _ b | .pointed _ b =>
    s.gsBase c = b ∧ s.pc c = .idle ∧ (c, b - s.hhdm) ∈ s.owned
  | .running _ b => s.gsBase c = b ∧ (c, b - s.hhdm) ∈ s.owned ∧
      (s.pc c).returns ≠ some (b - s.hhdm)

/-- The allocator's invariant, the places of all CPUs, and whose blocks `cpu_percpu` lists. -/
structure Inv (s : State ι) : Prop where
  smp : Smp.Inv s.smp
  stages : ∀ c, StageOk s.smp c (s.stage c)
  listed : ∀ i, s.cpuPercpu i = 0 ∨ ∃ c, s.stage c = .running i (s.cpuPercpu i)

section Keep

variable {s s' : State ι} {c : ι}

theorem stageOk_of_eq (h : Inv s) {st : Stage} (hst : s.stage c = st) : StageOk s.smp c st :=
  hst ▸ h.stages c

theorem StageOk.congr {s t : Smp.State ι} {d : ι} {st : Stage} (h : StageOk s d st)
    (hg : t.gsBase d = s.gsBase d) (hp : t.pc d = s.pc d) (hr : t.ret d = s.ret d)
    (hh : t.hhdm = s.hhdm) (ho : ∀ a, (d, a) ∈ s.owned → (d, a) ∈ t.owned) : StageOk t d st := by
  cases st with
  | start | claimed => exact ⟨hg.trans h.1, hp.trans h.2⟩
  | calling =>
    unfold StageOk
    rw [hg, hp, hr, hh]
    exact ⟨h.1, h.2.1, fun e => ho _ (h.2.2 e)⟩
  | got | filled | based | named | pointed =>
    unfold StageOk
    rw [hg, hp, hh]
    exact ⟨h.1, h.2.1, ho _ h.2.2⟩
  | running =>
    unfold StageOk
    rw [hg, hp, hh]
    exact ⟨h.1, ho _ h.2.1, h.2.2⟩

variable [DecidableEq ι]

theorem stages_goto {t : State ι} {st : Stage} (hst : t.stage = s.stage)
    (hc : StageOk t.smp c st) (ho : ∀ d, d ≠ c → StageOk t.smp d (s.stage d)) (d : ι) :
    StageOk t.smp d ((t.goto c st).stage d) := by
  rcases eq_or_ne d c with rfl | hd
  · rw [goto_stage_self]
    exact hc
  · rw [goto_stage_of_ne _ _ hd, hst]
    exact ho d hd

/-- A step of `ap_entry` on a CPU that is not up keeps what `cpu_percpu` lists. -/
theorem listed_goto (h : Inv s) {st : Stage} (hc : ∀ k b, s.stage c ≠ .running k b) (i : ℕ) :
    s.cpuPercpu i = 0 ∨ ∃ d, (s.goto c st).stage d = .running i (s.cpuPercpu i) := by
  refine (h.listed i).imp_right fun ⟨d, hd⟩ => ⟨d, ?_⟩
  have hne : d ≠ c := fun e => hc _ _ (e ▸ hd)
  exact (Function.update_of_ne hne ..).trans hd

/-- A store to a per-CPU block: the places do not depend on the contents of blocks. -/
theorem Inv.writeBlock (h : Inv s) {st : Stage} (cpuId tss : U64 → U64) (hok : StageOk s.smp c st)
    (hc : ∀ k b, s.stage c ≠ .running k b) :
    Inv (State.goto { s with smp := { s.smp with cpuId := cpuId }, tss := tss } c st) where
  smp := h.smp.percpu _ _
  stages := stages_goto (s := s) rfl hok fun d _ => (h.stages d).congr rfl rfl rfl rfl fun _ => id
  listed := listed_goto h hc

theorem Inv.went (h : Inv s) {tssForCpus : U64} {lapicId : ι → BitVec 32}
    (hw : Went tssForCpus lapicId s c s') : Inv s' := by
  cases hw with
  | claim hst =>
    have hok := stageOk_of_eq h hst
    exact ⟨h.smp, stages_goto (s := s) rfl hok fun d _ => h.stages d,
      listed_goto h (by simp [hst])⟩
  | @call k hst =>
    obtain ⟨hgs, hpc⟩ := stageOk_of_eq h hst
    refine ⟨Smp.Inv.enter (r := .kGetPage) h.smp trivial,
      stages_goto (s := s) (t := { s with smp := s.smp.enter c .kGetPage }) rfl ?_ fun d hd => ?_,
      listed_goto h (by simp [hst])⟩
    · have hcheck := Smp.goto_pc_self s.smp c (.check .kGetPage (s.smp.current c))
      exact ⟨hgs, congrArg Smp.Pc.inKGetPage hcheck, fun e => by cases hcheck.symm.trans e⟩
    · exact (h.stages d).congr rfl (Smp.goto_pc_of_ne _ _ hd) rfl rfl fun _ => id
  | back hst hpc =>
    obtain ⟨hgs, -, hm⟩ := stageOk_of_eq h hst
    exact ⟨h.smp, stages_goto (s := s) rfl ⟨hgs, hpc, hm hpc⟩ fun d _ => h.stages d,
      listed_goto h (by simp [hst])⟩
  | fill hst =>
    have hok := stageOk_of_eq h hst
    exact h.writeBlock _ _ hok (by simp [hst])
  | base hst =>
    obtain ⟨-, hpc, hm⟩ := stageOk_of_eq h hst
    refine ⟨h.smp.percpu _ _,
      stages_goto (s := s) (t := s.setGsBase c _) rfl ⟨Function.update_self .., hpc, hm⟩
        fun d hd => ?_, listed_goto h (by simp [hst])⟩
    exact (h.stages d).congr (Function.update_of_ne hd ..) rfl rfl rfl fun _ => id
  | name hst | point hst =>
    have hok := stageOk_of_eq h hst
    exact h.writeBlock _ _ hok (by simp [hst])
  | @store k b hst =>
    obtain ⟨hgs, hpc, hm⟩ := stageOk_of_eq h hst
    have hr : (s.smp.pc c).returns ≠ some (b - s.smp.hhdm) := by
      rw [hpc]
      exact fun e => by cases e
    refine ⟨h.smp, stages_goto (s := s) (t := s.storePercpu k b) rfl ⟨hgs, hm, hr⟩
      fun d _ => h.stages d, fun i => ?_⟩
    rcases eq_or_ne i k with rfl | hi
    · refine Or.inr ⟨c, ?_⟩
      show Function.update s.stage c _ c = .running i (Function.update s.cpuPercpu i b i)
      rw [Function.update_self, Function.update_self]
    · show Function.update s.cpuPercpu k b i = 0 ∨
        ∃ d, (s.goto c _).stage d = .running i (Function.update s.cpuPercpu k b i)
      rw [Function.update_of_ne hi]
      exact listed_goto h (by simp [hst]) i

/-- An access of the allocator on CPU `c`, which stays at its place in `ap_entry`. -/
theorem Inv.access (h : Inv s) {t : Smp.State ι} (hown : s.smp.intrudes c = false)
    (ht : Smp.Trans s.smp c t) (hc : StageOk t c (s.stage c)) : Inv { s with smp := t } where
  smp := h.smp.trans hown ht
  stages d := by
    rcases eq_or_ne d c with rfl | hd
    · exact hc
    · exact (h.stages d).congr (congrFun ht.gsBase d) (ht.pc_of_ne hd) (ht.ret_of_ne hd) ht.hhdm
        fun a hm => ht.mem_owned hm fun e => absurd e hd
  listed := h.listed

theorem Inv.call (h : Inv s) {r : Call} {k : ℕ} {b : U64} (hst : s.stage c = .running k b)
    (hret : RetOther s (c, .mem (.call r))) : Inv { s with smp := s.smp.enter c r } := by
  obtain ⟨hgs, hm, hr⟩ := stageOk_of_eq h hst
  have hothers : ∀ d, d ≠ c → StageOk (s.smp.enter c r) d (s.stage d) := by
    intro d hd
    cases r <;>
      exact (h.stages d).congr rfl (Smp.goto_pc_of_ne _ _ hd) rfl rfl fun _ => id
  have hself : StageOk (s.smp.enter c r) c (.running k b) := by
    cases r with
    | kGetPage | giveRawPage =>
      refine ⟨hgs, hm, ?_⟩
      refine ne_of_eq_of_ne (congrArg Smp.Pc.returns (Smp.goto_pc_self s.smp c _)) ?_
      exact fun e => by cases e
    | retPage ptr =>
      refine ⟨hgs, hm, ?_⟩
      refine ne_of_eq_of_ne (congrArg Smp.Pc.returns (Smp.goto_pc_self s.smp c _)) fun e => ?_
      have he : ptr - s.smp.hhdm = b - s.smp.hhdm := Option.some.inj e
      have he := congrArg (· + s.smp.hhdm) he
      simp only [BitVec.sub_add_cancel] at he
      exact hret.2 (he.trans hgs.symm)
  refine ⟨h.smp.enter ?_, fun d => ?_, h.listed⟩
  · cases r with
    | kGetPage | giveRawPage => trivial
    | retPage ptr => exact hret.1
  · rcases eq_or_ne d c with rfl | hd
    · show StageOk (s.smp.enter d r) d (s.stage d)
      rw [hst]; exact hself
    · exact hothers d hd

theorem Inv.mem (h : Inv s) {a : Smp.Act} (hret : RetOther s (c, .mem a))
    (hserved : Served s (c, .mem a)) (hn : s.mem c a = some s') : Inv s' := by
  unfold State.mem at hn
  cases hst : s.stage c with
  | calling k =>
    rw [hst] at hn
    cases a with
    | call r => cases hn
    | run =>
      obtain ⟨t, ht, rfl⟩ := Option.map_eq_some_iff.mp hn
      have ht := Smp.trans_of_step ht
      have hok : s.smp.fails c = false := hserved.2 (by rw [hst]; rfl)
      obtain ⟨hgs, hin, -⟩ := stageOk_of_eq h hst
      refine h.access hserved.1 ht ?_
      rw [hst]
      exact ⟨(congrFun ht.gsBase c).trans hgs, ht.inKGetPage hin,
        ht.result_owned h.smp hok hin⟩
  | running k b =>
    rw [hst] at hn
    cases a with
    | call r =>
      obtain ⟨t, ht, rfl⟩ := Option.map_eq_some_iff.mp hn
      have ht : (if s.smp.pc c = .idle then some (s.smp.enter c r) else none) = some t := ht
      split_ifs at ht
      cases ht
      exact h.call hst hret
    | run =>
      obtain ⟨t, ht, rfl⟩ := Option.map_eq_some_iff.mp hn
      have ht := Smp.trans_of_step ht
      obtain ⟨hgs, hm, hr⟩ := stageOk_of_eq h hst
      refine h.access hserved.1 ht ?_
      rw [hst]
      refine ⟨(congrFun ht.gsBase c).trans hgs, ?_, ?_⟩
      · rw [ht.hhdm]; exact ht.mem_owned hm fun _ => hr
      · rw [ht.hhdm]; exact ht.returns hr
  | start | claimed | got | filled | based | named | pointed =>
    rw [hst] at hn
    cases a <;> cases hn

/-- **One move.** The invariant is kept. -/
theorem Inv.next {m : ι × Act} {tssForCpus : U64} {lapicId : ι → BitVec 32} (h : Inv s)
    (hret : RetOther s m) (hserved : Served s m) (hn : next tssForCpus lapicId s m = some s') :
    Inv s' := by
  obtain ⟨c, _ | a⟩ := m
  · exact h.went (went_of_entry hn)
  · exact h.mem hret hserved hn

end Keep

/-! ## The words of the blocks -/

/-- The words a CPU has written at its place in `ap_entry`. -/
def WordsOk (tssForCpus : U64) (lapicId : ι → BitVec 32) (s : State ι) (c : ι) : Stage → Prop
  | .named _ b => s.smp.cpuId b = (lapicId c).setWidth 64
  | .pointed _ b | .running _ b => s.smp.cpuId b = (lapicId c).setWidth 64 ∧
      s.tss b = tssPointer tssForCpus ((lapicId c).setWidth 64)
  | _ => True

section Words

variable {tssForCpus : U64} {lapicId : ι → BitVec 32} {s s' : State ι} {c d : ι} {b b' : U64}

theorem Inv.block_owned (h : Inv s) (hb : (s.stage c).block = some b) :
    (c, b - s.smp.hhdm) ∈ s.smp.owned := by
  have hok := h.stages c
  cases hst : s.stage c with
  | start | claimed | calling =>
    rw [hst] at hb
    cases hb
  | got | filled | based | named | pointed =>
    rw [hst] at hb hok
    obtain rfl := Option.some.inj hb
    exact hok.2.2
  | running =>
    rw [hst] at hb hok
    obtain rfl := Option.some.inj hb
    exact hok.2.1

theorem Inv.block_ne (h : Inv s) (hb : (s.stage c).block = some b)
    (hb' : (s.stage d).block = some b') (hcd : c ≠ d) : b ≠ b' := by
  rintro rfl
  have hinj := List.inj_on_of_nodup_map h.smp.nodup (h.block_owned hb) (h.block_owned hb') rfl
  exact hcd (Prod.mk.inj hinj).1

theorem WordsOk.congr {t : State ι} {st : Stage} (h : WordsOk tssForCpus lapicId s c st)
    (hb : ∀ b, st.block = some b → t.smp.cpuId b = s.smp.cpuId b ∧ t.tss b = s.tss b) :
    WordsOk tssForCpus lapicId t c st := by
  cases st with
  | start | claimed | calling | got | filled | based => trivial
  | named k b => exact (hb b rfl).1.trans h
  | pointed k b | running k b => exact ⟨(hb b rfl).1.trans h.1, (hb b rfl).2.trans h.2⟩

variable [DecidableEq ι]

/-- The words after `c` went on at `st` and wrote to its own block `b` at most. -/
theorem words_goto (h : Inv s) (hw : ∀ d, WordsOk tssForCpus lapicId s d (s.stage d)) {t : State ι}
    {st : Stage} (hst : t.stage = s.stage) (hc : WordsOk tssForCpus lapicId t c st)
    (hcb : (s.stage c).block = some b)
    (hother : ∀ b', b' ≠ b → t.smp.cpuId b' = s.smp.cpuId b' ∧ t.tss b' = s.tss b') (d : ι) :
    WordsOk tssForCpus lapicId (t.goto c st) d ((t.goto c st).stage d) := by
  rcases eq_or_ne d c with rfl | hd
  · rw [goto_stage_self]
    exact hc
  · rw [goto_stage_of_ne _ _ hd, hst]
    exact (hw d).congr fun b' hb' => hother b' (h.block_ne hb' hcb hd)

theorem words_went (h : Inv s) (hw : ∀ d, WordsOk tssForCpus lapicId s d (s.stage d))
    (hg : Went tssForCpus lapicId s c s') (d : ι) :
    WordsOk tssForCpus lapicId s' d (s'.stage d) := by
  have hsame : ∀ {t : State ι} {st : Stage}, t.stage = s.stage → t.smp.cpuId = s.smp.cpuId →
      t.tss = s.tss → WordsOk tssForCpus lapicId t c st →
      WordsOk tssForCpus lapicId (t.goto c st) d ((t.goto c st).stage d) := by
    intro t st hst hid htss hc
    rcases eq_or_ne d c with rfl | hd
    · rw [goto_stage_self]
      exact hc
    · rw [goto_stage_of_ne _ _ hd, hst]
      exact (hw d).congr fun b _ => ⟨congrFun hid b, congrFun htss b⟩
  cases hg with
  | claim => exact hsame (t := s.fetchCore) rfl rfl rfl trivial
  | call => exact hsame (t := { s with smp := s.smp.enter c .kGetPage }) rfl rfl rfl trivial
  | back => exact hsame (t := s) rfl rfl rfl trivial
  | @fill k b hst =>
    refine words_goto (t := s.fillBlock b) h hw rfl ?_ (by rw [hst]; rfl) (fun b' hb' => ?_) d
    · trivial
    · exact ⟨Function.update_of_ne hb' .., Function.update_of_ne hb' ..⟩
  | base => exact hsame (t := s.setGsBase c _) rfl rfl rfl trivial
  | name hst =>
    obtain ⟨rfl, -, -⟩ := stageOk_of_eq h hst
    refine words_goto (t := s.writeCpuId c _) h hw rfl ?_ (by rw [hst]; rfl) (fun b' hb' => ?_) d
    · exact Function.update_self ..
    · exact ⟨Function.update_of_ne hb' .., rfl⟩
  | point hst =>
    obtain ⟨rfl, -, -⟩ := stageOk_of_eq h hst
    have hid := hw c
    rw [hst] at hid
    refine words_goto (t := s.writeTss c _) h hw rfl ?_ (by rw [hst]; rfl) (fun b' hb' => ?_) d
    · exact ⟨hid, Function.update_self ..⟩
    · exact ⟨rfl, Function.update_of_ne hb' ..⟩
  | store hst =>
    have hok := hw c
    rw [hst] at hok
    exact hsame (t := s.storePercpu _ _) rfl rfl rfl hok

theorem mem_cpuId {a : Smp.Act} (hn : s.mem c a = some s') :
    ∃ t, s' = { s with smp := t } ∧ t.cpuId = s.smp.cpuId := by
  have hnext : ∃ t, Smp.next s.smp (c, a) = some t ∧ s' = { s with smp := t } := by
    unfold State.mem at hn
    split at hn
    · obtain ⟨t, ht, rfl⟩ := Option.map_eq_some_iff.mp hn
      exact ⟨t, ht, rfl⟩
    · obtain ⟨t, ht, rfl⟩ := Option.map_eq_some_iff.mp hn
      exact ⟨t, ht, rfl⟩
    · cases hn
  obtain ⟨t, ht, rfl⟩ := hnext
  refine ⟨t, rfl, ?_⟩
  cases a with
  | call r =>
    have ht : (if s.smp.pc c = .idle then some (s.smp.enter c r) else none) = some t := ht
    split_ifs at ht
    cases ht
    cases r <;> rfl
  | run => exact (Smp.trans_of_step ht).cpuId

/-- **One move.** Every CPU keeps the words it has written. -/
theorem words_next {m : ι × Act} (h : Inv s)
    (hw : ∀ d, WordsOk tssForCpus lapicId s d (s.stage d))
    (hn : next tssForCpus lapicId s m = some s') (d : ι) :
    WordsOk tssForCpus lapicId s' d (s'.stage d) := by
  obtain ⟨c, _ | a⟩ := m
  · exact words_went h hw (went_of_entry hn) d
  · obtain ⟨t, rfl, ht⟩ := mem_cpuId hn
    exact (hw d).congr fun b _ => ⟨congrFun ht b, rfl⟩

end Words

/-! ## Distinct blocks -/

/-- The boot CPU is up, with its block in `cpu_percpu[0]`; the others are about to start. -/
structure Booted (s : State ι) (bsp : ι) : Prop where
  starts : (s.smp.pages.map Page.start).Nodup
  lock : s.smp.lock = .free
  holder : s.smp.holder = none
  pc : ∀ c, s.smp.pc c = .idle
  nodup : (s.smp.owned.map Prod.snd).Nodup
  used : ∀ c a, (c, a) ∈ s.smp.owned → ⟨a, true⟩ ∈ s.smp.pages
  block : (bsp, s.smp.gsBase bsp - s.smp.hhdm) ∈ s.smp.owned
  stage : s.stage bsp = .running 0 (s.smp.gsBase bsp)
  aps : ∀ c, c ≠ bsp → s.stage c = .start ∧ s.smp.gsBase c = 0
  core : s.core = 0
  listed : s.cpuPercpu = Function.update (fun _ => 0) 0 (s.smp.gsBase bsp)

/-- The installed blocks are pairwise distinct, and each is one outstanding page of its CPU that no
other outstanding page equals. -/
structure BlocksDistinct [DecidableEq ι] (s : State ι) : Prop where
  bases : ∀ c d, s.smp.gsBase c ≠ 0 → s.smp.gsBase c = s.smp.gsBase d → c = d
  outstanding : ∀ c, s.smp.gsBase c ≠ 0 → (c, s.smp.gsBase c - s.smp.hhdm) ∈ s.smp.owned ∧
    ∀ e ∈ s.smp.owned.erase (c, s.smp.gsBase c - s.smp.hhdm), e.2 ≠ s.smp.gsBase c - s.smp.hhdm
  entries : ∀ i j, s.cpuPercpu i ≠ 0 → s.cpuPercpu i = s.cpuPercpu j → i = j
  listed : ∀ i, s.cpuPercpu i ≠ 0 → ∃ c, s.smp.gsBase c = s.cpuPercpu i

theorem Booted.inv {s : State ι} {bsp : ι} (h : Booted s bsp) : Inv s where
  smp := ⟨h.starts, by rw [h.lock, h.holder]; rfl, h.nodup, h.used,
    fun c => by rw [h.pc]; trivial⟩
  stages c := by
    by_cases hc : c = bsp
    · rw [hc, h.stage]
      exact ⟨rfl, h.block, by rw [h.pc]; exact fun e => by cases e⟩
    · obtain ⟨hst, hgs⟩ := h.aps c hc
      rw [hst]
      exact ⟨hgs, h.pc c⟩
  listed i := by
    rw [h.listed]
    rcases eq_or_ne i 0 with rfl | hi
    · exact Or.inr ⟨bsp, by rw [Function.update_self, h.stage]⟩
    · exact Or.inl (Function.update_of_ne hi ..)

theorem Inv.block_mem {s : State ι} (h : Inv s) {c : ι} (hc : s.smp.gsBase c ≠ 0) :
    (c, s.smp.gsBase c - s.smp.hhdm) ∈ s.smp.owned := by
  have hok := h.stages c
  cases hst : s.stage c with
  | start | claimed | calling | got | filled =>
    rw [hst] at hok
    exact absurd hok.1 hc
  | based | named | pointed =>
    rw [hst] at hok
    rw [hok.1]; exact hok.2.2
  | running =>
    rw [hst] at hok
    rw [hok.1]; exact hok.2.1

theorem Inv.blocksDistinct [DecidableEq ι] {s : State ι} (h : Inv s) : BlocksDistinct s := by
  have hinj : ∀ x ∈ s.smp.owned, ∀ y ∈ s.smp.owned, x.2 = y.2 → x = y :=
    List.inj_on_of_nodup_map h.smp.nodup
  have hbases : ∀ c d, s.smp.gsBase c ≠ 0 → s.smp.gsBase c = s.smp.gsBase d → c = d := by
    intro c d hc he
    have hd : s.smp.gsBase d ≠ 0 := he ▸ hc
    exact (Prod.mk.inj (hinj _ (h.block_mem hc) _ (h.block_mem hd) (by rw [he]))).1
  -- an entry that is set is the block of the CPU that wrote it
  have hentry : ∀ i, s.cpuPercpu i ≠ 0 →
      ∃ c, s.stage c = .running i (s.cpuPercpu i) ∧ s.smp.gsBase c = s.cpuPercpu i := by
    intro i hi
    obtain ⟨c, hc⟩ := (h.listed i).resolve_left hi
    exact ⟨c, hc, (stageOk_of_eq h hc).1⟩
  constructor
  · exact hbases
  · intro c hc
    refine ⟨h.block_mem hc, fun e he heq => ?_⟩
    have hm := List.mem_of_mem_erase he
    have := hinj _ hm _ (h.block_mem hc) heq
    exact (h.smp.nodup.of_map _).not_mem_erase (this ▸ he)
  · intro i j hi hij
    obtain ⟨c, hc, hcb⟩ := hentry i hi
    obtain ⟨d, hd, hdb⟩ := hentry j (hij ▸ hi)
    have hcd : c = d := hbases c d (hcb ▸ hi) (by rw [hcb, hdb, hij])
    rw [hcd, hd] at hc
    exact (Stage.running.inj hc).1.symm
  · intro i hi
    obtain ⟨c, -, hc⟩ := hentry i hi
    exact ⟨c, hc⟩

/-- **Distinct per-CPU blocks.** Any number of APs start while every CPU that is up uses the
allocator, in any interleaving. As long as only the CPU that took the lock is let through and
`KGetPage` gives `ap_entry` a page, the installed blocks are pairwise distinct and distinct from
every other outstanding page. -/
theorem blocks_distinct [DecidableEq ι] {tssForCpus : U64} {lapicId : ι → BitVec 32}
    {s₀ s : State ι} {bsp : ι} (h0 : Booted s₀ bsp)
    (hrun : Run (next tssForCpus lapicId) (fun s m => RetOther s m ∧ Served s m) s₀ s) :
    BlocksDistinct s := by
  have h : Inv s := hrun.invariant h0.inv fun _ _ _ hi hok => hi.next hok.1 hok.2
  exact h.blocksDistinct

instance [DecidableEq ι] (s : State ι) (m : ι × Act) : Decidable (RetOther s m) :=
  match m with
  | (c, .mem (.call (.retPage ptr))) =>
    inferInstanceAs (Decidable ((c, ptr - s.smp.hhdm) ∈ s.smp.owned ∧ ptr ≠ s.smp.gsBase c))
  | (_, .mem (.call .kGetPage)) | (_, .mem (.call .giveRawPage)) | (_, .mem .run)
  | (_, .entry) => .isTrue trivial

instance [DecidableEq ι] (s : State ι) (m : ι × Act) : Decidable (Served s m) :=
  match m with
  | (c, .mem .run) => inferInstanceAs (Decidable (s.smp.intrudes c = false ∧
      ((s.stage c).isCalling = true → s.smp.fails c = false)))
  | (_, .mem (.call _)) | (_, .entry) => .isTrue trivial

/-- The boot CPU with the first of three pages as its block, and two APs. -/
def threeCpus : State (Fin 3) where
  smp :=
    { pages := [⟨0x100000, true⟩, ⟨0x101000, false⟩, ⟨0x102000, false⟩]
      lock := .free
      hhdm := 0xFFFF800000000000
      gsBase := ![0xFFFF800000100000, 0, 0]
      cpuId := fun _ => 0
      pc := fun _ => .idle
      ret := fun _ => 0
      owned := [(0, 0x100000)]
      holder := none }
  tss := fun _ => 0
  core := 0
  cpuPercpu := Function.update (fun _ => 0) 0 0xFFFF800000100000
  stage := ![.running 0 0xFFFF800000100000, .start, .start]

theorem threeCpus_booted : Booted threeCpus 0 where
  starts := by decide
  lock := rfl
  holder := rfl
  pc _ := rfl
  nodup := by decide
  used c a hm := by
    obtain ⟨-, rfl⟩ := Prod.mk.inj (List.mem_singleton.mp hm)
    exact List.mem_cons_self
  block := by decide
  stage := rfl
  aps := by decide
  core := rfl
  listed := rfl

/-- The steps of `ap_entry` up to its `KGetPage`, that call, and the steps to `wrmsr`. -/
def start (c : Fin 3) : List (Fin 3 × Act) := [(c, .entry), (c, .entry)]

def accesses (c : Fin 3) (n : ℕ) : List (Fin 3 × Act) := List.replicate n (c, .mem .run)

def install (c : Fin 3) : List (Fin 3 × Act) := List.replicate 3 (c, .entry)

/-- AP 1 through `ap_entry` alone, then AP 2 while AP 1 asks for a page. -/
def oneByOne : List (Fin 3 × Act) :=
  start 1 ++ accesses 1 9 ++ install 1 ++ List.replicate 3 (1, .entry) ++
    start 2 ++ accesses 2 10 ++ [(1, .mem (.call .kGetPage)), (1, .mem .run)] ++ install 2

theorem blocks_distinct_oneByOne :
    ∃ s, exec (next 0xFFFFFFFF80010000 ![0, 1, 2]) (fun s m => RetOther s m ∧ Served s m)
      threeCpus oneByOne = some s ∧
      s.smp.gsBase 1 = 0xFFFF800000101000 ∧ s.smp.gsBase 2 = 0xFFFF800000102000 ∧
      s.cpuPercpu 1 = 0xFFFF800000101000 ∧ BlocksDistinct s := by
  refine ⟨_, rfl, by decide, by decide, by decide, ?_⟩
  have hrun : Run (next 0xFFFFFFFF80010000 ![0, 1, 2]) (fun s m => RetOther s m ∧ Served s m)
      threeCpus _ := Run.of_exec (l := oneByOne) .refl rfl
  exact blocks_distinct threeCpus_booted hrun

/-- Both APs have number `0`: AP 2 is let through while AP 1 is about to mark its page, and marks
the same one. -/
def together : List (Fin 3 × Act) :=
  start 1 ++ accesses 1 5 ++ start 2 ++ accesses 2 3 ++ accesses 1 4 ++ install 1 ++
    accesses 2 4 ++ install 2

theorem same_block_together :
    ¬ ∀ (tssForCpus : U64) (lapicId : Fin 3 → BitVec 32) (s₀ s : State (Fin 3)) (bsp : Fin 3),
      Booted s₀ bsp → Run (next tssForCpus lapicId) RetOther s₀ s → BlocksDistinct s := by
  intro h
  have hrun : Run (next 0xFFFFFFFF80010000 ![0, 1, 2]) RetOther threeCpus _ :=
    Run.of_exec (l := together) .refl rfl
  have hdist := h _ _ _ _ 0 threeCpus_booted hrun
  exact absurd (hdist.bases 1 2 (by decide) (by decide)) (by decide)

end Ap

end DejOs
