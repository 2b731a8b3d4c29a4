import DejOs.Base
import DejOs.Lib.Interleaving

/-!
# Loading the task register

`tss_init` of `tss.c`, run by any number of CPUs. All of them write the descriptor of their TSS into
the one slot of the shared GDT, quadword by quadword, and load it with `ltr`, which marks it busy
and faults if it is busy already.

The descriptor decodes to the address it was made from (`descBase_desc`). A CPU loads its own when
nobody else writes the slot between its first write and its `ltr`; `Alone` is this condition, and
`ltr_loads_own` says that it is enough.

What `write_tss_descriptor` writes into the TSS itself is the CPU's own and does not appear here.
-/

namespace DejOs

open Interleaving

/-! ## The descriptor -/

/-- `limit`: `sizeof(tss_entry_t) - 1` -/
def tssLimit : BitVec 32 := 103

/-- `desc_low` -/
def descLow (base : U64) : U64 :=
  (0 : U64) ||| (tssLimit &&& 0xFFFF).setWidth 64
    ||| (base &&& 0xFFFF) <<< 16
    ||| ((base >>> 16) &&& 0xFF) <<< 32
    ||| (0x89 : U64) <<< 40
    ||| ((tssLimit >>> 16) &&& 0x0F).setWidth 64 <<< 48
    ||| ((base >>> 24) &&& 0xFF) <<< 56

/-- `desc_high` -/
def descHigh (base : U64) : U64 := base >>> 32

/-- The base address the processor reads from the two quadwords of a system descriptor. -/
def descBase (low high : U64) : U64 :=
  ((low >>> 16) &&& 0xFFFFFF) ||| ((low >>> 56) &&& 0xFF) <<< 24 ||| (high &&& 0xFFFFFFFF) <<< 32

/-- The attribute byte. -/
def descAttr (low : U64) : U64 := (low >>> 40) &&& 0xFF

/-- A present 64-bit TSS that is not busy. -/
def available (low : U64) : Bool := descAttr low &&& 0x9F == 0x89

/-- The busy bit, bit 1 of the type. -/
def descBusy : U64 := (1 : U64) <<< 41

theorem descLow_toNat (base : U64) : (descLow base).toNat =
    103 + base.toNat % 2 ^ 16 * 2 ^ 16 + base.toNat / 2 ^ 16 % 2 ^ 8 * 2 ^ 32 + 0x89 * 2 ^ 40 +
      base.toNat / 2 ^ 24 % 2 ^ 8 * 2 ^ 56 := by
  have h₀ : ((0 : U64) ||| (tssLimit &&& 0xFFFF).setWidth 64).toNat = 103 := rfl
  have b₁ : (base &&& 0xFFFF).toNat = base.toNat % 2 ^ 16 := by
    rw [BitVec.toNat_and]
    exact Nat.and_two_pow_sub_one_eq_mod base.toNat 16
  have b₂ : ((base >>> 16) &&& 0xFF).toNat = base.toNat / 2 ^ 16 % 2 ^ 8 :=
    toNat_field base 16 8 (by decide)
  have b₃ : ((base >>> 24) &&& 0xFF).toNat = base.toNat / 2 ^ 24 % 2 ^ 8 :=
    toNat_field base 24 8 (by decide)
  have b₄ : (0x89 : U64).toNat = 0x89 := rfl
  have b₅ : (((tssLimit >>> 16) &&& 0x0F).setWidth 64 : U64).toNat = 0 := rfl
  have h₁ := toNat_or_shiftLeft (k := 16) (h₀.trans_lt (by decide)) (b := base &&& 0xFFFF)
    (by omega)
  rw [h₀, b₁] at h₁
  have h₂ := toNat_or_shiftLeft (k := 32) (h₁.trans_lt (by omega)) (b := (base >>> 16) &&& 0xFF)
    (by omega)
  rw [h₁, b₂] at h₂
  have h₃ := toNat_or_shiftLeft (k := 40) (h₂.trans_lt (by omega)) (b := 0x89) (by omega)
  rw [h₂, b₄] at h₃
  have h₄ := toNat_or_shiftLeft (k := 48) (h₃.trans_lt (by omega))
    (b := ((tssLimit >>> 16) &&& 0x0F).setWidth 64) (by omega)
  rw [h₃, b₅] at h₄
  have h₅ := toNat_or_shiftLeft (k := 56) (h₄.trans_lt (by omega)) (b := (base >>> 24) &&& 0xFF)
    (by omega)
  rw [h₄, b₃] at h₅
  exact h₅

theorem descLow_fields (base : U64) :
    ((descLow base >>> 16) &&& 0xFFFFFF).toNat = base.toNat % 2 ^ 24 ∧
      ((descLow base >>> 56) &&& 0xFF).toNat = base.toNat / 2 ^ 24 % 2 ^ 8 ∧
      (descAttr (descLow base)).toNat = 0x89 := by
  have h₁ : ((descLow base >>> 16) &&& 0xFFFFFF).toNat = (descLow base).toNat / 2 ^ 16 % 2 ^ 24 :=
    toNat_field (descLow base) 16 24 (by decide)
  have h₂ : ((descLow base >>> 56) &&& 0xFF).toNat = (descLow base).toNat / 2 ^ 56 % 2 ^ 8 :=
    toNat_field (descLow base) 56 8 (by decide)
  have h₃ : (descAttr (descLow base)).toNat = (descLow base).toNat / 2 ^ 40 % 2 ^ 8 :=
    toNat_field (descLow base) 40 8 (by decide)
  have hsplit : base.toNat % 2 ^ 24 =
      base.toNat % 2 ^ 16 + base.toNat / 2 ^ 16 % 2 ^ 8 * 2 ^ 16 := by omega
  rw [h₁, h₂, h₃, descLow_toNat, hsplit]
  have hp : base.toNat % 2 ^ 16 < 2 ^ 16 := Nat.mod_lt _ (by decide)
  have hq : base.toNat / 2 ^ 16 % 2 ^ 8 < 2 ^ 8 := Nat.mod_lt _ (by decide)
  have hr : base.toNat / 2 ^ 24 % 2 ^ 8 < 2 ^ 8 := Nat.mod_lt _ (by decide)
  generalize base.toNat % 2 ^ 16 = p at hp ⊢
  generalize base.toNat / 2 ^ 16 % 2 ^ 8 = q at hq ⊢
  generalize base.toNat / 2 ^ 24 % 2 ^ 8 = r at hr ⊢
  omega

/-- **The descriptor of an address decodes to the address.** -/
theorem descBase_desc (base : U64) : descBase (descLow base) (descHigh base) = base := by
  obtain ⟨b₁, b₂, -⟩ := descLow_fields base
  have b₃ : (descHigh base &&& 0xFFFFFFFF).toNat = base.toNat / 2 ^ 32 % 2 ^ 32 :=
    toNat_field base 32 32 (by decide)
  have h₁ := toNat_or_shiftLeft (k := 24) (b₁.trans_lt (by omega))
    (b := (descLow base >>> 56) &&& 0xFF) (by omega)
  rw [b₁, b₂] at h₁
  have h₂ := toNat_or_shiftLeft (k := 32) (h₁.trans_lt (by omega))
    (b := descHigh base &&& 0xFFFFFFFF) (by omega)
  rw [h₁, b₃] at h₂
  have hlt := base.isLt
  exact BitVec.eq_of_toNat_eq (h₂.trans (by omega))

theorem available_desc (base : U64) : available (descLow base) = true := by
  have hattr : descAttr (descLow base) = 0x89 := BitVec.eq_of_toNat_eq (descLow_fields base).2.2
  unfold available
  rw [hattr]
  rfl

/-! ## The steps -/

namespace Tss

/-- Where a CPU is in `tss_init`. -/
inductive Pc
  /-- `percpu_readptr(tss)` -/
  | start
  /-- `__tss_descriptor_ptr[0] = desc_low` -/
  | low
  /-- `__tss_descriptor_ptr[1] = desc_high` -/
  | high
  /-- `ltr` -/
  | ltr
  /-- Done; the task register has this base. -/
  | loaded (base : U64)
  /-- `ltr` found no available TSS. -/
  | fault
  /-- `cpu_stop`, on a `NULL` pointer -/
  | stopped
  deriving DecidableEq, Repr

/-- The slot of the GDT and the CPUs. -/
structure State (ι : Type) where
  low : U64
  high : U64
  pc : ι → Pc

variable {ι : Type}

/-- The slot is zero in `gdt.S`. -/
def init : State ι := ⟨0, 0, fun _ => .start⟩

section

variable [DecidableEq ι]

def State.goto (s : State ι) (c : ι) (pc : Pc) : State ι :=
  { s with pc := Function.update s.pc c pc }

/-- The next step of `tss_init` on CPU `c`, whose `tss` pointer is `tss c`. -/
def next (tss : ι → U64) (s : State ι) (c : ι) : Option (State ι) :=
  match s.pc c with
  | .start => some (s.goto c (if tss c = 0 then .stopped else .low))
  | .low => some { s.goto c .high with low := descLow (tss c) }
  | .high => some { s.goto c .ltr with high := descHigh (tss c) }
  | .ltr =>
    if available s.low then
      some { s.goto c (.loaded (descBase s.low s.high)) with low := s.low ||| descBusy }
    else some (s.goto c .fault)
  | .loaded _ | .fault | .stopped => none

end

/-- Between its first write and its `ltr`. -/
def Pc.writing : Pc → Bool
  | .high | .ltr => true
  | _ => false

/-- A CPU begins to write only when no other is between its first write and its `ltr`. -/
def Alone (s : State ι) (c : ι) : Prop := s.pc c = .low → ∀ d, (s.pc d).writing = false

instance [Fintype ι] (s : State ι) (c : ι) : Decidable (Alone s c) :=
  inferInstanceAs (Decidable (_ → _))

/-! ## The invariant -/

/-- What the slot holds for a CPU at its place. -/
def PcOk (tss : ι → U64) (s : State ι) (c : ι) : Pc → Prop
  | .high => s.low = descLow (tss c)
  | .ltr => s.low = descLow (tss c) ∧ s.high = descHigh (tss c)
  | .loaded b => b = tss c
  | .fault => False
  | .start | .low | .stopped => True

structure Inv (tss : ι → U64) (s : State ι) : Prop where
  one : ∀ c d, (s.pc c).writing = true → (s.pc d).writing = true → c = d
  pcs : ∀ c, PcOk tss s c (s.pc c)

section Keep

variable {tss : ι → U64} {s s' : State ι} {c : ι}

/-- A CPU that is not writing does not look at the slot. -/
theorem PcOk.of_not_writing {pc : Pc} (h : PcOk tss s c pc) (hw : pc.writing = false) :
    PcOk tss s' c pc := by
  cases pc with
  | high | ltr => cases hw
  | loaded | fault | start | low | stopped => exact h

/-- A step of `c` that the others do not see. -/
theorem Inv.of_others (h : Inv tss s) (hpc : ∀ d, d ≠ c → s'.pc d = s.pc d)
    (hother : ∀ d, d ≠ c → (s.pc d).writing = true → (s'.pc c).writing = false ∧
      s'.low = s.low ∧ s'.high = s.high)
    (hc : PcOk tss s' c (s'.pc c)) : Inv tss s' := by
  constructor
  · intro d e hd he
    rcases eq_or_ne d c with rfl | hdc <;> rcases eq_or_ne e d with rfl | hed
    · rfl
    · rw [hpc e hed] at he
      rw [(hother e hed he).1] at hd
      cases hd
    · rfl
    · rw [hpc d hdc] at hd
      rcases eq_or_ne e c with rfl | hec
      · rw [(hother d hdc hd).1] at he
        cases he
      · rw [hpc e hec] at he
        exact h.one d e hd he
  · intro d
    rcases eq_or_ne d c with rfl | hdc
    · exact hc
    · rw [hpc d hdc]
      cases hw : (s.pc d).writing with
      | false => exact (h.pcs d).of_not_writing hw
      | true =>
        obtain ⟨-, hlow, hhigh⟩ := hother d hdc hw
        have hok := h.pcs d
        cases hpd : s.pc d with
        | high =>
          rw [hpd] at hok
          exact hlow.trans hok
        | ltr =>
          rw [hpd] at hok
          exact ⟨hlow.trans hok.1, hhigh.trans hok.2⟩
        | start | low | loaded | fault | stopped =>
          rw [hpd] at hw
          cases hw

theorem Inv.not_writing (h : Inv tss s) (hc : (s.pc c).writing = true) (d : ι) (hd : d ≠ c) :
    (s.pc d).writing = false := by
  cases hw : (s.pc d).writing with
  | false => rfl
  | true => exact absurd (h.one d c hw hc) hd

variable [DecidableEq ι]

@[simp] theorem goto_pc_self (s : State ι) (c : ι) (pc : Pc) : (s.goto c pc).pc c = pc :=
  Function.update_self ..

theorem goto_pc_of_ne (s : State ι) {c d : ι} (pc : Pc) (h : d ≠ c) :
    (s.goto c pc).pc d = s.pc d := Function.update_of_ne h ..

/-- A step of `c` on the slot while nobody else is writing. -/
theorem Inv.own (h : Inv tss s) (hno : ∀ d, d ≠ c → (s.pc d).writing = false) {pc : Pc}
    {low high : U64} (hok : PcOk tss ⟨low, high, (s.goto c pc).pc⟩ c pc) :
    Inv tss ⟨low, high, (s.goto c pc).pc⟩ := by
  refine h.of_others (fun d hd => goto_pc_of_ne _ _ hd) (fun d hd hw => ?_) ?_
  · rw [hno d hd] at hw
    cases hw
  · rw [goto_pc_self]
    exact hok

theorem Inv.step (h : Inv tss s) (halone : Alone s c) (hn : next tss s c = some s') :
    Inv tss s' := by
  have hok := h.pcs c
  unfold next at hn
  split at hn <;> rename_i hpc <;> rw [hpc] at hok
  · cases hn
    refine h.of_others (fun d hd => goto_pc_of_ne _ _ hd) (fun d hd _ => ⟨?_, rfl, rfl⟩) ?_
    all_goals
      rw [goto_pc_self]
      split
    · rfl
    · rfl
    · trivial
    · trivial
  · cases hn
    exact h.own (fun d _ => halone hpc d) rfl
  · cases hn
    exact h.own (h.not_writing (by rw [hpc]; rfl)) ⟨hok, rfl⟩
  · obtain ⟨hlow, hhigh⟩ := hok
    rw [hlow, if_pos (available_desc _), hhigh, descBase_desc] at hn
    cases hn
    exact h.own (h.not_writing (by rw [hpc]; rfl)) rfl
  · cases hn
  · cases hn
  · cases hn

end Keep

/-- **Loading the task register.** In every run in which a CPU begins to write the descriptor only
when no other CPU is between its own first write and its `ltr`, no `ltr` faults and every CPU loads
its own TSS. -/
theorem ltr_loads_own [DecidableEq ι] {tss : ι → U64} {s : State ι}
    (h : Run (next tss) Alone init s) (c : ι) :
    s.pc c ≠ .fault ∧ ∀ base, s.pc c = .loaded base → base = tss c := by
  have hinit : Inv tss (init : State ι) := ⟨fun c d hc => (nomatch hc), fun c => trivial⟩
  have hok := (h.invariant hinit fun s c s' hs ha hn => hs.step ha hn).pcs c
  refine ⟨fun e => ?_, fun base e => ?_⟩ <;>
    rw [e] at hok <;> exact hok

theorem ltr_loads_own_oneByOne : ∃ s : State (Fin 2),
    Run (next ![0x10000, 0x14070]) Alone init s ∧ s.pc 0 = .loaded 0x10000 ∧
      s.pc 1 = .loaded 0x14070 ∧ ∀ c, s.pc c ≠ .fault := by
  have hrun : ∃ s, exec (next ![0x10000, 0x14070]) Alone init [0, 0, 0, 0, 1, 1, 1, 1] = some s ∧
      s.pc 0 = .loaded 0x10000 ∧ s.pc 1 = .loaded 0x14070 := ⟨_, rfl, by decide, by decide⟩
  obtain ⟨s, hs, h0, h1⟩ := hrun
  have hr := Run.of_exec .refl hs
  exact ⟨s, hr, h0, h1, fun c => (ltr_loads_own hr c).1⟩

/-- Two CPUs together: the first loads the TSS of the second, and the second faults. -/
theorem ltr_together :
    ¬ ∀ (ι : Type) (_ : DecidableEq ι) (tss : ι → U64) (s : State ι),
      Function.Injective tss → (∀ c, tss c ≠ 0) → Run (next tss) Free init s →
      ∀ c, s.pc c ≠ .fault ∧ ∀ base, s.pc c = .loaded base → base = tss c := by
  intro hall
  have hrun : ∃ s : State (Fin 2), exec (next ![0x10000, 0x14070]) Free init
      [0, 1, 0, 1, 0, 1, 0, 1] = some s ∧ s.pc 1 = .fault := ⟨_, rfl, by decide⟩
  obtain ⟨s, hs, h1⟩ := hrun
  have hinj : Function.Injective (![0x10000, 0x14070] : Fin 2 → U64) := by decide
  exact (hall _ _ _ s hinj (by decide) (Run.of_exec .refl hs) 1).1 h1

end Tss

end DejOs
