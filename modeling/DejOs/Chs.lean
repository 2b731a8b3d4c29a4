import DejOs.Lib.RealMode

/-!
# From a sector number to cylinder, head and sector

`lba_to_chs` is written twice, in `boot.asm` of stage 1 and in `main.asm` of stage 2. Both divide by
the geometry in the boot sector and pack the cylinder and the sector into `cx`. In stage 1 the
result decodes to the address of the sector (`lbaToChs_decodes`). Stage 2 clears `ax` to load `fs`,
and `ax` is the sector number it is called with (`lbaToChs_agree_iff`).
-/

namespace DejOs

open RealMode

/-! ## The code -/

/-- `bdb_sectors_per_track` of the boot sector, which is at `0x7C00`. -/
def bdbSectorsPerTrack : Word := 0x7C18

/-- `bdb_heads` -/
def bdbHeads : Word := 0x7C1A

/-- The lines that both have: the two divisions by the words at these offsets, and the packing. -/
def chsDivisions (g : Seg) (sectorsPerTrack heads : Word) : List Instr :=
  [.alu .xor .dx (.place (.reg .dx)),
    .div (.place (.mem g none sectorsPerTrack)),
    .inc .dx,
    .mov (.reg .cx) (.place (.reg .dx)),
    .alu .xor .dx (.place (.reg .dx)),
    .div (.place (.mem g none heads)),
    .mov8 .dh (.reg .dl),
    .mov8 .ch (.reg .al),
    .shl8 .ah 6,
    .or8 .cl (.reg .ah)]

/-- `lba_to_chs` of stage 1 -/
def Stage1.lbaToChs : List Instr :=
  [.push (.place (.reg .ax)),
    .push (.place (.reg .dx))] ++
  (chsDivisions .ds bdbSectorsPerTrack bdbHeads ++
  [.pop (.reg .ax),
    .mov8 .dl (.reg .al),
    .pop (.reg .ax)])

/-- `lba_to_chs` of stage 2, which has the offsets of the two words as the numbers they are. -/
def Stage2.lbaToChs : List Instr :=
  [.push (.place (.reg .ax)),
    .push (.place (.seg .ds)),
    .alu .xor .ax (.place (.reg .ax)),
    .mov (.seg .fs) (.place (.reg .ax))] ++
  (chsDivisions .fs bdbSectorsPerTrack bdbHeads ++
  [.pop (.seg .ds),
    .pop (.reg .ax)])

/-! ## What the blocks compute -/

/-- The word that is left in `cx` for the sector `lba`. -/
def chsWord (lba spt heads : Word) : Word :=
  lo (lba / spt / heads) ++ (lo (lba % spt + 1) ||| hi (lba / spt / heads) <<< 6)

/-- The byte that is left in `dh`. -/
def chsHead (lba spt heads : Word) : BitVec 8 := lo (lba / spt % heads)

section Runs

variable {s : Cpu} {spt heads : Word}

theorem run_chsDivisions {g : Seg} {o₁ o₂ : Word} (hs : loadWord s.mem (s.seg g) o₁ = spt)
    (hh : loadWord s.mem (s.seg g) o₂ = heads) (hs0 : spt ≠ 0#16) (hh0 : heads ≠ 0#16) :
    ∃ ax zf, run (chsDivisions g o₁ o₂) s = some ({ s with
      ax := ax, cx := chsWord s.ax spt heads,
      dx := chsHead s.ax spt heads ++ chsHead s.ax spt heads }.flags zf false) := by
  refine ⟨hi (s.ax / spt / heads) <<< 6 ++ lo (s.ax / spt / heads),
    decide (lo (s.ax % spt + 1) ||| hi (s.ax / spt / heads) <<< 6 = 0), ?_⟩
  cases g <;>
  · simp only [Cpu.seg] at hs hh
    simp [chsDivisions, hs, hh, hs0, hh0, chsWord, chsHead]

/-- Stage 1 keeps everything but `cx`, `dh` and the flags. -/
theorem Stage1.run_lbaToChs (hs : loadWord s.mem s.ds bdbSectorsPerTrack = spt)
    (hh : loadWord s.mem s.ds bdbHeads = heads) (hs0 : spt ≠ 0#16) (hh0 : heads ≠ 0#16) :
    ∃ zf, run Stage1.lbaToChs s = some ({ s with
      cx := chsWord s.ax spt heads, dx := chsHead s.ax spt heads ++ lo s.dx }.flags zf false) := by
  obtain ⟨ax, zf, hrun⟩ := run_chsDivisions (g := .ds)
    (s := { s with stack := s.dx :: s.ax :: s.stack }) hs hh hs0 hh0
  refine ⟨zf, ?_⟩
  simp [Stage1.lbaToChs, run_append, hrun]

/-- Stage 2 finds the place of sector 0, whatever `ax` is. -/
theorem Stage2.run_lbaToChs (hs : loadWord s.mem 0#16 bdbSectorsPerTrack = spt)
    (hh : loadWord s.mem 0#16 bdbHeads = heads) (hs0 : spt ≠ 0#16) (hh0 : heads ≠ 0#16) :
    ∃ zf, run Stage2.lbaToChs s = some ({ s with
      fs := 0#16, cx := chsWord 0#16 spt heads,
      dx := chsHead 0#16 spt heads ++ chsHead 0#16 spt heads }.flags zf false) := by
  obtain ⟨ax, zf, hrun⟩ := run_chsDivisions (g := .fs) (s := { s with
    stack := s.ds :: s.ax :: s.stack, ax := 0#16, fs := 0#16, zf := true, cf := false })
    hs hh hs0 hh0
  refine ⟨zf, ?_⟩
  simp [Stage2.lbaToChs, run_append, hrun]

end Runs

/-! ## The address of a sector -/

/-- A place on a disk. -/
structure Chs where
  cylinder : ℕ
  head : ℕ
  sector : ℕ
  deriving DecidableEq, Repr

/-- The place of sector number `lba`. -/
structure Chs.Addresses (p : Chs) (spt heads lba : ℕ) : Prop where
  lba : (p.cylinder * heads + p.head) * spt + p.sector - 1 = lba
  sector_pos : 1 ≤ p.sector
  sector_le : p.sector ≤ spt
  head_lt : p.head < heads

/-- The place that the BIOS takes from `cx` and `dh`. -/
def Chs.decode (cx : Word) (dh : BitVec 8) : Chs where
  cylinder := ((hi cx).setWidth 16 ||| (lo cx &&& 0xC0).setWidth 16 <<< 2).toNat
  head := dh.toNat
  sector := (lo cx &&& 0x3F).toNat

section Arithmetic

variable {spt heads lba : ℕ}

theorem Chs.addresses_div (hs : 0 < spt) (hh : 0 < heads) :
    (⟨lba / spt / heads, lba / spt % heads, lba % spt + 1⟩ : Chs).Addresses spt heads lba where
  lba := by
    have hrow : lba / spt / heads * heads + lba / spt % heads = lba / spt := Nat.div_add_mod' ..
    have hall : lba / spt * spt + lba % spt = lba := Nat.div_add_mod' ..
    simp only [hrow]
    omega
  sector_pos := Nat.succ_pos _
  sector_le := Nat.mod_lt _ hs
  head_lt := Nat.mod_lt _ hh

theorem Chs.Addresses.unique {p : Chs} (h : p.Addresses spt heads lba) :
    p = ⟨lba / spt / heads, lba / spt % heads, lba % spt + 1⟩ := by
  obtain ⟨c, k, s⟩ := p
  obtain ⟨hlba, hpos, hle, hlt⟩ := h
  simp only at hlba hpos hle hlt
  have hsum : lba = s - 1 + (c * heads + k) * spt := by omega
  have hrow : lba / spt = k + c * heads := by
    rw [hsum, Nat.add_mul_div_right _ _ (by omega), Nat.div_eq_of_lt (by omega)]
    omega
  have hsector : lba % spt = s - 1 := by
    rw [hsum, Nat.add_mul_mod_self_right, Nat.mod_eq_of_lt (by omega)]
  have hcyl : lba / spt / heads = c := by
    rw [hrow, Nat.add_mul_div_right _ _ (by omega), Nat.div_eq_of_lt hlt, Nat.zero_add]
  have hhead : lba / spt % heads = k := by
    rw [hrow, Nat.add_mul_mod_self_right, Nat.mod_eq_of_lt hlt]
  rw [Chs.mk.injEq, hcyl, hhead, hsector]
  exact ⟨rfl, rfl, by omega⟩

end Arithmetic

/-! ## Packing -/

section Packing

variable {lba spt heads : Word}

/-- The two high bits of the cylinder above the sector. -/
theorem toNat_or_shl (a b : BitVec 8) (ha : a.toNat < 64) :
    (a ||| b <<< 6).toNat = a.toNat + 64 * (b.toNat % 4) := by
  have hshift : b.toNat * 2 ^ 6 % 2 ^ 8 = (b.toNat % 4) <<< 6 := by
    rw [Nat.shiftLeft_eq]
    omega
  rw [BitVec.toNat_or, BitVec.toNat_shiftLeft, Nat.shiftLeft_eq, hshift, Nat.or_comm,
    ← Nat.shiftLeft_add_eq_or_of_lt ha, Nat.shiftLeft_eq]
  omega

theorem toNat_and_3F (b : BitVec 8) : (b &&& 0x3F).toNat = b.toNat % 64 := by
  rw [BitVec.toNat_and]
  exact Nat.and_two_pow_sub_one_eq_mod b.toNat 6

theorem toNat_and_C0 : ∀ b : BitVec 8, (b &&& 0xC0).toNat = b.toNat / 64 * 64 := by decide

theorem decode_cylinder (a b : BitVec 8) :
    (a.setWidth 16 ||| (b &&& 0xC0).setWidth 16 <<< 2 : Word).toNat =
      a.toNat + 256 * (b.toNat / 64) := by
  have hb := b.isLt
  have hhigh : b.toNat / 64 * 64 * 2 ^ 2 % 2 ^ 16 = (b.toNat / 64) <<< 8 := by
    rw [Nat.shiftLeft_eq]
    omega
  rw [BitVec.toNat_or, BitVec.toNat_shiftLeft, BitVec.toNat_setWidth_of_le (by decide),
    BitVec.toNat_setWidth_of_le (by decide), toNat_and_C0, Nat.shiftLeft_eq, hhigh, Nat.or_comm,
    ← Nat.shiftLeft_add_eq_or_of_lt a.isLt, Nat.shiftLeft_eq]
  omega

theorem toNat_sector (hs0 : 0 < spt.toNat) :
    (lba % spt + 1).toNat = lba.toNat % spt.toNat + 1 := by
  have hlt := Nat.mod_lt lba.toNat hs0
  have hspt := spt.isLt
  rw [BitVec.toNat_add, BitVec.toNat_umod]
  show (_ + 1) % 2 ^ 16 = _
  omega

/-- **What is packed is unpacked.** -/
theorem decode_chsWord (hs0 : 0 < spt.toNat) (hs : spt.toNat ≤ 63) (hh0 : 0 < heads.toNat)
    (hh : heads.toNat ≤ 256) (hc : lba.toNat / spt.toNat / heads.toNat < 1024) :
    Chs.decode (chsWord lba spt heads) (chsHead lba spt heads) =
      ⟨lba.toNat / spt.toNat / heads.toNat, lba.toNat / spt.toNat % heads.toNat,
        lba.toNat % spt.toNat + 1⟩ := by
  have hsector : (lba % spt + 1).toNat = lba.toNat % spt.toNat + 1 := toNat_sector hs0
  have hmod := Nat.mod_lt lba.toNat hs0
  have hhead := Nat.mod_lt (lba.toNat / spt.toNat) hh0
  have hcyl : (lba / spt / heads).toNat = lba.toNat / spt.toNat / heads.toNat := by
    rw [BitVec.toNat_udiv, BitVec.toNat_udiv]
  have hcl : (lo (lba % spt + 1) ||| hi (lba / spt / heads) <<< 6).toNat =
      lba.toNat % spt.toNat + 1 + 64 * (lba.toNat / spt.toNat / heads.toNat / 256) := by
    rw [toNat_or_shl _ _ (by rw [toNat_lo]; omega), toNat_lo, toNat_hi, hsector, hcyl]
    omega
  unfold Chs.decode chsWord chsHead
  rw [hi_append, lo_append, decode_cylinder, toNat_and_3F, hcl, toNat_lo, toNat_lo, hcyl,
    BitVec.toNat_umod, BitVec.toNat_udiv, Chs.mk.injEq]
  refine ⟨by omega, by omega, by omega⟩

end Packing

/-- **`lba_to_chs` of stage 1.** For every sector number and every geometry with at most 63 sectors
and 256 heads on which its cylinder is below 1024: no division fails, `ax` and `dl` are kept, and
`cx` and `dh` decode to the one place that the sector number stands for. -/
theorem lbaToChs_decodes (s : Cpu) {spt heads : Word}
    (hspt : loadWord s.mem s.ds bdbSectorsPerTrack = spt)
    (hheads : loadWord s.mem s.ds bdbHeads = heads) (hs0 : 1 ≤ spt.toNat) (hs : spt.toNat ≤ 63)
    (hh0 : 1 ≤ heads.toNat) (hh : heads.toNat ≤ 256)
    (hc : s.ax.toNat / spt.toNat / heads.toNat < 1024) :
    ∃ t, run Stage1.lbaToChs s = some t ∧ t.ax = s.ax ∧ t.reg8 .dl = s.reg8 .dl ∧
      (Chs.decode t.cx (t.reg8 .dh)).Addresses spt.toNat heads.toNat s.ax.toNat ∧
      ∀ p : Chs, p.Addresses spt.toNat heads.toNat s.ax.toNat →
        p = Chs.decode t.cx (t.reg8 .dh) := by
  have hs1 : spt ≠ 0#16 := by
    rintro rfl
    exact absurd hs0 (by decide)
  have hh1 : heads ≠ 0#16 := by
    rintro rfl
    exact absurd hh0 (by decide)
  obtain ⟨zf, hrun⟩ := Stage1.run_lbaToChs hspt hheads hs1 hh1
  have hdecode := decode_chsWord hs0 hs hh0 hh hc
  refine ⟨_, hrun, rfl, lo_append _ _, ?_⟩
  simp only [Cpu.flags, Cpu.reg8, hi_append, hdecode]
  exact ⟨Chs.addresses_div hs0 hh0, fun p hp => hp.unique⟩

/-- The geometry of a floppy in a boot sector that is zero otherwise, and a sector number. -/
def lbaCpu (lba : Word) : Cpu :=
  ⟨lba, 0, 0, 0, 0, 0, 0, 0, 0, 0, false, false, [],
    fun a => if a = 0x7C18 then 18 else if a = 0x7C1A then 2 else 0⟩

theorem lbaToChs_decodes_floppy : ∃ t, run Stage1.lbaToChs (lbaCpu 2879) = some t ∧
    Chs.decode t.cx (t.reg8 .dh) = ⟨79, 1, 18⟩ := by
  have hspt : loadWord (lbaCpu 2879).mem (lbaCpu 2879).ds bdbSectorsPerTrack = 18 := by decide
  have hheads : loadWord (lbaCpu 2879).mem (lbaCpu 2879).ds bdbHeads = 2 := by decide
  obtain ⟨t, hrun, -, -, -, hall⟩ := lbaToChs_decodes (lbaCpu 2879) hspt hheads (by decide)
    (by decide) (by decide) (by decide) (by decide)
  exact ⟨t, hrun, (hall ⟨79, 1, 18⟩ ⟨by decide, by decide, by decide, by decide⟩).symm⟩

/-! ## The two versions -/

section ChsAgree

variable {lba spt heads : Word}

theorem chsWord_zero : chsWord 0#16 spt heads = 1#16 := by
  unfold chsWord
  rw [BitVec.zero_udiv, BitVec.zero_udiv, BitVec.zero_umod]
  decide

theorem chsHead_zero : chsHead 0#16 spt heads = 0#8 := by
  unfold chsHead
  rw [BitVec.zero_udiv, BitVec.zero_umod]
  decide

theorem or_sixtyfour_eq_one : ∀ (k : Fin 4) (a : BitVec 8),
    a ||| BitVec.ofNat 8 (64 * k) = 1 ↔ a = 1 ∧ k = 0 := by decide

/-- The low byte is 1 for sector 1 with nothing above it. -/
theorem or_shl_eq_one (a b : BitVec 8) :
    a ||| b <<< 6 = 1 ↔ a.toNat = 1 ∧ b.toNat % 4 = 0 := by
  have hshift : b <<< 6 = BitVec.ofNat 8 (64 * (b.toNat % 4)) := by
    apply BitVec.eq_of_toNat_eq
    rw [BitVec.toNat_shiftLeft, BitVec.toNat_ofNat, Nat.shiftLeft_eq]
    omega
  rw [hshift, or_sixtyfour_eq_one ⟨b.toNat % 4, Nat.mod_lt _ (by decide)⟩ a, Fin.ext_iff,
    BitVec.toNat_eq]
  rfl

/-- The sectors for which stage 1 leaves in `cx` what it leaves for sector 0. -/
theorem chsWord_eq_one_iff (hs0 : 0 < spt.toNat) : chsWord lba spt heads = 1#16 ↔
    lba.toNat % spt.toNat % 256 = 0 ∧ lba.toNat / spt.toNat / heads.toNat % 1024 = 0 := by
  have hcyl : (lba / spt / heads).toNat = lba.toNat / spt.toNat / heads.toNat := by
    rw [BitVec.toNat_udiv, BitVec.toNat_udiv]
  have hhalves : chsWord lba spt heads = 1#16 ↔ lo (lba / spt / heads) = 0 ∧
      (lo (lba % spt + 1) ||| hi (lba / spt / heads) <<< 6) = 1 := by
    constructor
    · intro h
      have hhi := congrArg hi h
      have hlo := congrArg lo h
      unfold chsWord at hhi hlo
      rw [hi_append] at hhi
      rw [lo_append] at hlo
      exact ⟨hhi, hlo⟩
    · rintro ⟨hhi, hlo⟩
      unfold chsWord
      rw [hhi, hlo]
      decide
  rw [hhalves, or_shl_eq_one, toNat_lo, toNat_hi, toNat_sector hs0, BitVec.toNat_eq, toNat_lo, hcyl]
  show _ = 0 ∧ _ ↔ _
  omega

theorem chsHead_eq_zero_iff : chsHead lba spt heads = 0#8 ↔
    lba.toNat / spt.toNat % heads.toNat % 256 = 0 := by
  unfold chsHead
  rw [BitVec.toNat_eq, toNat_lo, BitVec.toNat_umod, BitVec.toNat_udiv]
  rfl

end ChsAgree

/-- Both return, with the same word in `cx` and the same head in `dh`. -/
def ChsAgree (s₁ s₂ : Cpu) : Prop :=
  ∃ t₁ t₂, run Stage1.lbaToChs s₁ = some t₁ ∧ run Stage2.lbaToChs s₂ = some t₂ ∧
    t₂.cx = t₁.cx ∧ t₂.reg8 .dh = t₁.reg8 .dh

/-- **`lba_to_chs` of stage 2.** For every sector number and every geometry without a zero: it
leaves what stage 1 leaves exactly for the sectors that have the place of sector 0 in the bits of
`cx` and `dh`. -/
theorem lbaToChs_agree_iff {s₁ s₂ : Cpu} {spt heads : Word} (hs0 : spt ≠ 0) (hh0 : heads ≠ 0)
    (hspt₁ : loadWord s₁.mem s₁.ds bdbSectorsPerTrack = spt)
    (hheads₁ : loadWord s₁.mem s₁.ds bdbHeads = heads)
    (hspt₂ : loadWord s₂.mem 0 bdbSectorsPerTrack = spt)
    (hheads₂ : loadWord s₂.mem 0 bdbHeads = heads) (hlba : s₂.ax = s₁.ax) :
    ChsAgree s₁ s₂ ↔ s₂.ax.toNat % spt.toNat % 256 = 0 ∧
      s₂.ax.toNat / spt.toNat / heads.toNat % 1024 = 0 ∧
      s₂.ax.toNat / spt.toNat % heads.toNat % 256 = 0 := by
  have hspt : 0 < spt.toNat := Nat.pos_of_ne_zero fun h => hs0 (BitVec.eq_of_toNat_eq h)
  obtain ⟨zf₁, hrun₁⟩ := Stage1.run_lbaToChs hspt₁ hheads₁ hs0 hh0
  obtain ⟨zf₂, hrun₂⟩ := Stage2.run_lbaToChs hspt₂ hheads₂ hs0 hh0
  have hagree : ChsAgree s₁ s₂ ↔ chsWord 0#16 spt heads = chsWord s₁.ax spt heads ∧
      chsHead 0#16 spt heads = chsHead s₁.ax spt heads := by
    unfold ChsAgree
    rw [hrun₁, hrun₂]
    simp
  rw [hagree, chsWord_zero, chsHead_zero, eq_comm, eq_comm (a := 0#8), chsWord_eq_one_iff hspt,
    chsHead_eq_zero_iff, hlba, and_assoc]

theorem lbaToChs_agree_floppy : ChsAgree (lbaCpu 0) (lbaCpu 0) := by
  have hspt : loadWord (lbaCpu 0).mem (lbaCpu 0).ds bdbSectorsPerTrack = 18 := by decide
  have hheads : loadWord (lbaCpu 0).mem (lbaCpu 0).ds bdbHeads = 2 := by decide
  refine (lbaToChs_agree_iff (by decide) (by decide) hspt hheads hspt hheads rfl).mpr ⟨?_, ?_, ?_⟩
  all_goals decide

/-- **The versions differ.** Stage 2 takes sector 1 of a floppy for sector 0. -/
theorem lbaToChs_differ : ¬ ∀ (s₁ s₂ : Cpu) (spt heads : Word), spt ≠ 0 → heads ≠ 0 →
    loadWord s₁.mem s₁.ds bdbSectorsPerTrack = spt → loadWord s₁.mem s₁.ds bdbHeads = heads →
    loadWord s₂.mem 0 bdbSectorsPerTrack = spt → loadWord s₂.mem 0 bdbHeads = heads →
    s₂.ax = s₁.ax → ChsAgree s₁ s₂ := by
  intro hall
  obtain ⟨t₁, t₂, hrun₁, hrun₂, hcx, -⟩ := hall (lbaCpu 1) (lbaCpu 1) 18 2 (by decide) (by decide)
    (by decide) (by decide) (by decide) (by decide) rfl
  have h₁ : (run Stage1.lbaToChs (lbaCpu 1)).map Cpu.cx = some 2 := by decide
  have h₂ : (run Stage2.lbaToChs (lbaCpu 1)).map Cpu.cx = some 1 := by decide
  rw [hrun₁] at h₁
  rw [hrun₂] at h₂
  cases h₁.symm.trans ((congrArg some hcx.symm).trans h₂)

end DejOs
