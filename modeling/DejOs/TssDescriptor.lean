import DejOs.TssStack

/-!
# The descriptor and the TSS that the processor finds

What `write_tss_descriptor` of `tss.c` leaves, read back: the sixteen bytes of the slot as a
`struct tss_descriptor`, and the bytes of the `tss_entry_t`. The base address is scattered over four
fields of the slot; each of them is a range of bytes of one number (`slot_eq`), so that they are
read off one after the other.
-/

namespace DejOs.TssStack

open ByteMemory

/-! ## The layout of the slot -/

/-- `struct tss_descriptor` -/
structure TssDescriptor where
  limitLow : ℕ
  baseLow : ℕ
  baseMid : ℕ
  access : ℕ
  flagsLimit : ℕ
  baseHigh : ℕ
  baseUpper : ℕ
  reserved : ℕ
  deriving DecidableEq, Repr

namespace TssDescriptor

/-- The field of `n` bytes at `offset`. -/
def field (slot : List Byte) (offset n : ℕ) : ℕ := ofBytes ((slot.drop offset).take n)

/-- The packed structure in sixteen bytes. -/
def ofSlot (slot : List Byte) : TssDescriptor where
  limitLow := field slot 0 2
  baseLow := field slot 2 2
  baseMid := field slot 4 1
  access := field slot 5 1
  flagsLimit := field slot 6 1
  baseHigh := field slot 7 1
  baseUpper := field slot 8 4
  reserved := field slot 12 4

/-- The base address of a system descriptor: bits 15..0, 23..16, 31..24 and 63..32. -/
def base (d : TssDescriptor) : ℕ :=
  d.baseLow + 2 ^ 16 * d.baseMid + 2 ^ 24 * d.baseHigh + 2 ^ 32 * d.baseUpper

/-- The limit: bits 15..0, and 19..16 from the low half of `flags_limit`. -/
def limit (d : TssDescriptor) : ℕ := d.limitLow + 2 ^ 16 * (d.flagsLimit % 2 ^ 4)

/-- Granularity, the bits that a system descriptor has reserved, and the one left to software. -/
def flags (d : TssDescriptor) : ℕ := d.flagsLimit / 2 ^ 4

end TssDescriptor

/-- The sixteen bytes at `__tss_descriptor_ptr`. -/
def TssMemory.slot (s : TssMemory) : List Byte := bytes64 s.low ++ bytes64 s.high

/-- `iomap_base` of the TSS at `tss`. -/
def iomapBase (m : Memory 64) (tss : U64) : ℕ :=
  ofBytes (loadBytes m (tss + BitVec.ofNat 64 iomapBaseOffset) 2)

/-- What the processor is to find: the descriptor of a TSS at `tss` that is present and not busy,
and a TSS that is zero but for `rsp0` and an `iomap_base` that leaves no room for a bitmap. -/
structure Describes (tss : U64) (s : TssMemory) : Prop where
  base : (TssDescriptor.ofSlot s.slot).base = tss.toNat
  limit : (TssDescriptor.ofSlot s.slot).limit = tssEntrySize - 1
  access : (TssDescriptor.ofSlot s.slot).access = 0x89
  flags : (TssDescriptor.ofSlot s.slot).flags = 0
  reserved : (TssDescriptor.ofSlot s.slot).reserved = 0
  zero : ∀ i < tssEntrySize, ¬ (rsp0Offset ≤ i ∧ i < rsp0Offset + 8) →
    ¬ (iomapBaseOffset ≤ i ∧ i < iomapBaseOffset + 2) → s.mem (tss + BitVec.ofNat 64 i) = 0
  iomap : (TssDescriptor.ofSlot s.slot).limit < iomapBase s.mem tss

/-! ## The slot -/

section Slot

variable (tss : U64) (m : Memory 64)

theorem slot_eq : (⟨m, descLow tss, descHigh tss⟩ : TssMemory).slot =
    toBytes 16 ((descLow tss).toNat + 256 ^ 8 * (descHigh tss).toNat) :=
  toBytes_append 8 _ (descLow tss).isLt

theorem field_slot {offset n : ℕ} (h : offset + n ≤ 16) :
    TssDescriptor.field (⟨m, descLow tss, descHigh tss⟩ : TssMemory).slot offset n =
      ((descLow tss).toNat + 256 ^ 8 * (descHigh tss).toNat) / 256 ^ offset % 256 ^ n := by
  obtain ⟨l, hl⟩ := Nat.exists_eq_add_of_le h
  rw [slot_eq, hl, Nat.add_assoc]
  exact ofBytes_field offset n l _

theorem ofSlot_slot :
    TssDescriptor.ofSlot (⟨m, descLow tss, descHigh tss⟩ : TssMemory).slot =
      { limitLow := 103, baseLow := tss.toNat % 2 ^ 16, baseMid := tss.toNat / 2 ^ 16 % 2 ^ 8,
        access := 0x89, flagsLimit := 0, baseHigh := tss.toNat / 2 ^ 24 % 2 ^ 8,
        baseUpper := tss.toNat / 2 ^ 32, reserved := 0 } := by
  have hhigh : (descHigh tss).toNat = tss.toNat / 2 ^ 32 := by
    unfold descHigh
    rw [BitVec.toNat_ushiftRight, Nat.shiftRight_eq_div_pow]
  have hlt := tss.isLt
  have hp : tss.toNat % 2 ^ 16 < 2 ^ 16 := Nat.mod_lt _ (by decide)
  have hq : tss.toNat / 2 ^ 16 % 2 ^ 8 < 2 ^ 8 := Nat.mod_lt _ (by decide)
  have hr : tss.toNat / 2 ^ 24 % 2 ^ 8 < 2 ^ 8 := Nat.mod_lt _ (by decide)
  have hu : tss.toNat / 2 ^ 32 < 2 ^ 32 := by omega
  unfold TssDescriptor.ofSlot
  simp only [TssDescriptor.mk.injEq, field_slot tss m, Nat.reduceAdd, Nat.reduceLeDiff,
    descLow_toNat, hhigh]
  generalize tss.toNat % 2 ^ 16 = p at hp ⊢
  generalize tss.toNat / 2 ^ 16 % 2 ^ 8 = q at hq ⊢
  generalize tss.toNat / 2 ^ 24 % 2 ^ 8 = r at hr ⊢
  generalize tss.toNat / 2 ^ 32 = u at hu ⊢
  refine ⟨?_, ?_, ?_, ?_, ?_, ?_, ?_, ?_⟩ <;> omega

end Slot

/-! ## The TSS -/

section Entry

variable {p x tss : U64} {m : Memory 64}

theorem clearBytes_succ (p : U64) (n : ℕ) (m : Memory 64) : clearBytes p (n + 1) m =
    Function.update (clearBytes p n m) (p + BitVec.ofNat 64 n) 0 := by
  unfold clearBytes
  rw [List.range_succ, List.foldl_concat]

theorem clearBytes_inside {n i : ℕ} (hi : i < n) :
    clearBytes p n m (p + BitVec.ofNat 64 i) = 0 := by
  induction n with
  | zero => exact absurd hi (Nat.not_lt_zero i)
  | succ n ih =>
    rw [clearBytes_succ]
    by_cases h : p + BitVec.ofNat 64 i = p + BitVec.ofNat 64 n
    · rw [h, Function.update_self]
    · rw [Function.update_of_ne h]
      exact ih (Nat.lt_of_le_of_ne (Nat.le_of_lt_succ hi) fun hin => h (by rw [hin]))

theorem storeBytes_apart (bs : List Byte) {offset i : ℕ} (hb : offset + bs.length ≤ tssEntrySize)
    (hi : i < tssEntrySize) (h : ¬ (offset ≤ i ∧ i < offset + bs.length)) :
    storeBytes m (tss + BitVec.ofNat 64 offset) bs (tss + BitVec.ofNat 64 i) =
      m (tss + BitVec.ofNat 64 i) := by
  unfold tssEntrySize at hb hi
  apply storeBytes_outside
  rwa [within_offset (by omega), add_sub_cancel_toNat _ (by omega)]

theorem iomapBase_stored : iomapBase (storeBytes m (tss + BitVec.ofNat 64 iomapBaseOffset)
    (toBytes 2 tssEntrySize)) tss = tssEntrySize := by
  have hload := loadBytes_storeBytes_self m (tss + BitVec.ofNat 64 iomapBaseOffset)
    (toBytes 2 tssEntrySize) (by decide)
  rw [length_toBytes] at hload
  unfold iomapBase
  rw [hload, ofBytes_toBytes]
  rfl

end Entry

/-- **The descriptor and the TSS.** For every address and whatever the TSS and the slot held before:
`write_tss_descriptor` stops on a null pointer, and otherwise leaves a slot that decodes to the
address, the limit and the attributes of an available TSS, with nothing else set, and a TSS that is
zero but for `rsp0` and an `iomap_base` beyond the limit. -/
theorem writeTssDescriptor_describes (tss cpuId : U64) (s : TssMemory) :
    match writeTssDescriptor tss cpuId s with
    | .error _ => tss = 0
    | .ok s' => Describes tss s' := by
  unfold writeTssDescriptor
  by_cases htss : tss = 0
  · rw [if_pos htss]
    exact htss
  · rw [if_neg htss]
    have hslot := ofSlot_slot tss
    have hlt := tss.isLt
    constructor
    · rw [hslot]
      simp only [TssDescriptor.base]
      omega
    · rw [hslot]
      rfl
    · rw [hslot]
    · rw [hslot]
      exact Nat.zero_div _
    · rw [hslot]
    · intro i hi hrsp0 hio
      refine (storeBytes_apart _ (by decide) hi hio).trans ?_
      rw [storeBytes_apart _ (by rw [length_bytes64]; decide) hi (by rwa [length_bytes64])]
      exact clearBytes_inside hi
    · rw [hslot, iomapBase_stored]
      exact Nat.lt_succ_self 103

end DejOs.TssStack
