import DejOs.Tss
import DejOs.Lib.ByteMemory

/-!
# The kernel stack behind the TSS

`write_tss_descriptor` of `tss.c` on the memory of the per-CPU blocks: a `tss_cpu` is a TSS and,
behind it, the stack the processor switches to when it leaves ring 3. The stack is filled from its
top, but `rsp0` is made with `sizeof(kernel_stack)` where `kernel_stack` is a pointer, so it points
eight bytes above the bottom. Pushes beyond these eight bytes run down into the TSS and into the
block of the CPU before (`kernelStack_safe_iff`).
-/

namespace DejOs.TssStack

open ByteMemory

/-! ## The layout -/

/-- `sizeof(tss_entry_t)`, a packed structure. -/
def tssEntrySize : ℕ := 104

/-- The offset of `rsp0` in `tss_entry_t`. -/
def rsp0Offset : ℕ := 4

/-- The offset of `iomap_base` in `tss_entry_t`. -/
def iomapBaseOffset : ℕ := 102

/-- The offset of `kernel_stack` in `tss_cpu`, aligned to 16. -/
def kernelStackOffset : ℕ := 112

/-- The length of `kernel_stack`. -/
def kernelStackSize : ℕ := 16384

/-- `sizeof(tss_cpu)` -/
def tssCpuSize : ℕ := kernelStackOffset + kernelStackSize

/-- The length of `tssforcpus`. -/
def maxCpus : ℕ := 32

/-- `sizeof` of a pointer. -/
def pointerSize : ℕ := 8

/-! ## The code -/

/-- The memory with the blocks, and the two quadwords at `__tss_descriptor_ptr`. -/
structure TssMemory where
  mem : Memory 64
  low : U64
  high : U64

/-- The loop that clears `n` bytes from `p` on. -/
def clearBytes (p : U64) (n : ℕ) (m : Memory 64) : Memory 64 :=
  (List.range n).foldl (fun m i => Function.update m (p + BitVec.ofNat 64 i) 0) m

/-- `rsp0`: `&kernel_stack[sizeof(kernel_stack)]`, where `kernel_stack` is a `uint8_t *`. -/
def rsp0 (tss : U64) : U64 :=
  tss + BitVec.ofNat 64 kernelStackOffset + BitVec.ofNat 64 pointerSize

/-- `write_tss_descriptor` with the per-CPU pointer `tss`. An error is `cpu_stop`, after the lines
logged. -/
def writeTssDescriptor (tss cpuId : U64) (s : TssMemory) : Except (List Logf) TssMemory :=
  if tss = 0 then
    .error [⟨"kernel", "percpu_tss = null", []⟩, ⟨"kernel", "cpuid = %llu", [cpuId]⟩]
  else
    let m := clearBytes tss tssEntrySize s.mem
    let m := storeBytes m (tss + BitVec.ofNat 64 rsp0Offset) (bytes64 (rsp0 tss))
    let m := storeBytes m (tss + BitVec.ofNat 64 iomapBaseOffset) (toBytes 2 tssEntrySize)
    .ok ⟨m, descLow tss, descHigh tss⟩

/-- `&tssforcpus[k]` -/
def block (tssforcpus : U64) (k : ℕ) : U64 := tssforcpus + BitVec.ofNat 64 (tssCpuSize * k)

/-! ## What the stack is for -/

/-- The stack after a switch to the `rsp0` that the TSS at `tss` holds. -/
def switched (m : Memory 64) (tss : U64) : Stack 64 :=
  ⟨m, load64 m (tss + BitVec.ofNat 64 rsp0Offset)⟩

/-- The pushes from `rsp0` on stay in the stack of block `k`, and change neither its TSS nor another
block. -/
structure PushesSafe (tssforcpus : U64) (k : ℕ) (m : Memory 64) (l : List (List Byte)) : Prop where
  inside : ∀ x ∈ (switched m (block tssforcpus k)).written l,
    Within (block tssforcpus k + BitVec.ofNat 64 kernelStackOffset) kernelStackSize x
  tss : ∀ x, Within (block tssforcpus k) tssEntrySize x →
    ((switched m (block tssforcpus k)).pushes l).mem x = m x
  others : ∀ j < maxCpus, j ≠ k → ∀ x, Within (block tssforcpus j) tssCpuSize x →
    ((switched m (block tssforcpus k)).pushes l).mem x = m x

/-! ## The pointer that is loaded -/

/-- The pointer read back from the TSS is the one that was computed. -/
theorem switched_sp {tss cpuId : U64} {s s' : TssMemory}
    (h : writeTssDescriptor tss cpuId s = .ok s') : (switched s'.mem tss).sp = rsp0 tss := by
  unfold writeTssDescriptor at h
  split at h
  · cases h
  · cases h
    -- `iomap_base` lies above `rsp0`
    have hsep : ∀ i < 8, ¬ Within (tss + BitVec.ofNat 64 iomapBaseOffset)
        (toBytes 2 tssEntrySize).length (tss + BitVec.ofNat 64 rsp0Offset + BitVec.ofNat 64 i) := by
      intro i hi
      unfold Within rsp0Offset iomapBaseOffset
      rw [length_toBytes]
      simp only [BitVec.toNat_sub, BitVec.toNat_add, BitVec.toNat_ofNat]
      omega
    show load64 _ _ = _
    unfold load64
    rw [loadBytes_storeBytes_outside hsep]
    exact load64_storeBytes_self _ _ (rsp0 tss) (by decide)

section

variable {tssforcpus : U64} {k : ℕ} {m : Memory 64} {l : List (List Byte)}

theorem rsp0_eq (tss : U64) : rsp0 tss = tss + BitVec.ofNat 64 120 := sub_add_ofNat tss 112 8

theorem mem_written_rsp0 (hsp : (switched m (block tssforcpus k)).sp = rsp0 (block tssforcpus k))
    (hl : Stack.total l ≤ kernelStackSize) (x : U64) :
    x ∈ (switched m (block tssforcpus k)).written l ↔
      Within (block tssforcpus k + BitVec.ofNat 64 120 - BitVec.ofNat 64 (Stack.total l))
        (Stack.total l) x := by
  unfold kernelStackSize at hl
  rw [Stack.mem_written_iff _ _ (by omega), hsp, rsp0_eq]

/-- More than eight bytes reach the byte below the stack. -/
theorem not_safe_of_lt (hsp : (switched m (block tssforcpus k)).sp = rsp0 (block tssforcpus k))
    (hl : Stack.total l ≤ kernelStackSize) (h : 8 < Stack.total l) :
    ¬ PushesSafe tssforcpus k m l := by
  intro hsafe
  have hin := hsafe.inside _ ((mem_written_rsp0 hsp hl _).mpr
    (within_below_sub (k := 9) (by decide) h (by unfold kernelStackSize at hl; omega)))
  unfold kernelStackOffset kernelStackSize at hin
  rw [add_ofNat_sub_ofNat _ (by decide), within_offset (by decide),
    add_sub_cancel_toNat _ (by decide)] at hin
  omega

theorem safe_of_le (hk : k < maxCpus)
    (hsp : (switched m (block tssforcpus k)).sp = rsp0 (block tssforcpus k))
    (h : Stack.total l ≤ 8) : PushesSafe tssforcpus k m l := by
  have hl : Stack.total l ≤ kernelStackSize := by unfold kernelStackSize; omega
  -- a stored byte is one of the eight lowest of the stack
  have hwritten : ∀ x, x ∈ (switched m (block tssforcpus k)).written l →
      112 ≤ (x - block tssforcpus k).toNat ∧ (x - block tssforcpus k).toNat < 120 := by
    intro x hx
    rw [mem_written_rsp0 hsp hl, add_ofNat_sub_ofNat _ (by omega), within_offset (by omega)] at hx
    omega
  have hkeep : ∀ x, x ∉ (switched m (block tssforcpus k)).written l →
      ((switched m (block tssforcpus k)).pushes l).mem x = m x :=
    fun x hx => Stack.pushes_mem_of_not_written _ l (by omega) hx
  refine ⟨fun x hx => ?_, fun x hx => ?_, fun j hj hjk x hx => ?_⟩
  · obtain ⟨hlo, hhi⟩ := hwritten x hx
    unfold kernelStackOffset kernelStackSize
    rw [within_offset (by decide)]
    omega
  · refine hkeep x fun hw => ?_
    obtain ⟨hlo, -⟩ := hwritten x hw
    unfold Within tssEntrySize at hx
    omega
  · refine hkeep x fun hw => ?_
    have hlow : Within (block tssforcpus k) tssCpuSize x := (hwritten x hw).2.trans (by decide)
    unfold block at hx hlow
    unfold maxCpus at hj hk
    have hsize : tssCpuSize = 16496 := rfl
    rw [hsize, within_offset (by omega)] at hx hlow
    omega

end

/-- **How much fits the stack.** After `write_tss_descriptor` for the block of a CPU, pushes of at
most 16384 bytes from the `rsp0` that was stored stay inside the block's stack, and spare its TSS
and the other blocks, exactly when they are eight bytes or fewer. -/
theorem kernelStack_safe_iff (tssforcpus cpuId : U64) {k : ℕ} (hk : k < maxCpus)
    {s s' : TssMemory} (h : writeTssDescriptor (block tssforcpus k) cpuId s = .ok s')
    (l : List (List Byte)) (hl : Stack.total l ≤ kernelStackSize) :
    PushesSafe tssforcpus k s'.mem l ↔ Stack.total l ≤ 8 := by
  have hsp := switched_sp h
  refine ⟨fun hsafe => ?_, safe_of_le hk hsp⟩
  by_contra hlong
  exact not_safe_of_lt hsp hl (by omega) hsafe

/-- The five words of an interrupt frame. -/
def interruptFrame : List (List Byte) := List.replicate 5 (bytes64 0)

/-- The first CPU's block in an image where the array begins here, with everything zero before. -/
def firstBlock : U64 := 0xFFFFFFFF80010000

theorem kernelStack_safe_one_word :
    ∃ s', writeTssDescriptor (block firstBlock 0) 0 ⟨fun _ => 0, 0, 0⟩ = .ok s' ∧
      PushesSafe firstBlock 0 s'.mem [bytes64 0] :=
  ⟨_, rfl, (kernelStack_safe_iff firstBlock 0 (by decide) rfl [bytes64 0] (by decide)).mpr
    (by decide)⟩

/-- **The kernel stack does not hold an interrupt frame.** After the TSS of the first CPU is
written, the five words that the processor pushes on the way from ring 3 leave the stack. -/
theorem kernelStack_overrun :
    ∃ s', writeTssDescriptor (block firstBlock 0) 0 ⟨fun _ => 0, 0, 0⟩ = .ok s' ∧
      Stack.total interruptFrame ≤ kernelStackSize ∧
      ¬ PushesSafe firstBlock 0 s'.mem interruptFrame := by
  obtain ⟨s', hwrite⟩ : ∃ s', writeTssDescriptor (block firstBlock 0) 0
      ⟨fun _ => 0, 0, 0⟩ = .ok s' := ⟨_, rfl⟩
  exact ⟨s', hwrite, by decide, not_safe_of_lt (switched_sp hwrite) (by decide) (by decide)⟩

end DejOs.TssStack
