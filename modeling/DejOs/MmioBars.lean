import DejOs.AddressSpaces
import DejOs.PcieBars

/-!
# Mapping a BAR

`map_mmio` gets the address of a memory BAR as `pci_read_bar` decodes it, a multiple of 16
(`memoryBar_iff`), and hands it to `map_page`, which puts the address and the flags into one word;
the pointer it returns is the start of a page. For an address inside a page the offset is missing
from the pointer, and its bits 4 to 11 are set among the flags of the entry (`mapMmio_exact_iff`).
-/

namespace DejOs

open RadixTable

/-! ## The addresses -/

theorem mod_two_pow_eq_zero_iff {w : ℕ} (x : BitVec w) (k : ℕ) :
    x.toNat % 2 ^ k = 0 ↔ ∀ i < k, x.getLsbD i = false := by
  constructor
  · intro h i hi
    have hbit := Nat.testBit_mod_two_pow x.toNat k i
    rw [h, Nat.zero_testBit] at hbit
    rw [← BitVec.testBit_toNat]
    simpa [hi] using hbit.symm
  · intro h
    apply Nat.eq_of_testBit_eq
    intro i
    rw [Nat.testBit_mod_two_pow, BitVec.testBit_toNat, Nat.zero_testBit]
    by_cases hi : i < k
    · simp [h i hi]
    · simp [hi]

theorem getLsbD_mask (k : ℕ) {i : ℕ} (hi : i < 32) :
    (BitVec.ofNat 32 (2 ^ k - 1)).getLsbD i = decide (i < k) := by
  rw [BitVec.getLsbD_ofNat, Nat.testBit_two_pow_sub_one]
  simp [hi]

theorem getLsbD_four {i : ℕ} (hi : i < 32) : (4 : BitVec 32).getLsbD i = decide (i = 2) := by
  have hpow : (4 : BitVec 32) = BitVec.ofNat 32 (2 ^ 2) := rfl
  rw [hpow, BitVec.getLsbD_ofNat, Nat.testBit_two_pow]
  simp [hi, eq_comm]

/-- `pci_read_bar` delivers for memory BARs the multiples of 16, and all of them. -/
theorem memoryBar_iff (phys : U64) :
    (∃ low high : BitVec 32, ¬ IsIo low ∧ slotBar low high = phys) ↔ phys.toNat % 16 = 0 := by
  have hmod := mod_two_pow_eq_zero_iff phys 4
  rw [show (2 : ℕ) ^ 4 = 16 from rfl] at hmod
  rw [hmod]
  constructor
  · rintro ⟨low, high, hio, rfl⟩ i hi
    have hclear : (low &&& ~~~0xF).getLsbD i = false := by
      rw [BitVec.getLsbD_and, BitVec.getLsbD_not,
        show (0xF : BitVec 32).getLsbD i = decide (i < 4) from getLsbD_mask 4 (by omega)]
      simp [hi]
    unfold slotBar narrowBase
    split_ifs with hwide
    · unfold wideBase
      rw [BitVec.getLsbD_append, if_pos (by omega)]
      exact hclear
    · rw [BitVec.getLsbD_setWidth, hclear, Bool.and_false]
  · intro h
    -- a 64-bit BAR with this base
    have hwide : IsWide (phys.setWidth 32 ||| 4) := by
      apply BitVec.eq_of_getLsbD_eq
      intro i hi
      rw [BitVec.getLsbD_and, BitVec.getLsbD_or, getLsbD_four hi, BitVec.getLsbD_setWidth,
        show (7 : BitVec 32).getLsbD i = decide (i < 3) from getLsbD_mask 3 hi]
      by_cases h3 : i < 3
      · simp [h i (by omega), h3]
      · have h2 : i ≠ 2 := by omega
        simp [h3, h2]
    refine ⟨phys.setWidth 32 ||| 4, (phys >>> 32).setWidth 32, hwide.not_io, ?_⟩
    unfold slotBar wideBase
    rw [if_pos hwide]
    apply BitVec.eq_of_getLsbD_eq
    intro i hi
    rw [BitVec.getLsbD_append]
    split_ifs with hlt
    · rw [BitVec.getLsbD_and, BitVec.getLsbD_not, BitVec.getLsbD_or, getLsbD_four hlt,
        BitVec.getLsbD_setWidth,
        show (0xF : BitVec 32).getLsbD i = decide (i < 4) from getLsbD_mask 4 hlt]
      by_cases h4 : i < 4
      · simp [h i h4, h4]
      · have h2 : i ≠ 2 := by omega
        simp [hlt, h4, h2]
    · have hi' : i - 32 < 32 := by omega
      have hsum : 32 + (i - 32) = i := by omega
      simp [hi', hsum]

theorem isFrame_and_mask (x : U64) : IsFrame (x &&& frameMask) := by
  have hbit : ∀ i, (x &&& frameMask).getLsbD i = (x.getLsbD i && decide (12 ≤ i ∧ i < 52)) := by
    intro i
    rw [BitVec.getLsbD_and, getLsbD_frameMask]
  constructor
  · refine (mod_two_pow_eq_zero_iff (x &&& frameMask) 12).mpr fun i hi => ?_
    rw [hbit, decide_eq_false (by omega), Bool.and_false]
  · apply Nat.lt_pow_two_of_testBit
    intro i hi
    rw [BitVec.testBit_toNat, hbit, decide_eq_false (by omega), Bool.and_false]

/-! ## A call with room -/

/-- Call number `k` of `map_mmio` finds the next page of the window unmapped. -/
structure MmioRoom (k : ℕ) (s : Vm) : Prop where
  wf : WellFormed windows s.newpml4 s
  offst : s.offst = BitVec.ofNat 64 (4096 * k)
  room : k < 65536
  unmapped : hwWalk s.mem s.newpml4 (pageAt mmioBase k) = none

/-- The pointer is for the byte at `phys`, through an entry with the flags of a device and no
others. -/
structure MmioExact (phys p : U64) (s : Vm) : Prop where
  translates : translate s.mem s.newpml4 p = some phys
  flags : ∃ es e, es.length = 3 ∧ hwWalk s.mem s.newpml4 p = some (es ++ [e]) ∧
    e &&& ~~~frameMask = deviceFlags

/-- The entry the call leaves for its pointer. -/
theorem MmioRoom.walk {k : ℕ} {s s' : Vm} {phys p : U64} (h : MmioRoom k s)
    (hcall : mapMmio phys s = .ok p s') :
    p = pageAt mmioBase k ∧ ∃ es, es.length = 3 ∧
      hwWalk s'.mem s'.newpml4 p = some (es ++ [phys ||| deviceFlags]) := by
  obtain ⟨hfilled, hnew, -⟩ := mapMmio_filled h.wf h.offst h.room hcall
  obtain ⟨r, s₁, -, -, hp⟩ := mapMmio_ok hcall
  obtain rfl : p = pageAt mmioBase k := by
    rw [hp, h.offst]
    rfl
  refine ⟨rfl, ?_⟩
  rw [hnew]
  refine hfilled.walk_of_unique List.mem_cons_self ?_ h.unmapped
  intro r hr _
  rw [List.mem_singleton.mp hr]

theorem MmioRoom.returns {k : ℕ} {s : Vm} (h : MmioRoom k s) (phys : U64)
    (hfree : 3 ≤ s.free.length) : ∃ p s', mapMmio phys s = .ok p s' := by
  have hmissing := missing_le_three s.mem s.newpml4 (pageAt mmioBase k)
  obtain ⟨p, s', hcall, -⟩ : ∃ p s', mapMmio phys s = .ok p s' ∧ _ :=
    mapMmio_returns h.wf h.offst h.room (by omega)
  exact ⟨p, s', hcall⟩

/-- Such an entry maps the page that the address is in. -/
theorem translate_entry {mem : Mem} {root v phys : U64} (hv : v.toNat % 4096 = 0)
    (hw : ∃ es, es.length = 3 ∧ hwWalk mem root v = some (es ++ [phys ||| deviceFlags])) :
    translate mem root v = some (phys &&& frameMask) := by
  obtain ⟨es, hlen, hes⟩ := hw
  have hframe : (phys ||| deviceFlags) &&& frameMask = phys &&& frameMask := by
    rw [BitVec.and_or_distrib_right, show deviceFlags &&& frameMask = 0 from by decide]
    exact BitVec.or_zero
  have hoff : v &&& 0xFFF = 0 := by
    apply BitVec.eq_of_toNat_eq
    rw [BitVec.toNat_and]
    exact (Nat.and_two_pow_sub_one_eq_mod v.toNat 12).trans hv
  unfold translate
  rw [hes]
  simp only [Option.bind_some, List.getLast?_concat, Option.map_some, List.length_append, hlen,
    List.length_singleton, hframe]
  show some ((phys &&& frameMask) >>> 12 <<< 12 ||| v &&& 0xFFF) = _
  rw [(isFrame_and_mask phys).shift, hoff]
  simp

/-- What the entry is for, and with which flags. -/
theorem mmioExact_iff {phys p : U64} {s : Vm} (hp : p.toNat % 4096 = 0)
    (hlt : phys.toNat < 2 ^ 52)
    (hw : ∃ es, es.length = 3 ∧ hwWalk s.mem s.newpml4 p = some (es ++ [phys ||| deviceFlags])) :
    MmioExact phys p s ↔ phys.toNat % 4096 = 0 := by
  have htrans := translate_entry hp hw
  constructor
  · intro h
    have heq : phys &&& frameMask = phys := Option.some.inj (htrans.symm.trans h.translates)
    rw [← heq]
    exact (isFrame_and_mask phys).1
  · intro halign
    have hframe : IsFrame phys := ⟨halign, hlt⟩
    obtain ⟨es, hlen, hes⟩ := hw
    refine ⟨by rw [htrans, hframe.and_mask], es, _, hlen, hes, ?_⟩
    rw [hframe.or_and_flags (by decide)]
    decide

/-- **Mapping the address of a BAR.** For every address below `2 ^ 52` and every call with room in
the window: it comes back if there are frames for the tables, and then its pointer is for the byte
at that address, with the flags of a device, exactly when the address is the start of a page. -/
theorem mapMmio_exact_iff {k : ℕ} {s : Vm} (h : MmioRoom k s) {phys : U64}
    (hlt : phys.toNat < 2 ^ 52) :
    (3 ≤ s.free.length → ∃ p s', mapMmio phys s = .ok p s') ∧
      ∀ p s', mapMmio phys s = .ok p s' → (MmioExact phys p s' ↔ phys.toNat % 4096 = 0) := by
  constructor
  · exact h.returns phys
  · intro p s' hcall
    obtain ⟨rfl, hw⟩ := h.walk hcall
    exact mmioExact_iff (pageAt_mmio_window h.room).1 hlt hw

/-! ## The calls after the boot -/

/-- After the boot and any calls within the window, with any addresses, there is room for the next
one. -/
theorem mmioRoom_of_boot {s₀ s₁ s₂ s₃ : Vm} {l ptrs : List U64} {r : CInt}
    {image : Fin 512 → U64} (hb : HighWellFormed windows s₀.bootRoot s₀)
    (hun : ∀ v ∈ windows, hwWalk s₀.mem s₀.bootRoot v = none) (hoff : s₀.offst = 0)
    (hinit : virtualMemoryInit s₀ = .ok r s₁) (huser : userSpaceInit image s₁ = .ok () s₂)
    (hlen : l.length < 65536) (hmmio : mapMmios l s₂ = .ok ptrs s₃) : MmioRoom l.length s₃ := by
  obtain ⟨t, hk⟩ := virtualMemoryInit_ok hb hinit
  obtain ⟨t', page, stack, hu⟩ := userSpaceInit_ok hk.high huser
  have hfilled := mapMmios_filled (hu.wf hk) (hu.cursor hk hoff) (by omega) hmmio
  have hnew : s₃.newpml4 = s₂.newpml4 := by
    obtain ⟨-, a, m, rfl⟩ := mapMmios_ptrs (hu.cursor hk hoff) hmmio
    rfl
  have hcursor : s₃.offst = BitVec.ofNat 64 (4096 * l.length) := by
    obtain ⟨-, a, m, rfl⟩ := mapMmios_ptrs (hu.cursor hk hoff) hmmio
    rw [Nat.zero_add]
  refine ⟨by rw [hnew]; exact hfilled.wf, hcursor, hlen, ?_⟩
  rw [hnew, hfilled.walk_of_other]
  · rw [hu.newpml4, hwWalk_of_agree (hu.agree hk.filled.wf)]
    exact mmio_unmapped hk hun hlen
  · -- the calls before asked for the pages before
    intro q hq hpath
    obtain ⟨i, c, hc, rfl⟩ := mem_mmioReqs hq
    obtain ⟨hi, -⟩ := List.getElem?_eq_some_iff.mp hc
    have hij : 0 + i = l.length := path_pageAt_inj (by omega) (by omega) hpath
    omega

theorem mmioRoom_bootVm : ∃ s₁ s₂, virtualMemoryInit bootVm = .ok 0 s₁ ∧
    userSpaceInit (fun _ => 0) s₁ = .ok () s₂ ∧ MmioRoom 0 s₂ ∧ 3 ≤ s₂.free.length := by
  obtain ⟨s₁, s₂, h₁, h₂, hfree⟩ := boot_bootVm_user
  have hroom := mmioRoom_of_boot (l := []) bootVm_high (fun v hv => bootVm_windows hv) rfl h₁ h₂
    (by decide) rfl
  exact ⟨s₁, s₂, h₁, h₂, hroom, hfree⟩

theorem mapMmio_exact_iff_apic : ∃ s₁ s₂ p s₃, virtualMemoryInit bootVm = .ok 0 s₁ ∧
    userSpaceInit (fun _ => 0) s₁ = .ok () s₂ ∧ mapMmio 0xFEE00000 s₂ = .ok p s₃ ∧
      MmioExact 0xFEE00000 p s₃ := by
  obtain ⟨s₁, s₂, h₁, h₂, hroom, hfree⟩ := mmioRoom_bootVm
  have hphys : (0xFEE00000 : U64).toNat < 2 ^ 52 := by decide
  have hiff := mapMmio_exact_iff hroom hphys
  obtain ⟨p, s₃, h₃⟩ := hiff.1 hfree
  exact ⟨s₁, s₂, p, s₃, h₁, h₂, h₃, (hiff.2 p s₃ h₃).mpr (by decide)⟩

/-- **A BAR inside a page.** The base `0xFEB00010` of a 32-bit memory BAR is mapped with the bit
`PCD` set in the entry, and the pointer is for the byte at `0xFEB00000`. -/
theorem mapMmio_bar_inexact : ∃ s₁ s₂ p s₃, virtualMemoryInit bootVm = .ok 0 s₁ ∧
    userSpaceInit (fun _ => 0) s₁ = .ok () s₂ ∧
      mapMmio (slotBar 0xFEB00010 0) s₂ = .ok p s₃ ∧ ¬ MmioExact (slotBar 0xFEB00010 0) p s₃ := by
  obtain ⟨s₁, s₂, h₁, h₂, hroom, hfree⟩ := mmioRoom_bootVm
  have hbar : slotBar 0xFEB00010 0 = 0xFEB00010 := by decide
  obtain ⟨p, s₃, h₃⟩ := hroom.returns (slotBar 0xFEB00010 0) hfree
  obtain ⟨rfl, hw⟩ := hroom.walk h₃
  refine ⟨s₁, s₂, _, s₃, h₁, h₂, h₃, ?_⟩
  rw [mmioExact_iff (pageAt_mmio_window hroom.room).1 (by rw [hbar]; decide) hw, hbar]
  decide

end DejOs
