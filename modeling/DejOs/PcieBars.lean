import DejOs.Pcie

/-!
# The BARs of a function

`get_bars` of `pcie.c` against the PCI decoding of the six dwords from 0x10 on. The decoding walks
the slots in order, and a 64-bit memory BAR takes the next slot with it; the loop of `get_bars`
treats every slot alike, the upper halves too. `getBars_decode_iff` says for which headers this
makes no difference. The reads are followed by a version of the code that notes the address of every
dword (`getBarsNoted`).
-/

namespace DejOs

/-! ## The reads -/

/-- Code that notes the addresses of the dwords it reads. -/
abbrev Noted := StateM (List U64)

/-- A read, noted. -/
def Config.fetch (config : Config) (a : U64) : Noted (BitVec 32) := fun reads =>
  (config.read32 a, reads ++ [a])

/-- `pci_read_bar` -/
def pciReadBarNoted (config : Config) (bus device function barNum : Byte) : Noted U64 := do
  let cfg := pciConfig bus device function
  let low ← config.fetch (cfg + 0x10 + barNum.setWidth 64 * 4)
  if low &&& 1 ≠ 0 then pure ((low &&& ~~~3).setWidth 64)
  else if (low >>> 1) &&& 3 = 2 then do
    let high ← config.fetch (cfg + 0x10 + (barNum.setWidth 64 + 1) * 4)
    pure (high.setWidth 64 <<< 32 ||| (low.setWidth 64 &&& ~~~0xF))
  else pure (low.setWidth 64 &&& ~~~0xF)

/-- One round of `get_bars`. -/
def readBarNoted (config : Config) (bus device function : Byte) (p : PciDevice) (n : Fin 6) :
    Noted PciDevice := do
  let barNum := BitVec.ofNat 8 n
  let low ← config.fetch (pciConfig bus device function + 0x10 + barNum.setWidth 64 * 4)
  if low = 0 then pure p
  else do
    let bar ← pciReadBarNoted config bus device function barNum
    pure { p with bar := Function.update p.bar n bar }

/-- `get_bars` -/
def getBarsNoted (config : Config) (p : PciDevice) (bus : BitVec 16) (device function : Byte) :
    Noted PciDevice :=
  (List.finRange 6).foldlM (readBarNoted config (bus.setWidth 8) device function) p

/-! ## The decoding -/

/-- An I/O BAR. -/
def IsIo (low : BitVec 32) : Prop := low &&& 1 = 1

/-- A 64-bit memory BAR. -/
def IsWide (low : BitVec 32) : Prop := low &&& 7 = 4

instance (low : BitVec 32) : Decidable (IsIo low) := inferInstanceAs (Decidable (_ = _))

instance (low : BitVec 32) : Decidable (IsWide low) := inferInstanceAs (Decidable (_ = _))

/-- The base of a BAR of one slot. -/
def narrowBase (low : BitVec 32) : U64 :=
  if IsIo low then (low &&& ~~~3).setWidth 64 else (low &&& ~~~0xF).setWidth 64

/-- The base of a BAR of two slots. -/
def wideBase (low high : BitVec 32) : U64 := high ++ (low &&& ~~~0xF)

/-- The BARs of the slots, in order. The slot of an upper half is no BAR of its own. -/
def decodeBars : List (BitVec 32) → List U64
  | [] => []
  | [low] => [narrowBase low]
  | low :: high :: rest =>
    if IsWide low then wideBase low high :: 0 :: decodeBars rest
    else narrowBase low :: decodeBars (high :: rest)

/-- Where slot `k` is. -/
def slotAddr (bus : BitVec 16) (device function : Byte) (k : ℕ) : U64 :=
  pciConfig (bus.setWidth 8) device function + 0x10 + BitVec.ofNat 64 k * 4

/-- The dword of slot `k`. -/
def slotDword (config : Config) (bus : BitVec 16) (device function : Byte) (k : ℕ) : BitVec 32 :=
  config.read32 (slotAddr bus device function k)

/-- The dwords from 0x10 to 0x27. -/
def barDwords (config : Config) (bus : BitVec 16) (device function : Byte) : List (BitVec 32) :=
  (List.range 6).map (slotDword config bus device function)

/-- A zeroed `struct pci_device`. -/
def zeroedDevice : PciDevice := ⟨0, 0, 0, 0, 0, 0, 0, 0, 0, fun _ => 0⟩

/-- `get_bars` decodes the BARs and reads nothing else. -/
structure BarsDecoded (config : Config) (bus : BitVec 16) (device function : Byte) : Prop where
  bars : List.ofFn (getBars config zeroedDevice bus device function).bar =
    decodeBars (barDwords config bus device function)
  reads : ∀ a ∈ (getBarsNoted config zeroedDevice bus device function []).2,
    ∃ k < 6, a = slotAddr bus device function k

/-- The upper half `high`, with `next` behind it, gives 0 if it is taken for a BAR. -/
def Harmless (high next : BitVec 32) : Prop :=
  (IsIo high → high < 4) ∧ (¬ IsIo high → high < 16) ∧ (IsWide high → next = 0)

/-- The upper halves of the walk are harmless. -/
def HarmlessUppers : List (BitVec 32) → Prop
  | [] => True
  | [_] => True
  | low :: high :: rest =>
    if IsWide low then Harmless high (rest.headD 0) ∧ HarmlessUppers rest
    else HarmlessUppers (high :: rest)

/-! ## A slot -/

section Slot

variable {low high next : BitVec 32}

theorem and_toNat (low : BitVec 32) {k : ℕ} (hk : k ≤ 32) :
    (low &&& BitVec.ofNat 32 (2 ^ k - 1)).toNat = low.toNat % 2 ^ k := by
  have hpow : 2 ^ k ≤ 2 ^ 32 := Nat.pow_le_pow_right (by decide) hk
  have hpos := Nat.two_pow_pos k
  rw [BitVec.toNat_and, BitVec.toNat_ofNat, Nat.mod_eq_of_lt (by omega),
    Nat.and_two_pow_sub_one_eq_mod]

theorem and_one_toNat (low : BitVec 32) : (low &&& 1).toNat = low.toNat % 2 :=
  and_toNat low (k := 1) (by decide)

theorem isIo_iff : IsIo low ↔ low.toNat % 2 = 1 := by
  unfold IsIo
  rw [BitVec.toNat_eq, and_one_toNat]
  rfl

theorem isWide_iff : IsWide low ↔ low.toNat % 8 = 4 := by
  unfold IsWide
  rw [BitVec.toNat_eq]
  exact Iff.of_eq (congrArg (· = 4) (and_toNat low (k := 3) (by decide)))

theorem IsWide.not_io (h : IsWide low) : ¬ IsIo low := by
  rw [isWide_iff] at h
  rw [isIo_iff]
  omega

theorem and_one_ne_zero : low &&& 1 ≠ 0 ↔ IsIo low := by
  rw [isIo_iff, Ne, BitVec.toNat_eq, and_one_toNat]
  show ¬ low.toNat % 2 = 0 ↔ low.toNat % 2 = 1
  omega

theorem type_eq_two (h : ¬ IsIo low) : (low >>> 1) &&& 3 = 2 ↔ IsWide low := by
  rw [isIo_iff] at h
  have htype : ((low >>> 1) &&& 3).toNat = low.toNat / 2 % 4 := by
    rw [show (low >>> 1 &&& 3).toNat = (low >>> 1).toNat % 2 ^ 2 from
      and_toNat (low >>> 1) (k := 2) (by decide), BitVec.toNat_ushiftRight,
      Nat.shiftRight_eq_div_pow]
    rfl
  rw [isWide_iff, BitVec.toNat_eq, htype]
  show low.toNat / 2 % 4 = 2 ↔ low.toNat % 8 = 4
  omega

/-- Clearing the low bits leaves nothing of a small number only. -/
theorem and_not_eq_zero {k : ℕ} (hk : k ≤ 32) :
    low &&& ~~~BitVec.ofNat 32 (2 ^ k - 1) = 0 ↔ low.toNat < 2 ^ k := by
  have hself : low &&& ~~~BitVec.ofNat 32 (2 ^ k - 1) = 0 ↔
      low &&& BitVec.ofNat 32 (2 ^ k - 1) = low := by
    rw [BitVec.eq_of_getLsbD_eq_iff, BitVec.eq_of_getLsbD_eq_iff]
    refine forall₂_congr fun i hi => ?_
    rw [BitVec.getLsbD_and, BitVec.getLsbD_and, BitVec.getLsbD_not]
    simp [hi]
  rw [hself, BitVec.toNat_eq, and_toNat low hk]
  constructor
  · intro h
    rw [← h]
    exact Nat.mod_lt _ (Nat.two_pow_pos k)
  · exact Nat.mod_eq_of_lt

/-- What the code makes of a slot, with the dword behind it. -/
def slotBar (low next : BitVec 32) : U64 := if IsWide low then wideBase low next else narrowBase low

theorem setWidth_and_not (low : BitVec 32) :
    low.setWidth 64 &&& ~~~(0xF : U64) = (low &&& ~~~0xF).setWidth 64 := by
  apply BitVec.eq_of_getLsbD_eq
  intro i hi
  have h64 : (0xF : U64).getLsbD i = (decide (i < 64) && Nat.testBit 15 i) :=
    BitVec.getLsbD_ofNat ..
  have h32 : (0xF : BitVec 32).getLsbD i = (decide (i < 32) && Nat.testBit 15 i) :=
    BitVec.getLsbD_ofNat ..
  rw [BitVec.getLsbD_and, BitVec.getLsbD_not, BitVec.getLsbD_setWidth, BitVec.getLsbD_setWidth,
    BitVec.getLsbD_and, BitVec.getLsbD_not, h64, h32]
  by_cases hlt : i < 32
  · simp [hlt, hi]
  · simp [BitVec.getLsbD_of_ge low i (Nat.le_of_not_lt hlt)]

theorem wideBase_eq (low high : BitVec 32) :
    high.setWidth 64 <<< 32 ||| (low.setWidth 64 &&& ~~~0xF) = wideBase low high := by
  rw [setWidth_and_not]
  unfold wideBase
  generalize low &&& ~~~0xF = x
  apply BitVec.eq_of_getLsbD_eq
  intro i hi
  rw [BitVec.getLsbD_or, BitVec.getLsbD_shiftLeft, BitVec.getLsbD_setWidth,
    BitVec.getLsbD_setWidth, BitVec.getLsbD_append]
  split_ifs with hlt
  · simp [hlt, hi]
  · have hi' : i - 32 < 64 := by omega
    simp [hlt, hi, hi', BitVec.getLsbD_of_ge x i (Nat.le_of_not_lt hlt)]

theorem slotBar_eq (low next : BitVec 32) :
    (if low &&& 1 ≠ 0 then (low &&& ~~~3).setWidth 64
      else if (low >>> 1) &&& 3 = 2 then
        next.setWidth 64 <<< 32 ||| (low.setWidth 64 &&& ~~~0xF)
      else low.setWidth 64 &&& ~~~0xF) = slotBar low next := by
  unfold slotBar narrowBase
  by_cases hio : IsIo low
  · rw [if_pos (and_one_ne_zero.mpr hio), if_neg fun h => h.not_io hio, if_pos hio]
  · rw [if_neg fun h => hio (and_one_ne_zero.mp h), if_neg hio, wideBase_eq, setWidth_and_not]
    simp only [type_eq_two hio]

theorem slotBar_zero (next : BitVec 32) : slotBar 0 next = 0 := by
  unfold slotBar
  rw [if_neg (by decide)]
  decide

theorem setWidth_eq_zero {x : BitVec 32} : x.setWidth 64 = 0 ↔ x = 0 := by
  rw [BitVec.toNat_eq, BitVec.toNat_setWidth_of_le (by decide), BitVec.toNat_eq]
  rfl

/-- When an upper half gives nothing. -/
theorem slotBar_eq_zero : slotBar high next = 0 ↔ Harmless high next := by
  have h4 : high &&& ~~~3 = 0 ↔ high.toNat < 4 := and_not_eq_zero (k := 2) (by decide)
  have h16 : high &&& ~~~0xF = 0 ↔ high.toNat < 16 := and_not_eq_zero (k := 4) (by decide)
  have hlt4 : high < 4 ↔ high.toNat < 4 := Iff.rfl
  have hlt16 : high < 16 ↔ high.toNat < 16 := Iff.rfl
  unfold slotBar Harmless
  rw [hlt4, hlt16]
  by_cases hwide : IsWide high
  · have hzero : wideBase high next = 0 ↔ next = 0 ∧ high &&& ~~~0xF = 0 := by
      unfold wideBase
      rw [BitVec.toNat_eq, BitVec.toNat_append, BitVec.toNat_eq, BitVec.toNat_eq]
      show next.toNat <<< 32 ||| (high &&& ~~~0xF).toNat = 0 ↔ _
      rw [Nat.or_eq_zero_iff, Nat.shiftLeft_eq, Nat.mul_eq_zero, or_iff_left (by decide)]
      rfl
    have hio := hwide.not_io
    rw [if_pos hwide, hzero, h16]
    simp [hio, hwide, and_comm]
  · rw [if_neg hwide]
    unfold narrowBase
    split_ifs with hio
    · rw [setWidth_eq_zero, h4]
      simp [hio, hwide]
    · rw [setWidth_eq_zero, h16]
      simp [hio, hwide]

end Slot

/-! ## The list of the slots -/

/-- What the code makes of the slots; `e` is the dword behind the last. -/
def slotBars : List (BitVec 32) → BitVec 32 → List U64
  | [], _ => []
  | low :: rest, e => slotBar low (rest.headD e) :: slotBars rest e

/-- If the last slot does not ask for a dword behind it, only the upper halves can differ. -/
theorem slotBars_eq_iff (l : List (BitVec 32)) (e : BitVec 32)
    (hlast : ∀ x ∈ l.getLast?, ¬ IsWide x) : slotBars l e = decodeBars l ↔ HarmlessUppers l := by
  induction l using decodeBars.induct with
  | case1 => simp [slotBars, decodeBars, HarmlessUppers]
  | case2 low =>
    have hlow : ¬ IsWide low := hlast low rfl
    simp [slotBars, decodeBars, HarmlessUppers, slotBar, hlow]
  | case3 low high rest hwide ih =>
    have hlast' : ∀ x ∈ rest.getLast?, ¬ IsWide x := by
      intro x hx
      refine hlast x ?_
      cases rest with
      | nil => cases hx
      | cons y ys => exact hx
    have hupper : slotBar high (rest.headD e) = 0 ↔ Harmless high (rest.headD 0) := by
      cases rest with
      | nil =>
        have hhigh : ¬ IsWide high := hlast high rfl
        rw [slotBar_eq_zero]
        simp [Harmless, hhigh]
      | cons y ys => exact slotBar_eq_zero
    have hslots : slotBars (low :: high :: rest) e =
        wideBase low high :: slotBar high (rest.headD e) :: slotBars rest e := by
      rw [← show slotBar low high = wideBase low high from if_pos hwide]
      rfl
    unfold decodeBars HarmlessUppers
    rw [if_pos hwide, if_pos hwide, hslots, List.cons_inj_right, List.cons_eq_cons, hupper,
      ih hlast']
  | case4 low high rest hwide ih =>
    have hlast' : ∀ x ∈ (high :: rest).getLast?, ¬ IsWide x := hlast
    have hslot : slotBar low high = narrowBase low := if_neg hwide
    have hslots :
        slotBars (low :: high :: rest) e = slotBar low high :: slotBars (high :: rest) e := rfl
    unfold decodeBars HarmlessUppers
    rw [if_neg hwide, if_neg hwide, hslots, hslot, List.cons_inj_right]
    exact ih hlast'

/-! ## The code -/

section Code

variable {config : Config} {bus : BitVec 16} {device function : Byte}

theorem barNum_setWidth (n : Fin 6) :
    (BitVec.ofNat 8 n : Byte).setWidth 64 = BitVec.ofNat 64 n := by
  fin_cases n <;> rfl

theorem barNum_succ (n : Fin 6) : BitVec.ofNat 64 n + 1 = BitVec.ofNat 64 (n + 1) := by
  fin_cases n <;> rfl

theorem pciReadBar_eq (n : Fin 6) :
    pciReadBar config (bus.setWidth 8) device function (BitVec.ofNat 8 n) =
      slotBar (slotDword config bus device function n)
        (slotDword config bus device function (n + 1)) := by
  unfold pciReadBar
  dsimp only
  rw [barNum_setWidth, barNum_succ]
  exact slotBar_eq _ _

theorem getBars_bar (n : Fin 6) : (getBars config zeroedDevice bus device function).bar n =
    slotBar (slotDword config bus device function n)
      (slotDword config bus device function (n + 1)) := by
  unfold getBars
  rw [foldl_readBar]
  dsimp only
  rw [barNum_setWidth, pciReadBar_eq]
  by_cases hzero : slotDword config bus device function n = 0
  · rw [hzero, slotBar_zero]
    exact if_neg fun h => h.2 hzero
  · exact if_pos ⟨List.mem_finRange n, hzero⟩

theorem getBars_bars : List.ofFn (getBars config zeroedDevice bus device function).bar =
    slotBars (barDwords config bus device function) (slotDword config bus device function 6) := by
  have hbar : (getBars config zeroedDevice bus device function).bar = fun n : Fin 6 =>
      slotBar (slotDword config bus device function n)
        (slotDword config bus device function (n + 1)) := funext getBars_bar
  rw [hbar]
  rfl

/-- The reads for a slot. -/
def slotReads (config : Config) (bus : BitVec 16) (device function : Byte) (k : ℕ) : List U64 :=
  if slotDword config bus device function k = 0 then [slotAddr bus device function k]
  else if IsWide (slotDword config bus device function k) then
    [slotAddr bus device function k, slotAddr bus device function k,
      slotAddr bus device function (k + 1)]
  else [slotAddr bus device function k, slotAddr bus device function k]

theorem pciReadBarNoted_eq (n : Fin 6) (reads : List U64) :
    pciReadBarNoted config (bus.setWidth 8) device function (BitVec.ofNat 8 n) reads =
      (pciReadBar config (bus.setWidth 8) device function (BitVec.ofNat 8 n),
        reads ++ (slotAddr bus device function n ::
          if IsWide (slotDword config bus device function n) then
            [slotAddr bus device function (n + 1)]
          else [])) := by
  unfold pciReadBarNoted pciReadBar
  dsimp only [bind, StateT.bind, Config.fetch]
  rw [barNum_setWidth, barNum_succ]
  by_cases hio : IsIo (slotDword config bus device function n)
  · rw [if_neg fun h => IsWide.not_io h hio]
    have hne := and_one_ne_zero.mpr hio
    unfold slotDword slotAddr at hne
    rw [if_pos hne, if_pos hne]
    rfl
  · have hne := fun h => hio (and_one_ne_zero.mp h)
    have htype := type_eq_two hio
    unfold slotDword slotAddr at hne htype
    rw [if_neg hne, if_neg hne]
    by_cases hwide : IsWide (slotDword config bus device function n)
    · rw [if_pos hwide, if_pos (htype.mpr hwide), if_pos (htype.mpr hwide)]
      exact Prod.ext rfl (List.append_assoc ..)
    · rw [if_neg hwide, if_neg fun h => hwide (htype.mp h), if_neg fun h => hwide (htype.mp h)]
      rfl

theorem readBarNoted_eq (p : PciDevice) (n : Fin 6) (reads : List U64) :
    readBarNoted config (bus.setWidth 8) device function p n reads =
      (readBar config (bus.setWidth 8) device function p n,
        reads ++ slotReads config bus device function n) := by
  unfold readBarNoted readBar slotReads
  dsimp only [bind, StateT.bind, Config.fetch]
  rw [barNum_setWidth]
  by_cases hzero : slotDword config bus device function n = 0
  · rw [if_pos hzero]
    unfold slotDword slotAddr at hzero
    rw [if_pos hzero, if_pos hzero]
    rfl
  · rw [if_neg hzero]
    unfold slotDword slotAddr at hzero
    rw [if_neg hzero, if_neg hzero]
    dsimp only [StateT.bind]
    rw [pciReadBarNoted_eq]
    refine Prod.ext rfl ?_
    show _ ++ _ = _
    rw [List.append_assoc]
    congr 1
    split_ifs <;> rfl

theorem foldlM_readBarNoted (l : List (Fin 6)) (p : PciDevice) (reads : List U64) :
    l.foldlM (readBarNoted config (bus.setWidth 8) device function) p reads =
      (l.foldl (readBar config (bus.setWidth 8) device function) p,
        reads ++ l.flatMap fun n : Fin 6 => slotReads config bus device function n) := by
  induction l generalizing p reads with
  | nil => exact Prod.ext rfl (List.append_nil reads).symm
  | cons n l ih =>
    rw [List.foldlM_cons, List.foldl_cons, List.flatMap_cons, ← List.append_assoc, ← ih]
    show (readBarNoted config (bus.setWidth 8) device function p n >>= _) reads = _
    dsimp only [bind, StateT.bind]
    rw [readBarNoted_eq]

/-- The code that notes its reads does what the code does. -/
theorem getBarsNoted_eq (p : PciDevice) (reads : List U64) :
    getBarsNoted config p bus device function reads =
      (getBars config p bus device function,
        reads ++ (List.finRange 6).flatMap
          fun n : Fin 6 => slotReads config bus device function n) :=
  foldlM_readBarNoted _ p reads

theorem slotAddr_ne {k : ℕ} (hk : k < 6) :
    slotAddr bus device function k ≠ slotAddr bus device function 6 := by
  unfold slotAddr
  rw [Ne, BitVec.add_right_inj]
  interval_cases k <;> decide

/-- Nothing behind the last slot is read, unless that slot asks for it. -/
theorem reads_inside_iff :
    (∀ a ∈ (getBarsNoted config zeroedDevice bus device function []).2,
      ∃ k < 6, a = slotAddr bus device function k) ↔
    ¬ IsWide (slotDword config bus device function 5) := by
  rw [getBarsNoted_eq, List.nil_append]
  constructor
  · intro hall hwide
    have hzero : slotDword config bus device function 5 ≠ 0 := by
      rintro e
      rw [e] at hwide
      exact absurd hwide (by decide)
    have hmem : slotAddr bus device function 6 ∈ slotReads config bus device function 5 := by
      unfold slotReads
      rw [if_neg hzero, if_pos hwide]
      simp
    obtain ⟨k, hk, heq⟩ := hall (slotAddr bus device function 6)
      (List.mem_flatMap.mpr ⟨5, List.mem_finRange 5, hmem⟩)
    exact slotAddr_ne hk heq.symm
  · intro hlast a ha
    obtain ⟨n, -, ha⟩ := List.mem_flatMap.mp ha
    unfold slotReads at ha
    split_ifs at ha with hzero hwide
    · exact ⟨n, n.isLt, List.mem_singleton.mp ha⟩
    · have hn : (n : ℕ) ≠ 5 := fun e => hlast (e ▸ hwide)
      simp only [List.mem_cons, List.not_mem_nil, or_false, or_self_left] at ha
      rcases ha with ha | ha
      · exact ⟨n, n.isLt, ha⟩
      · exact ⟨n + 1, by omega, ha⟩
    · simp only [List.mem_cons, List.not_mem_nil, or_false, or_self] at ha
      exact ⟨n, n.isLt, ha⟩

end Code

/-- **When `get_bars` decodes the BARs.** Exactly when the last dword is not of the 64-bit type, and
the upper half of every 64-bit BAR is one that gives nothing if it is taken for a BAR: below 4 if it
is odd, below 16 if it is even, and with 0 behind it if it is of the 64-bit type. -/
theorem getBars_decode_iff (config : Config) (bus : BitVec 16) (device function : Byte) :
    BarsDecoded config bus device function ↔
      ¬ IsWide (slotDword config bus device function 5) ∧
        HarmlessUppers (barDwords config bus device function) := by
  constructor
  · intro h
    have hlast := reads_inside_iff.mp h.reads
    have hbars := h.bars
    rw [getBars_bars, slotBars_eq_iff _ _ fun x hx => by
      cases hx
      exact hlast] at hbars
    exact ⟨hlast, hbars⟩
  · rintro ⟨hlast, hupper⟩
    refine ⟨?_, reads_inside_iff.mpr hlast⟩
    rw [getBars_bars]
    refine (slotBars_eq_iff _ _ fun x hx => ?_).mpr hupper
    cases hx
    exact hlast

/-- A function whose first BAR is of 64 bits, at `0x40_FE00_0000`. -/
def highBar (a : U64) : Byte :=
  if a = pciConfig 0 0 0 + 0x10 then 0x04
  else if a = pciConfig 0 0 0 + 0x13 then 0xFE
  else if a = pciConfig 0 0 0 + 0x14 then 0x40
  else 0

theorem getBars_highBar : decodeBars (barDwords highBar 0 0 0) = [0x40FE000000, 0, 0, 0, 0, 0] ∧
    (getBars highBar zeroedDevice 0 0 0).bar 1 = 0x40 ∧ ¬ BarsDecoded highBar 0 0 0 := by
  have hdecode : decodeBars (barDwords highBar 0 0 0) = [0x40FE000000, 0, 0, 0, 0, 0] := by decide
  have hbar : (getBars highBar zeroedDevice 0 0 0).bar 1 = 0x40 := by decide
  refine ⟨hdecode, hbar, fun h => ?_⟩
  have hbars := congrArg (fun l => l[1]?) (h.bars.trans hdecode)
  rw [List.getElem?_ofFn] at hbars
  have heq := (Option.some.inj hbars).symm.trans hbar
  exact absurd heq (by decide)

end DejOs
