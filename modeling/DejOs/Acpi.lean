import DejOs.CString
import DejOs.Lib.Loop
import DejOs.Pcie

/-!
# The ACPI tables

`find_x` of `generic.c` and `mcfg_enter` of `pcie.c`. Both take a number of entries from the
`Length` of a table, by an unsigned difference that wraps for a table shorter than its header.
`find_x` keeps the number in an `int`, which is negative then, and walks nothing (`findX_first`);
`mcfg_enter` keeps it in a `size_t`, and walks on through memory (`mcfgEnter_inside_iff`).
-/

namespace DejOs.Acpi

open CString Loop

/-! ## The code -/

/-- `header.Length`, behind the signature. -/
def headerLength (m : Config) (table : U64) : BitVec 32 := m.read32 (table + 4)

/-- `int entries` of `find_x` -/
def rsdtEntries (m : Config) (rsdt : U64) : CInt :=
  (((headerLength m rsdt).setWidth 64 - 36) / 4).setWidth 32

/-- `rsdt->entries[i]` -/
def rsdtEntry (m : Config) (rsdt : U64) (i : CInt) : BitVec 32 :=
  m.read32 (rsdt + 36 + i.signExtend 64 * 4)

/-- The variables of `find_x`. -/
structure FindX where
  i : CInt
  /-- The indices of the entries read so far. -/
  reads : List CInt
  deriving DecidableEq, Repr

/-- A round of the loop of `find_x`; `offset` is the one of the HHDM. -/
def findXRound (m : Config) (offset rsdt s : U64) (v : FindX) : FindX ⊕ (U64 × FindX) :=
  if v.i.slt (rsdtEntries m rsdt) then
    let h := (rsdtEntry m rsdt v.i).setWidth 64 + offset
    let reads := v.reads ++ [v.i]
    if strncmp m h s 4 = 0 then .inr (h, ⟨v.i, reads⟩) else .inl ⟨v.i + 1, reads⟩
  else .inr (0, v)

/-- `find_x` returns `r`, with these variables. -/
def ReturnsX (m : Config) (offset rsdt s r : U64) (v : FindX) : Prop :=
  Returns (findXRound m offset rsdt s) ⟨0, []⟩ (r, v)

/-- `entry_count` of `mcfg_enter` -/
def mcfgEntryCount (m : Config) (mcfg : U64) : U64 :=
  ((headerLength m mcfg).setWidth 64 - 36 - 8) / 16

/-- `*(uint64_t *)a` -/
def read64 (m : Config) (a : U64) : U64 := m.read32 (a + 4) ++ m.read32 a

/-- The lines logged for an entry. -/
def mcfgLines (m : Config) (mcfg i : U64) : List Logf :=
  let entry := mcfg + 44 + i * 16
  [⟨"acpi", "MCFG entry %u : \n", [i]⟩,
    ⟨"acpi", "base: %p \n", [read64 m entry]⟩,
    ⟨"acpi", "segment:  %u \n", [(m.read16 (entry + 8)).setWidth 64]⟩,
    ⟨"acpi", "Buses : %u-%u \n", [(m (entry + 10)).setWidth 64, (m (entry + 11)).setWidth 64]⟩]

/-- The variables of `mcfg_enter`. -/
structure McfgWalk where
  i : U64
  log : List Logf
  deriving DecidableEq, Repr

/-- A round of the loop of `mcfg_enter`. -/
def mcfgRound (m : Config) (mcfg : U64) (w : McfgWalk) : McfgWalk ⊕ McfgWalk :=
  if w.i < mcfgEntryCount m mcfg then .inl ⟨w.i + 1, w.log ++ mcfgLines m mcfg w.i⟩ else .inr w

/-- `mcfg_enter` returns, after the lines of `log` and the scan `scan`. The checksum is computed
first and not used. -/
def McfgEnter (ds : List Driver) (m : Config) (mcfg : U64) (stack : PciDevice) (log : List Logf)
    (scan : Scan) : Prop :=
  (∃ i, Returns (mcfgRound m mcfg) ⟨0, []⟩ ⟨i, log⟩) ∧ scan = getDrivers ds m stack

/-! ## `find_x` -/

section FindX

variable {m : Config} {offset rsdt s : U64} {k : ℕ}

/-- Entry `k` of a table is in it. -/
def InRsdt (m : Config) (rsdt : U64) (k : ℕ) : Prop :=
  36 + 4 * (k + 1) ≤ (headerLength m rsdt).toNat

/-- The address of the table of entry `k`. -/
def tableAddr (m : Config) (offset rsdt : U64) (k : ℕ) : U64 :=
  (m.read32 (rsdt + 36 + BitVec.ofNat 64 k * 4)).setWidth 64 + offset

/-- The table of entry `k` has the signature `s`. -/
def HasSignature (m : Config) (offset rsdt s : U64) (k : ℕ) : Prop :=
  SameBytes m (tableAddr m offset rsdt k) s 4

instance (m : Config) (offset rsdt s : U64) (k : ℕ) : Decidable (HasSignature m offset rsdt s k) :=
  inferInstanceAs (Decidable (SameBytes ..))

theorem headerLength_lt (m : Config) (table : U64) : (headerLength m table).toNat < 2 ^ 32 :=
  (headerLength m table).isLt

theorem rsdtEntries_toNat (m : Config) (rsdt : U64) : (rsdtEntries m rsdt).toNat =
    (2 ^ 64 - 36 + (headerLength m rsdt).toNat) % 2 ^ 64 / 4 % 2 ^ 32 := by
  unfold rsdtEntries
  rw [BitVec.toNat_setWidth, BitVec.toNat_udiv, BitVec.toNat_sub,
    BitVec.toNat_setWidth_of_le (by decide)]
  rfl

/-- The test of the loop, also for a number that has wrapped. -/
theorem slt_rsdtEntries_iff (hk : k < 2 ^ 31) :
    (BitVec.ofNat 32 k).slt (rsdtEntries m rsdt) = true ↔ InRsdt m rsdt k := by
  have hlen := headerLength_lt m rsdt
  have hcount := rsdtEntries_toNat m rsdt
  have hi : (BitVec.ofNat 32 k).toNat = k := Nat.mod_eq_of_lt (by omega)
  rw [BitVec.slt_iff_toInt_lt, BitVec.toInt_eq_toNat_cond, BitVec.toInt_eq_toNat_cond, hi]
  unfold InRsdt
  generalize (rsdtEntries m rsdt).toNat = n at hcount ⊢
  generalize (headerLength m rsdt).toNat = l at hlen hcount ⊢
  split_ifs <;> omega

theorem rsdtEntry_eq (hk : k < 2 ^ 31) : rsdtEntry m rsdt (BitVec.ofNat 32 k) =
    m.read32 (rsdt + 36 + BitVec.ofNat 64 k * 4) := by
  have hext : (BitVec.ofNat 32 k).signExtend 64 = BitVec.ofNat 64 k := by
    apply BitVec.eq_of_toInt_eq
    have hi : (BitVec.ofNat 32 k).toNat = k := Nat.mod_eq_of_lt (by omega)
    have hi' : (BitVec.ofNat 64 k).toNat = k := Nat.mod_eq_of_lt (by omega)
    rw [BitVec.toInt_signExtend_of_le (by decide), BitVec.toInt_eq_toNat_cond,
      BitVec.toInt_eq_toNat_cond, hi, hi', if_pos (by omega), if_pos (by omega)]
  unfold rsdtEntry
  rw [hext]

theorem InRsdt.lt (h : InRsdt m rsdt k) : k < 2 ^ 30 - 9 := by
  have hlen := headerLength_lt m rsdt
  unfold InRsdt at h
  omega

theorem findXRound_outside (hk : k < 2 ^ 31) (h : ¬ InRsdt m rsdt k) (reads : List CInt) :
    findXRound m offset rsdt s ⟨BitVec.ofNat 32 k, reads⟩ =
      .inr (0, ⟨BitVec.ofNat 32 k, reads⟩) := by
  unfold findXRound
  exact if_neg fun hlt => h ((slt_rsdtEntries_iff hk).mp hlt)

theorem findXRound_inside (offset : U64) (hs : ∀ j < 4, m (s + BitVec.ofNat 64 j) ≠ 0)
    (h : InRsdt m rsdt k) (reads : List CInt) :
    findXRound m offset rsdt s ⟨BitVec.ofNat 32 k, reads⟩ =
      if HasSignature m offset rsdt s k then
        .inr (tableAddr m offset rsdt k, ⟨BitVec.ofNat 32 k, reads ++ [BitVec.ofNat 32 k]⟩)
      else .inl ⟨BitVec.ofNat 32 (k + 1), reads ++ [BitVec.ofNat 32 k]⟩ := by
  have hk : k < 2 ^ 31 := by
    have := h.lt
    omega
  unfold findXRound
  dsimp only
  rw [if_pos ((slt_rsdtEntries_iff hk).mpr h), rsdtEntry_eq hk]
  have hcmp : strncmp m (tableAddr m offset rsdt k) s 4 = 0 ↔ HasSignature m offset rsdt s k :=
    strncmp_eq_zero_iff hs
  by_cases hsig : HasSignature m offset rsdt s k
  · rw [if_pos hsig]
    exact if_pos (hcmp.mpr hsig)
  · rw [if_neg hsig, BitVec.ofNat_add]
    exact if_neg fun h => hsig (hcmp.mp h)

/-- What `find_x` finds from entry `k` on: the first table with the signature, or nothing. -/
def FoundFrom (m : Config) (offset rsdt s : U64) (k : ℕ) (r : U64) : Prop :=
  (∃ j, k ≤ j ∧ InRsdt m rsdt j ∧ HasSignature m offset rsdt s j ∧
    (∀ l, k ≤ l → l < j → ¬ HasSignature m offset rsdt s l) ∧ r = tableAddr m offset rsdt j) ∨
  ((∀ j, k ≤ j → InRsdt m rsdt j → ¬ HasSignature m offset rsdt s j) ∧ r = 0)

theorem FoundFrom.of_succ {r : U64} (h : FoundFrom m offset rsdt s (k + 1) r)
    (hk : ¬ HasSignature m offset rsdt s k) : FoundFrom m offset rsdt s k r := by
  have hcase : ∀ l, k ≤ l → l = k ∨ k + 1 ≤ l := by omega
  rcases h with ⟨j, hj, hin, hsig, hbefore, rfl⟩ | ⟨hnone, rfl⟩
  · refine Or.inl ⟨j, by omega, hin, hsig, fun l hl hlj => ?_, rfl⟩
    rcases hcase l hl with rfl | hl
    · exact hk
    · exact hbefore l hl hlj
  · refine Or.inr ⟨fun j hj hin => ?_, rfl⟩
    rcases hcase j hj with rfl | hj
    · exact hk
    · exact hnone j hj hin

theorem returns_from (hs : ∀ j < 4, m (s + BitVec.ofNat 64 j) ≠ 0) (d : ℕ)
    (hd : ¬ InRsdt m rsdt (k + d)) (hk : k < 2 ^ 31) (reads : List CInt) :
    ∃ r v, Returns (findXRound m offset rsdt s) ⟨BitVec.ofNat 32 k, reads⟩ (r, v) ∧
      (∀ i ∈ v.reads, i ∈ reads ∨ InRsdt m rsdt i.toNat) ∧ FoundFrom m offset rsdt s k r := by
  induction d generalizing k reads with
  | zero =>
    refine ⟨0, _, Returns.here (findXRound_outside hk hd reads), fun i hi => Or.inl hi, ?_⟩
    refine Or.inr ⟨fun j hj hin => absurd ?_ hd, rfl⟩
    unfold InRsdt at hin ⊢
    omega
  | succ d ih =>
    by_cases hin : InRsdt m rsdt k
    · have hlt := hin.lt
      have hmem : ∀ i ∈ reads ++ [BitVec.ofNat 32 k], i ∈ reads ∨ InRsdt m rsdt i.toNat := by
        intro i hi
        rcases List.mem_append.mp hi with hi | hi
        · exact Or.inl hi
        · obtain rfl := List.mem_singleton.mp hi
          rw [BitVec.toNat_ofNat, Nat.mod_eq_of_lt (by omega)]
          exact Or.inr hin
      have hround := findXRound_inside offset hs hin reads
      by_cases hsig : HasSignature m offset rsdt s k
      · rw [if_pos hsig] at hround
        exact ⟨_, _, Returns.here hround, hmem,
          Or.inl ⟨k, le_rfl, hin, hsig, fun l hl hlk => by omega, rfl⟩⟩
      · rw [if_neg hsig] at hround
        obtain ⟨r, v, hret, hreads, hfound⟩ := ih (k := k + 1)
          (by rwa [show k + 1 + d = k + (d + 1) by omega]) (by omega)
          (reads ++ [BitVec.ofNat 32 k])
        refine ⟨r, v, Returns.next hround hret, fun i hi => ?_, hfound.of_succ hsig⟩
        exact (hreads i hi).elim (hmem i) Or.inr
    · refine ⟨0, _, Returns.here (findXRound_outside hk hin reads), fun i hi => Or.inl hi, ?_⟩
      refine Or.inr ⟨fun j hj hin' => absurd ?_ hin, rfl⟩
      unfold InRsdt at hin' ⊢
      omega

end FindX

/-- **`find_x`.** For every `Length` it returns, reads only entries that are in the table, and gives
the first table with the signature, or `NULL` if there is none. -/
theorem findX_first (m : Config) (offset rsdt s : U64)
    (hs : ∀ j < 4, m (s + BitVec.ofNat 64 j) ≠ 0) :
    ∃ r v, ReturnsX m offset rsdt s r v ∧ (∀ i ∈ v.reads, InRsdt m rsdt i.toNat) ∧
      ((∃ k, InRsdt m rsdt k ∧ HasSignature m offset rsdt s k ∧
          (∀ j < k, ¬ HasSignature m offset rsdt s j) ∧ r = tableAddr m offset rsdt k) ∨
        ((∀ k, InRsdt m rsdt k → ¬ HasSignature m offset rsdt s k) ∧ r = 0)) := by
  have hend : ¬ InRsdt m rsdt (0 + 2 ^ 30) := fun h => by
    have := h.lt
    omega
  obtain ⟨r, v, hret, hreads, hfound⟩ := returns_from hs (2 ^ 30) hend (by decide) []
  refine ⟨r, v, hret, fun i hi => (hreads i hi).resolve_left List.not_mem_nil, ?_⟩
  rcases hfound with ⟨k, -, hin, hsig, hbefore, hr⟩ | ⟨hnone, hr⟩
  · exact Or.inl ⟨k, hin, hsig, fun j hj => hbefore j (Nat.zero_le j) hj, hr⟩
  · exact Or.inr ⟨fun k hin => hnone k (Nat.zero_le k) hin, hr⟩

/-- An RSDT at `0x1000` with the table at `0x2000` as its one entry, and the text at `0x3000`. -/
def oneTable (a : U64) : Byte :=
  if a = 0x1004 then 40
  else if a = 0x1025 then 0x20
  else if a = 0x2000 ∨ a = 0x3000 then 0x4D
  else if a = 0x2001 ∨ a = 0x3001 then 0x43
  else if a = 0x2002 ∨ a = 0x3002 then 0x46
  else if a = 0x2003 ∨ a = 0x3003 then 0x47
  else 0

theorem findX_first_oneTable : ∃ v, ReturnsX oneTable 0 0x1000 0x3000 0x2000 v ∧
    ∀ i ∈ v.reads, InRsdt oneTable 0x1000 i.toNat := by
  obtain ⟨r, v, hret, hreads, hfound⟩ := findX_first oneTable 0 0x1000 0x3000 (by decide)
  have hin : InRsdt oneTable 0x1000 0 := by unfold InRsdt; decide
  have hsig : HasSignature oneTable 0 0x1000 0x3000 0 := by decide
  rcases hfound with ⟨k, -, -, hbefore, rfl⟩ | ⟨hnone, -⟩
  · obtain rfl : k = 0 := by
      by_contra hk
      exact hbefore 0 (Nat.pos_of_ne_zero hk) hsig
    exact ⟨v, hret, hreads⟩
  · exact absurd hsig (hnone 0 hin)

/-! ## `mcfg_enter` -/

section Mcfg

variable {m : Config} {mcfg : U64} {k : ℕ}

/-- Entry `k` is visited. -/
def Visits (m : Config) (mcfg : U64) (k : ℕ) : Prop :=
  ∃ n w w', orbit (again (mcfgRound m mcfg)) n ⟨0, []⟩ = some w ∧
    mcfgRound m mcfg w = .inl w' ∧ w.i.toNat = k

theorem mcfgEntryCount_toNat (m : Config) (mcfg : U64) : (mcfgEntryCount m mcfg).toNat =
    (2 ^ 64 - 44 + (headerLength m mcfg).toNat) % 2 ^ 64 / 16 := by
  have hlen := headerLength_lt m mcfg
  unfold mcfgEntryCount
  rw [BitVec.toNat_udiv, BitVec.toNat_sub, BitVec.toNat_sub,
    BitVec.toNat_setWidth_of_le (by decide)]
  show (2 ^ 64 - 8 + (2 ^ 64 - 36 + (headerLength m mcfg).toNat) % 2 ^ 64) % 2 ^ 64 / 16 = _
  omega

theorem lt_of_mcfgRound {w w' : McfgWalk} (h : mcfgRound m mcfg w = .inl w') :
    w.i < mcfgEntryCount m mcfg := by
  unfold mcfgRound at h
  split_ifs at h with hlt
  exact hlt

theorem Visits.lt (h : Visits m mcfg k) : k < (mcfgEntryCount m mcfg).toNat := by
  obtain ⟨n, w, w', -, hround, rfl⟩ := h
  exact lt_of_mcfgRound hround

theorem visits_zero (h : 0 < mcfgEntryCount m mcfg) : Visits m mcfg 0 :=
  ⟨0, ⟨0, []⟩, _, rfl, if_pos h, rfl⟩

theorem mcfgRound_returns (d : ℕ) (hd : k + d = (mcfgEntryCount m mcfg).toNat) (log : List Logf) :
    Returns (mcfgRound m mcfg) ⟨BitVec.ofNat 64 k, log⟩ ⟨mcfgEntryCount m mcfg,
      log ++ (List.range' k d).flatMap fun j => mcfgLines m mcfg (BitVec.ofNat 64 j)⟩ := by
  have hcount := (mcfgEntryCount m mcfg).isLt
  have hi : (BitVec.ofNat 64 k).toNat = k := Nat.mod_eq_of_lt (by omega)
  induction d generalizing k log with
  | zero =>
    obtain rfl : k = (mcfgEntryCount m mcfg).toNat := hd
    rw [BitVec.ofNat_toNat, BitVec.setWidth_eq, List.range'_zero, List.flatMap_nil, List.append_nil]
    exact Returns.here (if_neg (BitVec.lt_irrefl _))
  | succ d ih =>
    have hlt : BitVec.ofNat 64 k < mcfgEntryCount m mcfg := by
      rw [BitVec.lt_def, hi]
      omega
    have hround : mcfgRound m mcfg ⟨BitVec.ofNat 64 k, log⟩ =
        .inl ⟨BitVec.ofNat 64 (k + 1), log ++ mcfgLines m mcfg (BitVec.ofNat 64 k)⟩ := by
      rw [BitVec.ofNat_add]
      exact if_pos hlt
    rw [List.range'_succ, List.flatMap_cons, ← List.append_assoc]
    exact Returns.next hround (ih (by omega) _ (Nat.mod_eq_of_lt (by omega)))

/-- `mcfg_enter` comes to its end: it logs its entries, and the functions are scanned. -/
theorem mcfgEnter_returns (ds : List Driver) (m : Config) (mcfg : U64) (stack : PciDevice) :
    McfgEnter ds m mcfg stack ((List.range (mcfgEntryCount m mcfg).toNat).flatMap fun j =>
      mcfgLines m mcfg (BitVec.ofNat 64 j)) (getDrivers ds m stack) := by
  refine ⟨⟨mcfgEntryCount m mcfg, ?_⟩, rfl⟩
  rw [List.range_eq_range']
  exact mcfgRound_returns (k := 0) _ (Nat.zero_add _) []

end Mcfg

/-- **When `mcfg_enter` stays in the table.** Exactly when the table is not shorter than its
header. -/
theorem mcfgEnter_inside_iff (m : Config) (mcfg : U64) :
    (∀ k, Visits m mcfg k → 44 + 16 * (k + 1) ≤ (headerLength m mcfg).toNat) ↔
      44 ≤ (headerLength m mcfg).toNat := by
  have hlen := headerLength_lt m mcfg
  have hcount := mcfgEntryCount_toNat m mcfg
  constructor
  · intro hall
    by_contra hshort
    have hpos : 0 < mcfgEntryCount m mcfg := by
      rw [BitVec.lt_def, hcount]
      show 0 < _
      omega
    have hzero := hall 0 (visits_zero hpos)
    omega
  · intro hle k hk
    have hlt := hk.lt
    omega

/-- A table of length 0. -/
theorem mcfgEnter_empty : (headerLength (fun _ => 0) 0x1000).toNat = 0 ∧
    Visits (fun _ => 0) 0x1000 0 := by
  refine ⟨by decide, visits_zero ?_⟩
  decide

end DejOs.Acpi
