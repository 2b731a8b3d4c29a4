import DejOs.Acpi
import DejOs.PcieBars

/-!
# Checksums before tables

`parse_acpi` of `generic.c` with its two checksum loops. The RSDP is checked before its
`RsdtAddress` is followed and the RSDT before its entries are walked, and a wrong sum is a panic.
`mcfg_enter` computes the sum of the MCFG table and drops it, so that this table alone may be used
with a wrong one (`parseAcpi_checked_iff`).
-/

namespace DejOs.Acpi

open CString Loop

/-! ## The code -/

/-- The loop of the two checksums: a `uint8_t` accumulator over the `n` bytes from `p` on. -/
def byteSum (m : Config) (p : U64) (n : ℕ) : Byte :=
  (List.range n).foldl (fun acc i => acc + m (p + BitVec.ofNat 64 i)) 0

/-- `sizeof(struct RSDP_t)` -/
def rsdpSize : ℕ := 20

/-- `check_rsdpsum` -/
def checkRsdpsum (m : Config) (rsdp : U64) : Bool := byteSum m rsdp rsdpSize == 0

/-- `check_genericsum` -/
def checkGenericsum (m : Config) (table : U64) : Bool :=
  byteSum m table (headerLength m table).toNat == 0

/-- `rsdp->Revision` -/
def rsdpRevision (m : Config) (rsdp : U64) : Byte := m (rsdp + 15)

/-- `phys2virt32(rsdp->RsdtAddress)`; `offset` is the one of the HHDM. -/
def rsdtOf (m : Config) (offset rsdp : U64) : U64 := (m.read32 (rsdp + 16)).setWidth 64 + offset

/-- The ways in which a table is used. -/
inductive Use
  /-- The `RsdtAddress` of an RSDP is followed. -/
  | follow (rsdp : U64)
  /-- The entries of an RSDT are walked. -/
  | walkRsdt (rsdt : U64)
  /-- The entries of an MCFG are walked, and the buses are scanned. -/
  | walkMcfg (mcfg : U64)
  deriving DecidableEq, Repr

/-- What `parse_acpi` has done: the tables it used, the lines it logged, the scan, and the panic if
it ended in one. -/
structure Parsed where
  uses : List Use
  log : List Logf
  scan : Option Scan
  halt : Option Halt

section Parse

variable (ds : List Driver) (m : Config) (offset text rsdp : U64) (stack : PciDevice)

/-- `parse_acpi_earlyboot_rev1` ends with `o`; `text` is the address of `"MCFG"`. -/
def ParseAcpiEarlybootRev1 (o : Parsed) : Prop :=
  let log : List Logf := [⟨"acpi", "Reading acpi1 tables \n", []⟩]
  if checkRsdpsum m rsdp = false then
    o = ⟨[], log, none, some (.panic "rsdp invalid" .hardwareFailure)⟩
  else
    let log := log ++ [⟨"acpi", "Found acpi rsdp \n", []⟩]
    let rsdt := rsdtOf m offset rsdp
    if checkGenericsum m rsdt = false then
      o = ⟨[.follow rsdp], log, none, some (.panic "rsdt invalid" .hardwareFailure)⟩
    else
      let log := log ++ [⟨"acpi", "Found valid rsdt\n", []⟩]
      ∃ mcfg v, ReturnsX m offset rsdt text mcfg v ∧
        if mcfg ≠ 0 then
          ∃ lines scan, McfgEnter ds m mcfg stack lines scan ∧
            o = ⟨[.follow rsdp, .walkRsdt rsdt, .walkMcfg mcfg], log ++ lines, some scan, none⟩
        else
          o = ⟨[.follow rsdp, .walkRsdt rsdt],
            log ++ [⟨"acpi", "Failed to find MCFG\n", []⟩], none, none⟩

/-- `parse_acpi_earlyboot_rev2` -/
def parseAcpiEarlybootRev2 : Parsed :=
  ⟨[], [⟨"acpi", "using revision more than 2", []⟩], none, none⟩

/-- `parse_acpi` ends with `o`; `rsdp` is the address the boot loader gives. -/
def ParseAcpi (o : Parsed) : Prop :=
  if 1 < rsdpRevision m rsdp then o = parseAcpiEarlybootRev2
  else ParseAcpiEarlybootRev1 ds m offset text rsdp stack o

end Parse

/-! ## The sums -/

/-- The `n` bytes from `p` on sum to 0 modulo 256. -/
def SumsToZero (m : Config) (p : U64) (n : ℕ) : Prop :=
  ((List.range n).map fun i => (m (p + BitVec.ofNat 64 i)).toNat).sum % 256 = 0

instance (m : Config) (p : U64) (n : ℕ) : Decidable (SumsToZero m p n) :=
  inferInstanceAs (Decidable (_ = _))

/-- A table of the length that its header says sums to 0. -/
def TableSums (m : Config) (table : U64) : Prop := SumsToZero m table (headerLength m table).toNat

/-- The table that is used sums to 0 over its full extent. -/
def Use.Checked (m : Config) : Use → Prop
  | .follow rsdp => SumsToZero m rsdp rsdpSize
  | .walkRsdt rsdt => TableSums m rsdt
  | .walkMcfg mcfg => TableSums m mcfg

/-- The accumulator is the sum modulo 256. -/
theorem byteSum_toNat (m : Config) (p : U64) (n : ℕ) : (byteSum m p n).toNat =
    ((List.range n).map fun i => (m (p + BitVec.ofNat 64 i)).toNat).sum % 256 := by
  unfold byteSum
  induction n with
  | zero => rfl
  | succ n ih =>
    rw [List.range_succ, List.foldl_append, List.map_append, List.sum_append]
    simp only [List.foldl_cons, List.foldl_nil, List.map_cons, List.map_nil, List.sum_cons,
      List.sum_nil, Nat.add_zero]
    rw [BitVec.toNat_add, ih, Nat.mod_add_mod]

theorem byteSum_eq_zero (m : Config) (p : U64) (n : ℕ) :
    (byteSum m p n == 0) = true ↔ SumsToZero m p n := by
  rw [beq_iff_eq, BitVec.toNat_eq, byteSum_toNat]
  rfl

theorem checkRsdpsum_iff (m : Config) (rsdp : U64) :
    checkRsdpsum m rsdp = true ↔ SumsToZero m rsdp rsdpSize := byteSum_eq_zero ..

theorem checkGenericsum_iff (m : Config) (table : U64) :
    checkGenericsum m table = true ↔ TableSums m table := byteSum_eq_zero ..

/-! ## The tables that are used -/

section Uses

variable {ds : List Driver} {m : Config} {offset text rsdp : U64} {stack : PciDevice}

/-- `t` is the table of the first entry of the RSDT with the signature. -/
def IsFirst (m : Config) (offset rsdt text t : U64) : Prop :=
  ∃ k, InRsdt m rsdt k ∧ HasSignature m offset rsdt text k ∧
    (∀ j < k, ¬ HasSignature m offset rsdt text j) ∧ t = tableAddr m offset rsdt k

/-- The way to `mcfg_enter` is open. -/
structure Reaches (m : Config) (offset text rsdp mcfg : U64) : Prop where
  revision : ¬ 1 < rsdpRevision m rsdp
  rsdp_sums : SumsToZero m rsdp rsdpSize
  rsdt_sums : TableSums m (rsdtOf m offset rsdp)
  first : IsFirst m offset (rsdtOf m offset rsdp) text mcfg
  nonzero : mcfg ≠ 0

theorem IsFirst.unique {rsdt t t' : U64} (h : IsFirst m offset rsdt text t)
    (h' : IsFirst m offset rsdt text t') : t = t' := by
  obtain ⟨k, -, hsig, hbefore, rfl⟩ := h
  obtain ⟨k', -, hsig', hbefore', rfl⟩ := h'
  rcases lt_trichotomy k k' with hlt | rfl | hlt
  · exact absurd hsig (hbefore' k hlt)
  · rfl
  · exact absurd hsig' (hbefore k' hlt)

theorem text_ne_zero (htext : IsString m text [0x4D, 0x43, 0x46, 0x47]) :
    ∀ j < 4, m (text + BitVec.ofNat 64 j) ≠ 0 := by
  intro j hj
  rw [htext.getElem hj]
  exact htext.ne_zero _ (List.getElem_mem _)

theorem findX_returns (htext : IsString m text [0x4D, 0x43, 0x46, 0x47]) (offset rsdt : U64) :
    ∃ r v, ReturnsX m offset rsdt text r v ∧
      (IsFirst m offset rsdt text r ∨ (∀ t, ¬ IsFirst m offset rsdt text t) ∧ r = 0) := by
  have hend : ¬ InRsdt m rsdt (0 + 2 ^ 30) := fun h => by
    have := h.lt
    omega
  obtain ⟨r, v, hret, -, hfound⟩ : ∃ r v, ReturnsX m offset rsdt text r v ∧ _ ∧
      FoundFrom m offset rsdt text 0 r :=
    returns_from (text_ne_zero htext) (2 ^ 30) hend (by decide) []
  refine ⟨r, v, hret, ?_⟩
  rcases hfound with ⟨k, -, hin, hsig, hbefore, hr⟩ | ⟨hnone, hr⟩
  · exact Or.inl ⟨k, hin, hsig, fun j hj => hbefore j (Nat.zero_le j) hj, hr⟩
  · refine Or.inr ⟨?_, hr⟩
    rintro t ⟨k, hin, hsig, -⟩
    exact hnone k (Nat.zero_le k) hin hsig

theorem parseAcpi_ends (ds : List Driver) (offset rsdp : U64) (stack : PciDevice)
    (htext : IsString m text [0x4D, 0x43, 0x46, 0x47]) :
    ∃ o, ParseAcpi ds m offset text rsdp stack o := by
  unfold ParseAcpi
  split_ifs
  · exact ⟨_, rfl⟩
  · unfold ParseAcpiEarlybootRev1
    dsimp only
    split_ifs
    · exact ⟨_, rfl⟩
    · exact ⟨_, rfl⟩
    · obtain ⟨mcfg, v, hret, -⟩ := findX_returns htext offset (rsdtOf m offset rsdp)
      by_cases hzero : mcfg = 0
      · exact ⟨_, mcfg, v, hret, (if_neg (not_not.mpr hzero)).mpr rfl⟩
      · have henter := mcfgEnter_returns ds m mcfg stack
        exact ⟨_, mcfg, v, hret, (if_pos hzero).mpr ⟨_, _, henter, rfl⟩⟩

/-- The uses, table by table: each check that fails ends them, and the last table is not checked. -/
theorem uses_cases (htext : IsString m text [0x4D, 0x43, 0x46, 0x47]) {o : Parsed}
    (h : ParseAcpi ds m offset text rsdp stack o) :
    ((∀ mcfg, ¬ Reaches m offset text rsdp mcfg) ∧ ∀ u ∈ o.uses, u.Checked m) ∨
      ∃ mcfg, Reaches m offset text rsdp mcfg ∧
        o.uses = [.follow rsdp, .walkRsdt (rsdtOf m offset rsdp), .walkMcfg mcfg] := by
  unfold ParseAcpi at h
  split_ifs at h with hrev
  · refine Or.inl ⟨fun mcfg hr => hr.revision hrev, ?_⟩
    rw [h]
    exact fun u hu => absurd hu List.not_mem_nil
  unfold ParseAcpiEarlybootRev1 at h
  dsimp only at h
  split_ifs at h with hrsdp hrsdt
  · refine Or.inl ⟨fun mcfg hr => ?_, ?_⟩
    · rw [(checkRsdpsum_iff m rsdp).mpr hr.rsdp_sums] at hrsdp
      cases hrsdp
    · rw [h]
      exact fun u hu => absurd hu List.not_mem_nil
  · have hsums := (checkRsdpsum_iff m rsdp).mp (Bool.eq_true_of_not_eq_false hrsdp)
    refine Or.inl ⟨fun mcfg hr => ?_, ?_⟩
    · rw [(checkGenericsum_iff m _).mpr hr.rsdt_sums] at hrsdt
      cases hrsdt
    · rw [h]
      intro u hu
      rw [List.mem_singleton.mp hu]
      exact hsums
  · have hsums := (checkRsdpsum_iff m rsdp).mp (Bool.eq_true_of_not_eq_false hrsdp)
    have htable := (checkGenericsum_iff m _).mp (Bool.eq_true_of_not_eq_false hrsdt)
    obtain ⟨mcfg, v, hret, h⟩ := h
    -- what `find_x` returned is what it returns
    obtain ⟨r, v', hret', hfirst⟩ := findX_returns htext offset (rsdtOf m offset rsdp)
    obtain ⟨rfl, rfl⟩ := Prod.mk.inj (Returns.unique hret hret')
    by_cases hzero : mcfg = 0
    · rw [if_neg (not_not.mpr hzero)] at h
      refine Or.inl ⟨fun t hr => ?_, ?_⟩
      · rcases hfirst with hfirst | ⟨hnone, -⟩
        · exact hr.nonzero ((hr.first.unique hfirst).trans hzero)
        · exact hnone t hr.first
      · rw [h]
        intro u hu
        rcases List.mem_cons.mp hu with rfl | hu
        · exact hsums
        · rw [List.mem_singleton.mp hu]
          exact htable
    · rw [if_pos hzero] at h
      obtain ⟨lines, scan, -, rfl⟩ := h
      rcases hfirst with hfirst | ⟨-, hr⟩
      · exact Or.inr ⟨mcfg, ⟨hrev, hsums, htable, hfirst, hzero⟩, rfl⟩
      · exact absurd hr hzero

theorem Reaches.unique {t t' : U64} (h : Reaches m offset text rsdp t)
    (h' : Reaches m offset text rsdp t') : t = t' := h.first.unique h'.first

/-- The tables that are used sum to 0, unless it is the MCFG that does not. -/
theorem checked_iff (htext : IsString m text [0x4D, 0x43, 0x46, 0x47]) {o : Parsed}
    (h : ParseAcpi ds m offset text rsdp stack o) : (∀ u ∈ o.uses, u.Checked m) ↔
      ∀ mcfg, Reaches m offset text rsdp mcfg → TableSums m mcfg := by
  rcases uses_cases htext h with ⟨hnone, hall⟩ | ⟨mcfg, hreach, huses⟩
  · exact iff_of_true hall fun t ht => absurd ht (hnone t)
  · rw [huses]
    simp only [List.forall_mem_cons]
    constructor
    · rintro ⟨-, -, hmcfg, -⟩ t ht
      rw [ht.unique hreach]
      exact hmcfg
    · intro hsums
      exact ⟨hreach.rsdp_sums, hreach.rsdt_sums, hsums mcfg hreach,
        fun u hu => absurd hu List.not_mem_nil⟩

end Uses

/-- **Checked tables.** For every memory with the text `"MCFG"`: `parse_acpi` ends, and every table
that it has used sums to 0 over its full extent exactly when this holds of the MCFG it comes to,
the first one of an RSDT that sums to 0 behind an RSDP of revision 0 or 1 that sums to 0. -/
theorem parseAcpi_checked_iff (ds : List Driver) {m : Config} (offset rsdp : U64) {text : U64}
    (stack : PciDevice) (htext : IsString m text [0x4D, 0x43, 0x46, 0x47]) :
    (∃ o, ParseAcpi ds m offset text rsdp stack o) ∧
      ∀ o, ParseAcpi ds m offset text rsdp stack o → ((∀ u ∈ o.uses, u.Checked m) ↔
        ∀ mcfg, Reaches m offset text rsdp mcfg → TableSums m mcfg) :=
  ⟨parseAcpi_ends ds offset rsdp stack htext, fun _ h => checked_iff htext h⟩

/-- An RSDP at `0x500` and an RSDT at `0x1000` that sum to 0, and an MCFG at `0x2000` with the
checksum `c`; the text is at `0x3000`. -/
def someTables (c : Byte) (a : U64) : Byte :=
  if a = 0x508 then 0xF0
  else if a = 0x511 then 0x10
  else if a = 0x1004 then 40
  else if a = 0x1009 then 0xB8
  else if a = 0x1025 then 0x20
  else if a = 0x2000 ∨ a = 0x3000 then 0x4D
  else if a = 0x2001 ∨ a = 0x3001 then 0x43
  else if a = 0x2002 ∨ a = 0x3002 then 0x46
  else if a = 0x2003 ∨ a = 0x3003 then 0x47
  else if a = 0x2004 then 44
  else if a = 0x2009 then c
  else 0

theorem someTables_text (c : Byte) :
    IsString (someTables c) 0x3000 [0x4D, 0x43, 0x46, 0x47] := by
  simp [IsString, someTables]

theorem someTables_rsdt (c : Byte) : rsdtOf (someTables c) 0 0x500 = 0x1000 := by
  simp [rsdtOf, Config.read32, someTables]

theorem someTables_length (c : Byte) : headerLength (someTables c) 0x1000 = 40 ∧
    headerLength (someTables c) 0x2000 = 44 := by
  simp [headerLength, Config.read32, someTables]

theorem someTables_sums (c : Byte) :
    TableSums (someTables c) 0x2000 ↔ (329 + c.toNat) % 256 = 0 := by
  unfold TableSums SumsToZero
  rw [(someTables_length c).2]
  simp [List.range_succ, someTables]
  omega

theorem someTables_reaches (c : Byte) : Reaches (someTables c) 0 0x3000 0x500 0x2000 where
  revision := by simp [rsdpRevision, someTables]
  rsdp_sums := by simp [SumsToZero, rsdpSize, List.range_succ, someTables]
  rsdt_sums := by
    unfold TableSums SumsToZero
    rw [someTables_rsdt, (someTables_length c).1]
    simp [List.range_succ, someTables]
  first := by
    rw [someTables_rsdt]
    refine ⟨0, ?_, ?_, fun j hj => absurd hj (Nat.not_lt_zero j), ?_⟩
    · unfold InRsdt
      rw [(someTables_length c).1]
      decide
    · intro j hj
      interval_cases j <;> simp [tableAddr, Config.read32, someTables]
    · simp [tableAddr, Config.read32, someTables]
  nonzero := by decide

/-- With the right checksum every table that is used sums to 0. -/
theorem parseAcpi_checked_iff_right :
    ∃ o, ParseAcpi [] (someTables 0xB7) 0 0x3000 0x500 zeroedDevice o ∧
      ∀ u ∈ o.uses, u.Checked (someTables 0xB7) := by
  obtain ⟨⟨o, ho⟩, hiff⟩ := parseAcpi_checked_iff [] 0 0x500 zeroedDevice (someTables_text 0xB7)
  refine ⟨o, ho, (hiff o ho).mpr fun mcfg hreach => ?_⟩
  rw [hreach.unique (someTables_reaches 0xB7), someTables_sums]
  decide

/-- **A wrong checksum is not noticed.** With the checksum 0 the MCFG sums to 73, and it is used. -/
theorem parseAcpi_unchecked :
    ∃ o, ParseAcpi [] (someTables 0) 0 0x3000 0x500 zeroedDevice o ∧
      ¬ ∀ u ∈ o.uses, u.Checked (someTables 0) := by
  obtain ⟨o, ho⟩ := parseAcpi_ends [] 0 0x500 zeroedDevice (someTables_text 0)
  refine ⟨o, ho, fun hall => ?_⟩
  have hsums := (checked_iff (someTables_text 0) ho).mp hall 0x2000 (someTables_reaches 0)
  rw [someTables_sums] at hsums
  exact absurd hsums (by decide)

end DejOs.Acpi
