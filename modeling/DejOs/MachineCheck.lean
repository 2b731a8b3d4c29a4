import DejOs.Base

/-!
# The severity of a machine check

`check_severity` of `nmi.c`. It looks at the status words of the machine-check banks one after the
other and ends the call at the first valid one, whatever the banks behind it say. So its verdict is
the one of the worst valid bank exactly when that bank's level is the level of the first
(`checkSeverity_worst_iff`).
-/

namespace DejOs.MachineCheck

/-! ## The code -/

/-- `status & (1ULL << k)`, as a condition. -/
def bit (status : U64) (k : ℕ) : Bool := status &&& ((1 : U64) <<< k) ≠ 0

/-- A round of the loop: `none` is `continue`, an error is `fi_panic`. -/
def checkBank (status : U64) : Option (Except String Byte) :=
  if !bit status 63 then none
  else if bit status 56 then some (.error "Cooked PCC corrupted")
  else if bit status 61 then
    if bit status 57 then
      some (.error "nmi action required (im not good enough to fix it so kill)")
    else some (.ok 1)
  else some (.ok 0)

/-- `rdmsr(IA32_MCG_CAP) & 0xFF` -/
def numBanks (rdmsr : BitVec 32 → U64) : ℕ := (rdmsr 0x179 &&& 0xFF).toNat

/-- `rdmsr(status_msr)` for bank `i`. -/
def bankStatus (rdmsr : BitVec 32 → U64) (i : ℕ) : U64 := rdmsr (0x401 + BitVec.ofNat 32 i * 4)

/-- `check_severity` -/
def checkSeverity (rdmsr : BitVec 32 → U64) : Except String Byte :=
  ((List.range (numBanks rdmsr)).findSome? fun i => checkBank (bankStatus rdmsr i)).getD (.ok 0)

/-! ## What a bank says -/

/-- The bank holds an error. -/
def Valid (status : U64) : Prop := status.getLsbD 63 = true

/-- The error is uncorrected. -/
def Uncorrected (status : U64) : Prop := status.getLsbD 61 = true

/-- The processor context is corrupt, or an uncorrected error requires action. -/
def Fatal (status : U64) : Prop :=
  status.getLsbD 56 = true ∨ (Uncorrected status ∧ status.getLsbD 57 = true)

instance (status : U64) : Decidable (Valid status) := inferInstanceAs (Decidable (_ = _))

instance (status : U64) : Decidable (Uncorrected status) := inferInstanceAs (Decidable (_ = _))

instance (status : U64) : Decidable (Fatal status) := inferInstanceAs (Decidable (_ ∨ _))

/-- How bad a bank is. -/
def level (status : U64) : ℕ := if Fatal status then 2 else if Uncorrected status then 1 else 0

/-- Some valid bank has `P`. -/
def SomeBank (rdmsr : BitVec 32 → U64) (P : U64 → Prop) : Prop :=
  ∃ i < numBanks rdmsr, Valid (bankStatus rdmsr i) ∧ P (bankStatus rdmsr i)

/-- The verdict is the one of the worst valid bank. -/
structure WorstVerdict (rdmsr : BitVec 32 → U64) : Prop where
  fatal : (∃ msg, checkSeverity rdmsr = .error msg) ↔ SomeBank rdmsr Fatal
  uncorrected : checkSeverity rdmsr = .ok 1 ↔
    ¬ SomeBank rdmsr Fatal ∧ SomeBank rdmsr Uncorrected
  good : checkSeverity rdmsr = .ok 0 ↔ ¬ SomeBank rdmsr Fatal ∧ ¬ SomeBank rdmsr Uncorrected

section Bank

variable {status : U64} {r : Except String Byte} {n : ℕ}

theorem bit_eq {k : ℕ} (hk : k < 64) : bit status k = status.getLsbD k := by
  have hone : ∀ i < 64, ((1 : U64) <<< k).getLsbD i = decide (i = k) := by
    intro i hi
    rw [BitVec.getLsbD_shiftLeft]
    show (_ && BitVec.getLsbD 1#64 (i - k)) = _
    rw [BitVec.getLsbD_one]
    grind
  unfold bit
  rw [Bool.eq_iff_iff, decide_eq_true_iff]
  constructor
  · intro h
    by_contra hbit
    refine h (BitVec.eq_of_getLsbD_eq fun i hi => ?_)
    rw [BitVec.getLsbD_and, hone i hi]
    show _ = BitVec.getLsbD 0#64 i
    rw [BitVec.getLsbD_zero]
    by_cases hik : i = k
    · rw [hik, Bool.eq_false_of_not_eq_true hbit, Bool.false_and]
    · rw [decide_eq_false hik, Bool.and_false]
  · intro h hzero
    have hbit := congrArg (fun x => x.getLsbD k) hzero
    simp only [BitVec.getLsbD_and, h, hone k hk] at hbit
    simp at hbit

/-- The call ends as a bank of level `n` says. -/
structure Says (r : Except String Byte) (n : ℕ) : Prop where
  fatal : (∃ msg, r = .error msg) ↔ n = 2
  uncorrected : r = .ok 1 ↔ n = 1
  good : r = .ok 0 ↔ n = 0

theorem checkBank_of_not_valid (h : ¬ Valid status) : checkBank status = none := by
  unfold checkBank
  rw [bit_eq (by omega), if_pos]
  simpa [Valid] using h

theorem checkBank_of_valid (h : Valid status) :
    ∃ r, checkBank status = some r ∧ Says r (level status) := by
  unfold Valid at h
  unfold checkBank level Fatal Uncorrected
  obtain ⟨pcc, hpcc⟩ : ∃ x, status.getLsbD 56 = x := ⟨_, rfl⟩
  obtain ⟨uc, huc⟩ : ∃ x, status.getLsbD 61 = x := ⟨_, rfl⟩
  obtain ⟨ar, har⟩ : ∃ x, status.getLsbD 57 = x := ⟨_, rfl⟩
  rw [bit_eq (k := 63) (by omega), bit_eq (k := 56) (by omega), bit_eq (k := 61) (by omega),
    bit_eq (k := 57) (by omega), h]
  simp only [hpcc, huc, har]
  cases pcc with
  | true => exact ⟨.error "Cooked PCC corrupted", by simp, by constructor <;> simp⟩
  | false =>
    cases uc with
    | true =>
      cases ar with
      | true =>
        exact ⟨.error "nmi action required (im not good enough to fix it so kill)", by simp,
          by constructor <;> simp⟩
      | false => exact ⟨.ok 1, by simp, by constructor <;> simp⟩
    | false => exact ⟨.ok 0, by simp, by constructor <;> simp⟩

theorem level_eq_two : level status = 2 ↔ Fatal status := by
  unfold level
  split_ifs <;> simp [*]

theorem level_le_two (status : U64) : level status ≤ 2 := by
  unfold level
  split_ifs <;> omega

theorem level_eq_zero : level status = 0 ↔ ¬ Fatal status ∧ ¬ Uncorrected status := by
  unfold level
  split_ifs <;> simp [*]

end Bank

/-! ## The loop -/

section Loop

variable {rdmsr : BitVec 32 → U64} {i : ℕ}

/-- The loop ends at bank `i`. -/
def First (rdmsr : BitVec 32 → U64) (i : ℕ) : Prop :=
  i < numBanks rdmsr ∧ Valid (bankStatus rdmsr i) ∧ ∀ j < i, ¬ Valid (bankStatus rdmsr j)

theorem checkSeverity_of_first (h : First rdmsr i) :
    Says (checkSeverity rdmsr) (level (bankStatus rdmsr i)) := by
  obtain ⟨hi, hvalid, hbefore⟩ := h
  obtain ⟨r, hr, hverdict⟩ := checkBank_of_valid hvalid
  have hsplit : List.range (numBanks rdmsr) =
      List.range i ++ (List.range (numBanks rdmsr - i)).map (i + ·) := by
    rw [← List.range_add, Nat.add_sub_cancel' hi.le]
  have hskip : (List.range i).findSome? (fun j => checkBank (bankStatus rdmsr j)) = none :=
    List.findSome?_eq_none_iff.mpr fun j hj =>
      checkBank_of_not_valid (hbefore j (List.mem_range.mp hj))
  obtain ⟨k, hk⟩ : ∃ k, numBanks rdmsr - i = k + 1 := ⟨numBanks rdmsr - i - 1, by omega⟩
  unfold checkSeverity
  rw [hsplit, List.findSome?_append, hskip, hk, List.range_succ_eq_map, List.map_cons,
    List.findSome?_cons, Nat.add_zero, hr]
  exact hverdict

theorem checkSeverity_of_none (h : ∀ i < numBanks rdmsr, ¬ Valid (bankStatus rdmsr i)) :
    checkSeverity rdmsr = .ok 0 := by
  unfold checkSeverity
  rw [List.findSome?_eq_none_iff.mpr fun i hi =>
    checkBank_of_not_valid (h i (List.mem_range.mp hi))]
  rfl

theorem exists_first (h : ∃ i < numBanks rdmsr, Valid (bankStatus rdmsr i)) :
    ∃ i, First rdmsr i := by
  refine ⟨Nat.find h, (Nat.find_spec h).1, (Nat.find_spec h).2, fun j hj hvalid => ?_⟩
  exact Nat.find_min h hj ⟨hj.trans (Nat.find_spec h).1, hvalid⟩

/-- If no bank is worse than the first, the call says what the worst says. -/
theorem worstVerdict_of_max (hi : First rdmsr i) (hmax : ∀ j < numBanks rdmsr,
      Valid (bankStatus rdmsr j) → level (bankStatus rdmsr j) ≤ level (bankStatus rdmsr i)) :
    WorstVerdict rdmsr := by
  have hverdict := checkSeverity_of_first hi
  have hle := level_le_two (bankStatus rdmsr i)
  have hfatal : SomeBank rdmsr Fatal ↔ level (bankStatus rdmsr i) = 2 := by
    constructor
    · rintro ⟨j, hj, hvalid, hfatal⟩
      have hj2 := hmax j hj hvalid
      rw [level_eq_two.mpr hfatal] at hj2
      omega
    · intro h
      exact ⟨i, hi.1, hi.2.1, level_eq_two.mp h⟩
  have hgood : (¬ SomeBank rdmsr Fatal ∧ ¬ SomeBank rdmsr Uncorrected) ↔
      level (bankStatus rdmsr i) = 0 := by
    constructor
    · rintro ⟨hnofatal, hnounc⟩
      exact level_eq_zero.mpr ⟨fun h => hnofatal ⟨i, hi.1, hi.2.1, h⟩,
        fun h => hnounc ⟨i, hi.1, hi.2.1, h⟩⟩
    · intro h
      have hzero : ∀ j < numBanks rdmsr, Valid (bankStatus rdmsr j) →
          level (bankStatus rdmsr j) = 0 := fun j hj hvalid => by
        have := hmax j hj hvalid
        omega
      exact ⟨fun ⟨j, hj, hvalid, h⟩ => (level_eq_zero.mp (hzero j hj hvalid)).1 h,
        fun ⟨j, hj, hvalid, h⟩ => (level_eq_zero.mp (hzero j hj hvalid)).2 h⟩
  refine ⟨hverdict.fatal.trans hfatal.symm, hverdict.uncorrected.trans ?_,
    hverdict.good.trans hgood.symm⟩
  have hone : level (bankStatus rdmsr i) = 1 ↔
      ¬ level (bankStatus rdmsr i) = 2 ∧ ¬ level (bankStatus rdmsr i) = 0 := by omega
  rw [hone, ← hfatal, ← hgood]
  tauto

/-- A bank worse than the first makes the verdict wrong. -/
theorem WorstVerdict.le_first (h : WorstVerdict rdmsr) (hi : First rdmsr i) {j : ℕ}
    (hj : j < numBanks rdmsr) (hvalid : Valid (bankStatus rdmsr j)) :
    level (bankStatus rdmsr j) ≤ level (bankStatus rdmsr i) := by
  have hverdict := checkSeverity_of_first hi
  have hle := level_le_two (bankStatus rdmsr j)
  by_contra hlt
  by_cases hfatal : Fatal (bankStatus rdmsr j)
  · have htwo := hverdict.fatal.mp (h.fatal.mpr ⟨j, hj, hvalid, hfatal⟩)
    omega
  · -- so `j` is uncorrected, and the first bank is not
    have hne : level (bankStatus rdmsr j) ≠ 2 := fun e => hfatal (level_eq_two.mp e)
    have hunc : Uncorrected (bankStatus rdmsr j) := by
      by_contra hunc
      have hzero := level_eq_zero.mpr ⟨hfatal, hunc⟩
      omega
    have hgood := h.good.mp (hverdict.good.mpr (by omega))
    exact hgood.2 ⟨j, hj, hvalid, hunc⟩

theorem worstVerdict_of_none (h : ∀ i < numBanks rdmsr, ¬ Valid (bankStatus rdmsr i)) :
    WorstVerdict rdmsr := by
  have hno : ∀ P, ¬ SomeBank rdmsr P := fun P ⟨i, hi, hvalid, _⟩ => h i hi hvalid
  have hgood := checkSeverity_of_none h
  constructor
  · simp [hgood, hno]
  · simp [hgood, hno]
  · simp [hgood, hno]

end Loop

/-- **When the verdict is the worst bank's.** Exactly when no valid bank is worse than the first
valid one. -/
theorem checkSeverity_worst_iff (rdmsr : BitVec 32 → U64) : WorstVerdict rdmsr ↔
    ∀ i, First rdmsr i → ∀ j < numBanks rdmsr, Valid (bankStatus rdmsr j) →
      level (bankStatus rdmsr j) ≤ level (bankStatus rdmsr i) := by
  constructor
  · intro h i hi j hj hvalid
    exact h.le_first hi hj hvalid
  · intro hmax
    by_cases hsome : ∃ i < numBanks rdmsr, Valid (bankStatus rdmsr i)
    · obtain ⟨i, hi⟩ := exists_first hsome
      exact worstVerdict_of_max hi (hmax i hi)
    · exact worstVerdict_of_none fun i hi hvalid => hsome ⟨i, hi, hvalid⟩

/-- Bank 0 has a corrected error, bank 1 a corrupt processor context. -/
def benignFirst (msr : BitVec 32) : U64 :=
  if msr = 0x179 then 2
  else if msr = 0x401 then 1 <<< 63
  else if msr = 0x405 then 1 <<< 63 ||| 1 <<< 56
  else 0

theorem checkSeverity_benignFirst : checkSeverity benignFirst = .ok 0 ∧
    Valid (bankStatus benignFirst 1) ∧ Fatal (bankStatus benignFirst 1) ∧
    ¬ WorstVerdict benignFirst := by
  have hgood : checkSeverity benignFirst = .ok 0 := by decide
  have hbank : 1 < numBanks benignFirst ∧ Valid (bankStatus benignFirst 1) ∧
      Fatal (bankStatus benignFirst 1) := by decide
  refine ⟨hgood, hbank.2.1, hbank.2.2, fun h => ?_⟩
  obtain ⟨msg, hmsg⟩ := h.fatal.mpr ⟨1, hbank⟩
  rw [hgood] at hmsg
  cases hmsg

end DejOs.MachineCheck
