import DejOs.Lib.RealMode

/-!
# String instructions in 16-bit real mode

`lodsb`, `cmpsb` and the prefix `repe`, which go up or down with the direction flag, and the
operations on bytes that the blocks of `RealMode` do not have. None of them can fail, so they are
functions on the state.
-/

namespace RealMode

/-! ## Bytes -/

/-- `and r, b` -/
def and8 (r : Reg8) (b : BitVec 8) (s : Cpu) : Cpu :=
  (s.setReg8 r (s.reg8 r &&& b)).flags (s.reg8 r &&& b = 0) false

/-- `xor r, r` -/
def clear8 (r : Reg8) (s : Cpu) : Cpu := (s.setReg8 r 0).flags true false

/-- `inc r`, which keeps the carry. -/
def inc8 (r : Reg8) (s : Cpu) : Cpu := (s.setReg8 r (s.reg8 r + 1)).flags (s.reg8 r + 1 = 0) s.cf

/-- `mov [off], r` -/
def store8 (g : Seg) (off : Word) (r : Reg8) (s : Cpu) : Cpu :=
  { s with mem := Function.update s.mem (linear (s.seg g) off) (s.reg8 r) }

/-- `shl r, n` of a word. -/
def shl16 (r : Reg16) (n : ℕ) (s : Cpu) : Cpu :=
  (s.setReg r (s.reg r <<< n)).flags (s.reg r <<< n = 0) ((s.reg r).getLsbD (16 - n))

/-! ## Strings -/

/-- How far a string instruction moves its pointers. -/
def stride (df : Bool) : Word := if df then -1 else 1

/-- `lodsb` -/
def lodsb (df : Bool) (s : Cpu) : Cpu :=
  { s.setReg8 .al (s.mem (linear s.ds s.si)) with si := s.si + stride df }

/-- `cmpsb` -/
def cmpsb (df : Bool) (s : Cpu) : Cpu :=
  { s with
    si := s.si + stride df
    di := s.di + stride df
    zf := s.mem (linear s.ds s.si) = s.mem (linear s.es s.di)
    cf := s.mem (linear s.ds s.si) < s.mem (linear s.es s.di) }

/-- The rounds of `repe cmpsb` with `n` in `cx`. -/
def repeRounds (df : Bool) : ℕ → Cpu → Cpu
  | 0, s => s
  | n + 1, s =>
    if (cmpsb df s).zf then repeRounds df n { cmpsb df s with cx := s.cx - 1 }
    else { cmpsb df s with cx := s.cx - 1 }

/-- `repe cmpsb` -/
def repeCmpsb (df : Bool) (s : Cpu) : Cpu := repeRounds df s.cx.toNat s

/-- The bytes at two places are the same. -/
def SameBytes (m : Memory) (a b n : ℕ) : Prop := ∀ i < n, m (a + i) = m (b + i)

instance (m : Memory) (a b n : ℕ) : Decidable (SameBytes m a b n) :=
  inferInstanceAs (Decidable (∀ i < n, m (a + i) = m (b + i)))

theorem sameBytes_one {m : Memory} {a b : ℕ} : SameBytes m a b 1 ↔ m a = m b := by
  constructor
  · exact fun h => h 0 Nat.one_pos
  · intro h i hi
    obtain rfl : i = 0 := Nat.lt_one_iff.mp hi
    exact h

theorem sameBytes_succ {m : Memory} {a b n : ℕ} :
    SameBytes m a b (n + 1) ↔ m a = m b ∧ SameBytes m (a + 1) (b + 1) n := by
  constructor
  · intro h
    refine ⟨h 0 (Nat.succ_pos n), fun i hi => ?_⟩
    rw [Nat.add_right_comm, Nat.add_right_comm b, Nat.add_assoc, Nat.add_assoc]
    exact h (i + 1) (Nat.succ_lt_succ hi)
  · rintro ⟨hfirst, hrest⟩ i hi
    cases i with
    | zero => exact hfirst
    | succ i =>
      have hnext := hrest i (Nat.lt_of_succ_lt_succ hi)
      rwa [Nat.add_right_comm, Nat.add_right_comm b, Nat.add_assoc, Nat.add_assoc] at hnext

/-- The rounds compare bytes until two differ, and change nothing but the pointers, the count and
the flags. -/
theorem repeRounds_spec (n : ℕ) {s : Cpu} (hsi : s.si.toNat + n + 1 ≤ 2 ^ 16)
    (hdi : s.di.toNat + n + 1 ≤ 2 ^ 16) : ∃ cx si di cf, repeRounds false (n + 1) s = { s with
      cx := cx, si := si, di := di, cf := cf
      zf := decide (SameBytes s.mem (linear s.ds s.si) (linear s.es s.di) (n + 1)) } := by
  induction n generalizing s with
  | zero =>
    refine ⟨s.cx - 1, s.si + 1, s.di + 1, decide (s.mem (linear s.ds s.si) <
      s.mem (linear s.es s.di)), ?_⟩
    unfold repeRounds
    simp only [repeRounds, ite_self, Nat.zero_add, sameBytes_one]
    rfl
  | succ n ih =>
    unfold repeRounds
    by_cases hfirst : s.mem (linear s.ds s.si) = s.mem (linear s.es s.di)
    · have hnext : ∀ w : Word, w.toNat + (n + 1) + 1 ≤ 2 ^ 16 →
          (w + 1).toNat + n + 1 ≤ 2 ^ 16 := by
        intro w hw
        have hadd : (w + 1).toNat = w.toNat + 1 := by
          rw [BitVec.toNat_add]
          exact Nat.mod_eq_of_lt (show w.toNat + 1 < 2 ^ 16 by omega)
        omega
      obtain ⟨cx, si, di, cf, hrest⟩ := ih (s := { cmpsb false s with cx := s.cx - 1 })
        (hnext _ hsi) (hnext _ hdi)
      have hzf : (cmpsb false s).zf = true := decide_eq_true hfirst
      refine ⟨cx, si, di, cf, ?_⟩
      rw [if_pos hzf, hrest]
      have hsame : SameBytes s.mem (linear s.ds s.si) (linear s.es s.di) (n + 1 + 1) ↔
          SameBytes s.mem (linear s.ds (s.si + 1)) (linear s.es (s.di + 1)) (n + 1) := by
        rw [sameBytes_succ, linear_succ (by omega), linear_succ (by omega)]
        exact and_iff_right hfirst
      rw [decide_eq_decide.mpr hsame]
      rfl
    · have hzf : ¬ (cmpsb false s).zf = true := fun h => hfirst (of_decide_eq_true h)
      refine ⟨s.cx - 1, s.si + 1, s.di + 1, decide (s.mem (linear s.ds s.si) <
        s.mem (linear s.es s.di)), ?_⟩
      have hsame : ¬ SameBytes s.mem (linear s.ds s.si) (linear s.es s.di) (n + 1 + 1) :=
        fun h => hfirst (sameBytes_succ.mp h).1
      rw [if_neg hzf, decide_eq_false hsame]
      show { cmpsb false s with cx := s.cx - 1 } = _
      unfold cmpsb
      rw [decide_eq_false hfirst]
      rfl

/-- `repe cmpsb` with the direction flag clear and the strings in their segments. -/
theorem repeCmpsb_spec {n : ℕ} {s : Cpu} (hcx : s.cx.toNat = n) (hn : 0 < n)
    (hsi : s.si.toNat + n ≤ 2 ^ 16) (hdi : s.di.toNat + n ≤ 2 ^ 16) :
    ∃ cx si di cf, repeCmpsb false s = { s with
      cx := cx, si := si, di := di, cf := cf
      zf := decide (SameBytes s.mem (linear s.ds s.si) (linear s.es s.di) n) } := by
  obtain ⟨k, rfl⟩ : ∃ k, n = k + 1 := Nat.exists_eq_add_one.mpr hn
  unfold repeCmpsb
  rw [hcx]
  exact repeRounds_spec k hsi hdi

end RealMode
