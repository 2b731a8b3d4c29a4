import DejOs.Base

/-!
# C strings

The functions of `string.c` on memory, byte by byte.
-/

namespace DejOs.CString

/-- Memory, by the address. -/
abbrev Bytes := U64 → Byte

/-- `strncmp` -/
def strncmp (m : Bytes) (s1 s2 : U64) : ℕ → ℤ
  | 0 => 0
  | size + 1 =>
    let c1 := m s1
    let c2 := m s2
    if c1 ≠ c2 then (c1.toNat - c2.toNat : ℤ)
    else if c1 = 0 then 0
    else strncmp m (s1 + 1) (s2 + 1) size

/-- The bytes from `s1` on and those from `s2` on are the same, `n` of them. -/
def SameBytes (m : Bytes) (s1 s2 : U64) (n : ℕ) : Prop :=
  ∀ j < n, m (s1 + BitVec.ofNat 64 j) = m (s2 + BitVec.ofNat 64 j)

instance (m : Bytes) (s1 s2 : U64) (n : ℕ) : Decidable (SameBytes m s1 s2 n) :=
  inferInstanceAs (Decidable (∀ _ < _, _))

variable {m : Bytes} {s1 s2 : U64}

theorem strncmp_succ (size : ℕ) : strncmp m s1 s2 (size + 1) =
    if m s1 ≠ m s2 then ((m s1).toNat - (m s2).toNat : ℤ)
    else if m s1 = 0 then 0 else strncmp m (s1 + 1) (s2 + 1) size := rfl

@[simp] theorem add_ofNat_zero (s : U64) : s + BitVec.ofNat 64 0 = s := BitVec.add_zero s

theorem add_one_add (s : U64) (j : ℕ) :
    s + 1 + BitVec.ofNat 64 j = s + BitVec.ofNat 64 (j + 1) := by
  rw [BitVec.add_assoc, BitVec.ofNat_add, BitVec.add_comm (BitVec.ofNat 64 j)]
  rfl

theorem add_ofNat_add_one (s : U64) (j : ℕ) :
    s + BitVec.ofNat 64 j + 1 = s + BitVec.ofNat 64 (j + 1) := by
  rw [← add_one_add, BitVec.add_assoc, BitVec.add_assoc, BitVec.add_comm 1]

theorem sameBytes_succ {n : ℕ} : SameBytes m s1 s2 (n + 1) ↔
    m s1 = m s2 ∧ SameBytes m (s1 + 1) (s2 + 1) n := by
  unfold SameBytes
  simp only [add_one_add]
  constructor
  · intro h
    refine ⟨?_, fun j hj => h (j + 1) (by omega)⟩
    have h0 := h 0 (by omega)
    rwa [add_ofNat_zero, add_ofNat_zero] at h0
  · rintro ⟨h0, h⟩ j hj
    cases j with
    | zero =>
      rw [add_ofNat_zero, add_ofNat_zero]
      exact h0
    | succ j => exact h j (by omega)

theorem strncmp_eq_zero_iff {n : ℕ} (h : ∀ j < n, m (s2 + BitVec.ofNat 64 j) ≠ 0) :
    strncmp m s1 s2 n = 0 ↔ SameBytes m s1 s2 n := by
  induction n generalizing s1 s2 with
  | zero => exact ⟨fun _ j hj => absurd hj (Nat.not_lt_zero j), fun _ => rfl⟩
  | succ n ih =>
    have h0 := h 0 (by omega)
    rw [add_ofNat_zero] at h0
    have hrest : ∀ j < n, m (s2 + 1 + BitVec.ofNat 64 j) ≠ 0 := by
      intro j hj
      rw [add_one_add]
      exact h (j + 1) (by omega)
    rw [sameBytes_succ, ← ih hrest, strncmp_succ]
    by_cases heq : m s1 = m s2
    · rw [if_neg (not_not.mpr heq), if_neg (heq ▸ h0)]
      exact (and_iff_right heq).symm
    · have hne : (m s1).toNat ≠ (m s2).toNat := fun e => heq (BitVec.eq_of_toNat_eq e)
      rw [if_pos heq]
      constructor
      · intro hzero
        omega
      · exact fun hand => absurd hand.1 heq

/-! ## Strings -/

/-- The string at `p` has the bytes `s`: none of them is NUL, and a NUL follows. -/
def IsString (m : Bytes) (p : U64) : List Byte → Prop
  | [] => m p = 0
  | b :: s => m p = b ∧ b ≠ 0 ∧ IsString m (p + 1) s

instance decidableIsString (m : Bytes) (p : U64) : (s : List Byte) → Decidable (IsString m p s)
  | [] => inferInstanceAs (Decidable (m p = 0))
  | b :: s =>
    have := decidableIsString m (p + 1) s
    inferInstanceAs (Decidable (m p = b ∧ b ≠ 0 ∧ IsString m (p + 1) s))

namespace IsString

variable {p : U64} {s t : List Byte}

theorem ne_zero (h : IsString m p s) : ∀ b ∈ s, b ≠ 0 := by
  induction s generalizing p with
  | nil => exact fun b hb => absurd hb List.not_mem_nil
  | cons a s ih =>
    obtain ⟨-, ha, hs⟩ := h
    intro b hb
    rcases List.mem_cons.mp hb with rfl | hb
    · exact ha
    · exact ih hs b hb

theorem getElem (h : IsString m p s) {i : ℕ} (hi : i < s.length) :
    m (p + BitVec.ofNat 64 i) = s[i] := by
  induction s generalizing p i with
  | nil => exact absurd hi (Nat.not_lt_zero i)
  | cons b s ih =>
    obtain ⟨hb, -, hs⟩ := h
    cases i with
    | zero =>
      rw [add_ofNat_zero]
      exact hb
    | succ i =>
      rw [← add_one_add]
      exact ih hs (Nat.lt_of_succ_lt_succ hi)

theorem terminator (h : IsString m p s) : m (p + BitVec.ofNat 64 s.length) = 0 := by
  induction s generalizing p with
  | nil =>
    rw [List.length_nil, add_ofNat_zero]
    exact h
  | cons b s ih =>
    rw [List.length_cons, ← add_one_add]
    exact ih h.2.2

theorem length_lt (h : IsString m p s) : s.length < 2 ^ 64 := by
  by_contra hlen
  have hi : s.length - 2 ^ 64 < s.length := by omega
  have hsame : BitVec.ofNat 64 s.length = BitVec.ofNat 64 (s.length - 2 ^ 64) := by
    apply BitVec.eq_of_toNat_eq
    rw [BitVec.toNat_ofNat, BitVec.toNat_ofNat]
    omega
  have hend := h.terminator
  rw [hsame, h.getElem hi] at hend
  exact h.ne_zero _ (List.getElem_mem hi) hend

theorem unique (h : IsString m p s) (h' : IsString m p t) : s = t := by
  induction s generalizing p t with
  | nil =>
    cases t with
    | nil => rfl
    | cons b t =>
      obtain ⟨hb, hb0, -⟩ := h'
      exact absurd (hb.symm.trans h) hb0
  | cons a s ih =>
    obtain ⟨ha, ha0, hs⟩ := h
    cases t with
    | nil => exact absurd (ha.symm.trans h') ha0
    | cons b t =>
      obtain ⟨hb, -, ht⟩ := h'
      rw [← ha, hb, ih hs ht]

theorem of_getElem (hne : ∀ b ∈ s, b ≠ 0)
    (h : ∀ (i : ℕ) (hi : i < s.length), m (p + BitVec.ofNat 64 i) = s[i])
    (hend : m (p + BitVec.ofNat 64 s.length) = 0) : IsString m p s := by
  induction s generalizing p with
  | nil =>
    rw [List.length_nil, add_ofNat_zero] at hend
    exact hend
  | cons b s ih =>
    obtain ⟨hb, hne⟩ := List.forall_mem_cons.mp hne
    have hfirst := h 0 (Nat.succ_pos _)
    rw [add_ofNat_zero] at hfirst
    refine ⟨hfirst, hb, ih hne (fun i hi => ?_) ?_⟩
    · rw [add_one_add]
      exact h (i + 1) (Nat.succ_lt_succ hi)
    · rw [add_one_add]
      exact hend

theorem drop (h : IsString m p (s ++ t)) : IsString m (p + BitVec.ofNat 64 s.length) t := by
  induction s generalizing p with
  | nil =>
    rw [List.length_nil, add_ofNat_zero]
    exact h
  | cons a s ih =>
    rw [List.length_cons, ← add_one_add]
    exact ih h.2.2

end IsString

open Classical in
/-- The bytes of the string at `p`, if there is one. -/
noncomputable def stringAt (m : Bytes) (p : U64) : List Byte :=
  if h : ∃ s, IsString m p s then h.choose else []

theorem IsString.stringAt_eq {p : U64} {s : List Byte} (h : IsString m p s) :
    stringAt m p = s := by
  unfold stringAt
  rw [dif_pos ⟨s, h⟩]
  exact IsString.unique (Exists.choose_spec (⟨s, h⟩ : ∃ s, IsString m p s)) h

end DejOs.CString
