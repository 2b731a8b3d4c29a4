import DejOs.CString
import DejOs.Lib.Loop

/-!
# Comparing functions of `string.c`

`strcmp` tests for the NUL before it compares and takes the difference behind its loop; `strncmp`
compares first, takes the difference inside and counts. Both return the difference at the first
place where the strings differ (`firstDiff`), of which the sign is the lexicographic order of
unsigned bytes (`strcmp_strncmp_lexicographic`).
-/

namespace DejOs.CString

open Loop

/-! ## The two loops -/

/-- What a comparison returns, with the places its rounds have read, the last first. Every round
reads a byte at `s1` and one at `s2`. -/
structure Compared where
  value : ℤ
  read : List (U64 × U64)

/-- The pointers of `strcmp`. -/
structure Strcmp where
  s1 : U64
  s2 : U64
  read : List (U64 × U64)

/-- `while (*s1 && (*s1 == *s2))`, then `return (unsigned char)*s1 - (unsigned char)*s2`. The
comparison of two `char` is one of bytes, signed or not. -/
def strcmpRound (m : Bytes) (v : Strcmp) : Strcmp ⊕ Compared :=
  if m v.s1 ≠ 0 ∧ m v.s1 = m v.s2 then .inl ⟨v.s1 + 1, v.s2 + 1, (v.s1, v.s2) :: v.read⟩
  else .inr ⟨(m v.s1).toNat - (m v.s2).toNat, (v.s1, v.s2) :: v.read⟩

/-- `strcmp` returns. -/
def StrcmpReturns (m : Bytes) (s1 s2 : U64) (c : Compared) : Prop :=
  Returns (strcmpRound m) ⟨s1, s2, []⟩ c

/-- `strncmp` with the places it reads; its value alone is `strncmp`. -/
def strncmpReading (m : Bytes) (s1 s2 : U64) (read : List (U64 × U64)) : ℕ → Compared
  | 0 => ⟨0, read⟩
  | size + 1 =>
    let c1 := m s1
    let c2 := m s2
    if c1 ≠ c2 then ⟨c1.toNat - c2.toNat, (s1, s2) :: read⟩
    else if c1 = 0 then ⟨0, (s1, s2) :: read⟩
    else strncmpReading m (s1 + 1) (s2 + 1) ((s1, s2) :: read) size

variable {m : Bytes} {s1 s2 : U64}

theorem strncmpReading_value (read : List (U64 × U64)) (n : ℕ) :
    (strncmpReading m s1 s2 read n).value = strncmp m s1 s2 n := by
  induction n generalizing s1 s2 read with
  | zero => rfl
  | succ n ih =>
    rw [strncmp_succ]
    unfold strncmpReading
    simp only
    split_ifs
    · rfl
    · rfl
    · exact ih _

/-! ## The first difference -/

/-- The difference at the first place where two strings differ, the end counted as 0. -/
def firstDiff : List Byte → List Byte → ℤ
  | [], [] => 0
  | [], b :: _ => -b.toNat
  | a :: _, [] => a.toNat
  | a :: s, b :: t => if a = b then firstDiff s t else a.toNat - b.toNat

section FirstDiff

variable {a b : List Byte}

theorem firstDiff_cons (x y : Byte) : firstDiff (x :: a) (y :: b) =
    if x = y then firstDiff a b else (x.toNat - y.toNat : ℤ) := rfl

@[simp] theorem firstDiff_self : (s : List Byte) → firstDiff s s = 0
  | [] => rfl
  | _ :: s => (if_pos rfl).trans (firstDiff_self s)

theorem firstDiff_swap : (a b : List Byte) → firstDiff b a = -firstDiff a b
  | [], [] => rfl
  | [], _ :: _ => (neg_neg _).symm
  | _ :: _, [] => rfl
  | x :: a, y :: b => by
    rw [firstDiff_cons, firstDiff_cons]
    by_cases h : x = y
    · rw [if_pos h, if_pos h.symm]
      exact firstDiff_swap a b
    · rw [if_neg h, if_neg (Ne.symm h), neg_sub]

theorem toNat_pos {x : Byte} (h : x ≠ 0) : 0 < x.toNat := by
  refine Nat.pos_of_ne_zero fun h0 => h ?_
  exact BitVec.eq_of_toNat_eq h0

/-- Among strings a negative difference is the lexicographic order. -/
theorem firstDiff_neg_iff (hb : ∀ x ∈ b, x ≠ 0) : firstDiff a b < 0 ↔ a < b := by
  induction a generalizing b with
  | nil =>
    cases b with
    | nil => exact iff_of_false (lt_irrefl 0) (List.not_lt_nil [])
    | cons y b =>
      have hy := toNat_pos (List.forall_mem_cons.mp hb).1
      refine iff_of_true ?_ (List.nil_lt_cons y b)
      unfold firstDiff
      omega
  | cons x a ih =>
    cases b with
    | nil =>
      refine iff_of_false ?_ (List.not_lt_nil _)
      unfold firstDiff
      omega
    | cons y b =>
      rw [List.cons_lt_cons_iff, ← ih (List.forall_mem_cons.mp hb).2, firstDiff_cons]
      by_cases h : x = y
      · subst h
        rw [if_pos rfl]
        simp
      · rw [if_neg h, BitVec.lt_def]
        have hne : x.toNat ≠ y.toNat := fun e => h (BitVec.eq_of_toNat_eq e)
        simp only [h, false_and, or_false]
        omega

theorem firstDiff_eq_zero_iff (ha : ∀ x ∈ a, x ≠ 0) (hb : ∀ x ∈ b, x ≠ 0) :
    firstDiff a b = 0 ↔ a = b := by
  refine ⟨fun h => ?_, fun h => h ▸ firstDiff_self a⟩
  have hab : ¬ a < b := fun hlt => by
    have := (firstDiff_neg_iff hb).mpr hlt
    omega
  have hba : ¬ b < a := fun hlt => by
    have := (firstDiff_neg_iff ha).mpr hlt
    rw [firstDiff_swap a b] at this
    omega
  exact List.le_antisymm hba hab

/-- The difference is found within the shorter string and its end. -/
theorem firstDiff_take {n : ℕ} (h : min a.length b.length < n) :
    firstDiff (a.take n) (b.take n) = firstDiff a b := by
  induction n generalizing a b with
  | zero => exact absurd h (Nat.not_lt_zero _)
  | succ n ih =>
    cases a with
    | nil => cases b <;> rfl
    | cons x a =>
      cases b with
      | nil => rfl
      | cons y b =>
        simp only [List.length_cons] at h
        rw [List.take_succ_cons, List.take_succ_cons, firstDiff_cons, firstDiff_cons,
          ih (by omega)]

end FirstDiff

/-! ## What the loops return -/

/-- A round that reads `x` is not behind the end of either string: it reads characters at the same
place of both, or the NUL of one and what the other has there. -/
def InBoth (s1 s2 : U64) (a b : List Byte) (x : U64 × U64) : Prop :=
  ∃ i ≤ min a.length b.length, x = (s1 + BitVec.ofNat 64 i, s2 + BitVec.ofNat 64 i)

/-- The rounds that read `read'` in all had read `read` before they came to `s1` and `s2`, and have
stayed in the strings since. -/
def ReadsOn (s1 s2 : U64) (a b : List Byte) (read read' : List (U64 × U64)) : Prop :=
  ∀ x ∈ read', x ∈ read ∨ InBoth s1 s2 a b x

section Loops

variable {a b : List Byte} {read read' : List (U64 × U64)}

theorem readsOn_refl : ReadsOn s1 s2 a b read read := fun _ hx => .inl hx

theorem readsOn_here : ReadsOn s1 s2 a b read ((s1, s2) :: read) := by
  intro x hx
  rcases List.mem_cons.mp hx with rfl | hx
  · exact .inr ⟨0, Nat.zero_le _, by rw [add_ofNat_zero, add_ofNat_zero]⟩
  · exact .inl hx

theorem ReadsOn.cons {c d : Byte} (h : ReadsOn (s1 + 1) (s2 + 1) a b ((s1, s2) :: read) read') :
    ReadsOn s1 s2 (c :: a) (d :: b) read read' := by
  intro x hx
  rcases h x hx with hx | ⟨i, hi, rfl⟩
  · exact readsOn_here x hx
  · refine .inr ⟨i + 1, ?_, by rw [add_one_add, add_one_add]⟩
    simp only [List.length_cons]
    omega

theorem IsString.first (h : IsString m s1 a) : m s1 = a.headD 0 := by
  cases a with
  | nil => exact h
  | cons x a => exact h.1

theorem firstDiff_of_head (h : a = [] ∨ a.headD 0 ≠ b.headD 0) :
    firstDiff a b = (a.headD 0).toNat - (b.headD 0).toNat := by
  cases a with
  | nil => cases b <;> simp [firstDiff]
  | cons x a =>
    cases b with
    | nil => simp [firstDiff]
    | cons y b =>
      have hne : x ≠ y := h.resolve_left (List.cons_ne_nil x a)
      rw [firstDiff_cons, if_neg hne]
      rfl

theorem headD_take_succ (a : List Byte) (n : ℕ) : (a.take (n + 1)).headD 0 = a.headD 0 := by
  cases a <;> rfl

theorem IsString.tails {x : Byte} (ha : IsString m s1 (x :: a)) (hb : IsString m s2 b)
    (h : m s1 = m s2) : ∃ t, b = x :: t ∧ IsString m (s1 + 1) a ∧ IsString m (s2 + 1) t := by
  obtain ⟨rfl, hx, ha⟩ := ha
  cases b with
  | nil => exact absurd (h.trans hb) hx
  | cons y t => exact ⟨t, by rw [h, hb.1], ha, hb.2.2⟩

theorem strcmpRound_returns (ha : IsString m s1 a) (hb : IsString m s2 b)
    (read : List (U64 × U64)) : ∃ read', ReadsOn s1 s2 a b read read' ∧
      Returns (strcmpRound m) ⟨s1, s2, read⟩ ⟨firstDiff a b, read'⟩ := by
  induction a generalizing s1 s2 b read with
  | nil =>
    refine ⟨_, readsOn_here, Returns.here ?_⟩
    rw [firstDiff_of_head (.inl rfl), ← ha.first, ← hb.first]
    exact if_neg fun hc => hc.1 ha
  | cons x a ih =>
    by_cases h : m s1 = m s2
    · have hne : m s1 ≠ 0 := ha.1 ▸ ha.2.1
      obtain ⟨t, rfl, ha, hb⟩ := ha.tails hb h
      obtain ⟨read', hread, hret⟩ := ih ha hb ((s1, s2) :: read)
      refine ⟨read', hread.cons, ?_⟩
      rw [firstDiff_cons, if_pos rfl]
      exact Returns.next (if_pos ⟨hne, h⟩) hret
    · refine ⟨_, readsOn_here, Returns.here ?_⟩
      have hhead := h
      rw [ha.first, hb.first] at hhead
      rw [firstDiff_of_head (.inr hhead), ← ha.first, ← hb.first]
      exact if_neg fun hc => h hc.2

theorem strncmpReading_succ (read : List (U64 × U64)) (size : ℕ) :
    strncmpReading m s1 s2 read (size + 1) =
      if m s1 ≠ m s2 then ⟨(m s1).toNat - (m s2).toNat, (s1, s2) :: read⟩
      else if m s1 = 0 then ⟨0, (s1, s2) :: read⟩
      else strncmpReading m (s1 + 1) (s2 + 1) ((s1, s2) :: read) size := rfl

theorem strncmpReading_spec (ha : IsString m s1 a) (hb : IsString m s2 b)
    (read : List (U64 × U64)) (n : ℕ) : ∃ read', ReadsOn s1 s2 a b read read' ∧
      strncmpReading m s1 s2 read n = ⟨firstDiff (a.take n) (b.take n), read'⟩ := by
  induction n generalizing s1 s2 a b read with
  | zero => exact ⟨read, readsOn_refl, rfl⟩
  | succ n ih =>
    rw [strncmpReading_succ]
    by_cases h : m s1 = m s2
    · rw [if_neg (not_not.mpr h)]
      cases a with
      | nil =>
        -- both strings end here
        have hnil : b = [] := IsString.unique hb (h ▸ ha : m s2 = 0)
        subst hnil
        exact ⟨_, readsOn_here, if_pos ha⟩
      | cons x a =>
        have hne : m s1 ≠ 0 := ha.1 ▸ ha.2.1
        obtain ⟨t, rfl, ha, hb⟩ := ha.tails hb h
        obtain ⟨read', hread, hspec⟩ := ih ha hb ((s1, s2) :: read)
        refine ⟨read', hread.cons, ?_⟩
        rw [if_neg hne, hspec, List.take_succ_cons, List.take_succ_cons, firstDiff_cons,
          if_pos rfl]
    · refine ⟨_, readsOn_here, ?_⟩
      have hhead : (a.take (n + 1)).headD 0 ≠ (b.take (n + 1)).headD 0 := by
        rw [headD_take_succ, headD_take_succ, ← ha.first, ← hb.first]
        exact h
      rw [if_pos h, firstDiff_of_head (.inr hhead), headD_take_succ, headD_take_succ, ← ha.first,
        ← hb.first]

end Loops

/-! ## The order -/

/-- A result of the sign of the lexicographic comparison, as unsigned bytes. -/
def Orders (v : ℤ) (a b : List Byte) : Prop := (v < 0 ↔ a < b) ∧ (v = 0 ↔ a = b) ∧ (0 < v ↔ b < a)

theorem orders_firstDiff {a b : List Byte} (ha : ∀ x ∈ a, x ≠ 0) (hb : ∀ x ∈ b, x ≠ 0) :
    Orders (firstDiff a b) a b := by
  refine ⟨firstDiff_neg_iff hb, firstDiff_eq_zero_iff ha hb, ?_⟩
  rw [← firstDiff_neg_iff ha, firstDiff_swap a b]
  omega

theorem Orders.trans {v w u : ℤ} {a b c : List Byte} (hv : Orders v a b) (hw : Orders w b c)
    (hu : Orders u a c) (hab : v ≤ 0) (hbc : w ≤ 0) : u ≤ 0 := by
  have hle : a ≤ b := fun hlt => by
    have := hv.2.2.mpr hlt
    omega
  have hle' : b ≤ c := fun hlt => by
    have := hw.2.2.mpr hlt
    omega
  by_contra hpos
  exact List.le_trans hle hle' (hu.2.2.mp (not_le.mp hpos))

/-- **`strcmp` and `strncmp`.** For all strings, wherever they are in memory, overlapping or not:
`strcmp` returns, with the sign of their lexicographic comparison as unsigned bytes; the other way
round it returns the opposite, and it is transitive. For every `n`, `strncmp` has the sign for the
strings cut to `n` characters, which is what `strcmp` returns where these stand as strings, and
returns what `strcmp` does if `n` is more than the length of one of them. Neither reads behind the
NUL of a string. -/
theorem strcmp_strncmp_lexicographic {m : Bytes} {p q r : U64} {a b c : List Byte}
    (ha : IsString m p a) (hb : IsString m q b) (hc : IsString m r c) :
    ∃ ab ba bc ac : Compared, StrcmpReturns m p q ab ∧ StrcmpReturns m q p ba ∧
      StrcmpReturns m q r bc ∧ StrcmpReturns m p r ac ∧
      Orders ab.value a b ∧ ba.value = -ab.value ∧
      (ab.value ≤ 0 → bc.value ≤ 0 → ac.value ≤ 0) ∧
      (∀ x ∈ ab.read, InBoth p q a b x) ∧
      ∀ n, Orders (strncmp m p q n) (a.take n) (b.take n) ∧
        (∀ m' p' q', IsString m' p' (a.take n) → IsString m' q' (b.take n) →
          ∃ d, StrcmpReturns m' p' q' d ∧ d.value = strncmp m p q n) ∧
        (min a.length b.length < n → strncmp m p q n = ab.value) ∧
        ∀ x ∈ (strncmpReading m p q [] n).read, InBoth p q a b x := by
  obtain ⟨rab, hrab, hab⟩ := strcmpRound_returns ha hb []
  obtain ⟨rba, -, hba⟩ := strcmpRound_returns hb ha []
  obtain ⟨rbc, -, hbc⟩ := strcmpRound_returns hb hc []
  obtain ⟨rac, -, hac⟩ := strcmpRound_returns ha hc []
  have hread {s : List (U64 × U64)} (h : ReadsOn p q a b [] s) : ∀ x ∈ s, InBoth p q a b x :=
    fun x hx => (h x hx).resolve_left List.not_mem_nil
  refine ⟨_, _, _, _, hab, hba, hbc, hac, orders_firstDiff ha.ne_zero hb.ne_zero,
    firstDiff_swap a b, (orders_firstDiff ha.ne_zero hb.ne_zero).trans
      (orders_firstDiff hb.ne_zero hc.ne_zero) (orders_firstDiff ha.ne_zero hc.ne_zero),
    hread hrab, fun n => ?_⟩
  obtain ⟨rn, hrn, hn⟩ := strncmpReading_spec ha hb [] n
  rw [← strncmpReading_value [] n, hn]
  refine ⟨?_, ?_, firstDiff_take, hread hrn⟩
  · exact orders_firstDiff (fun x hx => ha.ne_zero x (List.mem_of_mem_take hx))
      (fun x hx => hb.ne_zero x (List.mem_of_mem_take hx))
  · intro m' p' q' ha' hb'
    obtain ⟨r', -, hret⟩ := strcmpRound_returns ha' hb' []
    exact ⟨_, hret, rfl⟩

/-- `"a"` at `0x1000`, a character above `0x7F` at `0x2000`, `"ab"` at `0x3000`. -/
def comparedStrings (x : U64) : Byte :=
  if x = 0x1000 ∨ x = 0x3000 then 0x61 else if x = 0x2000 then 0xE9
  else if x = 0x3001 then 0x62 else 0

/-- `"a"` is below the character above `0x7F`, which is negative as a `char`; one character of it is
one of `"ab"`. -/
theorem strcmp_strncmp_lexicographic_above_7F :
    (∃ d, StrcmpReturns comparedStrings 0x1000 0x2000 d ∧ d.value < 0) ∧
      strncmp comparedStrings 0x1000 0x3000 1 = 0 := by
  have ha : IsString comparedStrings 0x1000 [0x61] := by decide
  have hb : IsString comparedStrings 0x2000 [0xE9] := by decide
  have hc : IsString comparedStrings 0x3000 [0x61, 0x62] := by decide
  obtain ⟨ab, -, -, -, hab, -, -, -, hord, -⟩ := strcmp_strncmp_lexicographic ha hb hc
  obtain ⟨ac, ca, cb, ab', -, -, -, -, -, -, -, -, hn⟩ := strcmp_strncmp_lexicographic ha hc hb
  exact ⟨⟨ab, hab, hord.1.mpr (by decide)⟩, (hn 1).1.2.1.mpr (by decide)⟩

end DejOs.CString
