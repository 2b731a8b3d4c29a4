import Mathlib.Tactic
import Mathlib.Data.Nat.Digits.Defs

/-!
# A byte memory and a stack that grows downwards

A memory gives a byte to every address of `w` bits; addresses wrap. A range of `n` bytes from `a` on
is the set of the addresses `x` with `x - a < n`, which needs no case for a range that wraps.

A store of a list of bytes is said once, pointwise (`storeBytes_apply`), and so are the stores of a
sequence of pushes: all of them together are one push (`pushes_eq_push`). Words are stored lowest
byte first.
-/

namespace ByteMemory

/-- A memory with addresses of `w` bits. -/
abbrev Memory (w : ℕ) := BitVec w → BitVec 8

variable {w : ℕ}

/-! ## Ranges -/

/-- `x` is one of the `n` bytes from `a` on. -/
def Within (a : BitVec w) (n : ℕ) (x : BitVec w) : Prop := (x - a).toNat < n

instance (a : BitVec w) (n : ℕ) (x : BitVec w) : Decidable (Within a n x) :=
  inferInstanceAs (Decidable (_ < _))

theorem toNat_ofNat_of_lt {n : ℕ} (h : n < 2 ^ w) : (BitVec.ofNat w n).toNat = n := by
  rw [BitVec.toNat_ofNat, Nat.mod_eq_of_lt h]

theorem add_sub_cancel_toNat (a : BitVec w) {i : ℕ} (h : i < 2 ^ w) :
    (a + BitVec.ofNat w i - a).toNat = i := by
  rw [BitVec.add_comm, BitVec.add_sub_cancel, toNat_ofNat_of_lt h]

theorem add_ofNat_sub (a x : BitVec w) : a + BitVec.ofNat w (x - a).toNat = x := by
  rw [BitVec.ofNat_toNat, BitVec.setWidth_eq, BitVec.add_comm, BitVec.sub_add_cancel]

theorem sub_add_ofNat (a : BitVec w) (i j : ℕ) :
    a + BitVec.ofNat w i + BitVec.ofNat w j = a + BitVec.ofNat w (i + j) := by
  rw [BitVec.add_assoc, BitVec.ofNat_add]

theorem add_ofNat_sub_ofNat (a : BitVec w) {c n : ℕ} (h : n ≤ c) :
    a + BitVec.ofNat w c - BitVec.ofNat w n = a + BitVec.ofNat w (c - n) := by
  rw [← Nat.sub_add_cancel h, ← sub_add_ofNat, BitVec.add_sub_cancel, Nat.add_sub_cancel]

theorem within_add {a : BitVec w} {n i : ℕ} (h : i < n) (hn : n ≤ 2 ^ w) :
    Within a n (a + BitVec.ofNat w i) := by
  unfold Within
  rwa [add_sub_cancel_toNat a (by omega)]

theorem sub_sub_toNat (a x : BitVec w) {n : ℕ} (hn : n < 2 ^ w) :
    (x - (a - BitVec.ofNat w n)).toNat = ((x - a).toNat + n) % 2 ^ w := by
  have hx : x - (a - BitVec.ofNat w n) = (x - a) + BitVec.ofNat w n := by
    rw [BitVec.sub_eq_add_neg, BitVec.neg_sub, BitVec.sub_eq_add_neg x a, BitVec.add_assoc]
  rw [hx, BitVec.toNat_add, toNat_ofNat_of_lt hn]

theorem within_offset {a x : BitVec w} {c n : ℕ} (h : c + n ≤ 2 ^ w) :
    Within (a + BitVec.ofNat w c) n x ↔ c ≤ (x - a).toNat ∧ (x - a).toNat < c + n := by
  have hlt := (x - a).isLt
  constructor
  · intro hx
    have hback : x - a = BitVec.ofNat w (c + (x - (a + BitVec.ofNat w c)).toNat) := by
      conv_lhs => rw [← add_ofNat_sub (a + BitVec.ofNat w c) x, sub_add_ofNat, BitVec.add_comm,
        BitVec.add_sub_cancel]
    unfold Within at hx
    rw [hback, toNat_ofNat_of_lt (by omega)]
    omega
  · rintro ⟨hlo, hhi⟩
    have hx : x = a + BitVec.ofNat w c + BitVec.ofNat w ((x - a).toNat - c) := by
      rw [sub_add_ofNat, Nat.add_sub_cancel' hlo, add_ofNat_sub]
    rw [hx]
    exact within_add (by omega) (by omega)

theorem within_below {a x : BitVec w} {n : ℕ} (hn : n < 2 ^ w) :
    Within (a - BitVec.ofNat w n) n x ↔ 2 ^ w ≤ (x - a).toNat + n := by
  have hlt := (x - a).isLt
  unfold Within
  rw [sub_sub_toNat a x hn]
  constructor
  · intro h
    by_contra hc
    rw [Nat.mod_eq_of_lt (by omega)] at h
    omega
  · intro h
    rw [Nat.mod_eq_sub_mod h, Nat.mod_eq_of_lt (by omega)]
    omega

theorem within_below_sub {a : BitVec w} {k n : ℕ} (hk : 0 < k) (hkn : k ≤ n) (hn : n < 2 ^ w) :
    Within (a - BitVec.ofNat w n) n (a - BitVec.ofNat w k) := by
  have hx : a - BitVec.ofNat w k = a - BitVec.ofNat w n + BitVec.ofNat w (n - k) := by
    refine (BitVec.eq_sub_iff_add_eq.mpr ?_).symm
    rw [sub_add_ofNat, Nat.sub_add_cancel hkn, BitVec.sub_add_cancel]
  rw [hx]
  exact within_add (by omega) hn.le

theorem Within.of_offset {a x : BitVec w} {c k n : ℕ} (hn : n ≤ 2 ^ w) (hc : c + k ≤ n)
    (h : Within (a + BitVec.ofNat w c) k x) : Within a n x :=
  ((within_offset (by omega)).mp h).2.trans_le hc

/-- No byte is in both ranges. -/
def Apart (a : BitVec w) (n : ℕ) (b : BitVec w) (k : ℕ) : Prop := ∀ x, Within a n x → ¬ Within b k x

theorem Apart.mono {a b : BitVec w} {n n' k : ℕ} (h : Apart a n b k) (hn : n' ≤ n) :
    Apart a n' b k := fun x hx => h x (hx.trans_le hn)

theorem Apart.offset {a b : BitVec w} {c k n n' : ℕ} (h : Apart a n b k) (hn : n ≤ 2 ^ w)
    (hc : c + n' ≤ n) : Apart (a + BitVec.ofNat w c) n' b k := fun x hx => h x (hx.of_offset hn hc)

theorem within_iff_toNat {a x : BitVec w} {n : ℕ} (h : a.toNat + n ≤ 2 ^ w) :
    Within a n x ↔ a.toNat ≤ x.toNat ∧ x.toNat < a.toNat + n := by
  have hoff := within_offset (a := 0#w) (x := x) h
  rwa [BitVec.ofNat_toNat, BitVec.setWidth_eq, BitVec.zero_add, BitVec.sub_zero] at hoff

theorem apart_of_le {a b : BitVec w} {n k : ℕ} (ha : a.toNat + n ≤ 2 ^ w)
    (hb : b.toNat + k ≤ 2 ^ w) (h : a.toNat + n ≤ b.toNat ∨ b.toNat + k ≤ a.toNat) :
    Apart a n b k := by
  intro x hx hx'
  rw [within_iff_toNat ha] at hx
  rw [within_iff_toNat hb] at hx'
  omega

/-- Two parts of a range, one behind the other. -/
theorem apart_offset {a : BitVec w} {c d n k : ℕ} (hc : c + n ≤ 2 ^ w) (hd : d + k ≤ 2 ^ w)
    (h : c + n ≤ d ∨ d + k ≤ c) : Apart (a + BitVec.ofNat w c) n (a + BitVec.ofNat w d) k := by
  intro x hx hx'
  rw [within_offset hc] at hx
  rw [within_offset hd] at hx'
  omega

/-! ## Rows with padding -/

/-- Where cell `x` of row `y` begins: a row has `pitch` bytes, a cell `c`. -/
def cell (c pitch x y : ℕ) : ℕ := y * pitch + c * x

section Rows

variable {c pitch width height x y x' y' : ℕ}

theorem cell_add_le (hx : x < width) : cell c pitch x y + c ≤ y * pitch + c * width := by
  have hcell : c * (x + 1) ≤ c * width := Nat.mul_le_mul_left c hx
  rw [Nat.mul_succ] at hcell
  unfold cell
  omega

theorem row_le (hrow : c * width ≤ pitch) (hy : y < y') : y * pitch + c * width ≤ y' * pitch :=
  calc y * pitch + c * width ≤ y * pitch + pitch := Nat.add_le_add_left hrow _
    _ = (y + 1) * pitch := (Nat.succ_mul ..).symm
    _ ≤ y' * pitch := Nat.mul_le_mul_right pitch hy

theorem cell_add_le_mul (hrow : c * width ≤ pitch) (hx : x < width) (hy : y < height) :
    cell c pitch x y + c ≤ height * pitch := (cell_add_le hx).trans (row_le hrow hy)

theorem cell_separate (hrow : c * width ≤ pitch) (hx : x < width) (hx' : x' < width)
    (hne : (x, y) ≠ (x', y')) :
    cell c pitch x y + c ≤ cell c pitch x' y' ∨ cell c pitch x' y' + c ≤ cell c pitch x y := by
  have hrows : ∀ {x y x' y' : ℕ}, x < width → y < y' →
      cell c pitch x y + c ≤ cell c pitch x' y' := fun {x y x' y'} hx hy =>
    calc cell c pitch x y + c ≤ y' * pitch := cell_add_le_mul hrow hx hy
      _ ≤ cell c pitch x' y' := Nat.le_add_right ..
  have hcols : ∀ {x x' : ℕ}, x < x' → cell c pitch x y + c ≤ cell c pitch x' y := by
    intro x x' hlt
    have hcell : c * (x + 1) ≤ c * x' := Nat.mul_le_mul_left c hlt
    rw [Nat.mul_succ] at hcell
    unfold cell
    omega
  rcases lt_trichotomy y y' with hy | rfl | hy
  · exact Or.inl (hrows hx hy)
  · rcases Nat.lt_or_gt_of_ne (fun h => hne (by rw [h]) : x ≠ x') with hlt | hlt
    · exact Or.inl (hcols hlt)
    · exact Or.inr (hcols hlt)
  · exact Or.inr (hrows hx' hy)

theorem within_row {a b : BitVec w} (hc : 0 < c) (hrow : y * pitch + c * width ≤ 2 ^ w) :
    Within (a + BitVec.ofNat w (y * pitch)) (c * width) b ↔
      ∃ x < width, Within (a + BitVec.ofNat w (cell c pitch x y)) c b := by
  rw [within_offset hrow]
  constructor
  · rintro ⟨hlo, hhi⟩
    obtain ⟨d, hd⟩ := Nat.exists_eq_add_of_le hlo
    have hx : d / c < width := Nat.div_lt_of_lt_mul (by omega)
    have hcell : c * (d / c + 1) ≤ c * width := Nat.mul_le_mul_left c hx
    have hdiv := Nat.div_add_mod d c
    have hmod := Nat.mod_lt d hc
    rw [Nat.mul_succ] at hcell
    refine ⟨d / c, hx, ?_⟩
    unfold cell
    rw [within_offset (by omega)]
    omega
  · rintro ⟨x, hx, hb⟩
    have hcell : cell c pitch x y + c ≤ y * pitch + c * width := cell_add_le hx
    rw [within_offset (by omega)] at hb
    unfold cell at hb hcell
    omega

end Rows

/-! ## Stores and loads -/

/-- Stores the bytes from `a` on. -/
def storeBytes (m : Memory w) (a : BitVec w) (bs : List (BitVec 8)) : Memory w :=
  fun x => bs[(x - a).toNat]?.getD (m x)

/-- The `n` bytes from `a` on. -/
def loadBytes (m : Memory w) (a : BitVec w) (n : ℕ) : List (BitVec 8) :=
  (List.range n).map fun i => m (a + BitVec.ofNat w i)

variable {m : Memory w} {a x : BitVec w} {bs : List (BitVec 8)}

theorem storeBytes_apply (m : Memory w) (a : BitVec w) (bs : List (BitVec 8)) (x : BitVec w) :
    storeBytes m a bs x = bs[(x - a).toNat]?.getD (m x) := rfl

@[simp] theorem storeBytes_nil (m : Memory w) (a : BitVec w) : storeBytes m a [] = m := rfl

theorem storeBytes_outside (h : ¬ Within a bs.length x) : storeBytes m a bs x = m x := by
  unfold Within at h
  rw [storeBytes_apply, List.getElem?_eq_none (by omega), Option.getD_none]

theorem storeBytes_inside (i : ℕ) (h : i < bs.length) (hn : bs.length ≤ 2 ^ w) :
    storeBytes m a bs (a + BitVec.ofNat w i) = bs[i] := by
  rw [storeBytes_apply, add_sub_cancel_toNat a (by omega), List.getElem?_eq_getElem h,
    Option.getD_some]

@[simp] theorem length_loadBytes (m : Memory w) (a : BitVec w) (n : ℕ) :
    (loadBytes m a n).length = n := by
  unfold loadBytes
  rw [List.length_map, List.length_range]

theorem loadBytes_congr {m' : Memory w} {n : ℕ}
    (h : ∀ i < n, m (a + BitVec.ofNat w i) = m' (a + BitVec.ofNat w i)) :
    loadBytes m a n = loadBytes m' a n :=
  List.map_congr_left fun i hi => h i (List.mem_range.mp hi)

theorem loadBytes_storeBytes_self (m : Memory w) (a : BitVec w) (bs : List (BitVec 8))
    (hn : bs.length ≤ 2 ^ w) : loadBytes (storeBytes m a bs) a bs.length = bs := by
  apply List.ext_getElem (length_loadBytes _ _ _)
  intro i _ hi
  simp only [loadBytes, List.getElem_map, List.getElem_range]
  exact storeBytes_inside i hi hn

theorem loadBytes_storeBytes_outside {b : BitVec w} {n : ℕ}
    (h : ∀ i < n, ¬ Within b bs.length (a + BitVec.ofNat w i)) :
    loadBytes (storeBytes m b bs) a n = loadBytes m a n :=
  loadBytes_congr fun i hi => storeBytes_outside (h i hi)

/-! ## Words, lowest byte first -/

/-- The number with these bytes. -/
def ofBytes (bs : List (BitVec 8)) : ℕ := Nat.ofDigits 256 (bs.map BitVec.toNat)

/-- The `n` low bytes of a number. -/
def toBytes : ℕ → ℕ → List (BitVec 8)
  | 0, _ => []
  | n + 1, v => BitVec.ofNat 8 v :: toBytes n (v / 256)

@[simp] theorem length_toBytes (n v : ℕ) : (toBytes n v).length = n := by
  induction n generalizing v with
  | zero => rfl
  | succ n ih => rw [toBytes, List.length_cons, ih]

theorem ofBytes_toBytes (n v : ℕ) : ofBytes (toBytes n v) = v % 256 ^ n := by
  induction n generalizing v with
  | zero => rw [pow_zero, Nat.mod_one]; rfl
  | succ n ih =>
    have hrest := ih (v / 256)
    unfold ofBytes at hrest ⊢
    rw [toBytes, List.map_cons, Nat.ofDigits_cons, hrest, BitVec.toNat_ofNat, pow_succ' 256,
      Nat.mod_mul]

theorem take_toBytes (j k v : ℕ) : (toBytes (j + k) v).take j = toBytes j v := by
  induction j generalizing v with
  | zero => rfl
  | succ j ih => rw [Nat.succ_add, toBytes, List.take_succ_cons, ih, toBytes]

theorem drop_toBytes (j k v : ℕ) : (toBytes (j + k) v).drop j = toBytes k (v / 256 ^ j) := by
  induction j generalizing v with
  | zero => rw [Nat.zero_add, List.drop_zero, pow_zero, Nat.div_one]
  | succ j ih =>
    rw [Nat.succ_add, toBytes, List.drop_succ_cons, ih, Nat.div_div_eq_div_mul, ← pow_succ' 256]

theorem toBytes_add_mul (j u v : ℕ) : toBytes j (u + 256 ^ j * v) = toBytes j u := by
  induction j generalizing u v with
  | zero => rfl
  | succ j ih =>
    have hshift : u + 256 ^ (j + 1) * v = u + 256 * (256 ^ j * v) := by rw [pow_succ', mul_assoc]
    rw [hshift, toBytes, toBytes, Nat.add_mul_div_left _ _ (by decide), ih]
    congr 1
    apply BitVec.eq_of_toNat_eq
    rw [BitVec.toNat_ofNat, BitVec.toNat_ofNat]
    omega

/-- The bytes of a longer number are those of its low part and, behind them, of its high part. -/
theorem toBytes_append {j u : ℕ} (k v : ℕ) (h : u < 256 ^ j) :
    toBytes j u ++ toBytes k v = toBytes (j + k) (u + 256 ^ j * v) := by
  rw [← List.take_append_drop j (toBytes (j + k) (u + 256 ^ j * v)), take_toBytes, drop_toBytes,
    toBytes_add_mul, Nat.add_mul_div_left _ _ (by positivity), Nat.div_eq_of_lt h, Nat.zero_add]

/-- The number in a field of `k` bytes, `j` bytes from the front. -/
theorem ofBytes_field (j k l v : ℕ) :
    ofBytes (((toBytes (j + (k + l)) v).drop j).take k) = v / 256 ^ j % 256 ^ k := by
  rw [drop_toBytes, take_toBytes, ofBytes_toBytes]

/-- A 64-bit word at `a`. -/
def load64 (m : Memory w) (a : BitVec w) : BitVec 64 := BitVec.ofNat 64 (ofBytes (loadBytes m a 8))

/-- The lowest byte of a word is the first one. -/
theorem load64_setWidth (m : Memory w) (a : BitVec w) : (load64 m a).setWidth 8 = m a := by
  have hbytes : loadBytes m a 8 =
      m a :: (List.range' 1 7).map fun i => m (a + BitVec.ofNat w i) := by
    have hfirst : a + BitVec.ofNat w 0 = a := BitVec.add_zero a
    unfold loadBytes
    rw [List.range_eq_range', List.range'_succ, List.map_cons, hfirst]
  unfold load64 ofBytes
  rw [hbytes, List.map_cons, Nat.ofDigits_cons, BitVec.setWidth_ofNat_of_le (by decide)]
  apply BitVec.eq_of_toNat_eq
  rw [BitVec.toNat_ofNat]
  have hlt := (m a).isLt
  omega

theorem load64_congr {m' : Memory w} {c n : ℕ} (hn : n ≤ 2 ^ w) (hc : c + 8 ≤ n)
    (h : ∀ x, Within a n x → m x = m' x) :
    load64 m (a + BitVec.ofNat w c) = load64 m' (a + BitVec.ofNat w c) := by
  unfold load64
  refine congrArg (fun l => BitVec.ofNat 64 (ofBytes l)) (loadBytes_congr fun i hi => ?_)
  rw [sub_add_ofNat]
  exact h _ (within_add (by omega) hn)

/-- The bytes of a 64-bit word. -/
def bytes64 (v : BitVec 64) : List (BitVec 8) := toBytes 8 v.toNat

@[simp] theorem length_bytes64 (v : BitVec 64) : (bytes64 v).length = 8 := length_toBytes 8 _

theorem load64_of_loadBytes {v : BitVec 64} (h : loadBytes m a 8 = bytes64 v) : load64 m a = v := by
  unfold load64
  rw [h, bytes64, ofBytes_toBytes, Nat.mod_eq_of_lt (show v.toNat < 256 ^ 8 from v.isLt),
    BitVec.ofNat_toNat, BitVec.setWidth_eq]

theorem load64_storeBytes_self (m : Memory w) (a : BitVec w) (v : BitVec 64) (hw : 3 ≤ w) :
    load64 (storeBytes m a (bytes64 v)) a = v := by
  have hpow : 2 ^ 3 ≤ 2 ^ w := Nat.pow_le_pow_right (by decide) hw
  apply load64_of_loadBytes
  have := loadBytes_storeBytes_self m a (bytes64 v) (by rw [length_bytes64]; omega)
  rwa [length_bytes64] at this

/-! ## Copies, byte by byte -/

/-- Copies byte number `i`. -/
def copyByte (d s : BitVec w) (m : Memory w) (i : ℕ) : Memory w :=
  Function.update m (d + BitVec.ofNat w i) (m (s + BitVec.ofNat w i))

section Copy

variable {d s : BitVec w} {l : List ℕ}

theorem add_ofNat_inj (a : BitVec w) {i j : ℕ} (hi : i < 2 ^ w) (hj : j < 2 ^ w)
    (h : a + BitVec.ofNat w i = a + BitVec.ofNat w j) : i = j := by
  rw [← add_sub_cancel_toNat a hi, h, add_sub_cancel_toNat a hj]

theorem foldl_copyByte_outside (h : ∀ i ∈ l, x ≠ d + BitVec.ofNat w i) :
    l.foldl (copyByte d s) m x = m x := by
  induction l generalizing m with
  | nil => rfl
  | cons i l ih =>
    obtain ⟨hi, hl⟩ := List.forall_mem_cons.mp h
    rw [List.foldl_cons, ih hl]
    exact Function.update_of_ne hi _ _

/-- A copy to bytes apart from the source has not touched the byte that comes next. -/
theorem foldl_copyByte_source {n n' k : ℕ} (hsep : Apart d n s n') (hn : n ≤ 2 ^ w)
    (hn' : n' ≤ 2 ^ w) (hk : k ≤ n) (hk' : k < n') :
    (List.range k).foldl (copyByte d s) m (s + BitVec.ofNat w k) = m (s + BitVec.ofNat w k) := by
  refine foldl_copyByte_outside fun i hi heq => ?_
  rw [List.mem_range] at hi
  refine hsep (d + BitVec.ofNat w i) (within_add (by omega) hn) ?_
  rw [← heq]
  exact within_add hk' hn'

/-- The bytes are copied in any order in which none is overwritten before its turn. -/
theorem foldl_copyByte_inside (hlt : ∀ i ∈ l, i < 2 ^ w) (hnodup : l.Nodup)
    (hsafe : l.Pairwise fun i j => d + BitVec.ofNat w i ≠ s + BitVec.ofNat w j) {i : ℕ}
    (hi : i ∈ l) : l.foldl (copyByte d s) m (d + BitVec.ofNat w i) = m (s + BitVec.ofNat w i) := by
  induction l generalizing m with
  | nil => exact absurd hi List.not_mem_nil
  | cons j l ih =>
    obtain ⟨hj, hl⟩ := List.forall_mem_cons.mp hlt
    obtain ⟨hnot, hnodup'⟩ := List.nodup_cons.mp hnodup
    obtain ⟨hfirst, hsafe'⟩ := List.pairwise_cons.mp hsafe
    rw [List.foldl_cons]
    rcases List.mem_cons.mp hi with rfl | hi
    · rw [foldl_copyByte_outside]
      · exact Function.update_self _ _ _
      · intro k hk heq
        exact hnot (add_ofNat_inj d hj (hl k hk) heq ▸ hk)
    · rw [ih hl hnodup' hsafe' hi]
      exact Function.update_of_ne (hfirst i hi).symm _ _

end Copy

/-! ## The same bytes at many places -/

section Blocks

variable {as : List (BitVec w)}

/-- Stores the bytes from each of the addresses on. -/
def storeEach (bs : List (BitVec 8)) (as : List (BitVec w)) (m : Memory w) : Memory w :=
  as.foldl (fun m a => storeBytes m a bs) m

theorem storeEach_outside (h : ∀ a ∈ as, ¬ Within a bs.length x) : storeEach bs as m x = m x := by
  induction as generalizing m with
  | nil => rfl
  | cons a as ih =>
    obtain ⟨ha, has⟩ := List.forall_mem_cons.mp h
    exact (ih has).trans (storeBytes_outside ha)

/-- Blocks that do not overlap can be stored in any order. -/
theorem storeEach_inside (hsep : ∀ a ∈ as, ∀ b ∈ as, a ≠ b → Apart a bs.length b bs.length)
    (ha : a ∈ as) (i : ℕ) (hi : i < bs.length) (hn : bs.length ≤ 2 ^ w) :
    storeEach bs as m (a + BitVec.ofNat w i) = bs[i] := by
  induction as generalizing m with
  | nil => exact absurd ha List.not_mem_nil
  | cons b as ih =>
    have hsep' : ∀ a ∈ as, ∀ b ∈ as, a ≠ b → Apart a bs.length b bs.length := fun a ha b hb =>
      hsep a (List.mem_cons_of_mem _ ha) b (List.mem_cons_of_mem _ hb)
    by_cases hmem : a ∈ as
    · exact ih hsep' hmem
    · obtain rfl : a = b := (List.mem_cons.mp ha).resolve_right hmem
      -- no later block touches this one
      have hlater : ∀ c ∈ as, ¬ Within c bs.length (a + BitVec.ofNat w i) := fun c hc =>
        hsep a List.mem_cons_self c (List.mem_cons_of_mem _ hc) (fun h => hmem (h ▸ hc)) _
          (within_add hi hn)
      show storeEach bs as (storeBytes m a bs) _ = _
      rw [storeEach_outside hlater, storeBytes_inside i hi hn]

end Blocks

/-! ## The stack -/

/-- A memory and a stack pointer. -/
structure Stack (w : ℕ) where
  mem : Memory w
  sp : BitVec w

namespace Stack

/-- Moves the pointer down by as many bytes as there are, and stores them there. -/
def push (s : Stack w) (bs : List (BitVec 8)) : Stack w where
  mem := storeBytes s.mem (s.sp - BitVec.ofNat w bs.length) bs
  sp := s.sp - BitVec.ofNat w bs.length

/-- One push after the other. -/
def pushes (s : Stack w) (l : List (List (BitVec 8))) : Stack w := l.foldl push s

/-- How many bytes are pushed. -/
def total (l : List (List (BitVec 8))) : ℕ := (l.map List.length).sum

/-- The addresses that the pushes store to, in order. -/
def written (s : Stack w) : List (List (BitVec 8)) → List (BitVec w)
  | [] => []
  | bs :: l => (List.range bs.length).map (fun i => (s.push bs).sp + BitVec.ofNat w i) ++
      written (s.push bs) l

@[simp] theorem pushes_nil (s : Stack w) : s.pushes [] = s := rfl

@[simp] theorem pushes_cons (s : Stack w) (bs : List (BitVec 8)) (l : List (List (BitVec 8))) :
    s.pushes (bs :: l) = (s.push bs).pushes l := rfl

@[simp] theorem pushes_concat (s : Stack w) (l : List (List (BitVec 8))) (bs : List (BitVec 8)) :
    s.pushes (l ++ [bs]) = (s.pushes l).push bs := List.foldl_concat ..

@[simp] theorem total_cons (bs : List (BitVec 8)) (l : List (List (BitVec 8))) :
    total (bs :: l) = bs.length + total l := rfl

theorem push_push (s : Stack w) (bs cs : List (BitVec 8)) (h : bs.length + cs.length < 2 ^ w) :
    (s.push bs).push cs = s.push (cs ++ bs) := by
  have hsp : s.sp - BitVec.ofNat w bs.length - BitVec.ofNat w cs.length =
      s.sp - BitVec.ofNat w (cs ++ bs).length := by
    rw [List.length_append, BitVec.ofNat_add, BitVec.add_comm (BitVec.ofNat w cs.length),
      BitVec.sub_eq_add_neg, BitVec.sub_eq_add_neg, BitVec.sub_eq_add_neg, BitVec.neg_add,
      BitVec.sub_eq_add_neg, BitVec.add_assoc]
  unfold push
  rw [hsp, Stack.mk.injEq]
  refine ⟨funext fun x => ?_, rfl⟩
  have hlen : (cs ++ bs).length = bs.length + cs.length := by
    rw [List.length_append, Nat.add_comm]
  have hbs := sub_sub_toNat s.sp x (n := bs.length) (by omega)
  have hall := sub_sub_toNat s.sp x (n := bs.length + cs.length) (by omega)
  have hlt := (x - s.sp).isLt
  simp only [storeBytes_apply, hlen, hbs, hall]
  by_cases hwrap : (x - s.sp).toNat + (bs.length + cs.length) < 2 ^ w
  · -- above the two ranges, or below both
    rw [Nat.mod_eq_of_lt hwrap, Nat.mod_eq_of_lt (by omega), List.getElem?_eq_none (by omega),
      List.getElem?_eq_none (by omega), List.getElem?_eq_none (by omega)]
    rfl
  · have hmod : ((x - s.sp).toNat + (bs.length + cs.length)) % 2 ^ w =
        (x - s.sp).toNat + (bs.length + cs.length) - 2 ^ w := by
      rw [Nat.mod_eq_sub_mod (by omega), Nat.mod_eq_of_lt (by omega)]
    rw [hmod]
    by_cases hcs : (x - s.sp).toNat + (bs.length + cs.length) - 2 ^ w < cs.length
    · rw [List.getElem?_append_left hcs, List.getElem?_eq_getElem hcs]
      rfl
    · have hmod' : ((x - s.sp).toNat + bs.length) % 2 ^ w =
          (x - s.sp).toNat + bs.length - 2 ^ w := by
        rw [Nat.mod_eq_sub_mod (by omega), Nat.mod_eq_of_lt (by omega)]
      rw [List.getElem?_append_right (by omega), List.getElem?_eq_none (by omega), hmod',
        Option.getD_none]
      have hidx : (x - s.sp).toNat + bs.length - 2 ^ w =
          (x - s.sp).toNat + (bs.length + cs.length) - 2 ^ w - cs.length := by omega
      rw [hidx]

theorem push_nil (s : Stack w) : s.push [] = s := by
  unfold push
  rw [List.length_nil, BitVec.sub_zero, storeBytes_nil]

theorem length_flatten_reverse (l : List (List (BitVec 8))) :
    l.reverse.flatten.length = total l := by
  unfold total
  rw [List.length_flatten, List.map_reverse, List.sum_reverse]

theorem pushes_eq_push (s : Stack w) (l : List (List (BitVec 8))) (h : total l < 2 ^ w) :
    s.pushes l = s.push l.reverse.flatten := by
  induction l generalizing s with
  | nil => rw [pushes_nil, List.reverse_nil, List.flatten_nil, push_nil]
  | cons bs l ih =>
    rw [total_cons] at h
    rw [pushes_cons, ih (s.push bs) (by omega), push_push, List.reverse_cons, List.flatten_concat]
    rw [length_flatten_reverse]
    omega

theorem mem_push_addresses (s : Stack w) (bs : List (BitVec 8)) (h : bs.length ≤ 2 ^ w)
    (x : BitVec w) :
    x ∈ (List.range bs.length).map (fun i => (s.push bs).sp + BitVec.ofNat w i) ↔
      Within (s.push bs).sp bs.length x := by
  constructor
  · intro hx
    obtain ⟨i, hi, rfl⟩ := List.mem_map.mp hx
    exact within_add (List.mem_range.mp hi) h
  · intro hx
    exact List.mem_map.mpr ⟨_, List.mem_range.mpr hx, add_ofNat_sub _ _⟩

/-- The pushes store to the bytes directly below the pointer they start from, and to no others. -/
theorem mem_written_iff (s : Stack w) (l : List (List (BitVec 8))) (h : total l < 2 ^ w)
    (x : BitVec w) : x ∈ s.written l ↔ Within (s.sp - BitVec.ofNat w (total l)) (total l) x := by
  rw [within_below h]
  induction l generalizing s with
  | nil =>
    have hlt := (x - s.sp).isLt
    refine iff_of_false List.not_mem_nil ?_
    show ¬ 2 ^ w ≤ (x - s.sp).toNat + 0
    omega
  | cons bs l ih =>
    rw [total_cons] at h
    have hfirst : x ∈ (List.range bs.length).map
        (fun i => (s.push bs).sp + BitVec.ofNat w i) ↔ 2 ^ w ≤ (x - s.sp).toNat + bs.length := by
      rw [← within_below (by omega)]
      exact mem_push_addresses s bs (by omega) x
    have hdist : (x - (s.push bs).sp).toNat = ((x - s.sp).toNat + bs.length) % 2 ^ w :=
      sub_sub_toNat s.sp x (by omega)
    rw [written, List.mem_append, hfirst, ih (s.push bs) (by omega), hdist, total_cons]
    have hlt := (x - s.sp).isLt
    by_cases hin : 2 ^ w ≤ (x - s.sp).toNat + bs.length
    · exact iff_of_true (Or.inl hin) (by omega)
    · rw [Nat.mod_eq_of_lt (by omega), or_iff_right hin, Nat.add_assoc]

theorem pushes_mem_of_not_written (s : Stack w) (l : List (List (BitVec 8)))
    (h : total l < 2 ^ w) {x : BitVec w} (hx : x ∉ s.written l) :
    (s.pushes l).mem x = s.mem x := by
  rw [pushes_eq_push s l h]
  apply storeBytes_outside
  rwa [length_flatten_reverse, ← mem_written_iff s l h]

theorem push_mem_above (s : Stack w) (bs : List (BitVec 8)) {i : ℕ}
    (h : i + bs.length < 2 ^ w) :
    (s.push bs).mem (s.sp + BitVec.ofNat w i) = s.mem (s.sp + BitVec.ofNat w i) := by
  apply storeBytes_outside
  rw [within_below (by omega), add_sub_cancel_toNat _ (by omega)]
  omega

theorem load64_push_above (s : Stack w) (bs : List (BitVec 8)) {i : ℕ}
    (h : i + 8 + bs.length ≤ 2 ^ w) :
    load64 (s.push bs).mem (s.sp + BitVec.ofNat w i) =
      load64 s.mem (s.sp + BitVec.ofNat w i) := by
  unfold load64
  refine congrArg (fun l => BitVec.ofNat 64 (ofBytes l)) (loadBytes_congr fun j hj => ?_)
  rw [sub_add_ofNat]
  exact push_mem_above s bs (by omega)

/-- After pushes of words, the words lie above the pointer, the last one first. -/
theorem load64_pushes (s : Stack w) (ws : List (BitVec 64)) (h : 8 * ws.length < 2 ^ w)
    (hw : 3 ≤ w) (i : ℕ) (hi : i < ws.reverse.length) :
    load64 (s.pushes (ws.map bytes64)).mem
      ((s.pushes (ws.map bytes64)).sp + BitVec.ofNat w (8 * i)) = ws.reverse[i] := by
  induction ws using List.reverseRecOn generalizing i with
  | nil => exact absurd hi (Nat.not_lt_zero i)
  | append_singleton ws v ih =>
    rw [List.length_append, List.length_singleton] at h
    simp only [List.map_append, List.map_cons, List.map_nil, pushes_concat]
    cases i with
    | zero =>
      simp only [Nat.mul_zero, BitVec.add_zero, List.reverse_append,
        List.reverse_singleton, List.singleton_append, List.getElem_cons_zero]
      exact load64_storeBytes_self _ _ v hw
    | succ i =>
      have hi' : i < ws.reverse.length := by
        simpa only [List.reverse_append, List.reverse_singleton, List.singleton_append,
          List.length_cons, Nat.add_lt_add_iff_right] using hi
      have hsp : ((s.pushes (ws.map bytes64)).push (bytes64 v)).sp + BitVec.ofNat w (8 * (i + 1)) =
          (s.pushes (ws.map bytes64)).sp + BitVec.ofNat w (8 * i) := by
        show (s.pushes (ws.map bytes64)).sp - BitVec.ofNat w (bytes64 v).length + _ = _
        rw [length_bytes64, Nat.mul_succ, Nat.add_comm, BitVec.ofNat_add, ← BitVec.add_assoc,
          BitVec.sub_add_cancel]
      rw [List.length_reverse] at hi'
      rw [hsp, load64_push_above _ _ (by rw [length_bytes64]; omega),
        ih (by omega) i (by rwa [List.length_reverse])]
      simp only [List.reverse_append, List.reverse_singleton, List.singleton_append,
        List.getElem_cons_succ]

end Stack

end ByteMemory
