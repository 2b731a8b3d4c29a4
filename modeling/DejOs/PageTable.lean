import DejOs.Lib.RadixTable
import DejOs.Base

/-!
# Four-level page tables

Physical memory is a function from frames to their 512 entries. `decode` says how the paging unit
reads an entry at each level; with it the walks of `RadixTable` are the hardware's walks (`hwWalk`),
and `translate` is the address the hardware computes.
-/

namespace DejOs

open RadixTable

/-! ## Entries -/

/-- `PAGE_PRESENT` -/
def pagePresent : U64 := 1
/-- `PAGE_WRITE` -/
def pageWrite : U64 := 2
/-- `PAGE_USER` -/
def pageUser : U64 := 4
/-- `PAGE_NX` -/
def pageNx : U64 := 0x8000000000000000

/-- The bits of an entry that hold a frame, 12 to 51. -/
def frameMask : U64 := 0x000FFFFFFFFFF000

/-- Bit 0. -/
def present (e : U64) : Bool := e &&& pagePresent != 0
/-- Bit 2. -/
def user (e : U64) : Bool := e &&& pageUser != 0
/-- Bit 7, `PS`. -/
def large (e : U64) : Bool := e &&& 0x80 != 0

/-- The entry has `PS` and the bits 52 to 63 clear. -/
def clean (e : U64) : Bool := e &&& 0xFFF0000000000080 == 0

/-- A 4 KiB frame of the physical address space. -/
def IsFrame (a : U64) : Prop := a.toNat % 4096 = 0 ∧ a.toNat < 2 ^ 52

/-- How the paging unit reads an entry of the table at level `d`, 0 being the PML4. -/
def decode (d : ℕ) (e : U64) : Node U64 :=
  if present e then
    if d < 3 ∧ large e = false then .table (e &&& frameMask) else .leaf
  else .absent

/-- The entry `map_page` writes for a table at `page`. -/
def tableEntry (page : U64) : U64 := page ||| pagePresent ||| pageWrite ||| pageUser

theorem getLsbD_frameMask (i : ℕ) : frameMask.getLsbD i = decide (12 ≤ i ∧ i < 52) := by
  by_cases hi : i < 64
  · have h : ∀ j : Fin 64, frameMask.getLsbD j = decide (12 ≤ j.val ∧ j.val < 52) := by decide
    exact h ⟨i, hi⟩
  · rw [BitVec.getLsbD_of_ge _ _ (by omega)]
    simp
    omega

theorem IsFrame.getLsbD {a : U64} (h : IsFrame a) {i : ℕ} (hi : i < 12 ∨ 52 ≤ i) :
    a.getLsbD i = false := by
  obtain ⟨hmod, hlt⟩ := h
  rw [← BitVec.testBit_toNat]
  rcases hi with hi | hi
  · have hbit := Nat.testBit_mod_two_pow a.toNat 12 i
    rw [show (2 : ℕ) ^ 12 = 4096 from rfl, hmod] at hbit
    simpa [hi] using hbit.symm
  · exact Nat.testBit_lt_two_pow (lt_of_lt_of_le hlt (Nat.pow_le_pow_right (by decide) hi))

theorem IsFrame.and_mask {a : U64} (h : IsFrame a) : a &&& frameMask = a := by
  apply BitVec.eq_of_getLsbD_eq
  intro i hi
  rw [BitVec.getLsbD_and, getLsbD_frameMask]
  by_cases hm : 12 ≤ i ∧ i < 52
  · simp [hm]
  · simp [hm, h.getLsbD (i := i) (by omega)]

/-- Bits that are clear under a mask are clear under a smaller one. -/
theorem and_eq_zero_of_and {e m k : U64} (h : e &&& m = 0) (hk : m &&& k = k) : e &&& k = 0 := by
  rw [← hk, ← BitVec.and_assoc, h]
  exact BitVec.zero_and

theorem IsFrame.or_and_mask {a b : U64} (h : IsFrame a) (hb : b &&& frameMask = 0) :
    (a ||| b) &&& frameMask = a := by
  rw [BitVec.and_or_distrib_right, h.and_mask, hb]
  exact BitVec.or_zero

/-- A frame does not show under a mask of other bits. -/
theorem IsFrame.or_and_flags {a b m : U64} (h : IsFrame a) (hm : frameMask &&& m = 0) :
    (a ||| b) &&& m = b &&& m := by
  rw [BitVec.and_or_distrib_right, ← h.and_mask, BitVec.and_assoc, hm]
  simp

theorem tableEntry_eq (page : U64) : tableEntry page = page ||| 7 := by
  unfold tableEntry
  rw [BitVec.or_assoc, BitVec.or_assoc]
  rfl

section TableEntry

variable {page : U64} (h : IsFrame page)

include h

theorem present_tableEntry : present (tableEntry page) = true := by
  unfold present
  rw [tableEntry_eq, h.or_and_flags (by decide)]
  rfl

theorem user_tableEntry : user (tableEntry page) = true := by
  unfold user
  rw [tableEntry_eq, h.or_and_flags (by decide)]
  rfl

theorem clean_tableEntry : clean (tableEntry page) = true := by
  unfold clean
  rw [tableEntry_eq, h.or_and_flags (by decide)]
  rfl

theorem tableEntry_and_mask : tableEntry page &&& frameMask = page := by
  rw [tableEntry_eq]
  exact h.or_and_mask (by decide)

end TableEntry

/-- The address `map_page` computes from a clean entry is the one the hardware uses. -/
theorem and_not_eq_of_clean {e : U64} (h : clean e = true) : e &&& ~~~0xFFF = e &&& frameMask := by
  have hhi : e &&& 0xFFF0000000000000 = 0 := and_eq_zero_of_and (eq_of_beq h) (by decide)
  have hmask : (~~~0xFFF : U64) = frameMask ||| 0xFFF0000000000000 := by decide
  rw [hmask, BitVec.and_or_distrib_left, hhi]
  exact BitVec.or_zero

theorem large_of_clean {e : U64} (h : clean e = true) : large e = false := by
  unfold large
  rw [and_eq_zero_of_and (eq_of_beq h) (by decide)]
  rfl

theorem decode_of_clean {d : ℕ} {e : U64} (hd : d < 3) (hp : present e = true)
    (hc : clean e = true) : decode d e = .table (e &&& frameMask) := by
  simp [decode, hp, hd, large_of_clean hc]

theorem decode_of_not_present {d : ℕ} {e : U64} (hp : present e = false) :
    decode d e = .absent := by
  simp [decode, hp]

theorem decode_leaf {e : U64} (hp : present e = true) : decode 3 e = .leaf := by
  simp [decode, hp]

theorem present_of_decode {d : ℕ} {e : U64} (h : decode d e ≠ .absent) : present e = true := by
  by_contra hp
  exact h (decode_of_not_present (by simpa using hp))

theorem present_or {a flags : U64} (hf : flags &&& pagePresent = pagePresent) :
    present (a ||| flags) = true := by
  unfold present
  rw [BitVec.and_or_distrib_right, hf, bne_iff_ne]
  intro h
  have hbit := congrArg (fun x => x.getLsbD 0) h
  simp [pagePresent] at hbit

theorem user_or {a flags : U64} (hf : flags &&& pageUser = pageUser) :
    user (a ||| flags) = true := by
  unfold user
  rw [BitVec.and_or_distrib_right, hf, bne_iff_ne]
  intro h
  have hbit := congrArg (fun x => x.getLsbD 2) h
  simp [pageUser] at hbit

/-! ## Addresses -/

/-- `(virt >> shift) & 0x1FF` -/
def index (virt : U64) (shift : ℕ) : Fin 512 :=
  ⟨((virt >>> shift) &&& 0x1FF).toNat, by
    rw [BitVec.toNat_and]
    exact Nat.lt_of_le_of_lt Nat.and_le_right (by decide)⟩

/-- The indices of an address, `pml4_i`, `pdpt_i`, `pd_i` and `pt_i`. -/
def path (virt : U64) : List (Fin 512) :=
  [index virt 39, index virt 30, index virt 21, index virt 12]

theorem index_val (virt : U64) (shift : ℕ) :
    (index virt shift).val = virt.toNat / 2 ^ shift % 512 := by
  show ((virt >>> shift) &&& 0x1FF).toNat = _
  rw [BitVec.toNat_and, BitVec.toNat_ushiftRight, Nat.shiftRight_eq_div_pow]
  exact Nat.and_two_pow_sub_one_eq_mod _ 9

theorem path_eq_iff (v w : U64) :
    path v = path w ↔ v.toNat / 4096 % 2 ^ 36 = w.toNat / 4096 % 2 ^ 36 := by
  unfold path
  simp only [List.cons.injEq, and_true, Fin.ext_iff, index_val]
  omega

/-- Physical memory, as the entries of its frames. -/
abbrev Mem := U64 → Fin 512 → U64

/-- The table a path of indices leads to from a PML4. -/
abbrev tableFrom (mem : Mem) (root : U64) (p : List (Fin 512)) : Option U64 :=
  tableAt decode mem 0 root p

/-- The entries the paging unit reads for an address, up to a leaf; `none` is a page fault. -/
def hwWalk (mem : Mem) (root virt : U64) : Option (List U64) :=
  RadixTable.walk decode mem 0 root (path virt)

/-- The physical address the paging unit computes; a leaf above the last level maps a larger
page. -/
def translate (mem : Mem) (root virt : U64) : Option U64 :=
  (hwWalk mem root virt).bind fun es => es.getLast?.map fun e =>
    let k := 12 + 9 * (4 - es.length)
    ((e &&& frameMask) >>> k <<< k) ||| (virt &&& (BitVec.ofNat 64 (2 ^ k - 1)))

end DejOs
