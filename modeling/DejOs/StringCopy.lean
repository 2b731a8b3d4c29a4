import DejOs.CString
import DejOs.Lib.ByteMemory
import DejOs.Lib.Loop

/-!
# Copying functions of `string.c`

`memmove` copies upwards or downwards, whichever reads a byte before it is overwritten
(`memmove_moves`).

`stpcpy` and `strcpy` have the same loop, which leaves its pointer behind the NUL it wrote. `stpcpy`
returns that pointer, so a chain of calls writes the strings one behind the other with their NULs
and not one string (`stpcpyChain_wrong`); `strcat` looks for the NUL itself.

`strncpy` has a loop that does not count, and one that counts one character too many: it does not
come back, or it writes behind the array (`strncpy_wrong`).
-/

namespace DejOs.CString

open ByteMemory Loop

/-! ## `memmove` -/

/-- `memmove`, with the memory it leaves. -/
def memmove (m : Bytes) (dest src n : U64) : U64 × Bytes :=
  if dest < src then (dest, (List.range n.toNat).foldl (copyByte dest src) m)
  else if src < dest then (dest, (List.range n.toNat).reverse.foldl (copyByte dest src) m)
  else (dest, m)

section Memmove

variable {m : Bytes} {dest src n : U64}

theorem toNat_add_ofNat {a : U64} {i : ℕ} (h : a.toNat + i < 2 ^ 64) :
    (a + BitVec.ofNat 64 i).toNat = a.toNat + i := by
  rw [BitVec.toNat_add, toNat_ofNat_of_lt (by omega), Nat.mod_eq_of_lt h]

theorem add_ofNat_ne {a b : U64} {i j : ℕ} (hi : a.toNat + i < 2 ^ 64) (hj : b.toNat + j < 2 ^ 64)
    (h : a.toNat + i ≠ b.toNat + j) : a + BitVec.ofNat 64 i ≠ b + BitVec.ofNat 64 j := by
  intro heq
  have hnat := congrArg BitVec.toNat heq
  rw [toNat_add_ofNat hi, toNat_add_ofNat hj] at hnat
  exact h hnat

/-- Copies of all `n` bytes in a safe order. -/
theorem foldl_copyByte_range {l : List ℕ} (hl : ∀ i, i ∈ l ↔ i < n.toNat) (hnodup : l.Nodup)
    (hsafe : l.Pairwise fun i j => dest + BitVec.ofNat 64 i ≠ src + BitVec.ofNat 64 j) :
    (∀ i < n.toNat, l.foldl (copyByte dest src) m (dest + BitVec.ofNat 64 i) =
      m (src + BitVec.ofNat 64 i)) ∧
    ∀ x, ¬ Within dest n.toNat x → l.foldl (copyByte dest src) m x = m x := by
  have hlt := n.isLt
  constructor
  · intro i hi
    refine foldl_copyByte_inside (fun j hj => ?_) hnodup hsafe ((hl i).mpr hi)
    have := (hl j).mp hj
    omega
  · intro x hx
    refine foldl_copyByte_outside fun i hi heq => hx ?_
    rw [heq]
    exact within_add ((hl i).mp hi) hlt.le

/-- **`memmove`.** For every memory and all ranges that do not wrap, overlapping or not: the bytes
that were at `src` are at `dest` afterwards, the others are as before, and `dest` is returned. -/
theorem memmove_moves (m : Bytes) {dest src n : U64} (hdest : dest.toNat + n.toNat ≤ 2 ^ 64)
    (hsrc : src.toNat + n.toNat ≤ 2 ^ 64) :
    (∀ i < n.toNat, (memmove m dest src n).2 (dest + BitVec.ofNat 64 i) =
      m (src + BitVec.ofNat 64 i)) ∧
    (∀ x, ¬ Within dest n.toNat x → (memmove m dest src n).2 x = m x) ∧
    (memmove m dest src n).1 = dest := by
  unfold memmove
  split_ifs with hup hdown
  · -- upwards: the writes stay below the reads to come
    have hsafe : (List.range n.toNat).Pairwise fun i j =>
        dest + BitVec.ofNat 64 i ≠ src + BitVec.ofNat 64 j := by
      refine List.pairwise_lt_range.imp_of_mem fun hi hj hij => ?_
      rw [List.mem_range] at hi hj
      rw [BitVec.lt_def] at hup
      exact add_ofNat_ne (by omega) (by omega) (by omega)
    obtain ⟨hin, hout⟩ := foldl_copyByte_range (fun i => List.mem_range) List.nodup_range hsafe
    exact ⟨hin, hout, rfl⟩
  · -- downwards: the writes stay above them
    have hsafe : (List.range n.toNat).reverse.Pairwise fun i j =>
        dest + BitVec.ofNat 64 i ≠ src + BitVec.ofNat 64 j := by
      rw [List.pairwise_reverse]
      refine List.pairwise_lt_range.imp_of_mem fun hi hj hij => ?_
      rw [List.mem_range] at hi hj
      rw [BitVec.lt_def] at hdown
      exact add_ofNat_ne (by omega) (by omega) (by omega)
    obtain ⟨hin, hout⟩ := foldl_copyByte_range
      (fun i => by rw [List.mem_reverse, List.mem_range])
      (List.nodup_reverse.mpr List.nodup_range) hsafe
    exact ⟨hin, hout, rfl⟩
  · obtain rfl : dest = src := by
      rw [BitVec.lt_def] at hup hdown
      exact BitVec.eq_of_toNat_eq (by omega)
    exact ⟨fun _ _ => rfl, fun _ _ => rfl, rfl⟩

theorem memmove_moves_overlap :
    (memmove (fun a => a.setWidth 8) 0x1001 0x1000 3).2 0x1003 = 0x02 ∧
      (memmove (fun a => a.setWidth 8) 0x1001 0x1000 3).2 0x1004 = 0x04 := by
  have hdest : (0x1001 : U64).toNat + (3 : U64).toNat ≤ 2 ^ 64 := by decide
  have hsrc : (0x1000 : U64).toNat + (3 : U64).toNat ≤ 2 ^ 64 := by decide
  obtain ⟨hin, hout, -⟩ := memmove_moves (fun a => a.setWidth 8) hdest hsrc
  exact ⟨hin 2 (by decide), hout 0x1004 (by decide)⟩

end Memmove

/-! ## The loop of `stpcpy` and `strcpy` -/

/-- The memory and the two pointers. -/
structure Copy where
  mem : Bytes
  dst : U64
  src : U64

/-- `*dst++ = *src++` -/
def Copy.step (c : Copy) : Copy :=
  ⟨Function.update c.mem c.dst (c.mem c.src), c.dst + 1, c.src + 1⟩

/-- `while ((*dst++ = *src++))` -/
def copyRound (c : Copy) : Copy ⊕ Copy := if c.mem c.src ≠ 0 then .inl c.step else .inr c.step

/-- `stpcpy` returns `p` and leaves the memory `m'`. -/
def Stpcpy (m : Bytes) (dst src p : U64) (m' : Bytes) : Prop :=
  ∃ c, Returns copyRound ⟨m, dst, src⟩ c ∧ p = c.dst ∧ m' = c.mem

/-- `strcpy` returns `p` and leaves the memory `m'`. -/
def Strcpy (m : Bytes) (dst src p : U64) (m' : Bytes) : Prop :=
  ∃ c, Returns copyRound ⟨m, dst, src⟩ c ∧ p = dst ∧ m' = c.mem

section CopyLoop

variable {m m' : Bytes} {dst src p : U64} {s t : List Byte}

/-- The copy after `k` rounds. -/
def copied (m : Bytes) (dst src : U64) (k : ℕ) : Copy :=
  ⟨(List.range k).foldl (copyByte dst src) m, dst + BitVec.ofNat 64 k, src + BitVec.ofNat 64 k⟩

theorem copied_step (m : Bytes) (dst src : U64) (k : ℕ) :
    (copied m dst src k).step = copied m dst src (k + 1) := by
  unfold copied Copy.step
  rw [add_ofNat_add_one, add_ofNat_add_one, List.range_succ, List.foldl_append]
  rfl

/-- The characters of a string apart from the copy are read as they were. -/
theorem copied_src (hsep : Apart dst (s.length + 1) src (s.length + 1)) (hs : s.length < 2 ^ 64)
    {k : ℕ} (hk : k ≤ s.length) : (copied m dst src k).mem (copied m dst src k).src =
      m (src + BitVec.ofNat 64 k) :=
  foldl_copyByte_source hsep (by omega) (by omega) (by omega) (by omega)

theorem copyRound_returns (hs : IsString m src s)
    (hsep : Apart dst (s.length + 1) src (s.length + 1)) :
    Returns copyRound ⟨m, dst, src⟩ (copied m dst src (s.length + 1)) := by
  have hlen := hs.length_lt
  have horbit : ∀ k ≤ s.length, orbit (again copyRound) k ⟨m, dst, src⟩ =
      some (copied m dst src k) := by
    intro k hk
    induction k with
    | zero =>
      unfold copied
      rw [add_ofNat_zero, add_ofNat_zero]
      rfl
    | succ k ih =>
      have hne : (copied m dst src k).mem (copied m dst src k).src ≠ 0 := by
        rw [copied_src hsep hlen (by omega), hs.getElem (show k < s.length by omega)]
        exact hs.ne_zero _ (List.getElem_mem _)
      rw [orbit_succ', ih (by omega), ← copied_step]
      exact again_eq_some.mpr (if_pos hne)
  refine Returns.of_orbit (horbit s.length le_rfl) (Returns.here ?_)
  rw [← copied_step]
  refine if_neg (not_not.mpr ?_)
  rw [copied_src hsep hlen le_rfl]
  exact hs.terminator

theorem copied_spec (hs : IsString m src s) (hsep : Apart dst (s.length + 1) src (s.length + 1)) :
    IsString (copied m dst src (s.length + 1)).mem dst s ∧
      ∀ x, ¬ Within dst (s.length + 1) x → (copied m dst src (s.length + 1)).mem x = m x := by
  have hlen := hs.length_lt
  have hsafe : (List.range (s.length + 1)).Pairwise fun i j =>
      dst + BitVec.ofNat 64 i ≠ src + BitVec.ofNat 64 j := by
    refine List.pairwise_lt_range.imp_of_mem fun {i j} hi hj _ heq => ?_
    rw [List.mem_range] at hi hj
    refine hsep (dst + BitVec.ofNat 64 i) (within_add hi (by omega)) ?_
    rw [heq]
    exact within_add hj (by omega)
  have hin : ∀ i < s.length + 1, (copied m dst src (s.length + 1)).mem (dst + BitVec.ofNat 64 i) =
      m (src + BitVec.ofNat 64 i) := fun i hi =>
    foldl_copyByte_inside (fun j hj => by rw [List.mem_range] at hj; omega) List.nodup_range hsafe
      (List.mem_range.mpr hi)
  constructor
  · refine IsString.of_getElem hs.ne_zero (fun i hi => ?_) ?_
    · rw [hin i (by omega), hs.getElem hi]
    · rw [hin _ (Nat.lt_succ_self _), hs.terminator]
  · intro x hx
    refine foldl_copyByte_outside fun i hi heq => hx ?_
    rw [heq]
    exact within_add (List.mem_range.mp hi) (by omega)

theorem IsString.congr (hs : IsString m p s)
    (h : ∀ x, Within p (s.length + 1) x → m' x = m x) : IsString m' p s := by
  have hlen := hs.length_lt
  refine IsString.of_getElem hs.ne_zero (fun i hi => ?_) ?_
  · rw [h _ (within_add (by omega) (by omega)), hs.getElem hi]
  · rw [h _ (within_add (by omega) (by omega)), hs.terminator]

/-- `stpcpy` copies the string and returns the address behind the NUL. -/
theorem stpcpy_returns (hs : IsString m src s)
    (hsep : Apart dst (s.length + 1) src (s.length + 1)) :
    ∃ m', Stpcpy m dst src (dst + BitVec.ofNat 64 (s.length + 1)) m' ∧ IsString m' dst s ∧
      ∀ x, ¬ Within dst (s.length + 1) x → m' x = m x :=
  ⟨_, ⟨_, copyRound_returns hs hsep, rfl, rfl⟩, copied_spec hs hsep⟩

theorem Stpcpy.unique {p' : U64} {m'' : Bytes} (h : Stpcpy m dst src p m')
    (h' : Stpcpy m dst src p' m'') : p = p' ∧ m' = m'' := by
  obtain ⟨c, hc, rfl, rfl⟩ := h
  obtain ⟨c', hc', rfl, rfl⟩ := h'
  rw [hc.unique hc']
  exact ⟨rfl, rfl⟩

theorem strcpy_returns (hs : IsString m src s)
    (hsep : Apart dst (s.length + 1) src (s.length + 1)) :
    ∃ m', Strcpy m dst src dst m' ∧ IsString m' dst s ∧
      ∀ x, ¬ Within dst (s.length + 1) x → m' x = m x :=
  ⟨_, ⟨_, copyRound_returns hs hsep, rfl, rfl⟩, copied_spec hs hsep⟩

end CopyLoop

/-! ## `strlen` and `strcat` -/

/-- `while (*src++ != '\0') ret++;` with `src` and `ret`. -/
def strlenRound (m : Bytes) (v : U64 × U64) : (U64 × U64) ⊕ U64 :=
  if m v.1 ≠ 0 then .inl (v.1 + 1, v.2 + 1) else .inr v.2

/-- `strlen` returns `n`. -/
def Strlen (m : Bytes) (src n : U64) : Prop := Returns (strlenRound m) (src, 0) n

/-- `while (*dst != '\0') dst++;` -/
def endRound (m : Bytes) (dst : U64) : U64 ⊕ U64 := if m dst ≠ 0 then .inl (dst + 1) else .inr dst

/-- `strcat` returns `p` and leaves the memory `m'`. -/
def Strcat (m : Bytes) (dst src p : U64) (m' : Bytes) : Prop :=
  ∃ e c, Returns (endRound m) dst e ∧ Returns copyRound ⟨m, e, src⟩ c ∧ p = dst ∧ m' = c.mem

section Strcat

variable {m : Bytes} {dst src : U64} {s t : List Byte}

theorem strlen_returns (hs : IsString m src s) : Strlen m src (BitVec.ofNat 64 s.length) := by
  have hcount : ∀ ret : U64, Returns (strlenRound m) (src, ret)
      (ret + BitVec.ofNat 64 s.length) := by
    induction s generalizing src with
    | nil =>
      intro ret
      rw [List.length_nil, add_ofNat_zero]
      exact Returns.here (if_neg (not_not.mpr hs))
    | cons b s ih =>
      intro ret
      obtain ⟨rfl, hb, hs⟩ := hs
      rw [List.length_cons, ← add_one_add]
      exact Returns.next (if_pos hb) (ih hs (ret + 1))
  have h := hcount 0#64
  rw [BitVec.zero_add] at h
  exact h

theorem endRound_returns (ht : IsString m dst t) :
    Returns (endRound m) dst (dst + BitVec.ofNat 64 t.length) := by
  induction t generalizing dst with
  | nil =>
    rw [List.length_nil, add_ofNat_zero]
    exact Returns.here (if_neg (not_not.mpr ht))
  | cons b t ih =>
    obtain ⟨rfl, hb, ht⟩ := ht
    rw [List.length_cons, ← add_one_add]
    exact Returns.next (if_pos hb) (ih ht)

/-- Two strings one behind the other are one, if the NUL of the first is gone. -/
theorem IsString.append (ht : ∀ b ∈ t, b ≠ 0)
    (h : ∀ (i : ℕ) (hi : i < t.length), m (dst + BitVec.ofNat 64 i) = t[i])
    (hs : IsString m (dst + BitVec.ofNat 64 t.length) s) : IsString m dst (t ++ s) := by
  induction t generalizing dst with
  | nil =>
    rw [List.length_nil, add_ofNat_zero] at hs
    exact hs
  | cons b t ih =>
    obtain ⟨hb, ht⟩ := List.forall_mem_cons.mp ht
    have hfirst := h 0 (Nat.succ_pos _)
    rw [add_ofNat_zero] at hfirst
    refine ⟨hfirst, hb, ih ht (fun i hi => ?_) ?_⟩
    · rw [add_one_add]
      exact h (i + 1) (Nat.succ_lt_succ hi)
    · rw [add_one_add]
      exact hs

theorem strcat_returns (ht : IsString m dst t) (hs : IsString m src s)
    (hroom : t.length + (s.length + 1) ≤ 2 ^ 64)
    (hsep : Apart dst (t.length + (s.length + 1)) src (s.length + 1)) :
    ∃ m', Strcat m dst src dst m' ∧ IsString m' dst (t ++ s) ∧
      ∀ x, ¬ Within dst (t.length + (s.length + 1)) x → m' x = m x := by
  have hsep' := hsep.offset hroom le_rfl
  obtain ⟨hcopy, hrest⟩ := copied_spec hs hsep'
  refine ⟨_, ⟨_, _, endRound_returns ht, copyRound_returns hs hsep', rfl, rfl⟩, ?_, ?_⟩
  · refine IsString.append ht.ne_zero (fun i hi => ?_) hcopy
    rw [hrest, ht.getElem hi]
    rw [within_offset (by omega), add_sub_cancel_toNat dst (by omega)]
    omega
  · exact fun x hx => hrest x fun hin => hx (hin.of_offset hroom le_rfl)

end Strcat

/-! ## Chains -/

/-- `p = stpcpy(p, src)` for one source after the other, with the pointers that are returned. -/
def StpcpyChain (m : Bytes) (p : U64) : List U64 → List U64 → Bytes → Prop
  | [], ps, m' => ps = [] ∧ m' = m
  | src :: srcs, ps, m' => ∃ p₁ m₁ ps₁, Stpcpy m p src p₁ m₁ ∧ StpcpyChain m₁ p₁ srcs ps₁ m' ∧
      ps = p₁ :: ps₁

/-- `strcat(dst, src)` for one source after the other. -/
def StrcatChain (m : Bytes) (dst : U64) : List U64 → Bytes → Prop
  | [], m' => m' = m
  | src :: srcs, m' => ∃ m₁, Strcat m dst src dst m₁ ∧ StrcatChain m₁ dst srcs m'

/-- `strcpy(dst, src)`, then `strcat` for the other sources. -/
def StrcpyStrcat (m : Bytes) (dst : U64) : List U64 → Bytes → Prop
  | [], m' => m' = m
  | src :: srcs, m' => ∃ m₁, Strcpy m dst src dst m₁ ∧ StrcatChain m₁ dst srcs m'

/-- Addresses of strings, with the strings. -/
abbrev Sources := List (U64 × List Byte)

/-- The sources are there, and apart from the `n` bytes from `p` on. -/
def Sources.Ready (l : Sources) (m : Bytes) (p : U64) (n : ℕ) : Prop :=
  ∀ q ∈ l, IsString m q.1 q.2 ∧ Apart p n q.1 (q.2.length + 1)

/-- The strings one behind the other. -/
def Sources.joined (l : Sources) : List Byte := l.flatMap Prod.snd

/-- The bytes of the strings with their NULs. -/
def Sources.total (l : Sources) : ℕ := (l.map fun q => q.2.length + 1).sum

/-- The addresses of the NULs, when each string begins at the NUL of the one before. -/
def Sources.nuls : U64 → Sources → List U64
  | _, [] => []
  | p, q :: l => (p + BitVec.ofNat 64 q.2.length) :: nuls (p + BitVec.ofNat 64 q.2.length) l

/-- The chain leaves the single string, as `strcpy` and `strcat` do, and each call returns the
address of the NUL it wrote. -/
def ChainRight (m : Bytes) (dst : U64) (l : Sources) : Prop :=
  ∃ m' m'', StpcpyChain m dst (l.map Prod.fst) (l.nuls dst) m' ∧ IsString m' dst l.joined ∧
    StrcpyStrcat m dst (l.map Prod.fst) m'' ∧ IsString m'' dst l.joined ∧
    Strlen m' dst (BitVec.ofNat 64 (l.map fun q => q.2.length).sum)

section Chains

variable {m m' : Bytes} {dst p : U64} {q : U64 × List Byte} {l : Sources} {n : ℕ}

theorem Sources.Ready.congr (h : Sources.Ready l m p n) {p' : U64} {n' k : ℕ}
    (hin : ∀ x, Within p' n' x → Within p n x) (hm : ∀ x, ¬ Within p k x → m' x = m x)
    (hk : k ≤ n) : Sources.Ready l m' p' n' := by
  intro q hq
  obtain ⟨hs, hsep⟩ := h q hq
  refine ⟨hs.congr fun x hx => hm x fun hk' => ?_, fun x hx => hsep x (hin x hx)⟩
  exact hsep x (hk'.trans_le hk) hx

/-- The chain of `stpcpy` comes back, and writes nothing but the strings with their NULs. -/
theorem stpcpyChain_returns (hl : Sources.Ready l m p l.total) (hroom : l.total ≤ 2 ^ 64) :
    ∃ ps m', StpcpyChain m p (l.map Prod.fst) ps m' ∧ ∀ x, ¬ Within p l.total x → m' x = m x := by
  induction l generalizing m p with
  | nil => exact ⟨[], m, ⟨rfl, rfl⟩, fun _ _ => rfl⟩
  | cons q l ih =>
    have htotal : Sources.total (q :: l) = q.2.length + 1 + Sources.total l := List.sum_cons
    rw [htotal] at hl hroom ⊢
    obtain ⟨⟨hs, hsep⟩, hrest⟩ := List.forall_mem_cons.mp hl
    obtain ⟨m₁, hcopy, -, hm₁⟩ := stpcpy_returns hs (hsep.mono (Nat.le_add_right _ _))
    have hready : Sources.Ready l m₁ (p + BitVec.ofNat 64 (q.2.length + 1)) (Sources.total l) :=
      Sources.Ready.congr hrest (fun x hx => hx.of_offset hroom le_rfl) hm₁ (Nat.le_add_right _ _)
    obtain ⟨ps, m', hchain, hm'⟩ := ih hready (by omega)
    refine ⟨_ :: ps, m', ⟨_, m₁, ps, hcopy, hchain, rfl⟩, fun x hx => ?_⟩
    rw [hm' x fun hin => hx (hin.of_offset hroom le_rfl), hm₁ x fun hin => hx (hin.trans_le ?_)]
    exact Nat.le_add_right _ _

theorem strcatChain_returns {t : List Byte} (ht : IsString m dst t)
    (hl : Sources.Ready l m dst (t.length + l.joined.length + 1))
    (hroom : t.length + l.joined.length + 1 ≤ 2 ^ 64) :
    ∃ m', StrcatChain m dst (l.map Prod.fst) m' ∧ IsString m' dst (t ++ l.joined) := by
  induction l generalizing m t with
  | nil =>
    refine ⟨m, rfl, ?_⟩
    rwa [Sources.joined, List.flatMap_nil, List.append_nil]
  | cons q l ih =>
    have hjoined : Sources.joined (q :: l) = q.2 ++ Sources.joined l := List.flatMap_cons
    have hlen : t.length + (Sources.joined (q :: l)).length + 1 =
        (t ++ q.2).length + (Sources.joined l).length + 1 := by
      rw [hjoined, List.length_append, List.length_append]
      omega
    rw [hlen] at hl hroom
    have hle : t.length + (q.2.length + 1) ≤ (t ++ q.2).length + (Sources.joined l).length + 1 := by
      rw [List.length_append]
      omega
    obtain ⟨⟨hs, hsep⟩, hrest⟩ := List.forall_mem_cons.mp hl
    obtain ⟨m₁, hcat, hstring, hm₁⟩ := strcat_returns ht hs (hle.trans hroom) (hsep.mono hle)
    obtain ⟨m', hchain, hm'⟩ := ih hstring
      (Sources.Ready.congr hrest (fun x hx => hx) hm₁ hle) hroom
    rw [List.append_assoc, ← hjoined] at hm'
    exact ⟨m', ⟨m₁, hcat, hchain⟩, hm'⟩

/-- The first call does not return the address of its NUL. -/
theorem not_chainRight (hs : IsString m q.1 q.2)
    (hsep : Apart dst (q.2.length + 1) q.1 (q.2.length + 1)) : ¬ ChainRight m dst (q :: l) := by
  rintro ⟨m', m'', hchain, -⟩
  obtain ⟨p₁, m₁, ps₁, hcopy, -, hps⟩ := hchain
  obtain ⟨hp, -⟩ := List.cons.inj hps
  obtain ⟨m₂, hcopy', -⟩ := stpcpy_returns hs hsep
  have hnul := congrArg BitVec.toNat (hp.trans (hcopy.unique hcopy').1)
  simp only [BitVec.toNat_add, BitVec.toNat_ofNat] at hnul
  omega

theorem stpcpyChain_first (hl : Sources.Ready (q :: l) m dst (Sources.total (q :: l)))
    (hroom : Sources.total (q :: l) ≤ 2 ^ 64) :
    ∃ ps m', StpcpyChain m dst ((q :: l).map Prod.fst) ps m' ∧ IsString m' dst q.2 := by
  have htotal : Sources.total (q :: l) = q.2.length + 1 + Sources.total l := List.sum_cons
  rw [htotal] at hl hroom
  obtain ⟨⟨hs, hsep⟩, hrest⟩ := List.forall_mem_cons.mp hl
  obtain ⟨m₁, hcopy, hstring, hm₁⟩ := stpcpy_returns hs (hsep.mono (Nat.le_add_right _ _))
  have hready : Sources.Ready l m₁ (dst + BitVec.ofNat 64 (q.2.length + 1)) (Sources.total l) :=
    Sources.Ready.congr hrest (fun x hx => hx.of_offset hroom le_rfl) hm₁ (Nat.le_add_right _ _)
  obtain ⟨ps, m', hchain, hm'⟩ := stpcpyChain_returns hready (by omega)
  refine ⟨_ :: ps, m', ⟨_, m₁, ps, hcopy, hchain, rfl⟩, hstring.congr fun x hx => hm' x ?_⟩
  -- the other strings lie behind its NUL
  rw [within_offset (by omega)]
  unfold Within at hx
  omega

/-- **A chain of `stpcpy`.** For every list of strings and every destination large enough: the chain
is not right, for the first call returns the address behind its NUL; with room for all the NULs the
string in the destination is the first one. `strcpy` and `strcat` do leave the single string. -/
theorem stpcpyChain_wrong (hl : Sources.Ready (q :: l) m dst ((Sources.joined (q :: l)).length + 1))
    (hroom : (Sources.joined (q :: l)).length + 1 ≤ 2 ^ 64) :
    ¬ ChainRight m dst (q :: l) ∧
      (Sources.Ready (q :: l) m dst (Sources.total (q :: l)) → Sources.total (q :: l) ≤ 2 ^ 64 →
        ∃ ps m', StpcpyChain m dst ((q :: l).map Prod.fst) ps m' ∧ IsString m' dst q.2) ∧
      ∃ m'', StrcpyStrcat m dst ((q :: l).map Prod.fst) m'' ∧
        IsString m'' dst (Sources.joined (q :: l)) := by
  have hjoined : Sources.joined (q :: l) = q.2 ++ Sources.joined l := List.flatMap_cons
  rw [hjoined, List.length_append] at hl hroom
  obtain ⟨⟨hs, hsep⟩, hrest⟩ := List.forall_mem_cons.mp hl
  have hsep' : Apart dst (q.2.length + 1) q.1 (q.2.length + 1) := hsep.mono (by omega)
  refine ⟨not_chainRight hs hsep', stpcpyChain_first, ?_⟩
  obtain ⟨m₁, hcopy, hstring, hm₁⟩ := strcpy_returns hs hsep'
  obtain ⟨m'', hchain, hm''⟩ := strcatChain_returns hstring
    (Sources.Ready.congr hrest (fun x hx => hx) hm₁ (by omega)) hroom
  rw [hjoined]
  exact ⟨m'', ⟨m₁, hcopy, hchain⟩, hm''⟩

end Chains

/-- The strings `"a"` at `0x1000` and `"b"` at `0x1002`. -/
def twoStrings : Bytes := fun a => if a = 0x1000 then 0x61 else if a = 0x1002 then 0x62 else 0

theorem twoStrings_ready :
    Sources.Ready [(0x1000, [0x61]), (0x1002, [0x62])] twoStrings 0x2000 4 := by
  intro q hq
  rcases List.mem_cons.mp hq with rfl | hq
  · exact ⟨by decide, apart_of_le (by decide) (by decide) (by decide)⟩
  · obtain rfl := List.mem_singleton.mp hq
    exact ⟨by decide, apart_of_le (by decide) (by decide) (by decide)⟩

theorem stpcpyChain_wrong_two : ∃ ps m', StpcpyChain twoStrings 0x2000 [0x1000, 0x1002] ps m' ∧
    IsString m' 0x2000 [0x61] := by
  have hready : Sources.Ready [(0x1000, [0x61]), (0x1002, [0x62])] twoStrings 0x2000 3 :=
    fun q hq => ⟨(twoStrings_ready q hq).1, (twoStrings_ready q hq).2.mono (by decide)⟩
  exact (stpcpyChain_wrong hready (by decide)).2.1 twoStrings_ready (by decide)

/-- `stpcpy(stpcpy(dst, "a"), "b")` -/
theorem stpcpyChain_two_not_right :
    ¬ ChainRight twoStrings 0x2000 [(0x1000, [0x61]), (0x1002, [0x62])] := by
  obtain ⟨hs, hsep⟩ := twoStrings_ready _ List.mem_cons_self
  exact not_chainRight hs (hsep.mono (by decide))

/-! ## `strncpy` -/

/-- The variables of `strncpy`, and the addresses it has written to and read from. -/
structure Strncpy where
  mem : Bytes
  dst : U64
  src : U64
  i : U64
  size : U64
  writes : List U64
  reads : List U64

namespace Strncpy

/-- `*dst++ = *src++` -/
def copy (v : Strncpy) : Strncpy :=
  { v with
    mem := Function.update v.mem v.dst (v.mem v.src)
    dst := v.dst + 1
    src := v.src + 1
    writes := v.writes ++ [v.dst]
    reads := v.reads ++ [v.src] }

/-- `*dst++ = '\0'` -/
def clear (v : Strncpy) : Strncpy :=
  { v with
    mem := Function.update v.mem v.dst 0
    dst := v.dst + 1
    writes := v.writes ++ [v.dst] }

/-- `while ((*dst++ = *src++) && (i < size)) i++;` -/
def round1 (v : Strncpy) : Strncpy ⊕ Strncpy :=
  if v.mem v.src ≠ 0 ∧ v.i < v.size then .inl { v.copy with i := v.i + 1 } else .inr v.copy

/-- `while (i < size) *dst++ = '\0';` -/
def round2 (v : Strncpy) : Strncpy ⊕ Strncpy := if v.i < v.size then .inl v.clear else .inr v

/-- `while (size && (*dst++ = *src++)) size--;` -/
def round3 (v : Strncpy) : Strncpy ⊕ Strncpy :=
  if v.size = 0 then .inr v
  else if v.mem v.src ≠ 0 then .inl { v.copy with size := v.size - 1 }
  else .inr v.copy

/-- `while (size) { *dst++ = '\0'; size--; }` -/
def round4 (v : Strncpy) : Strncpy ⊕ Strncpy :=
  if v.size ≠ 0 then .inl { v.clear with size := v.size - 1 } else .inr v

/-- The variables at the beginning. -/
def start (m : Bytes) (dst src size : U64) : Strncpy := ⟨m, dst, src, 0, size, [], []⟩

end Strncpy

open Strncpy in
/-- `strncpy` returns `p`, with its variables `v` at the end. -/
def StrncpyReturns (m : Bytes) (dst src size p : U64) (v : Strncpy) : Prop :=
  ∃ v₁ v₂ v₃, Returns round1 (start m dst src size) v₁ ∧ Returns round2 v₁ v₂ ∧
    Returns round3 v₂ v₃ ∧ Returns round4 v₃ v ∧ p = dst

/-- `strncpy` comes back with `dst`, has written the `size` bytes from `dst` on and no others, has
put there the characters of `s` that fit and then NULs, and has read nothing behind the end of
`s`. -/
def StrncpyRight (m : Bytes) (dst src size : U64) (s : List Byte) : Prop :=
  ∃ v, StrncpyReturns m dst src size dst v ∧ (∀ x, x ∈ v.writes ↔ Within dst size.toNat x) ∧
    (∀ i < size.toNat, v.mem (dst + BitVec.ofNat 64 i) = s.getD i 0) ∧
    (∀ x ∈ v.reads, Within src (s.length + 1) x) ∧
    ∀ x, ¬ Within dst size.toNat x → v.mem x = m x

namespace Strncpy

variable {m : Bytes} {dst src size : U64} {s : List Byte} {v v' : Strncpy}

theorem writes_subset {round : Strncpy → Strncpy ⊕ Strncpy}
    (hround : ∀ v v', round v = .inl v' ∨ round v = .inr v' → v.writes ⊆ v'.writes)
    (h : Returns round v v') : v.writes ⊆ v'.writes := by
  refine h.rel (P := fun v v' => v.writes ⊆ v'.writes) (fun v u hu => hround v u (Or.inr hu)) ?_
  intro v u v' hu ih
  exact List.Subset.trans (hround v u (Or.inl hu)) ih

theorem copy_writes (v : Strncpy) : v.writes ⊆ v.copy.writes := List.subset_append_left _ _

theorem clear_writes (v : Strncpy) : v.writes ⊆ v.clear.writes := List.subset_append_left _ _

theorem round2_writes (v v' : Strncpy) (h : round2 v = .inl v' ∨ round2 v = .inr v') :
    v.writes ⊆ v'.writes := by
  unfold round2 at h
  split_ifs at h <;> rcases h with h | h <;> cases h
  · exact clear_writes v
  · exact List.Subset.refl _

theorem round3_writes (v v' : Strncpy) (h : round3 v = .inl v' ∨ round3 v = .inr v') :
    v.writes ⊆ v'.writes := by
  unfold round3 at h
  split_ifs at h <;> rcases h with h | h <;> cases h
  · exact List.Subset.refl _
  · exact copy_writes v
  · exact copy_writes v

theorem round4_writes (v v' : Strncpy) (h : round4 v = .inl v' ∨ round4 v = .inr v') :
    v.writes ⊆ v'.writes := by
  unfold round4 at h
  split_ifs at h <;> rcases h with h | h <;> cases h
  · exact clear_writes v
  · exact List.Subset.refl _

/-- The second loop does not count, so it does not end. -/
theorem round2_not_returns (h : v.i < v.size) : ¬ Returns round2 v v' := by
  intro hret
  refine hret.rel (P := fun v _ => ¬ v.i < v.size) ?_ ?_ h
  · intro v u hu hlt
    unfold round2 at hu
    rw [if_pos hlt] at hu
    cases hu
  · intro v u v' hu ih hlt
    unfold round2 at hu
    rw [if_pos hlt] at hu
    cases hu
    exact ih hlt

/-- The variables after `k` rounds of the first loop. -/
def after (m : Bytes) (dst src size : U64) (k : ℕ) : Strncpy where
  mem := (List.range k).foldl (copyByte dst src) m
  dst := dst + BitVec.ofNat 64 k
  src := src + BitVec.ofNat 64 k
  i := BitVec.ofNat 64 k
  size := size
  writes := (List.range k).map fun i => dst + BitVec.ofNat 64 i
  reads := (List.range k).map fun i => src + BitVec.ofNat 64 i

theorem after_copy (m : Bytes) (dst src size : U64) (k : ℕ) :
    { (after m dst src size k).copy with i := (after m dst src size k).i + 1 } =
      after m dst src size (k + 1) := by
  unfold after copy
  simp only [add_ofNat_add_one, List.range_succ, List.foldl_append, List.map_append,
    BitVec.ofNat_add]
  rfl

/-- The characters are read as they were, up to the first one that does not fit. -/
theorem after_src (hsep : Apart dst size.toNat src (s.length + 1)) (hlen : s.length < 2 ^ 64)
    {k : ℕ} (hk : k ≤ s.length) (hsize : k ≤ size.toNat) :
    (after m dst src size k).mem (after m dst src size k).src = m (src + BitVec.ofNat 64 k) :=
  foldl_copyByte_source hsep size.isLt.le (by omega) hsize (by omega)

/-- The first loop copies until the string ends or the characters do not fit. -/
theorem round1_orbit (hs : IsString m src s) (hsep : Apart dst size.toNat src (s.length + 1))
    {k : ℕ} (hk : k ≤ s.length) (hsize : k ≤ size.toNat) :
    orbit (again round1) k (start m dst src size) = some (after m dst src size k) := by
  have hlt := size.isLt
  induction k with
  | zero =>
    unfold after start
    rw [add_ofNat_zero, add_ofNat_zero]
    rfl
  | succ k ih =>
    have hne : (after m dst src size k).mem (after m dst src size k).src ≠ 0 := by
      rw [after_src hsep hs.length_lt (by omega) (by omega),
        hs.getElem (show k < s.length by omega)]
      exact hs.ne_zero _ (List.getElem_mem _)
    have hi : (after m dst src size k).i < (after m dst src size k).size := by
      rw [BitVec.lt_def]
      show (BitVec.ofNat 64 k).toNat < size.toNat
      rw [toNat_ofNat_of_lt (by omega)]
      omega
    rw [orbit_succ', ih (by omega) (by omega), ← after_copy]
    exact again_eq_some.mpr (if_pos ⟨hne, hi⟩)

/-- A string that is too short: the second loop begins with something to clear. -/
theorem round1_short (hs : IsString m src s) (hsep : Apart dst size.toNat src (s.length + 1))
    (hshort : s.length < size.toNat) :
    ∃ v, Returns round1 (start m dst src size) v ∧ v.i < v.size := by
  have hlt := size.isLt
  refine ⟨(after m dst src size s.length).copy,
    Returns.of_orbit (round1_orbit hs hsep le_rfl hshort.le) (Returns.here (if_neg ?_)), ?_⟩
  · rintro ⟨hne, -⟩
    rw [after_src hsep hs.length_lt le_rfl hshort.le, hs.terminator] at hne
    exact hne rfl
  · rw [BitVec.lt_def]
    show (BitVec.ofNat 64 s.length).toNat < size.toNat
    rwa [toNat_ofNat_of_lt (by omega)]

/-- A string that is long enough: the first loop has written one character too many. -/
theorem round1_long (hs : IsString m src s) (hsep : Apart dst size.toNat src (s.length + 1))
    (hlong : size.toNat ≤ s.length) :
    ∃ v, Returns round1 (start m dst src size) v ∧
      dst + BitVec.ofNat 64 size.toNat ∈ v.writes := by
  refine ⟨(after m dst src size size.toNat).copy,
    Returns.of_orbit (round1_orbit hs hsep hlong le_rfl) (Returns.here (if_neg ?_)), ?_⟩
  · rintro ⟨-, hi⟩
    rw [BitVec.lt_def] at hi
    change (BitVec.ofNat 64 size.toNat).toNat < size.toNat at hi
    rw [toNat_ofNat_of_lt size.isLt] at hi
    exact absurd hi (lt_irrefl _)
  · exact List.mem_append_right _ (List.mem_singleton_self _)

end Strncpy

open Strncpy in
/-- **`strncpy`.** For every string, every size and every array of that size apart from the string:
`strncpy` does not do what it should. If the string is shorter than the array it does not come
back, and otherwise it writes behind the array. -/
theorem strncpy_wrong {m : Bytes} {dst src size : U64} {s : List Byte} (hs : IsString m src s)
    (hsep : Apart dst size.toNat src (s.length + 1)) :
    ¬ StrncpyRight m dst src size s ∧
      (s.length < size.toNat → ∀ p v, ¬ StrncpyReturns m dst src size p v) := by
  have hnever : s.length < size.toNat → ∀ p v, ¬ StrncpyReturns m dst src size p v := by
    rintro hshort p v ⟨v₁, v₂, v₃, h₁, h₂, -⟩
    obtain ⟨u, hu, hi⟩ := round1_short hs hsep hshort
    rw [h₁.unique hu] at h₂
    exact round2_not_returns hi h₂
  refine ⟨?_, hnever⟩
  rintro ⟨v, hret, hwrites, -⟩
  rcases Nat.lt_or_ge s.length size.toNat with hshort | hlong
  · exact hnever hshort dst v hret
  · obtain ⟨v₁, v₂, v₃, h₁, h₂, h₃, h₄, -⟩ := hret
    obtain ⟨u, hu, hmem⟩ := round1_long hs hsep hlong
    rw [← h₁.unique hu] at hmem
    have hmem := writes_subset round4_writes h₄
      (writes_subset round3_writes h₃ (writes_subset round2_writes h₂ hmem))
    have hin := (hwrites _).mp hmem
    unfold Within at hin
    rw [add_sub_cancel_toNat dst size.isLt] at hin
    exact absurd hin (lt_irrefl _)

/-- `strncpy(dst, "a", 4)` does not come back. -/
theorem strncpy_wrong_short : ¬ ∃ p v, StrncpyReturns twoStrings 0x2000 0x1000 4 p v := by
  have hs : IsString twoStrings 0x1000 [0x61] := by decide
  have hsep : Apart (0x2000 : U64) (4 : U64).toNat 0x1000 ([0x61] : List Byte).length.succ :=
    apart_of_le (by decide) (by decide) (by decide)
  rintro ⟨p, v, h⟩
  exact (strncpy_wrong hs hsep).2 (by decide) p v h

open Strncpy in
/-- `strncpy(dst, "a", 0)` writes a byte. -/
theorem strncpy_zero_writes : ¬ StrncpyRight twoStrings 0x2000 0x1000 0 [0x61] := by
  rintro ⟨v, ⟨v₁, v₂, v₃, h₁, h₂, h₃, h₄, -⟩, hwrites, -⟩
  have hfirst : Returns round1 (start twoStrings 0x2000 0x1000 0)
      (start twoStrings 0x2000 0x1000 0).copy := Returns.here rfl
  have hmem : 0x2000 ∈ v₁.writes := by
    rw [h₁.unique hfirst]
    exact List.mem_singleton_self _
  have hmem := writes_subset round4_writes h₄
    (writes_subset round3_writes h₃ (writes_subset round2_writes h₂ hmem))
  exact absurd ((hwrites _).mp hmem) (by decide)

end DejOs.CString
