import DejOs.Allocator

/-!
# Filling the page list from the memory map

`memory_init` of `memory.c` walks the boot loader's memory map and appends to `page_list` the frames
it takes from the usable entries: the base is aligned up to 4 KiB, the length is cut by the same
amount, and frames below 1 MiB are skipped, until 10000 pages are listed.

The number of frames of an entry is written `length / KiB(4)`. `KiB(x)` expands to `(x) * 1024`
without parentheses around the product, so this is `length / 4 * 1024`, about a million times too
much: the first entry with four bytes or more normally fills the whole list with consecutive frames,
inside the entry or not. `memoryInit_pages_iff` says for which maps the list is right all the same.
-/

namespace DejOs

/-- The `type` of a memory map entry. -/
inductive MemmapType
  | usable
  | reserved
  | acpiReclaimable
  | acpiNvs
  | badMemory
  | bootloaderReclaimable
  | executableAndModules
  | framebuffer
  | reservedMapped
  /-- A value the protocol does not define; the `switch` has no case for it. -/
  | other (type : U64)
  deriving DecidableEq, Repr

/-- `struct limine_memmap_entry`. -/
structure MemmapEntry where
  base : U64
  length : U64
  type : MemmapType
  deriving DecidableEq, Repr

/-- The globals `memory_init` writes, and the lines it logs. -/
structure MemoryGlobals where
  pages : List Page
  hhdm : U64
  inited : Bool
  log : List Logf
  deriving DecidableEq, Repr

/-- The capacity of `page_list`. -/
def maxPages : ℕ := 10000

/-- The frame loop of one entry with `n` iterations left, from `p`; `true` is `goto end`.
`p * KiB(4)` expands to `p * 4 * 1024`. -/
def addFrames (base : U64) : ℕ → U64 → List Page → List Page × Bool
  | 0, _, pages => (pages, false)
  | n + 1, p, pages =>
    if maxPages ≤ pages.length then (pages, true)
    else
      let phys := base + p * 4 * 1024
      if phys < 0x100000 then addFrames base n (p + 1) pages
      else addFrames base n (p + 1) (pages ++ [⟨phys, false⟩])

/-- Aligns the base of an entry up; `none` is the `break` for an entry that ends before. -/
def alignEntry (base length : U64) : Option (U64 × U64) :=
  if base &&& 0xFFF ≠ 0 then
    let alignOffset := 0x1000 - (base &&& 0xFFF)
    if length < alignOffset then none else some (base + alignOffset, length - alignOffset)
  else some (base, length)

/-- The case `LIMINE_MEMMAP_USABLE`; `true` is `goto end`. -/
def addEntry (e : MemmapEntry) (pages : List Page) : List Page × Bool :=
  if maxPages < pages.length then (pages, false)
  else match alignEntry e.base e.length with
    | none => (pages, false)
    -- `length / KiB(4)`
    | some (base, length) => addFrames base (length / 4 * 1024).toNat 0 pages

/-- The loop over the entries. -/
def initEntries : List MemmapEntry → MemoryGlobals → MemoryGlobals
  | [], m => m
  | e :: es, m =>
    match e.type with
    | .usable =>
      match addEntry e m.pages with
      | (pages, true) => { m with pages := pages }
      | (pages, false) => initEntries es { m with pages := pages }
    | .badMemory =>
      initEntries es { m with log := m.log ++
        [⟨"memory", "Bad memory at %llu \n", [e.base]⟩,
          ⟨"memory", "Length %llu \r\n", [e.length]⟩] }
    | _ => initEntries es m

/-- `memory_init`, run from `pages = 0`; it always returns `0`. -/
def memoryInit (memmap : List MemmapEntry) (hhdm : U64) : CInt × MemoryGlobals :=
  (0, { initEntries memmap ⟨[], hhdm, false, []⟩ with inited := true })

/-! ## What the list should be -/

namespace MemmapEntry

/-- `a` is the start of a 4 KiB frame at or above 1 MiB that lies inside the entry. -/
def IsWholeFrame (e : MemmapEntry) (a : ℕ) : Prop :=
  4096 ∣ a ∧ 0x100000 ≤ a ∧ e.base.toNat ≤ a ∧ a + 4096 ≤ e.base.toNat + e.length.toNat

instance (e : MemmapEntry) (a : ℕ) : Decidable (e.IsWholeFrame a) :=
  inferInstanceAs (Decidable (_ ∧ _ ∧ _ ∧ _))

/-- The whole frames of an entry, in ascending order. -/
def wholeFrames (e : MemmapEntry) : List ℕ :=
  ((List.range (2 ^ 52)).map (4096 * ·)).filter e.IsWholeFrame

/-- Two entries have no byte in common. -/
def Disjoint (e f : MemmapEntry) : Prop :=
  ∀ x, ¬ ((e.base.toNat ≤ x ∧ x < e.base.toNat + e.length.toNat) ∧
    f.base.toNat ≤ x ∧ x < f.base.toNat + f.length.toNat)

end MemmapEntry

/-- The usable entries of a map. -/
def usable (memmap : List MemmapEntry) : List MemmapEntry :=
  memmap.filter fun e => e.type = .usable

/-- The whole usable frames of a map, in map order. -/
def usableFrames (memmap : List MemmapEntry) : List ℕ :=
  (usable memmap).flatMap MemmapEntry.wholeFrames

/-- The unused page at a physical address. -/
def unusedPage (a : ℕ) : Page := ⟨BitVec.ofNat 64 a, false⟩

/-! ## What the list is -/

namespace MemmapEntry

/-- The base aligned up. -/
def lo (e : MemmapEntry) : ℕ := (e.base.toNat + 4095) / 4096 * 4096

/-- The bytes left from there on. -/
def rest (e : MemmapEntry) : ℕ := e.base.toNat + e.length.toNat - e.lo

/-- What `length / KiB(4)` comes to. -/
def pageCount (e : MemmapEntry) : ℕ := e.rest / 4 * 1024 % 2 ^ 64

end MemmapEntry

/-- The frames at or above 1 MiB met in `n` steps of 4 KiB from `a`, in 64 bits. -/
def upFrom (a n : ℕ) : List ℕ :=
  ((List.range n).map fun p => (a + 4096 * p) % 2 ^ 64).filter (0x100000 ≤ ·)

/-- How many of them there are. -/
def countFrom (a n : ℕ) : ℕ := (List.range n).countP fun p => 0x100000 ≤ (a + 4096 * p) % 2 ^ 64

/-- `n` consecutive frames from `a`; the frame after the last one of the address space is the one
at 1 MiB. -/
def consecutive : ℕ → ℕ → List ℕ
  | _, 0 => []
  | a, n + 1 => a :: consecutive (if a + 4096 < 2 ^ 64 then a + 4096 else 0x100000) n

theorem upFrom_zero (a : ℕ) : upFrom a 0 = [] := rfl

theorem upFrom_succ (a n : ℕ) :
    upFrom a (n + 1) =
      (if 0x100000 ≤ a % 2 ^ 64 then [a % 2 ^ 64] else []) ++ upFrom (a + 4096) n := by
  have hshift : ((List.range n).map Nat.succ).map (fun p => (a + 4096 * p) % 2 ^ 64) =
      (List.range n).map fun p => (a + 4096 + 4096 * p) % 2 ^ 64 := by
    rw [List.map_map]
    refine List.map_congr_left fun p _ => ?_
    rw [Function.comp_apply, Nat.mul_succ, Nat.add_comm (4096 * p), Nat.add_assoc]
  unfold upFrom
  rw [List.range_succ_eq_map, List.map_cons, hshift, List.filter_cons, Nat.mul_zero, Nat.add_zero]
  by_cases h : 0x100000 ≤ a % 2 ^ 64
  · simp only [decide_eq_true_eq, if_pos h, List.singleton_append]
  · simp only [decide_eq_true_eq, if_neg h, List.nil_append]

theorem upFrom_mod {a b : ℕ} (h : a % 2 ^ 64 = b % 2 ^ 64) (n : ℕ) : upFrom a n = upFrom b n := by
  unfold upFrom
  congr 1
  refine List.map_congr_left fun p _ => ?_
  rw [Nat.add_mod, h, ← Nat.add_mod]

theorem length_upFrom (a n : ℕ) : (upFrom a n).length = countFrom a n := by
  unfold upFrom countFrom
  rw [← List.countP_eq_length_filter, List.countP_map]
  rfl

theorem upFrom_eq_consecutive {a : ℕ} (ha : 4096 ∣ a) (n : ℕ) :
    upFrom a n = consecutive (max (a % 2 ^ 64) 0x100000) (upFrom a n).length := by
  induction n generalizing a with
  | zero => rfl
  | succ n ih =>
    have ih := ih (a := a + 4096) (by omega)
    rw [upFrom_succ]
    by_cases h : 0x100000 ≤ a % 2 ^ 64
    · have hnext : max ((a + 4096) % 2 ^ 64) 0x100000 =
          if a % 2 ^ 64 + 4096 < 2 ^ 64 then a % 2 ^ 64 + 4096 else 0x100000 := by
        split_ifs <;> omega
      rw [if_pos h, List.singleton_append, List.length_cons, max_eq_left h, consecutive, ← hnext,
        ← ih]
    · have hnext : max ((a + 4096) % 2 ^ 64) 0x100000 = max (a % 2 ^ 64) 0x100000 := by omega
      rw [if_neg h, List.nil_append, ← hnext]
      exact ih

theorem take_consecutive (a : ℕ) {n m : ℕ} (h : n ≤ m) :
    (consecutive a m).take n = consecutive a n := by
  induction n generalizing a m with
  | zero => rfl
  | succ n ih =>
    obtain ⟨m, rfl⟩ : ∃ k, m = k + 1 := ⟨m - 1, by omega⟩
    rw [consecutive, List.take_succ_cons, ih _ (by omega), consecutive]

/-! ## The loops -/

theorem phys_toNat (base p : U64) :
    (base + p * 4 * 1024).toNat = (base.toNat + 4096 * p.toNat) % 2 ^ 64 := by
  simp only [BitVec.toNat_add, BitVec.toNat_mul, BitVec.ofNat_eq_ofNat, BitVec.toNat_ofNat]
  omega

theorem unusedPage_phys (base p : U64) :
    unusedPage ((base.toNat + 4096 * p.toNat) % 2 ^ 64) = ⟨base + p * 4 * 1024, false⟩ := by
  unfold unusedPage
  rw [← phys_toNat, BitVec.ofNat_toNat, BitVec.setWidth_eq]

theorem phys_lt_iff (base p : U64) :
    base + p * 4 * 1024 < 0x100000 ↔ ¬ 0x100000 ≤ (base.toNat + 4096 * p.toNat) % 2 ^ 64 := by
  rw [BitVec.lt_def, phys_toNat, Nat.not_le]
  rfl

theorem upFrom_succ_word (base p : U64) (n : ℕ) :
    upFrom (base.toNat + 4096 * p.toNat + 4096) n =
      upFrom (base.toNat + 4096 * (p + 1).toNat) n := by
  apply upFrom_mod
  simp only [BitVec.toNat_add, BitVec.ofNat_eq_ofNat, BitVec.toNat_ofNat]
  omega

/-- The frame loop appends the frames it meets, up to the capacity; it jumps to the end only when
the list is full. -/
theorem addFrames_eq (base : U64) (n : ℕ) (p : U64) (pages : List Page)
    (h : pages.length ≤ maxPages) :
    (addFrames base n p pages).1 =
      (pages ++ (upFrom (base.toNat + 4096 * p.toNat) n).map unusedPage).take maxPages ∧
    ((addFrames base n p pages).2 = true → (addFrames base n p pages).1.length = maxPages) := by
  induction n generalizing p pages with
  | zero =>
    refine ⟨?_, fun hf => by cases hf⟩
    rw [upFrom_zero, List.map_nil, List.append_nil, List.take_of_length_le h]
    rfl
  | succ n ih =>
    unfold addFrames
    by_cases hfull : maxPages ≤ pages.length
    · rw [if_pos hfull]
      have hlen : pages.length = maxPages := le_antisymm h hfull
      refine ⟨?_, fun _ => hlen⟩
      rw [List.take_append_of_le_length hfull, List.take_of_length_le h]
    · rw [if_neg hfull, upFrom_succ, upFrom_succ_word]
      by_cases hlow : base + p * 4 * 1024 < 0x100000
      · simp only [if_pos hlow, if_neg ((phys_lt_iff base p).mp hlow), List.nil_append]
        exact ih (p + 1) pages h
      · have hge := not_not.mp (mt (phys_lt_iff base p).mpr hlow)
        simp only [if_neg hlow, if_pos hge, List.singleton_append, List.map_cons,
          unusedPage_phys]
        have := ih (p + 1) (pages ++ [⟨base + p * 4 * 1024, false⟩]) (by
          rw [List.length_append, List.length_singleton]; omega)
        simpa only [List.append_assoc, List.singleton_append] using this

theorem and_FFF_toNat (x : U64) : (x &&& 0xFFF).toNat = x.toNat % 4096 := by
  rw [BitVec.toNat_and]
  exact Nat.and_two_pow_sub_one_eq_mod x.toNat 12

theorem and_FFF_ne_zero_iff (x : U64) : x &&& 0xFFF ≠ 0 ↔ x.toNat % 4096 ≠ 0 := by
  rw [← and_FFF_toNat, not_iff_not, ← BitVec.toNat_inj]
  rfl

theorem alignEntry_eq (e : MemmapEntry) :
    alignEntry e.base e.length = none ∧ e.rest = 0 ∨
      ∃ base length, alignEntry e.base e.length = some (base, length) ∧
        base.toNat = e.lo % 2 ^ 64 ∧ length.toNat = e.rest := by
  have hb := e.base.isLt
  unfold alignEntry MemmapEntry.rest MemmapEntry.lo
  by_cases hz : e.base &&& 0xFFF ≠ 0
  · have hz' := (and_FFF_ne_zero_iff e.base).mp hz
    have hoff : (0x1000 - (e.base &&& 0xFFF)).toNat = 4096 - e.base.toNat % 4096 := by
      rw [BitVec.toNat_sub, and_FFF_toNat]
      simp only [BitVec.ofNat_eq_ofNat, BitVec.toNat_ofNat]
      omega
    rw [if_pos hz]
    by_cases hs : e.length < 0x1000 - (e.base &&& 0xFFF)
    · refine Or.inl ⟨if_pos hs, ?_⟩
      rw [BitVec.lt_def, hoff] at hs
      omega
    · refine Or.inr ⟨_, _, if_neg hs, ?_, ?_⟩
      · rw [BitVec.toNat_add, hoff]
        omega
      · rw [BitVec.lt_def, hoff] at hs
        rw [BitVec.toNat_sub, hoff]
        omega
  · have hz' := not_not.mp (mt (and_FFF_ne_zero_iff e.base).mpr hz)
    refine Or.inr ⟨_, _, if_neg hz, ?_, ?_⟩ <;> omega

theorem pageCount_toNat {e : MemmapEntry} {length : U64} (h : length.toNat = e.rest) :
    (length / 4 * 1024).toNat = e.pageCount := by
  unfold MemmapEntry.pageCount
  rw [← h]
  simp only [BitVec.toNat_mul, BitVec.toNat_udiv, BitVec.ofNat_eq_ofNat, BitVec.toNat_ofNat]

theorem pageCount_of_rest_lt {e : MemmapEntry} (h : e.rest < 4) : e.pageCount = 0 := by
  unfold MemmapEntry.pageCount; omega

namespace MemmapEntry

/-- The frames the loop of one entry meets. -/
def scanned (e : MemmapEntry) : List ℕ := upFrom e.lo e.pageCount

theorem scanned_of_pageCount {e : MemmapEntry} (h : e.pageCount = 0) : e.scanned = [] := by
  unfold scanned; rw [h, upFrom_zero]

end MemmapEntry

theorem addEntry_eq (e : MemmapEntry) (pages : List Page) (h : pages.length ≤ maxPages) :
    (addEntry e pages).1 = (pages ++ e.scanned.map unusedPage).take maxPages ∧
    ((addEntry e pages).2 = true → (addEntry e pages).1.length = maxPages) := by
  unfold addEntry
  rw [if_neg (by omega)]
  rcases alignEntry_eq e with ⟨hnone, hz⟩ | ⟨base, length, hsome, hb, hl⟩
  · rw [hnone, MemmapEntry.scanned_of_pageCount (pageCount_of_rest_lt (by omega))]
    refine ⟨?_, fun hf => by cases hf⟩
    rw [List.map_nil, List.append_nil, List.take_of_length_le h]
  · rw [hsome]
    have hloop := addFrames_eq base (length / 4 * 1024).toNat 0 pages h
    have hsc : upFrom (base.toNat + 4096 * (0 : U64).toNat) (length / 4 * 1024).toNat =
        e.scanned := by
      rw [pageCount_toNat hl]
      apply upFrom_mod
      rw [hb]
      simp
    rwa [hsc] at hloop

theorem take_take_append {α : Type*} (l m : List α) (n : ℕ) :
    (l.take n ++ m).take n = (l ++ m).take n := by
  rw [List.take_append, List.take_append, List.take_take, min_self, List.length_take]
  congr 2
  omega

/-- The loop over the entries lists the frames met in the usable ones, up to the capacity. -/
theorem initEntries_pages (memmap : List MemmapEntry) (m : MemoryGlobals)
    (h : m.pages.length ≤ maxPages) :
    (initEntries memmap m).pages =
      (m.pages ++ ((usable memmap).flatMap MemmapEntry.scanned).map unusedPage).take maxPages := by
  induction memmap generalizing m with
  | nil =>
    unfold initEntries usable
    simp only [List.filter_nil, List.flatMap_nil, List.map_nil, List.append_nil]
    rw [List.take_of_length_le h]
  | cons e es ih =>
    by_cases hu : e.type = .usable
    · obtain ⟨hpages, hfull⟩ := addEntry_eq e m.pages h
      have hcons : usable (e :: es) = e :: usable es := by
        unfold usable; rw [List.filter_cons, if_pos (by simpa using hu)]
      rw [hcons, List.flatMap_cons, List.map_append, ← List.append_assoc, ← take_take_append,
        ← hpages]
      have hle : (addEntry e m.pages).1.length ≤ maxPages := by
        rw [hpages, List.length_take]
        exact min_le_left _ _
      unfold initEntries
      rw [hu]
      rcases hadd : addEntry e m.pages with ⟨pages, jump⟩
      rw [hadd] at hfull hle
      cases jump with
      | true =>
        have hlen : pages.length = maxPages := hfull rfl
        show pages = (pages ++ _).take maxPages
        rw [List.take_append_of_le_length hlen.ge, List.take_of_length_le hlen.le]
      | false => exact ih _ hle
    · have hcons : usable (e :: es) = usable es := by
        unfold usable; rw [List.filter_cons, if_neg (by simpa using hu)]
      rw [hcons]
      unfold initEntries
      cases ht : e.type with
      | usable => exact absurd ht hu
      | badMemory => exact ih _ h
      | _ => exact ih _ h

/-! ## The frames of one entry -/

namespace MemmapEntry

variable {e f : MemmapEntry} {a : ℕ}

/-- The entry ends inside the 64-bit address space. -/
def Fits (e : MemmapEntry) : Prop := e.base.toNat + e.length.toNat ≤ 2 ^ 64

theorem mem_wholeFrames (he : e.Fits) : a ∈ e.wholeFrames ↔ e.IsWholeFrame a := by
  unfold wholeFrames
  rw [List.mem_filter, decide_eq_true_eq]
  refine ⟨And.right, fun h => ⟨List.mem_map.mpr ⟨a / 4096, ?_, ?_⟩, h⟩⟩
  · obtain ⟨-, -, -, hend⟩ := h
    unfold Fits at he
    rw [List.mem_range]
    omega
  · exact Nat.mul_div_cancel' h.1

theorem wholeFrames_sorted (e : MemmapEntry) : e.wholeFrames.Pairwise (· < ·) := by
  unfold wholeFrames
  apply List.Pairwise.filter
  rw [List.pairwise_map]
  exact List.pairwise_lt_range.imp fun h => by omega

theorem IsWholeFrame.lo_le (h : e.IsWholeFrame a) : e.lo ≤ a ∧ a + 4096 ≤ e.lo + e.rest := by
  obtain ⟨⟨k, rfl⟩, -, hb, hend⟩ := h
  unfold rest lo
  omega

theorem dvd_lo (e : MemmapEntry) : 4096 ∣ e.lo := Dvd.intro_left _ rfl

/-- An entry with bytes left after the alignment holds the byte at its aligned base. -/
theorem lo_mem (h : 0 < e.rest) :
    e.base.toNat ≤ e.lo ∧ e.lo < e.base.toNat + e.length.toNat := by
  unfold rest lo at *
  omega

/-- The whole frames are what the loop would meet in `rest / 4096` steps. -/
theorem wholeFrames_eq_upFrom (he : e.Fits) : e.wholeFrames = upFrom e.lo (e.rest / 4096) := by
  have hend : e.rest = 0 ∨ e.lo + e.rest ≤ 2 ^ 64 := by unfold Fits at he; unfold rest; omega
  have hmod : ∀ p < e.rest / 4096, (e.lo + 4096 * p) % 2 ^ 64 = e.lo + 4096 * p :=
    fun p hp => Nat.mod_eq_of_lt (by omega)
  refine List.Pairwise.eq_of_mem_iff (r := (· < ·)) e.wholeFrames_sorted ?_ fun a => ?_
  · unfold upFrom
    apply List.Pairwise.filter
    rw [List.map_congr_left fun p hp => hmod p (List.mem_range.mp hp), List.pairwise_map]
    exact List.pairwise_lt_range.imp fun h => by omega
  · rw [mem_wholeFrames he]
    unfold upFrom
    simp only [List.mem_filter, List.mem_map, List.mem_range, decide_eq_true_eq]
    constructor
    · intro h
      obtain ⟨hlo, hhi⟩ := h.lo_le
      obtain ⟨k, rfl⟩ := h.1
      have hd := e.dvd_lo
      refine ⟨⟨(4096 * k - e.lo) / 4096, by omega, ?_⟩, h.2.1⟩
      rw [hmod _ (by omega)]
      omega
    · rintro ⟨⟨p, hp, rfl⟩, hge⟩
      rw [hmod p hp] at hge ⊢
      have hd := e.dvd_lo
      have hm := lo_mem (e := e) (by omega)
      unfold rest at hp
      exact ⟨by omega, hge, by omega, by omega⟩

theorem wholeFrames_eq_nil (h : e.rest < 4096) : e.wholeFrames = [] := by
  unfold wholeFrames
  rw [List.filter_eq_nil_iff]
  intro a _ ha
  rw [decide_eq_true_eq] at ha
  have := ha.lo_le
  omega

theorem lo_lt (he : e.Fits) (h : 0 < e.rest) : e.lo < 2 ^ 64 :=
  lt_of_lt_of_le (lo_mem h).2 he

theorem huge_of_pageCount (h4 : 4 ≤ e.rest) (h : e.pageCount = 0) : 2 ^ 56 ≤ e.rest := by
  unfold pageCount at h
  omega

theorem length_wholeFrames_huge (he : e.Fits) (h : 2 ^ 56 ≤ e.rest) :
    maxPages ≤ e.wholeFrames.length := by
  have hsub : (List.range maxPages).map (fun k => max e.lo 0x100000 + 4096 * k) ⊆
      e.wholeFrames := by
    intro a ha
    obtain ⟨k, hk, rfl⟩ := List.mem_map.mp ha
    rw [List.mem_range] at hk
    rw [mem_wholeFrames he]
    have hd := e.dvd_lo
    have hm := lo_mem (e := e) (by omega)
    unfold rest at h
    unfold maxPages at hk
    refine ⟨by omega, by omega, by omega, by omega⟩
  have hnd : ((List.range maxPages).map fun k => max e.lo 0x100000 + 4096 * k).Nodup :=
    List.nodup_range.map fun i j h => by simpa using h
  have := (hnd.subperm hsub).length_le
  rwa [List.length_map, List.length_range] at this

/-- An entry without a whole frame is counted, for its product does not wrap. -/
theorem pageCount_of_empty (he : e.Fits) (h4 : 4 ≤ e.rest) (hnil : e.wholeFrames = []) :
    e.pageCount ≠ 0 := by
  intro hz
  have hlen := length_wholeFrames_huge he (huge_of_pageCount h4 hz)
  rw [hnil] at hlen
  exact absurd hlen (by decide)

/-! ## The frames the loop meets -/

/-- Below 1 MiB lie 256 frames, so that many are skipped at most. -/
theorem countFrom_ge {n : ℕ} (ha : 4096 ∣ a) (ha' : a < 2 ^ 64) (hn : n ≤ 2 ^ 20) :
    n ≤ countFrom a n + 256 := by
  obtain ⟨k, rfl⟩ := ha
  have hlen := List.length_eq_countP_add_countP
    (fun p => decide (0x100000 ≤ (4096 * k + 4096 * p) % 2 ^ 64)) (l := List.range n)
  rw [List.length_range] at hlen
  have hskip : (List.range n).countP
      (fun p => decide ¬ (decide (0x100000 ≤ (4096 * k + 4096 * p) % 2 ^ 64)) = true) ≤ 256 := by
    rw [List.countP_eq_length_filter]
    -- the skipped steps form one interval: at the start, or where the count wraps
    have hsub : (List.range n).filter
        (fun p => decide ¬ (decide (0x100000 ≤ (4096 * k + 4096 * p) % 2 ^ 64)) = true) ⊆
        List.range' (if k < 256 then 0 else 2 ^ 52 - k) 256 := by
      intro p hp
      rw [List.mem_filter, List.mem_range] at hp
      simp only [decide_eq_true_eq] at hp
      rw [List.mem_range'_1]
      split_ifs <;> omega
    have := ((List.nodup_range.filter _).subperm hsub).length_le
    rwa [List.length_range'] at this
  unfold countFrom
  omega

theorem countFrom_mono (a : ℕ) {m n : ℕ} (h : m ≤ n) : countFrom a m ≤ countFrom a n := by
  unfold countFrom
  exact (List.range_sublist.mpr h).countP_le

theorem scanned_head (he : e.Fits) (h4 : 4 ≤ e.rest) (h : e.pageCount ≠ 0) :
    ∃ l, e.scanned = max e.lo 0x100000 :: l := by
  have hlo := lo_lt he (by omega)
  have hge : 1024 ≤ e.pageCount := by unfold pageCount at *; omega
  have hpos : 0 < countFrom e.lo e.pageCount := by
    have h1 := countFrom_ge e.dvd_lo hlo (n := 1024) (by norm_num)
    have h2 := countFrom_mono e.lo hge
    omega
  obtain ⟨m, hm⟩ := Nat.exists_eq_succ_of_ne_zero hpos.ne'
  have hcons : e.scanned = consecutive (max e.lo 0x100000) (m + 1) := by
    unfold scanned
    rw [upFrom_eq_consecutive e.dvd_lo, length_upFrom, hm, Nat.mod_eq_of_lt hlo]
  exact ⟨_, hcons⟩

/-- A count that stops short of the capacity comes from a few bytes or from a product that
wrapped. -/
theorem rest_of_short (he : e.Fits)
    (h : countFrom e.lo e.pageCount < maxPages) : e.rest < 44 ∨ 2 ^ 56 ≤ e.rest := by
  by_contra hc
  push Not at hc
  have hge : 11264 ≤ e.pageCount := by unfold pageCount; omega
  have h1 := countFrom_ge e.dvd_lo (lo_lt he (by omega)) (n := 11264) (by norm_num)
  have h2 := countFrom_mono e.lo hge
  unfold maxPages at h
  omega

end MemmapEntry

/-! ## When the list is right -/

attribute [local irreducible] MemmapEntry.wholeFrames

section Exact

/-- A list either has no element with the property or splits at the first one. -/
theorem first_split {α : Type*} (p : α → Prop) (l : List α) :
    (∀ x ∈ l, ¬ p x) ∨ ∃ l₁ x l₂, l = l₁ ++ x :: l₂ ∧ p x ∧ ∀ y ∈ l₁, ¬ p y := by
  induction l with
  | nil => exact Or.inl fun x hx => by cases hx
  | cons x l ih =>
    by_cases hx : p x
    · exact Or.inr ⟨[], x, l, rfl, hx, fun y hy => by cases hy⟩
    · rcases ih with h | ⟨l₁, y, l₂, rfl, hy, hl⟩
      · exact Or.inl (List.forall_mem_cons.mpr ⟨hx, h⟩)
      · exact Or.inr ⟨x :: l₁, y, l₂, rfl, hy, List.forall_mem_cons.mpr ⟨hx, hl⟩⟩

theorem flatMap_eq_nil_of {α β : Type*} {g : α → List β} {l : List α} (h : ∀ x ∈ l, g x = []) :
    l.flatMap g = [] := List.flatMap_eq_nil_iff.mpr h

variable {L : List MemmapEntry}

/-- The start of the first frame met in an entry. -/
def MemmapEntry.start (e : MemmapEntry) : ℕ := max e.lo 0x100000

theorem start_eq_lo {e : MemmapEntry} (h : 0x100000 < e.start) : e.start = e.lo := by
  unfold MemmapEntry.start at *; omega

theorem not_wholeFrame_lo {e f : MemmapEntry} (hd : e.Disjoint f) (h4 : 4 ≤ f.rest) :
    ¬ e.IsWholeFrame f.lo := by
  rintro ⟨-, -, hb, hend⟩
  exact hd f.lo ⟨⟨hb, by omega⟩, MemmapEntry.lo_mem (by omega)⟩

/-- What the scans of a list of entries begin with: the first frame of the entry after those whose
products wrap to zero, if there is one. -/
theorem scans_head (hfit : ∀ e ∈ L, e.Fits) (h4 : ∀ e ∈ L, 4 ≤ e.rest) :
    ∃ cs tail, L = cs ++ tail ∧ (∀ e ∈ cs, e.pageCount = 0) ∧
      (L.flatMap MemmapEntry.scanned)[0]? = tail.head?.map MemmapEntry.start := by
  rcases first_split (fun e : MemmapEntry => e.pageCount ≠ 0) L with h | ⟨l₁, g, l₂, rfl, hg, h⟩
  · simp only [not_not] at h
    refine ⟨L, [], by simp, h, ?_⟩
    rw [flatMap_eq_nil_of fun e he => MemmapEntry.scanned_of_pageCount (h e he)]
    rfl
  · simp only [not_not] at h
    refine ⟨l₁, g :: l₂, rfl, h, ?_⟩
    obtain ⟨l, hl⟩ := MemmapEntry.scanned_head (hfit g (by simp)) (h4 g (by simp)) hg
    rw [List.flatMap_append, flatMap_eq_nil_of fun e he =>
      MemmapEntry.scanned_of_pageCount (h e he), List.nil_append, List.flatMap_cons, hl]
    rfl

theorem MemmapEntry.Disjoint.symm {e f : MemmapEntry} (h : e.Disjoint f) : f.Disjoint e :=
  fun x hx => h x ⟨hx.2, hx.1⟩

/-- Disjoint entries have no whole frame in common, so no frame is listed twice. -/
theorem wholeFrames_nodup (hfit : ∀ e ∈ L, e.Fits) (hdisj : L.Pairwise MemmapEntry.Disjoint) :
    (L.flatMap MemmapEntry.wholeFrames).Nodup := by
  rw [List.nodup_flatMap]
  refine ⟨fun e _ => e.wholeFrames_sorted.imp fun h => h.ne, ?_⟩
  refine (List.Pairwise.and_mem.mp hdisj).imp ?_
  rintro e f ⟨he, hf, hd⟩ a hae haf
  have h1 := (MemmapEntry.mem_wholeFrames (hfit e he)).mp hae
  have h2 := (MemmapEntry.mem_wholeFrames (hfit f hf)).mp haf
  exact hd a ⟨⟨h1.2.2.1, by have := h1.2.2.2; omega⟩, h2.2.2.1, by have := h2.2.2.2; omega⟩

/-- When the list begins in a huge entry it stays there, and no scan after the first can go on with
the next frame. -/
theorem not_next_of_huge {l₁ l₂ tail : List MemmapEntry} {h : MemmapEntry} {n y : ℕ}
    (hfit : h.Fits) (h4 : ∀ e ∈ tail, 4 ≤ e.rest) (hhuge : 2 ^ 56 ≤ h.rest)
    (hdisj : (l₁ ++ h :: l₂ ++ tail).Pairwise MemmapEntry.Disjoint)
    (hl₁ : ∀ e ∈ l₁, e.wholeFrames = []) (hn0 : 0 < n) (hn : n < maxPages) (hy : 0x100000 ≤ y)
    (h0 : ((l₁ ++ h :: l₂ ++ tail).flatMap MemmapEntry.wholeFrames)[0]? = some y)
    (hnext : ((l₁ ++ h :: l₂ ++ tail).flatMap MemmapEntry.wholeFrames)[n]? =
      tail.head?.map MemmapEntry.start) : False := by
  have hlen := MemmapEntry.length_wholeFrames_huge hfit hhuge
  have hS : ∀ k < maxPages, ((l₁ ++ h :: l₂ ++ tail).flatMap MemmapEntry.wholeFrames)[k]? =
      h.wholeFrames[k]? := by
    intro k hk
    rw [List.flatMap_append, List.flatMap_append, flatMap_eq_nil_of hl₁, List.nil_append,
      List.flatMap_cons, List.append_assoc, List.getElem?_append_left (by omega)]
  rw [hS 0 (by omega)] at h0
  rw [hS n hn] at hnext
  obtain ⟨h0l, h0⟩ := List.getElem?_eq_some_iff.mp h0
  have hnl : n < h.wholeFrames.length := by omega
  rw [List.getElem?_eq_getElem hnl] at hnext
  cases htail : tail with
  | nil =>
    rw [htail] at hnext
    cases hnext
  | cons g ds =>
    rw [htail] at hnext
    have hg : h.wholeFrames[n] = g.start := Option.some.inj hnext
    have hlt : h.wholeFrames[0] < h.wholeFrames[n] :=
      List.pairwise_iff_getElem.mp h.wholeFrames_sorted 0 n _ _ hn0
    have hlo := start_eq_lo (e := g) (by omega)
    have hw := (MemmapEntry.mem_wholeFrames hfit).mp (List.getElem_mem hnl)
    rw [hg, hlo] at hw
    have hd : h.Disjoint g :=
      (List.pairwise_append.mp hdisj).2.2 h (by simp) g (by simp [htail])
    exact not_wholeFrame_lo hd (h4 g (by simp [htail])) hw

/-- When the first scan meets no frame of its own entry and stops short of the capacity, the next
one starts over and breaks the order. -/
theorem not_next_of_tiny {f g : MemmapEntry} {ds : List MemmapEntry} {n : ℕ}
    (hfit : ∀ e ∈ f :: g :: ds, e.Fits) (h4 : ∀ e ∈ f :: g :: ds, 4 ≤ e.rest)
    (hdisj : (f :: g :: ds).Pairwise MemmapEntry.Disjoint) (hn0 : 0 < n)
    (h0 : ((g :: ds).flatMap MemmapEntry.wholeFrames)[0]? = some f.start)
    (hnext : ((g :: ds).flatMap MemmapEntry.wholeFrames)[n]? = some g.start) : False := by
  obtain ⟨hdf, hdg⟩ := List.pairwise_cons.mp hdisj
  have hfit' : ∀ e ∈ g :: ds, e.Fits := fun e he => hfit e (List.mem_cons_of_mem _ he)
  -- the first frame is at 1 MiB, for the aligned base of `f` is in no other entry
  have hf : f.start = 0x100000 := by
    by_contra hne
    have hlo := start_eq_lo (e := f) (by unfold MemmapEntry.start at *; omega)
    obtain ⟨k, hk, hw⟩ := List.mem_flatMap.mp (List.mem_of_getElem? h0)
    rw [MemmapEntry.mem_wholeFrames (hfit' k hk), hlo] at hw
    exact not_wholeFrame_lo (hdf k hk).symm (h4 f (by simp)) hw
  -- the frame after the first scan is another one, so it is the aligned base of `g`
  have hg : g.start ≠ 0x100000 := by
    intro he
    have hnd := wholeFrames_nodup hfit' hdg
    rw [he, ← hf, ← h0] at hnext
    obtain ⟨hlt, -⟩ := List.getElem?_eq_some_iff.mp h0
    have := (List.getElem?_inj hlt hnd).mp hnext.symm
    omega
  have hlo := start_eq_lo (e := g) (by unfold MemmapEntry.start at *; omega)
  -- which is a whole frame of `g`, so the list begins in `g`, above 1 MiB
  have hw : g.IsWholeFrame g.lo := by
    obtain ⟨k, hk, hw⟩ := List.mem_flatMap.mp (List.mem_of_getElem? hnext)
    rw [MemmapEntry.mem_wholeFrames (hfit' k hk), hlo] at hw
    rcases List.mem_cons.mp hk with rfl | hk
    · exact hw
    · exact absurd hw
        (not_wholeFrame_lo ((List.pairwise_cons.mp hdg).1 k hk).symm (h4 g (by simp)))
  have hmem := (MemmapEntry.mem_wholeFrames (hfit' g (by simp))).mpr hw
  rw [List.flatMap_cons, List.getElem?_append_left (List.length_pos_of_mem hmem)] at h0
  have hfirst := (MemmapEntry.mem_wholeFrames (hfit' g (by simp))).mp (List.mem_of_getElem? h0)
  have hle := hfirst.lo_le.1
  have hge := hw.2.1
  rw [hf] at hle
  apply hg
  rw [hlo]
  omega

/-- An entry with frames, among those that scan nothing and one that scans too few, is so large that
its count wraps. -/
theorem huge_of_short {as cs : List MemmapEntry} {f h : MemmapEntry}
    (has : ∀ e ∈ as, e.pageCount = 0) (hcs : ∀ e ∈ cs, e.pageCount = 0)
    (hlt : countFrom f.lo f.pageCount < maxPages) (hmem : h ∈ as ++ f :: cs) (hfit : h.Fits)
    (h4 : 4 ≤ h.rest) (hne : h.wholeFrames ≠ []) : 2 ^ 56 ≤ h.rest := by
  have hz : h.pageCount = 0 ∨ h = f := by
    rcases List.mem_append.mp hmem with hm | hm
    · exact Or.inl (has h hm)
    · rcases List.mem_cons.mp hm with hm | hm
      · exact Or.inr hm
      · exact Or.inl (hcs h hm)
  rcases hz with hz | rfl
  · exact MemmapEntry.huge_of_pageCount h4 hz
  · exact (MemmapEntry.rest_of_short hfit hlt).resolve_left fun h44 =>
      hne (MemmapEntry.wholeFrames_eq_nil (by omega))

theorem count_of_take_eq {as bs : List MemmapEntry} {f : MemmapEntry}
    (hfit : ∀ e ∈ as ++ f :: bs, e.Fits) (h4 : ∀ e ∈ as ++ f :: bs, 4 ≤ e.rest)
    (hdisj : (as ++ f :: bs).Pairwise MemmapEntry.Disjoint) (has : ∀ e ∈ as, e.pageCount = 0)
    (hf : f.pageCount ≠ 0)
    (heq : ((as ++ f :: bs).flatMap MemmapEntry.scanned).take maxPages =
      ((as ++ f :: bs).flatMap MemmapEntry.wholeFrames).take maxPages) :
    maxPages ≤ countFrom f.lo f.pageCount := by
  by_contra hlt
  rw [not_le] at hlt
  have hidx : ∀ k < maxPages, ((as ++ f :: bs).flatMap MemmapEntry.wholeFrames)[k]? =
      (f.scanned ++ bs.flatMap MemmapEntry.scanned)[k]? := by
    intro k hk
    rw [← List.getElem?_take_of_lt hk, ← heq, List.getElem?_take_of_lt hk, List.flatMap_append,
      flatMap_eq_nil_of fun e he => MemmapEntry.scanned_of_pageCount (has e he), List.nil_append,
      List.flatMap_cons]
  obtain ⟨l, hl⟩ := MemmapEntry.scanned_head (hfit f (by simp)) (h4 f (by simp)) hf
  have hlen : f.scanned.length = countFrom f.lo f.pageCount := length_upFrom _ _
  have hn0 : 0 < f.scanned.length := by rw [hl]; exact Nat.succ_pos _
  have h0 := hidx 0 (by omega)
  rw [hl, List.cons_append, List.getElem?_cons_zero] at h0
  have hn := hidx f.scanned.length (by omega)
  rw [List.getElem?_append_right le_rfl, Nat.sub_self] at hn
  -- the entries up to the one that scans next
  obtain ⟨cs, tail, rfl, hcs, hnext⟩ := scans_head (L := bs)
    (fun e he => hfit e (by simp [he])) (fun e he => h4 e (by simp [he]))
  rw [hnext] at hn
  have hsplit : as ++ f :: (cs ++ tail) = as ++ f :: cs ++ tail := by simp
  rw [hsplit] at hfit h4 hdisj h0 hn
  rcases first_split (fun e : MemmapEntry => e.wholeFrames ≠ []) (as ++ f :: cs) with
    hnone | ⟨l₁, h, l₂, hP, hne, hl₁⟩
  · simp only [not_not] at hnone
    have hzero : ∀ e ∈ as ++ f :: cs, e.pageCount ≠ 0 := by
      intro e he
      have hmem : e ∈ as ++ f :: cs ++ tail := List.mem_append_left _ he
      exact MemmapEntry.pageCount_of_empty (hfit e hmem) (h4 e hmem) (hnone e he)
    obtain rfl : as = [] := List.eq_nil_iff_forall_not_mem.mpr fun e he =>
      hzero e (by simp [he]) (has e he)
    obtain rfl : cs = [] := List.eq_nil_iff_forall_not_mem.mpr fun e he =>
      hzero e (by simp [he]) (hcs e he)
    rw [List.flatMap_append, flatMap_eq_nil_of hnone, List.nil_append] at h0 hn
    cases htail : tail with
    | nil => rw [htail] at h0; cases h0
    | cons g ds =>
      rw [htail] at hfit h4 hdisj h0 hn
      exact not_next_of_tiny hfit h4 hdisj hn0 h0 hn
  · simp only [not_not] at hl₁
    have hmem : h ∈ as ++ f :: cs := by rw [hP]; simp
    have hmem' : h ∈ as ++ f :: cs ++ tail := List.mem_append_left _ hmem
    have hfit' := hfit h hmem'
    have hhuge := huge_of_short has hcs hlt hmem hfit' (h4 h hmem') hne
    rw [hP] at hdisj h0 hn
    exact not_next_of_huge hfit' (fun e he => h4 e (List.mem_append_right _ he)) hhuge hdisj hl₁
      hn0 (by omega) (le_max_right _ _) h0 hn

end Exact

/-- The usable entries with four bytes or more after the alignment: the only ones that the loop, or
the rule, takes frames from. -/
def live (memmap : List MemmapEntry) : List MemmapEntry :=
  (usable memmap).filter fun e => 4 ≤ e.rest

/-- The maps on which the list comes out right. Either no entry is live; or the first live entry
whose `rest / 4 * 1024` does not wrap to zero counts 10000 frames, and the first 10000 whole usable
frames of the map are the consecutive frames from the aligned base of that entry, or from 1 MiB if
it starts below. -/
def PageListRight (memmap : List MemmapEntry) : Prop :=
  match (live memmap).find? fun e => e.pageCount ≠ 0 with
  | none => live memmap = []
  | some f => maxPages ≤ countFrom f.lo f.pageCount ∧
      (usableFrames memmap).take maxPages = consecutive (max f.lo 0x100000) maxPages

theorem flatMap_live {g : MemmapEntry → List ℕ} (memmap : List MemmapEntry)
    (hg : ∀ e, e.rest < 4 → g e = []) : (usable memmap).flatMap g = (live memmap).flatMap g := by
  unfold live
  induction usable memmap with
  | nil => rfl
  | cons e es ih =>
    by_cases h : 4 ≤ e.rest
    · rw [List.filter_cons, if_pos (by simpa using h), List.flatMap_cons, List.flatMap_cons, ih]
    · rw [List.filter_cons, if_neg (by simpa using h), List.flatMap_cons, hg e (by omega), ih,
        List.nil_append]

theorem map_unusedPage_inj {l m : List ℕ} (hl : ∀ a ∈ l, a < 2 ^ 64) (hm : ∀ a ∈ m, a < 2 ^ 64)
    (h : l.map unusedPage = m.map unusedPage) : l = m := by
  have back : ∀ l : List ℕ, (∀ a ∈ l, a < 2 ^ 64) →
      (l.map unusedPage).map (fun p => p.start.toNat) = l := by
    intro l hl
    rw [List.map_map]
    refine (List.map_congr_left fun a ha => ?_).trans (List.map_id _)
    show (BitVec.ofNat 64 a).toNat = a
    rw [BitVec.toNat_ofNat, Nat.mod_eq_of_lt (hl a ha)]
  rw [← back l hl, h, back m hm]

theorem memoryInit_pages (memmap : List MemmapEntry) (hhdm : U64) :
    (memoryInit memmap hhdm).2.pages =
      (((live memmap).flatMap MemmapEntry.scanned).take maxPages).map unusedPage := by
  rw [← flatMap_live memmap fun e he =>
    MemmapEntry.scanned_of_pageCount (pageCount_of_rest_lt he), List.map_take]
  exact initEntries_pages memmap ⟨[], hhdm, false, []⟩ (Nat.zero_le _)

section

variable {memmap : List MemmapEntry} (hfit : ∀ e ∈ memmap, e.Fits)

include hfit in
theorem live_fits : ∀ e ∈ live memmap, e.Fits := fun e he =>
  hfit e (List.mem_of_mem_filter (List.mem_of_mem_filter he))

theorem live_rest : ∀ e ∈ live memmap, 4 ≤ e.rest := fun e he => by
  simpa using List.of_mem_filter he

theorem usableFrames_eq_live (memmap : List MemmapEntry) :
    usableFrames memmap = (live memmap).flatMap MemmapEntry.wholeFrames :=
  flatMap_live memmap fun _ he => MemmapEntry.wholeFrames_eq_nil (by omega)

include hfit in
/-- The list is right when the frames met and the whole frames agree up to the capacity. -/
theorem pages_eq_iff_take (hhdm : U64) :
    (memoryInit memmap hhdm).2.pages = ((usableFrames memmap).take maxPages).map unusedPage ↔
      ((live memmap).flatMap MemmapEntry.scanned).take maxPages =
        ((live memmap).flatMap MemmapEntry.wholeFrames).take maxPages := by
  rw [memoryInit_pages, usableFrames_eq_live]
  refine ⟨map_unusedPage_inj (fun a ha => ?_) fun a ha => ?_, fun h => by rw [h]⟩
  · obtain ⟨e, -, he⟩ := List.mem_flatMap.mp (List.mem_of_mem_take ha)
    obtain ⟨p, -, rfl⟩ := List.mem_map.mp (List.mem_of_mem_filter he)
    exact Nat.mod_lt _ (by norm_num)
  · obtain ⟨e, hm, he⟩ := List.mem_flatMap.mp (List.mem_of_mem_take ha)
    have hf := live_fits hfit e hm
    have hend := ((MemmapEntry.mem_wholeFrames hf).mp he).2.2.2
    unfold MemmapEntry.Fits at hf
    omega

/-- **The page list.** For a map whose entries fit the address space and whose usable entries are
disjoint, `page_list` is the first 10000 whole usable frames in map order, all unused, exactly on
the maps of `PageListRight`. -/
theorem memoryInit_pages_iff (hfit : ∀ e ∈ memmap, e.Fits)
    (hdisj : (usable memmap).Pairwise MemmapEntry.Disjoint) (hhdm : U64) :
    (memoryInit memmap hhdm).2.pages = ((usableFrames memmap).take maxPages).map unusedPage ↔
      PageListRight memmap := by
  rw [pages_eq_iff_take hfit]
  have hfit' := live_fits hfit
  have h4 : ∀ e ∈ live memmap, 4 ≤ e.rest := live_rest
  have hdisj' : (live memmap).Pairwise MemmapEntry.Disjoint := hdisj.filter _
  unfold PageListRight
  rw [usableFrames_eq_live]
  cases hfind : (live memmap).find? fun e => e.pageCount ≠ 0 with
  | none =>
    -- every product wraps to zero: nothing is listed, and a live entry would be huge
    have hz : ∀ e ∈ live memmap, e.pageCount = 0 := by simpa using hfind
    rw [flatMap_eq_nil_of fun e he => MemmapEntry.scanned_of_pageCount (hz e he), List.take_nil]
    refine ⟨fun h => ?_, fun h => by rw [h]; rfl⟩
    refine List.eq_nil_iff_forall_not_mem.mpr fun e he => ?_
    have hnil := (List.take_eq_nil_iff.mp h.symm).resolve_left (by decide)
    have hempty : e.wholeFrames = [] := List.flatMap_eq_nil_iff.mp hnil e he
    exact MemmapEntry.pageCount_of_empty (hfit' e he) (h4 e he) hempty (hz e he)
  | some f =>
    obtain ⟨hf, as, bs, hL, has⟩ := List.find?_eq_some_iff_append.mp hfind
    have has' : ∀ e ∈ as, e.pageCount = 0 := by simpa using has
    have hf' : f.pageCount ≠ 0 := by simpa using hf
    have hscan : (live memmap).flatMap MemmapEntry.scanned =
        f.scanned ++ bs.flatMap MemmapEntry.scanned := by
      rw [hL, List.flatMap_append, flatMap_eq_nil_of fun e he =>
        MemmapEntry.scanned_of_pageCount (has' e he), List.nil_append, List.flatMap_cons]
    have hlo : f.lo < 2 ^ 64 :=
      MemmapEntry.lo_lt (hfit' f (by simp [hL])) (by have := h4 f (by simp [hL]); omega)
    have hfull : maxPages ≤ countFrom f.lo f.pageCount →
        ((live memmap).flatMap MemmapEntry.scanned).take maxPages =
          consecutive (max f.lo 0x100000) maxPages := by
      intro hc
      have hlen : f.scanned.length = countFrom f.lo f.pageCount := length_upFrom _ _
      rw [hscan, List.take_append_of_le_length (by omega)]
      unfold MemmapEntry.scanned at *
      rw [upFrom_eq_consecutive f.dvd_lo, Nat.mod_eq_of_lt hlo, take_consecutive _ (by omega)]
    constructor
    · intro h
      have hc : maxPages ≤ countFrom f.lo f.pageCount := by
        rw [hL] at hfit' h4 hdisj' h
        exact count_of_take_eq hfit' h4 hdisj' has' hf' h
      exact ⟨hc, by rw [← h, hfull hc]⟩
    · rintro ⟨hc, h⟩
      rw [hfull hc, h]

end

/-- One usable frame at 1 MiB. -/
def oneFrameMap : List MemmapEntry := [⟨0x100000, 0x1000, .usable⟩]

theorem oneFrameMap_fits : ∀ e ∈ oneFrameMap, e.Fits := by
  unfold oneFrameMap MemmapEntry.Fits; decide

/-- The loop for the one frame at 1 MiB goes on to the frame after it. -/
theorem oneFrameMap_second (hhdm : U64) :
    (memoryInit oneFrameMap hhdm).2.pages[1]? = some ⟨0x101000, false⟩ := by
  have hc : (upFrom 0x100000 1048576)[1]? = some 0x101000 := by
    rw [upFrom_succ, upFrom_succ]
    rfl
  have hs : (live oneFrameMap).flatMap MemmapEntry.scanned = upFrom 0x100000 1048576 ++ [] := rfl
  rw [memoryInit_pages, hs, List.append_nil, List.getElem?_map,
    List.getElem?_take_of_lt (by decide), hc]
  rfl

/-- **The page list is wrong.** On the map with one usable frame, a frame outside it is listed. -/
theorem memoryInit_oneFrameMap :
    ¬ (memoryInit oneFrameMap 0).2.pages =
      ((usableFrames oneFrameMap).take maxPages).map unusedPage := by
  intro h
  have h2 := oneFrameMap_second 0
  rw [h, List.getElem?_map] at h2
  obtain ⟨a, ha, hp⟩ := Option.map_eq_some_iff.mp h2
  obtain ⟨e, he, hw⟩ := List.mem_flatMap.mp (List.mem_of_mem_take (List.mem_of_getElem? ha))
  obtain rfl : e = ⟨0x100000, 0x1000, .usable⟩ := by
    simpa [usable, oneFrameMap] using he
  have hf := (MemmapEntry.mem_wholeFrames (oneFrameMap_fits _ (by simp [oneFrameMap]))).mp hw
  have hend : a + 4096 ≤ 0x100000 + 0x1000 := hf.2.2.2
  have hst : a % 2 ^ 64 = 0x101000 := by
    have := congrArg (fun p : Page => p.start.toNat) hp
    simpa [unusedPage] using this
  omega

/-- Ten thousand usable frames from 1 MiB on: the scan of the one entry stops where it should. -/
def fullMap : List MemmapEntry := [⟨0x100000, 0x2710000, .usable⟩]

theorem fullMap_right : PageListRight fullMap := by
  have hfit : MemmapEntry.Fits ⟨0x100000, 0x2710000, .usable⟩ := by
    unfold MemmapEntry.Fits; decide
  have hlo : MemmapEntry.lo ⟨0x100000, 0x2710000, .usable⟩ = 0x100000 := by decide
  have hpc : MemmapEntry.pageCount ⟨0x100000, 0x2710000, .usable⟩ = 10485760000 := by decide
  have hfind : ((live fullMap).find? fun e => e.pageCount ≠ 0) =
      some ⟨0x100000, 0x2710000, .usable⟩ := by decide
  have hframes : usableFrames fullMap = upFrom 0x100000 10000 := by
    have hrest : MemmapEntry.rest ⟨0x100000, 0x2710000, .usable⟩ / 4096 = 10000 := by decide
    show MemmapEntry.wholeFrames ⟨0x100000, 0x2710000, .usable⟩ ++ [] = _
    rw [List.append_nil, MemmapEntry.wholeFrames_eq_upFrom hfit, hlo, hrest]
  have hlen : countFrom 0x100000 10000 = 10000 := by
    unfold countFrom
    refine (List.countP_eq_length.mpr fun p hp => ?_).trans List.length_range
    rw [List.mem_range] at hp
    rw [decide_eq_true_eq]
    omega
  unfold PageListRight
  rw [hfind]
  show maxPages ≤ countFrom (MemmapEntry.lo _) (MemmapEntry.pageCount _) ∧ _
  rw [hlo, hpc, hframes, upFrom_eq_consecutive (by decide), length_upFrom, hlen,
    take_consecutive _ (show maxPages ≤ 10000 from le_rfl)]
  refine ⟨?_, rfl⟩
  have hmono := MemmapEntry.countFrom_mono 0x100000 (m := 10000) (n := 10485760000) (by decide)
  unfold maxPages
  omega

theorem memoryInit_fullMap :
    (memoryInit fullMap 0).2.pages = ((usableFrames fullMap).take maxPages).map unusedPage :=
  (memoryInit_pages_iff (by unfold fullMap MemmapEntry.Fits; decide)
    (List.pairwise_singleton _ _) 0).mpr fullMap_right

end DejOs
