import DejOs.MemoryInit

/-!
# The array behind the page list

`memory_init` fills a static array of 10000 slots through the counter `pages`, with one test of the
counter before an entry (`pages > 10000`) and one before each frame (`pages >= 10000`). Here the
loops run on the array itself, and every index that is stored to is noted; they simulate the loops
of `MemoryInit`, which see the filled part as a list.

What the allocator relies on then holds for every map the boot loader hands over: no store leaves
the array, and the filled part is a strictly increasing run of unused frames from 1 MiB on.
-/

namespace DejOs

/-- `pages` and `page_list`, and the indices of `page_list` stored to so far. A slot from `maxPages`
on is memory behind the array. -/
structure PageList where
  pages : U64
  slot : ℕ → Page
  written : List ℕ

namespace PageList

/-- The stores of one loop iteration, then `pages++`. -/
def append (g : PageList) (physAddr : U64) : PageList where
  slot := Function.update g.slot g.pages.toNat ⟨physAddr, false⟩
  written := g.written ++ [g.pages.toNat]
  pages := g.pages + 1

end PageList

/-- The globals of `memory.c` that `memory_init` writes, with the array as it is. -/
structure PageGlobals where
  list : PageList
  hhdm : U64
  inited : Bool
  log : List Logf

/-- The globals before the kernel runs. -/
def PageGlobals.zero : PageGlobals := ⟨⟨0, fun _ => ⟨0, false⟩, []⟩, 0, false, []⟩

/-- The frame loop on the array; `true` is `goto end`. -/
def storeFrames (base : U64) : ℕ → U64 → PageList → PageList × Bool
  | 0, _, g => (g, false)
  | n + 1, p, g =>
    if 10000 ≤ g.pages then (g, true)
    else
      let physAddr := base + p * 4 * 1024
      if physAddr < 0x100000 then storeFrames base n (p + 1) g
      else storeFrames base n (p + 1) (g.append physAddr)

/-- The case `LIMINE_MEMMAP_USABLE` on the array. -/
def storeEntry (e : MemmapEntry) (g : PageList) : PageList × Bool :=
  if 10000 < g.pages then (g, false)
  else match alignEntry e.base e.length with
    | none => (g, false)
    | some (base, length) => storeFrames base (length / 4 * 1024).toNat 0 g

/-- The loop over the entries on the array. -/
def storeEntries : List MemmapEntry → PageGlobals → PageGlobals
  | [], g => g
  | e :: es, g =>
    match e.type with
    | .usable =>
      match storeEntry e g.list with
      | (list, true) => { g with list := list }
      | (list, false) => storeEntries es { g with list := list }
    | .badMemory =>
      storeEntries es { g with log := g.log ++
        [⟨"memory", "Bad memory at %llu \n", [e.base]⟩,
          ⟨"memory", "Length %llu \r\n", [e.length]⟩] }
    | _ => storeEntries es g

/-- `memory_init` on the array, from the globals before the kernel runs. -/
def memoryInitStores (memmap : List MemmapEntry) (hhdm : U64) : CInt × PageGlobals :=
  (0, { storeEntries memmap { PageGlobals.zero with hhdm := hhdm } with inited := true })

/-! ## The array and the list -/

namespace PageList

/-- The filled part of the array is the list, and no store has left the array. -/
structure Lists (g : PageList) (l : List Page) : Prop where
  pages_eq : g.pages.toNat = l.length
  length_le : l.length ≤ maxPages
  slot_eq : ∀ i (h : i < l.length), g.slot i = l[i]
  written_lt : ∀ i ∈ g.written, i < maxPages

variable {g : PageList} {l : List Page}

theorem Lists.full_iff (h : g.Lists l) : 10000 ≤ g.pages ↔ maxPages ≤ l.length := by
  rw [BitVec.le_def, h.pages_eq]
  rfl

theorem Lists.not_over (h : g.Lists l) : ¬ 10000 < g.pages := by
  rw [BitVec.lt_def, h.pages_eq, Nat.not_lt]
  exact h.length_le

theorem Lists.append (h : g.Lists l) (hroom : l.length < maxPages) (a : U64) :
    (g.append a).Lists (l ++ [⟨a, false⟩]) where
  pages_eq := by
    unfold maxPages at hroom
    show (g.pages + 1).toNat = _
    rw [BitVec.toNat_add, h.pages_eq, List.length_append, List.length_singleton]
    exact Nat.mod_eq_of_lt (show l.length + 1 < 2 ^ 64 by omega)
  length_le := by
    rw [List.length_append, List.length_singleton]
    exact hroom
  slot_eq := by
    intro i hi
    rw [List.length_append, List.length_singleton] at hi
    show Function.update g.slot g.pages.toNat ⟨a, false⟩ i = _
    rw [h.pages_eq]
    by_cases hlast : i = l.length
    · subst hlast
      rw [Function.update_self, List.getElem_concat_length rfl]
    · rw [Function.update_of_ne hlast, List.getElem_append_left (by omega)]
      exact h.slot_eq i (by omega)
  written_lt := by
    intro i hi
    rcases List.mem_append.mp hi with hi | hi
    · exact h.written_lt i hi
    · rw [List.mem_singleton.mp hi, h.pages_eq]
      exact hroom

end PageList

open PageList

/-- One frame loop on the array is the one on the list. -/
theorem storeFrames_lists (base : U64) (n : ℕ) (p : U64) {g : PageList} {l : List Page}
    (h : g.Lists l) :
    (storeFrames base n p g).1.Lists (addFrames base n p l).1 ∧
      (storeFrames base n p g).2 = (addFrames base n p l).2 := by
  induction n generalizing p g l with
  | zero => exact ⟨h, rfl⟩
  | succ n ih =>
    unfold storeFrames addFrames
    by_cases hfull : maxPages ≤ l.length
    · rw [if_pos hfull, if_pos (h.full_iff.mpr hfull)]
      exact ⟨h, rfl⟩
    · rw [if_neg hfull, if_neg (mt h.full_iff.mp hfull)]
      by_cases hlow : base + p * 4 * 1024 < 0x100000
      · simp only [if_pos hlow]
        exact ih (p + 1) h
      · simp only [if_neg hlow]
        exact ih (p + 1) (h.append (by omega) _)

theorem storeEntry_lists (e : MemmapEntry) {g : PageList} {l : List Page} (h : g.Lists l) :
    (storeEntry e g).1.Lists (addEntry e l).1 ∧ (storeEntry e g).2 = (addEntry e l).2 := by
  unfold storeEntry addEntry
  have hle := h.length_le
  rw [if_neg h.not_over, if_neg (by omega)]
  cases alignEntry e.base e.length with
  | none => exact ⟨h, rfl⟩
  | some bl => exact storeFrames_lists _ _ _ h

/-- The globals with the array stand for the globals with the list. -/
structure PageGlobals.Simulates (g : PageGlobals) (m : MemoryGlobals) : Prop where
  lists : g.list.Lists m.pages
  hhdm_eq : g.hhdm = m.hhdm
  inited_eq : g.inited = m.inited
  log_eq : g.log = m.log

theorem storeEntries_simulates (memmap : List MemmapEntry) {g : PageGlobals} {m : MemoryGlobals}
    (h : g.Simulates m) : (storeEntries memmap g).Simulates (initEntries memmap m) := by
  induction memmap generalizing g m with
  | nil => exact h
  | cons e es ih =>
    unfold storeEntries initEntries
    cases e.type with
    | usable =>
      obtain ⟨hlists, hjump⟩ := storeEntry_lists e h.lists
      rcases hs : storeEntry e g.list with ⟨list, jump⟩
      rcases ha : addEntry e m.pages with ⟨pages, jump'⟩
      rw [hs, ha] at hlists hjump
      obtain rfl : jump = jump' := hjump
      cases jump with
      | true => exact { h with lists := hlists }
      | false => exact ih { h with lists := hlists }
    | badMemory => exact ih { h with log_eq := by simp only [h.log_eq] }
    | _ => exact ih h

/-- `memory_init` on the array is `memory_init` on the list. -/
theorem memoryInitStores_simulates (memmap : List MemmapEntry) (hhdm : U64) :
    (memoryInitStores memmap hhdm).2.Simulates (memoryInit memmap hhdm).2 := by
  have hzero : ({ PageGlobals.zero with hhdm := hhdm }).Simulates ⟨[], hhdm, false, []⟩ :=
    ⟨⟨rfl, Nat.zero_le _, fun _ hi => absurd hi (Nat.not_lt_zero _),
      fun _ hi => absurd hi List.not_mem_nil⟩, rfl, rfl, rfl⟩
  have hrun := storeEntries_simulates memmap hzero
  exact { hrun with inited_eq := rfl }

/-! ## The maps of the boot loader -/

/-- What Limine promises about the usable entries of its map. -/
structure LimineMap (memmap : List MemmapEntry) : Prop where
  base_aligned : ∀ e ∈ usable memmap, 4096 ∣ e.base.toNat
  length_aligned : ∀ e ∈ usable memmap, 4096 ∣ e.length.toNat
  sorted : (usable memmap).Pairwise fun e f => e.base ≤ f.base
  disjoint : (usable memmap).Pairwise MemmapEntry.Disjoint
  end_lt : ∀ e ∈ usable memmap, e.base.toNat + e.length.toNat < 2 ^ 52

/-- Far from the end of the address space the consecutive frames are evenly spaced. -/
theorem consecutive_eq_range {a n : ℕ} (h : a + 4096 * n ≤ 2 ^ 64) :
    consecutive a n = (List.range n).map fun k => a + 4096 * k := by
  induction n generalizing a with
  | zero => rfl
  | succ n ih =>
    have hnext : consecutive (if a + 4096 < 2 ^ 64 then a + 4096 else 0x100000) n =
        consecutive (a + 4096) n := by
      cases n with
      | zero => rw [consecutive, consecutive]
      | succ n => rw [if_pos (by omega)]
    have hrest := ih (a := a + 4096) (by omega)
    rw [consecutive, hnext, hrest, List.range_succ_eq_map, List.map_cons, List.map_map]
    congr 1
    refine List.map_congr_left fun k _ => ?_
    rw [Function.comp_apply, Nat.succ_eq_add_one]
    ring

namespace LimineMap

variable {memmap : List MemmapEntry}

/-- A live entry of such a map alone fills the list. -/
theorem take_scanned (h : LimineMap memmap) {e : MemmapEntry} (he : e ∈ live memmap) :
    e.start < 2 ^ 52 ∧ 4096 ∣ e.start ∧ maxPages ≤ e.scanned.length ∧
      e.scanned.take maxPages = (List.range maxPages).map fun k => e.start + 4096 * k := by
  have hu : e ∈ usable memmap := List.mem_of_mem_filter he
  have hrest := live_rest e he
  obtain ⟨b, hb⟩ := h.base_aligned e hu
  obtain ⟨n, hn⟩ := h.length_aligned e hu
  have hend := h.end_lt e hu
  have hlo : e.lo = e.base.toNat := by unfold MemmapEntry.lo; omega
  have hr : e.rest = e.length.toNat := by unfold MemmapEntry.rest; omega
  have hcount : maxPages ≤ e.scanned.length := by
    have hpc : 11264 ≤ e.pageCount := by unfold MemmapEntry.pageCount; omega
    have h1 := MemmapEntry.countFrom_ge e.dvd_lo (by omega) (n := 11264) (by norm_num)
    have h2 := MemmapEntry.countFrom_mono e.lo hpc
    unfold MemmapEntry.scanned maxPages
    rw [length_upFrom]
    omega
  have hstart : e.start < 2 ^ 52 := by unfold MemmapEntry.start; omega
  refine ⟨hstart, by unfold MemmapEntry.start; omega, hcount, ?_⟩
  have hcons : e.scanned = consecutive e.start e.scanned.length := by
    have := upFrom_eq_consecutive e.dvd_lo e.pageCount
    rwa [Nat.mod_eq_of_lt (show e.lo < 2 ^ 64 by omega)] at this
  rw [hcons, take_consecutive _ hcount, consecutive_eq_range (by unfold maxPages; omega)]

/-- The list is empty, or ten thousand consecutive frames far from the end of the address space. -/
theorem memoryInit_pages_eq (h : LimineMap memmap) (hhdm : U64) :
    (memoryInit memmap hhdm).2.pages = [] ∨
      ∃ a, 0x100000 ≤ a ∧ a < 2 ^ 52 ∧ 4096 ∣ a ∧ (memoryInit memmap hhdm).2.pages =
        (List.range maxPages).map fun k => unusedPage (a + 4096 * k) := by
  rw [memoryInit_pages]
  cases hlive : live memmap with
  | nil => exact Or.inl rfl
  | cons e es =>
    obtain ⟨hlt, hdvd, hlen, htake⟩ := h.take_scanned (e := e) (hlive ▸ List.mem_cons_self)
    refine Or.inr ⟨e.start, le_max_right _ _, hlt, hdvd, ?_⟩
    rw [List.flatMap_cons, List.take_append_of_le_length hlen, htake, List.map_map]
    rfl

end LimineMap

/-- What `KGetPage` and `retpage` rely on, and that no store has left the array. -/
structure PageList.Frames (g : PageList) : Prop where
  pages_le : g.pages.toNat ≤ maxPages
  written_lt : ∀ i ∈ g.written, i < maxPages
  start_lt : ∀ i j, i < j → j < g.pages.toNat → (g.slot i).start < (g.slot j).start
  aligned : ∀ i < g.pages.toNat, 4096 ∣ (g.slot i).start.toNat
  above : ∀ i < g.pages.toNat, 0x100000 ≤ (g.slot i).start.toNat
  unused : ∀ i < g.pages.toNat, (g.slot i).used = false

theorem PageList.Lists.frames {g : PageList} {a n : ℕ}
    (h : g.Lists ((List.range n).map fun k => unusedPage (a + 4096 * k)))
    (hlo : 0x100000 ≤ a) (hhi : a < 2 ^ 52) (hdvd : 4096 ∣ a) : g.Frames := by
  have hle := h.length_le
  have hpages : g.pages.toNat = n := by
    rw [h.pages_eq, List.length_map, List.length_range]
  rw [List.length_map, List.length_range] at hle
  unfold maxPages at hle
  have hslot : ∀ i < n, g.slot i = unusedPage (a + 4096 * i) := by
    intro i hi
    have := h.slot_eq i (by rwa [List.length_map, List.length_range])
    rwa [List.getElem_map, List.getElem_range] at this
  have hstart : ∀ i < n, (g.slot i).start.toNat = a + 4096 * i := by
    intro i hi
    rw [hslot i hi]
    show (BitVec.ofNat 64 _).toNat = _
    rw [BitVec.toNat_ofNat, Nat.mod_eq_of_lt (by omega)]
  refine ⟨by rw [hpages]; exact hle, h.written_lt, ?_, ?_, ?_, ?_⟩
  · intro i j hij hj
    rw [hpages] at hj
    rw [BitVec.lt_def, hstart i (by omega), hstart j hj]
    omega
  · intro i hi
    rw [hstart i (hpages ▸ hi)]
    omega
  · intro i hi
    rw [hstart i (hpages ▸ hi)]
    omega
  · intro i hi
    rw [hslot i (hpages ▸ hi)]
    rfl

theorem PageList.Lists.frames_nil {g : PageList} (h : g.Lists []) : g.Frames := by
  have hpages : g.pages.toNat = 0 := h.pages_eq
  refine ⟨by rw [hpages]; exact Nat.zero_le _, h.written_lt, ?_, ?_, ?_, ?_⟩
  · intro i j _ hj
    omega
  all_goals
    intro i hi
    omega

/-- **The page list the allocator starts from.** On every map of the boot loader `memory_init`
stores only inside `page_list`, and leaves at most 10000 unused frames at or above 1 MiB, aligned
and in strictly increasing order. -/
theorem memoryInitStores_frames {memmap : List MemmapEntry} (h : LimineMap memmap) (hhdm : U64) :
    (memoryInitStores memmap hhdm).2.list.Frames := by
  have hlists := (memoryInitStores_simulates memmap hhdm).lists
  rcases h.memoryInit_pages_eq hhdm with hnil | ⟨a, hlo, hhi, hdvd, hpages⟩
  · rw [hnil] at hlists
    exact hlists.frames_nil
  · rw [hpages] at hlists
    exact hlists.frames hlo hhi hdvd

/-- A small machine: usable memory below 640 KiB and from 1 MiB on. -/
def smallMap : List MemmapEntry :=
  [⟨0x1000, 0x9E000, .usable⟩, ⟨0x9F000, 0x61000, .reserved⟩, ⟨0x100000, 0x7F00000, .usable⟩]

theorem smallMap_limine : LimineMap smallMap := by
  have hu : usable smallMap = [⟨0x1000, 0x9E000, .usable⟩, ⟨0x100000, 0x7F00000, .usable⟩] := rfl
  refine ⟨?_, ?_, ?_, ?_, ?_⟩ <;> rw [hu]
  · decide
  · decide
  · decide
  · rw [List.pairwise_pair]
    intro x
    show ¬ ((0x1000 ≤ x ∧ x < 0x1000 + 0x9E000) ∧ 0x100000 ≤ x ∧ x < 0x100000 + 0x7F00000)
    omega
  · decide

theorem memoryInitStores_smallMap : (memoryInitStores smallMap 0).2.list.Frames :=
  memoryInitStores_frames smallMap_limine 0

end DejOs
