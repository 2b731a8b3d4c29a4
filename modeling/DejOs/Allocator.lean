import DejOs.Lock

/-!
# The page allocator

`page_list` with `KGetPage`, `__giverawpage` and `retpage` of `memory.c`, called by one CPU.
`page_list[0..pages)` is a list of pages; a pointer handed out by `KGetPage` is the start of a page
plus the offset of the higher-half direct map (`hhdm`), and `__giverawpage` hands out the start
itself. An exhausted `KGetPage` returns `NULL` and keeps the lock; the same CPU is let through by
`aquire_lock` the next time, so for one CPU the leak stays invisible (`Lock.Mine`).

`Trace` is a history of calls with their replies, and `outstanding` reads from such a history which
pages have been handed out and not returned since. `allocator_history` says that the flags of
`page_list` record exactly this set, and what every further call does with it.
-/

namespace DejOs

/-- `struct page`. -/
structure Page where
  start : U64
  used : Bool
  deriving DecidableEq, Repr

/-- The allocator's globals, and the CPU that calls it. -/
structure Allocator where
  /-- `page_list[0..pages)`. -/
  pages : List Page
  /-- `memory_lock`. -/
  lock : Lock
  /-- `hhdm->offset`. -/
  hhdm : U64
  cpu : Cpu
  deriving DecidableEq, Repr

namespace Allocator

/-- `page_list[i].used = b`. -/
def setUsed (pages : List Page) (i : ℕ) (b : Bool) : List Page :=
  pages.modify i fun p => { p with used := b }

/-- The scan of `KGetPage` and `__giverawpage`: the first unused index, or `pages`. -/
def firstUnused (pages : List Page) : ℕ := pages.findIdx fun p => p.used == false

/-- `page_list[i].start`. -/
def startAt (pages : List Page) (i : ℕ) : U64 := (pages[i]?.map Page.start).getD 0

/-- The loop of `retpage`: the first index of a page with that start, or `pages`. -/
def findStart (pages : List Page) (addr : U64) : ℕ := pages.findIdx fun p => p.start == addr

/-- `aquire_lock(&memory_lock)`. -/
def lockMemory : Kernel Allocator Unit := fun a =>
  Kernel.zoom Allocator.lock (fun l a => { a with lock := l }) (aquireLock a.cpu) a

/-- `release_lock(&memory_lock)`. -/
def unlockMemory : Kernel Allocator Unit :=
  Kernel.zoom Allocator.lock (fun l a => { a with lock := l }) releaseLock

/-- `KGetPage`. `NULL` is returned without `release_lock`. -/
def kGetPage : Kernel Allocator U64 := do
  lockMemory
  let a ← get
  let i := firstUnused a.pages
  if i = a.pages.length then
    return 0
  else
    set { a with pages := setUsed a.pages i true }
    unlockMemory
    return startAt a.pages i + a.hhdm

/-- `__giverawpage`. -/
def giveRawPage : Kernel Allocator U64 := do
  lockMemory
  let a ← get
  let i := firstUnused a.pages
  if i = a.pages.length then
    throw (.panic "Raw Page requested but allocator exahusted" .nomem)
  else
    set { a with pages := setUsed a.pages i true }
    unlockMemory
    return startAt a.pages i

/-- `retpage`. The loop ends at the first page with that start, so only that one is looked at. -/
def retPage (ptr : U64) : Kernel Allocator Unit := do
  let a ← get
  let i := findStart a.pages (ptr - a.hhdm)
  match a.pages[i]? with
  | none => throw (.panic "Attempted deallocation of nonexistent page" .unknown)
  | some p =>
    if p.used then
      set { a with pages := setUsed a.pages i false }
    else
      throw (.panic "Attemped deallocation of unused page" .unknown)

/-! ## The flags -/

theorem getElem?_setUsed (pages : List Page) (i j : ℕ) (b : Bool) :
    (setUsed pages i b)[j]? =
      if i = j then pages[j]?.map fun p => { p with used := b } else pages[j]? := by
  unfold setUsed
  rw [List.getElem?_modify]
  by_cases h : i = j
  · simp [h]
  · simp [h]

@[simp] theorem map_start_setUsed (pages : List Page) (i : ℕ) (b : Bool) :
    (setUsed pages i b).map Page.start = pages.map Page.start := by
  apply List.ext_getElem?
  intro j
  rw [List.getElem?_map, List.getElem?_map, getElem?_setUsed]
  by_cases h : i = j
  · rw [if_pos h, Option.map_map]; rfl
  · rw [if_neg h]

/-- `i` is the lowest index of an unused page, and `p` is that page. -/
structure FirstUnused (pages : List Page) (i : ℕ) (p : Page) : Prop where
  get : pages[i]? = some p
  unused : p.used = false
  below : ∀ j q, j < i → pages[j]? = some q → q.used = true

/-- The scan finds the lowest unused page, or runs through when every page is used. -/
theorem firstUnused_cases (pages : List Page) :
    (firstUnused pages = pages.length ∧ ∀ p ∈ pages, p.used = true) ∨
      ∃ p, FirstUnused pages (firstUnused pages) p := by
  rcases Nat.lt_or_ge (firstUnused pages) pages.length with hlt | hge
  · refine Or.inr ⟨pages[firstUnused pages], List.getElem?_eq_getElem hlt, ?_, ?_⟩
    · have h := List.findIdx_getElem (p := fun p : Page => p.used == false) (w := hlt)
      simpa [firstUnused] using h
    · intro j q hj hq
      obtain ⟨hjl, rfl⟩ := List.getElem?_eq_some_iff.mp hq
      have h := List.not_of_lt_findIdx (p := fun p : Page => p.used == false) hj
      simpa using h
  · have heq : firstUnused pages = pages.length := le_antisymm List.findIdx_le_length hge
    refine Or.inl ⟨heq, fun p hp => ?_⟩
    have h := List.findIdx_eq_length.mp heq p hp
    simpa using h

theorem firstUnused_of_all {pages : List Page} (hall : ∀ p ∈ pages, p.used = true) :
    firstUnused pages = pages.length := by
  rcases firstUnused_cases pages with ⟨h, _⟩ | ⟨p, hp⟩
  · exact h
  · have hu := hall p (List.mem_of_getElem? hp.get)
    rw [hp.unused] at hu
    cases hu

theorem FirstUnused.ne_length {pages : List Page} {i : ℕ} {p : Page} (h : FirstUnused pages i p) :
    i ≠ pages.length := by
  obtain ⟨hi, _⟩ := List.getElem?_eq_some_iff.mp h.get
  omega

theorem FirstUnused.startAt {pages : List Page} {i : ℕ} {p : Page} (h : FirstUnused pages i p) :
    startAt pages i = p.start := by
  unfold Allocator.startAt; rw [h.get]; rfl

/-! ## One call -/

section Calls

variable {a : Allocator}

theorem lockMemory_mine (h : a.lock.Mine a.cpu) :
    ∃ l, lockMemory a = .ok () { a with lock := l } ∧ l.Mine a.cpu := by
  obtain ⟨l, hl, hm⟩ := aquireLock_mine h
  exact ⟨l, Kernel.zoom_of_ok hl, hm⟩

/-- An exhausted `KGetPage` returns `NULL`; of the state only the lock may have changed. -/
theorem kGetPage_exhausted (h : a.lock.Mine a.cpu) (hall : ∀ p ∈ a.pages, p.used = true) :
    ∃ l, kGetPage a = .ok 0 { a with lock := l } ∧ l.Mine a.cpu := by
  obtain ⟨l, hl, hm⟩ := lockMemory_mine h
  refine ⟨l, ?_, hm⟩
  unfold kGetPage
  rw [Kernel.bind_of_ok hl]
  show (if firstUnused a.pages = a.pages.length then _ else _ : Kernel Allocator U64) _ = _
  rw [if_pos (firstUnused_of_all hall)]
  rfl

theorem kGetPage_success (h : a.lock.Mine a.cpu) {p : Page}
    (hp : FirstUnused a.pages (firstUnused a.pages) p) :
    kGetPage a = .ok (p.start + a.hhdm)
      { a with pages := setUsed a.pages (firstUnused a.pages) true, lock := .free } := by
  obtain ⟨l, hl, -⟩ := lockMemory_mine h
  unfold kGetPage
  rw [Kernel.bind_of_ok hl]
  show (if firstUnused a.pages = a.pages.length then _ else _ : Kernel Allocator U64) _ = _
  rw [if_neg hp.ne_length, ← hp.startAt]
  rfl

theorem giveRawPage_exhausted (h : a.lock.Mine a.cpu) (hall : ∀ p ∈ a.pages, p.used = true) :
    ∃ l, giveRawPage a =
      .error (.panic "Raw Page requested but allocator exahusted" .nomem) { a with lock := l } := by
  obtain ⟨l, hl, -⟩ := lockMemory_mine h
  refine ⟨l, ?_⟩
  unfold giveRawPage
  rw [Kernel.bind_of_ok hl]
  show (if firstUnused a.pages = a.pages.length then _ else _ : Kernel Allocator U64) _ = _
  rw [if_pos (firstUnused_of_all hall)]
  rfl

theorem giveRawPage_success (h : a.lock.Mine a.cpu) {p : Page}
    (hp : FirstUnused a.pages (firstUnused a.pages) p) :
    giveRawPage a = .ok p.start
      { a with pages := setUsed a.pages (firstUnused a.pages) true, lock := .free } := by
  obtain ⟨l, hl, -⟩ := lockMemory_mine h
  unfold giveRawPage
  rw [Kernel.bind_of_ok hl]
  show (if firstUnused a.pages = a.pages.length then _ else _ : Kernel Allocator U64) _ = _
  rw [if_neg hp.ne_length, ← hp.startAt]
  rfl

theorem giveRawPage_hhdm {a' : Allocator} {u : U64} (h : giveRawPage a = .ok u a') :
    a'.hhdm = a.hhdm := by
  obtain ⟨x, a₁, h₁, h⟩ := Kernel.bind_eq_ok.mp h
  have hlock : a₁.hhdm = a.hhdm := by
    unfold lockMemory Kernel.zoom at h₁
    split at h₁
    · obtain ⟨-, rfl⟩ := EStateM.Result.ok.inj h₁
      rfl
    · cases h₁
  have h : (if firstUnused a₁.pages = a₁.pages.length then _ else _ : Kernel Allocator U64) a₁ =
    .ok u a' := h
  split_ifs at h
  · cases h
  · obtain ⟨-, rfl⟩ := EStateM.Result.ok.inj h
    exact hlock

theorem retPage_success {ptr : U64} {p : Page}
    (hp : a.pages[findStart a.pages (ptr - a.hhdm)]? = some p) (hu : p.used = true) :
    retPage ptr a =
      .ok () { a with pages := setUsed a.pages (findStart a.pages (ptr - a.hhdm)) false } := by
  unfold retPage
  show (match a.pages[findStart a.pages (ptr - a.hhdm)]? with
    | none => _
    | some p => _ : Kernel Allocator Unit) a = _
  rw [hp]
  simp only [hu, if_true]
  rfl

theorem retPage_panic {ptr : U64}
    (hp : ∀ p, a.pages[findStart a.pages (ptr - a.hhdm)]? = some p → p.used = false) :
    ∃ msg, retPage ptr a = .error (.panic msg .unknown) a := by
  unfold retPage
  show ∃ msg, (match a.pages[findStart a.pages (ptr - a.hhdm)]? with
    | none => _
    | some p => _ : Kernel Allocator Unit) a = _
  cases hg : a.pages[findStart a.pages (ptr - a.hhdm)]? with
  | none => exact ⟨_, rfl⟩
  | some p =>
    simp only [hp p hg, Bool.false_eq_true, if_false]
    exact ⟨_, rfl⟩

end Calls

/-! ## Histories -/

/-- A call of the allocator. -/
inductive Call
  | kGetPage
  | giveRawPage
  | retPage (ptr : U64)
  deriving DecidableEq, Repr

/-- The call's body; the reply of `retpage`, which returns nothing, is `0`. -/
def Call.run : Call → Kernel Allocator U64
  | .kGetPage => Allocator.kGetPage
  | .giveRawPage => Allocator.giveRawPage
  | .retPage ptr => do
    Allocator.retPage ptr
    return 0

/-- `a` is reached from `a₀` by calls that all returned; the trace lists them with their replies. -/
inductive Trace (a₀ : Allocator) : List (Call × U64) → Allocator → Prop
  | nil : Trace a₀ [] a₀
  | snoc {tr : List (Call × U64)} {a a' : Allocator} {c : Call} {v : U64} :
      Trace a₀ tr a → c.run a = .ok v a' → Trace a₀ (tr ++ [(c, v)]) a'

/-- The starts of the pages handed out and not returned, after one more call. -/
def handOut (hhdm : U64) (out : List U64) : Call × U64 → List U64
  | (.kGetPage, v) => if v = 0 then out else (v - hhdm) :: out
  | (.giveRawPage, v) => v :: out
  | (.retPage ptr, _) => out.filter (· ≠ ptr - hhdm)

/-- The starts of the pages a history has handed out and not returned since. -/
def outstanding (hhdm : U64) (tr : List (Call × U64)) : List U64 := tr.foldl (handOut hhdm) []

theorem outstanding_snoc (hhdm : U64) (tr : List (Call × U64)) (e : Call × U64) :
    outstanding hhdm (tr ++ [e]) = handOut hhdm (outstanding hhdm tr) e := by
  unfold outstanding; rw [List.foldl_append]; rfl

/-- `v` is the start of the lowest-indexed page that is not outstanding. -/
def LowestFree (pages : List Page) (out : List U64) (v : U64) : Prop :=
  ∃ (i : ℕ) (p : Page), pages[i]? = some p ∧ p.start = v ∧ v ∉ out ∧
    ∀ (j : ℕ) (q : Page), j < i → pages[j]? = some q → q.start ∈ out

/-- What `page_list` and the lock record of a history that started in `a₀`. -/
structure Records (a₀ a : Allocator) (out : List U64) : Prop where
  starts : a.pages.map Page.start = a₀.pages.map Page.start
  hhdm : a.hhdm = a₀.hhdm
  flags : ∀ p ∈ a.pages, p.used = true ↔ p.start ∈ out
  mine : a.lock.Mine a.cpu

theorem mem_setUsed_cases {pages : List Page} {i : ℕ} {b : Bool} {p q : Page}
    (hp : pages[i]? = some p) (hq : q ∈ setUsed pages i b) :
    q = { p with used := b } ∨ ∃ j, j ≠ i ∧ pages[j]? = some q := by
  obtain ⟨j, hj⟩ := List.getElem?_of_mem hq
  rw [getElem?_setUsed] at hj
  by_cases h : i = j
  · subst h
    rw [if_pos rfl, hp] at hj
    exact Or.inl (Option.some.inj hj).symm
  · rw [if_neg h] at hj
    exact Or.inr ⟨j, fun e => h e.symm, hj⟩

theorem start_ne {pages : List Page} (hn : (pages.map Page.start).Nodup) {i j : ℕ} {p q : Page}
    (hp : pages[i]? = some p) (hq : pages[j]? = some q) (h : j ≠ i) : q.start ≠ p.start := by
  intro he
  apply h
  have hj : j < (pages.map Page.start).length := by
    obtain ⟨hj, _⟩ := List.getElem?_eq_some_iff.mp hq
    simpa using hj
  refine (List.getElem?_inj hj hn).mp ?_
  rw [List.getElem?_map, List.getElem?_map, hp, hq]
  exact congrArg some he

theorem setUsed_eq_map {pages : List Page} (hn : (pages.map Page.start).Nodup) {i : ℕ} {p : Page}
    (hp : pages[i]? = some p) {addr : U64} (hs : p.start = addr) (b : Bool) :
    setUsed pages i b = pages.map fun p => if p.start = addr then { p with used := b } else p := by
  apply List.ext_getElem?
  intro j
  rw [getElem?_setUsed, List.getElem?_map]
  by_cases h : i = j
  · subst h
    rw [if_pos rfl, hp]
    simp [hs]
  · rw [if_neg h]
    cases hq : pages[j]? with
    | none => rfl
    | some q =>
      have hne : q.start ≠ addr := hs ▸ start_ne hn hp hq fun e => h e.symm
      simp [hne]

theorem findStart_cases (pages : List Page) (addr : U64) :
    (∀ p ∈ pages, p.start ≠ addr) ∧ pages[findStart pages addr]? = none ∨
      ∃ p, pages[findStart pages addr]? = some p ∧ p.start = addr := by
  rcases Nat.lt_or_ge (findStart pages addr) pages.length with hlt | hge
  · refine Or.inr ⟨pages[findStart pages addr], List.getElem?_eq_getElem hlt, ?_⟩
    exact beq_iff_eq.mp (List.findIdx_getElem (p := fun p : Page => p.start == addr) (w := hlt))
  · have heq : findStart pages addr = pages.length := le_antisymm List.findIdx_le_length hge
    refine Or.inl ⟨fun p hp => ?_, by rw [heq]; exact List.getElem?_eq_none le_rfl⟩
    have h := List.findIdx_eq_length.mp heq p hp
    simpa using h

section History

variable {a₀ a a' : Allocator} {out : List U64}

/-- Marking the lowest unused page hands out its start. -/
theorem Records.mark (hn : (a₀.pages.map Page.start).Nodup) (h : Records a₀ a out) {p : Page}
    (hp : FirstUnused a.pages (firstUnused a.pages) p) (l : Lock) (hl : l.Mine a.cpu) :
    Records a₀ { a with pages := setUsed a.pages (firstUnused a.pages) true, lock := l }
      (p.start :: out) := by
  have hn' : (a.pages.map Page.start).Nodup := h.starts ▸ hn
  refine ⟨by simpa using h.starts, h.hhdm, fun q hq => ?_, hl⟩
  rcases mem_setUsed_cases hp.get hq with rfl | ⟨j, hj, hq⟩
  · simp
  · rw [h.flags q (List.mem_of_getElem? hq), List.mem_cons]
    exact ⟨Or.inr, fun h => h.resolve_left (start_ne hn' hp.get hq hj)⟩

theorem Records.ret (hn : (a₀.pages.map Page.start).Nodup) (h : Records a₀ a out) {addr : U64}
    {p : Page} (hp : a.pages[findStart a.pages addr]? = some p) (hs : p.start = addr) :
    Records a₀ { a with pages := setUsed a.pages (findStart a.pages addr) false }
      (out.filter (· ≠ addr)) := by
  have hn' : (a.pages.map Page.start).Nodup := h.starts ▸ hn
  refine ⟨by simpa using h.starts, h.hhdm, fun q hq => ?_, h.mine⟩
  rw [List.mem_filter]
  rcases mem_setUsed_cases hp hq with rfl | ⟨j, hj, hq⟩
  · simp [hs]
  · have hne : q.start ≠ addr := hs ▸ start_ne hn' hp hq hj
    rw [h.flags q (List.mem_of_getElem? hq)]
    simp [hne]

theorem Records.lowestFree (h : Records a₀ a out) {p : Page}
    (hp : FirstUnused a.pages (firstUnused a.pages) p) : LowestFree a.pages out p.start := by
  refine ⟨_, p, hp.get, rfl, fun hm => ?_, fun j q hj hq => ?_⟩
  · have hu := (h.flags p (List.mem_of_getElem? hp.get)).mpr hm
    rw [hp.unused] at hu
    cases hu
  · exact (h.flags q (List.mem_of_getElem? hq)).mp (hp.below j q hj hq)

theorem Records.all_used_iff (h : Records a₀ a out) :
    (∀ p ∈ a.pages, p.used = true) ↔ ∀ p ∈ a.pages, p.start ∈ out :=
  forall₂_congr fun p hp => h.flags p hp

theorem Records.retPage_cases (hn : (a₀.pages.map Page.start).Nodup) (h : Records a₀ a out)
    (ptr : U64) :
    (∃ p ∈ a.pages, p.start = ptr - a.hhdm ∧ p.start ∈ out ∧
      retPage ptr a =
        .ok () { a with pages := setUsed a.pages (findStart a.pages (ptr - a.hhdm)) false } ∧
      a.pages[findStart a.pages (ptr - a.hhdm)]? = some p) ∨
    (∀ p ∈ a.pages, p.start = ptr - a.hhdm → p.start ∉ out) ∧
      ∃ msg, retPage ptr a = .error (.panic msg .unknown) a := by
  have hn' : (a.pages.map Page.start).Nodup := h.starts ▸ hn
  rcases findStart_cases a.pages (ptr - a.hhdm) with ⟨hno, hnone⟩ | ⟨p, hp, hs⟩
  · refine Or.inr ⟨fun p hp hs => absurd hs (hno p hp), retPage_panic fun p hp => ?_⟩
    rw [hnone] at hp
    cases hp
  · have hm := List.mem_of_getElem? hp
    by_cases hu : p.used = true
    · exact Or.inl ⟨p, hm, hs, (h.flags p hm).mp hu, retPage_success hp hu, hp⟩
    · refine Or.inr ⟨fun q hq hqs hout => hu ?_, retPage_panic fun q hq => ?_⟩
      · obtain ⟨j, hj⟩ := List.getElem?_of_mem hq
        rcases eq_or_ne j (findStart a.pages (ptr - a.hhdm)) with rfl | hne
        · obtain rfl : p = q := Option.some.inj (hp.symm.trans hj)
          exact (h.flags p hm).mpr hout
        · exact absurd (hqs.trans hs.symm) (start_ne hn' hp hj hne)
      · obtain rfl : p = q := Option.some.inj (hp.symm.trans hq)
        exact Bool.not_eq_true _ ▸ hu

theorem Records.start_add_hhdm_ne (hz : ∀ p ∈ a₀.pages, p.start + a₀.hhdm ≠ 0)
    (h : Records a₀ a out) {p : Page} (hp : p ∈ a.pages) : p.start + a.hhdm ≠ 0 := by
  have hm : p.start ∈ a₀.pages.map Page.start := h.starts ▸ List.mem_map_of_mem hp
  obtain ⟨q, hq, he⟩ := List.mem_map.mp hm
  rw [h.hhdm, ← he]
  exact hz q hq

theorem Records.kGetPage_cases (hz : ∀ p ∈ a₀.pages, p.start + a₀.hhdm ≠ 0)
    (h : Records a₀ a out) :
    (∀ p ∈ a.pages, p.start ∈ out) ∧
      (∃ l, kGetPage a = .ok 0 { a with lock := l } ∧ l.Mine a.cpu) ∨
    ∃ p, FirstUnused a.pages (firstUnused a.pages) p ∧ p.start + a.hhdm ≠ 0 ∧
      kGetPage a = .ok (p.start + a.hhdm)
        { a with pages := setUsed a.pages (firstUnused a.pages) true, lock := .free } := by
  rcases firstUnused_cases a.pages with ⟨-, hall⟩ | ⟨p, hp⟩
  · exact Or.inl ⟨h.all_used_iff.mp hall, kGetPage_exhausted h.mine hall⟩
  · exact Or.inr ⟨p, hp, h.start_add_hhdm_ne hz (List.mem_of_getElem? hp.get),
      kGetPage_success h.mine hp⟩

theorem Records.giveRawPage_cases (h : Records a₀ a out) :
    (∀ p ∈ a.pages, p.start ∈ out) ∧
      (∃ msg l, giveRawPage a = .error (.panic msg .nomem) { a with lock := l }) ∨
    ∃ p, FirstUnused a.pages (firstUnused a.pages) p ∧
      giveRawPage a = .ok p.start
        { a with pages := setUsed a.pages (firstUnused a.pages) true, lock := .free } := by
  rcases firstUnused_cases a.pages with ⟨-, hall⟩ | ⟨p, hp⟩
  · exact Or.inl ⟨h.all_used_iff.mp hall, _, giveRawPage_exhausted h.mine hall⟩
  · exact Or.inr ⟨p, hp, giveRawPage_success h.mine hp⟩

theorem Records.step (hn : (a₀.pages.map Page.start).Nodup)
    (hz : ∀ p ∈ a₀.pages, p.start + a₀.hhdm ≠ 0) (h : Records a₀ a out) {c : Call} {v : U64}
    (hc : c.run a = .ok v a') : Records a₀ a' (handOut a₀.hhdm out (c, v)) := by
  cases c with
  | kGetPage =>
    rcases h.kGetPage_cases hz with ⟨-, l, hl, hm⟩ | ⟨p, hp, hne, hr⟩
    · obtain ⟨rfl, rfl⟩ : 0 = v ∧ { a with lock := l } = a' := by
        simpa using hl.symm.trans hc
      exact ⟨h.starts, h.hhdm, h.flags, hm⟩
    · obtain ⟨rfl, rfl⟩ := EStateM.Result.ok.inj (hr.symm.trans hc)
      have he : handOut a₀.hhdm out (.kGetPage, p.start + a.hhdm) = p.start :: out := by
        show (if p.start + a.hhdm = 0 then out else (p.start + a.hhdm - a₀.hhdm) :: out) = _
        rw [if_neg hne, ← h.hhdm, BitVec.add_sub_cancel]
      rw [he]
      exact h.mark hn hp _ (Or.inl rfl)
  | giveRawPage =>
    rcases h.giveRawPage_cases with ⟨-, msg, l, hl⟩ | ⟨p, hp, hr⟩
    · cases hl.symm.trans hc
    · obtain ⟨rfl, rfl⟩ := EStateM.Result.ok.inj (hr.symm.trans hc)
      exact h.mark hn hp _ (Or.inl rfl)
  | retPage ptr =>
    obtain ⟨u, t, ht, hv⟩ := Kernel.bind_eq_ok.mp hc
    rcases h.retPage_cases hn ptr with ⟨p, -, hs, -, hr, hp⟩ | ⟨-, msg, hr⟩
    · obtain ⟨-, rfl⟩ := EStateM.Result.ok.inj (hr.symm.trans ht)
      obtain ⟨-, rfl⟩ := EStateM.Result.ok.inj hv
      show Records a₀ _ (out.filter (· ≠ ptr - a₀.hhdm))
      rw [← h.hhdm]
      exact h.ret hn hp hs
    · cases hr.symm.trans ht

theorem records_of_trace (hn : (a₀.pages.map Page.start).Nodup)
    (hz : ∀ p ∈ a₀.pages, p.start + a₀.hhdm ≠ 0) (hu : ∀ p ∈ a₀.pages, p.used = false)
    (hl : a₀.lock = .free) {tr : List (Call × U64)} (ht : Trace a₀ tr a) :
    Records a₀ a (outstanding a₀.hhdm tr) := by
  induction ht with
  | nil => exact ⟨rfl, rfl, fun p hp => by simp [hu p hp, outstanding], Or.inl hl⟩
  | snoc _ hc ih =>
    rw [outstanding_snoc]
    exact ih.step hn hz hc

end History

/-- **The allocator over whole histories.** After any sequence of calls that returned, the starts
and their number are what they were, a page is flagged used exactly when it is outstanding, and
- `KGetPage` returns; it returns `NULL` exactly when all pages are outstanding, and else a pointer
  to the lowest page that is not;
- `__giverawpage` panics exactly then, and else returns the start of that page;
- `retpage` returns exactly on a pointer to the start of an outstanding page and then clears the
  flag of that page only; on any other pointer it panics and changes nothing. -/
theorem allocator_history {a₀ a : Allocator} (hn : (a₀.pages.map Page.start).Nodup)
    (hz : ∀ p ∈ a₀.pages, p.start + a₀.hhdm ≠ 0) (hu : ∀ p ∈ a₀.pages, p.used = false)
    (hl : a₀.lock = .free) {tr : List (Call × U64)} (ht : Trace a₀ tr a) :
    a.pages.map Page.start = a₀.pages.map Page.start ∧
    (∀ p ∈ a.pages, p.used = true ↔ p.start ∈ outstanding a₀.hhdm tr) ∧
    (∃ v a', kGetPage a = .ok v a' ∧
      (v = 0 ↔ ∀ p ∈ a.pages, p.start ∈ outstanding a₀.hhdm tr) ∧
      (v ≠ 0 → LowestFree a.pages (outstanding a₀.hhdm tr) (v - a₀.hhdm))) ∧
    ((∃ msg code a', giveRawPage a = .error (.panic msg code) a') ↔
      ∀ p ∈ a.pages, p.start ∈ outstanding a₀.hhdm tr) ∧
    ((∃ p ∈ a.pages, p.start ∉ outstanding a₀.hhdm tr) →
      ∃ v a', giveRawPage a = .ok v a' ∧ LowestFree a.pages (outstanding a₀.hhdm tr) v) ∧
    ∀ ptr, ((∃ a', retPage ptr a = .ok () a') ↔
        ∃ p ∈ a.pages, p.start = ptr - a₀.hhdm ∧ p.start ∈ outstanding a₀.hhdm tr) ∧
      (∀ a', retPage ptr a = .ok () a' → a'.pages = a.pages.map fun p =>
        if p.start = ptr - a₀.hhdm then { p with used := false } else p) ∧
      ((∀ a', retPage ptr a ≠ .ok () a') →
        ∃ msg code, retPage ptr a = .error (.panic msg code) a) := by
  have h := records_of_trace hn hz hu hl ht
  generalize outstanding a₀.hhdm tr = out at h ⊢
  have hn' : (a.pages.map Page.start).Nodup := h.starts ▸ hn
  refine ⟨h.starts, h.flags, ?_, ?_, ?_, fun ptr => ?_⟩
  · rcases h.kGetPage_cases hz with ⟨hall, l, hr, -⟩ | ⟨p, hp, hne, hr⟩
    · exact ⟨0, _, hr, ⟨fun _ => hall, fun _ => rfl⟩, fun h => absurd rfl h⟩
    · have hlow := h.lowestFree hp
      refine ⟨_, _, hr, ⟨fun h => absurd h hne, fun hall => ?_⟩, fun _ => ?_⟩
      · obtain ⟨i, q, hq, hqs, hno, -⟩ := hlow
        exact absurd (hqs ▸ hall q (List.mem_of_getElem? hq)) hno
      · rwa [← h.hhdm, BitVec.add_sub_cancel]
  · rcases h.giveRawPage_cases with ⟨hall, msg, l, hr⟩ | ⟨p, hp, hr⟩
    · exact ⟨fun _ => hall, fun _ => ⟨_, _, _, hr⟩⟩
    · obtain ⟨i, q, hq, hqs, hno, -⟩ := h.lowestFree hp
      refine ⟨fun ⟨_, _, _, he⟩ => (by cases hr.symm.trans he), fun hall => ?_⟩
      exact absurd (hqs ▸ hall q (List.mem_of_getElem? hq)) hno
  · rintro ⟨q, hq, hno⟩
    rcases h.giveRawPage_cases with ⟨hall, -⟩ | ⟨p, hp, hr⟩
    · exact absurd (hall q hq) hno
    · exact ⟨_, _, hr, h.lowestFree hp⟩
  · rw [← h.hhdm]
    rcases h.retPage_cases hn ptr with ⟨p, hm, hs, hout, hr, hp⟩ | ⟨hno, msg, hr⟩
    · refine ⟨⟨fun _ => ⟨p, hm, hs, hout⟩, fun _ => ⟨_, hr⟩⟩, fun a' ha' => ?_,
        fun hnot => absurd hr (hnot _)⟩
      obtain ⟨-, rfl⟩ := EStateM.Result.ok.inj (hr.symm.trans ha')
      exact setUsed_eq_map hn' hp hs false
    · refine ⟨⟨fun ⟨a', ha'⟩ => (by cases hr.symm.trans ha'), fun ⟨p, hm, hs, hout⟩ => ?_⟩,
        fun a' ha' => (by cases hr.symm.trans ha'), fun _ => ⟨_, _, hr⟩⟩
      exact absurd hout (hno p hm hs)

/-- Two pages at 1 MiB, seen through a direct map at `0xFFFF800000000000`. -/
def twoPages : Allocator where
  pages := [⟨0x100000, false⟩, ⟨0x101000, false⟩]
  lock := .free
  hhdm := 0xFFFF800000000000
  cpu := ⟨0, 0⟩

/-- Both pages handed out, a third request refused, the first page returned. -/
def twoPagesCalls : List (Call × U64) :=
  [(.kGetPage, 0xFFFF800000100000), (.giveRawPage, 0x101000), (.kGetPage, 0),
    (.retPage 0xFFFF800000100000, 0)]

/-- The state after them; the refused request left the lock held. -/
def twoPagesAfter : Allocator :=
  { twoPages with
    pages := [⟨0x100000, false⟩, ⟨0x101000, true⟩]
    lock := ⟨true, 0⟩ }

theorem twoPages_trace : Trace twoPages twoPagesCalls twoPagesAfter :=
  (((Trace.nil.snoc rfl).snoc rfl).snoc rfl).snoc rfl

theorem allocator_history_twoPages :
    twoPagesAfter.pages.map Page.start = twoPages.pages.map Page.start ∧
    ∃ v a', kGetPage twoPagesAfter = .ok v a' ∧
      (v = 0 ↔ ∀ p ∈ twoPagesAfter.pages, p.start ∈ outstanding twoPages.hhdm twoPagesCalls) ∧
      (v ≠ 0 → LowestFree twoPagesAfter.pages (outstanding twoPages.hhdm twoPagesCalls)
        (v - twoPages.hhdm)) :=
  have h := allocator_history (by decide) (by decide) (by decide) rfl
    twoPages_trace
  ⟨h.1, h.2.2.1⟩

end Allocator

end DejOs
