import DejOs.PageTable
import DejOs.Allocator

/-!
# `map_page`

`mapPage` is three times `nextTable`, which takes a table from `__giverawpage` when an entry is not
present, and the write of the leaf. Page tables are reached through the direct map (`phys2virt`),
so the model reads and writes them in physical memory.

The proof follows the code down the levels: `WellFormed` is kept by every link of a fresh table
(`WellFormed.link`) and by the leaf (`WellFormed.leaf`), and `Grows` collects what the rest of
memory may see of it. The allocator enters only as the list of its free frames (`Vm.free`), of
which a call uses `missing`. `mapPage_correct` puts the cases together.
-/

namespace DejOs

open RadixTable

/-! ## The kernel's memory state -/

/-- Physical memory, the allocator, the paging registers and the globals of `memory.c`. -/
structure Vm where
  alloc : Allocator
  mem : Mem
  cr3 : U64
  /-- `newpml4.pml4_phys` -/
  newpml4 : U64
  /-- `user_as.pml4_phys` -/
  userAs : U64
  offst : U64
  userCr3 : U64
  uBuf : U64

/-- The starts of the unused pages, in the order they are handed out. -/
def freeFrames (pages : List Page) : List U64 := (pages.filter fun p => !p.used).map Page.start

/-- The frames the allocator can still hand out. -/
def Vm.free (s : Vm) : List U64 := freeFrames s.alloc.pages

/-- `__giverawpage` -/
def giveRawPage : Kernel Vm U64 :=
  Kernel.zoom Vm.alloc (fun a s => { s with alloc := a }) Allocator.giveRawPage

/-- `memset(phys2virt(page), 0, PAGE_SIZE)` -/
def memsetPage (page : U64) : Kernel Vm Unit :=
  modify fun s => { s with mem := Function.update s.mem page fun _ => 0 }

/-- `table[i] = e` -/
def store (table : U64) (i : Fin 512) (e : U64) : Kernel Vm Unit :=
  modify fun s => { s with mem := put s.mem table i e }

/-- One of the three steps of `map_page` from a table to the next: the entry is filled with a new
table if it is not present, and read again. -/
def nextTable (table : U64) (i : Fin 512) : Kernel Vm U64 := do
  let s ← get
  if present (s.mem table i) = false then
    let page ← giveRawPage
    memsetPage page
    store table i (page ||| pagePresent ||| pageWrite ||| pageUser)
  let s ← get
  return s.mem table i &&& ~~~0xFFF

/-- `map_page` -/
def mapPage (pml4 virt phys flags : U64) : Kernel Vm CInt := do
  let pdpt ← nextTable pml4 (index virt 39)
  let pd ← nextTable pdpt (index virt 30)
  let pt ← nextTable pd (index virt 21)
  let s ← get
  if present (s.mem pt (index virt 12)) then
    return -1
  store pt (index virt 12) (phys ||| flags)
  return 0

/-! ### The allocator as a list of free frames -/

section Free

open Allocator

theorem freeFrames_of_firstUnused {pages : List Page} {i : ℕ} {p : Page}
    (h : FirstUnused pages i p) :
    freeFrames pages = p.start :: freeFrames (setUsed pages i true) := by
  induction pages generalizing i with
  | nil => simpa using h.get
  | cons q pages ih =>
    cases i with
    | zero =>
      obtain rfl : q = p := by simpa using h.get
      simp [freeFrames, setUsed, h.unused]
    | succ i =>
      have hq : q.used = true := h.below 0 q (by omega) rfl
      have htail : FirstUnused pages i p :=
        ⟨by simpa using h.get, h.unused, fun j r hj hr =>
          h.below (j + 1) r (by omega) (by simpa using hr)⟩
      simpa [freeFrames, setUsed, hq] using ih htail

theorem freeFrames_eq_nil_iff {pages : List Page} :
    freeFrames pages = [] ↔ ∀ p ∈ pages, p.used = true := by
  simp [freeFrames]

theorem firstUnused_of_free {pages : List Page} {f : U64} {rest : List U64}
    (hf : freeFrames pages = f :: rest) : ∃ p, FirstUnused pages (firstUnused pages) p ∧
      p.start = f ∧ freeFrames (setUsed pages (firstUnused pages) true) = rest := by
  rcases firstUnused_cases pages with ⟨-, hall⟩ | ⟨p, hp⟩
  · have hnil := freeFrames_eq_nil_iff.mpr hall
    simp [hnil] at hf
  · rw [freeFrames_of_firstUnused hp, List.cons.injEq] at hf
    exact ⟨p, hp, hf⟩

theorem giveRawPage_of_free {s : Vm} (hl : s.alloc.lock.Mine s.alloc.cpu) {f : U64}
    {rest : List U64} (hf : s.free = f :: rest) :
    ∃ a, giveRawPage s = .ok f { s with alloc := a } ∧ freeFrames a.pages = rest ∧
      a.lock = .free := by
  obtain ⟨p, hp, rfl, hrest⟩ := firstUnused_of_free hf
  exact ⟨_, Kernel.zoom_of_ok (giveRawPage_success hl hp), hrest, rfl⟩

theorem giveRawPage_of_none {s : Vm} (hl : s.alloc.lock.Mine s.alloc.cpu) (hf : s.free = []) :
    ∃ a, giveRawPage s = .error (.panic "Raw Page requested but allocator exahusted" .nomem)
      { s with alloc := a } := by
  obtain ⟨l, hl⟩ := giveRawPage_exhausted hl (freeFrames_eq_nil_iff.mp hf)
  exact ⟨_, Kernel.zoom_of_error hl⟩

end Free

/-! ## Well-formed states -/

/-- The tables below a root form a tree, the entries that lead to the last tables of the addresses
`V` are clean, and the free frames are frames that are none of the tables. -/
structure WellFormed (V : Set U64) (root : U64) (s : Vm) : Prop where
  tree : Tree decode s.mem root
  clean : ∀ v ∈ V, ∀ p j q t, path v = p ++ j :: q → q ≠ [] → tableFrom s.mem root p = some t →
    present (s.mem t j) = true → clean (s.mem t j) = true
  frames : ∀ f ∈ s.free, IsFrame f
  nodup : s.free.Nodup
  apart : ∀ f ∈ s.free, ∀ p, tableFrom s.mem root p ≠ some f
  mine : s.alloc.lock.Mine s.alloc.cpu

/-- What `map_page` may have done to a state, for addresses in `V`: it added tables below the root,
taken from the front of the free frames, and filled entries on the way of these addresses that were
not present. -/
structure Grows (V : Set U64) (root : U64) (s s' : Vm) : Prop where
  tables : ∀ p t, tableFrom s.mem root p = some t → tableFrom s'.mem root p = some t
  fresh : ∀ p t, tableFrom s'.mem root p = some t → tableFrom s.mem root p = some t ∨ t ∈ s.free
  entries : ∀ p t j, tableFrom s.mem root p = some t → present (s.mem t j) = true →
    s'.mem t j = s.mem t j
  off : ∀ p t j, (∀ v ∈ V, ¬ p ++ [j] <+: path v) → tableFrom s.mem root p = some t →
    s'.mem t j = s.mem t j
  frames : ∀ f, (∀ p, tableFrom s.mem root p ≠ some f) → f ∉ s.free → s'.mem f = s.mem f
  user : ∀ p t j, p.length < 3 → tableFrom s'.mem root p = some t → present (s'.mem t j) = true →
    (tableFrom s.mem root p = some t ∧ s'.mem t j = s.mem t j) ∨ user (s'.mem t j) = true
  free : s'.free <:+ s.free

theorem Grows.refl (V : Set U64) (root : U64) (s : Vm) : Grows V root s s where
  tables _ _ := id
  fresh _ _ := Or.inl
  entries _ _ _ _ _ := rfl
  off _ _ _ _ _ := rfl
  frames _ _ _ := rfl
  user _ _ _ _ ht _ := Or.inl ⟨ht, rfl⟩
  free := List.suffix_refl _

theorem Grows.trans {V : Set U64} {root : U64} {s₁ s₂ s₃ : Vm} (h : Grows V root s₁ s₂)
    (h' : Grows V root s₂ s₃) : Grows V root s₁ s₃ where
  tables p t ht := h'.tables p t (h.tables p t ht)
  fresh p t ht := by
    rcases h'.fresh p t ht with ht | ht
    · exact h.fresh p t ht
    · exact Or.inr (h.free.subset ht)
  entries p t j ht hp := by
    have he := h.entries p t j ht hp
    rw [h'.entries p t j (h.tables p t ht) (by rw [he]; exact hp), he]
  off p t j hoff ht := by
    rw [h'.off p t j hoff (h.tables p t ht), h.off p t j hoff ht]
  frames f hf hfree := by
    rw [h'.frames f (fun p hp => ?_) (fun hm => hfree (h.free.subset hm)), h.frames f hf hfree]
    rcases h.fresh p f hp with hp | hp
    · exact hf p hp
    · exact hfree hp
  user p t j hlen ht hp := by
    rcases h'.user p t j hlen ht hp with ⟨ht', he⟩ | hu
    · rw [he] at hp ⊢
      exact h.user p t j hlen ht' hp
    · exact Or.inr hu
  free := h'.free.trans h.free

/-! ## One level -/

section NextTable

variable {s : Vm} {t : U64} {i : Fin 512}

theorem nextTable_of_present (h : present (s.mem t i) = true) :
    nextTable t i s = .ok (s.mem t i &&& ~~~0xFFF) s := by
  unfold nextTable
  show (if present (s.mem t i) = false then _ else _ : Kernel Vm U64) s = _
  rw [if_neg (by simp [h])]
  rfl

theorem nextTable_of_ok (h : present (s.mem t i) = false) {page : U64} {s' : Vm}
    (hg : giveRawPage s = .ok page s') :
    nextTable t i s = .ok (tableEntry page &&& ~~~0xFFF)
      { s' with mem := put (Function.update s'.mem page fun _ => 0) t i (tableEntry page) } := by
  unfold nextTable
  show (if present (s.mem t i) = false then _ else _ : Kernel Vm U64) s = _
  rw [if_pos h, Kernel.bind_of_ok hg]
  show EStateM.Result.ok (put (Function.update s'.mem page fun _ => 0) t i (tableEntry page) t i &&&
    ~~~0xFFF) _ = _
  rw [put_self]
  rfl

theorem nextTable_of_error (h : present (s.mem t i) = false) {e : Halt} {s' : Vm}
    (hg : giveRawPage s = .error e s') : nextTable t i s = .error e s' := by
  unfold nextTable
  show (if present (s.mem t i) = false then _ else _ : Kernel Vm U64) s = _
  rw [if_pos h, Kernel.bind_of_error hg]

end NextTable

section Link

variable {V : Set U64} {root : U64} {s : Vm} {p : List (Fin 512)} {t : U64} {j : Fin 512}
  {h : U64} {rest : List U64} {a : Allocator}

/-- The state after a new table `h` is linked into the slot `j` of `t`. -/
def Vm.link (s : Vm) (a : Allocator) (t : U64) (j : Fin 512) (h : U64) : Vm :=
  { s with
    alloc := a
    mem := put (Function.update s.mem h fun _ => 0) t j (tableEntry h) }

variable (hw : WellFormed V root s) (hp : tableFrom s.mem root p = some t) (hlen : p.length < 3)
  (hj : present (s.mem t j) = false) (hf : s.free = h :: rest) (ha : freeFrames a.pages = rest)

include hw hf

theorem head_isFrame : IsFrame h := hw.frames h (by rw [hf]; exact List.mem_cons_self)

theorem head_apart (q : List (Fin 512)) : tableFrom s.mem root q ≠ some h :=
  hw.apart h (by rw [hf]; exact List.mem_cons_self) q

theorem agree_zeroed (d : List (Fin 512)) :
    Agree decode s.mem (Function.update s.mem h fun _ => 0) 0 root d := by
  refine Agree.of_tables fun q g hq => Function.update_of_ne ?_ ..
  rintro rfl
  exact head_apart hw hf q hq

include hp hlen hj

theorem link_fresh : Tree decode (Function.update s.mem h fun _ => 0) root ∧
    tableAt decode (Function.update s.mem h fun _ => 0) 0 root p = some t ∧
    decode p.length (Function.update s.mem h (fun _ => 0) t j) = .absent ∧
    decode p.length (tableEntry h) = .table h ∧
    (∀ i, decode (p.length + 1) (Function.update s.mem h (fun _ => 0) h i) = .absent) ∧
    ∀ q, tableAt decode (Function.update s.mem h fun _ => 0) 0 root q ≠ some h := by
  have hframe := head_isFrame hw hf
  have hth : t ≠ h := fun e => head_apart hw hf p (e ▸ hp)
  have hsame := fun q => tableAt_congr (agree_zeroed hw hf q)
  refine ⟨?_, (hsame p).trans hp, ?_, ?_, ?_, ?_⟩
  · intro q r k
    rw [hsame, hsame]
    exact hw.tree q r k
  · rw [Function.update_of_ne hth]
    exact decode_of_not_present hj
  · rw [decode_of_clean hlen (present_tableEntry hframe) (clean_tableEntry hframe),
      tableEntry_and_mask hframe]
  · intro i
    rw [Function.update_self]
    rfl
  · intro q
    rw [hsame]
    exact head_apart hw hf q

theorem tableFrom_link (q : List (Fin 512)) (k : U64) :
    tableFrom (s.link a t j h).mem root q = some k ↔
      tableFrom s.mem root q = some k ∨ (q = p ++ [j] ∧ k = h) := by
  obtain ⟨htree, hp', habs, htab, hz, hno⟩ := link_fresh hw hp hlen hj hf
  unfold tableFrom
  rw [← tableAt_congr (agree_zeroed hw hf q)]
  exact tableAt_put_table htree hp' habs htab hz hno q k

theorem walk_link (q : List (Fin 512)) :
    RadixTable.walk decode (s.link a t j h).mem 0 root q =
      RadixTable.walk decode s.mem 0 root q := by
  obtain ⟨htree, hp', habs, htab, hz, hno⟩ := link_fresh hw hp hlen hj hf
  rw [← walk_congr (agree_zeroed hw hf q)]
  exact walk_put_table htree hp' habs htab hz hno q

/-- An entry of a table after the link: the new one, an old one, or one of the empty table. -/
theorem entry_link {q : List (Fin 512)} {k : U64}
    (hk : tableFrom (s.link a t j h).mem root q = some k) (i : Fin 512) :
    (k = t ∧ i = j ∧ (s.link a t j h).mem k i = tableEntry h) ∨
      (tableFrom s.mem root q = some k ∧ (s.link a t j h).mem k i = s.mem k i) ∨
      present ((s.link a t j h).mem k i) = false := by
  by_cases hslot : k = t ∧ i = j
  · obtain ⟨rfl, rfl⟩ := hslot
    exact Or.inl ⟨rfl, rfl, put_self⟩
  · have hput : (s.link a t j h).mem k i = Function.update s.mem h (fun _ => 0) k i :=
      put_of_ne hslot
    rw [hput]
    rcases (tableFrom_link hw hp hlen hj hf q k).mp hk with hold | ⟨-, rfl⟩
    · have hkh : k ≠ h := fun e => head_apart hw hf q (e ▸ hold)
      refine Or.inr (Or.inl ⟨hold, ?_⟩)
      rw [Function.update_of_ne hkh]
    · rw [Function.update_self]
      exact Or.inr (Or.inr rfl)

include ha

theorem WellFormed.link (hm : a.lock.Mine a.cpu) : WellFormed V root (s.link a t j h) := by
  have hfree : (s.link a t j h).free = rest := ha
  have hsub : ∀ f ∈ rest, f ∈ s.free := fun f hm => by rw [hf]; exact List.mem_cons_of_mem _ hm
  have hnd : h ∉ rest ∧ rest.Nodup := by
    have := hw.nodup
    rwa [hf, List.nodup_cons] at this
  constructor
  · intro q r k hq hr
    obtain ⟨htree, hp', habs, htab, hz, hno⟩ := link_fresh hw hp hlen hj hf
    exact Tree.put_table htree hp' habs htab hz hno q r k hq hr
  · intro v hv q i r k hpath hr hk hpr
    rcases entry_link hw hp hlen hj hf hk i with ⟨-, -, he⟩ | ⟨hold, he⟩ | he
    · rw [he]
      exact clean_tableEntry (head_isFrame hw hf)
    · rw [he] at hpr ⊢
      exact hw.clean v hv q i r k hpath hr hold hpr
    · rw [he] at hpr
      cases hpr
  · rw [hfree]
    exact fun f hm => hw.frames f (hsub f hm)
  · rw [hfree]
    exact hnd.2
  · rw [hfree]
    intro f hm q hq
    rcases (tableFrom_link hw hp hlen hj hf q f).mp hq with hold | ⟨-, rfl⟩
    · exact hw.apart f (hsub f hm) q hold
    · exact hnd.1 hm
  · exact hm

theorem Grows.link (hon : ∃ v ∈ V, p ++ [j] <+: path v) :
    Grows V root s (s.link a t j h) := by
  have hmem : h ∈ s.free := by rw [hf]; exact List.mem_cons_self
  constructor
  · exact fun q k hq => (tableFrom_link hw hp hlen hj hf q k).mpr (Or.inl hq)
  · intro q k hq
    rcases (tableFrom_link hw hp hlen hj hf q k).mp hq with hold | ⟨-, rfl⟩
    · exact Or.inl hold
    · exact Or.inr hmem
  · intro q k i hk hpr
    have hkh : k ≠ h := fun e => head_apart hw hf q (e ▸ hk)
    have hne : ¬ (k = t ∧ i = j) := by
      rintro ⟨rfl, rfl⟩
      rw [hj] at hpr
      cases hpr
    exact (put_of_ne hne).trans (congrFun (Function.update_of_ne hkh ..) i)
  · intro q k i hoff hk
    have hkh : k ≠ h := fun e => head_apart hw hf q (e ▸ hk)
    have hne : ¬ (k = t ∧ i = j) := by
      rintro ⟨rfl, rfl⟩
      obtain ⟨v, hv, hpre⟩ := hon
      rw [hw.tree q p k hk hp] at hoff
      exact hoff v hv hpre
    exact (put_of_ne hne).trans (congrFun (Function.update_of_ne hkh ..) i)
  · intro f hno hfr
    have hft : f ≠ t := fun e => hno p (e ▸ hp)
    have hfh : f ≠ h := fun e => hfr (e ▸ hmem)
    exact (put_of_frame_ne hft).trans (Function.update_of_ne hfh ..)
  · intro q k i _ hk hpr
    rcases entry_link hw hp hlen hj hf hk i with ⟨-, -, he⟩ | hold | he
    · rw [he]
      exact Or.inr (user_tableEntry (head_isFrame hw hf))
    · exact Or.inl hold
    · rw [he] at hpr
      cases hpr
  · have hfree : (s.link a t j h).free = rest := ha
    rw [hfree, hf]
    exact List.suffix_cons h rest

end Link

/-! ## The way down -/

/-- One if there is no table at the end of a path. -/
def lacks (mem : Mem) (root : U64) (p : List (Fin 512)) : ℕ :=
  if (tableFrom mem root p).isSome then 0 else 1

/-- The number of tables that have to be made on the way `l` below the table at `p`. -/
def lacksOn (mem : Mem) (root : U64) : List (Fin 512) → List (Fin 512) → ℕ
  | _, [] => 0
  | p, j :: l => lacks mem root (p ++ [j]) + lacksOn mem root (p ++ [j]) l

/-- The path to the last table of an address. -/
def tablePath (virt : U64) : List (Fin 512) := [index virt 39, index virt 30, index virt 21]

theorem path_eq (virt : U64) : path virt = tablePath virt ++ [index virt 12] := rfl

/-- The number of tables that have to be made for an address. -/
def missing (mem : Mem) (root virt : U64) : ℕ := lacksOn mem root [] (tablePath virt)

/-- `s'` is `s` with a table `t` at the end of `p`, after `n` tables were made on the way. -/
structure Descends (V : Set U64) (root : U64) (s s' : Vm) (p : List (Fin 512)) (t : U64)
    (n : ℕ) : Prop where
  wf : WellFormed V root s'
  grows : Grows V root s s'
  table : tableFrom s'.mem root p = some t
  below : ∀ q, ¬ q <+: p → tableFrom s'.mem root q = tableFrom s.mem root q
  walks : ∀ v, hwWalk s'.mem root v = hwWalk s.mem root v
  free : s'.free = s.free.drop n
  same : n = 0 → s' = s

theorem Descends.trans {V : Set U64} {root : U64} {s₁ s₂ s₃ : Vm} {p q : List (Fin 512)}
    {t u : U64} {m n : ℕ} (h : Descends V root s₁ s₂ p t m) (h' : Descends V root s₂ s₃ q u n)
    (hpq : p <+: q) : Descends V root s₁ s₃ q u (m + n) where
  wf := h'.wf
  grows := h.grows.trans h'.grows
  table := h'.table
  below r hr := (h'.below r hr).trans (h.below r fun hp => hr (hp.trans hpq))
  walks v := (h'.walks v).trans (h.walks v)
  free := by rw [h'.free, h.free, List.drop_drop]
  same hmn := by rw [h'.same (by omega), h.same (by omega)]

/-- Tables made on the way to `p` are not below it. -/
theorem lacksOn_congr {m m' : Mem} {root : U64} {p : List (Fin 512)} (l : List (Fin 512))
    (h : ∀ q, ¬ q <+: p → tableFrom m' root q = tableFrom m root q) :
    lacksOn m' root p l = lacksOn m root p l := by
  induction l generalizing p with
  | nil => rfl
  | cons j l ih =>
    have hj := h (p ++ [j]) (not_snoc_prefix_self p j)
    unfold lacksOn lacks
    rw [hj, ih fun q hq => h q fun hp => hq (hp.trans (List.prefix_append p [j]))]

section Descend

variable {V : Set U64} {root v : U64} {s : Vm} {p q : List (Fin 512)} {t : U64} {j : Fin 512}
  (hw : WellFormed V root s) (hv : v ∈ V) (hpath : path v = p ++ j :: q) (hq : q ≠ [])
  (hp : tableFrom s.mem root p = some t)

include hpath hq in
theorem length_lt_three : p.length < 3 := by
  have hlen := congrArg List.length hpath
  have hpos := List.length_pos_iff.mpr hq
  simp only [path, List.length_append, List.length_cons, List.length_nil] at hlen
  omega

include hw hv hpath hq hp

/-- On the way of an address in `V` an entry that is present leads to the next table. -/
theorem tableFrom_of_present (hj : present (s.mem t j) = true) :
    tableFrom s.mem root (p ++ [j]) = some (s.mem t j &&& ~~~0xFFF) := by
  have hc := hw.clean v hv p j q t hpath hq hp hj
  refine tableAt_snoc hp ?_
  rw [Nat.zero_add, decode_of_clean (length_lt_three hpath hq) hj hc, and_not_eq_of_clean hc]

theorem lacks_of_present (hj : present (s.mem t j) = true) : lacks s.mem root (p ++ [j]) = 0 := by
  simp [lacks, tableFrom_of_present hw hv hpath hq hp hj]

omit hw hv hpath hq in
theorem lacks_of_absent (hj : present (s.mem t j) = false) : lacks s.mem root (p ++ [j]) = 1 := by
  have hnone := tableAt_through_absent hp (d := 0) (decode_of_not_present hj) []
  rw [List.append_nil] at hnone
  simp [lacks, tableFrom, hnone]

theorem nextTable_descends (hfree : lacks s.mem root (p ++ [j]) ≤ s.free.length) :
    ∃ g s', nextTable t j s = .ok g s' ∧
      Descends V root s s' (p ++ [j]) g (lacks s.mem root (p ++ [j])) := by
  cases hj : present (s.mem t j) with
  | true =>
    have hzero := lacks_of_present hw hv hpath hq hp hj
    refine ⟨_, s, nextTable_of_present hj, hw, .refl V root s, ?_, fun _ _ => rfl, fun _ => rfl, ?_,
      fun _ => rfl⟩
    · exact tableFrom_of_present hw hv hpath hq hp hj
    · rw [hzero, List.drop_zero]
  | false =>
    have hone := lacks_of_absent hp hj
    have hlen := length_lt_three hpath hq
    obtain ⟨h, rest, hf⟩ : ∃ h rest, s.free = h :: rest := by
      rw [hone] at hfree
      exact List.exists_cons_of_length_pos hfree
    obtain ⟨a, hg, ha, hlock⟩ := giveRawPage_of_free hw.mine hf
    have hframe := head_isFrame hw hf
    have hlink := fun q => tableFrom_link (a := a) hw hp hlen hj hf q
    refine ⟨h, s.link a t j h, ?_, ?_, ?_, (hlink _ h).mpr (Or.inr ⟨rfl, rfl⟩), ?_, ?_, ?_, ?_⟩
    · rw [nextTable_of_ok hj hg, and_not_eq_of_clean (clean_tableEntry hframe),
        tableEntry_and_mask hframe]
      rfl
    · exact WellFormed.link hw hp hlen hj hf ha (Or.inl hlock)
    · refine Grows.link hw hp hlen hj hf ha ⟨v, hv, q, ?_⟩
      rw [hpath]
      simp
    · intro r hr
      apply Option.ext
      intro k
      rw [hlink r k]
      refine or_iff_left fun e => hr ?_
      rw [e.1]
    · exact fun w => walk_link hw hp hlen hj hf (path w)
    · rw [hone, hf]
      exact ha
    · rw [hone]
      exact fun e => absurd e one_ne_zero

theorem nextTable_exhausted (hfree : s.free.length < lacks s.mem root (p ++ [j])) :
    ∃ s', nextTable t j s =
      .error (.panic "Raw Page requested but allocator exahusted" .nomem) s' := by
  cases hj : present (s.mem t j) with
  | true =>
    rw [lacks_of_present hw hv hpath hq hp hj] at hfree
    exact absurd hfree (Nat.not_lt_zero _)
  | false =>
    rw [lacks_of_absent hp hj] at hfree
    have hnil : s.free = [] := List.length_eq_zero_iff.mp (by omega)
    obtain ⟨a, ha⟩ := giveRawPage_of_none hw.mine hnil
    exact ⟨_, nextTable_of_error hj ha⟩

omit hpath hq hp in
theorem lacksOn_of_walk {l : List (Fin 512)} (hpath : path v = p ++ (l ++ q)) (hq : q ≠ [])
    (hp : tableFrom s.mem root p = some t) (hm : hwWalk s.mem root v ≠ none) :
    lacksOn s.mem root p l = 0 := by
  induction l generalizing p t with
  | nil => rfl
  | cons j l ih =>
    have hne : l ++ q ≠ [] := by simp [hq]
    cases hj : present (s.mem t j) with
    | true =>
      have hnext := tableFrom_of_present hw hv hpath hne hp hj
      unfold lacksOn
      rw [lacks_of_present hw hv hpath hne hp hj, ih (by rw [hpath]; simp) hnext]
    | false =>
      refine absurd ?_ hm
      have hnone := walk_through_absent hp (d := 0) (decode_of_not_present hj) (l ++ q)
      unfold hwWalk
      rw [hpath, ← hnone]
      simp

/-- The first part of `map_page`: from table to table along the indices `l`. -/
def descend : U64 → List (Fin 512) → Kernel Vm U64
  | t, [] => return t
  | t, j :: l => do
    let g ← nextTable t j
    descend g l

omit hpath hq hp in
/-- With enough free frames the way down ends in the table, in the order of the indices. -/
theorem descend_descends {l : List (Fin 512)} (hpath : path v = p ++ (l ++ q)) (hq : q ≠ [])
    (hp : tableFrom s.mem root p = some t) (hfree : lacksOn s.mem root p l ≤ s.free.length) :
    ∃ g s', descend t l s = .ok g s' ∧
      Descends V root s s' (p ++ l) g (lacksOn s.mem root p l) := by
  induction l generalizing p t s with
  | nil =>
    refine ⟨t, s, rfl, hw, .refl V root s, by rw [List.append_nil]; exact hp, fun _ _ => rfl,
      fun _ => rfl, rfl, fun _ => rfl⟩
  | cons j l ih =>
    unfold lacksOn at hfree ⊢
    have hne : l ++ q ≠ [] := by simp [hq]
    obtain ⟨g, s₁, hg, d₁⟩ := nextTable_descends hw hv hpath hne hp (by omega)
    have hsame := lacksOn_congr l d₁.below
    have hlen : s₁.free.length = s.free.length - lacks s.mem root (p ++ [j]) := by
      rw [d₁.free, List.length_drop]
    obtain ⟨u, s₂, hu, d₂⟩ := ih d₁.wf (by rw [hpath]; simp) d₁.table (by omega)
    have happ : p ++ [j] ++ l = p ++ j :: l := by simp
    rw [happ, hsame] at d₂
    refine ⟨u, s₂, ?_, d₁.trans d₂ ⟨l, happ⟩⟩
    unfold descend
    rw [Kernel.bind_of_ok hg, hu]

omit hpath hq hp in
theorem descend_exhausted {l : List (Fin 512)} (hpath : path v = p ++ (l ++ q)) (hq : q ≠ [])
    (hp : tableFrom s.mem root p = some t) (hfree : s.free.length < lacksOn s.mem root p l) :
    ∃ s', descend t l s =
      .error (.panic "Raw Page requested but allocator exahusted" .nomem) s' := by
  induction l generalizing p t s with
  | nil => exact absurd hfree (Nat.not_lt_zero _)
  | cons j l ih =>
    unfold lacksOn at hfree
    have hne : l ++ q ≠ [] := by simp [hq]
    unfold descend
    by_cases hfirst : lacks s.mem root (p ++ [j]) ≤ s.free.length
    · obtain ⟨g, s₁, hg, d₁⟩ := nextTable_descends hw hv hpath hne hp hfirst
      have hsame := lacksOn_congr l d₁.below
      have hlen : s₁.free.length = s.free.length - lacks s.mem root (p ++ [j]) := by
        rw [d₁.free, List.length_drop]
      rw [Kernel.bind_of_ok hg]
      exact ih d₁.wf (by rw [hpath]; simp) d₁.table (by omega)
    · obtain ⟨s', hs'⟩ := nextTable_exhausted hw hv hpath hne hp (by omega)
      exact ⟨s', Kernel.bind_of_error hs'⟩

end Descend

/-! ## The leaf -/

section Leaf

variable {V : Set U64} {root v : U64} {s : Vm} {t e : U64}

/-- The state after the leaf entry of `v` is written into the table `t`. -/
def Vm.leaf (s : Vm) (t v e : U64) : Vm := { s with mem := put s.mem t (index v 12) e }

variable (hw : WellFormed V root s) (ht : tableFrom s.mem root (tablePath v) = some t)
  (hj : present (s.mem t (index v 12)) = false) (he : present e = true)

include hw ht hj he

theorem tableFrom_leaf (q : List (Fin 512)) :
    tableFrom (s.leaf t v e).mem root q = tableFrom s.mem root q :=
  tableAt_put_leaf hw.tree ht (decode_of_not_present hj) (decode_leaf he) q

omit he in
theorem entry_leaf {q : List (Fin 512)} {k : U64} (hq : q.length < 3)
    (hk : tableFrom s.mem root q = some k) (i : Fin 512) :
    (s.leaf t v e).mem k i = s.mem k i := by
  refine put_of_ne ?_
  rintro ⟨rfl, -⟩
  have hqt := hw.tree _ _ _ hk ht
  rw [hqt] at hq
  exact absurd hq (lt_irrefl 3)

theorem WellFormed.leaf : WellFormed V root (s.leaf t v e) where
  tree := Tree.put_leaf hw.tree ht (decode_of_not_present hj) (decode_leaf he)
  clean w hwV q i r k hpath hr hk := by
    rw [tableFrom_leaf hw ht hj he] at hk
    rw [entry_leaf hw ht hj (length_lt_three hpath hr) hk]
    exact hw.clean w hwV q i r k hpath hr hk
  frames := hw.frames
  nodup := hw.nodup
  apart f hf q := by
    rw [tableFrom_leaf hw ht hj he]
    exact hw.apart f hf q
  mine := hw.mine

theorem Grows.leaf (hv : v ∈ V) : Grows V root s (s.leaf t v e) where
  tables q k hq := by rw [tableFrom_leaf hw ht hj he]; exact hq
  fresh q k hq := by rw [tableFrom_leaf hw ht hj he] at hq; exact Or.inl hq
  entries q k i hk hpr := by
    refine put_of_ne ?_
    rintro ⟨rfl, rfl⟩
    rw [hj] at hpr
    cases hpr
  off q k i hoff hk := by
    refine put_of_ne ?_
    rintro ⟨rfl, rfl⟩
    rw [hw.tree q _ k hk ht] at hoff
    exact hoff v hv (List.prefix_refl _)
  frames f hf _ := put_of_frame_ne fun h => hf _ (h ▸ ht)
  user q k i hq hk _ := by
    rw [tableFrom_leaf hw ht hj he] at hk
    exact Or.inl ⟨hk, entry_leaf hw ht hj hq hk i⟩
  free := List.suffix_refl _

omit hj in
theorem hwWalk_leaf :
    ∃ es, es.length = 3 ∧ hwWalk (s.leaf t v e).mem root v = some (es ++ [e]) := by
  obtain ⟨es, hlen, hes⟩ := walk_put_leaf (j := index v 12) hw.tree ht (decode_leaf he)
  exact ⟨es, hlen, hes []⟩

omit hj he in
theorem hwWalk_leaf_of_ne {w : U64} (hne : path w ≠ path v) :
    hwWalk (s.leaf t v e).mem root w = hwWalk s.mem root w := by
  refine walk_put hw.tree ht fun hpre => hne ?_
  exact (hpre.eq_of_length rfl).symm

end Leaf

/-! ## `map_page` -/

section MapPage

variable {V : Set U64} {root v phys flags : U64} {s : Vm}

/-- The second part of `map_page`. -/
def mapLeaf (pt virt phys flags : U64) : Kernel Vm CInt := do
  let s ← get
  if present (s.mem pt (index virt 12)) then
    return -1
  store pt (index virt 12) (phys ||| flags)
  return 0

theorem mapPage_eq : mapPage root v phys flags =
    descend root (tablePath v) >>= fun pt => mapLeaf pt v phys flags := by
  unfold tablePath descend descend descend descend
  simp only [bind_assoc, pure_bind]
  rfl

theorem mapLeaf_of_present {t : U64} (h : present (s.mem t (index v 12)) = true) :
    mapLeaf t v phys flags s = .ok (-1) s := by
  unfold mapLeaf
  show (if present (s.mem t (index v 12)) = true then _ else _ : Kernel Vm CInt) s = _
  rw [if_pos h]
  rfl

theorem mapLeaf_of_absent {t : U64} (h : present (s.mem t (index v 12)) = false) :
    mapLeaf t v phys flags s = .ok 0 (s.leaf t v (phys ||| flags)) := by
  unfold mapLeaf
  show (if present (s.mem t (index v 12)) = true then _ else _ : Kernel Vm CInt) s = _
  rw [if_neg (by simp [h])]
  rfl

/-- What the walk reads last when the tables are there. -/
theorem hwWalk_of_table {mem : Mem} {t : U64} (ht : tableFrom mem root (tablePath v) = some t) :
    hwWalk mem root v = none ↔ present (mem t (index v 12)) = false := by
  obtain ⟨es, -, hes⟩ := walk_append ht
  unfold hwWalk
  rw [path_eq, hes]
  cases hp : present (mem t (index v 12)) with
  | true => simp [tablePath, walk_cons_of_leaf (decode_leaf hp)]
  | false => simp [tablePath, walk_cons_of_absent (decode_of_not_present hp)]

/-- `s'` is `s` with the page of `v` mapped by the entry `e`. -/
structure Mapped (V : Set U64) (root v e : U64) (s s' : Vm) : Prop where
  wf : WellFormed V root s'
  grows : Grows V root s s'
  walk : ∃ es, es.length = 3 ∧ hwWalk s'.mem root v = some (es ++ [e])
  others : ∀ w, path w ≠ path v → hwWalk s'.mem root w = hwWalk s.mem root w
  free : s'.free = s.free.drop (missing s.mem root v)

variable (hw : WellFormed V root s) (hv : v ∈ V)

include hw hv

theorem mapPage_of_mapped (hm : hwWalk s.mem root v ≠ none) :
    mapPage root v phys flags s = .ok (-1) s := by
  have hzero := lacksOn_of_walk hw hv (p := []) (l := tablePath v) (q := [index v 12]) rfl (by simp)
    rfl hm
  obtain ⟨t, s', ht, d⟩ := descend_descends hw hv (p := []) (l := tablePath v) (q := [index v 12])
    rfl (by simp) rfl (by omega)
  obtain rfl := d.same hzero
  rw [mapPage_eq, Kernel.bind_of_ok ht]
  refine mapLeaf_of_present ?_
  by_contra hj
  exact hm ((hwWalk_of_table d.table).mpr (by simpa using hj))

theorem mapPage_of_unmapped (he : present (phys ||| flags) = true)
    (hm : hwWalk s.mem root v = none) (hfree : missing s.mem root v ≤ s.free.length) :
    ∃ s', mapPage root v phys flags s = .ok 0 s' ∧ Mapped V root v (phys ||| flags) s s' := by
  obtain ⟨t, s', ht, d⟩ := descend_descends hw hv (p := []) (l := tablePath v) (q := [index v 12])
    rfl (by simp) rfl hfree
  have hj : present (s'.mem t (index v 12)) = false := by
    rw [← hwWalk_of_table d.table, d.walks, hm]
  have hwalk := hwWalk_leaf d.wf d.table he
  refine ⟨s'.leaf t v (phys ||| flags), ?_, ?_, ?_, hwalk, ?_, d.free⟩
  · rw [mapPage_eq, Kernel.bind_of_ok ht, mapLeaf_of_absent hj]
  · exact d.wf.leaf d.table hj he
  · exact d.grows.trans (Grows.leaf d.wf d.table hj he hv)
  · intro w hne
    rw [hwWalk_leaf_of_ne d.wf d.table hne, d.walks]

theorem mapPage_exhausted (hfree : s.free.length < missing s.mem root v) :
    ∃ s', mapPage root v phys flags s =
      .error (.panic "Raw Page requested but allocator exahusted" .nomem) s' := by
  obtain ⟨s', hs'⟩ := descend_exhausted hw hv (p := []) (l := tablePath v) (q := [index v 12])
    rfl (by simp) rfl hfree
  exact ⟨s', by rw [mapPage_eq, Kernel.bind_of_error hs']⟩

theorem missing_of_mapped (hm : hwWalk s.mem root v ≠ none) : missing s.mem root v = 0 :=
  lacksOn_of_walk hw hv (p := []) (q := [index v 12]) rfl (by simp) rfl hm

end MapPage

/-! ## What does not change -/

/-- Only memory and the allocator have changed, and of the allocator not the direct map. -/
def Vm.SameRest (s s' : Vm) : Prop :=
  ∃ a m, a.hhdm = s.alloc.hhdm ∧ s' = { s with alloc := a, mem := m }

namespace Vm.SameRest

variable {s s' : Vm}

theorem of_mem (s : Vm) (m : Mem) : s.SameRest { s with mem := m } := ⟨_, _, rfl, rfl⟩

theorem trans {s₁ s₂ s₃ : Vm} (h : s₁.SameRest s₂) (h' : s₂.SameRest s₃) : s₁.SameRest s₃ := by
  obtain ⟨a, m, ha, rfl⟩ := h
  obtain ⟨a', m', ha', rfl⟩ := h'
  exact ⟨a', m', ha'.trans ha, rfl⟩

variable (h : s.SameRest s')

include h

theorem newpml4 : s'.newpml4 = s.newpml4 := by obtain ⟨a, m, -, rfl⟩ := h; rfl

theorem userAs : s'.userAs = s.userAs := by obtain ⟨a, m, -, rfl⟩ := h; rfl

theorem offst : s'.offst = s.offst := by obtain ⟨a, m, -, rfl⟩ := h; rfl

theorem hhdm : s'.alloc.hhdm = s.alloc.hhdm := by obtain ⟨a, m, ha, rfl⟩ := h; exact ha

end Vm.SameRest

theorem giveRawPage_sameRest {s s' : Vm} {u : U64} (h : giveRawPage s = .ok u s') :
    s.SameRest s' := by
  unfold giveRawPage Kernel.zoom at h
  split at h
  · rename_i a hg
    obtain ⟨-, rfl⟩ := EStateM.Result.ok.inj h
    exact ⟨_, _, Allocator.giveRawPage_hhdm hg, rfl⟩
  · cases h

theorem nextTable_sameRest {s s' : Vm} {t g : U64} {i : Fin 512}
    (h : nextTable t i s = .ok g s') : s.SameRest s' := by
  cases hp : present (s.mem t i) with
  | true =>
    rw [nextTable_of_present hp] at h
    obtain ⟨-, rfl⟩ := EStateM.Result.ok.inj h
    exact .of_mem _ _
  | false =>
    cases hg : giveRawPage s with
    | ok page s₁ =>
      rw [nextTable_of_ok hp hg] at h
      obtain ⟨-, rfl⟩ := EStateM.Result.ok.inj h
      exact (giveRawPage_sameRest hg).trans (.of_mem _ _)
    | error e s₁ =>
      rw [nextTable_of_error hp hg] at h
      cases h

theorem descend_sameRest {l : List (Fin 512)} {s s' : Vm} {t g : U64}
    (h : descend t l s = .ok g s') : s.SameRest s' := by
  induction l generalizing s t with
  | nil =>
    obtain ⟨-, rfl⟩ := EStateM.Result.ok.inj h
    exact .of_mem _ _
  | cons j l ih =>
    obtain ⟨u, s₁, h₁, h₂⟩ := Kernel.bind_eq_ok.mp h
    exact (nextTable_sameRest h₁).trans (ih h₂)

/-- `map_page` changes memory and the allocator only. -/
theorem mapPage_sameRest {root v phys flags : U64} {s s' : Vm} {r : CInt}
    (h : mapPage root v phys flags s = .ok r s') : s.SameRest s' := by
  rw [mapPage_eq] at h
  obtain ⟨t, s₁, h₁, h₂⟩ := Kernel.bind_eq_ok.mp h
  refine (descend_sameRest h₁).trans ?_
  cases hp : present (s₁.mem t (index v 12)) with
  | true =>
    rw [mapLeaf_of_present hp] at h₂
    obtain ⟨-, rfl⟩ := EStateM.Result.ok.inj h₂
    exact .of_mem _ _
  | false =>
    rw [mapLeaf_of_absent hp] at h₂
    obtain ⟨-, rfl⟩ := EStateM.Result.ok.inj h₂
    exact .of_mem _ _

/-! ## The cases together -/

/-- **`map_page`.** It returns `0` exactly when the page was not mapped and there are frames for the
missing tables; then the page is mapped by `phys | flags`, the walk of every other page is unchanged
and the state is well-formed again. A page that was mapped gives `-1` and changes nothing, and
without the frames the call panics. -/
theorem mapPage_correct {V : Set U64} {root v phys flags : U64} {s : Vm}
    (hw : WellFormed V root s) (hv : v ∈ V) (hflags : flags &&& pagePresent = pagePresent) :
    ((∃ s', mapPage root v phys flags s = .ok 0 s') ↔
      hwWalk s.mem root v = none ∧ missing s.mem root v ≤ s.free.length) ∧
    (∀ s', mapPage root v phys flags s = .ok 0 s' →
      (∃ es, es.length = 3 ∧ hwWalk s'.mem root v = some (es ++ [phys ||| flags])) ∧
      (∀ w : U64, w.toNat / 4096 % 2 ^ 36 ≠ v.toNat / 4096 % 2 ^ 36 →
        hwWalk s'.mem root w = hwWalk s.mem root w) ∧
      WellFormed V root s') ∧
    (hwWalk s.mem root v ≠ none → mapPage root v phys flags s = .ok (-1) s) ∧
    (hwWalk s.mem root v = none → s.free.length < missing s.mem root v →
      ∃ s', mapPage root v phys flags s =
        .error (.panic "Raw Page requested but allocator exahusted" .nomem) s') := by
  have hmapped : hwWalk s.mem root v ≠ none → mapPage root v phys flags s = .ok (-1) s :=
    mapPage_of_mapped hw hv
  have he : present (phys ||| flags) = true := present_or hflags
  have hunmapped := mapPage_of_unmapped hw hv he
  have hexhausted : s.free.length < missing s.mem root v → ∃ s', mapPage root v phys flags s =
      .error (.panic "Raw Page requested but allocator exahusted" .nomem) s' :=
    mapPage_exhausted hw hv
  -- a call that returns `0` is the second case
  have hzero : ∀ s', mapPage root v phys flags s = .ok 0 s' →
      hwWalk s.mem root v = none ∧ missing s.mem root v ≤ s.free.length := by
    intro s' h
    constructor
    · by_contra hm
      rw [hmapped hm] at h
      exact absurd (EStateM.Result.ok.inj h).1 (by decide)
    · by_contra hlt
      obtain ⟨s'', h''⟩ := hexhausted (by omega)
      rw [h''] at h
      cases h
  refine ⟨⟨fun ⟨s', h⟩ => hzero s' h, fun ⟨hm, hf⟩ => ?_⟩, fun s' h => ?_, hmapped, ?_⟩
  · obtain ⟨s', h, -⟩ := hunmapped hm hf
    exact ⟨s', h⟩
  · obtain ⟨hm, hf⟩ := hzero s' h
    obtain ⟨s'', h'', m⟩ := hunmapped hm hf
    obtain rfl : s'' = s' := by
      rw [h''] at h
      exact (EStateM.Result.ok.inj h).2
    refine ⟨m.walk, fun w hne => m.others w ?_, m.wf⟩
    rw [Ne, path_eq_iff]
    exact hne
  · exact fun _ hf => hexhausted hf

/-- Zeroed memory with the given pages in the allocator. -/
def blankVm (starts : List U64) : Vm where
  alloc :=
    { pages := starts.map fun a => ⟨a, false⟩
      lock := .free
      hhdm := 0xFFFF800000000000
      cpu := ⟨0, 0⟩ }
  mem _ _ := 0
  cr3 := 0
  newpml4 := 0
  userAs := 0
  offst := 0
  userCr3 := 0
  uBuf := 0

theorem tableFrom_blank {root t : U64} {p : List (Fin 512)}
    (h : tableFrom (fun _ _ => 0) root p = some t) : p = [] ∧ t = root := by
  cases p with
  | nil => exact ⟨rfl, (Option.some.inj h).symm⟩
  | cons i p =>
    have hnone : tableFrom (fun _ _ => 0) root (i :: p) = none :=
      tableAt_cons_of_absent (decode_of_not_present rfl)
    cases hnone.symm.trans h

theorem freeFrames_unused (starts : List U64) :
    freeFrames (starts.map fun a => ⟨a, false⟩) = starts := by
  induction starts with
  | nil => rfl
  | cons a starts ih => simpa [freeFrames] using ih

theorem blankVm_wellFormed (V : Set U64) {root : U64} {starts : List U64}
    (hframes : ∀ a ∈ starts, IsFrame a) (hnodup : starts.Nodup) (hroot : root ∉ starts) :
    WellFormed V root (blankVm starts) where
  tree p q t hp hq := by rw [(tableFrom_blank hp).1, (tableFrom_blank hq).1]
  clean v _ p j q t _ _ _ hpr := absurd hpr (by simp [blankVm, present])
  frames := by unfold Vm.free blankVm; rw [freeFrames_unused]; exact hframes
  nodup := by unfold Vm.free blankVm; rw [freeFrames_unused]; exact hnodup
  apart f hf p hp := by
    unfold Vm.free blankVm at hf
    rw [freeFrames_unused] at hf
    exact hroot ((tableFrom_blank hp).2 ▸ hf)
  mine := Or.inl rfl

theorem mapPage_correct_blank :
    ∃ s', mapPage 0x9000 0x400000 0xB0000000 (pagePresent ||| pageNx)
        (blankVm [0x1000, 0x2000, 0x3000]) = .ok 0 s' ∧
      ∃ es, es.length = 3 ∧ hwWalk s'.mem 0x9000 0x400000 = some (es ++ [0x80000000B0000001]) := by
  have hframes : ∀ a ∈ [(0x1000 : U64), 0x2000, 0x3000], IsFrame a := by
    simp [IsFrame]
  have hw : WellFormed {0x400000} 0x9000 (blankVm [0x1000, 0x2000, 0x3000]) :=
    blankVm_wellFormed _ hframes (by decide) (by decide)
  have hflags : (pagePresent ||| pageNx) &&& pagePresent = pagePresent := by decide
  obtain ⟨hiff, hok, -⟩ := @mapPage_correct _ _ 0x400000 0xB0000000 _ _ hw rfl hflags
  obtain ⟨s', hs'⟩ := hiff.mpr ⟨rfl, by decide⟩
  exact ⟨s', hs', (hok s' hs').1⟩

/-- With no free frame an unmapped page is not mapped: the call panics. -/
theorem mapPage_noFrame :
    ¬ ∀ (V : Set U64) (root v phys flags : U64) (s : Vm), WellFormed V root s → v ∈ V →
      IsFrame phys → flags &&& pagePresent = pagePresent → flags &&& ~~~0x8000000000000FFF = 0 →
      ((∃ s', mapPage root v phys flags s = .ok 0 s') ↔ hwWalk s.mem root v = none) := by
  intro h
  have hw : WellFormed {0x400000} 0x9000 (blankVm []) :=
    blankVm_wellFormed _ (by simp) (by simp) (by simp)
  obtain ⟨s', hs'⟩ := (h _ _ _ 0 pagePresent _ hw rfl ⟨by decide, by decide⟩ (by decide)
    (by decide)).mpr rfl
  cases hs'

end DejOs
