import DejOs.Mmio

/-!
# The user's address space

`user_space_init` of `memory.c` with `setupbspcpudata`, and what holds afterwards of the three
PML4s: the boot PML4, which the other CPUs keep using, `newpml4` and `user_as`.

`user_space_init` writes to frames that were free, and to no others (`UserSpace.keep`): the new PML4
takes the higher half of the current one, and the two pages of the user get tables of their own.
Later `map_mmio` calls insert below the entry 511 that all three PML4s share.
-/

namespace DejOs

open RadixTable

/-! ## The code -/

/-- `USER_CODE` -/
def userCode : U64 := 0x400000
/-- `USER_STACK` -/
def userStack : U64 := 0x800000

/-- The flags of the user's pages. -/
def userFlags : U64 := pagePresent ||| pageWrite ||| pageUser

/-- `KGetPage` -/
def kGetPage : Kernel Vm U64 :=
  Kernel.zoom Vm.alloc (fun a s => { s with alloc := a }) Allocator.kGetPage

/-- `setupbspcpudata`; `image` is what the block holds in the end. On `NULL` the `memset` faults,
for the lower half of the current address space is empty. -/
def setupBspCpuData (image : Fin 512 → U64) : Kernel Vm Unit := do
  let block ← kGetPage
  if block = 0 then
    throw (.fault 0)
  modify fun s => { s with
    mem := Function.update s.mem (block - s.alloc.hhdm) image
    alloc := { s.alloc with cpu := ⟨block, 0⟩ } }

/-- The part of `user_space_init` that takes a page and maps it. -/
def mapUserPage (virt : U64) : Kernel Vm U64 := do
  let page ← giveRawPage
  memsetPage page
  let s ← get
  let _ ← mapPage s.userAs virt page userFlags
  return page

/-- `user_space_init`; `load_gdt` and `tss_init` do not touch this state. -/
def userSpaceInit (image : Fin 512 → U64) : Kernel Vm Unit := do
  let pml4 ← giveRawPage
  modify fun s => { s with userAs := pml4 }
  clearLow pml4
  let s ← get
  copyHigh pml4 (s.cr3 &&& ~~~0xFFF)
  let page ← mapUserPage userCode
  let _ ← mapUserPage userStack
  modify fun s => { s with userCr3 := s.userAs, uBuf := page + s.alloc.hhdm }
  setupBspCpuData image

/-! ## Taking a page -/

/-- `s'` is `s` with the first free frame `f` handed out and written. -/
structure Takes (f : U64) (s s' : Vm) : Prop where
  free : s.free = f :: s'.free
  mem : ∃ row, s'.mem = Function.update s.mem f row
  mine : s'.alloc.lock.Mine s'.alloc.cpu

section Takes

variable {V : Set U64} {root f : U64} {s s' : Vm}

theorem Takes.mem_free (h : Takes f s s') : f ∈ s.free := by
  rw [h.free]; exact List.mem_cons_self

/-- The tables of a root do not notice. -/
theorem Takes.agree (h : Takes f s s') (hw : WellFormed V root s) :
    ∀ p t, tableFrom s.mem root p = some t → s'.mem t = s.mem t := by
  obtain ⟨row, hrow⟩ := h.mem
  intro p t ht
  rw [hrow]
  exact agree_of_free hw h.mem_free ht

theorem Takes.filled (h : Takes f s s') (hw : WellFormed V root s) : Filled V root [] s s' := by
  have hmem := h.agree hw
  have hsame : ∀ p, tableFrom s'.mem root p = tableFrom s.mem root p := fun p =>
    tableAt_congr (Agree.of_tables hmem)
  have hsuf : s'.free <:+ s.free := by rw [h.free]; exact List.suffix_cons f _
  refine ⟨hw.of_agree hmem hsuf h.mine, ?_, fun w => Or.inl (hwWalk_of_agree hmem w),
    fun r hr => by cases hr⟩
  constructor
  · exact fun p t ht => (hsame p).trans ht
  · exact fun p t ht => Or.inl ((hsame p).symm.trans ht)
  · exact fun p t j ht _ => congrFun (hmem p t ht) j
  · exact fun p t j _ ht => congrFun (hmem p t ht) j
  · intro g hg hfree
    obtain ⟨row, hrow⟩ := h.mem
    have hgf : g ≠ f := fun e => hfree (e ▸ h.mem_free)
    rw [hrow]
    exact Function.update_of_ne hgf ..
  · intro p t j _ ht _
    have ht := (hsame p).symm.trans ht
    exact Or.inl ⟨ht, congrFun (hmem p t ht) j⟩
  · exact hsuf

end Takes

theorem mapUserPage_ok {V : Set U64} {virt page : U64} {s s' : Vm}
    (hw : WellFormed V s.userAs s) (hv : virt ∈ V) (h : mapUserPage virt s = .ok page s') :
    Filled V s.userAs [(virt, page ||| userFlags)] s s' ∧ s.SameRest s' ∧ page ∈ s.free := by
  obtain ⟨p, s₁, h₁, h⟩ := Kernel.bind_eq_ok.mp h
  cases hf : s.free with
  | nil =>
    obtain ⟨a, ha⟩ := giveRawPage_of_none hw.mine hf
    rw [ha] at h₁
    cases h₁
  | cons f rest =>
    obtain ⟨a, hg, ha, hl⟩ := giveRawPage_of_free hw.mine hf
    obtain ⟨rfl, rfl⟩ := EStateM.Result.ok.inj (hg.symm.trans h₁)
    have h : (mapPage s.userAs virt f userFlags >>= fun _ => return f)
        { s with alloc := a, mem := Function.update s.mem f fun _ => 0 } = .ok page s' := h
    obtain ⟨r, s₂, h₂, h⟩ := Kernel.bind_eq_ok.mp h
    obtain ⟨rfl, rfl⟩ := EStateM.Result.ok.inj h
    have htake : Takes f s { s with alloc := a, mem := Function.update s.mem f fun _ => 0 } :=
      ⟨by rw [hf, ← ha]; rfl, ⟨_, rfl⟩, Or.inl hl⟩
    have f₁ := htake.filled hw
    obtain ⟨f₂, hrest⟩ := mapPage_filled f₁.wf hv (present_or (by decide)) h₂
    exact ⟨f₁.append f₂, (giveRawPage_sameRest hg).trans ((Vm.SameRest.of_mem _ _).trans hrest),
      List.mem_cons_self⟩

/-- It comes back if there are frames for the page and three tables. -/
theorem mapUserPage_returns {V : Set U64} {virt : U64} {s : Vm} (hw : WellFormed V s.userAs s)
    (hv : virt ∈ V) (hfree : 4 ≤ s.free.length) :
    ∃ page s', mapUserPage virt s = .ok page s' ∧ s.free.length ≤ s'.free.length + 4 := by
  obtain ⟨f, rest, hf⟩ : ∃ f rest, s.free = f :: rest :=
    List.exists_cons_of_length_pos (by omega)
  obtain ⟨a, hg, ha, hl⟩ := giveRawPage_of_free hw.mine hf
  obtain ⟨s₁, hs₁⟩ : ∃ s₁, s₁ = { s with alloc := a, mem := Function.update s.mem f fun _ => 0 } :=
    ⟨_, rfl⟩
  have htake : Takes f s s₁ := by
    subst hs₁
    exact ⟨by rw [hf, ← ha]; rfl, ⟨_, rfl⟩, Or.inl hl⟩
  have hlen := congrArg List.length htake.free
  rw [List.length_cons] at hlen
  have hthree := missing_le_three s₁.mem s.userAs virt
  have hpr : present (f ||| userFlags) = true := present_or (by decide)
  obtain ⟨r, s', h', hlen'⟩ := mapPage_returns (htake.filled hw).wf hv hpr (by omega)
  refine ⟨f, s', ?_, by omega⟩
  subst hs₁
  exact (Kernel.bind_of_ok hg).trans (Kernel.bind_of_ok h')

/-! ## `user_space_init` -/

section KGetPage

open Allocator

variable {s : Vm} (hl : s.alloc.lock.Mine s.alloc.cpu)

include hl

theorem kGetPage_of_free {f : U64} {rest : List U64} (hf : s.free = f :: rest) :
    ∃ a, kGetPage s = .ok (f + a.hhdm) { s with alloc := a } ∧ freeFrames a.pages = rest ∧
      a.lock = .free ∧ a.hhdm = s.alloc.hhdm := by
  obtain ⟨p, hp, rfl, hrest⟩ := firstUnused_of_free hf
  exact ⟨{ s.alloc with
    pages := setUsed s.alloc.pages (firstUnused s.alloc.pages) true, lock := .free },
    Kernel.zoom_of_ok (kGetPage_success hl hp), hrest, rfl, rfl⟩

theorem kGetPage_of_none (hf : s.free = []) :
    ∃ a, kGetPage s = .ok 0 { s with alloc := a } := by
  obtain ⟨l, hok, -⟩ := kGetPage_exhausted hl (freeFrames_eq_nil_iff.mp hf)
  exact ⟨_, Kernel.zoom_of_ok hok⟩

/-- The block of the boot CPU is one more frame that was free. -/
theorem setupBspCpuData_ok {image : Fin 512 → U64} {s' : Vm}
    (h : setupBspCpuData image s = .ok () s') : ∃ f, Takes f s s' ∧ s.SameRest s' := by
  cases hf : s.free with
  | nil =>
    obtain ⟨a, ha⟩ := kGetPage_of_none hl hf
    have herr : setupBspCpuData image s = .error (.fault 0) { s with alloc := a } :=
      Kernel.bind_of_ok ha
    rw [herr] at h
    cases h
  | cons f rest =>
    obtain ⟨a, hg, ha, hfree, hhdm⟩ := kGetPage_of_free hl hf
    have h := (Kernel.bind_of_ok hg).symm.trans h
    by_cases hz : f + a.hhdm = 0
    · simp only [hz, if_true] at h
      cases h
    · simp only [hz, if_false] at h
      obtain ⟨-, rfl⟩ := EStateM.Result.ok.inj h
      refine ⟨f, ⟨?_, ⟨image, ?_⟩, Or.inl hfree⟩,
        { a with cpu := ⟨f + a.hhdm, 0⟩ }, _, hhdm, rfl⟩
      · rw [hf, ← ha]
        rfl
      · show Function.update s.mem (f + a.hhdm - a.hhdm) image = _
        rw [BitVec.add_sub_cancel]

theorem setupBspCpuData_returns (image : Fin 512 → U64) {f : U64} {rest : List U64}
    (hf : s.free = f :: rest) (hz : f + s.alloc.hhdm ≠ 0) :
    ∃ s', setupBspCpuData image s = .ok () s' := by
  obtain ⟨a, hg, -, -, hhdm⟩ := kGetPage_of_free hl hf
  rw [← hhdm] at hz
  unfold setupBspCpuData
  rw [Kernel.bind_of_ok hg]
  show ∃ s', (if f + a.hhdm = 0 then _ else _ : Kernel Vm Unit) _ = _
  rw [if_neg hz]
  exact ⟨_, rfl⟩

end KGetPage

/-- The addresses of the user's two pages. -/
def userPages : Set U64 := {userCode, userStack}

/-- What `user_space_init` has done when it came back: `s₁` is the state after the new PML4 is
filled from the current one. -/
structure UserSpace (s s' s₁ : Vm) (page stack : U64) : Prop where
  graft : Graft userPages s.bootRoot s'.userAs s s₁
  filled : Filled userPages s'.userAs
    [(userCode, page ||| userFlags), (userStack, stack ||| userFlags)] s₁ s'
  newpml4 : s'.newpml4 = s.newpml4
  offst : s'.offst = s.offst

/-- The state when the user's pages are mapped. -/
def Vm.withUser (s : Vm) (a : Allocator) (u : U64) : Vm :=
  { s with
    alloc := a
    userAs := u
    mem := Function.update s.mem u (highRow s.mem s.bootRoot) }

theorem userSpaceInit_eq {s : Vm} {a : Allocator} {u : U64} {image : Fin 512 → U64}
    (hg : giveRawPage s = .ok u { s with alloc := a }) (hu : s.bootRoot ≠ u) :
    userSpaceInit image s = (do
      let page ← mapUserPage userCode
      let _ ← mapUserPage userStack
      modify fun s => { s with userCr3 := s.userAs, uBuf := page + s.alloc.hhdm }
      setupBspCpuData image : Kernel Vm Unit) (s.withUser a u) := by
  have hrow : s.withUser a u = { s with
      alloc := a
      userAs := u
      mem := Function.update (Function.update s.mem u fun i =>
        if i.val < 256 then 0 else s.mem u i) u fun i =>
          if 256 ≤ i.val then Function.update s.mem u (fun i =>
            if i.val < 256 then 0 else s.mem u i) s.bootRoot i
          else Function.update s.mem u (fun i => if i.val < 256 then 0 else s.mem u i) u i } := by
    unfold Vm.withUser
    congr 1
    rw [Function.update_idem, Function.update_self, Function.update_of_ne hu]
    congr 1
    funext i
    unfold highRow
    split_ifs <;> first | rfl | omega
  rw [hrow]
  unfold userSpaceInit
  rw [Kernel.bind_of_ok hg]
  rfl

theorem withUser_graft {s : Vm} {a : Allocator} {u : U64} {rest : List U64} {V : Set U64}
    (hb : HighWellFormed V s.bootRoot s) (hf : s.free = u :: rest)
    (ha : freeFrames a.pages = rest) (hl : a.lock = .free) :
    Graft V s.bootRoot u s (s.withUser a u) where
  high := hb
  free := by rw [hf, ← ha]; rfl
  mem := rfl
  mine := Or.inl hl

/-- **`user_space_init`.** -/
theorem userSpaceInit_ok {s s' : Vm} {image : Fin 512 → U64}
    (hb : HighWellFormed userPages s.bootRoot s) (h : userSpaceInit image s = .ok () s') :
    ∃ s₁ page stack, UserSpace s s' s₁ page stack := by
  cases hf : s.free with
  | nil =>
    obtain ⟨a, ha⟩ := giveRawPage_of_none hb.mine hf
    have herr : userSpaceInit image s = _ := Kernel.bind_of_error ha
    rw [herr] at h
    cases h
  | cons u rest =>
    obtain ⟨a, hg, ha, hl⟩ := giveRawPage_of_free hb.mine hf
    have hgraft := withUser_graft hb hf ha hl
    rw [userSpaceInit_eq hg hgraft.root_ne] at h
    obtain ⟨page, s₂, h₂, h⟩ := Kernel.bind_eq_ok.mp h
    obtain ⟨stack, s₃, h₃, h⟩ := Kernel.bind_eq_ok.mp h
    have h : setupBspCpuData image { s₃ with
        userCr3 := s₃.userAs, uBuf := page + s₃.alloc.hhdm } = .ok () s' := h
    obtain ⟨f₂, r₂, -⟩ := mapUserPage_ok (s := s.withUser a u) hgraft.wellFormed (Or.inl rfl) h₂
    have hu₂ : s₂.userAs = u := r₂.userAs
    obtain ⟨f₃, r₃, -⟩ := mapUserPage_ok (V := userPages) (by rw [hu₂]; exact f₂.wf) (Or.inr rfl) h₃
    rw [hu₂] at f₃
    have f₃' : Filled userPages u _ _ { s₃ with
        userCr3 := s₃.userAs, uBuf := page + s₃.alloc.hhdm } := (f₂.append f₃).congr rfl rfl
    obtain ⟨f, htake, r₄⟩ := setupBspCpuData_ok f₃'.wf.mine h
    have hu₃ : s'.userAs = u := r₄.userAs.trans (r₃.userAs.trans hu₂)
    refine ⟨s.withUser a u, page, stack, ?_, ?_, ?_, ?_⟩
    · rw [hu₃]
      exact hgraft
    · rw [hu₃]
      exact f₃'.append (htake.filled f₃'.wf)
    · exact r₄.newpml4.trans (r₃.newpml4.trans r₂.newpml4)
    · exact r₄.offst.trans (r₃.offst.trans r₂.offst)

/-- It comes back if there are ten frames, none of them at the end of the direct map. -/
theorem userSpaceInit_returns {s : Vm} (image : Fin 512 → U64)
    (hb : HighWellFormed userPages s.bootRoot s) (hfree : 10 ≤ s.free.length)
    (hz : ∀ f ∈ s.free, f + s.alloc.hhdm ≠ 0) :
    ∃ s', userSpaceInit image s = .ok () s' ∧ s.free.length ≤ s'.free.length + 10 := by
  obtain ⟨u, rest, hf⟩ : ∃ u rest, s.free = u :: rest :=
    List.exists_cons_of_length_pos (by omega)
  obtain ⟨a, hg, ha, hl⟩ := giveRawPage_of_free hb.mine hf
  have hgraft := withUser_graft hb hf ha hl
  have hlen := congrArg List.length hgraft.free
  rw [List.length_cons] at hlen
  obtain ⟨page, s₂, h₂, hlen₂⟩ := mapUserPage_returns (s := s.withUser a u) hgraft.wellFormed
    (Or.inl rfl) (by omega)
  obtain ⟨f₂, r₂, -⟩ := mapUserPage_ok (s := s.withUser a u) hgraft.wellFormed (Or.inl rfl) h₂
  have hw₂ : WellFormed userPages s₂.userAs s₂ := by
    rw [r₂.userAs]; exact f₂.wf
  obtain ⟨stack, s₃, h₃, hlen₃⟩ := mapUserPage_returns hw₂ (Or.inr rfl) (by omega)
  obtain ⟨f₃, r₃, -⟩ := mapUserPage_ok hw₂ (Or.inr rfl) h₃
  obtain ⟨f, rest', hf₃⟩ : ∃ f rest', s₃.free = f :: rest' :=
    List.exists_cons_of_length_pos (by omega)
  have hmem : f ∈ s.free := by
    rw [hgraft.free]
    refine List.mem_cons_of_mem _ ?_
    refine (f₃.grows.free.trans f₂.grows.free).subset ?_
    rw [hf₃]; exact List.mem_cons_self
  have hhdm : s₃.alloc.hhdm = s.alloc.hhdm := by
    rw [r₃.hhdm, r₂.hhdm]
    exact (giveRawPage_sameRest hg).hhdm
  obtain ⟨s', h'⟩ := setupBspCpuData_returns (s := { s₃ with
    userCr3 := s₃.userAs, uBuf := page + s₃.alloc.hhdm }) f₃.wf.mine image hf₃
    (by show f + s₃.alloc.hhdm ≠ 0; rw [hhdm]; exact hz f hmem)
  obtain ⟨g, htake, -⟩ := setupBspCpuData_ok (s := { s₃ with
    userCr3 := s₃.userAs, uBuf := page + s₃.alloc.hhdm }) f₃.wf.mine h'
  have hlen' : s₃.free.length = s'.free.length + 1 := congrArg List.length htake.free
  refine ⟨s', ?_, by omega⟩
  rw [userSpaceInit_eq hg hgraft.root_ne]
  exact (Kernel.bind_of_ok h₂).trans ((Kernel.bind_of_ok h₃).trans h')

theorem index_userPages {v : U64} (hv : v ∈ userPages) : index v 39 = 0 := by
  rcases hv with rfl | rfl <;> rfl

theorem off_userPages {p : List (Fin 512)} {i : Fin 512} (hi : 256 ≤ i.val)
    (hp : p.head? = some i) : ∀ v ∈ userPages, ¬ p <+: path v := by
  rintro v hv ⟨q, hq⟩
  cases p with
  | nil => cases hp
  | cons k p =>
    obtain rfl : k = i := Option.some.inj hp
    obtain ⟨rfl, -⟩ : k = index v 39 ∧ _ := List.cons.inj hq
    rw [index_userPages hv] at hi
    exact absurd hi (by decide)

namespace UserSpace

variable {s s' s₁ : Vm} {page stack : U64} (h : UserSpace s s' s₁ page stack)

include h

theorem free_suffix : s'.free <:+ s.free := by
  refine h.filled.grows.free.trans ?_
  rw [h.graft.free]
  exact List.suffix_cons _ _

theorem root_taken : s'.userAs ∉ s'.free :=
  fun hm => h.filled.wf.apart _ hm [] rfl

theorem keep {f : U64} (hf : f ∉ s.free) : s'.mem f = s.mem f := by
  have hfu : f ≠ s'.userAs := fun e => hf (e ▸ h.graft.mem_free)
  have hf₁ : f ∉ s₁.free := fun hm => hf (by rw [h.graft.free]; exact List.mem_cons_of_mem _ hm)
  rw [← h.graft.mem_of_ne hfu]
  by_cases ht : ∃ p, tableFrom s₁.mem s'.userAs p = some f
  · -- a table of the current PML4, in its higher half
    obtain ⟨p, hp⟩ := ht
    rcases h.graft.table_cases hp with ⟨-, rfl⟩ | ⟨hne, hhigh, -⟩
    · exact absurd rfl hfu
    · obtain ⟨i, q, rfl⟩ := List.exists_cons_of_ne_nil hne
      funext j
      exact h.filled.grows.off _ f j (off_userPages (highPath_cons.mp hhigh) rfl) hp
  · push Not at ht
    exact h.filled.grows.frames f ht hf₁

theorem slot {i : Fin 512} (hi : 256 ≤ i.val) : s'.mem s'.userAs i = s.mem s.bootRoot i := by
  rw [h.filled.grows.off [] s'.userAs i (off_userPages hi rfl) rfl, h.graft.slot, highRow,
    if_pos hi]

/-- The tables of the lower half are frames that were free and are no more. -/
theorem low_table {i : Fin 512} {p : List (Fin 512)} {t : U64} (hi : ¬ 256 ≤ i.val)
    (ht : tableFrom s'.mem s'.userAs (i :: p) = some t) : t ∈ s.free ∧ t ∉ s'.free := by
  refine ⟨?_, fun hm => h.filled.wf.apart t hm _ ht⟩
  rcases h.filled.grows.fresh _ t ht with hold | hnew
  · rw [h.graft.tableFrom_cons, if_neg hi] at hold
    cases hold
  · rw [h.graft.free]
    exact List.mem_cons_of_mem _ hnew

/-- In the lower half exactly the user's pages are mapped. -/
theorem low_mapped {w : U64} (hw : ¬ 256 ≤ (index w 39).val) :
    hwWalk s'.mem s'.userAs w ≠ none ↔ path w = path userCode ∨ path w = path userStack := by
  constructor
  · intro hm
    rcases h.filled.walks w with he | ⟨-, r, hr, hpath, -⟩
    · rw [he, h.graft.hwWalk, if_neg hw] at hm
      exact absurd rfl hm
    · rcases List.mem_cons.mp hr with rfl | hr
      · exact Or.inl hpath.symm
      · obtain rfl := List.mem_singleton.mp hr
        exact Or.inr hpath.symm
  · rintro (hpath | hpath)
    · rw [hwWalk_congr hpath]
      exact h.filled.mapped (userCode, page ||| userFlags) List.mem_cons_self
    · rw [hwWalk_congr hpath]
      exact h.filled.mapped (userStack, stack ||| userFlags)
        (List.mem_cons_of_mem _ List.mem_cons_self)

theorem low_absent {w : U64} (hw : ¬ 256 ≤ (index w 39).val) {p q : List (Fin 512)} {i : Fin 512}
    {t : U64} (hpath : path w = p ++ i :: q) (ht : tableFrom s₁.mem s'.userAs p = some t) :
    s₁.mem t i = 0 := by
  rcases h.graft.table_cases ht with ⟨rfl, rfl⟩ | ⟨hne, hhigh, -⟩
  · obtain ⟨rfl, -⟩ : index w 39 = i ∧ _ := List.cons.inj hpath
    rw [h.graft.slot, highRow, if_neg hw]
  · obtain ⟨k, p, rfl⟩ := List.exists_cons_of_ne_nil hne
    obtain ⟨rfl, -⟩ : index w 39 = k ∧ _ := List.cons.inj hpath
    exact absurd (highPath_cons.mp hhigh) hw

theorem low_user {w : U64} (hw : ¬ 256 ≤ (index w 39).val) {es : List U64}
    (hes : hwWalk s'.mem s'.userAs w = some es) : ∀ e ∈ es, user e = true := by
  rcases h.filled.walks w with he | ⟨-, r, hr, -, ds, hlen, hds⟩
  · rw [he, h.graft.hwWalk, if_neg hw] at hes
    cases hes
  · obtain rfl : ds ++ [r.2] = es := Option.some.inj (hds.symm.trans hes)
    intro e he
    rcases List.mem_append.mp he with he | he
    · obtain ⟨k, hk⟩ := List.getElem?_of_mem he
      obtain ⟨hk3, -⟩ := List.getElem?_eq_some_iff.mp hk
      obtain ⟨g, i, q, hpath, hg, rfl, habs⟩ := walk_getElem hes
        (by rw [List.getElem?_append_left hk3]; exact hk)
      have hlt : ((path w).take k).length < 3 := by
        rw [List.length_take]
        omega
      rcases h.filled.grows.user _ g i hlt hg (present_of_decode habs) with ⟨hold, hsame⟩ | hu
      · exact absurd (present_of_decode habs) (by rw [hsame, h.low_absent hw hpath hold]; decide)
      · exact hu
    · obtain rfl := List.mem_singleton.mp he
      rcases List.mem_cons.mp hr with rfl | hr
      · exact user_or (by decide)
      · obtain rfl := List.mem_singleton.mp hr
        exact user_or (by decide)

end UserSpace

end DejOs
