import DejOs.AddressSpaces

/-!
# The entry into user mode

`enter_userspace` of `u_space.c` hands `jmp2user` the instruction pointer `0x400000` and the stack
pointer `0x801000 + KiB(4)`. `user_space_init` has mapped the page at `0x400000` and the page at
`0x800000`: the top of that stack is `0x801000`, and the 4096 bytes below the pointer that is passed
are the page behind it, which is not mapped (`userStack_unmapped`).

The higher half of the user's PML4 is that of the boot tables, about which nothing is assumed here.
The user's pages have indices below 256 at every level, so `user_space_init` does the same when the
upper half of every table is blanked out (`LowerOnly`), and then the user's PML4 starts blank.
-/

namespace DejOs

open RadixTable

/-! ## The code -/

/-- What `iretq` loads, and the page table it runs on. -/
structure UserContext where
  cr3 : U64
  rip : U64
  cs : U64
  rflags : U64
  rsp : U64
  ss : U64
  deriving DecidableEq, Repr

/-- `jmp2user` -/
def jmp2user (userCr3 rflags rip rsp : U64) : UserContext where
  cr3 := userCr3
  rip := rip
  cs := 0x3B
  rflags := rflags ||| 0x200
  rsp := rsp
  ss := 0x43

/-- `enter_userspace`; the interrupt vector it registers first is not of this state. `KiB(4)` is
`4 * 1024`. -/
def enterUserspace (s : Vm) (rflags : U64) : UserContext :=
  jmp2user s.userCr3 rflags 0x400000 (0x801000 + 4 * 1024)

/-! ## What the user needs -/

/-- The byte at `v` is in a frame that `user_space_init` took between `s` and `s'`, and every entry
on the way to it in `user_as` has these flags. -/
def UserByte (s s' : Vm) (flags v : U64) : Prop :=
  ∃ es p, hwWalk s'.mem s'.userAs v = some es ∧ (∀ e ∈ es, e &&& flags = flags) ∧
    translate s'.mem s'.userAs v = some p ∧ p &&& ~~~0xFFF ∈ s.free ∧ p &&& ~~~0xFFF ∉ s'.free

/-- The page at the instruction pointer and the 4096 bytes below the stack pointer are the user's,
the latter writable. -/
structure EntryMapped (s s' : Vm) (c : UserContext) : Prop where
  code : ∀ v : U64, v.toNat / 4096 = c.rip.toNat / 4096 →
    UserByte s s' (pagePresent ||| pageUser) v
  stack : ∀ v : U64, v < c.rsp → c.rsp.toNat ≤ v.toNat + 4096 →
    UserByte s s' (pagePresent ||| pageUser ||| pageWrite) v

/-! ## The lower halves of the tables -/

/-- A row with the upper half blank. -/
def lowRow (row : Fin 512 → U64) : Fin 512 → U64 := fun i => if i.val < 256 then row i else 0

/-- The state with the upper half of every table blank. -/
def Vm.lower (s : Vm) : Vm := { s with mem := fun t => lowRow (s.mem t) }

theorem lower_mem {s : Vm} {t : U64} {i : Fin 512} (hi : i.val < 256) :
    s.lower.mem t i = s.mem t i := if_pos hi

theorem lower_update (mem : Mem) (f : U64) (row : Fin 512 → U64) :
    (fun t => lowRow (Function.update mem f row t)) =
      Function.update (fun t => lowRow (mem t)) f (lowRow row) := by
  funext t
  by_cases ht : t = f
  · rw [ht, Function.update_self, Function.update_self]
  · rw [Function.update_of_ne ht, Function.update_of_ne ht]

theorem lowRow_zero : lowRow (fun _ => 0) = fun _ => 0 := by
  funext i
  simp [lowRow]

theorem lower_put (mem : Mem) (t : U64) {i : Fin 512} (hi : i.val < 256) (e : U64) :
    (fun f => lowRow (put mem t i e f)) = put (fun f => lowRow (mem f)) t i e := by
  unfold put
  rw [lower_update]
  congr 1
  funext j
  by_cases hj : j = i
  · rw [hj, Function.update_self]
    simp [lowRow, hi]
  · rw [Function.update_of_ne hj]
    simp [lowRow, Function.update_of_ne hj]

/-- A call that does the same when the upper halves are blank. -/
def LowerOnly {α : Type} (x : Kernel Vm α) : Prop :=
  ∀ s a s', x s = .ok a s' → x s.lower = .ok a s'.lower

theorem LowerOnly.bind {α β : Type} {x : Kernel Vm α} {f : α → Kernel Vm β} (hx : LowerOnly x)
    (hf : ∀ a, LowerOnly (f a)) : LowerOnly (x >>= f) := by
  intro s b s' h
  obtain ⟨a, t, hxs, hft⟩ := Kernel.bind_eq_ok.mp h
  rw [Kernel.bind_of_ok (hx s a t hxs)]
  exact hf a t b s' hft

theorem lowerOnly_pure {α : Type} (a : α) : LowerOnly (pure a : Kernel Vm α) := by
  intro s b s' h
  obtain ⟨rfl, rfl⟩ := EStateM.Result.ok.inj h
  rfl

theorem lowerOnly_giveRawPage : LowerOnly giveRawPage := by
  intro s u s' h
  unfold giveRawPage Kernel.zoom at h ⊢
  have halloc : s.lower.alloc = s.alloc := rfl
  rw [halloc]
  cases hg : Allocator.giveRawPage s.alloc with
  | ok f a =>
    rw [hg] at h
    obtain ⟨rfl, rfl⟩ := EStateM.Result.ok.inj h
    rfl
  | error e a =>
    rw [hg] at h
    cases h

theorem lowerOnly_memsetPage (page : U64) : LowerOnly (memsetPage page) := by
  intro s a s' h
  obtain ⟨rfl, rfl⟩ := EStateM.Result.ok.inj h
  have hmem := lower_update s.mem page fun _ => 0
  rw [lowRow_zero] at hmem
  unfold Vm.lower
  rw [hmem]
  rfl

theorem lowerOnly_nextTable (t : U64) {i : Fin 512} (hi : i.val < 256) :
    LowerOnly (nextTable t i) := by
  intro s g s' h
  have hread : s.lower.mem t i = s.mem t i := lower_mem hi
  cases hp : present (s.mem t i) with
  | true =>
    rw [nextTable_of_present hp] at h
    obtain ⟨rfl, rfl⟩ := EStateM.Result.ok.inj h
    rw [nextTable_of_present (by rw [hread]; exact hp), hread]
  | false =>
    cases hg : giveRawPage s with
    | ok page s₁ =>
      rw [nextTable_of_ok hp hg] at h
      obtain ⟨rfl, rfl⟩ := EStateM.Result.ok.inj h
      rw [nextTable_of_ok (by rw [hread]; exact hp) (lowerOnly_giveRawPage s page s₁ hg)]
      congr 1
      unfold Vm.lower
      simp only [lower_put _ t hi, lower_update, lowRow_zero]
    | error e s₁ =>
      rw [nextTable_of_error hp hg] at h
      cases h

theorem lowerOnly_descend {l : List (Fin 512)} (hl : ∀ i ∈ l, i.val < 256) (t : U64) :
    LowerOnly (descend t l) := by
  induction l generalizing t with
  | nil => exact lowerOnly_pure t
  | cons i l ih =>
    exact (lowerOnly_nextTable t (hl i List.mem_cons_self)).bind fun g =>
      ih (fun j hj => hl j (List.mem_cons_of_mem i hj)) g

theorem lowerOnly_mapLeaf (t v phys flags : U64) (hi : (index v 12).val < 256) :
    LowerOnly (mapLeaf t v phys flags) := by
  intro s r s' h
  have hread : s.lower.mem t (index v 12) = s.mem t (index v 12) := lower_mem hi
  cases hp : present (s.mem t (index v 12)) with
  | true =>
    rw [mapLeaf_of_present hp] at h
    obtain ⟨rfl, rfl⟩ := EStateM.Result.ok.inj h
    rw [mapLeaf_of_present (by rw [hread]; exact hp)]
  | false =>
    rw [mapLeaf_of_absent hp] at h
    obtain ⟨rfl, rfl⟩ := EStateM.Result.ok.inj h
    rw [mapLeaf_of_absent (by rw [hread]; exact hp)]
    congr 1
    unfold Vm.leaf Vm.lower
    simp only [lower_put _ t hi]

/-- All indices of the address are in the lower halves. -/
def LowPath (v : U64) : Prop := ∀ i ∈ path v, i.val < 256

/-- Such are the addresses below 512 MiB that fall into the lower half of their page table. -/
theorem lowPath_of_lt {v : U64} (h : v.toNat < 2 ^ 29) (hpage : v.toNat / 4096 % 512 < 256) :
    LowPath v := by
  unfold LowPath path
  simp only [List.forall_mem_cons, index_val]
  refine ⟨by omega, by omega, by omega, by omega, fun i hi => absurd hi List.not_mem_nil⟩

theorem lowerOnly_mapPage (root v phys flags : U64) (hv : LowPath v) :
    LowerOnly (mapPage root v phys flags) := by
  unfold LowPath at hv
  rw [path_eq] at hv
  rw [mapPage_eq]
  exact (lowerOnly_descend (fun i hi => hv i (List.mem_append_left _ hi)) root).bind fun t =>
    lowerOnly_mapLeaf t v phys flags (hv _ (List.mem_append_right _ (List.mem_singleton_self _)))

theorem lowerOnly_mapUserPage (v : U64) (hv : LowPath v) : LowerOnly (mapUserPage v) := by
  unfold mapUserPage
  refine lowerOnly_giveRawPage.bind fun page => (lowerOnly_memsetPage page).bind fun _ => ?_
  intro s r s' h
  exact ((lowerOnly_mapPage s.userAs v page userFlags hv).bind fun _ =>
    lowerOnly_pure page) s r s' h

/-- The walk of such an address does not see the upper halves. -/
theorem hwWalk_lower {v : U64} (hv : LowPath v) (s : Vm) (root : U64) :
    hwWalk s.lower.mem root v = hwWalk s.mem root v := by
  apply walk_congr
  intro q i r t hp _
  exact lower_mem (hv i (by rw [hp]; exact List.mem_append_right _ List.mem_cons_self))

theorem Takes.lower {f : U64} {s s' : Vm} (h : Takes f s s') : Takes f s.lower s'.lower where
  free := h.free
  mem := by
    obtain ⟨row, hrow⟩ := h.mem
    refine ⟨lowRow row, ?_⟩
    show (fun t => lowRow (s'.mem t)) = _
    rw [hrow, lower_update]
    rfl
  mine := h.mine

/-! ## `user_space_init` without the boot tables -/

/-- What the boot leaves behind: a page list of distinct frames, and the lock not held by another
CPU. -/
structure PagesReady (s : Vm) : Prop where
  frames : ∀ f ∈ s.free, IsFrame f
  nodup : s.free.Nodup
  mine : s.alloc.lock.Mine s.alloc.cpu

theorem HighWellFormed.ready {V : Set U64} {root : U64} {s : Vm} (h : HighWellFormed V root s) :
    PagesReady s := ⟨h.frames, h.nodup, h.mine⟩

theorem PagesReady.lower {s : Vm} (h : PagesReady s) : PagesReady s.lower :=
  ⟨h.frames, h.nodup, h.mine⟩

theorem tableFrom_blankRoot {mem : Mem} {root t : U64} {p : List (Fin 512)}
    (hz : ∀ i, mem root i = 0) (h : tableFrom mem root p = some t) : p = [] ∧ t = root := by
  cases p with
  | nil => exact ⟨rfl, (Option.some.inj h).symm⟩
  | cons i p =>
    have hnone : tableFrom mem root (i :: p) = none :=
      tableAt_cons_of_absent (decode_of_not_present (by rw [hz]; rfl))
    cases hnone.symm.trans h

theorem wellFormed_blankRoot {V : Set U64} {root : U64} {s : Vm} (hs : PagesReady s)
    (hz : ∀ i, s.mem root i = 0) (hroot : root ∉ s.free) : WellFormed V root s where
  tree p q t hp hq := by
    rw [(tableFrom_blankRoot hz hp).1, (tableFrom_blankRoot hz hq).1]
  clean v _ p j q t _ _ ht hpr := by
    rw [(tableFrom_blankRoot hz ht).2, hz] at hpr
    cases hpr
  frames := hs.frames
  nodup := hs.nodup
  apart f hf p hp := hroot ((tableFrom_blankRoot hz hp).2 ▸ hf)
  mine := hs.mine

/-- What is left to do when the new PML4 is filled: its lower half is clear. -/
theorem userSpaceInit_begins {s s' : Vm} {image : Fin 512 → U64} (hs : PagesReady s)
    (h : userSpaceInit image s = .ok () s') :
    ∃ s₁, PagesReady s₁ ∧ s₁.userAs ∉ s₁.free ∧
      (∀ i : Fin 512, i.val < 256 → s₁.mem s₁.userAs i = 0) ∧ (do
        let page ← mapUserPage userCode
        let _ ← mapUserPage userStack
        modify fun s => { s with userCr3 := s.userAs, uBuf := page + s.alloc.hhdm }
        setupBspCpuData image : Kernel Vm Unit) s₁ = .ok () s' := by
  cases hf : s.free with
  | nil =>
    obtain ⟨a, ha⟩ := giveRawPage_of_none hs.mine hf
    have herr : userSpaceInit image s = _ := Kernel.bind_of_error ha
    rw [herr] at h
    cases h
  | cons u rest =>
    obtain ⟨a, hg, ha, hl⟩ := giveRawPage_of_free hs.mine hf
    have hnodup := hs.nodup
    rw [hf, List.nodup_cons] at hnodup
    have hframes := hs.frames
    rw [hf] at hframes
    rw [← ha] at hframes hnodup
    refine ⟨_, ⟨?_, ?_, ?_⟩, ?_, ?_, (Kernel.bind_of_ok hg).symm.trans h⟩
    · exact fun f hm => hframes f (List.mem_cons_of_mem u hm)
    · exact hnodup.2
    · exact Or.inl hl
    · exact hnodup.1
    · intro i hi
      simp [hi]

/-- In the lower halves of the tables `user_space_init` has filled a blank PML4 with the two
pages. -/
theorem userSpaceInit_lower {s s' : Vm} {image : Fin 512 → U64} (hs : PagesReady s)
    (h : userSpaceInit image s = .ok () s') :
    ∃ s₁ page stack, (∀ i, s₁.mem s'.userAs i = 0) ∧ Filled userPages s'.userAs
      [(userCode, page ||| userFlags), (userStack, stack ||| userFlags)] s₁ s'.lower := by
  obtain ⟨s₁, hready, hapart, hlow, h⟩ := userSpaceInit_begins hs h
  have hzero : ∀ i, s₁.lower.mem s₁.userAs i = 0 := by
    intro i
    by_cases hi : i.val < 256
    · rw [lower_mem hi, hlow i hi]
    · exact if_neg hi
  have hw : WellFormed userPages s₁.lower.userAs s₁.lower :=
    wellFormed_blankRoot hready.lower hzero hapart
  obtain ⟨page, s₂, h₂, h⟩ := Kernel.bind_eq_ok.mp h
  obtain ⟨stack, s₃, h₃, h⟩ := Kernel.bind_eq_ok.mp h
  have h : setupBspCpuData image { s₃ with
      userCr3 := s₃.userAs, uBuf := page + s₃.alloc.hhdm } = .ok () s' := h
  -- the two pages
  obtain ⟨f₂, r₂, -⟩ := mapUserPage_ok hw (Or.inl rfl)
    (lowerOnly_mapUserPage userCode (lowPath_of_lt (by decide) (by decide)) s₁ page s₂ h₂)
  have huser₂ : s₂.lower.userAs = s₁.lower.userAs := r₂.userAs
  obtain ⟨f₃, r₃, -⟩ := mapUserPage_ok (V := userPages) (by rw [huser₂]; exact f₂.wf) (Or.inr rfl)
    (lowerOnly_mapUserPage userStack (lowPath_of_lt (by decide) (by decide)) s₂ stack s₃ h₃)
  rw [huser₂] at f₃
  have f₃' : Filled userPages s₁.lower.userAs _ s₁.lower (Vm.lower { s₃ with
      userCr3 := s₃.userAs, uBuf := page + s₃.alloc.hhdm }) := (f₂.append f₃).congr rfl rfl
  -- `setup_bsp_cpu_data` takes a frame of its own
  have hmine : s₃.alloc.lock.Mine s₃.alloc.cpu := f₃'.wf.mine
  obtain ⟨f, htake, r₄⟩ := setupBspCpuData_ok (s := { s₃ with
    userCr3 := s₃.userAs, uBuf := page + s₃.alloc.hhdm }) hmine h
  have huser₄ : s'.userAs = s₁.lower.userAs := r₄.userAs.trans (r₃.userAs.trans huser₂)
  rw [huser₄]
  exact ⟨s₁.lower, page, stack, hzero, f₃'.append (htake.lower.filled f₃'.wf)⟩

/-! ## The stack -/

theorem path_below_rsp {v : U64} (hlt : v.toNat < 0x802000) (hge : 0x801000 ≤ v.toNat) :
    path v = path 0x801000 := by
  rw [path_eq_iff]
  have hbase : (0x801000 : U64).toNat = 0x801000 := rfl
  omega

theorem hwWalk_below_rsp {s s' : Vm} {image : Fin 512 → U64} (hs : PagesReady s)
    (h : userSpaceInit image s = .ok () s') {v : U64} (hlt : v.toNat < 0x802000)
    (hge : 0x801000 ≤ v.toNat) : hwWalk s'.mem s'.userAs v = none := by
  obtain ⟨s₁, page, stack, hzero, hfilled⟩ := userSpaceInit_lower hs h
  have hpath := path_below_rsp hlt hge
  have hlow : LowPath v := lowPath_of_lt (by omega) (by omega)
  rw [← hwWalk_lower hlow, hfilled.walk_of_other]
  · exact walk_cons_of_absent (decode_of_not_present (by rw [hzero]; rfl))
  · intro r hr
    rw [hpath]
    rcases List.mem_cons.mp hr with rfl | hr
    · show path userCode ≠ path 0x801000
      decide
    · obtain rfl := List.mem_singleton.mp hr
      show path userStack ≠ path 0x801000
      decide

theorem enterUserspace_rsp (s : Vm) (rflags : U64) : (enterUserspace s rflags).rsp = 0x802000 := rfl

theorem not_entryMapped {s s' : Vm} {image : Fin 512 → U64} (hs : PagesReady s)
    (h : userSpaceInit image s = .ok () s') (rflags : U64) :
    ¬ EntryMapped s s' (enterUserspace s' rflags) := by
  intro hmapped
  obtain ⟨es, p, hes, -⟩ := hmapped.stack 0x801FFF (by rw [enterUserspace_rsp]; decide)
    (by rw [enterUserspace_rsp]; decide)
  rw [hwWalk_below_rsp hs h (by decide) (by decide)] at hes
  cases hes

/-- **The user's first push faults.** Whenever `user_space_init` comes back, no byte of the 4096
below the stack pointer that `enter_userspace` passes is mapped in `user_as`. -/
theorem userStack_unmapped {s s' : Vm} {image : Fin 512 → U64} (hs : PagesReady s)
    (h : userSpaceInit image s = .ok () s') (rflags : U64) :
    (∀ v : U64, v < (enterUserspace s' rflags).rsp →
      (enterUserspace s' rflags).rsp.toNat ≤ v.toNat + 4096 →
      translate s'.mem s'.userAs v = none) ∧ ¬ EntryMapped s s' (enterUserspace s' rflags) := by
  refine ⟨fun v hlt hge => ?_, not_entryMapped hs h rflags⟩
  rw [enterUserspace_rsp] at hlt hge
  have hlt : v.toNat < 0x802000 := BitVec.lt_def.mp hlt
  have hge : 0x802000 ≤ v.toNat + 4096 := hge
  unfold translate
  rw [hwWalk_below_rsp hs h hlt (by omega)]
  rfl

theorem userStack_unmapped_bootVm : ∃ s₁ s₂, virtualMemoryInit bootVm = .ok 0 s₁ ∧
    userSpaceInit (fun _ => 0) s₁ = .ok () s₂ ∧ translate s₂.mem s₂.userAs 0x801FF8 = none := by
  obtain ⟨s₁, s₂, h₁, h₂, -⟩ := boot_bootVm_user
  obtain ⟨t, hk⟩ := virtualMemoryInit_ok bootVm_high h₁
  exact ⟨s₁, s₂, h₁, h₂, (userStack_unmapped hk.high.ready h₂ 0x2).1 0x801FF8
    (by rw [enterUserspace_rsp]; decide) (by rw [enterUserspace_rsp]; decide)⟩

/-- From `bootVm` the user is entered without a stack. -/
theorem bootVm_not_entryMapped : ∃ s₁ s₂, virtualMemoryInit bootVm = .ok 0 s₁ ∧
    userSpaceInit (fun _ => 0) s₁ = .ok () s₂ ∧ ¬ EntryMapped s₁ s₂ (enterUserspace s₂ 0x2) := by
  obtain ⟨s₁, s₂, h₁, h₂, -⟩ := boot_bootVm_user
  obtain ⟨t, hk⟩ := virtualMemoryInit_ok bootVm_high h₁
  exact ⟨s₁, s₂, h₁, h₂, not_entryMapped hk.high.ready h₂ 0x2⟩

end DejOs
