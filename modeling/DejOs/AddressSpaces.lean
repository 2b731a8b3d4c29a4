import DejOs.UserSpace

/-!
# The three address spaces

The state after `virtual_memory_init`, `user_space_init` and calls of `map_mmio` within the window
(`Spaces`): which rows of which PML4 have changed, and what follows for the walks.

The entries 256 to 511 of `newpml4` and `user_as` stay equal, for later insertions go below the
entry 511, which is present from the ECAM loop on (`Spaces.slot`); if it was present at boot, those
of the boot PML4 are equal too (`Spaces.boot_slot`). So the higher half is walked alike through all
of them (`higher_half_shared`). There the user meets the boot tables, or leaves without `PAGE_USER`;
below it has two pages and nothing else (`userAccessible_iff`).
-/

namespace DejOs

open RadixTable

/-- The states of the boot: at the start (`s₀`), after `virtual_memory_init` (`s₁`), after
`user_space_init` (`s₂`), and after `map_mmio` calls with the addresses `l` (`s₃`). -/
structure Spaces (s₀ s₁ s₂ s₃ : Vm) (l : List U64) : Prop where
  kernel : ∃ t, KernelSpace s₀ s₁ t
  user : ∃ t page stack, UserSpace s₁ s₂ t page stack
  filled : Filled windows s₁.newpml4 (mmioReqs 0 l) s₂ s₃
  newpml4 : s₃.newpml4 = s₁.newpml4
  userAs : s₃.userAs = s₂.userAs

theorem IsFrame.and_not {a : U64} (h : IsFrame a) : a &&& ~~~0xFFF = a := by
  have hmask : frameMask &&& (~~~0xFFF : U64) = frameMask := by decide
  rw [← h.and_mask, BitVec.and_assoc, hmask]

/-- No way of the windows begins at another entry of the PML4 than 511. -/
theorem off_windows {i : Fin 512} (hi : i ≠ 511) : ∀ v ∈ windows, ¬ [] ++ [i] <+: path v := by
  rintro v hv ⟨q, hq⟩
  obtain ⟨rfl, -⟩ : i = index v 39 ∧ _ := List.cons.inj hq
  exact hi (index_windows hv)

/-- The tables of the current PML4 are not touched by `user_space_init`. -/
theorem UserSpace.agree {V : Set U64} {root page stack : U64} {s s' t : Vm}
    (h : UserSpace s s' t page stack) (hw : WellFormed V root s) :
    ∀ p f, tableFrom s.mem root p = some f → s'.mem f = s.mem f :=
  fun p f hp => h.keep fun hm => hw.apart f hm p hp

/-! ## After `virtual_memory_init` -/

namespace KernelSpace

variable {s s' t : Vm} (h : KernelSpace s s' t)

include h

theorem root : s'.bootRoot = s'.newpml4 := by
  have hframe : IsFrame s'.newpml4 := h.graft.high.frames _ h.graft.mem_free
  unfold Vm.bootRoot
  rw [h.cr3, hframe.and_not]

theorem high : HighWellFormed userPages s'.bootRoot s' := by
  rw [h.root]
  refine h.filled.wf.high fun v hv hi => absurd hi ?_
  rw [index_userPages hv]
  decide

theorem free_suffix : s'.free <:+ s.free := by
  refine h.filled.grows.free.trans ?_
  rw [h.graft.free]
  exact List.suffix_cons _ _

theorem boot_taken : s.bootRoot ∉ s.free :=
  fun hm => h.graft.high.apart _ hm [] highPath_nil rfl

theorem boot_not_free : s.bootRoot ∉ t.free := by
  refine fun hm => h.boot_taken ?_
  rw [h.graft.free]
  exact List.mem_cons_of_mem _ hm

/-- The boot PML4 is none of the tables below the one that took over its higher half. -/
theorem boot_apart_graft (p : List (Fin 512)) :
    tableFrom t.mem s'.newpml4 p ≠ some s.bootRoot := by
  intro hp
  rcases h.graft.table_cases hp with ⟨-, he⟩ | ⟨hne, hhigh, hp⟩
  · exact h.graft.root_ne he
  · exact hne (h.graft.high.tree p [] _ hhigh highPath_nil hp rfl)

theorem boot_apart (p : List (Fin 512)) : tableFrom s'.mem s'.newpml4 p ≠ some s.bootRoot := by
  intro hp
  rcases h.filled.grows.fresh p _ hp with hp | hp
  · exact h.boot_apart_graft p hp
  · exact h.boot_not_free hp

theorem boot_row : s'.mem s.bootRoot = s.mem s.bootRoot := by
  rw [h.filled.grows.frames _ h.boot_apart_graft h.boot_not_free, h.graft.mem_of_ne h.graft.root_ne]

/-- If its last entry is present, the new PML4 has its higher half for good. -/
theorem slot (hlast : present (s.mem s.bootRoot 511) = true) {i : Fin 512} (hi : 256 ≤ i.val) :
    s'.mem s'.newpml4 i = s.mem s.bootRoot i := by
  have hgraft : t.mem s'.newpml4 i = s.mem s.bootRoot i := by
    rw [h.graft.slot, highRow, if_pos hi]
  by_cases he : i = 511
  · subst he
    rw [h.filled.grows.entries [] _ 511 rfl (by rw [hgraft]; exact hlast), hgraft]
  · rw [h.filled.grows.off [] _ i (off_windows he) rfl, hgraft]

end KernelSpace

/-! ## After `user_space_init` -/

/-- `map_mmio` finds the kernel's tables as `virtual_memory_init` left them. -/
theorem UserSpace.wf {s₀ s₁ s₂ t u : Vm} {page stack : U64} (hk : KernelSpace s₀ s₁ t)
    (hu : UserSpace s₁ s₂ u page stack) : WellFormed windows s₂.newpml4 s₂ := by
  have hw := hk.filled.wf
  rw [hu.newpml4]
  exact hw.of_agree (hu.agree hw) hu.free_suffix hu.filled.wf.mine

theorem UserSpace.cursor {s₀ s₁ s₂ t u : Vm} {page stack : U64} (hk : KernelSpace s₀ s₁ t)
    (hu : UserSpace s₁ s₂ u page stack) (hoff : s₀.offst = 0) :
    s₂.offst = BitVec.ofNat 64 (4096 * 0) := by
  rw [hu.offst, hk.offst, hoff]
  rfl

theorem spaces_of_ok {s₀ s₁ s₂ s₃ : Vm} {l ptrs : List U64} {r : CInt} {image : Fin 512 → U64}
    (hb : HighWellFormed windows s₀.bootRoot s₀) (hoff : s₀.offst = 0)
    (hinit : virtualMemoryInit s₀ = .ok r s₁) (huser : userSpaceInit image s₁ = .ok () s₂)
    (hlen : l.length ≤ 65536) (hmmio : mapMmios l s₂ = .ok ptrs s₃) :
    Spaces s₀ s₁ s₂ s₃ l := by
  obtain ⟨t, hk⟩ := virtualMemoryInit_ok hb hinit
  obtain ⟨t', page, stack, hu⟩ := userSpaceInit_ok hk.high huser
  have hf := mapMmios_filled (hu.wf hk) (hu.cursor hk hoff) (by omega) hmmio
  rw [hu.newpml4] at hf
  obtain ⟨-, a, m, rfl⟩ := mapMmios_ptrs (hu.cursor hk hoff) hmmio
  exact ⟨⟨t, hk⟩, ⟨t', page, stack, hu⟩, hf, hu.newpml4, rfl⟩

/-! ## After the calls of `map_mmio` -/

namespace Spaces

variable {s₀ s₁ s₂ s₃ : Vm} {l : List U64} (h : Spaces s₀ s₁ s₂ s₃ l)

include h

theorem wf : WellFormed windows s₁.newpml4 s₁ := by
  obtain ⟨t, hk⟩ := h.kernel
  exact hk.filled.wf

theorem present_last : present (s₁.mem s₁.newpml4 511) = true := by
  obtain ⟨t, hk⟩ := h.kernel
  have hmem : ecamReq 0 ∈ ecamReqs 0 pciEcamPages :=
    List.mem_map_of_mem (List.mem_range'_1.mpr ⟨le_refl 0, by decide⟩)
  have hm := hk.filled.mapped _ hmem
  have hidx : index (ecamReq 0).1 39 = 511 := index_windows (pageAt_ecam_mem (by decide))
  by_contra hp
  refine hm (walk_cons_of_absent (decode_of_not_present ?_))
  rw [hidx]
  simpa using hp

theorem tableFrom_user (p : List (Fin 512)) :
    tableFrom s₂.mem s₁.newpml4 p = tableFrom s₁.mem s₁.newpml4 p := by
  obtain ⟨t, page, stack, hu⟩ := h.user
  exact tableAt_congr (Agree.of_tables (hu.agree h.wf))

theorem kernel_row (i : Fin 512) : s₃.mem s₁.newpml4 i = s₁.mem s₁.newpml4 i := by
  obtain ⟨t, page, stack, hu⟩ := h.user
  have hrow : s₂.mem s₁.newpml4 = s₁.mem s₁.newpml4 := hu.agree h.wf [] _ rfl
  by_cases hi : i = 511
  · subst hi
    rw [h.filled.grows.entries [] s₁.newpml4 511 rfl (by rw [hrow]; exact h.present_last), hrow]
  · rw [h.filled.grows.off [] s₁.newpml4 i (off_windows hi) rfl, hrow]

/-- A frame that is no table of the kernel and was not free when `map_mmio` was first called. -/
theorem mmio_keep {f : U64} (hf : ∀ p, tableFrom s₁.mem s₁.newpml4 p ≠ some f)
    (hfree : f ∉ s₂.free) : s₃.mem f = s₂.mem f := by
  refine h.filled.grows.frames f (fun p => ?_) hfree
  rw [h.tableFrom_user]
  exact hf p

theorem slot {i : Fin 512} (hi : 256 ≤ i.val) : s₃.mem s₂.userAs i = s₃.mem s₁.newpml4 i := by
  obtain ⟨t, page, stack, hu⟩ := h.user
  have hrow : s₃.mem s₂.userAs = s₂.mem s₂.userAs :=
    h.mmio_keep (h.wf.apart _ hu.graft.mem_free) hu.root_taken
  obtain ⟨t, hk⟩ := h.kernel
  rw [hrow, hu.slot hi, h.kernel_row, hk.root]

/-- If the last entry was present at boot, the boot PML4 agrees with them. -/
theorem boot_slot (hlast : present (s₀.mem s₀.bootRoot 511) = true) {i : Fin 512}
    (hi : 256 ≤ i.val) : s₃.mem s₁.newpml4 i = s₃.mem s₀.bootRoot i := by
  obtain ⟨t, hk⟩ := h.kernel
  obtain ⟨t', page, stack, hu⟩ := h.user
  have hfree : s₀.bootRoot ∉ s₁.free := fun hm => hk.boot_taken (hk.free_suffix.subset hm)
  have hrow : s₃.mem s₀.bootRoot = s₀.mem s₀.bootRoot := by
    rw [h.mmio_keep hk.boot_apart fun hm => hfree (hu.free_suffix.subset hm), hu.keep hfree,
      hk.boot_row]
  rw [h.kernel_row, hk.slot hlast hi, hrow]

theorem low_walk {w : U64} (hw : ¬ 256 ≤ (index w 39).val) :
    hwWalk s₃.mem s₂.userAs w = hwWalk s₂.mem s₂.userAs w := by
  obtain ⟨t, page, stack, hu⟩ := h.user
  refine walk_congr fun p j q f hpath hf => ?_
  cases p with
  | nil =>
    obtain rfl : s₂.userAs = f := Option.some.inj hf
    exact congrFun (h.mmio_keep (h.wf.apart _ hu.graft.mem_free) hu.root_taken) j
  | cons i p =>
    obtain ⟨rfl, -⟩ : index w 39 = i ∧ _ := List.cons.inj hpath
    obtain ⟨hfree, htaken⟩ := hu.low_table hw hf
    exact congrFun (h.mmio_keep (h.wf.apart _ hfree) htaken) j

/-- In the higher half a walk is that of the boot tables, or ends in a device page. -/
theorem high_walk (hl : ∀ a ∈ l, IsFrame a) {w : U64} (hw : 256 ≤ (index w 39).val) :
    hwWalk s₃.mem s₂.userAs w = hwWalk s₀.mem s₀.bootRoot w ∨ ∃ es phys, IsFrame phys ∧
      hwWalk s₃.mem s₂.userAs w = some (es ++ [phys ||| deviceFlags]) := by
  obtain ⟨t, hk⟩ := h.kernel
  obtain ⟨t', page, stack, hu⟩ := h.user
  have huser : hwWalk s₃.mem s₂.userAs w = hwWalk s₃.mem s₁.newpml4 w :=
    walk_eq_of_slot (h.slot hw)
  rw [huser]
  rcases h.filled.walks w with he | ⟨-, r, hr, -, es, -, hes⟩
  · have hagree : hwWalk s₂.mem s₁.newpml4 w = hwWalk s₁.mem s₁.newpml4 w :=
      hwWalk_of_agree (hu.agree h.wf) w
    rcases hk.filled.walks w with he' | ⟨-, r, hr, -, es, -, hes⟩
    · left
      rw [he, hagree, he', hk.graft.hwWalk, if_pos hw]
    · right
      obtain ⟨k, hk, rfl⟩ := List.mem_map.mp hr
      have hk := (List.mem_range'_1.mp hk).2
      refine ⟨es, (ecamRequest k).phys, ?_, by rw [he, hagree, hes]; rfl⟩
      unfold pciEcamPages at hk
      unfold IsFrame ecamRequest pciEcamPhys
      rw [BitVec.toNat_add, BitVec.toNat_ofNat]
      show (0xB0000000 + _) % 2 ^ 64 % 4096 = 0 ∧ (0xB0000000 + _) % 2 ^ 64 < 2 ^ 52
      omega
  · obtain ⟨j, phys, hj, rfl⟩ := mem_mmioReqs hr
    exact Or.inr ⟨es, phys, hl phys (List.mem_of_getElem? hj), hes⟩

end Spaces

/-! ## What the user reaches -/

def LowerHalf (v : U64) : Prop := v.toNat < 2 ^ 47

def HigherHalf (v : U64) : Prop := 2 ^ 64 - 2 ^ 47 ≤ v.toNat

instance (v : U64) : Decidable (LowerHalf v) := inferInstanceAs (Decidable (_ < _))

instance (v : U64) : Decidable (HigherHalf v) := inferInstanceAs (Decidable (_ ≤ _))

/-- A canonical address that is mapped, with `PAGE_USER` in every entry on the way. -/
def UserAccessible (mem : Mem) (root v : U64) : Prop :=
  (LowerHalf v ∨ HigherHalf v) ∧ ∃ es, hwWalk mem root v = some es ∧ ∀ e ∈ es, user e = true

theorem LowerHalf.index {v : U64} (hv : LowerHalf v) : ¬ 256 ≤ (index v 39).val := by
  unfold LowerHalf at hv
  rw [index_val]
  omega

theorem HigherHalf.index {v : U64} (hv : HigherHalf v) : 256 ≤ (index v 39).val := by
  unfold HigherHalf at hv
  have hlt := v.isLt
  rw [index_val]
  omega

/-- The page that starts at `base`. -/
def InPage (base v : U64) : Prop := base.toNat ≤ v.toNat ∧ v.toNat < base.toNat + 4096

theorem inPage_iff {base v : U64} (hb : base.toNat % 4096 = 0) (hlow : LowerHalf base)
    (hv : LowerHalf v) : InPage base v ↔ path v = path base := by
  unfold LowerHalf at hlow hv
  unfold InPage
  rw [path_eq_iff]
  omega

theorem InPage.lowerHalf {base v : U64} (h : InPage base v) (hb : base.toNat + 4096 ≤ 2 ^ 47) :
    LowerHalf v := by
  unfold InPage at h
  unfold LowerHalf
  omega

theorem inPage_userCode {v : U64} (hv : LowerHalf v) :
    InPage userCode v ↔ path v = path userCode :=
  inPage_iff rfl (by decide) hv

theorem inPage_userStack {v : U64} (hv : LowerHalf v) :
    InPage userStack v ↔ path v = path userStack :=
  inPage_iff rfl (by decide) hv

namespace Spaces

variable {s₀ s₁ s₂ s₃ : Vm} {l : List U64} (h : Spaces s₀ s₁ s₂ s₃ l)

include h

theorem userAccessible_low {v : U64} (hv : LowerHalf v) :
    UserAccessible s₃.mem s₂.userAs v ↔ InPage userCode v ∨ InPage userStack v := by
  obtain ⟨t, page, stack, hu⟩ := h.user
  have hwalk := h.low_walk hv.index
  rw [inPage_userCode hv, inPage_userStack hv, ← hu.low_mapped hv.index, ← hwalk]
  constructor
  · rintro ⟨-, es, hes, -⟩
    rw [hes]
    exact Option.some_ne_none es
  · intro hne
    obtain ⟨es, hes⟩ := Option.ne_none_iff_exists'.mp hne
    exact ⟨Or.inl hv, es, hes, hu.low_user hv.index (hwalk.symm.trans hes)⟩

/-- In the higher half it has what it had at boot at most: the pages of devices are not its own. -/
theorem not_userAccessible_high (hl : ∀ a ∈ l, IsFrame a) {v : U64} (hv : HigherHalf v)
    (hboot : ¬ UserAccessible s₀.mem s₀.bootRoot v) : ¬ UserAccessible s₃.mem s₂.userAs v := by
  rintro ⟨hc, es, hes, huser⟩
  rcases h.high_walk hl hv.index with he | ⟨es', phys, hphys, he⟩
  · exact hboot ⟨hc, es, he.symm.trans hes, huser⟩
  · -- all tables on the way are the user's, the leaf is not
    obtain rfl := Option.some.inj (he.symm.trans hes)
    have hleaf := huser _ (List.mem_append_right _ (List.mem_singleton_self _))
    rw [user_device hphys] at hleaf
    cases hleaf

end Spaces

section Boot

variable {s₀ s₁ s₂ s₃ : Vm} {l ptrs : List U64} {r : CInt} {image : Fin 512 → U64}

/-- **User isolation.** If no address of the higher half is user-accessible in the boot tables, then
after `virtual_memory_init`, `user_space_init` and `map_mmio` calls within the window the user's
address space gives access to the user's two pages and to nothing else. -/
theorem userAccessible_iff (hb : HighWellFormed windows s₀.bootRoot s₀)
    (hboot : ∀ v, HigherHalf v → ¬ UserAccessible s₀.mem s₀.bootRoot v) (hoff : s₀.offst = 0)
    (hinit : virtualMemoryInit s₀ = .ok r s₁) (huser : userSpaceInit image s₁ = .ok () s₂)
    (hl : ∀ a ∈ l, IsFrame a) (hlen : l.length ≤ 65536) (hmmio : mapMmios l s₂ = .ok ptrs s₃)
    (v : U64) :
    UserAccessible s₃.mem s₃.userAs v ↔ InPage userCode v ∨ InPage userStack v := by
  have h := spaces_of_ok hb hoff hinit huser hlen hmmio
  rw [h.userAs]
  constructor
  · intro hacc
    rcases hacc.1 with hv | hv
    · exact (h.userAccessible_low hv).mp hacc
    · exact absurd hacc (h.not_userAccessible_high hl hv (hboot v hv))
  · intro hin
    have hv : LowerHalf v := by
      rcases hin with hin | hin
      · exact hin.lowerHalf (by decide)
      · exact hin.lowerHalf (by decide)
    exact (h.userAccessible_low hv).mpr hin

/-- **The shared higher half.** If the last entry of the boot PML4 is present, then after
`virtual_memory_init`, `user_space_init` and `map_mmio` calls within the window the walk of every
address of the higher half is the same through the boot PML4, `newpml4` and `user_as`. -/
theorem higher_half_shared (hb : HighWellFormed windows s₀.bootRoot s₀)
    (hlast : present (s₀.mem s₀.bootRoot 511) = true) (hoff : s₀.offst = 0)
    (hinit : virtualMemoryInit s₀ = .ok r s₁) (huser : userSpaceInit image s₁ = .ok () s₂)
    (hlen : l.length ≤ 65536) (hmmio : mapMmios l s₂ = .ok ptrs s₃) {v : U64}
    (hv : HigherHalf v) :
    hwWalk s₃.mem s₃.newpml4 v = hwWalk s₃.mem s₀.bootRoot v ∧
      hwWalk s₃.mem s₃.userAs v = hwWalk s₃.mem s₀.bootRoot v := by
  have h := spaces_of_ok hb hoff hinit huser hlen hmmio
  have hboot : hwWalk s₃.mem s₁.newpml4 v = hwWalk s₃.mem s₀.bootRoot v :=
    walk_eq_of_slot (h.boot_slot hlast hv.index)
  have huser : hwWalk s₃.mem s₂.userAs v = hwWalk s₃.mem s₁.newpml4 v :=
    walk_eq_of_slot (h.slot hv.index)
  rw [h.newpml4, h.userAs]
  exact ⟨hboot, huser.trans hboot⟩

end Boot

/-! ### A boot -/

/-- From `bootVm` the kernel's and the user's address space are set up, and frames are left. -/
theorem boot_bootVm_user : ∃ s₁ s₂, virtualMemoryInit bootVm = .ok 0 s₁ ∧
    userSpaceInit (fun _ => 0) s₁ = .ok () s₂ ∧ 3 ≤ s₂.free.length := by
  obtain ⟨s₁, h₁, hfree₁⟩ := virtualMemoryInit_bootVm
  obtain ⟨t, hk⟩ := virtualMemoryInit_ok bootVm_high h₁
  have hz : ∀ f ∈ s₁.free, f + s₁.alloc.hhdm ≠ 0 := by
    intro f hf h0
    have hf := hk.free_suffix.subset hf
    rw [bootVm_free] at hf
    obtain ⟨k, hk', hfk⟩ := mem_bootFrames hf
    have hhdm : s₁.alloc.hhdm = 0xFFFF800000000000 := hk.hhdm
    have h0 := congrArg BitVec.toNat h0
    rw [hhdm, BitVec.toNat_add, hfk] at h0
    simp at h0
    omega
  obtain ⟨s₂, h₂, hfree₂⟩ := userSpaceInit_returns (fun _ => 0) hk.high (by omega) hz
  exact ⟨s₁, s₂, h₁, h₂, by omega⟩

theorem boot_bootVm : ∃ s₁ s₂ s₃ ptrs, virtualMemoryInit bootVm = .ok 0 s₁ ∧
    userSpaceInit (fun _ => 0) s₁ = .ok () s₂ ∧ mapMmios [0xFEE00000] s₂ = .ok ptrs s₃ := by
  obtain ⟨s₁, s₂, h₁, h₂, hfree⟩ := boot_bootVm_user
  obtain ⟨t, hk⟩ := virtualMemoryInit_ok bootVm_high h₁
  obtain ⟨t', page, stack, hu⟩ := userSpaceInit_ok hk.high h₂
  have hneeded := needed_mmio_le s₂.mem s₂.newpml4 [0xFEE00000]
  rw [List.length_singleton] at hneeded
  obtain ⟨ptrs, s₃, h₃⟩ := mapMmios_returns (l := [0xFEE00000]) (hu.wf hk) (hu.cursor hk rfl)
    (by rw [List.length_singleton]; omega) (by omega)
  exact ⟨s₁, s₂, s₃, ptrs, h₁, h₂, h₃⟩

theorem bootVm_not_user (v : U64) : ¬ UserAccessible bootVm.mem bootVm.bootRoot v := by
  rintro ⟨-, es, hes, huser⟩
  have hfirst : user (bootVm.mem bootVm.bootRoot (index v 39)) = false := by
    rw [bootVm_root]
    by_cases hi : index v 39 = 511
    · simp [bootVm, bootMem, hi, user, pageUser]
    · simp [bootVm, bootMem, hi, user]
  rw [huser _ (walk_head hes)] at hfirst
  cases hfirst

theorem userAccessible_iff_bootVm : ∃ s₁ s₂ s₃ ptrs, virtualMemoryInit bootVm = .ok 0 s₁ ∧
    userSpaceInit (fun _ => 0) s₁ = .ok () s₂ ∧ mapMmios [0xFEE00000] s₂ = .ok ptrs s₃ ∧
    UserAccessible s₃.mem s₃.userAs 0x400123 ∧ ¬ UserAccessible s₃.mem s₃.userAs mmioBase := by
  obtain ⟨s₁, s₂, s₃, ptrs, h₁, h₂, h₃⟩ := boot_bootVm
  have hl : ∀ a ∈ [(0xFEE00000 : U64)], IsFrame a := by
    simp [IsFrame]
  have hiff := userAccessible_iff bootVm_high (fun v _ => bootVm_not_user v) rfl h₁ h₂ hl
    (by rw [List.length_singleton]; omega) h₃
  refine ⟨s₁, s₂, s₃, ptrs, h₁, h₂, h₃, (hiff _).mpr ?_, ?_⟩
  · exact Or.inl ⟨by decide, by decide⟩
  · rw [hiff]
    rintro (⟨-, h⟩ | ⟨-, h⟩)
    · exact absurd h (by decide)
    · exact absurd h (by decide)

theorem higher_half_shared_bootVm : ∃ s₁ s₂ s₃ ptrs, virtualMemoryInit bootVm = .ok 0 s₁ ∧
    userSpaceInit (fun _ => 0) s₁ = .ok () s₂ ∧ mapMmios [0xFEE00000] s₂ = .ok ptrs s₃ ∧
    hwWalk s₃.mem s₃.newpml4 mmioBase = hwWalk s₃.mem bootVm.bootRoot mmioBase ∧
      hwWalk s₃.mem s₃.userAs mmioBase = hwWalk s₃.mem bootVm.bootRoot mmioBase := by
  obtain ⟨s₁, s₂, s₃, ptrs, h₁, h₂, h₃⟩ := boot_bootVm
  have hlast : present (bootVm.mem bootVm.bootRoot 511) = true := by
    rw [bootVm_root]
    rfl
  have hv : HigherHalf mmioBase := by decide
  exact ⟨s₁, s₂, s₃, ptrs, h₁, h₂, h₃, higher_half_shared bootVm_high hlast rfl h₁ h₂
    (by rw [List.length_singleton]; omega) h₃ hv⟩

end DejOs
