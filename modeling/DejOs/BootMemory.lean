import DejOs.AddressSpaces
import DejOs.Ecam
import DejOs.PageList
import DejOs.Panic

/-!
# The memory stages of the boot in one run

`kentry` calls `memory_init`, `virtual_memory_init` and `user_space_init` one after the other, and
the drivers then map their devices with `map_mmio`. Here they are one computation (`bootMemory`),
from what the boot loader hands over (`Handover`): `page_list` has 10000 frames, of which the three
stages use 395 at most and the window of 65536 device pages 384.

So the boot comes through for every memory map that `memory_init` gets frames from, and for every
list of devices that fits in the window; and both address spaces are then what they should be.
Without a frame the first `__giverawpage` panics (`bootMemory_iff`).
-/

namespace DejOs

open RadixTable

/-- The 4 KiB from `a` on are usable memory. -/
def InUsable (memmap : List MemmapEntry) (a : ℕ) : Prop :=
  ∃ e ∈ usable memmap, e.base.toNat ≤ a ∧ a + 4096 ≤ e.base.toNat + e.length.toNat

/-- What the boot loader hands over: the memory map, the direct map and the tables in `cr3`. -/
structure Handover (memmap : List MemmapEntry) (hhdm : U64) (s : Vm) : Prop where
  limine : LimineMap memmap
  /-- `memory_init` overestimates its first entry; there is memory for the whole list all the
  same. -/
  room : ∀ e ∈ (live memmap).head?, ∀ k < maxPages, InUsable memmap (e.start + 4096 * k)
  /-- The direct map of usable memory does not wrap around. -/
  direct : ∀ e ∈ usable memmap, hhdm.toNat + e.base.toNat + e.length.toNat ≤ 2 ^ 64
  /-- The tables of the higher half are in memory that is not usable. -/
  tables : ∀ p t, HighPath p → tableFrom s.mem s.bootRoot p = some t → ¬ InUsable memmap t.toNat
  tree : ∀ p q t, HighPath p → HighPath q → tableFrom s.mem s.bootRoot p = some t →
    tableFrom s.mem s.bootRoot q = some t → p = q
  clean : ∀ v ∈ windows, ∀ p j q t, path v = p ++ j :: q → q ≠ [] →
    tableFrom s.mem s.bootRoot p = some t → present (s.mem t j) = true → clean (s.mem t j) = true
  unmapped : ∀ v ∈ windows, hwWalk s.mem s.bootRoot v = none
  supervisor : ∀ v, HigherHalf v → ¬ UserAccessible s.mem s.bootRoot v
  mine : s.alloc.lock.Mine s.alloc.cpu
  offst : s.offst = 0

/-- The calls of `kentry` and of the drivers after it, which map devices at the addresses `l`. -/
def bootMemory (memmap : List MemmapEntry) (hhdm : U64) (image : Fin 512 → U64) (l : List U64) :
    Kernel Vm (List U64) := do
  Panic.memoryStage memmap hhdm
  let _ ← virtualMemoryInit
  userSpaceInit image
  mapMmios l

/-- What it is for: devices at `l` behind the pointers `ptrs`, and two address spaces. -/
structure Booted (l ptrs : List U64) (s : Vm) : Prop where
  ptrs_eq : ptrs = (List.range' 0 l.length).map (pageAt mmioBase)
  devices : ∀ k a, l[k]? = some a → translate s.mem s.newpml4 (pageAt mmioBase k) = some a
  ecam : ∀ k < pciEcamPages, translate s.mem s.newpml4 (pageAt pciEcamBase k) =
    some (pciEcamPhys + BitVec.ofNat 64 (4096 * k))
  /-- The higher half is the same in both. -/
  shared : ∀ v, HigherHalf v → hwWalk s.mem s.userAs v = hwWalk s.mem s.newpml4 v
  isolation : ∀ v, UserAccessible s.mem s.userAs v ↔ InPage userCode v ∨ InPage userStack v
  wf : WellFormed windows s.newpml4 s

/-! ## The page list -/

/-- The frames of `page_list`, from `a` on. -/
def poolFrames (a : ℕ) : List U64 :=
  (List.range maxPages).map fun k => BitVec.ofNat 64 (a + 4096 * k)

theorem initEntries_hhdm (memmap : List MemmapEntry) (m : MemoryGlobals) :
    (initEntries memmap m).hhdm = m.hhdm := by
  induction memmap generalizing m with
  | nil => rfl
  | cons e es ih =>
    unfold initEntries
    cases e.type with
    | usable =>
      rcases addEntry e m.pages with ⟨pages, jump⟩
      cases jump with
      | true => rfl
      | false => exact ih _
    | _ => exact ih _

/-- The state after `memory_init`. -/
def Vm.withPages (s : Vm) (memmap : List MemmapEntry) (hhdm : U64) : Vm :=
  { s with alloc := { s.alloc with pages := (memoryInit memmap hhdm).2.pages, hhdm := hhdm } }

theorem memoryStage_eq (memmap : List MemmapEntry) (hhdm : U64) (s : Vm) :
    Panic.memoryStage memmap hhdm s = .ok () (s.withPages memmap hhdm) := by
  have hh : (memoryInit memmap hhdm).2.hhdm = hhdm := initEntries_hhdm memmap _
  show EStateM.Result.ok () { s with alloc := { s.alloc with
    pages := (memoryInit memmap hhdm).2.pages, hhdm := (memoryInit memmap hhdm).2.hhdm } } = _
  rw [hh]
  rfl

theorem withPages_free_nil {memmap : List MemmapEntry} (hlive : live memmap = []) (hhdm : U64)
    (s : Vm) : (s.withPages memmap hhdm).free = [] := by
  show freeFrames (memoryInit memmap hhdm).2.pages = []
  rw [memoryInit_pages, hlive]
  rfl

theorem withPages_free {memmap : List MemmapEntry} (hm : LimineMap memmap) {e : MemmapEntry}
    {es : List MemmapEntry} (hlive : live memmap = e :: es) (hhdm : U64) (s : Vm) :
    (s.withPages memmap hhdm).free = poolFrames e.start := by
  obtain ⟨-, -, hlen, htake⟩ := hm.take_scanned (e := e) (hlive ▸ List.mem_cons_self)
  show freeFrames (memoryInit memmap hhdm).2.pages = _
  rw [memoryInit_pages, hlive, List.flatMap_cons, List.take_append_of_le_length hlen, htake,
    ← freeFrames_unused (poolFrames e.start)]
  unfold poolFrames
  rw [List.map_map, List.map_map]
  rfl

theorem mem_poolFrames {a : ℕ} (ha : a < 2 ^ 52) {f : U64} (hf : f ∈ poolFrames a) :
    ∃ k < maxPages, f.toNat = a + 4096 * k := by
  obtain ⟨k, hk, rfl⟩ := List.mem_map.mp hf
  rw [List.mem_range] at hk
  refine ⟨k, hk, ?_⟩
  unfold maxPages at hk
  rw [BitVec.toNat_ofNat]
  exact Nat.mod_eq_of_lt (by omega)

theorem poolFrames_nodup {a : ℕ} (ha : a < 2 ^ 52) : (poolFrames a).Nodup := by
  refine List.Nodup.map_on (fun i hi j hj hij => ?_) List.nodup_range
  rw [List.mem_range] at hi hj
  unfold maxPages at hi hj
  have hij := congrArg BitVec.toNat hij
  rw [BitVec.toNat_ofNat, BitVec.toNat_ofNat, Nat.mod_eq_of_lt (by omega),
    Nat.mod_eq_of_lt (by omega)] at hij
  omega

theorem length_poolFrames (a : ℕ) : (poolFrames a).length = 10000 := by
  unfold poolFrames
  rw [List.length_map, List.length_range]
  rfl

/-! ## The stages -/

namespace Handover

variable {memmap : List MemmapEntry} {hhdm : U64} {s : Vm} (h : Handover memmap hhdm s)
  {e : MemmapEntry} {es : List MemmapEntry}

include h

theorem frame_usable (hlive : live memmap = e :: es) {f : U64}
    (hf : f ∈ (s.withPages memmap hhdm).free) : IsFrame f ∧ 0x100000 ≤ f.toNat ∧
      InUsable memmap f.toNat := by
  obtain ⟨hstart, hdvd, -⟩ := h.limine.take_scanned (e := e) (hlive ▸ List.mem_cons_self)
  rw [withPages_free h.limine hlive] at hf
  obtain ⟨k, hk, hfk⟩ := mem_poolFrames hstart hf
  obtain ⟨u, hu, hbase, hend⟩ := h.room e (by rw [hlive]; rfl) k hk
  have hlt := h.limine.end_lt u hu
  have hlow : 0x100000 ≤ e.start := le_max_right _ _
  rw [hfk]
  refine ⟨?_, by omega, u, hu, hbase, hend⟩
  unfold IsFrame
  omega

/-- After `memory_init` the boot tables and the free frames are fit for `virtual_memory_init`. -/
theorem high (hlive : live memmap = e :: es) :
    HighWellFormed windows (s.withPages memmap hhdm).bootRoot (s.withPages memmap hhdm) where
  tree := h.tree
  clean v hv _ := h.clean v hv
  frames f hf := (h.frame_usable hlive hf).1
  nodup := by
    rw [withPages_free h.limine hlive]
    exact poolFrames_nodup (h.limine.take_scanned (hlive ▸ List.mem_cons_self)).1
  apart f hf p hp ht := h.tables p f hp ht (h.frame_usable hlive hf).2.2
  mine := h.mine

theorem virt_ne_zero (hlive : live memmap = e :: es) {f : U64}
    (hf : f ∈ (s.withPages memmap hhdm).free) : f + hhdm ≠ 0 := by
  obtain ⟨-, hlow, u, hu, hbase, hend⟩ := h.frame_usable hlive hf
  have hdirect := h.direct u hu
  intro hzero
  have hsum : (f.toNat + hhdm.toNat) % 2 ^ 64 = 0 := by
    rw [← BitVec.toNat_add, hzero]
    rfl
  rw [Nat.mod_eq_of_lt (by omega)] at hsum
  omega

theorem stages_return (hlive : live memmap = e :: es) (image : Fin 512 → U64) {l : List U64}
    (hlen : l.length ≤ 65536) : ∃ s₁ s₂ s' ptrs,
      virtualMemoryInit (s.withPages memmap hhdm) = .ok 0 s₁ ∧
      userSpaceInit image s₁ = .ok () s₂ ∧ mapMmios l s₂ = .ok ptrs s' := by
  have hfree : (s.withPages memmap hhdm).free.length = 10000 := by
    rw [withPages_free h.limine hlive, length_poolFrames]
  have hecam := needed_ecam_le (s.withPages memmap hhdm).mem (s.withPages memmap hhdm).bootRoot
  obtain ⟨s₁, h₁, hfree₁⟩ := virtualMemoryInit_returns (h.high hlive)
    (fun f hf => (h.frame_usable hlive hf).2.1) (by omega)
  obtain ⟨t, hk⟩ := virtualMemoryInit_ok (h.high hlive) h₁
  have hz : ∀ f ∈ s₁.free, f + s₁.alloc.hhdm ≠ 0 := by
    intro f hf
    rw [hk.hhdm]
    exact h.virt_ne_zero hlive (hk.free_suffix.subset hf)
  obtain ⟨s₂, h₂, hfree₂⟩ := userSpaceInit_returns image hk.high (by omega) hz
  obtain ⟨t', page, stack, hu⟩ := userSpaceInit_ok hk.high h₂
  have hmmio := needed_mmio_le s₂.mem s₂.newpml4 l
  obtain ⟨ptrs, s', h'⟩ := mapMmios_returns (l := l) (hu.wf hk) (hu.cursor hk h.offst)
    (by omega) (by omega)
  exact ⟨s₁, s₂, s', ptrs, h₁, h₂, h'⟩

end Handover

/-! ## After the stages -/

namespace Spaces

variable {s₀ s₁ s₂ s₃ : Vm} {l : List U64} (h : Spaces s₀ s₁ s₂ s₃ l)

include h

/-- The kernel's walks from the end of `virtual_memory_init` on: device pages are added. -/
theorem kernel_walk (v : U64) : hwWalk s₂.mem s₁.newpml4 v = hwWalk s₁.mem s₁.newpml4 v := by
  obtain ⟨t, page, stack, hu⟩ := h.user
  exact hwWalk_of_agree (hu.agree h.wf) v

theorem device_translate (hun : ∀ v ∈ windows, hwWalk s₀.mem s₀.bootRoot v = none)
    (hl : ∀ a ∈ l, IsFrame a) (hlen : l.length ≤ 65536) {k : ℕ} {a : U64} (ha : l[k]? = some a) :
    translate s₃.mem s₃.newpml4 (pageAt mmioBase k) = some a := by
  obtain ⟨t, hk⟩ := h.kernel
  obtain ⟨hlt, -⟩ := List.getElem?_eq_some_iff.mp ha
  have hnone : hwWalk s₂.mem s₁.newpml4 (pageAt mmioBase k) = none := by
    rw [h.kernel_walk]
    exact mmio_unmapped hk hun (by omega)
  have hmem := mmioReqs_mem (k := 0) ha
  rw [Nat.zero_add] at hmem
  rw [h.newpml4]
  refine translate_of_walk (hl a (List.mem_of_getElem? ha)) (pageAt_mmio_window (by omega)).1
    (h.filled.walk_of_unique hmem ?_ hnone)
  -- no other call asks for the same page
  intro q hq hpath
  obtain ⟨i, c, hc, rfl⟩ := mem_mmioReqs hq
  obtain ⟨hi, -⟩ := List.getElem?_eq_some_iff.mp hc
  have hik : 0 + i = k := path_pageAt_inj (by omega) (by omega) hpath
  obtain rfl : i = k := by omega
  rw [Option.some.inj (hc.symm.trans ha)]

theorem ecam_page (hun : ∀ v ∈ windows, hwWalk s₀.mem s₀.bootRoot v = none) {k : ℕ}
    (hk : k < pciEcamPages) : translate s₃.mem s₃.newpml4 (pageAt pciEcamBase k) =
      some (pciEcamPhys + BitVec.ofNat 64 (4096 * k)) := by
  obtain ⟨t, hspace⟩ := h.kernel
  have hwin : ∀ v, pciEcamBase ≤ v → hwWalk s₀.mem s₀.bootRoot v = none :=
    fun v hv => hun v (BitVec.le_trans (by decide) hv)
  have hzero : pageAt pciEcamBase k + 0 = pageAt pciEcamBase k := BitVec.add_zero _
  obtain ⟨es, hes, hwalk⟩ := hspace.ecam_walk hwin hk (r := 0) (by decide)
  rw [hzero, ← h.kernel_walk] at hwalk
  have hne : hwWalk s₂.mem s₁.newpml4 (pageAt pciEcamBase k) ≠ none := by
    rw [hwalk]
    exact Option.some_ne_none _
  rw [h.newpml4]
  refine translate_of_walk (ecam_isFrame hk) ?_ ⟨es, hes, (h.filled.walk_of_ne hne).trans hwalk⟩
  rw [pageAt_toNat]
  show (0xFFFFFFFFF0000000 + 4096 * k) % 2 ^ 64 % 4096 = 0
  omega

theorem user_reaches (hboot : ∀ v, HigherHalf v → ¬ UserAccessible s₀.mem s₀.bootRoot v)
    (hl : ∀ a ∈ l, IsFrame a) (v : U64) :
    UserAccessible s₃.mem s₃.userAs v ↔ InPage userCode v ∨ InPage userStack v := by
  rw [h.userAs]
  by_cases hv : LowerHalf v
  · exact h.userAccessible_low hv
  · constructor
    · intro hacc
      have hhigh : HigherHalf v := hacc.1.resolve_left hv
      exact absurd hacc (h.not_userAccessible_high hl hhigh (hboot v hhigh))
    · rintro (hin | hin)
      · exact absurd (hin.lowerHalf (by decide)) hv
      · exact absurd (hin.lowerHalf (by decide)) hv

end Spaces

theorem booted_of_stages {memmap : List MemmapEntry} {hhdm : U64} {s s₁ s₂ s₃ : Vm}
    (h : Handover memmap hhdm s) {e : MemmapEntry} {es : List MemmapEntry}
    (hlive : live memmap = e :: es) {r : CInt} {image : Fin 512 → U64} {l ptrs : List U64}
    (hl : ∀ a ∈ l, IsFrame a) (hlen : l.length ≤ 65536)
    (h₁ : virtualMemoryInit (s.withPages memmap hhdm) = .ok r s₁)
    (h₂ : userSpaceInit image s₁ = .ok () s₂) (h₃ : mapMmios l s₂ = .ok ptrs s₃) :
    Booted l ptrs s₃ := by
  have hspaces := spaces_of_ok (h.high hlive) h.offst h₁ h₂ hlen h₃
  obtain ⟨t, hk⟩ := virtualMemoryInit_ok (h.high hlive) h₁
  obtain ⟨t', page, stack, hu⟩ := userSpaceInit_ok hk.high h₂
  refine ⟨(mapMmios_ptrs (hu.cursor hk h.offst) h₃).1, fun k a => ?_, fun k hk' => ?_,
    fun v hv => ?_, ?_, ?_⟩
  · exact hspaces.device_translate h.unmapped hl hlen
  · exact hspaces.ecam_page h.unmapped hk'
  · rw [hspaces.newpml4, hspaces.userAs]
    exact walk_eq_of_slot (hspaces.slot hv.index)
  · exact hspaces.user_reaches h.supervisor hl
  · rw [hspaces.newpml4]
    exact hspaces.filled.wf

/-! ## The boot -/

theorem bootMemory_eq (memmap : List MemmapEntry) (hhdm : U64) (image : Fin 512 → U64)
    (l : List U64) (s : Vm) : bootMemory memmap hhdm image l s =
      (virtualMemoryInit >>= fun _ => userSpaceInit image >>= fun _ => mapMmios l)
        (s.withPages memmap hhdm) :=
  Kernel.bind_of_ok (memoryStage_eq memmap hhdm s)

/-- Without a live entry the first `__giverawpage` panics. -/
theorem bootMemory_panics {memmap : List MemmapEntry} {hhdm : U64} {s : Vm}
    (h : Handover memmap hhdm s) (hlive : live memmap = []) (image : Fin 512 → U64)
    (l : List U64) : ∃ s', bootMemory memmap hhdm image l s =
      .error (.panic "Raw Page requested but allocator exahusted" .nomem) s' := by
  obtain ⟨a, ha⟩ := giveRawPage_of_none (s := s.withPages memmap hhdm) h.mine
    (withPages_free_nil hlive hhdm s)
  have herr : virtualMemoryInit (s.withPages memmap hhdm) = _ := Kernel.bind_of_error ha
  rw [bootMemory_eq]
  exact ⟨_, Kernel.bind_of_error herr⟩

/-- With a live entry the stages come back, and the address spaces are set up. -/
theorem bootMemory_returns {memmap : List MemmapEntry} {hhdm : U64} {s : Vm}
    (h : Handover memmap hhdm s) (hne : live memmap ≠ []) (image : Fin 512 → U64) {l : List U64}
    (hl : ∀ a ∈ l, IsFrame a) (hlen : l.length ≤ 65536) :
    ∃ ptrs s', bootMemory memmap hhdm image l s = .ok ptrs s' ∧ Booted l ptrs s' := by
  obtain ⟨e, es, hlive⟩ := List.exists_cons_of_ne_nil hne
  obtain ⟨s₁, s₂, s₃, ptrs, h₁, h₂, h₃⟩ := h.stages_return hlive image hlen
  refine ⟨ptrs, s₃, ?_, booted_of_stages h hlive hl hlen h₁ h₂ h₃⟩
  rw [bootMemory_eq, Kernel.bind_of_ok h₁, Kernel.bind_of_ok h₂, h₃]

/-- **The memory stages of the boot.** With what the boot loader hands over and any devices that
fit in the window: the stages come back if and only if the memory map has a live entry; when they
do, both address spaces are as they should be; and without a live entry the first `__giverawpage`
panics. -/
theorem bootMemory_iff {memmap : List MemmapEntry} {hhdm : U64} {s : Vm}
    (h : Handover memmap hhdm s) (image : Fin 512 → U64) {l : List U64}
    (hl : ∀ a ∈ l, IsFrame a) (hlen : l.length ≤ 65536) :
    ((∃ ptrs s', bootMemory memmap hhdm image l s = .ok ptrs s') ↔ live memmap ≠ []) ∧
    (∀ ptrs s', bootMemory memmap hhdm image l s = .ok ptrs s' → Booted l ptrs s') ∧
    (live memmap = [] → ∃ s', bootMemory memmap hhdm image l s =
      .error (.panic "Raw Page requested but allocator exahusted" .nomem) s') := by
  have hpanic : live memmap = [] → ∃ s', bootMemory memmap hhdm image l s =
      .error (.panic "Raw Page requested but allocator exahusted" .nomem) s' :=
    fun hlive => bootMemory_panics h hlive image l
  have hlive : ∀ ptrs s', bootMemory memmap hhdm image l s = .ok ptrs s' → live memmap ≠ [] := by
    intro ptrs s' hrun hnil
    obtain ⟨s'', herr⟩ := hpanic hnil
    rw [herr] at hrun
    cases hrun
  refine ⟨⟨fun ⟨ptrs, s', hrun⟩ => hlive ptrs s' hrun, fun hne => ?_⟩, fun ptrs s' hrun => ?_,
    hpanic⟩
  · obtain ⟨ptrs, s', hrun, -⟩ := bootMemory_returns h hne image hl hlen
    exact ⟨ptrs, s', hrun⟩
  · obtain ⟨ptrs', s'', hrun', hbooted⟩ :=
      bootMemory_returns h (hlive ptrs s' hrun) image hl hlen
    rw [hrun] at hrun'
    obtain ⟨rfl, rfl⟩ := EStateM.Result.ok.inj hrun'
    exact hbooted

/-- A machine with 127 MiB from 1 MiB on; its boot tables are below. -/
def flatMap : List MemmapEntry :=
  [⟨0x1000, 0x3000, .bootloaderReclaimable⟩, ⟨0x100000, 0x7F00000, .usable⟩]

theorem usable_flatMap : usable flatMap = [⟨0x100000, 0x7F00000, .usable⟩] := rfl

theorem flatMap_limine : LimineMap flatMap := by
  refine ⟨?_, ?_, ?_, ?_, ?_⟩ <;> rw [usable_flatMap]
  · decide
  · decide
  · exact List.pairwise_singleton _ _
  · exact List.pairwise_singleton _ _
  · decide

theorem inUsable_flatMap {a : ℕ} :
    InUsable flatMap a ↔ 0x100000 ≤ a ∧ a + 4096 ≤ 0x100000 + 0x7F00000 := by
  unfold InUsable
  rw [usable_flatMap]
  constructor
  · rintro ⟨e, he, hbase, hend⟩
    obtain rfl := List.mem_singleton.mp he
    exact ⟨hbase, hend⟩
  · rintro ⟨hbase, hend⟩
    exact ⟨_, List.mem_singleton_self _, hbase, hend⟩

theorem live_flatMap : live flatMap = [⟨0x100000, 0x7F00000, .usable⟩] := by
  unfold live
  rw [usable_flatMap]
  decide

theorem flatMap_handover : Handover flatMap 0xFFFF800000000000 bootVm where
  limine := flatMap_limine
  room := by
    rw [live_flatMap]
    intro e he k hk
    have hstart : e.start = 0x100000 := by
      rw [← Option.some.inj he]
      decide
    unfold maxPages at hk
    rw [inUsable_flatMap, hstart]
    omega
  direct := by
    rw [usable_flatMap]
    decide
  tables p t _ ht := by
    rw [bootVm_root] at ht
    rw [inUsable_flatMap]
    rcases tableFrom_bootMem ht with ⟨-, rfl⟩ | ⟨-, rfl⟩ | ⟨-, rfl⟩ <;> decide
  tree := bootVm_high.tree
  clean v hv := bootVm_high.clean v hv (by rw [index_windows hv]; decide)
  unmapped _ := bootVm_windows
  supervisor v _ := bootVm_not_user v
  mine := Or.inl rfl
  offst := rfl

/-- The boot with the local APIC, the I/O APIC and a sound card. -/
theorem bootMemory_iff_flatMap : ∃ ptrs s',
    bootMemory flatMap 0xFFFF800000000000 (fun _ => 0) [0xFEE00000, 0xFEC00000, 0xFEBF0000]
      bootVm = .ok ptrs s' ∧ Booted [0xFEE00000, 0xFEC00000, 0xFEBF0000] ptrs s' := by
  have hl : ∀ a ∈ [(0xFEE00000 : U64), 0xFEC00000, 0xFEBF0000], IsFrame a := by
    simp [IsFrame]
  have hlive : live flatMap ≠ [] := by
    rw [live_flatMap]
    exact List.cons_ne_nil _ _
  obtain ⟨hiff, hbooted, -⟩ := bootMemory_iff flatMap_handover (fun _ => 0) hl (by decide)
  obtain ⟨ptrs, s', hrun⟩ := hiff.mpr hlive
  exact ⟨ptrs, s', hrun, hbooted ptrs s' hrun⟩

end DejOs
