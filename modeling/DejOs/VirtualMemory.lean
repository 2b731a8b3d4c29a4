import DejOs.AddressMap

/-!
# The kernel's address space

`virtual_memory_init` and `map_mmio` of `memory.c`. The new PML4 takes the higher half of the boot
PML4 and nothing of its lower half, gets the PCI configuration window (ECAM), and becomes the
current one; `map_mmio` then maps page after page of the MMIO window.

What is asked of the boot tables is said for their higher half only (`HighWellFormed`). A fresh
frame that takes over the higher half of such a root is a well-formed root (`Graft.wellFormed`)
which is walked like the old one there and not at all below (`Graft.hwWalk`).
-/

namespace DejOs

open RadixTable

/-! ## The code -/

/-- `PCI_ECAM_BASE` -/
def pciEcamBase : U64 := 0xFFFFFFFFF0000000
/-- `PCI_ECAM_SIZE` in pages -/
def pciEcamPages : ℕ := 65536
/-- `PCI_ECAM_PHYS` -/
def pciEcamPhys : U64 := 0x00000000B0000000
/-- `MMIO_BASE` -/
def mmioBase : U64 := 0xFFFFFFFFE0000000
/-- `MMIO_END` -/
def mmioEnd : U64 := 0xFFFFFFFFEFFFFFFF

/-- The `memcpy` of the entries 256 to 511 of a PML4. -/
def copyHigh (dst src : U64) : Kernel Vm Unit :=
  modify fun s => { s with
    mem := Function.update s.mem dst fun i => if 256 ≤ i.val then s.mem src i else s.mem dst i }

/-- The `memset` of the entries 0 to 255 of a PML4. -/
def clearLow (dst : U64) : Kernel Vm Unit :=
  modify fun s => { s with
    mem := Function.update s.mem dst fun i => if i.val < 256 then 0 else s.mem dst i }

/-- The flags of the ECAM and MMIO pages. -/
def deviceFlags : U64 := pagePresent ||| pageWrite ||| pageNx

/-- `n` rounds of the ECAM loop of `virtual_memory_init`, from the offset `off` on. -/
def mapEcam : ℕ → U64 → Kernel Vm Unit
  | 0, _ => return
  | n + 1, off => do
    let s ← get
    let _ ← mapPage s.newpml4 (pciEcamBase + off) (pciEcamPhys + off) deviceFlags
    mapEcam n (off + 4096)

/-- `virtual_memory_init` -/
def virtualMemoryInit : Kernel Vm CInt := do
  let pml4 ← giveRawPage
  modify fun s => { s with newpml4 := pml4 }
  if pml4 < 0x100000 ∨ pml4 &&& 0xFFF ≠ 0 then
    throw (.panic "memory failure" .nomem)
  let s ← get
  copyHigh pml4 (s.cr3 &&& ~~~0xFFF)
  clearLow pml4
  mapEcam pciEcamPages 0
  modify fun s => { s with cr3 := s.newpml4 }
  return 0

/-- `map_mmio`. The result of `map_page` and the end of the window are not looked at. -/
def mapMmio (phys : U64) : Kernel Vm U64 := do
  let s ← get
  let _ ← mapPage s.newpml4 (mmioBase + s.offst) phys deviceFlags
  modify fun s => { s with offst := s.offst + 4096 }
  let s ← get
  return mmioBase + s.offst - 4096

/-- Calls of `map_mmio` one after the other, with the pointers they return. -/
def mapMmios : List U64 → Kernel Vm (List U64)
  | [] => return []
  | phys :: l => do
    let p ← mapMmio phys
    let ps ← mapMmios l
    return p :: ps

/-! ## Taking over a higher half -/

/-- A path that starts in the higher half. -/
def HighPath (p : List (Fin 512)) : Prop := ∀ i, p.head? = some i → 256 ≤ i.val

/-- The state is well-formed in the higher half of a root. -/
structure HighWellFormed (V : Set U64) (root : U64) (s : Vm) : Prop where
  tree : ∀ p q t, HighPath p → HighPath q → tableFrom s.mem root p = some t →
    tableFrom s.mem root q = some t → p = q
  clean : ∀ v ∈ V, 256 ≤ (index v 39).val → ∀ p j q t, path v = p ++ j :: q → q ≠ [] →
    tableFrom s.mem root p = some t → present (s.mem t j) = true → clean (s.mem t j) = true
  frames : ∀ f ∈ s.free, IsFrame f
  nodup : s.free.Nodup
  apart : ∀ f ∈ s.free, ∀ p, HighPath p → tableFrom s.mem root p ≠ some f
  mine : s.alloc.lock.Mine s.alloc.cpu

theorem highPath_nil : HighPath [] := fun _ hi => by cases hi

theorem highPath_cons {i : Fin 512} {p : List (Fin 512)} : HighPath (i :: p) ↔ 256 ≤ i.val := by
  simp [HighPath]

theorem WellFormed.high {V W : Set U64} {root : U64} {s : Vm} (hw : WellFormed W root s)
    (hVW : ∀ v ∈ V, 256 ≤ (index v 39).val → v ∈ W) : HighWellFormed V root s where
  tree p q t _ _ := hw.tree p q t
  clean v hv hhigh := hw.clean v (hVW v hv hhigh)
  frames := hw.frames
  nodup := hw.nodup
  apart f hf p _ := hw.apart f hf p
  mine := hw.mine

/-- The entries of a root, without those of the lower half. -/
def highRow (mem : Mem) (root : U64) : Fin 512 → U64 :=
  fun i => if 256 ≤ i.val then mem root i else 0

/-- `s'` has a new root `u`, a frame that was free, with the higher half of `root`. -/
structure Graft (V : Set U64) (root u : U64) (s s' : Vm) : Prop where
  high : HighWellFormed V root s
  free : s.free = u :: s'.free
  mem : s'.mem = Function.update s.mem u (highRow s.mem root)
  mine : s'.alloc.lock.Mine s'.alloc.cpu

namespace Graft

variable {V : Set U64} {root u : U64} {s s' : Vm} (h : Graft V root u s s')

include h

theorem mem_free : u ∈ s.free := by
  rw [h.free]; exact List.mem_cons_self

theorem root_ne : root ≠ u := by
  intro e
  exact h.high.apart u h.mem_free [] highPath_nil (congrArg some e)

theorem mem_of_ne {f : U64} (hf : f ≠ u) : s'.mem f = s.mem f := by
  rw [h.mem]; exact Function.update_of_ne hf ..

theorem slot (i : Fin 512) : s'.mem u i = highRow s.mem root i := by
  rw [h.mem, Function.update_self]

/-- The old root is not disturbed in its higher half. -/
theorem agree {i : Fin 512} (hi : 256 ≤ i.val) (p : List (Fin 512)) :
    Agree decode s.mem s'.mem 0 root (i :: p) := by
  intro q j r t hq ht
  refine congrFun (h.mem_of_ne ?_) j
  rintro rfl
  refine h.high.apart t h.mem_free q ?_ ht
  cases q with
  | nil => exact highPath_nil
  | cons k q =>
    obtain ⟨rfl, -⟩ := List.cons.inj hq
    exact highPath_cons.mpr hi

theorem slot_high {i : Fin 512} (hi : 256 ≤ i.val) : s'.mem u i = s'.mem root i := by
  rw [h.slot, h.mem_of_ne h.root_ne, highRow, if_pos hi]

theorem decode_low {i : Fin 512} (hi : ¬ 256 ≤ i.val) : decode 0 (s'.mem u i) = .absent := by
  rw [h.slot, highRow, if_neg hi]
  rfl

theorem tableFrom_cons (i : Fin 512) (p : List (Fin 512)) : tableFrom s'.mem u (i :: p) =
    if 256 ≤ i.val then tableFrom s.mem root (i :: p) else none := by
  split
  · rename_i hi
    exact (tableAt_eq_of_slot (h.slot_high hi)).trans (tableAt_congr (h.agree hi p))
  · rename_i hi
    exact tableAt_cons_of_absent (h.decode_low hi)

theorem hwWalk (w : U64) : DejOs.hwWalk s'.mem u w =
    if 256 ≤ (index w 39).val then DejOs.hwWalk s.mem root w else none := by
  split
  · rename_i hi
    exact (walk_eq_of_slot (h.slot_high hi)).trans (walk_congr (h.agree hi _))
  · rename_i hi
    exact walk_cons_of_absent (h.decode_low hi)

theorem table_cases {p : List (Fin 512)} {t : U64} (ht : tableFrom s'.mem u p = some t) :
    (p = [] ∧ t = u) ∨ (p ≠ [] ∧ HighPath p ∧ tableFrom s.mem root p = some t) := by
  cases p with
  | nil => exact Or.inl ⟨rfl, (Option.some.inj ht).symm⟩
  | cons i p =>
    rw [h.tableFrom_cons] at ht
    split at ht
    · rename_i hi
      exact Or.inr ⟨List.cons_ne_nil i p, highPath_cons.mpr hi, ht⟩
    · cases ht

theorem apart_of_free {f : U64} (hf : f ∈ s'.free) (p : List (Fin 512)) :
    tableFrom s'.mem u p ≠ some f := by
  intro ht
  have hnd := h.high.nodup
  rw [h.free, List.nodup_cons] at hnd
  have hfs : f ∈ s.free := by rw [h.free]; exact List.mem_cons_of_mem _ hf
  rcases h.table_cases ht with ⟨-, rfl⟩ | ⟨-, hp, ht⟩
  · exact hnd.1 hf
  · exact h.high.apart f hfs p hp ht

/-- **The new root is well-formed.** -/
theorem wellFormed : WellFormed V u s' := by
  have hsub : ∀ f ∈ s'.free, f ∈ s.free := fun f hf => by
    rw [h.free]; exact List.mem_cons_of_mem _ hf
  constructor
  · intro p q t hp hq
    rcases h.table_cases hp with ⟨rfl, rfl⟩ | ⟨-, hhp, hp⟩ <;>
      rcases h.table_cases hq with ⟨rfl, hqu⟩ | ⟨-, hhq, hq⟩
    · rfl
    · exact absurd hq (h.high.apart _ h.mem_free q hhq)
    · exact absurd (hqu ▸ hp) (h.high.apart _ h.mem_free p hhp)
    · exact h.high.tree p q t hhp hhq hp hq
  · intro v hv p j q t hpath hq ht hpr
    rcases h.table_cases ht with ⟨rfl, rfl⟩ | ⟨hp, hhp, ht⟩
    · obtain ⟨rfl, -⟩ : index v 39 = j ∧ _ := List.cons.inj hpath
      by_cases hi : 256 ≤ (index v 39).val
      · rw [h.slot, highRow, if_pos hi] at hpr ⊢
        exact h.high.clean v hv hi [] _ q root hpath hq rfl hpr
      · rw [h.slot, highRow, if_neg hi] at hpr
        exact absurd hpr (by decide)
    · have htu : t ≠ u := fun e => h.high.apart u h.mem_free p hhp (e ▸ ht)
      have hi : 256 ≤ (index v 39).val := by
        cases p with
        | nil => exact absurd rfl hp
        | cons i p =>
          obtain ⟨rfl, -⟩ : index v 39 = i ∧ _ := List.cons.inj hpath
          exact highPath_cons.mp hhp
      rw [h.mem_of_ne htu] at hpr ⊢
      exact h.high.clean v hv hi p j q t hpath hq ht hpr
  · exact fun f hf => h.high.frames f (hsub f hf)
  · have hnd := h.high.nodup
    rw [h.free, List.nodup_cons] at hnd
    exact hnd.2
  · exact fun f hf p => h.apart_of_free hf p
  · exact h.mine

end Graft

/-! ## The windows -/

/-- The addresses of the MMIO and ECAM windows, the last 512 MiB. -/
def windows : Set U64 := { v | mmioBase ≤ v }

theorem mem_windows {v : U64} : v ∈ windows ↔ 0xFFFFFFFFE0000000 ≤ v.toNat := BitVec.le_def

theorem index_windows {v : U64} (hv : v ∈ windows) : index v 39 = 511 := by
  rw [mem_windows] at hv
  have hlt := v.isLt
  apply Fin.ext
  rw [index_val]
  show v.toNat / 2 ^ 39 % 512 = 511
  omega

theorem pageAt_mmio_mem {k : ℕ} (hk : k < 2 * 65536) : pageAt mmioBase k ∈ windows := by
  rw [mem_windows, pageAt_toNat]
  show _ ≤ (0xFFFFFFFFE0000000 + 4096 * k) % 2 ^ 64
  omega

theorem pageAt_ecam (k : ℕ) : pageAt pciEcamBase k = pageAt mmioBase (65536 + k) := by
  apply BitVec.eq_of_toNat_eq
  rw [pageAt_toNat, pageAt_toNat]
  show (0xFFFFFFFFF0000000 + 4096 * k) % 2 ^ 64 =
    (0xFFFFFFFFE0000000 + 4096 * (65536 + k)) % 2 ^ 64
  omega

theorem path_pageAt_inj {j k : ℕ} (hj : j < 2 * 65536) (hk : k < 2 * 65536)
    (h : path (pageAt mmioBase j) = path (pageAt mmioBase k)) : j = k := by
  rw [path_eq_iff, pageAt_toNat, pageAt_toNat] at h
  have hb : mmioBase.toNat = 0xFFFFFFFFE0000000 := rfl
  rw [hb] at h
  omega

theorem offset_succ (k : ℕ) :
    BitVec.ofNat 64 (4096 * k) + 4096 = BitVec.ofNat 64 (4096 * (k + 1)) := by
  rw [Nat.mul_add, BitVec.ofNat_add]
  rfl

theorem present_device (phys : U64) : present (phys ||| deviceFlags) = true :=
  present_or (by decide)

theorem user_device {phys : U64} (h : IsFrame phys) : user (phys ||| deviceFlags) = false := by
  unfold user
  rw [h.or_and_flags (by decide)]
  rfl

/-! ## The ECAM loop -/

/-- The request of round `k` of the loop. -/
def ecamRequest (k : ℕ) : Request :=
  ⟨pageAt pciEcamBase k, pciEcamPhys + BitVec.ofNat 64 (4096 * k), deviceFlags⟩

/-- The requests of `n` rounds from `k` on. -/
def ecamRequests (k n : ℕ) : List Request := (List.range' k n).map ecamRequest

def ecamReq (k : ℕ) : U64 × U64 := (ecamRequest k).entry

/-- Their entries. -/
def ecamReqs (k n : ℕ) : List (U64 × U64) := (List.range' k n).map ecamReq

theorem mapEcam_succ (n : ℕ) (off : U64) (s : Vm) : mapEcam (n + 1) off s =
    (mapPage s.newpml4 (pciEcamBase + off) (pciEcamPhys + off) deviceFlags >>= fun _ =>
      mapEcam n (off + 4096)) s := rfl

theorem pageAt_ecam_mem {k : ℕ} (hk : k < pciEcamPages) : pageAt pciEcamBase k ∈ windows := by
  rw [pageAt_ecam]
  unfold pciEcamPages at hk
  exact pageAt_mmio_mem (by omega)

theorem mapEcam_filled {n k : ℕ} {s s' : Vm} (hw : WellFormed windows s.newpml4 s)
    (hk : k + n ≤ pciEcamPages) (h : mapEcam n (BitVec.ofNat 64 (4096 * k)) s = .ok () s') :
    Filled windows s.newpml4 (ecamReqs k n) s s' ∧ s.SameRest s' := by
  induction n generalizing k s with
  | zero =>
    obtain ⟨-, rfl⟩ := EStateM.Result.ok.inj h
    exact ⟨.nil hw, .of_mem s s.mem⟩
  | succ n ih =>
    rw [mapEcam_succ, offset_succ] at h
    obtain ⟨r, s₁, h₁, h₂⟩ := Kernel.bind_eq_ok.mp h
    obtain ⟨f₁, r₁⟩ := mapPage_filled hw (pageAt_ecam_mem (by omega)) (present_device _) h₁
    have hnew := r₁.newpml4
    obtain ⟨f₂, r₂⟩ := ih (by rw [hnew]; exact f₁.wf) (by omega) h₂
    rw [hnew] at f₂
    exact ⟨f₁.append f₂, r₁.trans r₂⟩

/-- The loop comes back if there are frames for the tables it needs. -/
theorem mapEcam_returns {n k : ℕ} {s : Vm} (hw : WellFormed windows s.newpml4 s)
    (hk : k + n ≤ pciEcamPages)
    (hfree : (needed s.mem s.newpml4 (ecamRequests k n)).card ≤ s.free.length) :
    ∃ s', mapEcam n (BitVec.ofNat 64 (4096 * k)) s = .ok () s' ∧
      s.free.length = s'.free.length + (needed s.mem s.newpml4 (ecamRequests k n)).card := by
  induction n generalizing k s with
  | zero =>
    have hzero : needed s.mem s.newpml4 (ecamRequests k 0) = ∅ := by simp [needed, ecamRequests]
    exact ⟨s, rfl, by rw [hzero]; rfl⟩
  | succ n ih =>
    have hv := pageAt_ecam_mem (k := k) (by omega)
    have hreqs : ecamRequests k (n + 1) = ecamRequest k :: ecamRequests (k + 1) n := rfl
    rw [hreqs] at hfree ⊢
    have hpresent := present_device (pciEcamPhys + BitVec.ofNat 64 (4096 * k))
    obtain ⟨r, s₁, h₁, hlen⟩ := mapPage_first (r := ecamRequest k) hw hv hpresent hfree
    obtain ⟨f₁, r₁⟩ := mapPage_filled hw hv hpresent h₁
    have hnew := r₁.newpml4
    obtain ⟨s₂, h₂, hlen₂⟩ := ih (k := k + 1) (by rw [hnew]; exact f₁.wf) (by omega)
      (by rw [hnew]; omega)
    rw [hnew] at hlen₂
    refine ⟨s₂, ?_, by omega⟩
    rw [mapEcam_succ, offset_succ]
    exact (Kernel.bind_of_ok h₁).trans h₂

/-! ## `virtual_memory_init` -/

/-- The frame of the current PML4. -/
def Vm.bootRoot (s : Vm) : U64 := s.cr3 &&& ~~~0xFFF

/-- The state when the ECAM loop begins. -/
def Vm.withRoot (s : Vm) (a : Allocator) (u : U64) : Vm :=
  { s with
    alloc := a
    newpml4 := u
    mem := Function.update s.mem u (highRow s.mem s.bootRoot) }

theorem virtualMemoryInit_eq {s : Vm} {a : Allocator} {u : U64}
    (hg : giveRawPage s = .ok u { s with alloc := a })
    (hu : ¬ (u < 0x100000 ∨ u &&& 0xFFF ≠ 0)) :
    virtualMemoryInit s = (mapEcam pciEcamPages 0 >>= fun _ => do
      modify fun s => { s with cr3 := s.newpml4 }
      return 0) (s.withRoot a u) := by
  have hrow : s.withRoot a u = { s with
      alloc := a
      newpml4 := u
      mem := Function.update (Function.update s.mem u fun i =>
        if 256 ≤ i.val then s.mem s.bootRoot i else s.mem u i) u fun i =>
          if i.val < 256 then 0 else Function.update s.mem u (fun i =>
            if 256 ≤ i.val then s.mem s.bootRoot i else s.mem u i) u i } := by
    unfold Vm.withRoot
    congr 1
    rw [Function.update_idem, Function.update_self]
    congr 1
    funext i
    unfold highRow
    split_ifs <;> first | rfl | omega
  rw [hrow]
  unfold virtualMemoryInit
  rw [Kernel.bind_of_ok hg]
  show (if u < 0x100000 ∨ u &&& 0xFFF ≠ 0 then _ else _ : Kernel Vm CInt) _ = _
  rw [if_neg hu]
  rfl

theorem virtualMemoryInit_panic {s : Vm} {a : Allocator} {u : U64}
    (hg : giveRawPage s = .ok u { s with alloc := a }) (hu : u < 0x100000 ∨ u &&& 0xFFF ≠ 0) :
    virtualMemoryInit s =
      .error (.panic "memory failure" .nomem) { s with alloc := a, newpml4 := u } := by
  unfold virtualMemoryInit
  rw [Kernel.bind_of_ok hg]
  show (if u < 0x100000 ∨ u &&& 0xFFF ≠ 0 then _ else _ : Kernel Vm CInt) _ = _
  rw [if_pos hu]
  rfl

theorem withRoot_graft {s : Vm} {a : Allocator} {u : U64} {rest : List U64} {V : Set U64}
    (hb : HighWellFormed V s.bootRoot s) (hf : s.free = u :: rest)
    (ha : freeFrames a.pages = rest) (hl : a.lock = .free) :
    Graft V s.bootRoot u s (s.withRoot a u) where
  high := hb
  free := by rw [hf, ← ha]; rfl
  mem := rfl
  mine := Or.inl hl

/-- What `virtual_memory_init` has done when it came back. -/
structure KernelSpace (s s' : Vm) (s₁ : Vm) : Prop where
  graft : Graft windows s.bootRoot s'.newpml4 s s₁
  filled : Filled windows s'.newpml4 (ecamReqs 0 pciEcamPages) s₁ s'
  cr3 : s'.cr3 = s'.newpml4
  offst : s'.offst = s.offst
  hhdm : s'.alloc.hhdm = s.alloc.hhdm

theorem virtualMemoryInit_run {s s' : Vm} {r : CInt} {V : Set U64}
    (hb : HighWellFormed V s.bootRoot s) (h : virtualMemoryInit s = .ok r s') : ∃ a u s₂,
      giveRawPage s = .ok u { s with alloc := a } ∧
      Graft V s.bootRoot u s (s.withRoot a u) ∧
      mapEcam pciEcamPages 0 (s.withRoot a u) = .ok () s₂ ∧ s' = { s₂ with cr3 := s₂.newpml4 } := by
  cases hf : s.free with
  | nil =>
    obtain ⟨a, ha⟩ := giveRawPage_of_none hb.mine hf
    have herr : virtualMemoryInit s = _ := Kernel.bind_of_error ha
    rw [herr] at h
    cases h
  | cons u rest =>
    obtain ⟨a, hg, ha, hl⟩ := giveRawPage_of_free hb.mine hf
    by_cases hu : u < 0x100000 ∨ u &&& 0xFFF ≠ 0
    · rw [virtualMemoryInit_panic hg hu] at h
      cases h
    · rw [virtualMemoryInit_eq hg hu] at h
      obtain ⟨x, s₂, h₂, h⟩ := Kernel.bind_eq_ok.mp h
      obtain ⟨-, rfl⟩ := EStateM.Result.ok.inj h
      exact ⟨a, u, s₂, hg, withRoot_graft hb hf ha hl, h₂, rfl⟩

/-- **`virtual_memory_init`.** -/
theorem virtualMemoryInit_ok {s s' : Vm} {r : CInt} (hb : HighWellFormed windows s.bootRoot s)
    (h : virtualMemoryInit s = .ok r s') : ∃ s₁, KernelSpace s s' s₁ := by
  obtain ⟨a, u, s₂, hg, hgraft, h₂, rfl⟩ := virtualMemoryInit_run hb h
  obtain ⟨f, hrest⟩ := mapEcam_filled (k := 0) (s := s.withRoot a u) hgraft.wellFormed
    (Nat.zero_add _).le h₂
  have hnew := hrest.newpml4
  refine ⟨s.withRoot a u, ?_, ?_, rfl, ?_, ?_⟩
  · show Graft _ _ s₂.newpml4 _ _
    rw [hnew]
    exact hgraft
  · show Filled _ s₂.newpml4 _ _ _
    rw [hnew]
    exact f.congr rfl rfl
  · exact hrest.offst
  · exact hrest.hhdm.trans (giveRawPage_sameRest hg).hhdm

theorem not_low_of_frame {u : U64} (hu : IsFrame u) (hlow : 0x100000 ≤ u.toNat) :
    ¬ (u < 0x100000 ∨ u &&& 0xFFF ≠ 0) := by
  rintro (hlt | hne)
  · rw [BitVec.lt_def] at hlt
    exact absurd hlt (Nat.not_lt.mpr hlow)
  · apply hne
    rw [← hu.and_mask, BitVec.and_assoc]
    exact BitVec.and_zero

/-- In the new root the loop needs what it needs in the old one. -/
theorem Graft.needed {V : Set U64} {root u : U64} {s s' : Vm} (h : Graft V root u s s') (n : ℕ)
    (hn : n ≤ pciEcamPages) :
    DejOs.needed s'.mem u (ecamRequests 0 n) = DejOs.needed s.mem root (ecamRequests 0 n) := by
  ext q
  rw [mem_needed, mem_needed]
  refine and_congr_right fun ⟨r, hr, hpre⟩ => ?_
  obtain ⟨k, hk, rfl⟩ := List.mem_map.mp hr
  have hk := (List.mem_range'_1.mp hk).2
  cases q with
  | nil => exact iff_of_false nofun nofun
  | cons i q =>
    have hi : i = 511 := by
      rw [(List.cons_prefix_cons.mp hpre).1]
      exact index_windows (pageAt_ecam_mem (by omega))
    rw [h.tableFrom_cons, if_pos (by rw [hi]; decide)]

/-- The tables of the window are three for every 2 MiB at most. -/
theorem needed_ecam_le (mem : Mem) (root : U64) :
    (needed mem root (ecamRequests 0 pciEcamPages)).card ≤ 384 := by
  have hbase : pciEcamBase.toNat % 2 ^ 21 = 0 := by decide
  refine (needed_le_blocks mem root (n := pciEcamPages) hbase fun r hr => ?_).trans (by decide)
  obtain ⟨k, hk, rfl⟩ := List.mem_map.mp hr
  exact ⟨k, by have := (List.mem_range'_1.mp hk).2; omega, rfl⟩

/-- It comes back if the first free frame is at 1 MiB or above and there are enough of them: for
the root and for the tables of the window that the boot tables do not have. -/
theorem virtualMemoryInit_returns {s : Vm} (hb : HighWellFormed windows s.bootRoot s)
    (hlow : ∀ f ∈ s.free, 0x100000 ≤ f.toNat)
    (hfree : (needed s.mem s.bootRoot (ecamRequests 0 pciEcamPages)).card < s.free.length) :
    ∃ s', virtualMemoryInit s = .ok 0 s' ∧ s.free.length = s'.free.length +
      (needed s.mem s.bootRoot (ecamRequests 0 pciEcamPages)).card + 1 := by
  obtain ⟨u, rest, hf⟩ : ∃ u rest, s.free = u :: rest :=
    List.exists_cons_of_length_pos (by omega)
  have hu : u ∈ s.free := by rw [hf]; exact List.mem_cons_self
  obtain ⟨a, hg, ha, hl⟩ := giveRawPage_of_free hb.mine hf
  have hgraft := withRoot_graft hb hf ha hl
  have hlen : s.free.length = (s.withRoot a u).free.length + 1 := by
    rw [hgraft.free, List.length_cons]
  have hneeded := hgraft.needed pciEcamPages le_rfl
  obtain ⟨s', h', hlen'⟩ := mapEcam_returns (k := 0) (n := pciEcamPages) (s := s.withRoot a u)
    hgraft.wellFormed (Nat.zero_add _).le (by
      show (needed _ u _).card ≤ _
      rw [hneeded]
      omega)
  have hlen' : _ = _ + (needed (s.withRoot a u).mem u _).card := hlen'
  rw [hneeded] at hlen'
  refine ⟨{ s' with cr3 := s'.newpml4 }, ?_, ?_⟩
  · rw [virtualMemoryInit_eq hg (not_low_of_frame (hb.frames u hu) (hlow u hu))]
    exact Kernel.bind_of_ok h'
  · show _ = s'.free.length + _ + 1
    omega

/-- Boot tables that map one 2 MiB page of the kernel at `0xFFFFFFFF80000000`. -/
def bootMem : Mem := fun t j =>
  if t = 0x1000 ∧ j = 511 then 0x2003
  else if t = 0x2000 ∧ j = 510 then 0x3003
  else if t = 0x3000 ∧ j = 0 then 0x200083
  else 0

/-- A thousand frames from 1 MiB on. -/
def bootFrames : List U64 := (List.range 1000).map fun k => BitVec.ofNat 64 (0x100000 + 4096 * k)

def bootVm : Vm := { blankVm bootFrames with mem := bootMem, cr3 := 0x1000 }

theorem bootVm_free : bootVm.free = bootFrames := by
  simp only [Vm.free, bootVm, blankVm, freeFrames_unused]

theorem mem_bootFrames {f : U64} (hf : f ∈ bootFrames) :
    ∃ k < 1000, f.toNat = 0x100000 + 4096 * k := by
  obtain ⟨k, hk, rfl⟩ := List.mem_map.mp hf
  rw [List.mem_range] at hk
  refine ⟨k, hk, ?_⟩
  rw [BitVec.toNat_ofNat]
  omega

theorem bootFrames_nodup : bootFrames.Nodup := by
  refine List.Nodup.map_on (fun i hi j hj hij => ?_) List.nodup_range
  rw [List.mem_range] at hi hj
  have := congrArg BitVec.toNat hij
  simp only [BitVec.toNat_ofNat] at this
  omega

theorem tableFrom_bootMem {p : List (Fin 512)} {t : U64}
    (h : tableFrom bootMem 0x1000 p = some t) :
    (p = [] ∧ t = 0x1000) ∨ (p = [511] ∧ t = 0x2000) ∨ (p = [511, 510] ∧ t = 0x3000) := by
  rcases p with _ | ⟨i, p⟩
  · exact Or.inl ⟨rfl, (Option.some.inj h).symm⟩
  obtain ⟨g, hg, h⟩ := table_of_tableAt_cons h
  by_cases hi : i = 511
  · subst hi
    obtain rfl : 0x2000 = g := by
      simpa [bootMem, decode, present, large, pagePresent, frameMask] using hg
    rcases p with _ | ⟨j, p⟩
    · exact Or.inr (Or.inl ⟨rfl, (Option.some.inj h).symm⟩)
    obtain ⟨g, hg, h⟩ := table_of_tableAt_cons h
    by_cases hj : j = 510
    · subst hj
      obtain rfl : 0x3000 = g := by
        simpa [bootMem, decode, present, large, pagePresent, frameMask] using hg
      rcases p with _ | ⟨k, p⟩
      · exact Or.inr (Or.inr ⟨rfl, (Option.some.inj h).symm⟩)
      obtain ⟨g, hg, h⟩ := table_of_tableAt_cons h
      by_cases hk : k = 0
      · simp [bootMem, decode, present, large, pagePresent, hk] at hg
      · simp [bootMem, decode, present, hk] at hg
    · simp [bootMem, decode, present, hj] at hg
  · simp [bootMem, decode, present, hi] at hg

theorem index_windows_pdpt {v : U64} (hv : v ∈ windows) : index v 30 = 511 := by
  rw [mem_windows] at hv
  have hlt := v.isLt
  apply Fin.ext
  rw [index_val]
  show v.toNat / 2 ^ 30 % 512 = 511
  omega

theorem bootVm_root : bootVm.bootRoot = 0x1000 := by
  simp [Vm.bootRoot, bootVm]

theorem bootVm_high : HighWellFormed windows bootVm.bootRoot bootVm := by
  rw [bootVm_root]
  have hmem : bootVm.mem = bootMem := rfl
  constructor
  · rw [hmem]
    intro p q t _ _ hp hq
    rcases tableFrom_bootMem hp with ⟨rfl, rfl⟩ | ⟨rfl, rfl⟩ | ⟨rfl, rfl⟩ <;>
      rcases tableFrom_bootMem hq with ⟨rfl, h⟩ | ⟨rfl, h⟩ | ⟨rfl, h⟩ <;>
      first | rfl | exact absurd h (by decide)
  · rw [hmem]
    intro v hv _ p j q t hpath _ ht hpr
    rcases tableFrom_bootMem ht with ⟨rfl, rfl⟩ | ⟨rfl, rfl⟩ | ⟨rfl, rfl⟩
    · by_cases hj : j = 511
      · simp [bootMem, hj, clean]
      · simp [bootMem, hj, present] at hpr
    · by_cases hj : j = 510
      · simp [bootMem, hj, clean]
      · simp [bootMem, hj, present] at hpr
    · -- the windows are in the last GiB, the kernel's page is in the one before
      have h30 := index_windows_pdpt hv
      simp [path, h30] at hpath
  · rw [bootVm_free]
    intro f hf
    obtain ⟨k, hk, he⟩ := mem_bootFrames hf
    unfold IsFrame
    omega
  · rw [bootVm_free]
    exact bootFrames_nodup
  · rw [bootVm_free, hmem]
    intro f hf p _ hp
    obtain ⟨k, hk, he⟩ := mem_bootFrames hf
    rcases tableFrom_bootMem hp with ⟨-, rfl⟩ | ⟨-, rfl⟩ | ⟨-, rfl⟩ <;>
      simp at he <;> omega
  · exact Or.inl rfl

theorem bootVm_windows {v : U64} (hv : v ∈ windows) :
    hwWalk bootVm.mem bootVm.bootRoot v = none := by
  rw [bootVm_root]
  have h39 := index_windows hv
  have h30 := index_windows_pdpt hv
  simp [hwWalk, path, RadixTable.walk, bootVm, bootMem, decode, present, large, pagePresent,
    frameMask, h39, h30]

theorem virtualMemoryInit_bootVm :
    ∃ s, virtualMemoryInit bootVm = .ok 0 s ∧ 615 ≤ s.free.length := by
  have hlen : bootVm.free.length = 1000 := by
    rw [bootVm_free, bootFrames, List.length_map, List.length_range]
  have hlow : ∀ f ∈ bootVm.free, 0x100000 ≤ f.toNat := by
    rw [bootVm_free]
    intro f hf
    obtain ⟨k, -, he⟩ := mem_bootFrames hf
    omega
  have hneeded := needed_ecam_le bootVm.mem bootVm.bootRoot
  obtain ⟨s, hs, hfree⟩ := virtualMemoryInit_returns bootVm_high hlow (by omega)
  exact ⟨s, hs, by omega⟩

end DejOs
