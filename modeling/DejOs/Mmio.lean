import DejOs.VirtualMemory

/-!
# The MMIO window

A sequence of `map_mmio` calls after `virtual_memory_init`. The cursor `offst` moves by a page a
call and is never compared with the size of the window, so the pointers are the pages from
`MMIO_BASE` on, one after the other (`mapMmios_ptrs`): the first 65536 of them are the window, and
the next one is `PCI_ECAM_BASE`. Within the window every pointer keeps translating to the address
of its call (`mapMmios_correct_iff`).
-/

namespace DejOs

open RadixTable

/-! ## One call -/

theorem mapMmio_ok {phys p : U64} {s s' : Vm} (h : mapMmio phys s = .ok p s') :
    ∃ r s₁, mapPage s.newpml4 (mmioBase + s.offst) phys deviceFlags s = .ok r s₁ ∧
      s' = { s₁ with offst := s.offst + 4096 } ∧ p = mmioBase + s.offst := by
  have h : (mapPage s.newpml4 (mmioBase + s.offst) phys deviceFlags >>= fun _ => do
      modify fun s => { s with offst := s.offst + 4096 }
      let s ← get
      return mmioBase + s.offst - 4096) s = .ok p s' := h
  obtain ⟨r, s₁, h₁, h₂⟩ := Kernel.bind_eq_ok.mp h
  obtain ⟨a, m, -, rfl⟩ := mapPage_sameRest h₁
  obtain ⟨rfl, rfl⟩ := EStateM.Result.ok.inj h₂
  refine ⟨r, _, h₁, rfl, ?_⟩
  show mmioBase + (s.offst + 4096) - 4096 = _
  rw [← BitVec.add_assoc, BitVec.add_sub_cancel]

theorem mapMmio_of_ok {phys : U64} {s s₁ : Vm} {r : CInt}
    (h : mapPage s.newpml4 (mmioBase + s.offst) phys deviceFlags s = .ok r s₁) :
    mapMmio phys s = .ok (mmioBase + s₁.offst + 4096 - 4096)
      { s₁ with offst := s₁.offst + 4096 } := by
  rw [BitVec.add_assoc]
  exact Kernel.bind_of_ok h

section One

variable {s : Vm} {phys : U64} {k : ℕ} (hw : WellFormed windows s.newpml4 s)
  (hoff : s.offst = BitVec.ofNat 64 (4096 * k)) (hk : k < 65536)

include hw hoff hk

theorem mapMmio_filled {p : U64} {s' : Vm} (h : mapMmio phys s = .ok p s') :
    Filled windows s.newpml4 [(pageAt mmioBase k, phys ||| deviceFlags)] s s' ∧
      s'.newpml4 = s.newpml4 ∧ s'.offst = BitVec.ofNat 64 (4096 * (k + 1)) := by
  obtain ⟨r, s₁, h₁, rfl, -⟩ := mapMmio_ok h
  rw [hoff] at h₁
  have hv : pageAt mmioBase k ∈ windows := pageAt_mmio_mem (by omega)
  obtain ⟨f, hrest⟩ := mapPage_filled hw hv (present_device phys) h₁
  refine ⟨f.congr rfl rfl, hrest.newpml4, ?_⟩
  rw [hoff, offset_succ]

theorem mapMmio_returns (hfree : missing s.mem s.newpml4 (pageAt mmioBase k) ≤ s.free.length) :
    ∃ p s', mapMmio phys s = .ok p s' ∧
      s'.free.length = s.free.length - missing s.mem s.newpml4 (pageAt mmioBase k) := by
  have hv : pageAt mmioBase k ∈ windows := pageAt_mmio_mem (by omega)
  obtain ⟨r, s₁, h₁, hlen⟩ := mapPage_returns hw hv (present_device phys) hfree
  have hvirt : mmioBase + s.offst = pageAt mmioBase k := by rw [hoff]; rfl
  rw [← hvirt] at h₁
  unfold Vm.free at hlen ⊢
  exact ⟨_, _, mapMmio_of_ok h₁, hlen⟩

end One

/-! ## Many calls -/

/-- The requests of the calls, the first of them for page `k` of the window. -/
def mmioRequests : ℕ → List U64 → List Request
  | _, [] => []
  | k, phys :: l => ⟨pageAt mmioBase k, phys, deviceFlags⟩ :: mmioRequests (k + 1) l

/-- Their entries. -/
def mmioReqs (k : ℕ) (l : List U64) : List (U64 × U64) := (mmioRequests k l).map Request.entry

theorem mem_mmioReqs {k : ℕ} {l : List U64} {q : U64 × U64} (h : q ∈ mmioReqs k l) :
    ∃ j phys, l[j]? = some phys ∧ q = (pageAt mmioBase (k + j), phys ||| deviceFlags) := by
  induction l generalizing k with
  | nil => cases h
  | cons phys l ih =>
    rcases List.mem_cons.mp h with rfl | h
    · exact ⟨0, phys, rfl, rfl⟩
    · obtain ⟨j, a, ha, rfl⟩ := ih h
      exact ⟨j + 1, a, by simpa using ha, by rw [Nat.add_right_comm, Nat.add_assoc]⟩

theorem mmioReqs_mem {k j : ℕ} {l : List U64} {phys : U64} (h : l[j]? = some phys) :
    (pageAt mmioBase (k + j), phys ||| deviceFlags) ∈ mmioReqs k l := by
  induction l generalizing k j with
  | nil => cases h
  | cons a l ih =>
    cases j with
    | zero =>
      obtain rfl : a = phys := by simpa using h
      exact List.mem_cons_self
    | succ j =>
      have hm := ih (k := k + 1) (j := j) (by simpa using h)
      rw [Nat.add_right_comm, Nat.add_assoc] at hm
      exact List.mem_cons_of_mem _ hm

/-- The pointers are consecutive pages from the cursor on, whatever `map_page` did. -/
theorem mapMmios_ptrs {l ptrs : List U64} {s s' : Vm} {k : ℕ}
    (hoff : s.offst = BitVec.ofNat 64 (4096 * k)) (h : mapMmios l s = .ok ptrs s') :
    ptrs = (List.range' k l.length).map (pageAt mmioBase) ∧
      ∃ a m, s' = { s with
        alloc := a, mem := m, offst := BitVec.ofNat 64 (4096 * (k + l.length)) } := by
  induction l generalizing s k ptrs with
  | nil =>
    obtain ⟨rfl, rfl⟩ := EStateM.Result.ok.inj h
    exact ⟨rfl, s.alloc, s.mem, by rw [List.length_nil, Nat.add_zero, ← hoff]⟩
  | cons phys l ih =>
    obtain ⟨p, s₁, h₁, h⟩ := Kernel.bind_eq_ok.mp h
    obtain ⟨ps, s₂, h₂, h⟩ := Kernel.bind_eq_ok.mp h
    obtain ⟨rfl, rfl⟩ := EStateM.Result.ok.inj h
    obtain ⟨r, s₀, h₀, rfl, rfl⟩ := mapMmio_ok h₁
    obtain ⟨a, m, -, rfl⟩ := mapPage_sameRest h₀
    obtain ⟨rfl, a', m', rfl⟩ := ih (k := k + 1) (by rw [← offset_succ, ← hoff]) h₂
    refine ⟨?_, a', m', ?_⟩
    · rw [hoff]
      rfl
    · rw [List.length_cons, Nat.add_right_comm, Nat.add_assoc]

theorem mapMmios_filled {l ptrs : List U64} {s s' : Vm} {k : ℕ}
    (hw : WellFormed windows s.newpml4 s) (hoff : s.offst = BitVec.ofNat 64 (4096 * k))
    (hk : k + l.length ≤ 65536) (h : mapMmios l s = .ok ptrs s') :
    Filled windows s.newpml4 (mmioReqs k l) s s' := by
  induction l generalizing s k ptrs with
  | nil =>
    obtain ⟨-, rfl⟩ := EStateM.Result.ok.inj h
    exact .nil hw
  | cons phys l ih =>
    rw [List.length_cons] at hk
    obtain ⟨p, s₁, h₁, h⟩ := Kernel.bind_eq_ok.mp h
    obtain ⟨ps, s₂, h₂, h⟩ := Kernel.bind_eq_ok.mp h
    obtain ⟨-, rfl⟩ := EStateM.Result.ok.inj h
    obtain ⟨f₁, hnew, hoff₁⟩ := mapMmio_filled hw hoff (by omega) h₁
    have f₂ := ih (by rw [hnew]; exact f₁.wf) hoff₁ (by omega) h₂
    rw [hnew] at f₂
    exact f₁.append f₂

/-- Calls within the window come back if there are frames for the tables they need. -/
theorem mapMmios_returns {l : List U64} {s : Vm} {k : ℕ} (hw : WellFormed windows s.newpml4 s)
    (hoff : s.offst = BitVec.ofNat 64 (4096 * k)) (hk : k + l.length ≤ 65536)
    (hfree : (needed s.mem s.newpml4 (mmioRequests k l)).card ≤ s.free.length) :
    ∃ ptrs s', mapMmios l s = .ok ptrs s' := by
  induction l generalizing s k with
  | nil => exact ⟨[], s, rfl⟩
  | cons phys l ih =>
    rw [List.length_cons] at hk
    have hv : pageAt mmioBase k ∈ windows := pageAt_mmio_mem (by omega)
    have hfree : (needed s.mem s.newpml4
        (⟨pageAt mmioBase k, phys, deviceFlags⟩ :: mmioRequests (k + 1) l)).card ≤ _ := hfree
    obtain ⟨r, s₁, h₁, hlen⟩ := mapPage_first hw hv (present_device phys) hfree
    have hvirt : mmioBase + s.offst = pageAt mmioBase k := by rw [hoff]; rfl
    rw [← hvirt] at h₁
    have hcall := mapMmio_of_ok h₁
    obtain ⟨f₁, hnew, hoff₁⟩ := mapMmio_filled hw hoff (by omega) hcall
    have hnew : s₁.newpml4 = s.newpml4 := hnew
    have hw₁ := f₁.wf
    rw [← hnew] at hw₁
    have hrest : (needed s₁.mem s₁.newpml4 (mmioRequests (k + 1) l)).card ≤
        (freeFrames s₁.alloc.pages).length := by
      unfold Vm.free at hlen hfree
      rw [hnew]
      omega
    obtain ⟨ps, s', h'⟩ := ih (s := { s₁ with offst := s₁.offst + 4096 }) (k := k + 1) hw₁ hoff₁
      (by omega) hrest
    exact ⟨_, s', (Kernel.bind_of_ok hcall).trans (Kernel.bind_of_ok h')⟩

/-- At the beginning of the window they need three tables for every 512 calls at most. -/
theorem needed_mmio_le (mem : Mem) (root : U64) (l : List U64) :
    (needed mem root (mmioRequests 0 l)).card ≤ 3 * ((l.length + 511) / 512) := by
  have hreqs : ∀ (l : List U64) (k : ℕ), ∀ r ∈ mmioRequests k l,
      ∃ j < k + l.length, r.virt = pageAt mmioBase j := by
    intro l
    induction l with
    | nil => exact fun k r hr => by cases hr
    | cons phys l ih =>
      intro k r hr
      rw [List.length_cons]
      rcases List.mem_cons.mp hr with rfl | hr
      · exact ⟨k, by omega, rfl⟩
      · obtain ⟨j, hj, hvirt⟩ := ih (k + 1) r hr
        exact ⟨j, by omega, hvirt⟩
  have hbase : mmioBase.toNat % 2 ^ 21 = 0 := by decide
  refine needed_le_blocks mem root hbase fun r hr => ?_
  obtain ⟨j, hj, hvirt⟩ := hreqs l 0 r hr
  exact ⟨j, by omega, hvirt⟩

/-! ## The window -/

theorem IsFrame.shift {phys : U64} (h : IsFrame phys) : phys >>> 12 <<< 12 = phys := by
  apply BitVec.eq_of_toNat_eq
  have hlt := phys.isLt
  have hmod := h.1
  rw [BitVec.toNat_shiftLeft, BitVec.toNat_ushiftRight, Nat.shiftRight_eq_div_pow,
    Nat.shiftLeft_eq]
  omega

theorem translate_of_page {mem : Mem} {root v phys : U64} (hphys : IsFrame phys)
    (hw : ∃ es, es.length = 3 ∧ hwWalk mem root v = some (es ++ [phys ||| deviceFlags])) :
    translate mem root v = some (phys ||| v &&& 0xFFF) := by
  obtain ⟨es, hlen, hes⟩ := hw
  have hframe : (phys ||| deviceFlags) &&& frameMask = phys := hphys.or_and_mask (by decide)
  unfold translate
  rw [hes]
  simp only [Option.bind_some, List.getLast?_concat, Option.map_some, List.length_append, hlen,
    List.length_singleton, hframe]
  show some (phys >>> 12 <<< 12 ||| v &&& 0xFFF) = _
  rw [hphys.shift]

theorem translate_of_walk {mem : Mem} {root v phys : U64} (hphys : IsFrame phys)
    (hv : v.toNat % 4096 = 0)
    (hw : ∃ es, es.length = 3 ∧ hwWalk mem root v = some (es ++ [phys ||| deviceFlags])) :
    translate mem root v = some phys := by
  have hoff : v &&& 0xFFF = 0 := by
    apply BitVec.eq_of_toNat_eq
    rw [BitVec.toNat_and]
    exact (Nat.and_two_pow_sub_one_eq_mod v.toNat 12).trans hv
  rw [translate_of_page hphys hw, hoff]
  simp

/-- What callers of `map_mmio` rely on, for the calls with the addresses `l`. -/
structure MmioGood (l ptrs : List U64) (s : Vm) : Prop where
  length : ptrs.length = l.length
  nodup : ptrs.Nodup
  window : ∀ p ∈ ptrs, p.toNat % 4096 = 0 ∧ mmioBase ≤ p ∧ p ≤ mmioEnd
  translates : ∀ (k : ℕ) (p a : U64), ptrs[k]? = some p → l[k]? = some a →
    translate s.mem s.newpml4 p = some a

theorem pageAt_mmio_window {k : ℕ} (hk : k < 65536) : (pageAt mmioBase k).toNat % 4096 = 0 ∧
    mmioBase ≤ pageAt mmioBase k ∧ pageAt mmioBase k ≤ mmioEnd := by
  rw [BitVec.le_def, BitVec.le_def, pageAt_toNat]
  have hb : mmioBase.toNat = 0xFFFFFFFFE0000000 := rfl
  have he : mmioEnd.toNat = 0xFFFFFFFFEFFFFFFF := rfl
  rw [hb, he]
  omega

/-- After the window the pointers leave it. -/
theorem not_mmioGood {l ptrs : List U64} {s s' : Vm} (hoff : s.offst = 0)
    (hlen : ¬ l.length ≤ 65536) (h : mapMmios l s = .ok ptrs s') : ¬ MmioGood l ptrs s' := by
  intro hgood
  obtain ⟨rfl, -⟩ := mapMmios_ptrs (k := 0) (by rw [hoff]; rfl) h
  have hmem : pageAt mmioBase 65536 ∈ (List.range' 0 l.length).map (pageAt mmioBase) :=
    List.mem_map_of_mem (List.mem_range'_1.mpr ⟨Nat.zero_le _, by omega⟩)
  have hend := (hgood.window _ hmem).2.2
  rw [BitVec.le_def, pageAt_toNat] at hend
  have hb : mmioBase.toNat = 0xFFFFFFFFE0000000 := rfl
  have he : mmioEnd.toNat = 0xFFFFFFFFEFFFFFFF := rfl
  rw [hb, he] at hend
  omega

theorem mmio_unmapped {s s₁ s₂ : Vm} (hk : KernelSpace s s₁ s₂)
    (hun : ∀ v ∈ windows, hwWalk s.mem s.bootRoot v = none) {j : ℕ} (hj : j < 65536) :
    hwWalk s₁.mem s₁.newpml4 (pageAt mmioBase j) = none := by
  have hv : pageAt mmioBase j ∈ windows := pageAt_mmio_mem (by omega)
  rw [hk.filled.walk_of_other, hk.graft.hwWalk, hun _ hv]
  · split <;> rfl
  · intro r hr hpath
    obtain ⟨k, hk, rfl⟩ := List.mem_map.mp hr
    have hk : k < 65536 := by
      have := (List.mem_range'_1.mp hk).2
      unfold pciEcamPages at this
      omega
    have hpath : path (pageAt pciEcamBase k) = path (pageAt mmioBase j) := hpath
    rw [pageAt_ecam] at hpath
    have := path_pageAt_inj (by omega) (by omega) hpath
    omega

/-- Within the window the calls do what their callers rely on. -/
theorem mmioGood_of_length {s s₁ s₂ s₃ : Vm} (hk : KernelSpace s s₁ s₂)
    (hun : ∀ v ∈ windows, hwWalk s.mem s.bootRoot v = none) (hoff : s₁.offst = 0)
    {l ptrs : List U64} (hl : ∀ a ∈ l, IsFrame a) (hlen : l.length ≤ 65536)
    (h : mapMmios l s₁ = .ok ptrs s₃) : MmioGood l ptrs s₃ := by
  have hoff : s₁.offst = BitVec.ofNat 64 (4096 * 0) := by rw [hoff]; rfl
  have hfill := mapMmios_filled hk.filled.wf hoff (by omega) h
  obtain ⟨rfl, a, m, rfl⟩ := mapMmios_ptrs hoff h
  have hptr : ∀ p ∈ (List.range' 0 l.length).map (pageAt mmioBase), ∃ j < 65536,
      p = pageAt mmioBase j := by
    intro p hp
    obtain ⟨j, hj, rfl⟩ := List.mem_map.mp hp
    have := (List.mem_range'_1.mp hj).2
    exact ⟨j, by omega, rfl⟩
  constructor
  · simp
  · refine List.Nodup.map_on (fun i hi j hj hij => ?_) List.nodup_range'
    have hi := (List.mem_range'_1.mp hi).2
    have hj := (List.mem_range'_1.mp hj).2
    exact path_pageAt_inj (by omega) (by omega) (congrArg path hij)
  · intro p hp
    obtain ⟨j, hj, rfl⟩ := hptr p hp
    exact pageAt_mmio_window hj
  · intro j p b hp hb
    obtain ⟨hj, -⟩ := List.getElem?_eq_some_iff.mp hb
    have hp : p = pageAt mmioBase j := by
      rw [List.getElem?_map, List.getElem?_range' hj] at hp
      simpa using hp.symm
    subst hp
    refine translate_of_walk (hl b (List.mem_of_getElem? hb)) (pageAt_mmio_window (by omega)).1 ?_
    have hmem := mmioReqs_mem (k := 0) hb
    rw [Nat.zero_add] at hmem
    refine hfill.walk_of_unique hmem ?_ (mmio_unmapped hk hun (by omega))
    -- no other call asks for the same page
    intro r hr hpath
    obtain ⟨i, c, hc, rfl⟩ := mem_mmioReqs hr
    obtain ⟨hi, -⟩ := List.getElem?_eq_some_iff.mp hc
    have hij : 0 + i = j := path_pageAt_inj (by omega) (by omega) hpath
    obtain rfl : i = j := by omega
    rw [hc] at hb
    rw [Option.some.inj hb]

/-- **The MMIO window.** After `virtual_memory_init`, with the windows unmapped in the boot tables
and a free frame for every table that is missing on the way of the pages: the calls come back with
distinct pages of the window that keep translating to the addresses of their calls if and only if
there are at most 65536 of them. -/
theorem mapMmios_correct_iff {s s₁ : Vm} {r : CInt} (hb : HighWellFormed windows s.bootRoot s)
    (hun : ∀ v ∈ windows, hwWalk s.mem s.bootRoot v = none) (hoff : s.offst = 0)
    (hinit : virtualMemoryInit s = .ok r s₁) {l : List U64} (hl : ∀ a ∈ l, IsFrame a)
    (hfree : (needed s₁.mem s₁.newpml4 (mmioRequests 0 l)).card ≤ s₁.free.length) :
    (∃ ptrs s₂, mapMmios l s₁ = .ok ptrs s₂ ∧ MmioGood l ptrs s₂) ↔ l.length ≤ 65536 := by
  obtain ⟨s', hk⟩ := virtualMemoryInit_ok hb hinit
  have hoff₁ : s₁.offst = 0 := hk.offst.trans hoff
  constructor
  · rintro ⟨ptrs, s₂, h, hgood⟩
    by_contra hlen
    exact not_mmioGood hoff₁ hlen h hgood
  · intro hlen
    obtain ⟨ptrs, s₂, h⟩ := mapMmios_returns (k := 0) hk.filled.wf (by rw [hoff₁]; rfl) (by omega)
      hfree
    exact ⟨ptrs, s₂, h, mmioGood_of_length hk hun hoff₁ hl hlen h⟩

theorem mapMmios_correct_iff_apics :
    ∃ s, virtualMemoryInit bootVm = .ok 0 s ∧ ∃ ptrs s₂,
      mapMmios [0xFEE00000, 0xFEC00000] s = .ok ptrs s₂ ∧
      MmioGood [0xFEE00000, 0xFEC00000] ptrs s₂ := by
  obtain ⟨s, hs, hfree⟩ := virtualMemoryInit_bootVm
  have hl : ∀ a ∈ [(0xFEE00000 : U64), 0xFEC00000], IsFrame a := by
    simp [IsFrame]
  have hneeded := needed_mmio_le s.mem s.newpml4 [0xFEE00000, 0xFEC00000]
  rw [List.length_cons, List.length_singleton] at hneeded
  refine ⟨s, hs, ?_⟩
  refine (mapMmios_correct_iff bootVm_high (fun v hv => bootVm_windows hv) rfl hs hl ?_).mpr ?_
  · omega
  · rw [List.length_cons, List.length_singleton]
    omega

/-- The pointer of call 65537 is `PCI_ECAM_BASE`, outside the window. -/
theorem mapMmios_past_window :
    ¬ ∀ (s s₁ : Vm) (r : CInt) (l : List U64), HighWellFormed windows s.bootRoot s →
      (∀ v ∈ windows, hwWalk s.mem s.bootRoot v = none) → s.offst = 0 →
      virtualMemoryInit s = .ok r s₁ → (∀ a ∈ l, IsFrame a) →
      3 * ((l.length + 511) / 512) ≤ s₁.free.length →
      ∃ ptrs s₂, mapMmios l s₁ = .ok ptrs s₂ ∧ MmioGood l ptrs s₂ := by
  intro h
  obtain ⟨s, hs, hfree⟩ := virtualMemoryInit_bootVm
  have hlen : (List.replicate 65537 (0 : U64)).length = 65537 := List.length_replicate
  have hl : ∀ a ∈ List.replicate 65537 (0 : U64), IsFrame a := by
    intro a ha
    rw [List.eq_of_mem_replicate ha]
    exact ⟨rfl, by decide⟩
  obtain ⟨s', hk⟩ := virtualMemoryInit_ok bootVm_high hs
  have hoff : s.offst = 0 := hk.offst.trans rfl
  obtain ⟨ptrs, s₂, h₂, hgood⟩ := h bootVm s 0 (List.replicate 65537 0) bootVm_high
    (fun v hv => bootVm_windows hv) rfl hs hl (by rw [hlen]; omega)
  exact not_mmioGood hoff (by rw [hlen]; omega) h₂ hgood

end DejOs
