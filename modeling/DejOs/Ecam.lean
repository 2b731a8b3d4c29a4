import DejOs.AddressSpaces

/-!
# The PCI configuration window

`pci_config` of `pcie.c` computes the address of a function's registers by shifts; the ECAM loop of
`virtual_memory_init` maps the window page by page. `ecamOffset_eq` says that the two count the same
pages, and `ecam_mapped` what is mapped where.

Whether a page can be written depends on every entry on its way. The entries that `map_page` makes
are writable (`Made`), those it finds in the boot tables are left as they are.
-/

namespace DejOs

open RadixTable

/-! ## Addresses -/

/-- `bus << 20 | device << 15 | function << 12` -/
def ecamOffset (bus device function : Byte) : U64 :=
  bus.setWidth 64 <<< 20 ||| device.setWidth 64 <<< 15 ||| function.setWidth 64 <<< 12

/-- `pci_config` -/
def pciConfig (bus device function : Byte) : U64 :=
  pciEcamBase + ecamOffset bus device function

/-- The number of a function's page in the window. -/
def ecamPage (bus device function : Byte) : ℕ :=
  bus.toNat * 256 + device.toNat * 8 + function.toNat

section Address

variable {bus device function bus' device' function' : Byte}

theorem ecamPage_lt (hd : device.toNat < 32) (hf : function.toNat < 8) :
    ecamPage bus device function < pciEcamPages := by
  have hb := bus.isLt
  unfold ecamPage pciEcamPages
  omega

theorem ecamPage_inj (hd : device.toNat < 32) (hf : function.toNat < 8) (hd' : device'.toNat < 32)
    (hf' : function'.toNat < 8)
    (h : ecamPage bus device function = ecamPage bus' device' function') :
    bus = bus' ∧ device = device' ∧ function = function' := by
  unfold ecamPage at h
  refine ⟨BitVec.eq_of_toNat_eq ?_, BitVec.eq_of_toNat_eq ?_, BitVec.eq_of_toNat_eq ?_⟩ <;> omega

/-- The three fields do not overlap: the offset is a number of pages. -/
theorem ecamOffset_eq (hd : device.toNat < 32) (hf : function.toNat < 8) :
    ecamOffset bus device function = BitVec.ofNat 64 (4096 * ecamPage bus device function) := by
  have hb := bus.isLt
  have hshift : ∀ (x : Byte) (k : ℕ), k ≤ 56 → (x.setWidth 64 <<< k).toNat = x.toNat * 2 ^ k := by
    intro x k hk
    have hx := x.isLt
    have hlt : x.toNat * 2 ^ k < 2 ^ 64 := calc
      x.toNat * 2 ^ k < 2 ^ 8 * 2 ^ k := Nat.mul_lt_mul_of_pos_right hx (Nat.two_pow_pos k)
      _ = 2 ^ (8 + k) := (Nat.pow_add 2 8 k).symm
      _ ≤ 2 ^ 64 := Nat.pow_le_pow_right (by decide) (by omega)
    rw [BitVec.toNat_shiftLeft, BitVec.toNat_setWidth,
      Nat.mod_eq_of_lt (by omega : x.toNat < 2 ^ 64), Nat.shiftLeft_eq, Nat.mod_eq_of_lt hlt]
  have hor : bus.toNat * 2 ^ 20 ||| device.toNat * 2 ^ 15 =
      bus.toNat * 2 ^ 20 + device.toNat * 2 ^ 15 := by
    rw [← Nat.shiftLeft_eq bus.toNat, Nat.shiftLeft_add_eq_or_of_lt (by omega)]
  have hor' : (bus.toNat * 2 ^ 5 + device.toNat) * 2 ^ 15 ||| function.toNat * 2 ^ 12 =
      (bus.toNat * 2 ^ 5 + device.toNat) * 2 ^ 15 + function.toNat * 2 ^ 12 := by
    rw [← Nat.shiftLeft_eq (bus.toNat * 2 ^ 5 + device.toNat),
      Nat.shiftLeft_add_eq_or_of_lt (by omega)]
  apply BitVec.eq_of_toNat_eq
  unfold ecamOffset ecamPage
  rw [BitVec.toNat_or, BitVec.toNat_or, hshift bus 20 (by decide), hshift device 15 (by decide),
    hshift function 12 (by decide), hor,
    show bus.toNat * 2 ^ 20 + device.toNat * 2 ^ 15 = (bus.toNat * 2 ^ 5 + device.toNat) * 2 ^ 15
      by omega, hor', BitVec.toNat_ofNat]
  omega

/-- The scan and the loop of `virtual_memory_init` mean the same page. -/
theorem pciConfig_eq (hd : device.toNat < 32) (hf : function.toNat < 8) :
    pciConfig bus device function = pageAt pciEcamBase (ecamPage bus device function) := by
  unfold pciConfig pageAt
  rw [ecamOffset_eq hd hf]

end Address

theorem pageAt_ecam_toNat {k : ℕ} (hk : k < pciEcamPages) {r : U64} (hr : r.toNat < 4096) :
    (pageAt pciEcamBase k + r).toNat = 0xFFFFFFFFF0000000 + 4096 * k + r.toNat := by
  unfold pciEcamPages at hk
  rw [BitVec.toNat_add, pageAt_toNat]
  show ((0xFFFFFFFFF0000000 + 4096 * k) % 2 ^ 64 + r.toNat) % 2 ^ 64 = _
  omega

theorem ecam_frame {k : ℕ} (hk : k < pciEcamPages) :
    (pciEcamPhys + BitVec.ofNat 64 (4096 * k)).toNat = 0xB0000000 + 4096 * k := by
  unfold pciEcamPages at hk
  rw [BitVec.toNat_add, BitVec.toNat_ofNat]
  show (0xB0000000 + 4096 * k % 2 ^ 64) % 2 ^ 64 = _
  omega

theorem ecam_frame_inj {bus device function bus' device' function' : Byte}
    (hd : device.toNat < 32) (hf : function.toNat < 8) (hd' : device'.toNat < 32)
    (hf' : function'.toNat < 8) (h : pciEcamPhys + ecamOffset bus device function =
      pciEcamPhys + ecamOffset bus' device' function') :
    bus = bus' ∧ device = device' ∧ function = function' := by
  have hnat := congrArg BitVec.toNat h
  rw [ecamOffset_eq hd hf, ecamOffset_eq hd' hf', ecam_frame (ecamPage_lt hd hf),
    ecam_frame (ecamPage_lt hd' hf')] at hnat
  exact ecamPage_inj hd hf hd' hf' (by omega)

theorem ecam_isFrame {k : ℕ} (hk : k < pciEcamPages) :
    IsFrame (pciEcamPhys + BitVec.ofNat 64 (4096 * k)) := by
  unfold IsFrame
  rw [ecam_frame hk]
  unfold pciEcamPages at hk
  omega

theorem path_ecam {k : ℕ} (hk : k < pciEcamPages) {r : U64} (hr : r.toNat < 4096) :
    path (pageAt pciEcamBase k + r) = path (pageAt pciEcamBase k) := by
  rw [path_eq_iff, pageAt_ecam_toNat hk hr, pageAt_toNat]
  unfold pciEcamPages at hk
  show _ = (0xFFFFFFFFF0000000 + 4096 * k) % 2 ^ 64 / 4096 % 2 ^ 36
  omega

theorem ecam_offset {k : ℕ} (hk : k < pciEcamPages) {r : U64} (hr : r.toNat < 4096) :
    (pciEcamPhys + BitVec.ofNat 64 (4096 * k)) ||| ((pageAt pciEcamBase k + r) &&& 0xFFF) =
      pciEcamPhys + BitVec.ofNat 64 (4096 * k) + r := by
  have hframe := ecam_frame hk
  have hmask : ((pageAt pciEcamBase k + r) &&& 0xFFF).toNat = r.toNat := by
    rw [BitVec.toNat_and, pageAt_ecam_toNat hk hr]
    show (0xFFFFFFFFF0000000 + 4096 * k + r.toNat) &&& (2 ^ 12 - 1) = _
    rw [Nat.and_two_pow_sub_one_eq_mod]
    omega
  generalize pciEcamPhys + BitVec.ofNat 64 (4096 * k) = frame at hframe ⊢
  have hshift : frame.toNat = (0xB0000 + k) <<< 12 := by
    rw [hframe, Nat.shiftLeft_eq]
    omega
  apply BitVec.eq_of_toNat_eq
  rw [BitVec.toNat_or, hmask, hshift, ← Nat.shiftLeft_add_eq_or_of_lt hr, ← hshift,
    BitVec.toNat_add, hframe]
  unfold pciEcamPages at hk
  omega

/-! ## The entries `map_page` makes -/

/-- Bit 1. -/
def writable (e : U64) : Bool := e &&& pageWrite != 0
/-- Bit 63. -/
def nx (e : U64) : Bool := e &&& pageNx != 0

theorem writable_tableEntry {page : U64} (h : IsFrame page) :
    writable (tableEntry page) = true := by
  unfold writable
  rw [tableEntry_eq, h.or_and_flags (by decide)]
  rfl

theorem writable_device {phys : U64} (h : IsFrame phys) :
    writable (phys ||| deviceFlags) = true := by
  unfold writable
  rw [h.or_and_flags (by decide)]
  rfl

theorem nx_device {phys : U64} (h : IsFrame phys) : nx (phys ||| deviceFlags) = true := by
  unfold nx
  rw [h.or_and_flags (by decide)]
  rfl

/-- Every entry above the last level that is present in `mem'` was in `mem`, or is writable. -/
def Made (root : U64) (mem mem' : Mem) : Prop :=
  ∀ p t j, p.length < 3 → tableFrom mem' root p = some t → present (mem' t j) = true →
    (tableFrom mem root p = some t ∧ mem' t j = mem t j) ∨ writable (mem' t j) = true

theorem Made.refl (root : U64) (mem : Mem) : Made root mem mem :=
  fun _ _ _ _ ht _ => Or.inl ⟨ht, rfl⟩

theorem Made.trans {root : U64} {m₁ m₂ m₃ : Mem} (h : Made root m₁ m₂) (h' : Made root m₂ m₃) :
    Made root m₁ m₃ := by
  intro p t j hlen ht hp
  rcases h' p t j hlen ht hp with ⟨ht', he⟩ | hw
  · rw [he] at hp ⊢
    exact h p t j hlen ht' hp
  · exact Or.inr hw

section Made

variable {V : Set U64} {root v : U64} {s s' : Vm} {p q : List (Fin 512)} {t g : U64} {j : Fin 512}
  (hw : WellFormed V root s) (hv : v ∈ V)

include hw hv

theorem nextTable_made (hpath : path v = p ++ j :: q) (hq : q ≠ [])
    (hp : tableFrom s.mem root p = some t) (h : nextTable t j s = .ok g s') :
    Made root s.mem s'.mem ∧ ∃ n, Descends V root s s' (p ++ [j]) g n := by
  constructor
  · cases hj : present (s.mem t j) with
    | true =>
      rw [nextTable_of_present hj] at h
      obtain ⟨-, rfl⟩ := EStateM.Result.ok.inj h
      exact .refl root _
    | false =>
      have hlen := length_lt_three hpath hq
      cases hf : s.free with
      | nil =>
        obtain ⟨a, ha⟩ := giveRawPage_of_none hw.mine hf
        rw [nextTable_of_error hj ha] at h
        cases h
      | cons f rest =>
        obtain ⟨a, ha, -⟩ := giveRawPage_of_free hw.mine hf
        rw [nextTable_of_ok hj ha] at h
        obtain ⟨-, rfl⟩ := EStateM.Result.ok.inj h
        intro r k i _ hk hpr
        rcases entry_link (a := a) hw hp hlen hj hf hk i with ⟨-, -, he⟩ | hold | he
        · exact Or.inr ((congrArg writable he).trans (writable_tableEntry (head_isFrame hw hf)))
        · exact Or.inl hold
        · exact absurd (he.symm.trans hpr) Bool.false_ne_true
  · by_cases hfree : lacks s.mem root (p ++ [j]) ≤ s.free.length
    · obtain ⟨g', s'', h'', d⟩ := nextTable_descends hw hv hpath hq hp hfree
      obtain ⟨rfl, rfl⟩ := EStateM.Result.ok.inj (h''.symm.trans h)
      exact ⟨_, d⟩
    · obtain ⟨s'', h''⟩ := nextTable_exhausted hw hv hpath hq hp (by omega)
      cases h''.symm.trans h

theorem descend_made {l : List (Fin 512)} (hpath : path v = p ++ (l ++ q)) (hq : q ≠ [])
    (hp : tableFrom s.mem root p = some t) (h : descend t l s = .ok g s') :
    Made root s.mem s'.mem ∧ WellFormed V root s' ∧ tableFrom s'.mem root (p ++ l) = some g := by
  induction l generalizing p t s with
  | nil =>
    obtain ⟨rfl, rfl⟩ := EStateM.Result.ok.inj h
    exact ⟨.refl root _, hw, by rw [List.append_nil]; exact hp⟩
  | cons j l ih =>
    have hne : l ++ q ≠ [] := by simp [hq]
    obtain ⟨u, s₁, h₁, h₂⟩ := Kernel.bind_eq_ok.mp h
    obtain ⟨m₁, n, d⟩ := nextTable_made hw hv hpath hne hp h₁
    obtain ⟨m₂, hw₂, ht₂⟩ := ih d.wf (by rw [hpath]; simp) d.table h₂
    have happ : p ++ [j] ++ l = p ++ j :: l := by simp
    rw [happ] at ht₂
    exact ⟨m₁.trans m₂, hw₂, ht₂⟩

theorem mapPage_made {phys flags : U64} {r : CInt} (he : present (phys ||| flags) = true)
    (h : mapPage root v phys flags s = .ok r s') : Made root s.mem s'.mem := by
  rw [mapPage_eq] at h
  obtain ⟨t, s₁, h₁, h₂⟩ := Kernel.bind_eq_ok.mp h
  obtain ⟨m, hw₁, ht⟩ := descend_made hw hv (p := []) (l := tablePath v) (q := [index v 12]) rfl
    (by simp) rfl h₁
  refine m.trans ?_
  cases hj : present (s₁.mem t (index v 12)) with
  | true =>
    rw [mapLeaf_of_present hj] at h₂
    obtain ⟨-, rfl⟩ := EStateM.Result.ok.inj h₂
    exact .refl root _
  | false =>
    rw [mapLeaf_of_absent hj] at h₂
    obtain ⟨-, rfl⟩ := EStateM.Result.ok.inj h₂
    intro p k i hlen hk _
    rw [tableFrom_leaf hw₁ ht hj he] at hk
    exact Or.inl ⟨hk, entry_leaf hw₁ ht hj hlen hk i⟩

end Made

theorem mapEcam_made {n k : ℕ} {s s' : Vm} (hw : WellFormed windows s.newpml4 s)
    (hk : k + n ≤ pciEcamPages) (h : mapEcam n (BitVec.ofNat 64 (4096 * k)) s = .ok () s') :
    Made s.newpml4 s.mem s'.mem := by
  induction n generalizing k s with
  | zero =>
    obtain ⟨-, rfl⟩ := EStateM.Result.ok.inj h
    exact .refl _ _
  | succ n ih =>
    rw [mapEcam_succ, offset_succ] at h
    obtain ⟨r, s₁, h₁, h₂⟩ := Kernel.bind_eq_ok.mp h
    have hv := pageAt_ecam_mem (k := k) (by omega)
    obtain ⟨f₁, r₁⟩ := mapPage_filled hw hv (present_device _) h₁
    have m₁ := mapPage_made hw hv (present_device _) h₁
    have hnew := r₁.newpml4
    have m₂ := ih (by rw [hnew]; exact f₁.wf) (by omega) h₂
    rw [hnew] at m₂
    exact m₁.trans m₂

/-- `virtual_memory_init` makes writable entries only. -/
theorem virtualMemoryInit_made {s s' : Vm} {r : CInt} (hb : HighWellFormed windows s.bootRoot s)
    (h : virtualMemoryInit s = .ok r s') :
    ∃ t, KernelSpace s s' t ∧ Made s'.newpml4 t.mem s'.mem := by
  obtain ⟨t, hk⟩ := virtualMemoryInit_ok hb h
  obtain ⟨a, u, s₂, -, hgraft, h₂, rfl⟩ := virtualMemoryInit_run hb h
  have hw : WellFormed windows (s.withRoot a u).newpml4 (s.withRoot a u) := hgraft.wellFormed
  obtain ⟨-, hrest⟩ := mapEcam_filled (k := 0) hw (Nat.zero_add _).le h₂
  have hm := mapEcam_made (k := 0) hw (Nat.zero_add _).le h₂
  have hnew : s₂.newpml4 = u := hrest.newpml4
  have hmem : t.mem = (s.withRoot a u).mem := by
    rw [hk.graft.mem, hgraft.mem]
    show Function.update s.mem s₂.newpml4 _ = _
    rw [hnew]
  refine ⟨t, hk, ?_⟩
  show Made s₂.newpml4 t.mem s₂.mem
  rw [hmem, hnew]
  exact hm

/-! ## Permissions -/

/-- A mapped address with `PAGE_WRITE` in every entry on the way. -/
def Writable (mem : Mem) (root v : U64) : Prop :=
  ∃ es, hwWalk mem root v = some es ∧ ∀ e ∈ es, writable e = true

/-- A mapped address with `PAGE_NX` in an entry on the way. -/
def NoExecute (mem : Mem) (root v : U64) : Prop :=
  ∃ es, hwWalk mem root v = some es ∧ ∃ e ∈ es, nx e = true

/-- The entries there are on the way of an address, mapped or not, have `PAGE_WRITE`. -/
def WritableWay (mem : Mem) (root v : U64) : Prop :=
  ∀ p j q t, path v = p ++ j :: q → tableFrom mem root p = some t → present (mem t j) = true →
    writable (mem t j) = true

theorem mem_walk {mem : Mem} {root v : U64} {es : List U64} (hes : hwWalk mem root v = some es)
    {p q : List (Fin 512)} {j : Fin 512} {t : U64} (hpath : path v = p ++ j :: q)
    (ht : tableFrom mem root p = some t) : mem t j ∈ es := by
  obtain ⟨es₀, -, hes₀⟩ := walk_append ht
  unfold hwWalk at hes
  rw [hpath, hes₀] at hes
  obtain ⟨es₁, hes₁, rfl⟩ := Option.map_eq_some_iff.mp hes
  exact List.mem_append_right _ (walk_head hes₁)

theorem translate_congr {mem mem' : Mem} {root root' v : U64}
    (h : hwWalk mem' root' v = hwWalk mem root v) :
    translate mem' root' v = translate mem root v := by
  unfold translate
  rw [h]

/-! ## After `virtual_memory_init` -/

namespace KernelSpace

variable {s s' t : Vm} (h : KernelSpace s s' t)

include h

/-- A page of the window that was not mapped at boot has the entry of the loop. -/
theorem ecam_walk (hun : ∀ v, pciEcamBase ≤ v → hwWalk s.mem s.bootRoot v = none) {k : ℕ}
    (hk : k < pciEcamPages) {r : U64} (hr : r.toNat < 4096) : ∃ es, es.length = 3 ∧
      hwWalk s'.mem s'.newpml4 (pageAt pciEcamBase k + r) =
        some (es ++ [(pciEcamPhys + BitVec.ofNat 64 (4096 * k)) ||| deviceFlags]) := by
  have hle : pciEcamBase ≤ pageAt pciEcamBase k + r := by
    rw [BitVec.le_def, pageAt_ecam_toNat hk hr]
    show 0xFFFFFFFFF0000000 ≤ _
    omega
  have hnone : hwWalk t.mem s'.newpml4 (pageAt pciEcamBase k + r) = none := by
    rw [h.graft.hwWalk, hun _ hle]
    split <;> rfl
  rw [hwWalk_congr (path_ecam hk hr)] at hnone ⊢
  refine h.filled.walk_of_unique (List.mem_map_of_mem (f := ecamReq) ?_) ?_ hnone
  · exact List.mem_range'_1.mpr ⟨Nat.zero_le _, by omega⟩
  · intro q hq hpath
    obtain ⟨i, hi, rfl⟩ := List.mem_map.mp hq
    have hi := (List.mem_range'_1.mp hi).2
    have hpath : path (pageAt pciEcamBase i) = path (pageAt pciEcamBase k) := hpath
    rw [pageAt_ecam, pageAt_ecam] at hpath
    unfold pciEcamPages at hi hk
    have hik := path_pageAt_inj (by omega) (by omega) hpath
    obtain rfl : i = k := by omega
    rfl

theorem boot_entry {v : U64} (hv : v ∈ windows) {p q : List (Fin 512)} {j : Fin 512} {f : U64}
    (hpath : path v = p ++ j :: q) (hf : tableFrom s.mem s.bootRoot p = some f)
    (hp : present (s.mem f j) = true) :
    ∃ f', tableFrom s'.mem s'.newpml4 p = some f' ∧ s'.mem f' j = s.mem f j := by
  have h39 := index_windows hv
  cases p with
  | nil =>
    obtain rfl : s.bootRoot = f := Option.some.inj hf
    obtain ⟨rfl, -⟩ : index v 39 = j ∧ _ := List.cons.inj hpath
    rw [h39] at hp ⊢
    exact ⟨_, rfl, h.slot hp (by decide)⟩
  | cons i p =>
    obtain ⟨rfl, -⟩ : index v 39 = i ∧ _ := List.cons.inj hpath
    have hhigh : 256 ≤ (index v 39).val := by rw [h39]; decide
    have hne : f ≠ s'.newpml4 := fun e =>
      h.graft.high.apart _ h.graft.mem_free _ (highPath_cons.mpr hhigh) (e ▸ hf)
    have hf' : tableFrom t.mem s'.newpml4 (index v 39 :: p) = some f := by
      rw [h.graft.tableFrom_cons, if_pos hhigh, hf]
    have hsame : t.mem f = s.mem f := h.graft.mem_of_ne hne
    refine ⟨f, h.filled.grows.tables _ _ hf', ?_⟩
    rw [h.filled.grows.entries _ _ _ hf' (by rw [hsame]; exact hp), hsame]

/-- The kernel's own entries are writable, those of the boot tables may be or not. -/
theorem writable_iff (m : Made s'.newpml4 t.mem s'.mem) {v : U64} (hv : v ∈ windows)
    {es : List U64} {phys : U64} (hphys : IsFrame phys) (hlen : es.length = 3)
    (hes : hwWalk s'.mem s'.newpml4 v = some (es ++ [phys ||| deviceFlags])) :
    Writable s'.mem s'.newpml4 v ↔ WritableWay s.mem s.bootRoot v := by
  constructor
  · rintro ⟨es', hes', hall⟩ p j q f hpath hf hp
    obtain ⟨f', hf', he⟩ := h.boot_entry hv hpath hf hp
    rw [← he]
    exact hall _ (mem_walk hes' hpath hf')
  · refine fun hway => ⟨_, hes, fun e he => ?_⟩
    rcases List.mem_append.mp he with he | he
    · obtain ⟨k, hk, rfl⟩ := List.mem_iff_getElem.mp he
      have hget : (es ++ [phys ||| deviceFlags])[k]? = some es[k] := by
        rw [List.getElem?_append_left hk, List.getElem?_eq_getElem hk]
      obtain ⟨f, j, q, hpath, hf, he, habs⟩ := walk_getElem hes hget
      have hp := present_of_decode habs
      rw [he] at hp ⊢
      rcases m _ _ j (by rw [List.length_take]; omega) hf hp with ⟨hold, hsame⟩ | hnew
      · -- the entry was there when the loop began, so it was there at boot
        rw [hsame] at hp ⊢
        rcases h.graft.table_cases hold with ⟨hnil, rfl⟩ | ⟨-, hhigh, hboot⟩
        · rw [hnil] at hpath
          obtain ⟨rfl, -⟩ : index v 39 = j ∧ _ := List.cons.inj hpath
          have hhigh : 256 ≤ (index v 39).val := by rw [index_windows hv]; decide
          rw [h.graft.slot, highRow, if_pos hhigh] at hp ⊢
          exact hway [] _ q _ hpath rfl hp
        · have hne : f ≠ s'.newpml4 := fun e =>
            h.graft.high.apart _ h.graft.mem_free _ hhigh (e ▸ hboot)
          rw [h.graft.mem_of_ne hne] at hp ⊢
          exact hway _ j q f hpath hboot hp
      · exact hnew
    · rw [List.mem_singleton.mp he]
      exact writable_device hphys

/-- Outside the window the boot tables are walked, in the higher half only. -/
theorem walk_outside {v : U64} (hv : v.toNat / 4096 % 2 ^ 36 < 0xFFFFF0000) :
    hwWalk s'.mem s'.newpml4 v =
      if 256 ≤ (index v 39).val then hwWalk s.mem s.bootRoot v else none := by
  rw [h.filled.walk_of_other, h.graft.hwWalk]
  intro q hq hpath
  obtain ⟨i, hi, rfl⟩ := List.mem_map.mp hq
  have hi := (List.mem_range'_1.mp hi).2
  have hpath : path (pageAt pciEcamBase i) = path v := hpath
  rw [path_eq_iff, pageAt_toNat] at hpath
  unfold pciEcamPages at hi
  have hb : pciEcamBase.toNat = 0xFFFFFFFFF0000000 := rfl
  rw [hb] at hpath
  omega

theorem ecam_translate (hun : ∀ v, pciEcamBase ≤ v → hwWalk s.mem s.bootRoot v = none)
    {bus device function : Byte} {r : U64} (hd : device.toNat < 32) (hf : function.toNat < 8)
    (hr : r.toNat < 4096) : translate s'.mem s'.newpml4 (pciConfig bus device function + r) =
      some (pciEcamPhys + ecamOffset bus device function + r) := by
  have hk : ecamPage bus device function < pciEcamPages := ecamPage_lt hd hf
  rw [pciConfig_eq hd hf, ecamOffset_eq hd hf,
    translate_of_page (ecam_isFrame hk) (h.ecam_walk hun hk hr), ecam_offset hk hr]

theorem ecam_base (hun : ∀ v, pciEcamBase ≤ v → hwWalk s.mem s.bootRoot v = none)
    {bus device function : Byte} (hd : device.toNat < 32) (hf : function.toNat < 8) :
    translate s'.mem s'.newpml4 (pciConfig bus device function) =
      some (pciEcamPhys + ecamOffset bus device function) := by
  have h0 : translate s'.mem s'.newpml4 (pciConfig bus device function + 0#64) = _ :=
    h.ecam_translate hun hd hf (by decide)
  rwa [BitVec.add_zero, BitVec.add_zero] at h0

theorem ecam_rights (hun : ∀ v, pciEcamBase ≤ v → hwWalk s.mem s.bootRoot v = none)
    (m : Made s'.newpml4 t.mem s'.mem) {bus device function : Byte} {r : U64}
    (hd : device.toNat < 32) (hf : function.toNat < 8) (hr : r.toNat < 4096) :
    let v := pciConfig bus device function + r
    NoExecute s'.mem s'.newpml4 v ∧ ¬ UserAccessible s'.mem s'.newpml4 v ∧
      (Writable s'.mem s'.newpml4 v ↔ WritableWay s.mem s.bootRoot v) := by
  have hk : ecamPage bus device function < pciEcamPages := ecamPage_lt hd hf
  have hphys := ecam_isFrame hk
  obtain ⟨es, hlen, hes⟩ := h.ecam_walk hun hk hr
  have hv : pageAt pciEcamBase (ecamPage bus device function) + r ∈ windows := by
    rw [mem_windows, pageAt_ecam_toNat hk hr]
    omega
  have hleaf : (pciEcamPhys + BitVec.ofNat 64 (4096 * ecamPage bus device function)) |||
      deviceFlags ∈ es ++ [_] := List.mem_append_right _ (List.mem_singleton_self _)
  rw [pciConfig_eq hd hf]
  refine ⟨⟨_, hes, _, hleaf, nx_device hphys⟩, ?_, h.writable_iff m hv hphys hlen hes⟩
  rintro ⟨-, es', hes', huser⟩
  obtain rfl := Option.some.inj (hes.symm.trans hes')
  have hu := huser _ hleaf
  rw [user_device hphys] at hu
  cases hu

end KernelSpace

/-- **The configuration window.** From boot tables that are well-formed in their higher half and
have the window unmapped, with a free frame for the root and for every table that is missing on the
way of the window, `virtual_memory_init` returns, and then: every
register of a function is mapped at `pci_config` to its place in the physical window, not
executable, not for the user, and writable if the entries the boot tables have on its way are;
distinct functions have distinct frames; nothing of the lower half is mapped; and the rest of the
higher half translates as at boot. -/
theorem ecam_mapped {s : Vm} (hb : HighWellFormed windows s.bootRoot s)
    (hun : ∀ v, pciEcamBase ≤ v → hwWalk s.mem s.bootRoot v = none)
    (hlow : ∀ f ∈ s.free, 0x100000 ≤ f.toNat)
    (hfree : (needed s.mem s.bootRoot (ecamRequests 0 pciEcamPages)).card < s.free.length) :
    ∃ s', virtualMemoryInit s = .ok 0 s' ∧
      (∀ (bus device function : Byte) (r : U64), device.toNat < 32 → function.toNat < 8 →
        r.toNat < 4096 → let v := pciConfig bus device function + r
          translate s'.mem s'.newpml4 v =
              some (pciEcamPhys + ecamOffset bus device function + r) ∧
            NoExecute s'.mem s'.newpml4 v ∧ ¬ UserAccessible s'.mem s'.newpml4 v ∧
            (Writable s'.mem s'.newpml4 v ↔ WritableWay s.mem s.bootRoot v)) ∧
      (∀ bus device function bus' device' function' : Byte, device.toNat < 32 →
        function.toNat < 8 → device'.toNat < 32 → function'.toNat < 8 →
        translate s'.mem s'.newpml4 (pciConfig bus device function) =
          translate s'.mem s'.newpml4 (pciConfig bus' device' function') →
        bus = bus' ∧ device = device' ∧ function = function') ∧
      (∀ v, LowerHalf v → translate s'.mem s'.newpml4 v = none) ∧
      (∀ v, HigherHalf v → v < pciEcamBase →
        translate s'.mem s'.newpml4 v = translate s.mem s.bootRoot v) := by
  obtain ⟨s', hs', -⟩ := virtualMemoryInit_returns hb hlow hfree
  obtain ⟨t, h, m⟩ := virtualMemoryInit_made hb hs'
  refine ⟨s', hs', fun bus device function r hd hf hr => ⟨h.ecam_translate hun hd hf hr,
    h.ecam_rights hun m hd hf hr⟩, ?_, fun v hv => ?_, fun v hv hlt => ?_⟩
  · intro bus device function bus' device' function' hd hf hd' hf' heq
    rw [h.ecam_base hun hd hf, h.ecam_base hun hd' hf'] at heq
    exact ecam_frame_inj hd hf hd' hf' (Option.some.inj heq)
  · have hwalk := h.walk_outside (v := v) (by unfold LowerHalf at hv; omega)
    rw [if_neg hv.index] at hwalk
    unfold translate
    rw [hwalk]
    rfl
  · refine translate_congr ?_
    have hlt : v.toNat < 0xFFFFFFFFF0000000 := hlt
    rw [h.walk_outside (by unfold HigherHalf at hv; omega), if_pos hv.index]

/-- The registers of the functions of `bootVm`'s buses; its entries are all writable. -/
theorem ecam_mapped_bootVm : ∃ s', virtualMemoryInit bootVm = .ok 0 s' ∧
    translate s'.mem s'.newpml4 (pciConfig 0 31 2 + 0x10) = some 0xB00FA010 := by
  have hlow : ∀ f ∈ bootVm.free, 0x100000 ≤ f.toNat := by
    rw [bootVm_free]
    intro f hf
    obtain ⟨k, -, he⟩ := mem_bootFrames hf
    omega
  have hneeded := needed_ecam_le bootVm.mem bootVm.bootRoot
  have hfree : (needed bootVm.mem bootVm.bootRoot (ecamRequests 0 pciEcamPages)).card <
      bootVm.free.length := by
    rw [bootVm_free, bootFrames, List.length_map, List.length_range]
    omega
  obtain ⟨s', hs', hreg, -⟩ := ecam_mapped bootVm_high
    (fun v hv => bootVm_windows (mem_windows.mpr (le_trans (by decide) hv))) hlow hfree
  exact ⟨s', hs', (hreg 0 31 2 0x10 (by decide) (by decide) (by decide)).1⟩

/-! ### Boot tables with a read-only entry -/

/-- The last entry of the PML4 leads to an empty table, without `PAGE_WRITE`. -/
def readOnlyVm : Vm :=
  { blankVm bootFrames with mem := put (fun _ _ => 0) 0x1000 (Fin.last 511) 0x2001, cr3 := 0x1000 }

theorem readOnlyVm_free : readOnlyVm.free = bootFrames := by
  simp only [Vm.free, readOnlyVm, blankVm, freeFrames_unused]

theorem readOnlyVm_root : readOnlyVm.bootRoot = 0x1000 := by
  simp [Vm.bootRoot, readOnlyVm]

theorem readOnlyVm_table (q : List (Fin 512)) (k : U64) :
    tableFrom readOnlyVm.mem 0x1000 q = some k ↔
      tableFrom (fun _ _ => 0) 0x1000 q = some k ∨ (q = [511] ∧ k = 0x2000) := by
  refine tableAt_put_table (p := []) ?_ rfl rfl rfl (fun _ => rfl) ?_ q k
  · intro p q t hp hq
    rw [(tableFrom_blank hp).1, (tableFrom_blank hq).1]
  · intro q hq
    exact absurd (tableFrom_blank hq).2 (by decide)

theorem readOnlyVm_cases {q : List (Fin 512)} {k : U64}
    (h : tableFrom readOnlyVm.mem 0x1000 q = some k) :
    (q = [] ∧ k = 0x1000) ∨ (q = [511] ∧ k = 0x2000) :=
  ((readOnlyVm_table q k).mp h).imp_left tableFrom_blank

theorem readOnlyVm_present {t : U64} {j : Fin 512} (h : present (readOnlyVm.mem t j) = true) :
    t = 0x1000 ∧ j = 511 := by
  by_contra hne
  have h : present (put (fun _ _ => (0 : U64)) 0x1000 511 0x2001 t j) = true := h
  rw [put_of_ne hne] at h
  exact absurd h (by decide)

theorem readOnlyVm_high : HighWellFormed windows readOnlyVm.bootRoot readOnlyVm := by
  rw [readOnlyVm_root]
  constructor
  · intro p q t _ _ hp hq
    rcases readOnlyVm_cases hp with ⟨rfl, rfl⟩ | ⟨rfl, rfl⟩ <;>
      rcases readOnlyVm_cases hq with ⟨rfl, h⟩ | ⟨rfl, h⟩ <;>
      first | rfl | exact absurd h (by decide)
  · intro v _ _ p j q t _ _ _ hp
    obtain ⟨rfl, rfl⟩ := readOnlyVm_present hp
    rfl
  · rw [readOnlyVm_free]
    intro f hf
    obtain ⟨k, hk, he⟩ := mem_bootFrames hf
    unfold IsFrame
    omega
  · rw [readOnlyVm_free]
    exact bootFrames_nodup
  · rw [readOnlyVm_free]
    intro f hf p _ hp
    obtain ⟨k, hk, he⟩ := mem_bootFrames hf
    rcases readOnlyVm_cases hp with ⟨-, rfl⟩ | ⟨-, rfl⟩ <;> simp at he <;> omega
  · exact Or.inl rfl

theorem readOnlyVm_windows {v : U64} (hv : v ∈ windows) :
    hwWalk readOnlyVm.mem readOnlyVm.bootRoot v = none := by
  rw [readOnlyVm_root]
  have hpath : path v = [511] ++ [index v 30] ++ [index v 21, index v 12] := by
    unfold path
    rw [index_windows hv]
    rfl
  unfold hwWalk
  rw [hpath]
  refine walk_through_absent ((readOnlyVm_table [511] 0x2000).mpr (Or.inr ⟨rfl, rfl⟩)) ?_ _
  refine decode_of_not_present (Bool.eq_false_iff.mpr fun hp => ?_)
  exact absurd (readOnlyVm_present hp).1 (by decide)

/-- Under a PML4 entry without `PAGE_WRITE` the registers cannot be written. -/
theorem ecam_readOnly :
    ¬ ∀ s : Vm, HighWellFormed windows s.bootRoot s →
      (∀ v, pciEcamBase ≤ v → hwWalk s.mem s.bootRoot v = none) →
      (∀ f ∈ s.free, 0x100000 ≤ f.toNat) → 385 ≤ s.free.length →
      ∃ s', virtualMemoryInit s = .ok 0 s' ∧
        ∀ (bus device function : Byte) (r : U64), device.toNat < 32 → function.toNat < 8 →
          r.toNat < 4096 → Writable s'.mem s'.newpml4 (pciConfig bus device function + r) := by
  intro hall
  have hun : ∀ v, pciEcamBase ≤ v → hwWalk readOnlyVm.mem readOnlyVm.bootRoot v = none :=
    fun v hv => readOnlyVm_windows (mem_windows.mpr (le_trans (by decide) hv))
  have hlow : ∀ f ∈ readOnlyVm.free, 0x100000 ≤ f.toNat := by
    rw [readOnlyVm_free]
    intro f hf
    obtain ⟨k, -, he⟩ := mem_bootFrames hf
    omega
  have hfree : 385 ≤ readOnlyVm.free.length := by
    rw [readOnlyVm_free, bootFrames, List.length_map, List.length_range]
    omega
  obtain ⟨s', hs', hw⟩ := hall readOnlyVm readOnlyVm_high hun hlow hfree
  have hw := hw 0 0 0 0 (by decide) (by decide) (by decide)
  obtain ⟨t, h, m⟩ := virtualMemoryInit_made readOnlyVm_high hs'
  have hk : 0 < pciEcamPages := by decide
  obtain ⟨es, hlen, hes⟩ := h.ecam_walk hun hk (r := 0) (by decide)
  have hv : pciConfig 0 0 0 + 0 ∈ windows := by
    rw [mem_windows]
    decide
  have hway := (h.writable_iff m hv (ecam_isFrame hk) hlen hes).mp hw
  rw [readOnlyVm_root] at hway
  exact absurd (hway [] 511 [index (pciConfig 0 0 0 + 0) 30, index (pciConfig 0 0 0 + 0) 21,
    index (pciConfig 0 0 0 + 0) 12] 0x1000 (by decide) rfl rfl) (by decide)

end DejOs
