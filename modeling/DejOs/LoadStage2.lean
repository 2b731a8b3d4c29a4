import DejOs.DiskRead
import DejOs.FatChains
import DejOs.Lib.ByteMemory

/-!
# Loading stage 2

The lines of `boot.asm` from `.found_stage2` to the jump to stage 2. A cluster is a sector, and the
loop follows the chain that `readFile` of the tools follows.

The clusters are put at `es:bx`. `bx` is advanced by a sector in every round and `es` never, so
after 128 clusters the loop begins again at the bottom of the segment (`loadStage2_iff`).
-/

namespace DejOs.Stage1

open RealMode Loop ByteMemory

/-! ## The code -/

/-- `buffer`, behind the boot sector. -/
def buffer : Word := 0x7E00

/-- `STAGE2_LOAD_SEGMENT` -/
def stage2LoadSegment : Word := 0x2000

/-- `STAGE2_LOAD_OFFSET` -/
def stage2LoadOffset : Word := 0

section Code

-- the address of `stage2_cluster` is the assembler's
variable (int13 : Cpu → Cpu) (stage2Cluster : Word)

/-- From `.found_stage2` to the loop. -/
def foundStage2 (s : Cpu) : Except Stop Cpu := do
  let s ← block
    [.mov (.reg .ax) (.place (.mem .ds (some .di) 26)),
      .mov (.mem .ds none stage2Cluster) (.place (.reg .ax)),
      .mov (.reg .ax) (.place (.mem .ds none bdbReservedSectors)),
      .mov (.reg .bx) (.imm buffer),
      .mov8 .cl (.mem .ds bdbSectorsPerFat),
      .mov8 .dl (.mem .ds ebrDriveNumber)] s
  let s ← diskRead int13 s
  block
    [.mov (.reg .bx) (.imm stage2LoadSegment),
      .mov (.seg .es) (.place (.reg .bx)),
      .mov (.reg .bx) (.imm stage2LoadOffset)] s

/-- `jz .even`, and the lines at `.odd` and `.even`. -/
def oddEven (s : Cpu) : Except Stop Cpu :=
  if s.zf then block [.alu .and .ax (.imm 0x0FFF)] s else block [.shr .ax 4] s

/-- `.next_cluster_after`: the next round, or the state at the jump to stage 2. -/
def nextClusterAfter (s : Cpu) : Except Stop (Cpu ⊕ Cpu) := do
  let s ← block [.alu .cmp .ax (.imm 0x0FF8)] s
  -- `jae .read_finish`
  if s.cf = false then
    return .inr (← block
      [.mov8 .dl (.mem .ds ebrDriveNumber),
        .mov (.reg .ax) (.imm stage2LoadSegment),
        .mov (.seg .ds) (.place (.reg .ax)),
        .mov (.seg .es) (.place (.reg .ax))] s)
  return .inl (← block [.mov (.mem .ds none stage2Cluster) (.place (.reg .ax))] s)

/-- `.load_stage2_loop` -/
def loadStage2 (s : Cpu) : Except Stop (Cpu ⊕ Cpu) := do
  let s ← block
    [.mov (.reg .ax) (.place (.mem .ds none stage2Cluster)),
      .alu .add .ax (.imm 31),
      .mov8 .cl (.imm 1),
      .mov8 .dl (.mem .ds ebrDriveNumber)] s
  let s ← diskRead int13 s
  let s ← block
    [.alu .add .bx (.place (.mem .ds none bdbBytesPerSector)),
      .mov (.reg .ax) (.place (.mem .ds none stage2Cluster)),
      .mov (.reg .cx) (.imm 3),
      .mul (.place (.reg .cx)),
      .mov (.reg .cx) (.imm 2),
      .div (.place (.reg .cx)),
      .mov (.reg .si) (.imm buffer),
      .alu .add .si (.place (.reg .ax)),
      .mov (.reg .ax) (.place (.mem .ds (some .si) 0)),
      .alu .or .dx (.place (.reg .dx))] s
  let s ← oddEven s
  nextClusterAfter stage2Cluster s

end Code

/-! ## The memory -/

/-- The boot sector of the loader's floppy. -/
def bootSector : Fat.BootSector := ⟨512, 1, 1, 2, 224, 9⟩

/-- The bytes of the FAT. -/
def fatBytes : ℕ := 9 * 512

/-- A variable of the boot sector, behind the parameters and before the signature. -/
def InBootSector (p : Word) : Prop := 0x7C25 ≤ p.toNat ∧ p.toNat + 2 ≤ 0x7DFE

theorem linear_load (bx : Word) : linear stage2LoadSegment bx = 0x20000 + bx.toNat := rfl

/-- The head of a round that is to read cluster `c`. -/
structure Head (stage2Cluster : Word) (drive : Byte) (image : List Byte) (s : Cpu) (c : Word) :
    Prop where
  ds : s.ds = 0
  es : s.es = stage2LoadSegment
  bx : s.bx.toNat % 512 = 0
  boot : BootMemory drive s.mem
  cluster : loadWord s.mem 0 stage2Cluster = c
  fat : ∀ i < fatBytes, s.mem (0x7E00 + i) = Fat.imageFat bootSector image i

section Memory

variable {m m' : Memory} {drive : Byte} {p : Word}

/-- The variable is apart from everything else that is looked at. -/
theorem storeWord_cluster (hp : InBootSector p) {w : Word} {a : ℕ} (ha : a < 0x7C25 ∨ 0x7E00 ≤ a) :
    storeWord m 0 p w a = m a := by
  obtain ⟨hlo, hhi⟩ := hp
  apply storeWord_of_ne (by omega)
  · rw [linear_zero]
    omega
  · rw [linear_zero]
    omega

theorem loadWord_cluster (hp : InBootSector p) (hm : ∀ a, 0x7C00 ≤ a → a < 0x7E00 → m' a = m a) :
    loadWord m' 0 p = loadWord m 0 p := by
  obtain ⟨hlo, hhi⟩ := hp
  apply loadWord_congr (by omega) <;>
  · rw [linear_zero]
    exact hm _ (by omega) (by omega)

end Memory

/-! ## Before the loop -/

/-- The state at `.found_stage2`: `di` is at the directory entry of a file that begins with cluster
`c`. -/
structure Found (drive : Byte) (c : Word) (s : Cpu) : Prop where
  ds : s.ds = 0
  es : s.es = 0
  boot : BootMemory drive s.mem
  first : loadWord s.mem 0 (s.di + 26) = c

section Before

variable {int13 : Cpu → Cpu} {stage2Cluster c : Word} {drive : Byte} {image : List Byte} {s : Cpu}

/-- The first FAT is read, and the loop is entered at the bottom of the segment. -/
theorem foundStage2_head (hd : Delivers int13 drive image) (hp : InBootSector stage2Cluster)
    (hs : Found drive c s) :
    ∃ t, foundStage2 int13 stage2Cluster s = .ok t ∧ Head stage2Cluster drive image t c ∧
      t.bx = 0 ∧ ∀ a, 0x20000 ≤ a → a < 0x80000 → t.mem a = s.mem a := by
  generalize hm : storeWord s.mem 0 stage2Cluster c = m
  have hboot : BootMemory drive m := by
    refine hs.boot.congr fun a _ ha => ?_
    rw [← hm]
    exact storeWord_cluster hp (.inl ha)
  have hcl : m (linear 0 bdbSectorsPerFat) = 9#8 := by
    have hword := congrArg lo hboot.sectorsPerFat
    unfold loadWord at hword
    rw [lo_append] at hword
    exact hword
  have hblock : block
      [.mov (.reg .ax) (.place (.mem .ds (some .di) 26)),
        .mov (.mem .ds none stage2Cluster) (.place (.reg .ax)),
        .mov (.reg .ax) (.place (.mem .ds none bdbReservedSectors)),
        .mov (.reg .bx) (.imm buffer),
        .mov8 .cl (.mem .ds bdbSectorsPerFat),
        .mov8 .dl (.mem .ds ebrDriveNumber)] s = .ok { s with
      ax := 1, bx := buffer, cx := hi s.cx ++ 9#8, dx := hi s.dx ++ drive, mem := m } := by
    apply block_of_run
    have hds := hs.ds
    have hfirst := hs.first
    have hres := hboot.reservedSectors
    have hdrive := hboot.drive
    simp only [BitVec.ofNat_eq_ofNat] at hds hfirst hres hdrive hcl hm ⊢
    simp [hds, hfirst, hm, hres, hcl, hdrive]
  obtain ⟨t, hread, hdel, -⟩ := diskRead_delivers (n := 9) (s := { s with
      ax := 1, bx := buffer, cx := hi s.cx ++ 9#8, dx := hi s.dx ++ drive, mem := m })
    hd hboot hs.ds (show (1 : Word).toNat = 1 from rfl) (congrArg BitVec.toNat (lo_append _ _))
    (by decide) (lo_append _ _) (by decide) (by decide) (show 0x7E00 + 512 * 9 ≤ 2 ^ 16 by decide)
  have hlin : linear s.es buffer = 0x7E00 := by
    rw [hs.es]
    rfl
  obtain ⟨-, hds, -, -, hdata, hrest⟩ := hdel
  simp only [hlin] at hds hdata hrest
  -- what lies before the buffer or behind the FAT in it is not touched
  have hkeep : ∀ a, 0x7C00 ≤ a → a < 0x80000 → ¬ (0x7E00 ≤ a ∧ a < 0x7E00 + 512 * 9) →
      t.mem a = m a := hrest
  refine ⟨{ t with bx := 0, es := stage2LoadSegment }, ?_, ?_, rfl, fun a hlo hhi => ?_⟩
  · unfold foundStage2
    rw [hblock]
    simp only [bind, Except.bind, hread]
    exact block_of_run (by simp [stage2LoadOffset])
  · refine ⟨hds.trans hs.ds, rfl, rfl, hboot.congr fun a hlo hhi => hkeep a hlo (by omega)
      (by omega), ?_, fun i hi => ?_⟩
    · show loadWord t.mem 0 stage2Cluster = c
      rw [loadWord_cluster hp fun a hlo hhi => hkeep a hlo (by omega) (by omega), ← hm]
      exact loadWord_storeWord (by have := hp.2; omega)
    · unfold fatBytes at hi
      exact hdata i (by omega)
  · show t.mem a = s.mem a
    rw [hkeep a (by omega) hhi (by omega), ← hm]
    exact storeWord_cluster hp (.inr (by omega))

end Before

/-! ## A round -/

section Round

variable {int13 : Cpu → Cpu} {stage2Cluster c : Word} {drive : Byte} {image : List Byte} {s t : Cpu}

/-- A round has put cluster `c` at `es:bx`, and advanced `bx`. -/
structure Loaded (image : List Byte) (c : Word) (s s' : Cpu) : Prop where
  bx : s'.bx = s.bx + 512
  data : ∀ i < 512, s'.mem (0x20000 + s.bx.toNat + i) = image[512 * (c.toNat + 31) + i]?.getD 0
  rest : ∀ a, 0x20000 ≤ a → a < 0x80000 →
    ¬ (0x20000 + s.bx.toNat ≤ a ∧ a < 0x20000 + s.bx.toNat + 512) → s'.mem a = s.mem a

theorem block_sector (h : Head stage2Cluster drive image s c) : ∃ zf cf, block
    [.mov (.reg .ax) (.place (.mem .ds none stage2Cluster)),
      .alu .add .ax (.imm 31),
      .mov8 .cl (.imm 1),
      .mov8 .dl (.mem .ds ebrDriveNumber)] s = .ok ({ s with
    ax := c + 31#16, cx := hi s.cx ++ 1#8, dx := hi s.dx ++ drive }.flags zf cf) := by
  refine ⟨decide (c + 31#16 = 0#16), decide (2 ^ 16 ≤ c.toNat + 31), block_of_run ?_⟩
  have hds := h.ds
  have hcluster := h.cluster
  have hdrive := h.boot.drive
  simp only [BitVec.ofNat_eq_ofNat] at hds hcluster hdrive
  simp [hds, hcluster, hdrive]
  congr

theorem block_entry (hds : t.ds = 0#16) (hbytes : loadWord t.mem 0#16 bdbBytesPerSector = 512#16)
    (hcluster : loadWord t.mem 0#16 stage2Cluster = c) (hc : c.toNat * 3 < 2 ^ 16) : block
    [.alu .add .bx (.place (.mem .ds none bdbBytesPerSector)),
      .mov (.reg .ax) (.place (.mem .ds none stage2Cluster)),
      .mov (.reg .cx) (.imm 3),
      .mul (.place (.reg .cx)),
      .mov (.reg .cx) (.imm 2),
      .div (.place (.reg .cx)),
      .mov (.reg .si) (.imm buffer),
      .alu .add .si (.place (.reg .ax)),
      .mov (.reg .ax) (.place (.mem .ds (some .si) 0)),
      .alu .or .dx (.place (.reg .dx))] t = .ok ({ t with
    bx := t.bx + 512#16, ax := loadWord t.mem 0#16 (buffer + c * 3#16 / 2#16), cx := 2#16,
    dx := c * 3#16 % 2#16, si := buffer + c * 3#16 / 2#16 }.flags (c * 3#16 % 2#16 = 0#16)
      false) := by
  have hmul : c.toNat * 3 < 65536 := hc
  apply block_of_run
  simp [hds, hbytes, hcluster, hmul]

/-- The entry is taken out of its word as `readFile` does it. -/
theorem oddEven_eq {fat : Fat.Memory} (hax : s.ax = Fat.load16 fat (c.toNat * 3 / 2))
    (hzf : s.zf = decide (c.toNat % 2 = 0)) :
    ∃ v, oddEven s = .ok v ∧ v.ax = Fat.nextCluster fat c ∧ v.bx = s.bx ∧ v.ds = s.ds ∧
      v.es = s.es ∧ v.mem = s.mem := by
  unfold Fat.nextCluster oddEven
  by_cases hc : c.toNat % 2 = 0
  · simp only [hzf, hc, ← hax, decide_true, if_true]
    refine ⟨({ s with ax := s.ax &&& 0x0FFF } : Cpu).flags (s.ax &&& 0x0FFF = 0) false,
      block_of_run ?_, rfl, rfl, rfl, rfl, rfl⟩
    rw [run_alu, run_nil]
    rfl
  · simp only [hzf, hc, ← hax, decide_false, if_false, Bool.false_eq_true]
    refine ⟨({ s with ax := s.ax >>> 4 } : Cpu).flags (s.ax >>> 4 = 0) (s.ax.getLsbD 3),
      block_of_run ?_, rfl, rfl, rfl, rfl, rfl⟩
    rw [run_shr, run_nil]
    rfl

theorem nextClusterAfter_next (hds : s.ds = 0) (h : s.ax < 0xFF8) : ∃ t,
    nextClusterAfter stage2Cluster s = .ok (.inl t) ∧ t.bx = s.bx ∧ t.ds = s.ds ∧ t.es = s.es ∧
      t.mem = storeWord s.mem 0 stage2Cluster s.ax := by
  have hcmp : block [.alu .cmp .ax (.imm 0x0FF8)] s =
      .ok (s.flags (s.ax = 0xFF8) true) := by
    have hlt : decide (s.ax < 0xFF8) = true := decide_eq_true h
    show Except.ok (s.flags (s.ax = 0xFF8) (s.ax < 0xFF8)) = _
    rw [hlt]
  unfold nextClusterAfter
  rw [hcmp, ← hds]
  exact ⟨_, rfl, rfl, rfl, rfl, rfl⟩

theorem nextClusterAfter_finish (h : ¬ s.ax < 0xFF8) : ∃ t,
    nextClusterAfter stage2Cluster s = .ok (.inr t) ∧ t.bx = s.bx ∧ t.mem = s.mem := by
  have hcmp : block [.alu .cmp .ax (.imm 0x0FF8)] s =
      .ok (s.flags (s.ax = 0xFF8) false) := by
    have hlt : decide (s.ax < 0xFF8) = false := decide_eq_false h
    show Except.ok (s.flags (s.ax = 0xFF8) (s.ax < 0xFF8)) = _
    rw [hlt]
  unfold nextClusterAfter
  rw [hcmp]
  exact ⟨_, rfl, rfl, rfl⟩

theorem toNat_index (hc : c.toNat * 3 < 2 ^ 16) :
    (c * 3#16 / 2#16).toNat = c.toNat * 3 / 2 ∧ (c * 3#16 % 2#16).toNat = c.toNat * 3 % 2 := by
  have hmul : (c * 3#16).toNat = c.toNat * 3 := by
    rw [BitVec.toNat_mul]
    exact Nat.mod_eq_of_lt hc
  rw [BitVec.toNat_udiv, BitVec.toNat_umod, hmul]
  exact ⟨rfl, rfl⟩

theorem loadWord_fat (hfat : ∀ i < fatBytes, t.mem (0x7E00 + i) = Fat.imageFat bootSector image i)
    (hc : c.toNat + 32 ≤ totalSectors) :
    loadWord t.mem 0#16 (buffer + c * 3#16 / 2#16) =
      Fat.load16 (Fat.imageFat bootSector image) (c.toNat * 3 / 2) := by
  unfold totalSectors at hc
  obtain ⟨hindex, -⟩ := toNat_index (c := c) (by omega)
  have hoff : (buffer + c * 3#16 / 2#16).toNat = 0x7E00 + c.toNat * 3 / 2 := by
    rw [BitVec.toNat_add, hindex]
    show (0x7E00 + _) % 2 ^ 16 = _
    omega
  have hlin : linear 0#16 (buffer + c * 3#16 / 2#16) = 0x7E00 + c.toNat * 3 / 2 :=
    (linear_zero _).trans hoff
  unfold fatBytes at hfat
  rw [loadWord_eq (by omega), hlin, Nat.add_assoc, hfat _ (by omega), hfat _ (by omega)]
  rfl

theorem diskRead_cluster (hd : Delivers int13 drive image) (h : Head stage2Cluster drive image s c)
    (hc : c.toNat + 32 ≤ totalSectors) (zf cf : Bool) :
    ∃ t, diskRead int13 ({ s with
        ax := c + 31#16, cx := hi s.cx ++ 1#8, dx := hi s.dx ++ drive }.flags zf cf) = .ok t ∧
      Delivered image (c.toNat + 31) 1 s t ∧ t.bx = s.bx := by
  have hax : (c + 31#16).toNat = c.toNat + 31 := by
    unfold totalSectors at hc
    rw [BitVec.toNat_add]
    show (_ + 31) % 2 ^ 16 = _
    omega
  have hbx := h.bx
  have hlt := s.bx.isLt
  obtain ⟨t, hread, hdel, hbx'⟩ := diskRead_delivers (n := 1) (s := ({ s with
      ax := c + 31#16, cx := hi s.cx ++ 1#8, dx := hi s.dx ++ drive } : Cpu).flags zf cf)
    hd h.boot h.ds hax (congrArg BitVec.toNat (lo_append _ _)) (by decide) (lo_append _ _)
    (by omega) (by unfold totalSectors at hc ⊢; omega) (show s.bx.toNat + 512 * 1 ≤ 2 ^ 16 by omega)
  exact ⟨t, hread, ⟨hdel.cf, hdel.ds, hdel.es, hdel.stack, hdel.data, hdel.rest⟩, hbx'⟩

theorem loadStage2_entry (hd : Delivers int13 drive image) (hp : InBootSector stage2Cluster)
    (h : Head stage2Cluster drive image s c) (hc : c.toNat + 32 ≤ totalSectors) :
    ∃ v, loadStage2 int13 stage2Cluster s = nextClusterAfter stage2Cluster v ∧
      v.ax = Fat.entry12 (Fat.imageFat bootSector image) c.toNat ∧
      Head stage2Cluster drive image v c ∧ Loaded image c s v := by
  have hsmall : c.toNat * 3 < 2 ^ 16 := by unfold totalSectors at hc; omega
  obtain ⟨zf, cf, hsector⟩ := block_sector h
  obtain ⟨t, hread, hdel, hbx⟩ := diskRead_cluster hd h hc zf cf
  have hlin : linear s.es s.bx = 0x20000 + s.bx.toNat := by rw [h.es, linear_load]
  obtain ⟨-, hds, hes, -, hdata, hrest⟩ := hdel
  rw [hlin] at hdata hrest
  -- below the segment nothing is touched
  have hkeep : ∀ a, 0x7C00 ≤ a → a < 0x20000 → t.mem a = s.mem a := fun a hlo hhi =>
    hrest a hlo (by omega) (by omega)
  have hboot : BootMemory drive t.mem := h.boot.congr fun a hlo hhi => hkeep a hlo (by omega)
  have hcluster : loadWord t.mem 0 stage2Cluster = c :=
    (loadWord_cluster hp fun a hlo hhi => hkeep a hlo (by omega)).trans h.cluster
  have hfat : ∀ i < fatBytes, t.mem (0x7E00 + i) = Fat.imageFat bootSector image i := by
    intro i hi
    unfold fatBytes at hi
    exact (hkeep _ (by omega) (by omega)).trans (h.fat i hi)
  have hentry := block_entry (hds.trans h.ds) hboot.bytesPerSector hcluster hsmall
  rw [loadWord_fat hfat hc] at hentry
  have hzf : decide (c * 3#16 % 2#16 = 0#16) = decide (c.toNat % 2 = 0) := by
    refine decide_eq_decide.mpr ?_
    rw [BitVec.toNat_eq, (toNat_index hsmall).2]
    show c.toNat * 3 % 2 = 0 ↔ _
    omega
  obtain ⟨v, hnext, hax, hbx', hds', hes', hmem⟩ := oddEven_eq (s := ({ t with
      bx := t.bx + 512#16, ax := Fat.load16 (Fat.imageFat bootSector image) (c.toNat * 3 / 2),
      cx := 2#16, dx := c * 3#16 % 2#16, si := buffer + c * 3#16 / 2#16 } : Cpu).flags
    (c * 3#16 % 2#16 = 0#16) false) rfl hzf
  have hv : v.bx = s.bx + 512#16 := by
    rw [hbx', ← hbx]
    rfl
  have hm : v.mem = t.mem := hmem
  refine ⟨v, ?_, hax.trans (Fat.nextCluster_eq _ c), ⟨hds'.trans (hds.trans h.ds),
    hes'.trans (hes.trans h.es), ?_, hm ▸ hboot, hm ▸ hcluster, hm ▸ hfat⟩, ⟨hv, ?_, ?_⟩⟩
  · unfold loadStage2
    rw [hsector]
    simp only [bind, Except.bind, hread, hentry, hnext]
  · have hmod := h.bx
    rw [hv, BitVec.toNat_add]
    show (s.bx.toNat + 512) % 2 ^ 16 % 512 = 0
    omega
  · rw [hm]
    exact fun i hi => hdata i (by omega)
  · rw [hm]
    exact fun a hlo hhi hout => hrest a (by omega) hhi (by omega)

/-- **A round of the loop.** It loads its cluster, and goes on with the entry of the cluster or
leaves. -/
theorem loadStage2_round (hd : Delivers int13 drive image) (hp : InBootSector stage2Cluster)
    (h : Head stage2Cluster drive image s c) (hc : c.toNat + 32 ≤ totalSectors) :
    ∃ s', Loaded image c s s' ∧
      if Fat.entry12 (Fat.imageFat bootSector image) c.toNat < 0xFF8 then
        round (loadStage2 int13 stage2Cluster) s = .inl s' ∧ Head stage2Cluster drive image s'
          (Fat.entry12 (Fat.imageFat bootSector image) c.toNat)
      else round (loadStage2 int13 stage2Cluster) s = .inr (.ok s') := by
  obtain ⟨v, hentry, hax, hv, hload⟩ := loadStage2_entry hd hp h hc
  unfold round
  rw [hentry, ← hax]
  split_ifs with hlast
  · obtain ⟨s', hstore, hbx, hds, hes, hmem⟩ := nextClusterAfter_next hv.ds hlast
    have hsame : ∀ a, a < 0x7C25 ∨ 0x7E00 ≤ a → s'.mem a = v.mem a := fun a ha => by
      rw [hmem]
      exact storeWord_cluster hp ha
    rw [hstore]
    refine ⟨s', ⟨hbx.trans hload.bx, fun i hi => ?_, fun a hlo hhi hout => ?_⟩, rfl,
      hds.trans hv.ds, hes.trans hv.es, hbx ▸ hv.bx, ?_, ?_, fun i hi => ?_⟩
    · exact (hsame _ (.inr (by omega))).trans (hload.data i hi)
    · exact (hsame a (.inr (by omega))).trans (hload.rest a hlo hhi hout)
    · exact hv.boot.congr fun a _ ha => hsame a (.inl ha)
    · rw [hmem]
      exact loadWord_storeWord (by have := hp.2; omega)
    · exact (hsame _ (.inr (by omega))).trans (hv.fat i hi)
  · obtain ⟨s', hfinish, hbx, hmem⟩ := nextClusterAfter_finish hlast
    rw [hfinish]
    exact ⟨s', ⟨hbx.trans hload.bx, hmem ▸ hload.data, hmem ▸ hload.rest⟩, rfl⟩

end Round

/-! ## The loop -/

section Loop

variable {int13 : Cpu → Cpu} {stage2Cluster c : Word} {cs : List Word} {drive : Byte}
  {image : List Byte} {s : Cpu}

theorem round_next {c' : Word} (hd : Delivers int13 drive image) (hp : InBootSector stage2Cluster)
    (h : Head stage2Cluster drive image s c)
    (hfit : ∀ x ∈ c :: c' :: cs, x.toNat + 32 ≤ totalSectors)
    (hlink : Fat.entry12 (Fat.imageFat bootSector image) c.toNat = c') :
    ∃ s', Loaded image c s s' ∧ round (loadStage2 int13 stage2Cluster) s = .inl s' ∧
      Head stage2Cluster drive image s' c' := by
  obtain ⟨s', hload, hround⟩ := loadStage2_round hd hp h (hfit c List.mem_cons_self)
  have hlt : c' < 0xFF8 := by
    have hc' := hfit c' (List.mem_cons_of_mem _ List.mem_cons_self)
    unfold totalSectors at hc'
    rw [BitVec.lt_def]
    show c'.toNat < 0xFF8
    omega
  rw [hlink, if_pos hlt] at hround
  exact ⟨s', hload, hround⟩

theorem round_last (hd : Delivers int13 drive image) (hp : InBootSector stage2Cluster)
    (h : Head stage2Cluster drive image s c) (hc : c.toNat + 32 ≤ totalSectors)
    (hlink : 0xFF8 ≤ Fat.entry12 (Fat.imageFat bootSector image) c.toNat) :
    ∃ s', Loaded image c s s' ∧ round (loadStage2 int13 stage2Cluster) s = .inr (.ok s') := by
  obtain ⟨s', hload, hround⟩ := loadStage2_round hd hp h hc
  rw [if_neg (BitVec.not_lt.mpr hlink)] at hround
  exact ⟨s', hload, hround⟩

theorem loop_heads (hd : Delivers int13 drive image) (hp : InBootSector stage2Cluster)
    (h : Head stage2Cluster drive image s c) (hfit : ∀ x ∈ c :: cs, x.toNat + 32 ≤ totalSectors)
    (hlink : Fat.Linked (Fat.imageFat bootSector image) c cs) (n : ℕ) :
    (orbit (again (round (loadStage2 int13 stage2Cluster))) n s).map
      (fun s => loadWord s.mem s.ds stage2Cluster) = (c :: cs)[n]? := by
  induction n generalizing c cs s with
  | zero =>
    refine congrArg some ?_
    show loadWord s.mem s.ds stage2Cluster = c
    rw [h.ds, h.cluster]
  | succ n ih =>
    cases cs with
    | nil =>
      obtain ⟨s', -, hround⟩ := round_last hd hp h (hfit c List.mem_cons_self) hlink
      rw [orbit_succ, again_eq_none hround]
      rfl
    | cons c' cs =>
      obtain ⟨s', -, hround, hhead⟩ := round_next hd hp h hfit hlink.1
      rw [orbit_of_some n (again_eq_some.mpr hround)]
      exact ih hhead (fun x hx => hfit x (List.mem_cons_of_mem _ hx)) hlink.2

/-- **The loop returns.** Nothing is stored from the end of the segment on, and while the clusters
fit the segment, each is left where it is put. -/
theorem loop_returns (hd : Delivers int13 drive image) (hp : InBootSector stage2Cluster)
    (h : Head stage2Cluster drive image s c) (hfit : ∀ x ∈ c :: cs, x.toNat + 32 ≤ totalSectors)
    (hlink : Fat.Linked (Fat.imageFat bootSector image) c cs) :
    ∃ r, Returns (round (loadStage2 int13 stage2Cluster)) s (.ok r) ∧
      (∀ a, 0x30000 ≤ a → a < 0x80000 → r.mem a = s.mem a) ∧
      (s.bx.toNat + 512 * (c :: cs).length ≤ 2 ^ 16 →
        (∀ a, 0x20000 ≤ a → a < 0x20000 + s.bx.toNat → r.mem a = s.mem a) ∧
        ∀ i (hi : i < (c :: cs).length), ∀ j < 512,
          r.mem (0x20000 + s.bx.toNat + 512 * i + j) =
            image[512 * ((c :: cs)[i].toNat + 31) + j]?.getD 0) := by
  have hlt := s.bx.isLt
  have hbx := h.bx
  induction cs generalizing c s with
  | nil =>
    obtain ⟨r, hload, hround⟩ := round_last hd hp h (hfit c List.mem_cons_self) hlink
    refine ⟨r, Returns.here hround, fun a hlo hhi => hload.rest a (by omega) hhi (by omega),
      fun _ => ⟨fun a hlo hhi => hload.rest a hlo (by omega) (by omega), fun i hi j hj => ?_⟩⟩
    obtain rfl : i = 0 := Nat.lt_one_iff.mp hi
    exact hload.data j hj
  | cons c' cs ih =>
    obtain ⟨s', hload, hround, hhead⟩ := round_next hd hp h hfit hlink.1
    obtain ⟨r, hret, habove, hplaces⟩ := ih hhead (fun x hx => hfit x (List.mem_cons_of_mem _ hx))
      hlink.2 s'.bx.isLt hhead.bx
    refine ⟨r, Returns.next hround hret, fun a hlo hhi => ?_, fun hroom => ?_⟩
    · rw [habove a hlo hhi]
      exact hload.rest a (by omega) hhi (by omega)
    · simp only [List.length_cons] at hroom hplaces
      have hnext : s'.bx.toNat = s.bx.toNat + 512 := by
        rw [hload.bx, BitVec.toNat_add]
        show (_ + 512) % 2 ^ 16 = _
        omega
      have hroom' : s'.bx.toNat + 512 * (cs.length + 1) ≤ 2 ^ 16 := by
        rw [hnext]
        linarith only [hroom]
      specialize hplaces hroom'
      obtain ⟨hbelow, hrest⟩ := hplaces
      refine ⟨fun a hlo hhi => ?_, fun i hi j hj => ?_⟩
      · rw [hbelow a hlo (by omega)]
        exact hload.rest a hlo (by omega) (by omega)
      · cases i with
        | zero =>
          have hin : 0x20000 + s.bx.toNat + j < 0x20000 + s'.bx.toNat := by
            rw [hnext]
            linarith only [hj]
          rw [Nat.mul_zero, Nat.add_zero, hbelow _ (by linarith) hin]
          exact hload.data j hj
        | succ i =>
          have hplace := hrest i (Nat.lt_of_succ_lt_succ hi) j hj
          rw [hnext] at hplace
          rw [show 0x20000 + s.bx.toNat + 512 * (i + 1) + j =
            0x20000 + (s.bx.toNat + 512) + 512 * i + j by omega]
          exact hplace

end Loop

/-! ## The file -/

/-- Stage 2 is entered with the clusters of the chain one behind the other from `0x20000` on, and
the loop has read the clusters that `readFile` of the tool `t` reads, in the same rounds. -/
def Loads (int13 : Cpu → Cpu) (stage2Cluster : Word) (t : Fat.Tool) (entry : Fat.DirectoryEntry)
    (out : Fat.Memory) (chain : List Word) (s : Cpu) : Prop :=
  ∃ s₁ r, foundStage2 int13 stage2Cluster s = .ok s₁ ∧
    Returns (round (loadStage2 int13 stage2Cluster)) s₁ (.ok r) ∧
    (∀ n, (orbit (again (round (loadStage2 int13 stage2Cluster))) n s₁).map
        (fun s => loadWord s.mem s.ds stage2Cluster) =
      (orbit (again (Fat.readRound t)) n (Fat.readStart entry out)).map
        Fat.Reading.currentCluster) ∧
    ∀ i (hi : i < chain.length), (List.range 512).map (fun j => r.mem (0x20000 + 512 * i + j)) =
      Fat.clusterBytes bootSector t.image chain[i].toNat

section File

variable {image : List Byte} {c : Word} {cs : List Word}

theorem rootEnd_bootSector : Fat.rootEnd bootSector = 33 := rfl

/-- A cluster of the floppy is a sector of it. -/
theorem fit_of_inside (hlen : image.length = totalSectors * 512) (hc : Fat.IsDataCluster c.toNat)
    (h : Fat.Inside bootSector image c.toNat) : c.toNat + 32 ≤ totalSectors := by
  have hsector : (33 + (c.toNat - 2) * 1) * 512 + 512 ≤ image.length := h
  have hlo := hc.1
  rw [hlen] at hsector
  omega

theorem clusterBytes_eq (hlen : image.length = totalSectors * 512) (hc : Fat.IsDataCluster c.toNat)
    (h : Fat.Inside bootSector image c.toNat) : Fat.clusterBytes bootSector image c.toNat =
      (List.range 512).map fun j => image[512 * (c.toNat + 31) + j]?.getD 0 := by
  have hfit := fit_of_inside hlen hc h
  have hlo := hc.1
  have hbytes : Fat.clusterBytes bootSector image c.toNat =
      (image.drop ((33 + (c.toNat - 2) * 1) * 512)).take 512 := rfl
  rw [hbytes, show (33 + (c.toNat - 2) * 1) * 512 = 512 * (c.toNat + 31) by omega]
  apply List.ext_getElem
  · rw [List.length_take, List.length_drop, List.length_map, List.length_range, hlen]
    omega
  · intro j hj hj'
    rw [List.length_map, List.length_range] at hj'
    rw [List.getElem_take, List.getElem_drop, List.getElem_map, List.getElem_range,
      List.getElem?_eq_getElem (by omega)]
    rfl

theorem readFile_heads {t₀ t₁ t : Fat.Tool} {entry : Fat.DirectoryEntry}
    (hboot : t₀.bootSector = bootSector) (hlen : t₀.image.length = totalSectors * 512)
    (hfat : Fat.readFat t₀ = (true, t₁)) (hroot : Fat.readRootDirectory t₁ = some (true, t))
    (hchain : Fat.ValidChain bootSector t₀.image (Fat.imageFat bootSector t₀.image)
      entry.firstClusterLow cs) (out : Fat.Memory) :
    t.image = t₀.image ∧ ∀ n, (orbit (again (Fat.readRound t)) n (Fat.readStart entry out)).map
      Fat.Reading.currentCluster = (entry.firstClusterLow :: cs)[n]? := by
  obtain ⟨fat, hread, hsame⟩ := Fat.readFat_inside (t := t₀) (by rw [hboot]; decide)
    (by rw [hboot, hlen]; decide)
  obtain ⟨hloc, himage, hboot', hfat'⟩ := Fat.readRootDirectory_end hroot
  obtain rfl : { t₀ with fat := fat } = t₁ := congrArg Prod.snd (hread.symm.trans hfat)
  rw [hboot] at hsame hboot'
  refine ⟨himage, fun n => ?_⟩
  have hlink : Fat.Linked t.fat entry.firstClusterLow cs := by
    rw [hfat']
    refine hchain.linked.congr (n := fatBytes) (fun x hx => ?_) fun i hi => (hsame i hi).symm
    have hx' := fit_of_inside hlen (hchain.data x hx) (hchain.inside x hx)
    unfold totalSectors at hx'
    unfold fatBytes
    omega
  have hreadable : ∀ x ∈ entry.firstClusterLow :: cs, Fat.Readable t x := fun x hx => by
    have hinside := hchain.inside x hx
    rw [← himage, ← hboot'] at hinside
    exact hinside.readable hloc (hchain.data x hx)
  rw [Fat.heads_map]
  exact Fat.follow_linked (fun x hx => hchain.data x (List.mem_cons_of_mem _ hx)) hreadable hlink n

variable {int13 : Cpu → Cpu} {stage2Cluster : Word} {drive : Byte} {s : Cpu}

theorem loader_returns (hp : InBootSector stage2Cluster) (hlen : image.length = totalSectors * 512)
    (hd : Delivers int13 drive image)
    (hchain : Fat.ValidChain bootSector image (Fat.imageFat bootSector image) c cs)
    (hs : Found drive c s) :
    ∃ s₁ r, foundStage2 int13 stage2Cluster s = .ok s₁ ∧
      Returns (round (loadStage2 int13 stage2Cluster)) s₁ (.ok r) ∧
      (∀ n, (orbit (again (round (loadStage2 int13 stage2Cluster))) n s₁).map
        (fun s => loadWord s.mem s.ds stage2Cluster) = (c :: cs)[n]?) ∧
      (∀ a, 0x30000 ≤ a → a < 0x80000 → r.mem a = s.mem a) ∧
      ((c :: cs).length ≤ 128 → ∀ i (hi : i < (c :: cs).length),
        (List.range 512).map (fun j => r.mem (0x20000 + 512 * i + j)) =
          Fat.clusterBytes bootSector image (c :: cs)[i].toNat) := by
  have hfit : ∀ x ∈ c :: cs, x.toNat + 32 ≤ totalSectors := fun x hx =>
    fit_of_inside hlen (hchain.data x hx) (hchain.inside x hx)
  obtain ⟨s₁, hfound, hhead, hbx, hkeep⟩ := foundStage2_head hd hp hs
  obtain ⟨r, hret, habove, hplaces⟩ := loop_returns hd hp hhead hfit hchain.linked
  have hzero : s₁.bx.toNat = 0 := congrArg BitVec.toNat hbx
  simp only [hzero, Nat.add_zero, Nat.zero_add] at hplaces
  refine ⟨s₁, r, hfound, hret, loop_heads hd hp hhead hfit hchain.linked, fun a hlo hhi => ?_,
    fun hroom i hi => ?_⟩
  · rw [habove a hlo hhi, hkeep a (by omega) hhi]
  · have hmem := List.getElem_mem hi
    rw [clusterBytes_eq hlen (hchain.data _ hmem) (hchain.inside _ hmem)]
    refine List.map_congr_left fun j hj => ?_
    exact (hplaces (by omega)).2 i hi j (List.mem_range.mp hj)

/-- More than 128 clusters: what was behind the segment is still there. -/
theorem not_loads {t : Fat.Tool} {entry : Fat.DirectoryEntry} {out : Fat.Memory}
    (hp : InBootSector stage2Cluster) (hlen : t.image.length = totalSectors * 512)
    (hd : Delivers int13 drive t.image)
    (hchain : Fat.ValidChain bootSector t.image (Fat.imageFat bootSector t.image) c cs)
    (hs : Found drive c s) (hlong : 128 < (c :: cs).length)
    (hne : s.mem 0x30000 ≠ t.image[512 * ((c :: cs)[128].toNat + 31)]?.getD 0) :
    ¬ Loads int13 stage2Cluster t entry out (c :: cs) s := by
  rintro ⟨s₁, r, hfound, hret, -, hplaces⟩
  obtain ⟨s₁', r', hfound', hret', -, habove, -⟩ := loader_returns hp hlen hd hchain hs
  obtain rfl : s₁ = s₁' := Except.ok.inj (hfound.symm.trans hfound')
  obtain rfl : r = r' := Except.ok.inj (hret.unique hret')
  have hmem := List.getElem_mem hlong
  have hplace := hplaces 128 hlong
  rw [clusterBytes_eq hlen (hchain.data _ hmem) (hchain.inside _ hmem)] at hplace
  have hbyte := List.map_inj_left.mp hplace 0 (List.mem_range.mpr (by decide))
  exact hne ((habove 0x30000 (by decide) (by decide)).symm.trans hbyte)

theorem Found.congr {m : Memory} (h : Found drive c s) (hm : ∀ a < 0x20000, m a = s.mem a) :
    Found drive c { s with mem := m } where
  ds := h.ds
  es := h.es
  boot := h.boot.congr fun a _ ha => hm a (by omega)
  first := by
    rw [← h.first]
    unfold loadWord
    congr 1 <;>
    · refine hm _ ?_
      rw [linear_zero]
      exact (BitVec.isLt _).trans (by decide)

end File

/-! ## A floppy -/

/-- A FAT with these entries. -/
def packedFat (e : ℕ → BitVec 12) : Fat.Memory := fun i =>
  (BitVec.ofBoolListLE ((List.range 8).map fun j =>
    (e ((8 * i + j) / 12)).getLsbD ((8 * i + j) % 12))).setWidth 8

theorem entry12_packedFat (e : ℕ → BitVec 12) (c : ℕ) :
    Fat.entry12 (packedFat e) c = (e c).setWidth 16 := by
  apply BitVec.eq_of_getLsbD_eq
  intro i hi
  rw [Fat.getLsbD_entry12, BitVec.getLsbD_setWidth, decide_eq_true hi, Bool.true_and]
  by_cases hi' : i < 12
  · unfold Fat.fatBit packedFat
    have hbit : (12 * c + i) % 8 < 8 := Nat.mod_lt _ (by decide)
    have hpos : 8 * ((12 * c + i) / 8) + (12 * c + i) % 8 = 12 * c + i := Nat.div_add_mod _ _
    have hentry : (12 * c + i) / 12 = c ∧ (12 * c + i) % 12 = i := by omega
    rw [BitVec.getLsbD_setWidth, BitVec.getLsbD_ofBoolListLE]
    simp [hi', hbit, hpos, hentry]
  · rw [decide_eq_false hi', Bool.false_and, BitVec.getLsbD_of_ge _ _ (by omega)]

/-- The FAT of a floppy with a file in the clusters from 2 to `k + 2`. -/
def fileEntry (k c : ℕ) : BitVec 12 :=
  if c = 0 then 0xFF0
  else if c = 1 ∨ c = k + 2 then 0xFFF
  else if c < k + 2 then BitVec.ofNat 12 (c + 1)
  else 0

/-- The clusters of the file behind cluster 2. -/
def fileChain (k : ℕ) : List Word := (List.range' 3 k).map (BitVec.ofNat 16)

/-- The boot sector, up to `ebr_drive_number`. -/
def bootBytes : List Byte :=
  [0xEB, 0x3B, 0x90, 0x4D, 0x53, 0x57, 0x49, 0x4E, 0x34, 0x2E, 0x31, 0x00, 0x02, 0x01, 0x01, 0x00,
    0x02, 0xE0, 0x00, 0x40, 0x0B, 0xF0, 0x09, 0x00, 0x12, 0x00, 0x02, 0x00, 0x00, 0x00, 0x00, 0x00,
    0x00, 0x00, 0x00, 0x00, 0x00]

/-- The entry of `STAGE2  BIN` in the root directory, up to the size. -/
def entryBytes : List Byte :=
  [0x53, 0x54, 0x41, 0x47, 0x45, 0x32, 0x20, 0x20, 0x42, 0x49, 0x4E, 0x20, 0x00, 0x00, 0x00, 0x00,
    0x00, 0x00, 0x00, 0x00, 0x00, 0x00, 0x00, 0x00, 0x00, 0x00, 0x02, 0x00]

/-- The entry as the tool has it. -/
def fileDirectoryEntry (k : ℕ) : Fat.DirectoryEntry := ⟨2, BitVec.ofNat 32 (512 * (k + 1))⟩

/-- A byte of the floppy. The file is full of `0x90`. -/
def floppyByte (k a : ℕ) : Byte :=
  if a < 512 then bootBytes[a]?.getD 0
  else if a < 19 * 512 then packedFat (fileEntry k) ((a - 512) % fatBytes)
  else if a < 33 * 512 then
    (entryBytes ++ toBytes 4 (fileDirectoryEntry k).size.toNat)[a - 19 * 512]?.getD 0
  else if a < (34 + k) * 512 then 0x90
  else 0

def floppyImage (k : ℕ) : List Byte := (List.range (totalSectors * 512)).map (floppyByte k)

/-- The BIOS with that floppy. -/
def floppyBios (image : List Byte) (s : Cpu) : Cpu :=
  let p := Chs.decode s.cx (s.reg8 .dh)
  let lba := (p.cylinder * 2 + p.head) * 18 + p.sector - 1
  if s.reg8 .ah = 0x02 then
    { s with
      ax := 0x00#8 ++ s.reg8 .al
      cf := false
      mem := fun a =>
        if linear s.es s.bx ≤ a ∧ a < linear s.es s.bx + 512 * (s.reg8 .al).toNat then
          image[512 * lba + (a - linear s.es s.bx)]?.getD 0
        else s.mem a }
  else { s with ax := 0x00#8 ++ s.reg8 .al, cf := false }

theorem floppyBios_delivers (drive : Byte) (image : List Byte) :
    Delivers (floppyBios image) drive image := by
  intro s lba hah _ hlba _ _ _ _
  unfold floppyBios
  simp only [hah, hlba.lba, if_true]
  refine ⟨rfl, rfl, rfl, rfl, fun i hi => ?_, fun a _ _ hout => if_neg hout⟩
  have hin : linear s.es s.bx + i < linear s.es s.bx + 512 * (s.reg8 .al).toNat := by omega
  refine (if_pos ⟨Nat.le_add_right _ _, hin⟩).trans ?_
  rw [Nat.add_sub_cancel_left]

/-- The memory at `.found_stage2`, with the root directory in the buffer. -/
def foundMemory (k : ℕ) : Memory := fun a =>
  if a < 0x7C00 then 0
  else if a < 0x7E00 then floppyByte k (a - 0x7C00)
  else if a < 0x7E00 + 14 * 512 then floppyByte k (19 * 512 + (a - 0x7E00))
  else 0

def foundCpu (k : ℕ) : Cpu where
  ax := 0
  bx := 0
  cx := 0
  dx := 0
  si := 0
  di := buffer
  bp := 0
  ds := 0
  es := 0
  fs := 0
  zf := true
  cf := false
  stack := []
  mem := foundMemory k

theorem foundCpu_found (k : ℕ) : Found 0 2 (foundCpu k) where
  ds := rfl
  es := rfl
  boot := by
    have hparams : BootMemory 0 fun a => bootBytes[a - 0x7C00]?.getD 0 := by
      constructor <;> decide
    refine hparams.congr fun a hlo hhi => ?_
    show foundMemory k a = _
    unfold foundMemory floppyByte
    rw [if_neg (by omega), if_pos (by omega), if_pos (by omega)]
  first := by
    have hentry : ∀ i < entryBytes.length, foundMemory k (0x7E00 + i) = entryBytes[i]?.getD 0 := by
      intro i hi
      have hlen : i < 28 := hi
      unfold foundMemory floppyByte
      rw [if_neg (by omega), if_neg (by omega), if_pos (by omega), if_neg (by omega),
        if_neg (by omega), if_pos (by omega), Nat.add_sub_cancel_left, Nat.add_sub_cancel_left,
        List.getElem?_append_left hi]
    have hoff : (buffer + 26 : Word).toNat + 1 < 2 ^ 16 := by decide
    show loadWord (foundMemory k) 0 (buffer + 26) = 2
    rw [loadWord_eq hoff, show linear 0 (buffer + 26) = 0x7E00 + 26 from rfl, Nat.add_assoc,
      hentry 27 (by decide), hentry 26 (by decide)]
    rfl

section Floppy

variable {k a : ℕ}

theorem length_floppyImage (k : ℕ) : (floppyImage k).length = totalSectors * 512 := by
  unfold floppyImage
  rw [List.length_map, List.length_range]

theorem getElem_floppyImage (k : ℕ) (ha : a < totalSectors * 512) :
    (floppyImage k)[a]?.getD 0 = floppyByte k a := by
  unfold floppyImage
  rw [List.getElem?_map, List.getElem?_range ha]
  rfl

theorem entry12_floppyImage {c : ℕ} (k : ℕ) (hc : c + 32 ≤ totalSectors) :
    Fat.entry12 (Fat.imageFat bootSector (floppyImage k)) c = (fileEntry k c).setWidth 16 := by
  unfold totalSectors at hc
  rw [← entry12_packedFat]
  refine Fat.entry12_congr (n := fatBytes) (by unfold fatBytes; omega) fun i hi => ?_
  have hi' : i < 9 * 512 := hi
  show (floppyImage k)[512 + i]?.getD 0 = _
  rw [getElem_floppyImage k (by unfold totalSectors; omega)]
  unfold floppyByte
  rw [if_neg (by omega), if_pos (by omega), Nat.add_sub_cancel_left, Nat.mod_eq_of_lt hi]

theorem linked_floppyImage (hk : k + 34 ≤ totalSectors) {c n : ℕ} (hc : 2 ≤ c)
    (hn : c + n = k + 2) : Fat.Linked (Fat.imageFat bootSector (floppyImage k)) (BitVec.ofNat 16 c)
      ((List.range' (c + 1) n).map (BitVec.ofNat 16)) := by
  have hentry := entry12_floppyImage (c := c) k (by omega)
  unfold totalSectors at hk
  have htoNat : (BitVec.ofNat 16 c).toNat = c := by
    rw [BitVec.toNat_ofNat]
    omega
  induction n generalizing c with
  | zero =>
    show 0xFF8 ≤ Fat.entry12 _ _
    rw [htoNat, hentry]
    unfold fileEntry
    rw [if_neg (by omega), if_pos (.inr hn)]
    decide
  | succ n ih =>
    refine ⟨?_, ih (by omega) (by omega) ?_ ?_⟩
    · rw [htoNat, hentry]
      unfold fileEntry
      rw [if_neg (by omega), if_neg (by omega), if_pos (by omega)]
      apply BitVec.eq_of_toNat_eq
      rw [BitVec.toNat_setWidth, BitVec.toNat_ofNat, BitVec.toNat_ofNat]
      omega
    · exact entry12_floppyImage k (by unfold totalSectors; omega)
    · rw [BitVec.toNat_ofNat]
      omega

theorem mem_fileChain {x : Word} (hk : k + 34 ≤ totalSectors) (h : x ∈ 2 :: fileChain k) :
    2 ≤ x.toNat ∧ x.toNat + 32 ≤ totalSectors := by
  unfold totalSectors at hk ⊢
  rcases List.mem_cons.mp h with rfl | h
  · decide
  · obtain ⟨c, hc, rfl⟩ := List.mem_map.mp h
    rw [List.mem_range'_1] at hc
    rw [BitVec.toNat_ofNat]
    omega

theorem length_fileChain (k : ℕ) : (2 :: fileChain k).length = k + 1 := by
  unfold fileChain
  rw [List.length_cons, List.length_map, List.length_range']

theorem getElem_fileChain {i : ℕ} (hi : i < (2 :: fileChain k).length) :
    (2 :: fileChain k)[i] = BitVec.ofNat 16 (i + 2) := by
  have hchain : 2 :: fileChain k = (List.range' 2 (k + 1)).map (BitVec.ofNat 16) := rfl
  simp only [hchain, List.getElem_map, List.getElem_range']
  congr 1
  omega

theorem validChain_floppyImage (hk : k + 34 ≤ totalSectors) :
    Fat.ValidChain bootSector (floppyImage k) (Fat.imageFat bootSector (floppyImage k)) 2
      (fileChain k) where
  data := by
    intro x hx
    have hmem := mem_fileChain hk hx
    unfold totalSectors at hmem
    unfold Fat.IsDataCluster
    omega
  nodup := by
    have hchain : 2 :: fileChain k = (List.range' 2 (k + 1)).map (BitVec.ofNat 16) := rfl
    rw [hchain]
    refine List.Nodup.map_on (fun x hx y hy hxy => ?_) (List.nodup_range' 1)
    unfold totalSectors at hk
    rw [List.mem_range'_1] at hx hy
    have htoNat := congrArg BitVec.toNat hxy
    rw [BitVec.toNat_ofNat, BitVec.toNat_ofNat] at htoNat
    omega
  inside := by
    intro x hx
    have hmem := mem_fileChain hk hx
    unfold totalSectors at hmem
    show (33 + (x.toNat - 2) * 1) * 512 + 512 ≤ _
    rw [length_floppyImage]
    unfold totalSectors
    omega
  linked := linked_floppyImage hk (le_refl 2) (Nat.add_comm 2 k)

/-- The tool before it reads the floppy. -/
def floppyTool (image : List Byte) : Fat.Tool where
  image := image
  bootSector := bootSector
  fat := fun _ => 0
  rootDirectory := fun _ => 0
  rootDirectoryEnd := 0

theorem floppyTool_ready {image : List Byte} (hlen : image.length = totalSectors * 512) :
    ∃ t₁ t, Fat.readFat (floppyTool image) = (true, t₁) ∧
      Fat.readRootDirectory t₁ = some (true, t) ∧ t.image = image := by
  have hbytes : bootSector.bytesPerSector ≠ 0 := by decide
  have hsize : bootSector.bytesPerSector.toNat = 512 := rfl
  have hfat : (1 + 9) * bootSector.bytesPerSector.toNat ≤ image.length := by
    rw [hsize, hlen]
    decide
  have hroot : Fat.rootEnd bootSector * bootSector.bytesPerSector.toNat ≤ image.length := by
    rw [rootEnd_bootSector, hsize, hlen]
    decide
  have hsmall : image.length < 2 ^ 32 := by
    rw [hlen]
    decide
  obtain ⟨fat, hread, -⟩ := Fat.readFat_inside (t := floppyTool image) hbytes hfat
  obtain ⟨t, ht⟩ := Fat.readRootDirectory_inside (t := { floppyTool image with fat := fat }) hbytes
    hroot hsmall
  exact ⟨_, t, hread, ht, (Fat.readRootDirectory_end ht).2.1⟩

end Floppy

/-! ## When stage 2 is loaded -/

/-- **When stage 2 is loaded.** Whatever is in the memory before that it is loaded to: exactly when
the file has 128 clusters at most, which fill the segment. -/
theorem loadStage2_iff (int13 : Cpu → Cpu) (stage2Cluster : Word) (drive : Byte)
    (t₀ t₁ t : Fat.Tool) (entry : Fat.DirectoryEntry) (out : Fat.Memory) (cs : List Word) (s : Cpu)
    (hp : InBootSector stage2Cluster) (hboot : t₀.bootSector = bootSector)
    (hlen : t₀.image.length = totalSectors * 512) (hd : Delivers int13 drive t₀.image)
    (hfat : Fat.readFat t₀ = (true, t₁)) (hroot : Fat.readRootDirectory t₁ = some (true, t))
    (hchain : Fat.ValidChain bootSector t₀.image (Fat.imageFat bootSector t₀.image)
      entry.firstClusterLow cs)
    (hs : Found drive entry.firstClusterLow s) :
    (∀ m : Memory, (∀ a < 0x20000, m a = s.mem a) →
      Loads int13 stage2Cluster t entry out (entry.firstClusterLow :: cs) { s with mem := m }) ↔
    (entry.firstClusterLow :: cs).length ≤ 128 := by
  obtain ⟨himage, htool⟩ := readFile_heads hboot hlen hfat hroot hchain out
  rw [← himage] at hlen hd hchain
  constructor
  · intro h
    by_contra hlong
    rw [Nat.not_le] at hlong
    -- a byte behind the segment that is not the first of cluster 128
    generalize hbyte : t.image[512 * ((entry.firstClusterLow :: cs)[128].toNat + 31)]?.getD 0 = b
    have hbelow : ∀ a < 0x20000, (fun a => if a = 0x30000 then b + 1 else s.mem a) a = s.mem a :=
      fun a ha => if_neg (by omega)
    refine not_loads hp hlen hd hchain (hs.congr hbelow) hlong ?_ (h _ hbelow)
    rw [hbyte]
    show b + 1 ≠ b
    simp
  · intro hroom m hm
    obtain ⟨s₁, r, hfound, hret, hheads, -, hplaces⟩ :=
      loader_returns hp hlen hd hchain (hs.congr hm)
    exact ⟨s₁, r, hfound, hret, fun n => (hheads n).trans (htool n).symm, hplaces hroom⟩

theorem loadStage2_64KiB : ∃ t₁ t, Fat.readFat (floppyTool (floppyImage 127)) = (true, t₁) ∧
    Fat.readRootDirectory t₁ = some (true, t) ∧
    Loads (floppyBios (floppyImage 127)) 0x7DD0 t (fileDirectoryEntry 127) (fun _ => 0)
      (2 :: fileChain 127) (foundCpu 127) := by
  have hlen := length_floppyImage 127
  have hchain := validChain_floppyImage (k := 127) (by decide)
  generalize floppyImage 127 = image at hlen hchain ⊢
  obtain ⟨t₁, t, hfat, hroot, -⟩ := floppyTool_ready hlen
  refine ⟨t₁, t, hfat, hroot, (loadStage2_iff (floppyBios image) 0x7DD0 0 (floppyTool image) t₁ t
    (fileDirectoryEntry 127) (fun _ => 0) (fileChain 127) (foundCpu 127)
    (by unfold InBootSector; decide) rfl hlen (floppyBios_delivers 0 image) hfat hroot hchain
    (foundCpu_found 127)).mpr ?_ (foundCpu 127).mem fun _ _ => rfl⟩
  exact (length_fileChain 127).le

/-- **A file of 129 clusters.** The last one is put over the first. -/
theorem loadStage2_129 : ∃ t₁ t, Fat.readFat (floppyTool (floppyImage 128)) = (true, t₁) ∧
    Fat.readRootDirectory t₁ = some (true, t) ∧ Delivers (floppyBios t.image) 0 t.image ∧
    Fat.ValidChain bootSector t.image (Fat.imageFat bootSector t.image) 2 (fileChain 128) ∧
    Found 0 2 (foundCpu 128) ∧
    ¬ Loads (floppyBios t.image) 0x7DD0 t (fileDirectoryEntry 128) (fun _ => 0)
      (2 :: fileChain 128) (foundCpu 128) := by
  have hbyte := getElem_floppyImage (a := 512 * (130 + 31)) 128 (by decide)
  have hlen := length_floppyImage 128
  have hchain := validChain_floppyImage (k := 128) (by decide)
  have hlong : 128 < (2 :: fileChain 128).length := (length_fileChain 128).ge
  generalize floppyImage 128 = image at hbyte hlen hchain ⊢
  obtain ⟨t₁, t, hfat, hroot, rfl⟩ := floppyTool_ready hlen
  refine ⟨t₁, t, hfat, hroot, floppyBios_delivers 0 _, hchain, foundCpu_found 128, ?_⟩
  refine not_loads (by unfold InBootSector; decide) hlen (floppyBios_delivers 0 _) hchain
    (foundCpu_found 128) hlong ?_
  rw [getElem_fileChain hlong]
  show (foundCpu 128).mem 0x30000 ≠ t.image[512 * (130 + 31)]?.getD 0
  rw [hbyte]
  decide

end DejOs.Stage1
