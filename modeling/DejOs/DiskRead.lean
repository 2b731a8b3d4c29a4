import DejOs.Base
import DejOs.Chs
import DejOs.Lib.Loop

/-!
# Reading sectors in stage 1

`disk_read` and `disk_reset` of `boot.asm`. The BIOS is a function on the state of the processor, of
which `Delivers` says what is asked of it: it delivers the sectors of one track. Then so does
`disk_read` (`diskRead_delivers`). A try that fails is repeated, three times at most
(`retry_halts`).
-/

namespace DejOs.Stage1

open RealMode Loop

/-! ## The code -/

/-- `bdb_bytes_per_sector` -/
def bdbBytesPerSector : Word := 0x7C0B

/-- `bdb_reserved_sectors` -/
def bdbReservedSectors : Word := 0x7C0E

/-- `bdb_sectors_per_fat` -/
def bdbSectorsPerFat : Word := 0x7C16

/-- `ebr_drive_number` -/
def ebrDriveNumber : Word := 0x7C24

/-- Why stage 2 is not reached. -/
inductive Stop
  | divideError
  /-- `jmp floppy_error` -/
  | floppyError
  deriving DecidableEq, Repr

/-- Lines without a jump. -/
def block (is : List Instr) (s : Cpu) : Except Stop Cpu := (run is s).elim (.error .divideError) .ok

section Code

variable (int13 : Cpu → Cpu)

/-- `disk_reset` -/
def diskReset (s : Cpu) : Except Stop Cpu := do
  let s ← block [.pusha, .mov8 .ah (.imm 0), .stc] s
  let s := int13 s
  if s.cf then throw .floppyError
  block [.popa] s

/-- From `.retry` on: the next try, or the end at `.done`. -/
def retry (s : Cpu) : Except Stop (Cpu ⊕ Cpu) := do
  let s ← block [.pusha, .stc] s
  let s := int13 s
  if s.cf = false then
    return .inr (← block [.popa] s)
  let s ← block [.popa] s
  let s ← diskReset int13 s
  let s ← block [.dec .di, .alu .test .di (.place (.reg .di))] s
  if s.zf then throw .floppyError
  return .inl s

/-- A part of the code as the body of a loop, which leaves at an error as well. -/
def round (f : Cpu → Except Stop (Cpu ⊕ Cpu)) (s : Cpu) : Cpu ⊕ Except Stop Cpu :=
  match f s with
  | .ok (.inl s) => .inl s
  | .ok (.inr s) => .inr (.ok s)
  | .error e => .inr (.error e)

/-- `disk_read`. There are at most three tries, which `di` counts down. -/
def diskRead (s : Cpu) : Except Stop Cpu := do
  let s ← block [.push (.place (.reg .cx))] s
  let s ← block lbaToChs s
  let s ← block [.pop (.reg .ax), .mov8 .ah (.imm 0x02), .mov (.reg .di) (.imm 3)] s
  (Loop.run (round (retry int13)) 3 s).getD (.error .floppyError)

end Code

/-! ## The disk -/

/-- The number of sectors of the floppy. -/
def totalSectors : ℕ := 2880

/-- A read of `n` sectors from number `lba` on into `es:bx` has worked. -/
structure Delivered (image : List Byte) (lba n : ℕ) (s s' : Cpu) : Prop where
  cf : s'.cf = false
  ds : s'.ds = s.ds
  es : s'.es = s.es
  stack : s'.stack = s.stack
  data : ∀ i < 512 * n, s'.mem (linear s.es s.bx + i) = image[512 * lba + i]?.getD 0
  /-- From the boot sector up to `0x80000` the memory is not the BIOS's. -/
  rest : ∀ a, 0x7C00 ≤ a → a < 0x80000 → ¬ (linear s.es s.bx ≤ a ∧
    a < linear s.es s.bx + 512 * n) → s'.mem a = s.mem a

/-- What is asked of `int 13h` with 2 in `ah`: it delivers sectors of one track of the floppy to
memory that is in one segment. -/
def Delivers (int13 : Cpu → Cpu) (drive : Byte) (image : List Byte) : Prop :=
  ∀ (s : Cpu) (lba : ℕ), s.reg8 .ah = 0x02 → s.reg8 .dl = drive →
    (Chs.decode s.cx (s.reg8 .dh)).Addresses 18 2 lba →
    (Chs.decode s.cx (s.reg8 .dh)).sector + (s.reg8 .al).toNat ≤ 19 →
    0 < (s.reg8 .al).toNat → lba + (s.reg8 .al).toNat ≤ totalSectors →
    s.bx.toNat + 512 * (s.reg8 .al).toNat ≤ 2 ^ 16 →
    Delivered image lba (s.reg8 .al).toNat s (int13 s)

/-- The words of the boot sector in memory that the code reads. -/
structure BootMemory (drive : Byte) (m : Memory) : Prop where
  bytesPerSector : loadWord m 0 bdbBytesPerSector = 512
  reservedSectors : loadWord m 0 bdbReservedSectors = 1
  sectorsPerFat : loadWord m 0 bdbSectorsPerFat = 9
  sectorsPerTrack : loadWord m 0 bdbSectorsPerTrack = 18
  heads : loadWord m 0 bdbHeads = 2
  drive : m (linear 0 ebrDriveNumber) = drive

theorem linear_zero (off : Word) : linear 0 off = off.toNat := by
  unfold linear
  simp

theorem BootMemory.congr {m m' : Memory} {drive : Byte} (h : BootMemory drive m)
    (hm : ∀ a, 0x7C00 ≤ a → a < 0x7C25 → m' a = m a) : BootMemory drive m' := by
  have hword : ∀ off : Word, 0x7C00 ≤ off.toNat → off.toNat + 1 < 0x7C25 →
      loadWord m' 0 off = loadWord m 0 off := by
    intro off hlo hhi
    apply loadWord_congr (by omega) <;>
    · rw [linear_zero]
      exact hm _ (by omega) (by omega)
  constructor
  · exact (hword _ (by decide) (by decide)).trans h.bytesPerSector
  · exact (hword _ (by decide) (by decide)).trans h.reservedSectors
  · exact (hword _ (by decide) (by decide)).trans h.sectorsPerFat
  · exact (hword _ (by decide) (by decide)).trans h.sectorsPerTrack
  · exact (hword _ (by decide) (by decide)).trans h.heads
  · exact (hm _ (by decide) (by decide)).trans h.drive

section DiskRead

variable {int13 : Cpu → Cpu} {drive : Byte} {image : List Byte} {s : Cpu}

theorem block_of_run {is : List Instr} {t : Cpu} (h : run is s = some t) : block is s = .ok t := by
  unfold block
  rw [h]
  rfl

/-- The state in which a try calls the BIOS. -/
def tried (s : Cpu) : Cpu :=
  { s with
    cf := true
    stack := s.di :: s.si :: s.bp :: s.bx :: s.dx :: s.cx :: s.ax :: s.stack }

theorem block_popa {u : Cpu} (h : u.stack = (tried s).stack) : block [.popa] u = .ok { u with
    ax := s.ax, bx := s.bx, cx := s.cx, dx := s.dx, si := s.si, di := s.di, bp := s.bp,
    stack := s.stack } :=
  block_of_run (by simp [h, tried])

/-- A try that works restores the registers. -/
theorem retry_delivered {lba n : ℕ} (hd : Delivered image lba n (tried s) (int13 (tried s))) :
    ∃ zf fs, retry int13 s = .ok (.inr { s with
      cf := false, zf := zf, fs := fs, mem := (int13 (tried s)).mem }) := by
  refine ⟨(int13 (tried s)).zf, (int13 (tried s)).fs, ?_⟩
  have hcall : block [.pusha, .stc] s = .ok (tried s) := block_of_run (by simp [tried])
  have hpopa := block_popa (s := s) (u := int13 (tried s)) hd.stack
  rw [hd.cf, hd.ds, hd.es] at hpopa
  unfold retry
  rw [hcall]
  simp only [bind, Except.bind, hd.cf, ite_true, hpopa]
  rfl

theorem diskReset_di {t : Cpu} (hstack : ∀ s, (int13 s).stack = s.stack)
    (h : diskReset int13 s = .ok t) : t.di = s.di := by
  unfold diskReset at h
  generalize hu : ({ s with
    ax := 0#8 ++ lo s.ax, cf := true
    stack := s.di :: s.si :: s.bp :: s.bx :: s.dx :: s.cx :: s.ax :: s.stack } : Cpu) = u at h
  have hcall : block [.pusha, .mov8 .ah (.imm 0), .stc] s = .ok u := block_of_run (by simp [← hu])
  have hpopa := block_popa (s := s) (u := int13 u) ((hstack u).trans (by rw [← hu]; rfl))
  rw [hcall] at h
  simp only [bind, Except.bind, hpopa] at h
  split_ifs at h
  cases h
  rfl

/-- A try that fails is counted. -/
theorem retry_next {t : Cpu} (hstack : ∀ s, (int13 s).stack = s.stack)
    (h : retry int13 s = .ok (.inl t)) : t.di = s.di - 1 ∧ t.di ≠ 0 := by
  have hcall : block [.pusha, .stc] s = .ok (tried s) := block_of_run (by simp [tried])
  have hpopa := block_popa (s := s) (u := int13 (tried s)) (hstack (tried s))
  unfold retry at h
  rw [hcall] at h
  simp only [bind, Except.bind, hpopa] at h
  split_ifs at h
  · cases h
  · split at h
    · cases h
    · rename_i v hreset
      have hdi := diskReset_di hstack hreset
      have hcount : block [.dec .di, .alu .test .di (.place (.reg .di))] v =
          .ok ({ v with di := v.di - 1 }.flags (v.di - 1 = 0) false) := block_of_run (by simp)
      rw [hcount] at h
      dsimp only at h
      split_ifs at h with hzero
      cases h
      exact ⟨congrArg (· - 1) hdi, of_decide_eq_false (Bool.not_eq_true _ ▸ hzero)⟩

/-- **Three tries are all**, as long as the BIOS keeps the stack. -/
theorem retry_halts (hstack : ∀ s, (int13 s).stack = s.stack) (hdi : s.di = 3) :
    ∃ r, Loop.run (round (retry int13)) 3 s = some r := by
  have hnext : ∀ {s t}, again (round (retry int13)) s = some t → t.di = s.di - 1 ∧ t.di ≠ 0 := by
    intro s t h
    rw [again_eq_some] at h
    unfold round at h
    split at h
    · rename_i htry
      cases h
      exact retry_next hstack htry
    · cases h
    · cases h
  rw [← Option.ne_none_iff_exists']
  intro hnone
  obtain ⟨t, ht⟩ := Option.ne_none_iff_exists'.mp (run_eq_none_iff.mp hnone)
  rw [orbit_succ', orbit_succ', orbit_succ', orbit_zero, Option.bind_some] at ht
  obtain ⟨s₂, h₂, h₃⟩ := Option.bind_eq_some_iff.mp ht
  obtain ⟨s₁, h₁, h₂⟩ := Option.bind_eq_some_iff.mp h₂
  -- `di` is 2, 1 and then 0
  refine (hnext h₃).2 ?_
  rw [(hnext h₃).1, (hnext h₂).1, (hnext h₁).1, hdi]
  rfl

theorem diskRead_eq (int13 : Cpu → Cpu) {spt heads : Word}
    (hs : loadWord s.mem s.ds bdbSectorsPerTrack = spt)
    (hh : loadWord s.mem s.ds bdbHeads = heads) (hs0 : spt ≠ 0#16) (hh0 : heads ≠ 0#16) :
    ∃ zf, diskRead int13 s = (Loop.run (round (retry int13)) 3 ({ s with
      ax := 0x02#8 ++ lo s.cx, cx := chsWord s.ax spt heads,
      dx := chsHead s.ax spt heads ++ lo s.dx, di := 3#16 }.flags zf false)).getD
        (.error .floppyError) := by
  obtain ⟨zf, hchs⟩ := run_lbaToChs (s := { s with stack := s.cx :: s.stack }) hs hh hs0 hh0
  refine ⟨zf, ?_⟩
  have hpush : block [.push (.place (.reg .cx))] s = .ok { s with stack := s.cx :: s.stack } :=
    block_of_run (by simp)
  unfold diskRead
  rw [hpush]
  simp only [bind, Except.bind, block_of_run hchs]
  rw [block_of_run (t := { s with
      ax := 0x02#8 ++ lo s.cx, cx := chsWord s.ax spt heads,
      dx := chsHead s.ax spt heads ++ lo s.dx, di := 3#16 }.flags zf false) (by simp)]

/-- **`disk_read`.** It gives the sectors of one track, and restores `bx`. -/
theorem diskRead_delivers (hd : Delivers int13 drive image) (hb : BootMemory drive s.mem)
    (hds : s.ds = 0) {lba n : ℕ} (hax : s.ax.toNat = lba) (hn : (lo s.cx).toNat = n) (hn0 : 0 < n)
    (hdl : lo s.dx = drive) (htrack : lba % 18 + n ≤ 18) (htotal : lba + n ≤ totalSectors)
    (hbx : s.bx.toNat + 512 * n ≤ 2 ^ 16) :
    ∃ t, diskRead int13 s = .ok t ∧ Delivered image lba n s t ∧ t.bx = s.bx := by
  subst hax hn
  obtain ⟨zf, hread⟩ := diskRead_eq int13 (s := s) (hds ▸ hb.sectorsPerTrack)
    (hds ▸ hb.heads) (by decide) (by decide)
  generalize hu : ({ s with
      ax := 0x02#8 ++ lo s.cx, cx := chsWord s.ax 18 2,
      dx := chsHead s.ax 18 2 ++ lo s.dx, di := 3#16 } : Cpu).flags zf false = u at hread
  have hdecode : Chs.decode (chsWord s.ax 18 2) (chsHead s.ax 18 2) =
      ⟨s.ax.toNat / 18 / 2, s.ax.toNat / 18 % 2, s.ax.toNat % 18 + 1⟩ :=
    decode_chsWord (by decide) (by decide) (by decide) (by decide)
      (by unfold totalSectors at htotal; show s.ax.toNat / 18 / 2 < 1024; omega)
  have hdone : Delivered image s.ax.toNat (lo s.cx).toNat (tried u) (int13 (tried u)) := by
    have hal : (tried u).reg8 .al = lo s.cx := by rw [← hu]; simp [tried]
    have hah : (tried u).reg8 .ah = 0x02 := by rw [← hu]; simp [tried]
    have hdl' : (tried u).reg8 .dl = drive := by rw [← hu, ← hdl]; simp [tried]
    have hchs : Chs.decode (tried u).cx ((tried u).reg8 .dh) =
        ⟨s.ax.toNat / 18 / 2, s.ax.toNat / 18 % 2, s.ax.toNat % 18 + 1⟩ := by
      rw [← hdecode, ← hu]
      simp [tried]
    have hbx' : (tried u).bx = s.bx := by rw [← hu]; simp [tried]
    have hcall := hd (tried u) s.ax.toNat hah hdl'
    rw [hchs, hal, hbx'] at hcall
    refine hcall (Chs.addresses_div (by decide) (by decide)) ?_ hn0 htotal hbx
    show s.ax.toNat % 18 + 1 + (lo s.cx).toNat ≤ 19
    omega
  obtain ⟨zf', fs, htry⟩ := retry_delivered hdone
  have hround : round (retry int13) u = .inr (.ok { u with
      cf := false, zf := zf', fs := fs, mem := (int13 (tried u)).mem }) := by
    unfold round
    rw [htry]
  have hok : diskRead int13 s = .ok { u with
      cf := false, zf := zf', fs := fs, mem := (int13 (tried u)).mem } := by
    rw [hread]
    unfold Loop.run
    rw [hround]
    rfl
  subst hu
  exact ⟨_, hok, ⟨rfl, rfl, rfl, rfl, hdone.data, hdone.rest⟩, rfl⟩

end DiskRead

end DejOs.Stage1
