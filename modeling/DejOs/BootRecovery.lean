import DejOs.BootStage2

/-!
# Stage 2 ends on the recovery screen

What stage 2 has in its buffer for the root directory are the first fourteen sectors of the floppy:
the boot sector and the FATs. Unless one of their entries of 32 bytes begins with the name that it
searches for, stage 2 ends on the recovery screen, whatever the root directory has
(`main_recovers`).
-/

namespace DejOs.Stage2

open RealMode Results
open Stage1 (stage2LoadSegment bdbBytesPerSector bdbReservedSectors bdbSectorsPerFat bdbFatCount
  bdbDirEntriesCount StringAt BootMemory)

/-! ## The BIOS -/

/-- What the BIOS leaves alone; from the boot sector up to `0x80000` the memory is not its own. -/
structure Kept (s s' : Cpu) : Prop where
  bx : s'.bx = s.bx
  dx : s'.dx = s.dx
  si : s'.si = s.si
  di : s'.di = s.di
  ds : s'.ds = s.ds
  es : s'.es = s.es
  fs : s'.fs = s.fs
  stack : s'.stack = s.stack
  mem : ∀ a, 0x7C00 ≤ a → a < 0x80000 → s'.mem a = s.mem a

theorem Kept.trans {s s' s'' : Cpu} (h : Kept s' s'') (h' : Kept s s') : Kept s s'' where
  bx := h.bx.trans h'.bx
  dx := h.dx.trans h'.dx
  si := h.si.trans h'.si
  di := h.di.trans h'.di
  ds := h.ds.trans h'.ds
  es := h.es.trans h'.es
  fs := h.fs.trans h'.fs
  stack := h.stack.trans h'.stack
  mem a hlo hhi := (h.mem a hlo hhi).trans (h'.mem a hlo hhi)

/-- The BIOS with a floppy. -/
structure Bios.Serves (bios : Bios) (drive : Byte) (image : List Byte) : Prop where
  shows : ∀ s, Kept s (bios.int10 s)
  gate : ∀ s, Kept s (bios.int15 s)
  describes : Stage1.Describes bios.int13 drive
  delivers : Stage1.Delivers bios.int13 drive image
  fs : ∀ s, (bios.int13 s).fs = s.fs

/-! ## `puts` -/

section Puts

variable {bios : Bios} {t u : Console} {bs : List Byte} {is : List Instr} {s : Cpu}

theorem block_of_run (h : run is t.cpu = some s) : block is t = pure { t with cpu := s } := by
  unfold block
  rw [h]

theorem putsLoop_next {b : Byte} (hshows : ∀ s, Kept s (bios.int10 s))
    (hfirst : t.cpu.mem (linear t.cpu.ds t.cpu.si) = b) (hb : b ≠ 0) :
    ∃ v, putsLoop bios false t = pure (.inl v) ∧ v.screen = t.screen ++ [.typed b] ∧
      Kept { t.cpu with si := t.cpu.si + 1 } v.cpu := by
  have hal : (lodsb false t.cpu).reg8 .al = b := (lo_append _ _).trans hfirst
  generalize hv : ((lodsb false t.cpu).flags false false).setReg8 .ah 0x0E = v
  have hround : putsLoop bios false t = pure (.inl (int10 bios { t with cpu := v })) := by
    unfold putsLoop
    dsimp only [Console.on]
    rw [hal, hv]
    exact if_neg hb
  have hah : v.reg8 .ah = 0x0E := by rw [← hv]; exact hi_append _ _
  have hshown : shown v = .typed b := by
    unfold shown
    rw [if_pos hah, ← hal, ← hv]
    exact congrArg _ (lo_append _ _)
  obtain ⟨hbx, hdx, hsi, hdi, hds, hes, hfs, hstack, hmem⟩ := hshows v
  rw [← hv] at hbx hdx hsi hdi hds hes hfs hstack hmem
  refine ⟨_, hround, congrArg (fun x => t.screen ++ [x]) hshown, ?_⟩
  rw [← hv]
  exact ⟨hbx, hdx, hsi, hdi, hds, hes, hfs, hstack, hmem⟩

theorem putsLoop_shows (hshows : ∀ s, Kept s (bios.int10 s))
    (hstr : StringAt t.cpu.mem (linear t.cpu.ds t.cpu.si) bs)
    (hsi : t.cpu.si.toNat + bs.length < 2 ^ 16) (hlo : 0x7C00 ≤ linear t.cpu.ds t.cpu.si)
    (hhi : linear t.cpu.ds t.cpu.si + bs.length < 0x80000) :
    ∃ u, loop (putsLoop bios false) t = pure u ∧ u.screen = t.screen ++ bs.map .typed ∧
      Kept { t.cpu with si := u.cpu.si } u.cpu := by
  induction bs generalizing t with
  | nil =>
    have hzero : t.cpu.mem (linear t.cpu.ds t.cpu.si) = 0 := hstr
    have hround : putsLoop bios false t =
        pure (.inr (t.on fun s => (lodsb false s).flags true false)) := by
      unfold putsLoop
      dsimp only [Console.on]
      exact if_pos ((lo_append _ _).trans hzero)
    exact ⟨_, loop_out hround, (List.append_nil _).symm, rfl, rfl, rfl, rfl, rfl, rfl, rfl, rfl,
      fun _ _ _ => rfl⟩
  | cons b bs ih =>
    obtain ⟨hfirst, hb, hrest⟩ := hstr
    rw [List.length_cons] at hsi hhi
    obtain ⟨v, hround, hscreen, hkept⟩ := putsLoop_next hshows hfirst hb
    have hlin : linear v.cpu.ds v.cpu.si = linear t.cpu.ds t.cpu.si + 1 := by
      rw [hkept.ds, hkept.si]
      exact linear_succ (by omega)
    have hnext : v.cpu.si.toNat = t.cpu.si.toNat + 1 := by
      rw [hkept.si]
      exact toNat_succ (by omega)
    obtain ⟨u, hloop, hshown, hkept'⟩ := ih (t := v)
      (by
        rw [hlin]
        exact hrest.congr fun i hi hi' => hkept.mem i (by omega) (by omega))
      (by omega) (by omega) (by omega)
    refine ⟨u, (loop_next hround).trans hloop, ?_, hkept'.trans ⟨hkept.bx, hkept.dx, rfl, hkept.di,
      hkept.ds, hkept.es, hkept.fs, hkept.stack, hkept.mem⟩⟩
    rw [hshown, hscreen, List.append_assoc]
    rfl

/-- `puts` shows the string at `ds:si`, and there is no other result. -/
theorem puts_shows (hshows : ∀ s, Kept s (bios.int10 s))
    (hstr : StringAt t.cpu.mem (linear t.cpu.ds t.cpu.si) bs)
    (hsi : t.cpu.si.toNat + bs.length < 2 ^ 16) (hlo : 0x7C00 ≤ linear t.cpu.ds t.cpu.si)
    (hhi : linear t.cpu.ds t.cpu.si + bs.length < 0x80000) :
    ∃ u, puts bios false t = pure u ∧ u.screen = t.screen ++ bs.map .typed ∧
      Kept t.cpu u.cpu := by
  obtain ⟨v, hloop, hscreen, hkept⟩ := putsLoop_shows
    (t := { t with cpu := { t.cpu with stack := t.cpu.si :: t.cpu.ax :: t.cpu.stack } })
    hshows hstr hsi hlo hhi
  have hpush : block [.push (.place (.reg .ax)), .push (.place (.reg .si))] t =
      pure { t with cpu := { t.cpu with stack := t.cpu.si :: t.cpu.ax :: t.cpu.stack } } :=
    block_of_run (by simp)
  generalize hu : ({ v.cpu with si := t.cpu.si, ax := t.cpu.ax, stack := t.cpu.stack } : Cpu) = u
  have hpop : block [.pop (.reg .si), .pop (.reg .ax)] v = pure { v with cpu := u } :=
    block_of_run (by simp [hkept.stack, hu])
  refine ⟨{ v with cpu := u }, ?_, hscreen, ?_⟩
  · unfold puts
    rw [hpush, pure_bind, hloop, pure_bind, hpop]
  · rw [← hu]
    exact ⟨hkept.bx, hkept.dx, rfl, hkept.di, hkept.ds, hkept.es, hkept.fs, rfl, hkept.mem⟩

end Puts

/-! ## Stage 2 in memory -/

/-- The bytes of the root directory. -/
def rootDirBytes : ℕ := 14 * 512

theorem linear_stage2 (off : Word) : linear stage2LoadSegment off = 0x20000 + off.toNat := rfl

/-- The segment of stage 2 is part of what the BIOS leaves alone. -/
theorem linear_stage2_inside (off : Word) :
    0x7C00 ≤ linear stage2LoadSegment off ∧ linear stage2LoadSegment off < 0x80000 := by
  rw [linear_stage2]
  omega

/-- The bytes of the variables that stage 2 stores to before it has found a file. -/
def Labels.stored (labels : Labels) : List Word :=
  [labels.bdbSectorsPerTrack, labels.bdbSectorsPerTrack + 1, labels.bdbHeads,
    labels.ebrDriveNumber, labels.errorCode, labels.errorD]

/-- The addresses that stage 2 stores to: these variables, and the buffer. -/
def Written (labels : Labels) (a : ℕ) : Prop :=
  a ∈ labels.stored.map (linear stage2LoadSegment) ∨
  0x20000 + labels.buffer.toNat ≤ a ∧ a < 0x20000 + labels.buffer.toNat + rootDirBytes

instance (labels : Labels) (a : ℕ) : Decidable (Written labels a) :=
  inferInstanceAs (Decidable (_ ∨ _))

/-- The memory has changed at most where stage 2 stores. -/
def Same (labels : Labels) (m m' : Memory) : Prop :=
  ∀ a, 0x7C00 ≤ a → a < 0x80000 → ¬ Written labels a → m' a = m a

/-- A string of stage 2. -/
structure Text (labels : Labels) (m : Memory) (label : Word) (str : String) : Prop where
  string : StringAt m (linear stage2LoadSegment label) (Fat.text str)
  inside : label.toNat + (Fat.text str).length < 2 ^ 16
  kept : ∀ i < (Fat.text str).length + 1, ¬ Written labels (linear stage2LoadSegment label + i)

/-- Stage 2 as it is loaded. -/
structure Loaded (labels : Labels) (m : Memory) : Prop where
  a20Success : Text labels m labels.a20SuccessS "a20 enabled\r\n"
  s1 : Text labels m labels.s1 "1\r\n"
  s4 : Text labels m labels.s4 "4\r\n"
  title : Text labels m labels.title "Recovery\r\n"
  memInit : Text labels m labels.memInitS "Failed to initilise memory\r\n"
  missingFile : Text labels m labels.missingFileS "A required file was not able to be opened\r\n"
  missingKernel : Text labels m labels.missingKernelS "Missing file is dkrnl.sys\r\n"
  name : (List.range 12).map (fun i => m (linear stage2LoadSegment labels.fileDkrnl + i)) =
    Fat.text "DKRNL    SYS"
  nameInside : labels.fileDkrnl.toNat + 12 < 2 ^ 16
  nameKept : ∀ i < 12, ¬ Written labels (linear stage2LoadSegment labels.fileDkrnl + i)
  /-- The buffer is behind the program, and in its segment. -/
  room : labels.buffer.toNat + rootDirBytes ≤ 2 ^ 16
  /-- No two of the variables share a byte. -/
  apart : labels.stored.Nodup
  before : ∀ v ∈ labels.stored, v < labels.buffer

/-- The state in which stage 1 enters stage 2. -/
structure Entered (labels : Labels) (drive : Byte) (s : Cpu) : Prop where
  dl : s.reg8 .dl = drive
  boot : BootMemory drive s.mem
  fatCount : s.mem (linear 0 bdbFatCount) = 2
  dirEntries : loadWord s.mem 0 bdbDirEntriesCount = 224
  loaded : Loaded labels s.mem

/-- Between the lines: the segments, the stack and the memory. -/
structure Running (labels : Labels) (m : Memory) (t : Console) : Prop where
  ds : t.cpu.ds = stage2LoadSegment
  es : t.cpu.es = stage2LoadSegment
  stack : t.cpu.stack = []
  mem : Same labels m t.cpu.mem

section Text

variable {bios : Bios} {labels : Labels} {m m' : Memory} {t u : Console} {label : Word}
  {str : String} {drive : Byte} {s : Cpu}

theorem Same.trans {m'' : Memory} (h : Same labels m m')
    (hm : ∀ a, 0x7C00 ≤ a → a < 0x80000 → ¬ Written labels a → m'' a = m' a) :
    Same labels m m'' := fun a hlo hhi ha => (hm a hlo hhi ha).trans (h a hlo hhi ha)

/-- The variables and the buffer are in the segment of stage 2. -/
theorem not_written {a : ℕ} (ha : a < 0x20000) : ¬ Written labels a := by
  rintro (h | h)
  · obtain ⟨v, -, rfl⟩ := List.mem_map.mp h
    rw [linear_stage2] at ha
    omega
  · omega

theorem Same.bootSector (h : Same labels m m') {a : ℕ} (hlo : 0x7C00 ≤ a) (hhi : a < 0x20000) :
    m' a = m a := h a hlo (by omega) (not_written hhi)

theorem Same.bootMemory (h : Same labels m m') (hm : BootMemory drive m) : BootMemory drive m' :=
  hm.congr fun _ hlo _ => h.bootSector hlo (by omega)

theorem Same.dirEntries (h : Same labels m m') (hm : loadWord m 0 bdbDirEntriesCount = 224) :
    loadWord m' 0 bdbDirEntriesCount = 224 := by
  rw [← hm]
  exact loadWord_congr (by decide) (h.bootSector (by decide) (by decide))
    (h.bootSector (by decide) (by decide))

theorem Text.shows (h : Text labels m label str) (hshows : ∀ s, Kept s (bios.int10 s))
    (hds : t.cpu.ds = stage2LoadSegment) (hsi : t.cpu.si = label) (hm : Same labels m t.cpu.mem) :
    ∃ u, puts bios false t = pure u ∧ u.screen = t.screen ++ (Fat.text str).map .typed ∧
      Kept t.cpu u.cpu := by
  have hinside := h.inside
  have hlin : linear t.cpu.ds t.cpu.si = 0x20000 + label.toNat := by
    rw [hds, hsi]
    rfl
  refine puts_shows hshows ?_ (by rw [hsi]; omega) (by omega) (by omega)
  rw [hds, hsi]
  refine h.string.congr fun i hlo hhi => hm i ?_ ?_ ?_
  · rw [linear_stage2] at hlo
    omega
  · rw [linear_stage2] at hhi
    omega
  · obtain ⟨j, rfl⟩ := Nat.exists_eq_add_of_le hlo
    exact h.kept j (by omega)

end Text

/-! ## The A20 gate -/

section Gate

variable {bios : Bios} {labels : Labels} {m : Memory} {t : Console} {s : Cpu}

theorem entry_runs (labels : Labels) (s : Cpu) : ∃ t, entry s = pure t ∧ Running labels s.mem t ∧
    t.cpu.si = 0 ∧ t.cpu.dx = s.dx ∧ t.screen = [] := by
  have hblock : block
      [.mov (.reg .ax) (.imm stage2LoadSegment),
        .mov (.seg .ds) (.place (.reg .ax)),
        .mov (.seg .es) (.place (.reg .ax))] ⟨s, [], []⟩ = pure ⟨{ s with
          ax := stage2LoadSegment, ds := stage2LoadSegment, es := stage2LoadSegment }, [], []⟩ :=
    block_of_run (by simp)
  refine ⟨⟨{ s with
      ax := stage2LoadSegment, ds := stage2LoadSegment, es := stage2LoadSegment, stack := []
      si := 0 }, [], []⟩, ?_, ⟨rfl, rfl, rfl, fun _ _ _ _ => rfl⟩, rfl, rfl, rfl⟩
  unfold entry
  rw [hblock, pure_bind]
  exact block_of_run (by simp [Console.on])

theorem Running.congr {u : Console} (h : Running labels m t) (hu : Kept t.cpu u.cpu) :
    Running labels m u where
  ds := hu.ds.trans h.ds
  es := hu.es.trans h.es
  stack := hu.stack.trans h.stack
  mem := h.mem.trans fun a hlo hhi _ => hu.mem a hlo hhi

/-- A try: the gate is open, or there is another try, or this has been the third. -/
theorem enablea20_runs (hgate : ∀ s, Kept s (bios.int15 s)) (ht : Running labels m t) :
    ∃ u, Running labels m u ∧ u.cpu.si = t.cpu.si + 1 ∧ u.cpu.dx = t.cpu.dx ∧
      u.screen = t.screen ∧ (enablea20 bios t = pure (.inr u) ∨
        enablea20 bios t = if t.cpu.si + 1 = 3 then
          block [.mov8 .bh (.imm 1)] u >>= fun u => throw (.recovery u) else pure (.inl u)) := by
  generalize hv : ({ t.cpu with
    si := t.cpu.si + 1, zf := decide (t.cpu.si + 1 = 0), ax := 0x2401 } : Cpu) = v
  have hblock : block [.inc .si, .mov (.reg .ax) (.imm 0x2401)] t = pure { t with cpu := v } :=
    block_of_run (by rw [run_inc, run_mov, run_nil, ← hv]; rfl)
  have hkept : Kept v (bios.int15 v) := hgate v
  have hrun : Running labels m { t with cpu := bios.int15 v } := by
    refine Running.congr (t := { t with cpu := v }) ?_ hkept
    rw [← hv]
    exact ⟨ht.ds, ht.es, ht.stack, ht.mem⟩
  have hsi : (bios.int15 v).si = t.cpu.si + 1 := by rw [hkept.si, ← hv]
  have hdx : (bios.int15 v).dx = t.cpu.dx := by rw [hkept.dx, ← hv]
  by_cases hcf : (bios.int15 v).cf = false
  · refine ⟨_, hrun, hsi, hdx, rfl, .inl ?_⟩
    unfold enablea20
    rw [hblock, pure_bind]
    exact if_pos hcf
  · have hcmp : block [.alu .cmp .si (.imm 3)] { t with cpu := bios.int15 v } =
        pure { t with cpu := (bios.int15 v).flags (t.cpu.si + 1 = 3) (t.cpu.si + 1 < 3) } :=
      block_of_run (by simp [hsi])
    refine ⟨{ t with cpu := (bios.int15 v).flags (t.cpu.si + 1 = 3) (t.cpu.si + 1 < 3) },
      ⟨hrun.ds, hrun.es, hrun.stack, hrun.mem⟩, hsi, hdx, rfl, .inr ?_⟩
    unfold enablea20
    rw [hblock, pure_bind]
    dsimp only [Console.on]
    rw [if_neg hcf, hcmp, pure_bind]
    simp only [Cpu.flags, decide_eq_true_eq]

/-- The gate is open after three tries at most, or `recovery` is called with error 1. -/
theorem gate_runs (hgate : ∀ s, Kept s (bios.int15 s)) {n : ℕ} (ht : Running labels m t)
    (hn : t.cpu.si.toNat + (n + 1) = 3) : ∃ u, Running labels m u ∧ u.cpu.dx = t.cpu.dx ∧
      u.screen = t.screen ∧ (loop (enablea20 bios) t = pure u ∨
        loop (enablea20 bios) t = throw (.recovery u) ∧ hi u.cpu.bx = 1) := by
  induction n generalizing t with
  | zero =>
    obtain ⟨u, hu, -, hdx, hscreen, hopen | hlast⟩ := enablea20_runs hgate ht
    · exact ⟨u, hu, hdx, hscreen, .inl (loop_out hopen)⟩
    · have hthree : t.cpu.si + 1 = 3 := by
        apply BitVec.eq_of_toNat_eq
        rw [toNat_succ (by omega)]
        show t.cpu.si.toNat + 1 = 3
        omega
      have hbh : block [.mov8 .bh (.imm 1)] u =
          pure { u with cpu := { u.cpu with bx := 1#8 ++ lo u.cpu.bx } } := block_of_run (by simp)
      rw [if_pos hthree, hbh, pure_bind] at hlast
      have hbx : hi (1#8 ++ lo u.cpu.bx : Word) = 1 := hi_append _ _
      exact ⟨{ u with cpu := { u.cpu with bx := 1#8 ++ lo u.cpu.bx } },
        ⟨hu.ds, hu.es, hu.stack, hu.mem⟩, hdx, hscreen, .inr ⟨loop_stop hlast, hbx⟩⟩
  | succ n ih =>
    obtain ⟨u, hu, hsi, hdx, hscreen, hopen | hnext⟩ := enablea20_runs hgate ht
    · exact ⟨u, hu, hdx, hscreen, .inl (loop_out hopen)⟩
    · have hadd : (t.cpu.si + 1).toNat = t.cpu.si.toNat + 1 := toNat_succ (by omega)
      have hthree : t.cpu.si + 1 ≠ 3 := by
        intro h
        have h3 : (t.cpu.si + 1).toNat = 3 := congrArg BitVec.toNat h
        omega
      rw [if_neg hthree] at hnext
      rw [loop_next hnext, ← hdx, ← hscreen]
      exact ih hu (by rw [hsi]; omega)

end Gate

/-! ## The geometry -/

section Geometry

variable {bios : Bios} {labels : Labels} {m m' : Memory} {t : Console} {drive : Byte}
  {image : List Byte} {v w : Word}

theorem linear_stage2_inj (h : linear stage2LoadSegment v = linear stage2LoadSegment w) :
    v = w := by
  rw [linear_stage2, linear_stage2] at h
  exact BitVec.eq_of_toNat_eq (Nat.add_left_cancel h)

theorem Same.store (h : Same labels m m') (hv : v ∈ labels.stored) (b : Byte) :
    Same labels m (Function.update m' (linear stage2LoadSegment v) b) := by
  intro a hlo hhi ha
  have hne : a ≠ linear stage2LoadSegment v := fun h => ha (.inl (List.mem_map.mpr ⟨v, hv, h.symm⟩))
  rw [Function.update_of_ne hne]
  exact h a hlo hhi ha

theorem update_apart (m : Memory) (b : Byte) (h : v ≠ w) :
    Function.update m (linear stage2LoadSegment w) b (linear stage2LoadSegment v) =
      m (linear stage2LoadSegment v) :=
  Function.update_of_ne (fun he => h (linear_stage2_inj he)) ..

/-- The variables of the geometry are not the drive number. -/
theorem Loaded.drive_apart (h : Loaded labels m) :
    labels.ebrDriveNumber ≠ labels.bdbSectorsPerTrack ∧
    labels.ebrDriveNumber ≠ labels.bdbSectorsPerTrack + 1 ∧
    labels.ebrDriveNumber ≠ labels.bdbHeads := by
  have hapart := h.apart
  simp only [Labels.stored, List.nodup_cons, List.mem_cons, not_or] at hapart
  exact ⟨Ne.symm hapart.1.2.2.1, Ne.symm hapart.2.1.2.1, Ne.symm hapart.2.2.1.1⟩

theorem Same.geometry (h : Same labels m m') (hl : Loaded labels m) (w : Word) (b : Byte) :
    Same labels m (Function.update (storeWord m' stage2LoadSegment labels.bdbSectorsPerTrack w)
      (linear stage2LoadSegment labels.bdbHeads) b) ∧
    Function.update (storeWord m' stage2LoadSegment labels.bdbSectorsPerTrack w)
      (linear stage2LoadSegment labels.bdbHeads) b
        (linear stage2LoadSegment labels.ebrDriveNumber) =
      m' (linear stage2LoadSegment labels.ebrDriveNumber) := by
  obtain ⟨hlow, hhigh, hheads⟩ := hl.drive_apart
  unfold storeWord
  constructor
  · exact ((h.store (by simp [Labels.stored]) _).store (by simp [Labels.stored]) _).store
      (by simp [Labels.stored]) _
  · rw [update_apart _ _ hheads, update_apart _ _ hhigh, update_apart _ _ hlow]

theorem loadKernel_runs (hserves : bios.Serves drive image) (hl : Loaded labels m)
    (ht : Running labels m t) : ∃ u, loadKernel bios false labels t = pure u ∧
      Running labels m u ∧ u.cpu.fs = 0 ∧ u.cpu.dx = t.cpu.dx ∧
      u.screen = t.screen ++ (Fat.text "a20 enabled\r\n").map .typed := by
  generalize hv : ({ t.cpu with
    ax := 0, fs := 0, si := labels.a20SuccessS, zf := true, cf := false } : Cpu) = v
  have hblock : block
      [.alu .xor .ax (.place (.reg .ax)),
        .mov (.seg .fs) (.place (.reg .ax)),
        .mov (.reg .si) (.imm labels.a20SuccessS)] t = pure { t with cpu := v } :=
    block_of_run (by rw [← hv]; simp)
  have hrun : Running labels m { t with cpu := v } := by
    rw [← hv]
    exact ⟨ht.ds, ht.es, ht.stack, ht.mem⟩
  obtain ⟨u, hputs, hscreen, hkept⟩ := hl.a20Success.shows (t := { t with cpu := v })
    hserves.shows hrun.ds (by rw [← hv]) hrun.mem
  refine ⟨u, ?_, hrun.congr hkept, hkept.fs.trans (by rw [← hv]), hkept.dx.trans (by rw [← hv]),
    hscreen⟩
  unfold loadKernel
  rw [hblock, pure_bind, hputs]

/-- The geometry is asked for, reported and stored. -/
theorem driveParameters_runs (hserves : bios.Serves drive image) (hl : Loaded labels m)
    (ht : Running labels m t) (hdl : lo t.cpu.dx = drive) :
    ∃ u, driveParameters bios false labels t = pure u ∧ Running labels m u ∧
      u.cpu.fs = t.cpu.fs ∧ u.cpu.mem (linear stage2LoadSegment labels.ebrDriveNumber) = drive ∧
      u.screen = t.screen ++ (Fat.text "1\r\n").map .typed := by
  -- the call
  generalize hv : ({ t.cpu with
    ax := 0x08#8 ++ lo t.cpu.ax, stack := [stage2LoadSegment]
    mem := Function.update t.cpu.mem (linear stage2LoadSegment labels.ebrDriveNumber) drive } :
      Cpu) = v
  have hblock : block [.push (.place (.seg .es)), .mov8 .ah (.imm 0x08)]
      (t.on (store8 .ds labels.ebrDriveNumber .dl)) = pure { t with cpu := v } :=
    block_of_run (by rw [← hv]; simp [Console.on, store8, ht.ds, ht.es, ht.stack, hdl])
  obtain ⟨hcf, -, -, hds, hstack, hmem⟩ := hserves.describes v
    (by rw [← hv]; exact hi_append _ _) (by rw [← hv]; exact hdl)
  have hfs : (bios.int13 v).fs = t.cpu.fs := (hserves.fs v).trans (by rw [← hv])
  have hvmem : Same labels m v.mem := by
    rw [← hv]
    exact ht.mem.store (by simp [Labels.stored]) _
  have hvdrive : v.mem (linear stage2LoadSegment labels.ebrDriveNumber) = drive := by
    rw [← hv]
    exact Function.update_self ..
  -- the report
  generalize hw : ({ bios.int13 v with
    es := stage2LoadSegment, stack := [], si := labels.s1 } : Cpu) = w
  have hpop : block [.pop (.seg .es), .mov (.reg .si) (.imm labels.s1)]
      (int13 bios { t with cpu := v }) = pure { int13 bios { t with cpu := v } with cpu := w } := by
    refine block_of_run ?_
    have hpushed : (bios.int13 v).stack = [stage2LoadSegment] := hstack.trans (by rw [← hv])
    rw [run_pop, int13, hpushed, ← hw]
    rfl
  have hwds : w.ds = stage2LoadSegment := by
    rw [← hw]
    exact hds.trans (by rw [← hv]; exact ht.ds)
  have hwmem : Same labels m w.mem := by
    rw [← hw]
    exact hvmem.trans fun a hlo hhi _ => hmem a hlo hhi
  obtain ⟨u, hputs, hscreen, hkept⟩ := hl.s1.shows
    (t := { int13 bios { t with cpu := v } with cpu := w }) hserves.shows hwds (by rw [← hw]) hwmem
  have huds : u.cpu.ds = stage2LoadSegment := hkept.ds.trans hwds
  -- the stores
  generalize hx : clear8 .ch (and8 .cl 0x3F u.cpu) = x
  have hxkept : x.ds = u.cpu.ds ∧ x.es = u.cpu.es ∧ x.fs = u.cpu.fs ∧ x.stack = u.cpu.stack ∧
      x.mem = u.cpu.mem := by
    rw [← hx]
    exact ⟨rfl, rfl, rfl, rfl, rfl⟩
  obtain ⟨hxds, hxes, hxfs, hxstack, hxmem⟩ := hxkept
  have hstore : block [.mov (.mem .ds none labels.bdbSectorsPerTrack) (.place (.reg .cx))]
      (u.on fun s => clear8 .ch (and8 .cl 0x3F s)) = pure { u with cpu := { x with
        mem := storeWord u.cpu.mem stage2LoadSegment labels.bdbSectorsPerTrack x.cx } } := by
    refine block_of_run ?_
    dsimp only [Console.on]
    rw [run_mov, run_nil, hx, ← hxmem, ← huds, ← hxds]
    rfl
  have humem : Same labels m u.cpu.mem := hwmem.trans fun a hlo hhi _ => hkept.mem a hlo hhi
  have hudrive : u.cpu.mem (linear stage2LoadSegment labels.ebrDriveNumber) = drive := by
    obtain ⟨hlo, hhi⟩ := linear_stage2_inside labels.ebrDriveNumber
    rw [hkept.mem _ hlo hhi, ← hw, ← hvdrive]
    exact hmem _ hlo hhi
  obtain ⟨hgeometry, hkeepdrive⟩ := humem.geometry hl x.cx (hi (hi x.dx + 1 ++ lo x.dx))
  refine ⟨{ u with cpu := store8 .ds labels.bdbHeads .dh (inc8 .dh { x with
    mem := storeWord u.cpu.mem stage2LoadSegment labels.bdbSectorsPerTrack x.cx }) }, ?_,
    ⟨hxds.trans huds, ?_, ?_, ?_⟩, ?_, ?_, hscreen⟩
  · unfold driveParameters
    dsimp only
    rw [hblock, pure_bind, if_neg (by rw [int13, hcf]; decide), hpop, pure_bind, hputs, pure_bind,
      hstore, pure_bind]
    rfl
  · exact hxes.trans (hkept.es.trans (by rw [← hw]))
  · exact hxstack.trans (hkept.stack.trans (by rw [← hw]))
  · show Same labels m (Function.update _ (linear x.ds labels.bdbHeads) _)
    rw [hxds, huds]
    exact hgeometry
  · exact hxfs.trans (hkept.fs.trans (by rw [← hw]; exact hfs))
  · show (Function.update _ (linear x.ds labels.bdbHeads) _ : Memory)
      (linear stage2LoadSegment labels.ebrDriveNumber) = drive
    rw [hxds, huds]
    exact hkeepdrive.trans hudrive

end Geometry

/-! ## The root directory -/

section RootDir

variable {bios : Bios} {labels : Labels} {m : Memory} {t : Console} {drive : Byte}
  {image : List Byte} {n : ℕ}

/-- The state before the first try. -/
theorem diskRead_eq (bios : Bios) (labels : Labels) (hb : BootMemory drive t.cpu.mem) :
    ∃ zf cf, diskRead bios labels t = loop (retry bios labels) { t with cpu := { t.cpu with
      ax := 0x02#8 ++ lo t.cpu.cx, cx := 1, dx := 0, di := 3, fs := 0, zf := zf, cf := cf } } := by
  have hpush : block [.push (.place (.reg .cx))] t =
      pure { t with cpu := { t.cpu with stack := t.cpu.cx :: t.cpu.stack } } :=
    block_of_run (by simp)
  obtain ⟨zf, hrun⟩ := run_lbaToChs (s := { t.cpu with stack := t.cpu.cx :: t.cpu.stack })
    hb.sectorsPerTrack hb.heads (by decide) (by decide)
  rw [chsWord_zero, chsHead_zero] at hrun
  have hchs := block_of_run (t := { t with cpu := { t.cpu with
    stack := t.cpu.cx :: t.cpu.stack } }) hrun
  refine ⟨zf, false, ?_⟩
  unfold diskRead
  rw [hpush, pure_bind, hchs, pure_bind, block_of_run (s := { t.cpu with
    ax := 0x02#8 ++ lo t.cpu.cx, cx := 1, dx := 0, di := 3, fs := 0, zf := zf, cf := false })
    (by simp), pure_bind]

/-- `disk_read` delivers the first sectors of the floppy, whatever the number is that it is called
with. -/
theorem diskRead_first (hserves : bios.Serves drive image) (hb : BootMemory drive t.cpu.mem)
    (hdrive : t.cpu.mem (linear t.cpu.ds labels.ebrDriveNumber) = drive)
    (hn : (lo t.cpu.cx).toNat = n) (hn0 : 0 < n) (hn18 : n ≤ 18)
    (hbx : t.cpu.bx.toNat + 512 * n ≤ 2 ^ 16) : ∃ u, diskRead bios labels t = pure u ∧
      Stage1.Delivered image 0 n t.cpu u.cpu ∧ u.cpu.fs = 0 ∧ u.screen = t.screen ∧ Reads u := by
  subst hn
  obtain ⟨zf, cf, hread⟩ := diskRead_eq bios labels hb
  generalize hw : ({ t.cpu with
    ax := 0x02#8 ++ lo t.cpu.cx, cx := 1, dx := 0, di := 3, fs := 0, zf := zf, cf := cf } : Cpu) = w
    at hread
  -- the call
  generalize hx : ({ w with
    dx := 0#8 ++ drive, cf := true
    stack := w.di :: w.si :: w.bp :: w.bx :: w.dx :: w.cx :: w.ax :: w.stack } : Cpu) = x
  have hwdx : hi w.dx = 0#8 := by
    rw [← hw]
    show hi (0 : Word) = 0#8
    decide
  have hblock : block [.pusha, .stc, .mov8 .dl (.mem .ds labels.ebrDriveNumber)]
      { t with cpu := w } = pure { t with cpu := x } := by
    refine block_of_run ?_
    have hwdrive : w.mem (linear w.ds labels.ebrDriveNumber) = drive := by rw [← hw, ← hdrive]
    rw [run_pusha, run_stc, run_mov8, run_nil, ← hx, ← hwdx, ← hwdrive]
    rfl
  have hchs : Chs.decode x.cx (x.reg8 .dh) = ⟨0, 0, 1⟩ := by
    rw [← hx, ← hw]
    show Chs.decode 1 (hi (0#8 ++ drive)) = _
    rw [hi_append]
    decide
  have hah : x.reg8 .ah = 0x02 := by
    rw [← hx, ← hw]
    exact hi_append _ _
  have hal : x.reg8 .al = lo t.cpu.cx := by
    rw [← hx, ← hw]
    exact lo_append _ _
  have hxbx : x.bx = t.cpu.bx := by rw [← hx, ← hw]
  have hdel := hserves.delivers x 0 hah
    (by rw [← hx]; exact lo_append _ _)
  rw [hchs, hal, hxbx] at hdel
  obtain ⟨hcf, hds, hes, hstack, hdata, hrest⟩ := hdel
    ⟨rfl, by decide, by decide, by decide⟩ (by show 1 + _ ≤ 19; omega) hn0
    (by unfold Stage1.totalSectors; omega) hbx
  -- the way back
  generalize hy : ({ bios.int13 x with
    ax := w.ax, bx := w.bx, cx := w.cx, dx := w.dx, si := w.si, di := w.di, bp := w.bp
    stack := w.stack } : Cpu) = y
  have hpopa : block [.popa] (int13 bios { t with cpu := x }) =
      pure { int13 bios { t with cpu := x } with cpu := y } := by
    refine block_of_run ?_
    rw [run_popa, int13, hstack, ← hx, ← hy, ← hx]
    rfl
  have hround : retry bios labels { t with cpu := w } =
      pure (.inr { int13 bios { t with cpu := x } with cpu := y }) := by
    unfold retry
    rw [hblock, pure_bind]
    dsimp only
    rw [if_pos (by rw [int13]; exact hcf), hpopa, pure_bind]
  have hxmem : x.mem = t.cpu.mem := by rw [← hx, ← hw]
  have hxes : x.es = t.cpu.es := by rw [← hx, ← hw]
  rw [hxes, hxbx] at hdata hrest
  rw [hxmem] at hrest
  refine ⟨_, hread.trans (loop_out hround), ⟨?_, ?_, ?_, ?_, ?_, ?_⟩, ?_, rfl,
    x, List.mem_append_right _ (List.mem_singleton_self x), hah⟩
  · rw [← hy]
    exact hcf
  · rw [← hy]
    exact hds.trans (by rw [← hx, ← hw])
  · rw [← hy]
    exact hes.trans hxes
  · rw [← hy, ← hw]
  · rw [← hy]
    exact hdata
  · rw [← hy]
    exact hrest
  · rw [← hy]
    exact (hserves.fs x).trans (by rw [← hx, ← hw])

/-- The root directory has 14 sectors and begins with sector 19. -/
theorem rootDir_runs (hm : BootMemory drive m) (hcount : m (linear 0 bdbFatCount) = 2)
    (hentries : loadWord m 0 bdbDirEntriesCount = 224) (ht : Running labels m t)
    (hfs : t.cpu.fs = 0) : ∃ bx dx zf cf, rootDir t = pure { t with cpu := { t.cpu with
      ax := 14, bx := bx, dx := dx, zf := zf, cf := cf, stack := [19] } } := by
  have hboot := ht.mem.bootMemory hm
  have hfat := hboot.sectorsPerFat
  have hreserved := hboot.reservedSectors
  have hbytes := hboot.bytesPerSector
  have hcount' := (ht.mem.bootSector (a := linear 0 bdbFatCount) (by decide) (by decide)).trans
    hcount
  have hentries' := ht.mem.dirEntries hentries
  have hstack := ht.stack
  simp only [BitVec.ofNat_eq_ofNat] at hfs hfat hcount' hreserved hentries' hbytes ⊢
  have hread : block
      [.mov (.reg .ax) (.place (.mem .fs none bdbSectorsPerFat)),
        .mov8 .bl (.mem .fs bdbFatCount)] t = pure { t with cpu := { t.cpu with
          ax := 9#16, bx := hi t.cpu.bx ++ 2#8 } } :=
    block_of_run (by simp [hfs, hfat, hcount'])
  have hclear : clear8 .bh { t.cpu with ax := 9#16, bx := hi t.cpu.bx ++ 2#8 } =
      { t.cpu with ax := 9#16, bx := 2#16, zf := true, cf := false } := by
    simp [clear8]
  have hlba : block
      [.mul (.place (.reg .bx)),
        .alu .add .ax (.place (.mem .fs none bdbReservedSectors)),
        .push (.place (.reg .ax)),
        .mov (.reg .ax) (.place (.mem .fs none bdbDirEntriesCount))]
      { t with cpu := { t.cpu with ax := 9#16, bx := 2#16, zf := true, cf := false } } =
      pure { t with cpu := { t.cpu with
        ax := 224#16, bx := 2#16, dx := 0#16, zf := false, cf := false, stack := [19#16] } } :=
    block_of_run (by simp [hfs, hreserved, hentries', hstack])
  have hshl : shl16 .ax 5 { t.cpu with
      ax := 224#16, bx := 2#16, dx := 0#16, zf := false, cf := false, stack := [19#16] } =
      { t.cpu with
        ax := 7168#16, bx := 2#16, dx := 0#16, zf := false, cf := false, stack := [19#16] } := by
    simp [shl16]
  have hsize : block
      [.alu .xor .dx (.place (.reg .dx)),
        .div (.place (.mem .fs none bdbBytesPerSector)),
        .alu .test .dx (.place (.reg .dx))]
      { t with cpu := { t.cpu with
        ax := 7168#16, bx := 2#16, dx := 0#16, zf := false, cf := false, stack := [19#16] } } =
      pure { t with cpu := { t.cpu with
        ax := 14#16, bx := 2#16, dx := 0#16, zf := true, cf := false, stack := [19#16] } } :=
    block_of_run (by simp [hfs, hbytes])
  refine ⟨2#16, 0#16, true, false, ?_⟩
  unfold rootDir
  rw [hread, pure_bind]
  dsimp only [Console.on]
  rw [hclear, hlba, pure_bind]
  dsimp only
  rw [hshl, hsize, pure_bind]
  rfl

/-- The head of the round for entry `i` of the search. -/
structure Searching (labels : Labels) (m : Memory) (image : List Byte) (i : ℕ) (t : Console) :
    Prop extends Running labels m t where
  fs : t.cpu.fs = 0
  bx : t.cpu.bx.toNat = i
  di : t.cpu.di.toNat = labels.buffer.toNat + 32 * i
  data : ∀ k < rootDirBytes,
    t.cpu.mem (linear stage2LoadSegment labels.buffer + k) = image[k]?.getD 0

theorem rootDirAfter_runs (hserves : bios.Serves drive image) (hl : Loaded labels m)
    (hm : BootMemory drive m) (ht : Running labels m { t with cpu := { t.cpu with stack := [] } })
    (hax : t.cpu.ax = 14) (hstack : t.cpu.stack = [19])
    (hdrive : t.cpu.mem (linear stage2LoadSegment labels.ebrDriveNumber) = drive) :
    ∃ u, rootDirAfter bios labels t = pure u ∧ Searching labels m image 0 u ∧
      u.screen = t.screen ∧ Reads u := by
  have hds : t.cpu.ds = stage2LoadSegment := ht.ds
  have hes : t.cpu.es = stage2LoadSegment := ht.es
  have hmem : Same labels m t.cpu.mem := ht.mem
  have hroom := hl.room
  generalize hv : ({ t.cpu with
    cx := hi t.cpu.cx ++ lo 14#16, ax := 19, dx := hi t.cpu.dx ++ drive, bx := labels.buffer
    stack := [] } : Cpu) = v
  have hblock : block
      [.mov8 .cl (.reg .al),
        .pop (.reg .ax),
        .mov8 .dl (.mem .ds labels.ebrDriveNumber),
        .mov (.reg .bx) (.imm labels.buffer)] t = pure { t with cpu := v } :=
    block_of_run (by rw [← hv]; simp [hax, hstack, hds, hdrive])
  have hcx : lo v.cx = lo 14#16 := by
    rw [← hv]
    exact lo_append _ _
  obtain ⟨u, hread, ⟨-, huds, hues, hustack, hdata, hrest⟩, hfs, hscreen, hreads⟩ :=
    diskRead_first (t := { t with cpu := v }) (n := 14) hserves
      (by rw [← hv]; exact hmem.bootMemory hm) (by rw [← hv, ← hdrive, ← hds])
      (by rw [hcx]; decide) (by decide) (by decide) (by rw [← hv]; exact hroom)
  have hbuffer : linear v.es v.bx = linear stage2LoadSegment labels.buffer := by
    rw [← hv, ← hes]
  dsimp only at hdata hrest huds hues hustack
  rw [hbuffer] at hdata hrest
  refine ⟨{ u with cpu := { u.cpu with bx := 0, di := labels.buffer, zf := true, cf := false } },
    ?_, ⟨⟨huds.trans (by rw [← hv]; exact hds), hues.trans (by rw [← hv]; exact hes),
      hustack.trans (by rw [← hv]), ?_⟩, hfs, rfl, rfl, ?_⟩, hscreen, hreads⟩
  · unfold rootDirAfter
    rw [hblock, pure_bind, hread, pure_bind]
    exact block_of_run (by simp)
  · refine hmem.trans fun a hlo hhi ha => ?_
    rw [hrest a hlo hhi fun h => ha (.inr h), ← hv]
  · intro k hk
    rw [hdata k hk, Nat.mul_zero, Nat.zero_add]

end RootDir

/-! ## The search -/

/-- The bytes of the floppy from its first sector on. -/
def fromStart (image : List Byte) (k : ℕ) : Byte := image[k]?.getD 0

section Search

variable {bios : Bios} {labels : Labels} {m : Memory} {t : Console} {drive : Byte}
  {image : List Byte} {i : ℕ}

theorem Searching.sameBytes (h : Searching labels m image i t) (hl : Loaded labels m)
    (hi : i < 224) : SameBytes t.cpu.mem (linear stage2LoadSegment labels.fileDkrnl)
      (linear stage2LoadSegment t.cpu.di) 11 ↔
        Fat.nameAt (fromStart image) i = Fat.text "DKRNL    SY" := by
  have hinside := hl.nameInside
  have hname : Fat.text "DKRNL    SY" = (List.range 11).map fun j =>
      m (linear stage2LoadSegment labels.fileDkrnl + j) := by
    have htake := congrArg (List.take 11) hl.name
    rw [← List.map_take, List.take_range] at htake
    exact htake.symm
  unfold Fat.nameAt SameBytes
  rw [hname, List.map_inj_left]
  simp only [List.mem_range]
  refine forall₂_congr fun j hj => ?_
  have hcode : t.cpu.mem (linear stage2LoadSegment labels.fileDkrnl + j) =
      m (linear stage2LoadSegment labels.fileDkrnl + j) :=
    h.mem _ (by rw [linear_stage2]; omega) (by rw [linear_stage2]; omega)
      (hl.nameKept j (by omega))
  have hdata := h.data (32 * i + j) (by unfold rootDirBytes; omega)
  have hdi : linear stage2LoadSegment t.cpu.di + j =
      linear stage2LoadSegment labels.buffer + (32 * i + j) := by
    rw [linear_stage2, linear_stage2, h.di]
    omega
  rw [hcode, hdi, hdata]
  exact eq_comm

theorem searchKernel_compare (bios : Bios) (h : Searching labels m image i t) (hl : Loaded labels m)
    (hi : i < 224) : ∃ u, Searching labels m image i u ∧ u.screen = t.screen ∧
      u.cpu.zf = decide (Fat.nameAt (fromStart image) i = Fat.text "DKRNL    SY") ∧
      searchKernel bios labels t =
        if u.cpu.zf then pure (.inr u) else nextEntry bios labels u := by
  have hinside := hl.nameInside
  have hroom := hl.room
  have hdi := h.di
  unfold rootDirBytes at hroom
  generalize hv : ({ t.cpu with
    si := labels.fileDkrnl, cx := 11, stack := t.cpu.di :: t.cpu.stack } : Cpu) = v
  have hblock : block
      [.mov (.reg .si) (.imm labels.fileDkrnl),
        .mov (.reg .cx) (.imm 11),
        .push (.place (.reg .di))] t = pure { t with cpu := v } :=
    block_of_run (by rw [← hv]; simp)
  obtain ⟨cx, si, di, cf, hcmp⟩ := repeCmpsb_spec (n := 11) (s := v) (by rw [← hv]; rfl)
    (by decide) (by rw [← hv]; dsimp only; omega) (by rw [← hv]; dsimp only; omega)
  have hzf : decide (SameBytes v.mem (linear v.ds v.si) (linear v.es v.di) 11) =
      decide (Fat.nameAt (fromStart image) i = Fat.text "DKRNL    SY") := by
    rw [decide_eq_decide, ← h.sameBytes hl hi, ← hv]
    dsimp only
    rw [h.ds, h.es]
  rw [hzf] at hcmp
  generalize hw : ({ v with
    cx := cx, si := si, di := t.cpu.di, cf := cf, stack := t.cpu.stack
    zf := decide (Fat.nameAt (fromStart image) i = Fat.text "DKRNL    SY") } : Cpu) = w
  have hpop : block [.pop (.reg .di)] (Console.on (repeCmpsb false) { t with cpu := v }) =
      pure { t with cpu := w } := by
    refine block_of_run ?_
    dsimp only [Console.on]
    rw [hcmp, ← hw, ← hv]
    simp
  refine ⟨{ t with cpu := w }, ?_, rfl, by rw [← hw], ?_⟩
  · rw [← hw, ← hv]
    exact ⟨⟨h.ds, h.es, h.stack, h.mem⟩, h.fs, h.bx, h.di, h.data⟩
  · unfold searchKernel
    rw [hblock, pure_bind]
    dsimp only
    rw [hpop, pure_bind]

/-- A state in which `recovery` is called for the missing kernel. -/
structure Missing (labels : Labels) (m : Memory) (t : Console) : Prop extends
    Running labels m t where
  code : hi t.cpu.bx = 3
  detail : lo t.cpu.bx = 1

theorem nextEntry_runs (hshows : ∀ s, Kept s (bios.int10 s)) (h : Searching labels m image i t)
    (hl : Loaded labels m) (hm : loadWord m 0 bdbDirEntriesCount = 224) (hi : i < 224) :
    ∃ u, u.screen = t.screen ++ (Fat.text "4\r\n").map .typed ∧ if i + 1 < 224 then
        nextEntry bios labels t = pure (.inl u) ∧ Searching labels m image (i + 1) u
      else nextEntry bios labels t = throw (.recovery u) ∧ Missing labels m u := by
  have hroom := hl.room
  have hdi := h.di
  unfold rootDirBytes at hroom
  have hblock : block [.mov (.reg .si) (.imm labels.s4)] t =
      pure { t with cpu := { t.cpu with si := labels.s4 } } := block_of_run (by simp)
  obtain ⟨u, hputs, hscreen, hkept⟩ := hl.s4.shows
    (t := { t with cpu := { t.cpu with si := labels.s4 } }) hshows h.ds rfl h.mem
  have hu : Running labels m u := Running.congr (t := { t with cpu := { t.cpu with
    si := labels.s4 } }) ⟨h.ds, h.es, h.stack, h.mem⟩ hkept
  have hufs : u.cpu.fs = 0 := hkept.fs.trans h.fs
  have hubx : u.cpu.bx.toNat = i := (congrArg _ hkept.bx).trans h.bx
  have hbx : (u.cpu.bx + 1).toNat = i + 1 := by
    rw [toNat_succ (by omega), hubx]
  have hdata : ∀ k < rootDirBytes,
      u.cpu.mem (linear stage2LoadSegment labels.buffer + k) = image[k]?.getD 0 := by
    intro k hk
    rw [← h.data k hk]
    unfold rootDirBytes at hk
    exact hkept.mem _ (by rw [linear_stage2]; omega) (by rw [linear_stage2]; omega)
  obtain ⟨zf, cf, hcmp⟩ : ∃ zf cf, block
      [.alu .add .di (.imm 32),
        .inc .bx,
        .alu .cmp .bx (.place (.mem .fs none bdbDirEntriesCount))] u =
      pure { u with cpu := { u.cpu with
        di := u.cpu.di + 32, bx := u.cpu.bx + 1, zf := zf, cf := cf } } :=
    ⟨_, _, block_of_run (by simp; exact ⟨rfl, rfl⟩)⟩
  generalize heq : ({ u.cpu with
    di := u.cpu.di + 32, bx := u.cpu.bx + 1, zf := zf, cf := cf } : Cpu) = v at hcmp
  obtain ⟨hv, hvbx, hvdi, hvfs, hvmem⟩ : Running labels m { u with cpu := v } ∧
      v.bx = u.cpu.bx + 1 ∧ v.di = u.cpu.di + 32 ∧ v.fs = 0 ∧ v.mem = u.cpu.mem := by
    rw [← heq]
    exact ⟨⟨hu.ds, hu.es, hu.stack, hu.mem⟩, rfl, rfl, hufs, rfl⟩
  have hslt : v.bx.slt (loadWord v.mem v.fs bdbDirEntriesCount) = decide (i + 1 < 224) := by
    have hcount : (224 : Word).toInt = 224 := rfl
    rw [hvfs, hvmem, hu.mem.dirEntries hm, BitVec.slt_eq_decide, hcount, hvbx,
      BitVec.toInt_eq_toNat_of_lt (by omega), hbx]
    exact decide_eq_decide.mpr (by omega)
  have hnext : nextEntry bios labels t = if i + 1 < 224 then pure (.inl { u with cpu := v })
      else block [.mov8 .bh (.imm 3), .mov8 .bl (.imm 1)] { u with cpu := v } >>=
        fun t => throw (.recovery t) := by
    unfold nextEntry
    rw [hblock, pure_bind, hputs, pure_bind, hcmp, pure_bind]
    simp only [hslt, decide_eq_true_eq]
  by_cases hlast : i + 1 < 224
  · rw [if_pos hlast] at hnext
    have hdi' : v.di.toNat = labels.buffer.toNat + 32 * (i + 1) := by
      rw [hvdi, BitVec.toNat_add, hkept.di, hdi]
      show (labels.buffer.toNat + 32 * i + 32) % 2 ^ 16 = _
      omega
    refine ⟨{ u with cpu := v }, hscreen, ?_⟩
    rw [if_pos hlast]
    exact ⟨hnext, hv, hvfs, (congrArg _ hvbx).trans hbx, hdi', hvmem ▸ hdata⟩
  · have hcodes : block [.mov8 .bh (.imm 3), .mov8 .bl (.imm 1)] { u with cpu := v } =
        pure { u with cpu := { v with bx := 3#8 ++ 1#8 } } := block_of_run (by simp)
    rw [if_neg hlast, hcodes, pure_bind] at hnext
    refine ⟨{ u with cpu := { v with bx := 3#8 ++ 1#8 } }, hscreen, ?_⟩
    rw [if_neg hlast]
    exact ⟨hnext, ⟨hv.ds, hv.es, hv.stack, hv.mem⟩, hi_append 3#8 1#8, lo_append 3#8 1#8⟩

/-- The search ends on the recovery screen when no entry has the name, and has shown a line for
each. -/
theorem search_runs (hshows : ∀ s, Kept s (bios.int10 s)) (hl : Loaded labels m)
    (hm : loadWord m 0 bdbDirEntriesCount = 224)
    (hnone : ∀ i < 224, Fat.nameAt (fromStart image) i ≠ Fat.text "DKRNL    SY") (n : ℕ)
    (h : Searching labels m image i t) (hn : i + (n + 1) = 224) :
    ∃ u, loop (searchKernel bios labels) t = throw (.recovery u) ∧ Missing labels m u ∧
      u.screen = t.screen ++
        (List.replicate (n + 1) (Fat.text "4\r\n")).flatten.map .typed := by
  induction n generalizing i t with
  | zero =>
    obtain ⟨v, hv, hvscreen, hzf, hsearch⟩ := searchKernel_compare bios h hl (by omega)
    rw [hzf, decide_eq_false (hnone i (by omega)), if_neg Bool.false_ne_true] at hsearch
    obtain ⟨u, hscreen, hu⟩ := nextEntry_runs hshows hv hl hm (by omega)
    rw [if_neg (by omega)] at hu
    refine ⟨u, loop_stop (hsearch.trans hu.1), hu.2, ?_⟩
    rw [hscreen, hvscreen]
    rfl
  | succ n ih =>
    obtain ⟨v, hv, hvscreen, hzf, hsearch⟩ := searchKernel_compare bios h hl (by omega)
    rw [hzf, decide_eq_false (hnone i (by omega)), if_neg Bool.false_ne_true] at hsearch
    obtain ⟨w, hscreen, hw⟩ := nextEntry_runs hshows hv hl hm (by omega)
    rw [if_pos (by omega)] at hw
    obtain ⟨u, hloop, hu, hshown⟩ := ih hw.2 (by omega)
    refine ⟨u, (loop_next (hsearch.trans hw.1)).trans hloop, hu, ?_⟩
    rw [hshown, hscreen, hvscreen, List.replicate_succ (n := n + 1), List.flatten_cons,
      List.map_append, List.append_assoc]

end Search

/-! ## The recovery screen -/

/-- What is shown with a message. -/
def recoveryScreen (message : List Byte) : List Shown :=
  [.scrolled 0 0x2F 0 0x184F, .cursor 2 30] ++ (Fat.text "Recovery\r\n").map .typed ++
    [.cursor 10 0, .cursor 10 0] ++ message.map .typed

/-- In `recovery`, with the two codes stored. -/
structure Recovering (labels : Labels) (m : Memory) (c d : Byte) (t : Console) : Prop extends
    Running labels m t where
  code : t.cpu.mem (linear stage2LoadSegment labels.errorCode) = c
  detail : t.cpu.mem (linear stage2LoadSegment labels.errorD) = d

section Recovery

variable {bios : Bios} {labels : Labels} {m : Memory} {t u : Console} {c d : Byte} {v : Cpu}

theorem Recovering.congr (h : Recovering labels m c d t) (hu : Kept t.cpu u.cpu) :
    Recovering labels m c d u := by
  obtain ⟨hclo, hchi⟩ := linear_stage2_inside labels.errorCode
  obtain ⟨hdlo, hdhi⟩ := linear_stage2_inside labels.errorD
  refine ⟨h.toRunning.congr hu, ?_, ?_⟩
  · exact (hu.mem _ hclo hchi).trans h.code
  · exact (hu.mem _ hdlo hdhi).trans h.detail

theorem Recovering.registers (h : Recovering labels m c d t) (hds : v.ds = t.cpu.ds)
    (hes : v.es = t.cpu.es) (hstack : v.stack = t.cpu.stack) (hmem : v.mem = t.cpu.mem) :
    Recovering labels m c d { t with cpu := v } where
  ds := hds.trans h.ds
  es := hes.trans h.es
  stack := hstack.trans h.stack
  mem := by
    dsimp only
    rw [hmem]
    exact h.mem
  code := by
    dsimp only
    rw [hmem]
    exact h.code
  detail := by
    dsimp only
    rw [hmem]
    exact h.detail

theorem shown_scrolled {s : Cpu} (h : s.ax = 0x0600) :
    shown s = .scrolled 0 (hi s.bx) s.cx s.dx := by
  have hal : lo (0x0600 : Word) = 0 := by decide
  have hah : hi (0x0600 : Word) = 6 := by decide
  unfold shown
  simp only [Cpu.reg8, h, hah, hal]
  rfl

theorem shown_cursor {s : Cpu} (h : hi s.ax = 0x02) : shown s = .cursor (hi s.dx) (lo s.dx) := by
  unfold shown
  simp only [Cpu.reg8, h]
  rfl

theorem recovering_stored (hl : Loaded labels m) (ht : Running labels m t) :
    Recovering labels m (hi t.cpu.bx) (lo t.cpu.bx) (t.on fun s =>
      store8 .ds labels.errorD .bl (store8 .ds labels.errorCode .bh s)) := by
  have hapart := hl.apart
  simp only [Labels.stored, List.nodup_cons, List.mem_cons, not_or] at hapart
  have hne : labels.errorCode ≠ labels.errorD := hapart.2.2.2.2.1.1
  have hmem : (t.on fun s => store8 .ds labels.errorD .bl
      (store8 .ds labels.errorCode .bh s)).cpu.mem =
      Function.update (Function.update t.cpu.mem (linear stage2LoadSegment labels.errorCode)
        (hi t.cpu.bx)) (linear stage2LoadSegment labels.errorD) (lo t.cpu.bx) := by
    rw [← ht.ds]
    rfl
  refine ⟨⟨ht.ds, ht.es, ht.stack, ?_⟩, ?_, ?_⟩
  · rw [hmem]
    exact (ht.mem.store (by simp [Labels.stored]) _).store (by simp [Labels.stored]) _
  · rw [hmem, update_apart _ _ hne, Function.update_self]
  · rw [hmem, Function.update_self]

/-- The codes are stored and the window is filled. -/
theorem recoverySetup_runs (hshows : ∀ s, Kept s (bios.int10 s)) (hl : Loaded labels m)
    (ht : Running labels m t) : ∃ u, recoverySetup bios labels t = pure u ∧
      Recovering labels m (hi t.cpu.bx) (lo t.cpu.bx) u ∧
      u.screen = t.screen ++ [.scrolled 0 0x2F 0 0x184F] := by
  have hsame : ({ t.cpu with ds := stage2LoadSegment, es := stage2LoadSegment } : Cpu) = t.cpu :=
    congrArg₂ (fun d e => { t.cpu with ds := d, es := e }) ht.ds.symm ht.es.symm
  have hsegments : block
      [.push (.place (.reg .ax)),
        .mov (.reg .ax) (.imm stage2LoadSegment),
        .mov (.seg .ds) (.place (.reg .ax)),
        .mov (.seg .es) (.place (.reg .ax)),
        .pop (.reg .ax)] t = pure t :=
    block_of_run (s := t.cpu) (by rw [← hsame]; simp)
  have hstored := recovering_stored hl ht
  generalize hu : (t.on fun s => store8 .ds labels.errorD .bl
    (store8 .ds labels.errorCode .bh s)) = u at hstored
  have huscreen : u.screen = t.screen := by rw [← hu]; rfl
  have hfill : block
      [.mov (.reg .ax) (.imm 0x0600),
        .mov8 .bh (.imm 0x2F),
        .mov (.reg .cx) (.imm 0x0000),
        .mov (.reg .dx) (.imm 0x184F)] u = pure { u with cpu := { u.cpu with
          ax := 0x0600, bx := 0x2F#8 ++ lo u.cpu.bx, cx := 0, dx := 0x184F } } :=
    block_of_run (by simp)
  generalize hv : ({ u.cpu with
    ax := 0x0600, bx := 0x2F#8 ++ lo u.cpu.bx, cx := 0, dx := 0x184F } : Cpu) = v at hfill
  have hvr : Recovering labels m (hi t.cpu.bx) (lo t.cpu.bx) { u with cpu := v } :=
    hstored.registers (by rw [← hv]) (by rw [← hv]) (by rw [← hv]) (by rw [← hv])
  have hvshown : shown v = .scrolled 0 0x2F 0 0x184F := by
    rw [shown_scrolled (by rw [← hv]), ← hv]
    exact congrArg (Shown.scrolled 0 · 0 0x184F) (hi_append _ _)
  refine ⟨int10 bios { u with cpu := v }, ?_, hvr.congr (hshows v), ?_⟩
  · unfold recoverySetup
    rw [hsegments, pure_bind]
    dsimp only
    rw [hu, hfill, pure_bind]
  · rw [← hvshown, ← huscreen]
    rfl

theorem cursor_runs (hshows : ∀ s, Kept s (bios.int10 s)) (ht : Recovering labels m c d t)
    {row column : Byte} (hah : hi v.ax = 0x02) (hdx : v.dx = row ++ column)
    (hds : v.ds = t.cpu.ds) (hes : v.es = t.cpu.es) (hstack : v.stack = t.cpu.stack)
    (hmem : v.mem = t.cpu.mem) : Recovering labels m c d (int10 bios { t with cpu := v }) ∧
      (int10 bios { t with cpu := v }).cpu.dx = row ++ column ∧
      (int10 bios { t with cpu := v }).screen = t.screen ++ [.cursor row column] := by
  have hshown : shown v = .cursor row column := by
    rw [shown_cursor hah, hdx, hi_append, lo_append]
  refine ⟨(ht.registers hds hes hstack hmem).congr (hshows v), (hshows v).dx.trans hdx, ?_⟩
  rw [← hshown]
  rfl

theorem recoveryTitle_runs (hshows : ∀ s, Kept s (bios.int10 s)) (hl : Loaded labels m)
    (ht : Recovering labels m c d t) : ∃ u, recoveryTitle bios labels t = pure u ∧
      Recovering labels m c d u ∧ u.screen = t.screen ++ [.cursor 2 30] ++
        (Fat.text "Recovery\r\n").map .typed ++ [.cursor 10 0, .cursor 10 0] := by
  have htop : block
      [.mov8 .ah (.imm 0x02),
        .mov8 .bh (.imm 0),
        .mov8 .dh (.imm 2),
        .mov8 .dl (.imm 30)] t = pure { t with cpu := { t.cpu with
          ax := 0x02#8 ++ lo t.cpu.ax, bx := 0#8 ++ lo t.cpu.bx, dx := 2#8 ++ 30#8 } } :=
    block_of_run (by simp)
  generalize hv : ({ t.cpu with
    ax := 0x02#8 ++ lo t.cpu.ax, bx := 0#8 ++ lo t.cpu.bx, dx := 2#8 ++ 30#8 } : Cpu) = v at htop
  obtain ⟨h₁, -, hscreen₁⟩ := cursor_runs (v := v) hshows ht (by rw [← hv]; exact hi_append _ _)
    (by rw [← hv]) (by rw [← hv]) (by rw [← hv]) (by rw [← hv]) (by rw [← hv])
  generalize hw : int10 bios { t with cpu := v } = w at h₁ hscreen₁
  have htitle : block [.mov (.reg .si) (.imm labels.title)] w =
      pure { w with cpu := { w.cpu with si := labels.title } } := block_of_run (by simp)
  obtain ⟨x, hputs, hxscreen, hkept⟩ := hl.title.shows
    (t := { w with cpu := { w.cpu with si := labels.title } }) hshows h₁.ds rfl h₁.mem
  have h₂ : Recovering labels m c d x :=
    (h₁.registers (v := { w.cpu with si := labels.title }) rfl rfl rfl rfl).congr hkept
  -- the cursor is moved twice to the same place
  have hmiddle : block
      [.mov8 .ah (.imm 0x02),
        .mov8 .dh (.imm 10),
        .mov8 .dl (.imm 0)] x = pure { x with cpu := { x.cpu with
          ax := 0x02#8 ++ lo x.cpu.ax, dx := 10#8 ++ 0#8 } } := block_of_run (by simp)
  generalize hy : ({ x.cpu with ax := 0x02#8 ++ lo x.cpu.ax, dx := 10#8 ++ 0#8 } : Cpu) = y
    at hmiddle
  obtain ⟨h₃, hdx₃, hscreen₃⟩ := cursor_runs (v := y) hshows h₂ (by rw [← hy]; exact hi_append _ _)
    (by rw [← hy]) (by rw [← hy]) (by rw [← hy]) (by rw [← hy]) (by rw [← hy])
  generalize hz : int10 bios { x with cpu := y } = z at h₃ hdx₃ hscreen₃
  have hagain : block [.mov8 .ah (.imm 0x02)] z =
      pure { z with cpu := { z.cpu with ax := 0x02#8 ++ lo z.cpu.ax } } := block_of_run (by simp)
  obtain ⟨h₄, -, hscreen₄⟩ := cursor_runs (v := { z.cpu with ax := 0x02#8 ++ lo z.cpu.ax }) hshows
    h₃ (hi_append _ _) hdx₃ rfl rfl rfl rfl
  refine ⟨_, ?_, h₄, ?_⟩
  · unfold recoveryTitle
    rw [htop, pure_bind, hw, htitle, pure_bind, hputs, pure_bind, hmiddle, pure_bind, hz, hagain,
      pure_bind]
  · rw [hscreen₄, hscreen₃, hxscreen, hscreen₁, List.append_assoc _ [_] [_]]
    rfl

theorem message_shown (hshows : ∀ s, Kept s (bios.int10 s)) {label : Word} {str : String}
    (h : Text labels m label str) (ht : Recovering labels m c d t) :
    ∃ u, puts bios false (t.on fun s => { s with si := label }) = pure u ∧
      Recovering labels m c d u ∧ u.screen = t.screen ++ (Fat.text str).map .typed := by
  obtain ⟨u, hputs, hscreen, hkept⟩ := h.shows (t := t.on fun s => { s with si := label }) hshows
    ht.ds rfl ht.mem
  have hmoved : Recovering labels m c d (t.on fun s => { s with si := label }) :=
    ht.registers rfl rfl rfl rfl
  exact ⟨u, hputs, hmoved.congr hkept, hscreen⟩

theorem recoveryMessage_memInit (hshows : ∀ s, Kept s (bios.int10 s)) (hl : Loaded labels m)
    (ht : Recovering labels m 1 d t) : ∃ u, recoveryMessage bios labels t = pure u ∧
      u.screen = t.screen ++ (Fat.text "Failed to initilise memory\r\n").map .typed := by
  obtain ⟨u, hputs, -, hscreen⟩ := message_shown hshows hl.memInit ht
  refine ⟨u, ?_, hscreen⟩
  unfold recoveryMessage
  dsimp only
  rw [ht.ds, ht.code, if_pos rfl, hputs]

theorem recoveryMessage_missing (hshows : ∀ s, Kept s (bios.int10 s)) (hl : Loaded labels m)
    (ht : Recovering labels m 3 1 t) : ∃ u, recoveryMessage bios labels t = pure u ∧
      u.screen = t.screen ++ (Fat.text "A required file was not able to be opened\r\n" ++
        Fat.text "Missing file is dkrnl.sys\r\n").map .typed := by
  obtain ⟨u, hputs, hu, hscreen⟩ := message_shown hshows hl.missingFile ht
  obtain ⟨v, hputs', -, hscreen'⟩ := message_shown hshows hl.missingKernel hu
  refine ⟨v, ?_, ?_⟩
  · unfold recoveryMessage
    dsimp only
    rw [ht.ds, ht.code, if_neg (by decide), if_neg (by decide), if_pos rfl, hputs, pure_bind,
      hu.ds, hu.detail, if_pos rfl, hputs']
  · rw [hscreen', hscreen, List.map_append, List.append_assoc]

theorem recovery_shows (hshows : ∀ s, Kept s (bios.int10 s)) (hl : Loaded labels m)
    (ht : Running labels m t) (message : List Byte)
    (hmessage : ∀ u, Recovering labels m (hi t.cpu.bx) (lo t.cpu.bx) u →
      ∃ v, recoveryMessage bios labels u = pure v ∧ v.screen = u.screen ++ message.map .typed) :
    ∃ u, recovery bios labels t = pure u ∧ u.screen = t.screen ++ recoveryScreen message := by
  obtain ⟨u, hsetup, hu, huscreen⟩ := recoverySetup_runs hshows hl ht
  obtain ⟨v, htitle, hv, hvscreen⟩ := recoveryTitle_runs hshows hl hu
  obtain ⟨w, hw, hwscreen⟩ := hmessage v hv
  refine ⟨w, ?_, ?_⟩
  · unfold recovery
    rw [hsetup, pure_bind, htitle, pure_bind, hw]
  · rw [hwscreen, hvscreen, huscreen]
    unfold recoveryScreen
    simp only [List.append_assoc]
    rfl

end Recovery

/-! ## The end -/

/-- The A20 gate is open after three tries at most. -/
def Opens (bios : Bios) (s : Cpu) : Prop := ∃ t, entry s >>= loop (enablea20 bios) = pure t

section End

variable {bios : Bios} {labels : Labels} {m : Memory} {t u : Console} {s : Cpu} {drive : Byte}
  {image : List Byte}

theorem main_of_recovery (h : stage2 bios false labels s = throw (.recovery t))
    (hu : recovery bios labels t = pure u) : main bios false labels s = pure (.halted u) := by
  unfold main
  rw [h, map_throw, tryCatch_throw]
  dsimp only
  rw [hu, map_pure]

/-- From the open gate to the call of `recovery`. -/
theorem opened_runs (hserves : bios.Serves drive image) (hs : Entered labels drive s)
    (hnone : ∀ i < 224, Fat.nameAt (fromStart image) i ≠ Fat.text "DKRNL    SY")
    (ht : Running labels s.mem t) (hdx : t.cpu.dx = s.dx) (hscreen : t.screen = []) :
    ∃ u, (do
      let t ← loadKernel bios false labels t
      let t ← driveParameters bios false labels t
      let t ← rootDir t
      let t ← rootDirAfter bios labels t
      let t ← loop (searchKernel bios labels) t
      let t ← foundKernel bios labels t
      loop (loadKernelLoop bios labels) t) = throw (.recovery u) ∧ Missing labels s.mem u ∧
      u.screen = (Fat.text "a20 enabled\r\n" ++ Fat.text "1\r\n" ++
        (List.replicate 224 (Fat.text "4\r\n")).flatten).map .typed ∧ Reads u := by
  obtain ⟨a, ha, har, hafs, hadx, hascreen⟩ := loadKernel_runs hserves hs.loaded ht
  obtain ⟨b, hb, hbr, hbfs, hbdrive, hbscreen⟩ := driveParameters_runs hserves hs.loaded har
    (by rw [hadx, hdx]; exact hs.dl)
  obtain ⟨bx, dx, zf, cf, hroot⟩ := rootDir_runs hs.boot hs.fatCount hs.dirEntries hbr
    (hbfs.trans hafs)
  obtain ⟨c, hc, hsearching, hcscreen, hreads⟩ := rootDirAfter_runs
    (t := { b with cpu := { b.cpu with
      ax := 14, bx := bx, dx := dx, zf := zf, cf := cf, stack := [19] } }) hserves hs.loaded hs.boot
    ⟨hbr.ds, hbr.es, rfl, hbr.mem⟩ rfl rfl hbdrive
  obtain ⟨u, hsearch, hu, huscreen⟩ := search_runs hserves.shows hs.loaded hs.dirEntries hnone 223
    hsearching rfl
  refine ⟨u, ?_, hu, ?_, ?_⟩
  · rw [ha, pure_bind, hb, pure_bind, hroot, pure_bind, hc, pure_bind, hsearch, throw_bind]
  · rw [huscreen, hcscreen, hbscreen, hascreen, hscreen, List.nil_append, List.map_append,
      List.map_append]
  · have hthrown : Yields (loop (searchKernel bios labels) c) (.error (.recovery u)) := by
      rw [hsearch]
      rfl
    exact hreads.of_called ((search_called rfl).2 _ hthrown)

theorem open_recovers (hserves : bios.Serves drive image) (hs : Entered labels drive s)
    (hnone : ∀ i < 224, Fat.nameAt (fromStart image) i ≠ Fat.text "DKRNL    SY")
    (hopens : Opens bios s) : ∃ u, main bios false labels s = pure (.halted u) ∧
      u.screen = (Fat.text "a20 enabled\r\n" ++ Fat.text "1\r\n" ++
          (List.replicate 224 (Fat.text "4\r\n")).flatten).map .typed ++
        recoveryScreen (Fat.text "A required file was not able to be opened\r\n" ++
          Fat.text "Missing file is dkrnl.sys\r\n") ∧ Reads u := by
  obtain ⟨a, hentry, ha, hasi, hadx, hascreen⟩ := entry_runs labels s
  obtain ⟨b, hb, hbdx, hbscreen, hopen | ⟨hclosed, -⟩⟩ := gate_runs (n := 2) hserves.gate ha
    (by rw [hasi]; rfl)
  · obtain ⟨c, hrest, hc, hcscreen, hreads⟩ := opened_runs hserves hs hnone hb (hbdx.trans hadx)
      (hbscreen.trans hascreen)
    have hstage2 : stage2 bios false labels s = throw (.recovery c) := by
      unfold stage2
      rw [hentry, pure_bind, hopen, pure_bind, hrest]
    obtain ⟨u, hu, huscreen⟩ := recovery_shows hserves.shows hs.loaded hc.toRunning
      (Fat.text "A required file was not able to be opened\r\n" ++
        Fat.text "Missing file is dkrnl.sys\r\n") fun u hu => by
        rw [hc.code, hc.detail] at hu
        exact recoveryMessage_missing hserves.shows hs.loaded hu
    have hyields : Yields (recovery bios labels c) (.ok u) := by
      rw [hu]
      rfl
    refine ⟨u, main_of_recovery hstage2 hu, by rw [huscreen, hcscreen], ?_⟩
    exact hreads.of_called ((recovery_called rfl).1 _ hyields)
  · obtain ⟨t, ht⟩ := hopens
    rw [hentry, pure_bind, hclosed] at ht
    exact absurd ht throw_ne_pure

theorem shut_recovers (hserves : bios.Serves drive image) (hs : Entered labels drive s)
    (hshut : ¬ Opens bios s) : ∃ u, main bios false labels s = pure (.halted u) ∧
      u.screen = recoveryScreen (Fat.text "Failed to initilise memory\r\n") := by
  obtain ⟨a, hentry, ha, hasi, -, hascreen⟩ := entry_runs labels s
  obtain ⟨b, hb, -, hbscreen, hopen | ⟨hclosed, hcode⟩⟩ := gate_runs (n := 2) hserves.gate ha
    (by rw [hasi]; rfl)
  · exact absurd ⟨b, by rw [hentry, pure_bind, hopen]⟩ hshut
  · have hstage2 : stage2 bios false labels s = throw (.recovery b) := by
      unfold stage2
      rw [hentry, pure_bind, hclosed, throw_bind]
    obtain ⟨u, hu, huscreen⟩ := recovery_shows hserves.shows hs.loaded hb
      (Fat.text "Failed to initilise memory\r\n") fun u hu => by
        rw [hcode] at hu
        exact recoveryMessage_memInit hserves.shows hs.loaded hu
    refine ⟨u, main_of_recovery hstage2 hu, ?_⟩
    rw [huscreen, hbscreen, hascreen, List.nil_append]

end End

/-- **Stage 2 ends on the recovery screen.** Entered as stage 1 leaves it, with a BIOS that reads
the floppy and the direction flag clear, and when none of the first 224 pieces of 32 bytes of the
floppy, its boot sector and FATs, begins with `DKRNL    SY`: stage 2 halts, whatever is in the root
directory. When the A20 gate is open the screen says that the kernel is missing, after a line for
each piece, and otherwise that the memory cannot be used. -/
theorem main_recovers {bios : Bios} {labels : Labels} {drive : Byte} {image : List Byte} {s : Cpu}
    (hserves : bios.Serves drive image) (hs : Entered labels drive s)
    (hnone : ∀ i < 224, Fat.nameAt (fromStart image) i ≠ Fat.text "DKRNL    SY") :
    ∃ u, main bios false labels s = pure (.halted u) ∧
      (Opens bios s → u.screen =
        (Fat.text "a20 enabled\r\n" ++ Fat.text "1\r\n" ++
          (List.replicate 224 (Fat.text "4\r\n")).flatten).map .typed ++
        recoveryScreen (Fat.text "A required file was not able to be opened\r\n" ++
          Fat.text "Missing file is dkrnl.sys\r\n")) ∧
      (¬ Opens bios s →
        u.screen = recoveryScreen (Fat.text "Failed to initilise memory\r\n")) := by
  by_cases hopens : Opens bios s
  · obtain ⟨u, hu, hscreen, -⟩ := open_recovers hserves hs hnone hopens
    exact ⟨u, hu, fun _ => hscreen, fun hshut => absurd hopens hshut⟩
  · obtain ⟨u, hu, hscreen⟩ := shut_recovers hserves hs hopens
    exact ⟨u, hu, fun h => absurd h hopens, fun _ => hscreen⟩

/-! ### A floppy without the kernel -/

/-- The strings first, then the name, the variables and the buffer; what a run without the kernel
does not come to is left at the end of the segment. -/
def stage2Labels : Labels where
  a20SuccessS := 0x00
  s1 := 0x0E
  s4 := 0x12
  title := 0x16
  memInitS := 0x21
  missingFileS := 0x3E
  missingKernelS := 0x6A
  fileDkrnl := 0x86
  bdbSectorsPerTrack := 0x92
  bdbHeads := 0x94
  ebrDriveNumber := 0x96
  kernelCluster := 0x97
  errorCode := 0x99
  errorD := 0x9A
  buffer := 0x9B
  s5 := 0xFFF0
  s6 := 0xFFF0
  unknownS := 0xFFF0
  diskS := 0xFFF0
  afterPrintHex := 0xFFF0
  afterDigit := 0xFFF0

/-- The BIOS of stage 1, which opens the gate at once. -/
def stage2Bios (image : List Byte) : Bios where
  int10 := id
  int13 := (Stage1.stage1Bios image).int13
  int15 s := { s with cf := false }

/-- The strings of stage 2 and the name, one behind the other. -/
def stage2Strings : List Byte :=
  (["a20 enabled\r\n", "1\r\n", "4\r\n", "Recovery\r\n", "Failed to initilise memory\r\n",
    "A required file was not able to be opened\r\n", "Missing file is dkrnl.sys\r\n"].map
      fun str => Fat.text str ++ [0]).flatten ++ Fat.text "DKRNL    SYS"

/-- The first sector of the floppy and stage 2. -/
def stage2Memory (a : ℕ) : Byte :=
  if 0x20000 ≤ a then stage2Strings[a - 0x20000]?.getD 0
  else if 0x7C00 ≤ a ∧ a < 0x7E00 then Stage1.stage1Byte (a - 0x7C00)
  else 0

def stage2Cpu : Cpu := { Stage1.stage1Cpu with mem := stage2Memory }

theorem Kept.refl (s : Cpu) : Kept s s := ⟨rfl, rfl, rfl, rfl, rfl, rfl, rfl, rfl, fun _ _ _ => rfl⟩

theorem stage2Bios_serves (image : List Byte) : (stage2Bios image).Serves 0 image where
  shows s := Kept.refl s
  gate _ := ⟨rfl, rfl, rfl, rfl, rfl, rfl, rfl, rfl, fun _ _ _ => rfl⟩
  describes := (Stage1.stage1Bios_serves image).describes
  delivers := (Stage1.stage1Bios_serves image).delivers
  fs s := by
    show (ite _ _ _ : Cpu).fs = _
    split_ifs
    · rfl
    · show (Stage1.floppyBios image s).fs = s.fs
      unfold Stage1.floppyBios
      dsimp only
      split_ifs <;> rfl

/-- A string in front of everything that is stored to. -/
theorem text_before {labels : Labels} {m : Memory} {label : Word} {str : String} {k : ℕ}
    (hstored : ∀ v ∈ labels.stored, k ≤ v.toNat) (hbuffer : k ≤ labels.buffer.toNat)
    (hstr : StringAt m (linear stage2LoadSegment label) (Fat.text str))
    (hbefore : label.toNat + (Fat.text str).length < k) : Text labels m label str where
  string := hstr
  inside := by
    have hlt := labels.buffer.isLt
    omega
  kept := by
    generalize (Fat.text str).length = n at hbefore
    rintro i hi (h | h)
    · obtain ⟨v, hv, hv'⟩ := List.mem_map.mp h
      have hk := hstored v hv
      rw [linear_stage2, linear_stage2] at hv'
      omega
    · rw [linear_stage2] at h
      omega

theorem stage2_stored : stage2Labels.stored = [0x92, 0x93, 0x94, 0x96, 0x99, 0x9A] := by decide

theorem stage2_behind : ∀ v ∈ stage2Labels.stored, 0x92 ≤ v.toNat ∧ v.toNat < 0x9B := by
  rw [stage2_stored]
  exact List.forall_iff_forall_mem.mp
    ⟨by decide, by decide, by decide, by decide, by decide, by decide⟩

theorem stage2_text {label : Word} {str : String}
    (hstr : StringAt stage2Memory (linear stage2LoadSegment label) (Fat.text str))
    (hbefore : label.toNat + (Fat.text str).length < 0x92) :
    Text stage2Labels stage2Memory label str :=
  text_before (fun v hv => (stage2_behind v hv).1) (by decide) hstr hbefore

theorem stage2_loaded : Loaded stage2Labels stage2Memory where
  a20Success := stage2_text (by decide +kernel) (by decide +kernel)
  s1 := stage2_text (by decide +kernel) (by decide +kernel)
  s4 := stage2_text (by decide +kernel) (by decide +kernel)
  title := stage2_text (by decide +kernel) (by decide +kernel)
  memInit := stage2_text (by decide +kernel) (by decide +kernel)
  missingFile := stage2_text (by decide +kernel) (by decide +kernel)
  missingKernel := stage2_text (by decide +kernel) (by decide +kernel)
  name := by decide +kernel
  nameInside := by decide
  nameKept := by decide +kernel
  room := by decide
  apart := by
    rw [stage2_stored]
    decide
  before v hv := (stage2_behind v hv).2

theorem stage2_entered : Entered stage2Labels 0 stage2Cpu where
  dl := by decide +kernel
  boot := by constructor <;> decide +kernel
  fatCount := by decide +kernel
  dirEntries := by decide +kernel
  loaded := stage2_loaded

/-- No piece of the boot sector or the FATs begins with a `D`. -/
theorem stage2_none {image : List Byte}
    (hbyte : ∀ a < Stage1.totalSectors * 512, image[a]?.getD 0 = Stage1.stage1Byte a) :
    ∀ i < 224, Fat.nameAt (fromStart image) i ≠ Fat.text "DKRNL    SY" := by
  intro i hi h
  have hfirst : ∀ i < 224, Stage1.stage1Byte (32 * i) ≠ 0x44 := by decide +kernel
  refine hfirst i hi ?_
  rw [← hbyte (32 * i) (by unfold Stage1.totalSectors; omega)]
  exact congrArg (fun l : List Byte => l.headD 0) h

theorem stage2_missing :
    ∀ i < 224, Fat.nameAt (fromStart Stage1.stage1Image) i ≠ Fat.text "DKRNL    SY" := by
  refine stage2_none fun a ha => ?_
  unfold Stage1.stage1Image
  rw [List.getElem?_map, List.getElem?_range ha]
  rfl

theorem main_recovers_floppy : ∃ u, main (stage2Bios Stage1.stage1Image) false stage2Labels
    stage2Cpu = pure (.halted u) := by
  obtain ⟨u, hu, -⟩ := main_recovers (stage2Bios_serves Stage1.stage1Image) stage2_entered
    stage2_missing
  exact ⟨u, hu⟩

theorem stage2_opens : Opens (stage2Bios Stage1.stage1Image) stage2Cpu := by
  obtain ⟨t, hentry, -⟩ := entry_runs stage2Labels stage2Cpu
  obtain ⟨v, hv⟩ : ∃ v, run [.inc .si, .mov (.reg .ax) (.imm 0x2401)] t.cpu = some v := ⟨_, rfl⟩
  refine ⟨Console.on (stage2Bios Stage1.stage1Image).int15 { t with cpu := v }, ?_⟩
  rw [hentry, pure_bind]
  refine loop_out ?_
  unfold enablea20
  rw [block_of_run hv, pure_bind]
  rfl

theorem main_reads_floppy : ∃ u, main (stage2Bios Stage1.stage1Image) false stage2Labels stage2Cpu =
    pure (.halted u) ∧ Reads u ∧ Asks u := by
  obtain ⟨u, hmain, -, hreads⟩ := open_recovers (stage2Bios_serves Stage1.stage1Image)
    stage2_entered stage2_missing stage2_opens
  have hasks := main_reads (stage2Bios Stage1.stage1Image) false stage2Labels stage2Cpu fun s => by
    show (ite _ _ _ : Cpu).stack = _
    split_ifs
    · rfl
    · show (Stage1.floppyBios Stage1.stage1Image s).stack = s.stack
      unfold Stage1.floppyBios
      dsimp only
      split_ifs <;> rfl
  exact ⟨u, hmain, hreads, hasks.1 (.halted u) (by rw [hmain]; rfl)⟩

end DejOs.Stage2
