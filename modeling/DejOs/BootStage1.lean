import DejOs.FatTool
import DejOs.Lib.RealModeString
import DejOs.LoadStage2

/-!
# Stage 1 from its entry on

`boot.asm` from `main` to the jump to stage 2: the message, the geometry from the BIOS, the root
directory, the search for `STAGE2  BIN`, and then the lines that `LoadStage2` has. The search
compares eleven bytes at every thirty-two, as `findFile` of the tools does, and comes to the same
entry (`search_returns`).

So stage 1 and the tool find the same file, and what is at `STAGE2_LOAD_SEGMENT` when stage 2 is
entered are the bytes that the tool prints; without such a file stage 1 says so and reboots
(`main_boots`).
-/

namespace DejOs.Stage1

open RealMode Loop

/-! ## The code -/

/-- `bdb_fat_count` -/
def bdbFatCount : Word := 0x7C10

/-- `bdb_dir_entries_count` -/
def bdbDirEntriesCount : Word := 0x7C11

/-- What the assembler chooses. -/
structure Labels where
  msgLoading : Word
  msgStage2NotFound : Word
  fileStage2Bin : Word
  stage2Cluster : Word

/-- The BIOS, for `int 10h` and `int 13h`. -/
structure Bios where
  int10 : Cpu → Cpu
  int13 : Cpu → Cpu

/-- The processor, and what it has put on the screen. -/
structure Console where
  cpu : Cpu
  screen : List Byte

/-- How stage 1 ends. -/
inductive Ending
  /-- `jmp STAGE2_LOAD_SEGMENT:STAGE2_LOAD_OFFSET` -/
  | stage2 (t : Console)
  /-- `wait_key_and_reboot` -/
  | reboot (screen : List Byte)
  /-- A divide error, or `jmp floppy_error`. -/
  | stop (e : Stop) (screen : List Byte)

section Code

variable (bios : Bios) (df : Bool) (labels : Labels)

/-- `.loop` of `puts` -/
def putsLoop (t : Console) : Console ⊕ Console :=
  let s := lodsb df t.cpu
  -- `or al, al` and `jz .done`
  if s.reg8 .al = 0 then .inr ⟨s.flags true false, t.screen⟩
  else .inl ⟨bios.int10 ((s.flags false false).setReg8 .ah 0x0E), t.screen ++ [s.reg8 .al]⟩

/-- `puts` -/
def Puts (t u : Console) : Prop :=
  ∃ v, Returns (putsLoop bios df)
      ⟨{ t.cpu with stack := t.cpu.si :: t.cpu.ax :: t.cpu.stack }, t.screen⟩ v ∧
    run [.pop (.reg .si), .pop (.reg .ax)] v.cpu = some u.cpu ∧ v.screen = u.screen

/-- `main` up to the first call. The stack is set up, and the far return goes to the next line. -/
def setup (s : Cpu) : Except Stop Cpu := do
  let s ← block
    [.mov (.reg .ax) (.imm 0),
      .mov (.seg .ds) (.place (.reg .ax)),
      .mov (.seg .es) (.place (.reg .ax))] s
  let s := { s with stack := [] }
  let s := store8 .ds ebrDriveNumber .dl s
  block [.mov (.reg .si) (.imm labels.msgLoading)] s

/-- The drive parameters. -/
def driveParameters (s : Cpu) : Except Stop Cpu := do
  let s ← block [.push (.place (.seg .es)), .mov8 .ah (.imm 0x08)] s
  let s := bios.int13 s
  if s.cf then throw .floppyError
  let s ← block [.pop (.seg .es)] s
  let s := clear8 .ch (and8 .cl 0x3F s)
  let s ← block [.mov (.mem .ds none bdbSectorsPerTrack) (.place (.reg .cx))] s
  return store8 .ds bdbHeads .dh (inc8 .dh s)

/-- The root directory is read to the buffer, and the search begins. -/
def rootDirAfter (s : Cpu) : Except Stop Cpu := do
  let s ← block
    [.mov (.reg .ax) (.place (.mem .ds none bdbSectorsPerFat)),
      .mov8 .bl (.mem .ds bdbFatCount)] s
  let s := clear8 .bh s
  let s ← block
    [.mul (.place (.reg .bx)),
      .alu .add .ax (.place (.mem .ds none bdbReservedSectors)),
      .push (.place (.reg .ax)),
      .mov (.reg .ax) (.place (.mem .ds none bdbDirEntriesCount))] s
  let s := shl16 .ax 5 s
  let s ← block
    [.alu .xor .dx (.place (.reg .dx)),
      .div (.place (.mem .ds none bdbBytesPerSector)),
      .alu .test .dx (.place (.reg .dx))] s
  let s ← if s.zf then pure s else block [.inc .ax] s
  let s ← block
    [.mov8 .cl (.reg .al),
      .pop (.reg .ax),
      .mov8 .dl (.mem .ds ebrDriveNumber),
      .mov (.reg .bx) (.imm buffer)] s
  let s ← diskRead bios.int13 s
  block [.alu .xor .bx (.place (.reg .bx)), .mov (.reg .di) (.imm buffer)] s

/-- The lines behind `je .found_stage2`. -/
def nextEntry (s : Cpu) : Except Stop (Cpu ⊕ Cpu × Bool) := do
  let s ← block
    [.alu .add .di (.imm 32),
      .inc .bx,
      .alu .cmp .bx (.place (.mem .ds none bdbDirEntriesCount))] s
  -- `jl` takes the two as signed
  if s.bx.slt (loadWord s.mem s.ds bdbDirEntriesCount) then return .inl s
  return .inr (s, false)

/-- `.search_stage2`: the next round, or `true` at `.found_stage2` and `false` at the jump to
`stage2_not_found_error`. -/
def searchStage2 (s : Cpu) : Except Stop (Cpu ⊕ Cpu × Bool) := do
  let s ← block
    [.mov (.reg .si) (.imm labels.fileStage2Bin),
      .mov (.reg .cx) (.imm 11),
      .push (.place (.reg .di))] s
  let s := repeCmpsb df s
  let s ← block [.pop (.reg .di)] s
  if s.zf then return .inr (s, true)
  nextEntry s

/-- The body of the search, which leaves at an error as well. -/
def searchRound (s : Cpu) : Cpu ⊕ Except Stop (Cpu × Bool) :=
  match searchStage2 df labels s with
  | .ok (.inl s) => .inl s
  | .ok (.inr r) => .inr (.ok r)
  | .error e => .inr (.error e)

/-- Stage 1 from the end of the search on. -/
def AfterSearch (screen : List Byte) (r : Except Stop (Cpu × Bool)) (e : Ending) : Prop :=
  match r with
  | .error stop => e = .stop stop screen
  | .ok (s, false) =>
    ∃ u, Puts bios df ⟨{ s with si := labels.msgStage2NotFound }, screen⟩ u ∧ e = .reboot u.screen
  | .ok (s, true) =>
    match foundStage2 bios.int13 labels.stage2Cluster s with
    | .error stop => e = .stop stop screen
    | .ok s =>
      ∃ r, Returns (round (loadStage2 bios.int13 labels.stage2Cluster)) s r ∧ e = match r with
        | .error stop => .stop stop screen
        | .ok s => .stage2 ⟨s, screen⟩

/-- Stage 1 from the drive parameters on. -/
def AfterLoading (t : Console) (e : Ending) : Prop :=
  match driveParameters bios t.cpu >>= rootDirAfter bios with
  | .error stop => e = .stop stop t.screen
  | .ok s => ∃ r, Returns (searchRound df labels) s r ∧ AfterSearch bios df labels t.screen r e

/-- Stage 1 entered in the state `s` ends with `e`. -/
def Main (s : Cpu) (e : Ending) : Prop :=
  match setup labels s with
  | .error stop => e = .stop stop []
  | .ok s => ∃ t, Puts bios df ⟨s, []⟩ t ∧ AfterLoading bios df labels t e

end Code

/-! ## The BIOS and the floppy -/

/-- What `int 10h` leaves alone; from the boot sector up to `0x80000` the memory is not the
BIOS's. -/
structure Kept (s s' : Cpu) : Prop where
  ds : s'.ds = s.ds
  es : s'.es = s.es
  si : s'.si = s.si
  dx : s'.dx = s.dx
  stack : s'.stack = s.stack
  mem : ∀ a, 0x7C00 ≤ a → a < 0x80000 → s'.mem a = s.mem a

/-- What is asked of `int 10h` with 0x0E in `ah`. -/
def Types (int10 : Cpu → Cpu) : Prop := ∀ s : Cpu, s.reg8 .ah = 0x0E → Kept s (int10 s)

/-- The answer to a question for the drive parameters: the geometry of the floppy. -/
structure Described (s s' : Cpu) : Prop where
  cf : s'.cf = false
  sectors : lo s'.cx &&& 0x3F = 18
  heads : hi s'.dx = 1
  ds : s'.ds = s.ds
  stack : s'.stack = s.stack
  mem : ∀ a, 0x7C00 ≤ a → a < 0x80000 → s'.mem a = s.mem a

/-- What is asked of `int 13h` with 8 in `ah`. -/
def Describes (int13 : Cpu → Cpu) (drive : Byte) : Prop :=
  ∀ s : Cpu, s.reg8 .ah = 0x08 → s.reg8 .dl = drive → Described s (int13 s)

/-- The BIOS with a floppy. -/
structure Bios.Serves (bios : Bios) (drive : Byte) (image : List Byte) : Prop where
  types : Types bios.int10
  describes : Describes bios.int13 drive
  delivers : Delivers bios.int13 drive image

/-- A string with its end at address `a`. -/
def StringAt (m : Memory) : ℕ → List Byte → Prop
  | a, [] => m a = 0
  | a, b :: bs => m a = b ∧ b ≠ 0 ∧ StringAt m (a + 1) bs

instance (m : Memory) : ∀ (a : ℕ) (bs : List Byte), Decidable (StringAt m a bs)
  | _, [] => inferInstanceAs (Decidable (_ = _))
  | a, _ :: bs =>
    have := instDecidableStringAt m (a + 1) bs
    inferInstanceAs (Decidable (_ ∧ _ ∧ _))

/-- The first sector at its place in memory. -/
def loaded (image : List Byte) : Memory := fun a => image[a - 0x7C00]?.getD 0

/-- A string of `boot.asm`, behind the parameters. -/
structure Message (image : List Byte) (label : Word) (s : String) : Prop where
  behind : 0x7C25 ≤ label.toNat
  inside : label.toNat + (Fat.text s).length < 0x7E00
  string : StringAt (loaded image) label.toNat (Fat.text s)

/-- The floppy with stage 1 in its first sector. -/
structure Floppy (labels : Labels) (image : List Byte) : Prop where
  length : image.length = totalSectors * 512
  boot : Fat.readBootSector image = some bootSector
  headsHigh : loaded image 0x7C1B = 0
  loading : Message image labels.msgLoading "Loading\r\n"
  notFound : Message image labels.msgStage2NotFound "Stage 2 bootloader not found\r\n"
  nameBehind : 0x7C25 ≤ labels.fileStage2Bin.toNat
  nameInside : labels.fileStage2Bin.toNat + 11 ≤ 0x7E00
  name : (List.range 11).map (fun i => loaded image (labels.fileStage2Bin.toNat + i)) =
    Fat.text "STAGE2  BIN"
  cluster : InBootSector labels.stage2Cluster

/-- The state that the BIOS leaves to stage 1. -/
structure Entered (image : List Byte) (drive : Byte) (s : Cpu) : Prop where
  sector : ∀ a, 0x7C00 ≤ a → a < 0x7E00 → s.mem a = loaded image a
  drive : s.reg8 .dl = drive

/-! ## `puts` -/

section PutsSection

variable {bios : Bios} {t u : Console} {bs : List Byte}

theorem StringAt.congr {m m' : Memory} {a : ℕ} (h : StringAt m a bs)
    (hm : ∀ i, a ≤ i → i ≤ a + bs.length → m' i = m i) : StringAt m' a bs := by
  induction bs generalizing a with
  | nil => exact (hm a le_rfl (Nat.le_add_right _ _)).trans h
  | cons b bs ih =>
    obtain ⟨hfirst, hb, hrest⟩ := h
    rw [List.length_cons] at hm
    refine ⟨(hm a le_rfl (by omega)).trans hfirst, hb, ih hrest fun i hlo hhi => ?_⟩
    exact hm i (by omega) (by omega)

/-- What `puts` leaves alone. -/
structure Printed (bs : List Byte) (t u : Console) : Prop where
  screen : u.screen = t.screen ++ bs
  ds : u.cpu.ds = t.cpu.ds
  es : u.cpu.es = t.cpu.es
  dx : u.cpu.dx = t.cpu.dx
  stack : u.cpu.stack = t.cpu.stack
  mem : ∀ a, 0x7C00 ≤ a → a < 0x80000 → u.cpu.mem a = t.cpu.mem a

theorem putsLoop_returns (htypes : Types bios.int10) (hstr : StringAt t.cpu.mem
      (linear t.cpu.ds t.cpu.si) bs) (hsi : t.cpu.si.toNat + bs.length < 2 ^ 16)
    (hlo : 0x7C00 ≤ linear t.cpu.ds t.cpu.si)
    (hhi : linear t.cpu.ds t.cpu.si + bs.length < 0x80000) :
    ∃ u, Returns (putsLoop bios false) t u ∧ Printed bs t u := by
  induction bs generalizing t with
  | nil =>
    have hzero : t.cpu.mem (linear t.cpu.ds t.cpu.si) = 0 := hstr
    refine ⟨_, Returns.here (r := ⟨(lodsb false t.cpu).flags true false, t.screen⟩) ?_,
      (List.append_nil _).symm, rfl, rfl, rfl, rfl, fun _ _ _ => rfl⟩
    unfold putsLoop
    exact if_pos ((lo_append _ _).trans hzero)
  | cons b bs ih =>
    obtain ⟨hfirst, hb, hrest⟩ := hstr
    rw [List.length_cons] at hsi hhi
    have hal : (lodsb false t.cpu).reg8 .al = b := (lo_append _ _).trans hfirst
    generalize hv : ((lodsb false t.cpu).flags false false).setReg8 .ah 0x0E = v
    have hround : putsLoop bios false t = .inl ⟨bios.int10 v, t.screen ++ [b]⟩ := by
      unfold putsLoop
      dsimp only
      rw [hal, hv]
      exact if_neg hb
    have hkept : Kept v (bios.int10 v) := htypes v (by rw [← hv]; exact hi_append _ _)
    have hlin : linear (bios.int10 v).ds (bios.int10 v).si = linear t.cpu.ds t.cpu.si + 1 := by
      rw [hkept.ds, hkept.si, ← hv]
      exact linear_succ (by omega)
    have hmem : ∀ a, 0x7C00 ≤ a → a < 0x80000 → (bios.int10 v).mem a = t.cpu.mem a := by
      intro a ha ha'
      rw [hkept.mem a ha ha', ← hv]
      rfl
    have hnext : (bios.int10 v).si.toNat = t.cpu.si.toNat + 1 := by
      rw [hkept.si, ← hv]
      exact toNat_succ (by omega)
    obtain ⟨u, hret, hu⟩ := ih (t := ⟨bios.int10 v, t.screen ++ [b]⟩)
      (by
        dsimp only
        rw [hlin]
        exact hrest.congr fun i hi hi' => hmem i (by omega) (by omega))
      (by dsimp only; omega) (by dsimp only; omega) (by dsimp only; omega)
    refine ⟨u, Returns.next hround hret, ?_, hu.ds.trans ?_, hu.es.trans ?_, hu.dx.trans ?_,
      hu.stack.trans ?_, fun a ha ha' => (hu.mem a ha ha').trans (hmem a ha ha')⟩
    · rw [hu.screen, List.append_assoc]
      rfl
    · exact hkept.ds.trans (by rw [← hv]; rfl)
    · exact hkept.es.trans (by rw [← hv]; rfl)
    · exact hkept.dx.trans (by rw [← hv]; rfl)
    · exact hkept.stack.trans (by rw [← hv]; rfl)

/-- `puts` prints the string at `ds:si`, and there is no other way. -/
theorem puts_prints (htypes : Types bios.int10) (hstr : StringAt t.cpu.mem
      (linear t.cpu.ds t.cpu.si) bs) (hsi : t.cpu.si.toNat + bs.length < 2 ^ 16)
    (hlo : 0x7C00 ≤ linear t.cpu.ds t.cpu.si)
    (hhi : linear t.cpu.ds t.cpu.si + bs.length < 0x80000) :
    ∃ u, Printed bs t u ∧ ∀ u', Puts bios false t u' ↔ u' = u := by
  obtain ⟨v, hret, hv⟩ := putsLoop_returns
    (t := ⟨{ t.cpu with stack := t.cpu.si :: t.cpu.ax :: t.cpu.stack }, t.screen⟩)
    htypes hstr hsi hlo hhi
  have hpop : run [.pop (.reg .si), .pop (.reg .ax)] v.cpu =
      some { v.cpu with si := t.cpu.si, ax := t.cpu.ax, stack := t.cpu.stack } := by
    simp [hv.stack]
  refine ⟨⟨{ v.cpu with si := t.cpu.si, ax := t.cpu.ax, stack := t.cpu.stack }, v.screen⟩,
    ⟨hv.screen, hv.ds, hv.es, hv.dx, rfl, hv.mem⟩, fun u' => ⟨?_, ?_⟩⟩
  · rintro ⟨v', hret', hpop', hscreen⟩
    obtain rfl := hret'.unique hret
    obtain ⟨cpu, screen⟩ := u'
    obtain rfl := Option.some.inj (hpop.symm.trans hpop')
    obtain rfl : v'.screen = screen := hscreen
    rfl
  · rintro rfl
    exact ⟨v, hret, hpop, rfl⟩

end PutsSection

/-! ## Up to the search -/

/-- The memory once the geometry is stored: the parameters of the boot sector, and the rest of the
sector as it was. -/
structure Prepared (image : List Byte) (drive : Byte) (m : Memory) : Prop where
  boot : BootMemory drive m
  fatCount : m (linear 0 bdbFatCount) = 2
  dirEntries : loadWord m 0 bdbDirEntriesCount = 224
  sector : ∀ a, 0x7C25 ≤ a → a < 0x7E00 → m a = loaded image a

section Prepare

variable {bios : Bios} {labels : Labels} {drive : Byte} {image : List Byte} {s : Cpu}
  {m m' : Memory}

theorem Prepared.congr (h : Prepared image drive m)
    (hm : ∀ a, 0x7C00 ≤ a → a < 0x7E00 → m' a = m a) : Prepared image drive m' where
  boot := h.boot.congr fun a hlo hhi => hm a hlo (by omega)
  fatCount := (hm _ (by decide) (by decide)).trans h.fatCount
  dirEntries := by
    rw [← h.dirEntries]
    exact loadWord_congr (by decide) (hm _ (by decide) (by decide)) (hm _ (by decide) (by decide))
  sector a hlo hhi := (hm a (by omega) hhi).trans (h.sector a hlo hhi)

/-- The parameters of the boot sector, before the geometry is stored. -/
theorem Floppy.words (h : Floppy labels image) :
    loadWord (loaded image) 0 bdbBytesPerSector = 512 ∧
    loadWord (loaded image) 0 bdbReservedSectors = 1 ∧
    loadWord (loaded image) 0 bdbSectorsPerFat = 9 ∧
    loaded image (linear 0 bdbFatCount) = 2 ∧
    loadWord (loaded image) 0 bdbDirEntriesCount = 224 := by
  have hboot := h.boot
  unfold Fat.readBootSector at hboot
  split_ifs at hboot
  obtain ⟨hbytes, -, hreserved, hcount, hentries, hfat⟩ :=
    (Fat.BootSector.mk.injEq ..).mp (Option.some.inj hboot)
  exact ⟨hbytes, hreserved, hfat, hcount, hentries⟩

/-- The memory with the geometry stored over what the boot sector has. -/
def withGeometry (m : Memory) : Memory :=
  Function.update (storeWord m 0 bdbSectorsPerTrack 18) (linear 0 bdbHeads) 2

theorem withGeometry_of_ne {a : ℕ} (h18 : a ≠ 0x7C18) (h19 : a ≠ 0x7C19) (h1A : a ≠ 0x7C1A) :
    withGeometry m a = m a := by
  have hheads : a ≠ linear 0 bdbHeads := h1A
  unfold withGeometry
  rw [Function.update_of_ne hheads]
  exact storeWord_of_ne (by decide) h18 h19

theorem prepared_withGeometry (h : Floppy labels image)
    (hdrive : m (linear 0 ebrDriveNumber) = drive)
    (hrest : ∀ a, 0x7C00 ≤ a → a < 0x7E00 → a ≠ 0x7C24 → m a = loaded image a) :
    Prepared image drive (withGeometry m) := by
  obtain ⟨hbytes, hreserved, hfat, hcount, hentries⟩ := h.words
  have hsame : ∀ a, 0x7C00 ≤ a → a < 0x7E00 → a ≠ 0x7C18 → a ≠ 0x7C19 → a ≠ 0x7C1A → a ≠ 0x7C24 →
      withGeometry m a = loaded image a := fun a hlo hhi h18 h19 h1A h24 =>
    (withGeometry_of_ne h18 h19 h1A).trans (hrest a hlo hhi h24)
  have hword : ∀ off : Word, 0x7C00 ≤ off.toNat → off.toNat + 1 < 0x7C18 →
      loadWord (withGeometry m) 0 off = loadWord (loaded image) 0 off := by
    intro off hlo hhi
    apply loadWord_congr (by omega) <;>
    · rw [linear_zero]
      exact hsame _ (by omega) (by omega) (by omega) (by omega) (by omega) (by omega)
  have hspt : loadWord (withGeometry m) 0 bdbSectorsPerTrack = 18 := by
    have hstored : loadWord (storeWord m 0 bdbSectorsPerTrack 18) 0 bdbSectorsPerTrack = 18 :=
      loadWord_storeWord (by decide)
    exact (loadWord_congr (by decide) (Function.update_of_ne (by decide) ..)
      (Function.update_of_ne (by decide) ..)).trans hstored
  have hheads : loadWord (withGeometry m) 0 bdbHeads = 2 := by
    have hhigh : withGeometry m (linear 0 (bdbHeads + 1)) = 0 :=
      (hsame _ (by decide) (by decide) (by decide) (by decide) (by decide) (by decide)).trans
        h.headsHigh
    have hlow : withGeometry m (linear 0 bdbHeads) = 2 := Function.update_self ..
    unfold loadWord
    rw [hhigh, hlow]
    rfl
  refine ⟨⟨(hword _ (by decide) (by decide)).trans hbytes,
    (hword _ (by decide) (by decide)).trans hreserved,
    (hword _ (by decide) (by decide)).trans hfat, hspt, hheads,
    (withGeometry_of_ne (by decide) (by decide) (by decide)).trans hdrive⟩, ?_,
    (hword _ (by decide) (by decide)).trans hentries, fun a hlo hhi =>
      hsame a (by omega) hhi (by omega) (by omega) (by omega) (by omega)⟩
  exact (hsame _ (by decide) (by decide) (by decide) (by decide) (by decide) (by decide)).trans
    hcount

theorem Message.inMemory {label : Word} {str : String} (h : Message image label str)
    (hm : ∀ a, 0x7C25 ≤ a → a < 0x7E00 → m a = loaded image a) :
    StringAt m (linear 0 label) (Fat.text str) := by
  have hbehind := h.behind
  have hinside := h.inside
  rw [linear_zero]
  exact h.string.congr fun i hlo hhi => hm i (by omega) (by omega)

theorem Message.printed {label : Word} {str : String} {t : Console} (h : Message image label str)
    (htypes : Types bios.int10) (hds : t.cpu.ds = 0) (hsi : t.cpu.si = label)
    (hm : ∀ a, 0x7C25 ≤ a → a < 0x7E00 → t.cpu.mem a = loaded image a) :
    ∃ u, Printed (Fat.text str) t u ∧ ∀ u', Puts bios false t u' ↔ u' = u := by
  have hbehind := h.behind
  have hinside := h.inside
  have hstring := h.inMemory hm
  rw [← hsi, ← hds] at hstring
  have hlin : linear t.cpu.ds t.cpu.si = label.toNat := by
    rw [hds, hsi]
    exact linear_zero label
  refine puts_prints htypes hstring ?_ ?_ ?_
  · rw [hsi]
    omega
  · rw [hlin]
    omega
  · rw [hlin]
    omega

/-- The state in which the first message is printed. -/
theorem setup_eq (labels : Labels) (h : Entered image drive s) : ∃ t, setup labels s = .ok t ∧
    t.ds = 0 ∧ t.es = 0 ∧ t.si = labels.msgLoading ∧ lo t.dx = drive ∧
    t.mem = Function.update s.mem 0x7C24 drive := by
  have hblock : block
      [.mov (.reg .ax) (.imm 0),
        .mov (.seg .ds) (.place (.reg .ax)),
        .mov (.seg .es) (.place (.reg .ax))] s = .ok { s with ax := 0, ds := 0, es := 0 } :=
    block_of_run (by simp)
  refine ⟨{ s with
    ax := 0, ds := 0, es := 0, stack := [], si := labels.msgLoading
    mem := Function.update s.mem 0x7C24 (lo s.dx) }, ?_, rfl, rfl, rfl, h.drive, ?_⟩
  · unfold setup
    rw [hblock]
    show block [.mov (.reg .si) (.imm labels.msgLoading)] (store8 .ds ebrDriveNumber .dl
      { s with ax := 0, ds := 0, es := 0, stack := [] }) = _
    exact block_of_run (by simp [store8, linear, ebrDriveNumber])
  · rw [h.drive.symm]
    rfl

theorem driveParameters_prepared (hserves : bios.Serves drive image) (h : Floppy labels image)
    (hds : s.ds = 0) (hes : s.es = 0) (hdl : lo s.dx = drive)
    (hdrive : s.mem (linear 0 ebrDriveNumber) = drive)
    (hmem : ∀ a, 0x7C00 ≤ a → a < 0x7E00 → a ≠ 0x7C24 → s.mem a = loaded image a) :
    ∃ t, driveParameters bios s = .ok t ∧ t.ds = 0 ∧ t.es = 0 ∧ Prepared image drive t.mem := by
  generalize hu : ({ s with ax := 0x08#8 ++ lo s.ax, stack := s.es :: s.stack } : Cpu) = u
  have hblock : block [.push (.place (.seg .es)), .mov8 .ah (.imm 0x08)] s = .ok u := by
    rw [← hu]
    exact block_of_run (by simp)
  obtain ⟨hcf, hsectors, hheads, hds', hstack, hkeep⟩ := hserves.describes u
    (by rw [← hu]; exact hi_append _ _) (by rw [← hu]; exact hdl)
  generalize hw : ({ bios.int13 u with es := s.es, stack := s.stack } : Cpu) = w
  have hpop : block [.pop (.seg .es)] (bios.int13 u) = .ok w := by
    refine block_of_run ?_
    rw [run_pop, hstack, ← hw, ← hu]
    rfl
  -- the state at the store of the number of sectors
  generalize hv : clear8 .ch (and8 .cl 0x3F w) = v
  have hcx : v.cx = 18 := by
    rw [← hv, ← hw]
    show (0#8 ++ lo (hi (bios.int13 u).cx ++ (lo (bios.int13 u).cx &&& 0x3F)) : Word) = 18
    rw [lo_append, hsectors]
    rfl
  have hvds : v.ds = 0 := by
    rw [← hv, ← hw]
    exact hds'.trans (by rw [← hu]; exact hds)
  have hvdx : hi v.dx = 1 := by
    rw [← hv, ← hw]
    exact hheads
  have hves : v.es = 0 := by
    rw [← hv, ← hw]
    exact hes
  have hkept : ∀ a, 0x7C00 ≤ a → a < 0x7E00 → v.mem a = s.mem a := by
    intro a hlo hhi
    rw [← hv, ← hw]
    exact (hkeep a hlo (by omega)).trans (by rw [← hu])
  have hstore : block [.mov (.mem .ds none bdbSectorsPerTrack) (.place (.reg .cx))] v =
      .ok { v with mem := storeWord v.mem 0 bdbSectorsPerTrack 18 } := by
    refine block_of_run ?_
    rw [run_mov, run_nil, ← hcx, ← hvds]
    rfl
  refine ⟨store8 .ds bdbHeads .dh (inc8 .dh
    { v with mem := storeWord v.mem 0 bdbSectorsPerTrack 18 }), ?_, hvds, hves, ?_⟩
  · unfold driveParameters
    rw [hblock]
    simp only [bind, Except.bind, hcf, Bool.false_eq_true, if_false, hpop, hv, hstore]
    rfl
  · have hgeometry : (store8 .ds bdbHeads .dh (inc8 .dh
        { v with mem := storeWord v.mem 0 bdbSectorsPerTrack 18 })).mem = withGeometry v.mem := by
      show Function.update (storeWord v.mem 0 bdbSectorsPerTrack 18) (linear v.ds bdbHeads)
        (hi (hi v.dx + 1 ++ lo v.dx)) = _
      rw [hvds, hi_append, hvdx]
      rfl
    rw [hgeometry]
    refine prepared_withGeometry h ?_ fun a hlo hhi h24 => ?_
    · rw [hkept _ (by decide) (by decide), hdrive]
    · rw [hkept a hlo hhi, hmem a hlo hhi h24]

/-- The root directory begins with sector 19 and has 14 sectors. -/
theorem rootDirAfter_sectors (bios : Bios) (hds : s.ds = 0) (h : Prepared image drive s.mem) :
    ∃ w, rootDirAfter bios s = diskRead bios.int13 w >>= block
        [.alu .xor .bx (.place (.reg .bx)), .mov (.reg .di) (.imm buffer)] ∧
      w.ds = 0 ∧ w.es = s.es ∧ w.mem = s.mem ∧ w.ax = 19 ∧ lo w.cx = 14 ∧ lo w.dx = drive ∧
      w.bx = buffer := by
  have hfat := h.boot.sectorsPerFat
  have hcount := h.fatCount
  have hreserved := h.boot.reservedSectors
  have hentries := h.dirEntries
  have hbytes := h.boot.bytesPerSector
  have hdrive := h.boot.drive
  simp only [BitVec.ofNat_eq_ofNat] at hds hfat hcount hreserved hentries hbytes hdrive ⊢
  have hread : block
      [.mov (.reg .ax) (.place (.mem .ds none bdbSectorsPerFat)),
        .mov8 .bl (.mem .ds bdbFatCount)] s = .ok { s with ax := 9#16, bx := hi s.bx ++ 2#8 } :=
    block_of_run (by simp [hds, hfat, hcount])
  have hclear : clear8 .bh { s with ax := 9#16, bx := hi s.bx ++ 2#8 } =
      { s with ax := 9#16, bx := 2#16, zf := true, cf := false } := by
    simp [clear8]
  have hlba : block
      [.mul (.place (.reg .bx)),
        .alu .add .ax (.place (.mem .ds none bdbReservedSectors)),
        .push (.place (.reg .ax)),
        .mov (.reg .ax) (.place (.mem .ds none bdbDirEntriesCount))]
      { s with ax := 9#16, bx := 2#16, zf := true, cf := false } = .ok { s with
        ax := 224#16, bx := 2#16, dx := 0#16, zf := false, cf := false
        stack := 19#16 :: s.stack } :=
    block_of_run (by simp [hds, hreserved, hentries])
  have hshl : shl16 .ax 5 { s with
      ax := 224#16, bx := 2#16, dx := 0#16, zf := false, cf := false, stack := 19#16 :: s.stack } =
      { s with
        ax := 7168#16, bx := 2#16, dx := 0#16, zf := false, cf := false
        stack := 19#16 :: s.stack } := by
    simp [shl16]
  have hsize : block
      [.alu .xor .dx (.place (.reg .dx)),
        .div (.place (.mem .ds none bdbBytesPerSector)),
        .alu .test .dx (.place (.reg .dx))]
      { s with
        ax := 7168#16, bx := 2#16, dx := 0#16, zf := false, cf := false
        stack := 19#16 :: s.stack } = .ok { s with
        ax := 14#16, bx := 2#16, dx := 0#16, zf := true, cf := false
        stack := 19#16 :: s.stack } :=
    block_of_run (by simp [hds, hbytes])
  have hlast : block
      [.mov8 .cl (.reg .al),
        .pop (.reg .ax),
        .mov8 .dl (.mem .ds ebrDriveNumber),
        .mov (.reg .bx) (.imm buffer)]
      { s with
        ax := 14#16, bx := 2#16, dx := 0#16, zf := true, cf := false
        stack := 19#16 :: s.stack } = .ok { s with
        ax := 19#16, bx := buffer, cx := hi s.cx ++ lo 14#16, dx := hi 0#16 ++ drive, zf := true
        cf := false } :=
    block_of_run (by simp [hds, hdrive])
  refine ⟨{ s with
    ax := 19#16, bx := buffer, cx := hi s.cx ++ lo 14#16, dx := hi 0#16 ++ drive, zf := true
    cf := false }, ?_, hds, rfl, rfl, rfl, lo_append _ _, lo_append _ _, rfl⟩
  unfold rootDirAfter
  rw [hread]
  simp only [bind, Except.bind, hclear, hlba, hshl, hsize, if_true, hlast, pure, Except.pure]

theorem rootDirAfter_directory (hserves : bios.Serves drive image) (hds : s.ds = 0)
    (hes : s.es = 0) (h : Prepared image drive s.mem) : ∃ t, rootDirAfter bios s = .ok t ∧
      t.ds = 0 ∧ t.es = 0 ∧ t.bx = 0 ∧ t.di = buffer ∧ Prepared image drive t.mem ∧
      ∀ i < 32 * 224, t.mem (0x7E00 + i) = Fat.imageDirectory bootSector image i := by
  obtain ⟨w, hread, hwds, hwes, hwmem, hwax, hwcx, hwdx, hwbx⟩ :=
    rootDirAfter_sectors bios hds h
  rw [hes] at hwes
  have hlba : w.ax.toNat = 19 := congrArg BitVec.toNat hwax
  have hcount : (lo w.cx).toNat = 14 := congrArg BitVec.toNat hwcx
  obtain ⟨t, ht, hdel, -⟩ := diskRead_delivers hserves.delivers (hwmem ▸ h.boot) hwds hlba hcount
    (by decide) hwdx (by decide) (by decide) (by rw [hwbx]; decide)
  have hlin : linear w.es w.bx = 0x7E00 := by
    rw [hwes, hwbx]
    rfl
  obtain ⟨-, htds, htes, -, hdata, hrest⟩ := hdel
  rw [hlin] at hdata hrest
  refine ⟨{ t with bx := 0, di := buffer, zf := true, cf := false }, ?_, htds.trans hwds,
    htes.trans hwes, rfl, rfl, h.congr fun a hlo hhi => ?_, fun i hi => ?_⟩
  · rw [hread, ht]
    show block [.alu .xor .bx (.place (.reg .bx)), .mov (.reg .di) (.imm buffer)] t = _
    exact block_of_run (by simp)
  · rw [← hwmem]
    exact hrest a hlo (by omega) (by omega)
  · exact hdata i (by omega)

end Prepare

/-! ## The search -/

/-- The head of the round for entry `i`. -/
structure Searching (m : Memory) (i : ℕ) (s : Cpu) : Prop where
  ds : s.ds = 0
  es : s.es = 0
  mem : s.mem = m
  bx : s.bx.toNat = i
  di : s.di.toNat = 0x7E00 + 32 * i

/-- The memory that is searched: a name, and a directory in the buffer. -/
structure Directory (labels : Labels) (name : List Byte) (dir m : Memory) : Prop where
  name : (List.range 11).map (fun j => m (labels.fileStage2Bin.toNat + j)) = name
  inside : labels.fileStage2Bin.toNat + 11 ≤ 0x7E00
  entries : loadWord m 0 bdbDirEntriesCount = 224
  dir : ∀ k < 32 * 224, m (0x7E00 + k) = dir k

section Search

variable {labels : Labels} {name : List Byte} {dir m : Memory} {i : ℕ} {s : Cpu}

theorem Directory.sameBytes (h : Directory labels name dir m) (hi : i < 224) :
    SameBytes m labels.fileStage2Bin.toNat (0x7E00 + 32 * i) 11 ↔ name = Fat.nameAt dir i := by
  rw [← h.name]
  unfold Fat.nameAt SameBytes
  rw [List.map_inj_left]
  simp only [List.mem_range]
  refine forall₂_congr fun j hj => ?_
  rw [Nat.add_assoc, h.dir (32 * i + j) (by omega)]

theorem searchStage2_compare (h : Directory labels name dir m) (hs : Searching m i s)
    (hi : i < 224) : ∃ t, Searching m i t ∧ t.zf = decide (name = Fat.nameAt dir i) ∧
      searchStage2 false labels s =
        if t.zf then .ok (.inr (t, true)) else nextEntry t := by
  have hinside := h.inside
  have hdi := hs.di
  generalize hu : ({ s with
    si := labels.fileStage2Bin, cx := 11, stack := s.di :: s.stack } : Cpu) = u
  have hblock : block
      [.mov (.reg .si) (.imm labels.fileStage2Bin),
        .mov (.reg .cx) (.imm 11),
        .push (.place (.reg .di))] s = .ok u := by
    rw [← hu]
    exact block_of_run (by simp)
  obtain ⟨cx, si, di, cf, hcmp⟩ := repeCmpsb_spec (n := 11) (s := u) (by rw [← hu]; rfl)
    (by decide) (by rw [← hu]; dsimp only; omega) (by rw [← hu]; dsimp only; omega)
  have hpop : block [.pop (.reg .di)] (repeCmpsb false u) = .ok { u with
      cx := cx, si := si, di := s.di, cf := cf, stack := s.stack
      zf := decide (SameBytes u.mem (linear u.ds u.si) (linear u.es u.di) 11) } := by
    rw [hcmp, ← hu]
    exact block_of_run (by simp)
  have hzf : SameBytes u.mem (linear u.ds u.si) (linear u.es u.di) 11 ↔
      name = Fat.nameAt dir i := by
    rw [← h.sameBytes hi, ← hu]
    dsimp only
    rw [hs.mem, hs.ds, hs.es, linear_zero, linear_zero, hdi]
  rw [decide_eq_decide.mpr hzf] at hpop
  generalize hv : ({ u with
    cx := cx, si := si, di := s.di, cf := cf, stack := s.stack
    zf := decide (name = Fat.nameAt dir i) } : Cpu) = v at hpop
  refine ⟨v, ?_, by rw [← hv], ?_⟩
  · rw [← hv, ← hu]
    exact ⟨hs.ds, hs.es, hs.mem, hs.bx, hs.di⟩
  · unfold searchStage2
    rw [hblock]
    simp only [bind, Except.bind, hpop]
    rfl

theorem nextEntry_eq (h : Directory labels name dir m) (hs : Searching m i s) (hi : i < 224) :
    ∃ t, t.ds = 0 ∧ t.mem = m ∧ if i + 1 < 224 then
        nextEntry s = .ok (.inl t) ∧ Searching m (i + 1) t
      else nextEntry s = .ok (.inr (t, false)) := by
  have hbx := hs.bx
  have hdi := hs.di
  have hbx' : (s.bx + 1).toNat = i + 1 := by
    rw [toNat_succ (by omega), hbx]
  have hdi' : (s.di + 32).toNat = 0x7E00 + 32 * (i + 1) := by
    rw [BitVec.toNat_add, hdi]
    show (0x7E00 + 32 * i + 32) % 2 ^ 16 = _
    omega
  obtain ⟨zf, cf, hblock⟩ : ∃ zf cf, block
      [.alu .add .di (.imm 32),
        .inc .bx,
        .alu .cmp .bx (.place (.mem .ds none bdbDirEntriesCount))] s =
      .ok { s with di := s.di + 32, bx := s.bx + 1, zf := zf, cf := cf } :=
    ⟨_, _, block_of_run (by simp; exact ⟨rfl, rfl⟩)⟩
  have hslt : (s.bx + 1).slt (loadWord s.mem s.ds bdbDirEntriesCount) = decide (i + 1 < 224) := by
    have hcount : (224 : Word).toInt = 224 := rfl
    rw [hs.ds, hs.mem, h.entries, BitVec.slt_eq_decide, hcount,
      BitVec.toInt_eq_toNat_of_lt (by omega), hbx']
    exact decide_eq_decide.mpr (by omega)
  refine ⟨{ s with di := s.di + 32, bx := s.bx + 1, zf := zf, cf := cf }, hs.ds, hs.mem, ?_⟩
  unfold nextEntry
  rw [hblock]
  simp only [bind, Except.bind, hslt, decide_eq_true_eq]
  split_ifs
  · exact ⟨rfl, hs.ds, hs.es, hs.mem, hbx', hdi'⟩
  · rfl

/-- Where the search has come to, when the directory has `entry` for the name. -/
def Outcome (m : Memory) (t : Cpu) (found : Bool) : Option Fat.DirectoryEntry → Prop
  | none => found = false
  | some entry => found = true ∧ t.es = 0 ∧ loadWord m 0 (t.di + 26) = entry.firstClusterLow

theorem Directory.firstCluster (h : Directory labels name dir m) (hs : Searching m i s)
    (hi : i < 224) : loadWord m 0 (s.di + 26) = (Fat.entryAt dir i).firstClusterLow := by
  have hoff : (s.di + 26).toNat = 0x7E00 + (32 * i + 26) := by
    rw [BitVec.toNat_add, hs.di]
    show (0x7E00 + 32 * i + 26) % 2 ^ 16 = _
    omega
  have hlt : (s.di + 26).toNat + 1 < 2 ^ 16 := by omega
  rw [loadWord_eq hlt, linear_zero, hoff, Nat.add_assoc, h.dir _ (by omega), h.dir _ (by omega)]
  rfl

theorem search_found (h : Directory labels name dir m) (hs : Searching m i s) (hi : i < 224)
    (hname : name = Fat.nameAt dir i) : ∃ t, searchRound false labels s = .inr (.ok (t, true)) ∧
      t.ds = 0 ∧ t.mem = m ∧ Outcome m t true (some (Fat.entryAt dir i)) := by
  obtain ⟨t, ht, hzf, hsearch⟩ := searchStage2_compare h hs hi
  rw [hzf, decide_eq_true hname, if_pos rfl] at hsearch
  refine ⟨t, ?_, ht.ds, ht.mem, rfl, ht.es, h.firstCluster ht hi⟩
  unfold searchRound
  rw [hsearch]

theorem search_next (h : Directory labels name dir m) (hs : Searching m i s) (hi : i < 224)
    (hname : name ≠ Fat.nameAt dir i) : ∃ t, t.ds = 0 ∧ t.mem = m ∧ if i + 1 < 224 then
        searchRound false labels s = .inl t ∧ Searching m (i + 1) t
      else searchRound false labels s = .inr (.ok (t, false)) := by
  obtain ⟨u, hu, hzf, hsearch⟩ := searchStage2_compare h hs hi
  obtain ⟨t, hds, hmem, hnext⟩ := nextEntry_eq h hu hi
  rw [hzf, decide_eq_false hname, if_neg Bool.false_ne_true] at hsearch
  refine ⟨t, hds, hmem, ?_⟩
  unfold searchRound
  rw [hsearch]
  split_ifs at hnext ⊢
  · rw [hnext.1]
    exact ⟨rfl, hnext.2⟩
  · rw [hnext]

/-- **The search** comes to the entry that `findFile` comes to, or past the last one. -/
theorem search_returns (h : Directory labels name dir m) (n : ℕ) (hs : Searching m i s)
    (hn : i + (n + 1) = 224) : ∃ t found, Returns (searchRound false labels) s (.ok (t, found)) ∧
      t.ds = 0 ∧ t.mem = m ∧ Outcome m t found (Fat.findLoop dir name (n + 1) i) := by
  induction n generalizing i s with
  | zero =>
    unfold Fat.findLoop
    split_ifs with hname
    · obtain ⟨t, hround, hds, hmem, hout⟩ := search_found h hs (by omega) hname
      exact ⟨t, true, Returns.here hround, hds, hmem, hout⟩
    · obtain ⟨t, hds, hmem, hround⟩ := search_next h hs (by omega) hname
      rw [if_neg (by omega)] at hround
      exact ⟨t, false, Returns.here hround, hds, hmem, rfl⟩
  | succ n ih =>
    unfold Fat.findLoop
    split_ifs with hname
    · obtain ⟨t, hround, hds, hmem, hout⟩ := search_found h hs (by omega) hname
      exact ⟨t, true, Returns.here hround, hds, hmem, hout⟩
    · obtain ⟨t, -, -, hround⟩ := search_next h hs (by omega) hname
      rw [if_pos (by omega)] at hround
      obtain ⟨u, found, hret, hds, hmem, hout⟩ := ih hround.2 (by omega)
      exact ⟨u, found, Returns.next hround.1 hret, hds, hmem, hout⟩

end Search

/-! ## The jump to stage 2 -/

section Jump

variable {int13 : Cpu → Cpu} {stage2Cluster c : Word} {cs : List Word} {drive : Byte}
  {image : List Byte} {s r t : Cpu}

/-- The registers at the jump to stage 2. -/
structure AtJump (drive : Byte) (s : Cpu) : Prop where
  ds : s.ds = stage2LoadSegment
  es : s.es = stage2LoadSegment
  drive : s.reg8 .dl = drive

theorem nextClusterAfter_jump (hdrive : s.mem (linear s.ds ebrDriveNumber) = drive)
    (h : nextClusterAfter stage2Cluster s = .ok (.inr t)) : AtJump drive t := by
  have hcmp : block [.alu .cmp .ax (.imm 0x0FF8)] s =
      .ok (s.flags (s.ax = 0xFF8) (s.ax < 0xFF8)) := rfl
  unfold nextClusterAfter at h
  rw [hcmp] at h
  by_cases hlt : s.ax < 0xFF8
  · rw [decide_eq_true hlt] at h
    cases h
  · rw [decide_eq_false hlt] at h
    obtain rfl := Sum.inr.inj (Except.ok.inj h)
    exact ⟨rfl, rfl, (lo_append _ _).trans hdrive⟩

theorem round_eq_ok {f : Cpu → Except Stop (Cpu ⊕ Cpu)} (h : round f s = .inr (.ok r)) :
    f s = .ok (.inr r) := by
  unfold round at h
  split at h
  · cases h
  · rename_i u hu
    rw [hu, Except.ok.inj (Sum.inr.inj h)]
  · cases h

/-- However many rounds it takes, the loop leaves for stage 2. -/
theorem loop_jump (hd : Delivers int13 drive image) (hp : InBootSector stage2Cluster)
    (h : Head stage2Cluster drive image s c) (hfit : ∀ x ∈ c :: cs, x.toNat + 32 ≤ totalSectors)
    (hlink : Fat.Linked (Fat.imageFat bootSector image) c cs)
    (hret : Returns (round (loadStage2 int13 stage2Cluster)) s (.ok r)) : AtJump drive r := by
  induction cs generalizing c s with
  | nil =>
    obtain ⟨t, -, hround⟩ := round_last hd hp h (hfit c List.mem_cons_self) hlink
    obtain ⟨v, hentry, -, hv, -⟩ := loadStage2_entry hd hp h (hfit c List.mem_cons_self)
    obtain rfl := Except.ok.inj (hret.unique (Returns.here hround))
    have hlast := hentry.symm.trans (round_eq_ok hround)
    exact nextClusterAfter_jump (hv.ds ▸ hv.boot.drive) hlast
  | cons c' cs ih =>
    obtain ⟨t, -, hround, hhead⟩ := round_next hd hp h hfit hlink.1
    exact ih hhead (fun x hx => hfit x (List.mem_cons_of_mem _ hx)) hlink.2 (hret.tail hround)

end Jump

/-! ## Stage 1 -/

section Main

variable {bios : Bios} {labels : Labels} {drive : Byte} {image : List Byte} {s : Cpu}

theorem Floppy.directory (h : Floppy labels image) {m : Memory} (hm : Prepared image drive m)
    (hdir : ∀ i < 32 * 224, m (0x7E00 + i) = Fat.imageDirectory bootSector image i) :
    Directory labels (Fat.text "STAGE2  BIN") (Fat.imageDirectory bootSector image) m where
  name := by
    have hbehind := h.nameBehind
    have hinside := h.nameInside
    rw [← h.name]
    refine List.map_congr_left fun j hj => hm.sector _ (by omega) ?_
    have hj := List.mem_range.mp hj
    omega
  inside := h.nameInside
  entries := hm.dirEntries
  dir := hdir

theorem lookup_eq (image name : List Byte) : Fat.lookup bootSector image name =
    Fat.findLoop (Fat.imageDirectory bootSector image) name 224 0 := by
  rw [Fat.findLoop_eq, ← List.range_eq_range']
  rfl

/-- Up to the end of the search. -/
theorem main_search (hserves : bios.Serves drive image) (h : Floppy labels image)
    (hs : Entered image drive s) : ∃ t found, t.ds = 0 ∧ Prepared image drive t.mem ∧
      Outcome t.mem t found (Fat.lookup bootSector image (Fat.text "STAGE2  BIN")) ∧
      ∀ e, Main bios false labels s e ↔
        AfterSearch bios false labels (Fat.text "Loading\r\n") (.ok (t, found)) e := by
  obtain ⟨a, ha, hads, haes, hasi, hadx, hamem⟩ := setup_eq labels hs
  have hsector : ∀ i, 0x7C00 ≤ i → i < 0x7E00 → i ≠ 0x7C24 → a.mem i = loaded image i := by
    intro i hlo hhi h24
    rw [hamem, Function.update_of_ne h24]
    exact hs.sector i hlo hhi
  obtain ⟨b, hb, hputs⟩ := h.loading.printed (t := ⟨a, []⟩) hserves.types hads hasi
    fun i hlo hhi => hsector i (by omega) hhi (by omega)
  have hdrive : b.cpu.mem (linear 0 ebrDriveNumber) = drive := by
    rw [hb.mem _ (by decide) (by decide)]
    show a.mem (linear 0 ebrDriveNumber) = drive
    rw [hamem]
    exact Function.update_self ..
  obtain ⟨c, hc, hcds, hces, hcmem⟩ := driveParameters_prepared hserves h (hb.ds.trans hads)
    (hb.es.trans haes) ((congrArg lo hb.dx).trans hadx) hdrive fun i hlo hhi h24 =>
      (hb.mem i hlo (by omega)).trans (hsector i hlo hhi h24)
  obtain ⟨d, hd, hdds, hdes, hdbx, hddi, hdmem, hdir⟩ :=
    rootDirAfter_directory hserves hcds hces hcmem
  have hsearching : Searching d.mem 0 d :=
    ⟨hdds, hdes, rfl, congrArg BitVec.toNat hdbx, congrArg BitVec.toNat hddi⟩
  obtain ⟨t, found, hret, htds, htmem, hout⟩ :=
    search_returns (h.directory hdmem hdir) 223 hsearching rfl
  rw [← lookup_eq] at hout
  refine ⟨t, found, htds, htmem ▸ hdmem, htmem.symm ▸ hout, fun e => ?_⟩
  have hscreen : b.screen = Fat.text "Loading\r\n" := hb.screen
  have hafter : ∀ e, AfterLoading bios false labels b e ↔
      AfterSearch bios false labels (Fat.text "Loading\r\n") (.ok (t, found)) e := by
    intro e
    unfold AfterLoading
    rw [hc]
    simp only [bind, Except.bind, hd, hscreen]
    constructor
    · rintro ⟨r, hr, he⟩
      rwa [hr.unique hret] at he
    · exact fun he => ⟨_, hret, he⟩
  unfold Main
  rw [ha]
  simp only [hputs, exists_eq_left, hafter]

theorem notFound_ends (hserves : bios.Serves drive image) (h : Floppy labels image)
    (hds : s.ds = 0) (hm : Prepared image drive s.mem) (screen : List Byte) (e : Ending) :
    AfterSearch bios false labels screen (.ok (s, false)) e ↔
      e = .reboot (screen ++ Fat.text "Stage 2 bootloader not found\r\n") := by
  obtain ⟨u, hu, hputs⟩ := h.notFound.printed
    (t := ⟨{ s with si := labels.msgStage2NotFound }, screen⟩) hserves.types hds rfl hm.sector
  have hscreen : u.screen = screen ++ Fat.text "Stage 2 bootloader not found\r\n" := hu.screen
  unfold AfterSearch
  simp only [hputs, exists_eq_left, hscreen]

theorem map_range_flatMap {α β : Type*} (f : ℕ → β) (g : α → List β) (k : ℕ) (l : List α)
    (h : ∀ i (hi : i < l.length), (List.range k).map (fun j => f (k * i + j)) = g l[i]) :
    (List.range (k * l.length)).map f = l.flatMap g := by
  induction l generalizing f with
  | nil => rfl
  | cons a l ih =>
    have hfirst := h 0 (Nat.succ_pos _)
    simp only [Nat.mul_zero, Nat.zero_add] at hfirst
    have hrest := ih (fun i => f (k + i)) fun i hi => by
      have hnext := h (i + 1) (Nat.succ_lt_succ hi)
      simp only [List.getElem_cons_succ, Nat.mul_succ] at hnext
      rw [← hnext]
      refine List.map_congr_left fun j _ => ?_
      rw [← Nat.add_assoc, Nat.add_comm k]
    rw [List.length_cons, Nat.mul_succ, Nat.add_comm, List.range_add, List.map_append,
      List.map_map, List.flatMap_cons, ← hrest]
    exact congrArg₂ _ hfirst rfl

/-- The file is at `STAGE2_LOAD_SEGMENT` when stage 2 is entered. -/
theorem found_ends (hserves : bios.Serves drive image) (h : Floppy labels image)
    {entry : Fat.DirectoryEntry} {cs : List Word}
    (hs : Found drive entry.firstClusterLow s)
    (hchain : Fat.ValidChain bootSector image (Fat.imageFat bootSector image)
      entry.firstClusterLow cs) (hfit : cs.length + 1 ≤ 128) (screen : List Byte) :
    ∃ r, AtJump drive r ∧ (List.range (Fat.contents bootSector image entry cs).length).map
        (fun i => r.mem (0x20000 + i)) = Fat.contents bootSector image entry cs ∧
      ∀ e, AfterSearch bios false labels screen (.ok (s, true)) e ↔ e = .stage2 ⟨r, screen⟩ := by
  obtain ⟨t, r, hfound, hret, -, -, hplaces⟩ :=
    loader_returns h.cluster h.length hserves.delivers hchain hs
  obtain ⟨t', hfound', hhead, -⟩ := foundStage2_head hserves.delivers h.cluster hs
  obtain rfl := Except.ok.inj (hfound.symm.trans hfound')
  have hsectors : ∀ x ∈ entry.firstClusterLow :: cs, x.toNat + 32 ≤ totalSectors := fun x hx =>
    fit_of_inside h.length (hchain.data x hx) (hchain.inside x hx)
  refine ⟨r, loop_jump hserves.delivers h.cluster hhead hsectors hchain.linked hret, ?_, ?_⟩
  · have hbytes := map_range_flatMap (fun i => r.mem (0x20000 + i))
      (fun x => Fat.clusterBytes bootSector image x.toNat) 512 (entry.firstClusterLow :: cs)
      fun i hi => by
        rw [← hplaces hfit i hi]
        refine List.map_congr_left fun j _ => ?_
        rw [Nat.add_assoc]
    unfold Fat.contents
    rw [← hbytes, ← List.map_take, List.take_range, List.length_map, List.length_range]
  · intro e
    unfold AfterSearch
    simp only [hfound]
    constructor
    · rintro ⟨r', hret', rfl⟩
      rw [← hret.unique hret']
    · rintro rfl
      exact ⟨_, hret, rfl⟩

end Main

/-- **Stage 1.** On a floppy with stage 1 in its first sector, with a BIOS that reads it and the
direction flag clear. Without an entry `STAGE2  BIN` in the root directory stage 1 says so and
reboots. When the first such entry is a file of 128 clusters at most, stage 1 ends at the jump to
stage 2 in no other way, with the segment registers and the drive set and at `STAGE2_LOAD_SEGMENT`
the bytes of the file that its clusters have. -/
theorem main_boots {bios : Bios} {labels : Labels} {drive : Byte} {image : List Byte} {s : Cpu}
    (hserves : bios.Serves drive image) (h : Floppy labels image) (hs : Entered image drive s) :
    (Fat.lookup bootSector image (Fat.text "STAGE2  BIN") = none → ∀ e,
      Main bios false labels s e ↔
        e = .reboot (Fat.text "Loading\r\n" ++ Fat.text "Stage 2 bootloader not found\r\n")) ∧
    ∀ entry cs, Fat.lookup bootSector image (Fat.text "STAGE2  BIN") = some entry →
      Fat.ValidChain bootSector image (Fat.imageFat bootSector image) entry.firstClusterLow cs →
      cs.length + 1 ≤ 128 →
      ∃ r, AtJump drive r ∧ (List.range (Fat.contents bootSector image entry cs).length).map
          (fun i => r.mem (0x20000 + i)) = Fat.contents bootSector image entry cs ∧
        ∀ e, Main bios false labels s e ↔ e = .stage2 ⟨r, Fat.text "Loading\r\n"⟩ := by
  obtain ⟨t, found, hds, hmem, hout, hmain⟩ := main_search hserves h hs
  constructor
  · intro hnone e
    rw [hnone] at hout
    obtain rfl : found = false := hout
    rw [hmain, notFound_ends hserves h hds hmem]
  · intro entry cs hsome hchain hfit
    rw [hsome] at hout
    obtain ⟨rfl, hes, hfirst⟩ := hout
    obtain ⟨r, hjump, hbytes, hend⟩ := found_ends hserves h ⟨hds, hes, hmem.boot, hfirst⟩ hchain
      hfit (Fat.text "Loading\r\n")
    exact ⟨r, hjump, hbytes, fun e => (hmain e).trans (hend e)⟩

/-! ### A floppy with stage 1 -/

/-- The first sector: the parameters, the two messages and the name. -/
def stage1Sector : List Byte :=
  bootBytes ++ (Fat.text "Loading\r\n" ++ [0]) ++
    (Fat.text "Stage 2 bootloader not found\r\n" ++ [0]) ++ Fat.text "STAGE2  BIN"

def stage1Labels : Labels := ⟨0x7C25, 0x7C2F, 0x7C4E, 0x7DD0⟩

/-- A byte of the floppy, on which stage 2 has three clusters. -/
def stage1Byte (a : ℕ) : Byte := if a < 512 then stage1Sector[a]?.getD 0 else floppyByte 2 a

def stage1Image : List Byte := (List.range (totalSectors * 512)).map stage1Byte

def stage1Bios (image : List Byte) : Bios where
  int10 := id
  int13 s :=
    if s.reg8 .ah = 0x08 then { s with cx := 0x4F12, dx := 0x0101, cf := false }
    else floppyBios image s

/-- The state after the BIOS has loaded the first sector. -/
def stage1Cpu : Cpu where
  ax := 0
  bx := 0
  cx := 0
  dx := 0
  si := 0
  di := 0
  bp := 0
  ds := 0
  es := 0
  fs := 0
  zf := false
  cf := false
  stack := []
  mem a := if 0x7C00 ≤ a ∧ a < 0x7E00 then stage1Byte (a - 0x7C00) else 0

theorem stage1Bios_serves (image : List Byte) : (stage1Bios image).Serves 0 image where
  types _ _ := ⟨rfl, rfl, rfl, rfl, rfl, fun _ _ _ => rfl⟩
  describes s hah _ := by
    have hint : (stage1Bios image).int13 s = { s with cx := 0x4F12, dx := 0x0101, cf := false } :=
      if_pos hah
    have hsectors : lo (0x4F12 : Word) &&& 0x3F = 18 := by decide
    have hheads : hi (0x0101 : Word) = 1 := by decide
    rw [hint]
    exact ⟨rfl, hsectors, hheads, rfl, rfl, fun _ _ _ => rfl⟩
  delivers s lba hah := by
    have hint : (stage1Bios image).int13 s = floppyBios image s :=
      if_neg (by rw [hah]; decide)
    rw [hint]
    exact floppyBios_delivers 0 image s lba hah

theorem bootSectorAt_congr {m m' : Memory} (h : ∀ i < 62, m i = m' i) :
    Fat.bootSectorAt m = Fat.bootSectorAt m' := by
  unfold Fat.bootSectorAt Fat.load16
  rw [h 11 (by decide), h (11 + 1) (by decide), h 13 (by decide), h 14 (by decide),
    h (14 + 1) (by decide), h 16 (by decide), h 17 (by decide), h (17 + 1) (by decide),
    h 22 (by decide), h (22 + 1) (by decide)]

section Stage1Floppy

variable {image : List Byte} (hlen : image.length = totalSectors * 512)
  (hbyte : ∀ a < totalSectors * 512, image[a]?.getD 0 = stage1Byte a)

include hbyte

theorem stage1_loaded {a : ℕ} (hlo : 0x7C00 ≤ a) (hhi : a < 0x7E00) :
    loaded image a = stage1Byte (a - 0x7C00) :=
  hbyte _ (by unfold totalSectors; omega)

theorem stage1_message {label : Word} {str : String} (hlo : 0x7C25 ≤ label.toNat)
    (hhi : label.toNat + (Fat.text str).length < 0x7E00)
    (hstr : StringAt (fun a => stage1Byte (a - 0x7C00)) label.toNat (Fat.text str)) :
    Message image label str where
  behind := hlo
  inside := hhi
  string := hstr.congr fun i hi hi' => stage1_loaded hbyte (by omega) (by omega)

theorem stage1_lookup : Fat.lookup bootSector image (Fat.text "STAGE2  BIN") =
    some (fileDirectoryEntry 2) := by
  have hdir : ∀ k < 32 * 1, Fat.imageDirectory bootSector image k = stage1Byte (19 * 512 + k) :=
    fun k hk => hbyte (19 * 512 + k) (by unfold totalSectors; omega)
  have hname : Fat.text "STAGE2  BIN" = Fat.nameAt (fun k => stage1Byte (19 * 512 + k)) 0 := by
    decide +kernel
  have hentry : Fat.entryAt (fun k => stage1Byte (19 * 512 + k)) 0 = fileDirectoryEntry 2 := by
    decide +kernel
  rw [← Fat.nameAt_congr hdir Nat.one_pos] at hname
  rw [lookup_eq, Fat.findLoop, if_pos hname, Fat.entryAt_congr hdir Nat.one_pos, hentry]

include hlen

theorem stage1_boot : Fat.readBootSector image = some bootSector := by
  have hitems : 0 < Fat.items 62 (image.take 62) := by
    unfold Fat.items totalSectors at *
    rw [List.length_take, hlen]
    decide
  have hsame : Fat.bootSectorAt (fun i => image[i]?.getD 0) = Fat.bootSectorAt stage1Byte :=
    bootSectorAt_congr fun i hi => hbyte i (by unfold totalSectors; omega)
  unfold Fat.readBootSector
  rw [if_pos hitems, hsame]
  decide

theorem stage1_floppy : Floppy stage1Labels image where
  length := hlen
  boot := stage1_boot hlen hbyte
  headsHigh := (stage1_loaded hbyte (by decide) (by decide)).trans (by decide)
  loading := stage1_message hbyte (by decide) (by decide) (by decide)
  notFound := stage1_message hbyte (by decide) (by decide) (by decide)
  nameBehind := by decide
  nameInside := by decide
  name := by
    have hname : (List.range 11).map (fun i => stage1Byte (0x4E + i)) =
        Fat.text "STAGE2  BIN" := by
      decide
    rw [← hname]
    refine List.map_congr_left fun j hj => ?_
    have hj := List.mem_range.mp hj
    refine (stage1_loaded hbyte (Nat.le_add_right_of_le (by decide)) ?_).trans ?_
    · show 0x7C4E + j < 0x7E00
      omega
    · show stage1Byte (0x7C4E + j - 0x7C00) = _
      rw [show 0x7C4E + j - 0x7C00 = 0x4E + j by omega]
  cluster := by unfold InBootSector; decide

theorem stage1_chain :
    Fat.ValidChain bootSector image (Fat.imageFat bootSector image) 2 [3, 4] where
  data := by simp [Fat.IsDataCluster]
  nodup := by decide
  inside := by
    intro x hx
    have hmem : x.toNat ≤ 4 := by
      simp only [List.mem_cons, List.not_mem_nil, or_false] at hx
      rcases hx with rfl | rfl | rfl <;> decide
    show (33 + (x.toNat - 2) * 1) * 512 + 512 ≤ image.length
    rw [hlen]
    unfold totalSectors
    omega
  linked := by
    have hfat : ∀ i < 9, Fat.imageFat bootSector image i = stage1Byte (512 + i) :=
      fun i hi => hbyte (512 + i) (by unfold totalSectors; omega)
    have hentry : ∀ c < 5, Fat.entry12 (Fat.imageFat bootSector image) c =
        Fat.entry12 (fun i => stage1Byte (512 + i)) c := fun c hc =>
      Fat.entry12_congr (by omega) hfat
    refine ⟨?_, ?_, ?_⟩
    · exact (hentry 2 (by decide)).trans (by decide +kernel)
    · exact (hentry 3 (by decide)).trans (by decide +kernel)
    · show 0xFF8 ≤ Fat.entry12 (Fat.imageFat bootSector image) 4
      rw [hentry 4 (by decide)]
      decide +kernel

end Stage1Floppy

theorem main_boots_floppy : ∃ r, AtJump 0 r ∧ Main (stage1Bios stage1Image) false stage1Labels
    stage1Cpu (.stage2 ⟨r, Fat.text "Loading\r\n"⟩) := by
  have hlen : stage1Image.length = totalSectors * 512 := by
    unfold stage1Image
    rw [List.length_map, List.length_range]
  have hbyte : ∀ a < totalSectors * 512, stage1Image[a]?.getD 0 = stage1Byte a := by
    intro a ha
    unfold stage1Image
    rw [List.getElem?_map, List.getElem?_range ha]
    rfl
  generalize stage1Image = image at hlen hbyte ⊢
  have hentered : Entered image 0 stage1Cpu := by
    refine ⟨fun a hlo hhi => ?_, by decide⟩
    rw [stage1_loaded hbyte hlo hhi]
    exact if_pos ⟨hlo, hhi⟩
  obtain ⟨r, hjump, -, hend⟩ := (main_boots (stage1Bios_serves image) (stage1_floppy hlen hbyte)
    hentered).2 (fileDirectoryEntry 2) [3, 4] (stage1_lookup hbyte) (stage1_chain hlen hbyte)
    (by decide)
  exact ⟨r, hjump, (hend _).mpr rfl⟩

end DejOs.Stage1
