import DejOs.BootStage1
import DejOs.Lib.Results

/-!
# Stage 2

`main.asm` and `recovery.asm` of stage 2, from the entry to the last `hlt`. Stage 2 opens the A20
gate, asks for the geometry, reads the root directory, searches it for the kernel and loads what it
finds; whatever goes wrong ends on the recovery screen.

That is the plan. Every sector that `disk_read` asks the BIOS for is the first one of the disk,
since `lba_to_chs` has lost the number (`main_reads`).
-/

namespace DejOs.Stage2

open RealMode Results
open Stage1 (stage2LoadSegment bdbBytesPerSector bdbReservedSectors bdbSectorsPerFat bdbFatCount
  bdbDirEntriesCount)

/-! ## The code -/

/-- `KERNEL_LOAD_SEGMENT` -/
def kernelLoadSegment : Word := 0

/-- `KERNEL_LOAD_OFFSET` -/
def kernelLoadOffset : Word := 0x1000

/-- What the assembler chooses: the variables, the strings and two return addresses. -/
structure Labels where
  bdbSectorsPerTrack : Word
  bdbHeads : Word
  ebrDriveNumber : Word
  kernelCluster : Word
  errorCode : Word
  errorD : Word
  buffer : Word
  a20SuccessS : Word
  s1 : Word
  s4 : Word
  s5 : Word
  s6 : Word
  fileDkrnl : Word
  title : Word
  unknownS : Word
  memInitS : Word
  diskS : Word
  missingFileS : Word
  missingKernelS : Word
  /-- Behind `call print_hex`. -/
  afterPrintHex : Word
  /-- Behind `call .digit`. -/
  afterDigit : Word

/-- The BIOS. -/
structure Bios where
  int10 : Cpu → Cpu
  int13 : Cpu → Cpu
  int15 : Cpu → Cpu

/-- What `int 10h` is called for. -/
inductive Shown
  | typed (b : Byte)
  | scrolled (lines colour : Byte) (corner corner' : Word)
  | cursor (row column : Byte)
  | other (ah : Byte)
  deriving DecidableEq, Repr

def shown (s : Cpu) : Shown :=
  if s.reg8 .ah = 0x0E then .typed (s.reg8 .al)
  else if s.reg8 .ah = 0x06 then .scrolled (s.reg8 .al) (s.reg8 .bh) s.cx s.dx
  else if s.reg8 .ah = 0x02 then .cursor (s.reg8 .dh) (s.reg8 .dl)
  else .other (s.reg8 .ah)

/-- The processor, what it has shown, and the states in which it has called `int 13h`. -/
structure Console where
  cpu : Cpu
  screen : List Shown
  calls : List Cpu

/-- Where the code goes instead of to its next line. -/
inductive Exit
  /-- A divide error, or nothing is there to be popped. -/
  | fault (t : Console)
  /-- `floppy_error` -/
  | floppyError (t : Console)
  /-- `recovery` -/
  | recovery (t : Console)

abbrev Code := Program Exit

/-- Lines without a jump. -/
def block (is : List Instr) (t : Console) : Code Console :=
  match run is t.cpu with
  | some s => return { t with cpu := s }
  | none => throw (.fault t)

/-- A line that cannot fail. -/
def Console.on (f : Cpu → Cpu) (t : Console) : Console := { t with cpu := f t.cpu }

section Code

variable (bios : Bios) (df : Bool) (labels : Labels)

/-- `int 10h` -/
def int10 (t : Console) : Console := ⟨bios.int10 t.cpu, t.screen ++ [shown t.cpu], t.calls⟩

/-- `int 13h` -/
def int13 (t : Console) : Console := ⟨bios.int13 t.cpu, t.screen, t.calls ++ [t.cpu]⟩

/-- `.loop` of `puts` -/
def putsLoop (t : Console) : Code (Console ⊕ Console) := do
  let t := t.on (lodsb df)
  -- `or al, al` and `jz .done`
  if t.cpu.reg8 .al = 0 then return .inr (t.on fun s => s.flags true false)
  return .inl (int10 bios (t.on fun s => (s.flags false false).setReg8 .ah 0x0E))

/-- `puts` -/
def puts (t : Console) : Code Console := do
  let t ← block [.push (.place (.reg .ax)), .push (.place (.reg .si))] t
  let t ← loop (putsLoop bios df) t
  block [.pop (.reg .si), .pop (.reg .ax)] t

/-! ### The disk -/

/-- `disk_reset` -/
def diskReset (t : Console) : Code Console := do
  let t ← block [.pusha, .mov8 .ah (.imm 0), .stc] t
  let t := int13 bios t
  if t.cpu.cf then throw (.floppyError t) else block [.popa] t

/-- `.retry` -/
def retry (t : Console) : Code (Console ⊕ Console) := do
  let t ← block [.pusha, .stc, .mov8 .dl (.mem .ds labels.ebrDriveNumber)] t
  let t := int13 bios t
  if t.cpu.cf = false then
    let t ← block [.popa] t
    return .inr t
  else
    let t ← block [.popa] t
    let t ← diskReset bios t
    let t ← block [.dec .di, .alu .test .di (.place (.reg .di))] t
    if t.cpu.zf then throw (.floppyError t) else return .inl t

/-- `disk_read` -/
def diskRead (t : Console) : Code Console := do
  let t ← block [.push (.place (.reg .cx))] t
  let t ← block lbaToChs t
  let t ← block [.pop (.reg .ax), .mov8 .ah (.imm 0x02), .mov (.reg .di) (.imm 3)] t
  loop (retry bios labels) t

/-! ### Up to the root directory -/

/-- `entry`. The code segment is `STAGE2_LOAD_SEGMENT`. -/
def entry (s : Cpu) : Code Console := do
  let t ← block
    [.mov (.reg .ax) (.imm stage2LoadSegment),
      .mov (.seg .ds) (.place (.reg .ax)),
      .mov (.seg .es) (.place (.reg .ax))] ⟨s, [], []⟩
  let t := t.on fun s => { s with stack := [] }
  block [.mov (.reg .si) (.imm 0)] t

/-- `enablea20`, which leaves for `load_kernel`. -/
def enablea20 (t : Console) : Code (Console ⊕ Console) := do
  let t ← block [.inc .si, .mov (.reg .ax) (.imm 0x2401)] t
  let t := t.on bios.int15
  if t.cpu.cf = false then return .inr t
  else
    let t ← block [.alu .cmp .si (.imm 3)] t
    if t.cpu.zf then
      -- `a20_error`
      let t ← block [.mov8 .bh (.imm 1)] t
      throw (.recovery t)
    else return .inl t

/-- `load_kernel` -/
def loadKernel (t : Console) : Code Console := do
  let t ← block
    [.alu .xor .ax (.place (.reg .ax)),
      .mov (.seg .fs) (.place (.reg .ax)),
      .mov (.reg .si) (.imm labels.a20SuccessS)] t
  puts bios df t

/-- The drive parameters. -/
def driveParameters (t : Console) : Code Console := do
  let t := t.on (store8 .ds labels.ebrDriveNumber .dl)
  let t ← block [.push (.place (.seg .es)), .mov8 .ah (.imm 0x08)] t
  let t := int13 bios t
  if t.cpu.cf then throw (.floppyError t)
  else
    let t ← block [.pop (.seg .es), .mov (.reg .si) (.imm labels.s1)] t
    let t ← puts bios df t
    let t := t.on fun s => clear8 .ch (and8 .cl 0x3F s)
    let t ← block [.mov (.mem .ds none labels.bdbSectorsPerTrack) (.place (.reg .cx))] t
    return t.on fun s => store8 .ds labels.bdbHeads .dh (inc8 .dh s)

/-- The size of the root directory, and where it begins. -/
def rootDir (t : Console) : Code Console := do
  let t ← block
    [.mov (.reg .ax) (.place (.mem .fs none bdbSectorsPerFat)),
      .mov8 .bl (.mem .fs bdbFatCount)] t
  let t := t.on (clear8 .bh)
  let t ← block
    [.mul (.place (.reg .bx)),
      .alu .add .ax (.place (.mem .fs none bdbReservedSectors)),
      .push (.place (.reg .ax)),
      .mov (.reg .ax) (.place (.mem .fs none bdbDirEntriesCount))] t
  let t := t.on (shl16 .ax 5)
  let t ← block
    [.alu .xor .dx (.place (.reg .dx)),
      .div (.place (.mem .fs none bdbBytesPerSector)),
      .alu .test .dx (.place (.reg .dx))] t
  if t.cpu.zf then return t else block [.inc .ax] t

/-- `root_dir_after` -/
def rootDirAfter (t : Console) : Code Console := do
  let t ← block
    [.mov8 .cl (.reg .al),
      .pop (.reg .ax),
      .mov8 .dl (.mem .ds labels.ebrDriveNumber),
      .mov (.reg .bx) (.imm labels.buffer)] t
  let t ← diskRead bios labels t
  block [.alu .xor .bx (.place (.reg .bx)), .mov (.reg .di) (.imm labels.buffer)] t

/-! ### The kernel -/

/-- The lines behind `je .found_kernel`. -/
def nextEntry (t : Console) : Code (Console ⊕ Console) := do
  let t ← block [.mov (.reg .si) (.imm labels.s4)] t
  let t ← puts bios false t
  let t ← block
    [.alu .add .di (.imm 32),
      .inc .bx,
      .alu .cmp .bx (.place (.mem .fs none bdbDirEntriesCount))] t
  -- `jl` takes the two as signed
  if t.cpu.bx.slt (loadWord t.cpu.mem t.cpu.fs bdbDirEntriesCount) then return .inl t
  else
    let t ← block [.mov8 .bh (.imm 3), .mov8 .bl (.imm 1)] t
    throw (.recovery t)

/-- `.search_kernel`, behind `cld`: the next round, or `.found_kernel`. -/
def searchKernel (t : Console) : Code (Console ⊕ Console) := do
  let t ← block
    [.mov (.reg .si) (.imm labels.fileDkrnl),
      .mov (.reg .cx) (.imm 11),
      .push (.place (.reg .di))] t
  let t := t.on (repeCmpsb false)
  let t ← block [.pop (.reg .di)] t
  if t.cpu.zf then return .inr t else nextEntry bios labels t

/-- `.found_kernel` -/
def foundKernel (t : Console) : Code Console := do
  let t ← block
    [.mov (.reg .ax) (.place (.mem .ds (some .di) 26)),
      .mov (.mem .ds none labels.kernelCluster) (.place (.reg .ax)),
      .mov (.reg .si) (.imm labels.s5)] t
  let t ← puts bios false t
  let t ← block
    [.mov (.reg .ax) (.place (.mem .fs none bdbReservedSectors)),
      .mov (.reg .bx) (.imm labels.buffer),
      .mov8 .cl (.mem .fs bdbSectorsPerFat),
      .mov8 .dl (.mem .ds labels.ebrDriveNumber)] t
  let t ← diskRead bios labels t
  block
    [.mov (.reg .bx) (.imm kernelLoadSegment),
      .mov (.seg .es) (.place (.reg .bx)),
      .mov (.reg .bx) (.imm kernelLoadOffset)] t

/-- `jz .even`, and the lines up to `.next_cluster_after`. -/
def oddEven (t : Console) : Code Console :=
  if t.cpu.zf then block [.alu .and .ax (.imm 0x0FFF)] t
  else do
    let t ← block [.mov (.reg .si) (.imm labels.s6)] t
    let t ← puts bios false t
    block [.shr .ax 4] t

/-- `.next_cluster_after`: the next round, or `.read_finish`. -/
def nextClusterAfter (t : Console) : Code (Console ⊕ Console) := do
  let t ← block [.alu .cmp .ax (.imm 0x0FF8)] t
  -- `jae .read_finish`
  if t.cpu.cf = false then
    let t ← block
      [.mov8 .dl (.mem .ds labels.ebrDriveNumber),
        .mov (.reg .ax) (.imm kernelLoadSegment),
        .mov (.seg .ds) (.place (.reg .ax)),
        .mov (.seg .es) (.place (.reg .ax))] t
    return .inr t
  else
    let t ← block [.mov (.mem .ds none labels.kernelCluster) (.place (.reg .ax))] t
    return .inl t

/-- `.load_kernel_loop` -/
def loadKernelLoop (t : Console) : Code (Console ⊕ Console) := do
  let t ← block
    [.mov (.reg .ax) (.place (.mem .ds none labels.kernelCluster)),
      .alu .add .ax (.imm 31),
      .mov8 .cl (.imm 1),
      .mov8 .dl (.mem .ds labels.ebrDriveNumber)] t
  let t ← diskRead bios labels t
  let t ← block
    [.alu .add .bx (.place (.mem .fs none bdbBytesPerSector)),
      .mov (.reg .ax) (.place (.mem .ds none labels.kernelCluster)),
      .mov (.reg .cx) (.imm 3),
      .mul (.place (.reg .cx)),
      .mov (.reg .cx) (.imm 2),
      .div (.place (.reg .cx)),
      .mov (.reg .si) (.imm labels.buffer),
      .alu .add .si (.place (.reg .ax)),
      .mov (.reg .ax) (.place (.mem .ds (some .si) 0)),
      .alu .or .dx (.place (.reg .dx))] t
  let t ← oddEven bios labels t
  nextClusterAfter labels t

/-- From the entry to the `hlt` behind `.read_finish`. -/
def stage2 (s : Cpu) : Code Console := do
  let t ← entry s
  let t ← loop (enablea20 bios) t
  let t ← loadKernel bios df labels t
  let t ← driveParameters bios df labels t
  let t ← rootDir t
  let t ← rootDirAfter bios labels t
  let t ← loop (searchKernel bios labels) t
  let t ← foundKernel bios labels t
  loop (loadKernelLoop bios labels) t

/-! ### Errors -/

/-- `missing_file` and the other three, up to `halt`. -/
def recoveryMessage (t : Console) : Code Console := do
  let code := t.cpu.mem (linear t.cpu.ds labels.errorCode)
  if code = 1 then puts bios false (t.on fun s => { s with si := labels.memInitS })
  else if code = 2 then puts bios false (t.on fun s => { s with si := labels.diskS })
  else if code = 3 then
    let t ← puts bios false (t.on fun s => { s with si := labels.missingFileS })
    if t.cpu.mem (linear t.cpu.ds labels.errorD) = 1 then
      puts bios false (t.on fun s => { s with si := labels.missingKernelS })
    else return t
  else puts bios false (t.on fun s => { s with si := labels.unknownS })

/-- `recovery`, until the window is filled. -/
def recoverySetup (t : Console) : Code Console := do
  let t ← block
    [.push (.place (.reg .ax)),
      .mov (.reg .ax) (.imm stage2LoadSegment),
      .mov (.seg .ds) (.place (.reg .ax)),
      .mov (.seg .es) (.place (.reg .ax)),
      .pop (.reg .ax)] t
  let t := t.on fun s => store8 .ds labels.errorD .bl (store8 .ds labels.errorCode .bh s)
  let t ← block
    [.mov (.reg .ax) (.imm 0x0600),
      .mov8 .bh (.imm 0x2F),
      .mov (.reg .cx) (.imm 0x0000),
      .mov (.reg .dx) (.imm 0x184F)] t
  return int10 bios t

/-- The title, and the cursor for the message. -/
def recoveryTitle (t : Console) : Code Console := do
  let t ← block
    [.mov8 .ah (.imm 0x02),
      .mov8 .bh (.imm 0),
      .mov8 .dh (.imm 2),
      .mov8 .dl (.imm 30)] t
  let t ← block [.mov (.reg .si) (.imm labels.title)] (int10 bios t)
  let t ← puts bios false t
  let t ← block
    [.mov8 .ah (.imm 0x02),
      .mov8 .dh (.imm 10),
      .mov8 .dl (.imm 0)] t
  let t ← block [.mov8 .ah (.imm 0x02)] (int10 bios t)
  return int10 bios t

/-- `recovery`, up to `halt`. -/
def recovery (t : Console) : Code Console := do
  let t ← recoverySetup bios labels t
  let t ← recoveryTitle bios labels t
  recoveryMessage bios labels t

/-- `ret`, with the offset that it goes to. -/
def ret (t : Console) : Code (Word × Console) :=
  match t.cpu.stack with
  | [] => throw (.fault t)
  | ip :: stack => return (ip, t.on fun s => { s with stack := stack })

/-- `.digit` of `print_hex` -/
def digit (t : Console) : Code (Word × Console) := do
  let al := t.cpu.reg8 .al
  -- `jbe .num`
  let t := t.on fun s => s.setReg8 .al (if al ≤ 9 then al + 0x30 else al + 7 + 0x30)
  let t ← block [.pop (.reg .ax)] (int10 bios t)
  ret t

/-- `floppy_error`, as far as the `ret` of `.digit`: its `pop ax` takes the return address. -/
def floppyError (t : Console) : Code (Word × Console) := do
  let t ← block
    [.mov8 .al (.reg .ah),
      .push (.imm labels.afterPrintHex),
      .push (.place (.reg .ax)),
      .mov8 .ah (.imm 0x0E),
      .mov8 .bl (.reg .al)] t
  let t := t.on fun s => s.setReg8 .al (s.reg8 .al >>> 4)
  let t ← block [.push (.imm labels.afterDigit)] t
  digit bios t

/-- How stage 2 ends. -/
inductive Ending
  /-- `hlt`, behind `.read_finish` -/
  | finished (t : Console)
  /-- `halt` of the recovery screen -/
  | halted (t : Console)
  /-- At the offset `ip`, after `floppy_error`. -/
  | returned (ip : Word) (t : Console)

/-- Stage 2 entered in the state `s`. -/
def main (s : Cpu) : Code Ending :=
  tryCatch (Ending.finished <$> stage2 bios df labels s) fun
    | .recovery t => Ending.halted <$> recovery bios labels t
    | .floppyError t => (fun r => Ending.returned r.1 r.2) <$> floppyError bios labels t
    | .fault t => throw (.fault t)

end Code

/-! ## The sectors that are read -/

/-- The console when the code leaves its lines. -/
def Exit.console : Exit → Console
  | .fault t | .floppyError t | .recovery t => t

def Ending.console : Ending → Console
  | .finished t | .halted t | .returned _ t => t

/-- Every call of `int 13h` that reads asks for the first sector. -/
def Asks (t : Console) : Prop :=
  ∀ u ∈ t.calls, u.reg8 .ah = 0x02 → Chs.decode u.cx (u.reg8 .dh) = ⟨0, 0, 1⟩

def Exit.Asks (e : Exit) : Prop := Stage2.Asks e.console

/-- Some call of `int 13h` reads. -/
def Reads (t : Console) : Prop := ∃ u ∈ t.calls, u.reg8 .ah = 0x02

/-! ### What does not call the disk -/

/-- The calls of `int 13h` so far. -/
def Called (calls : List Cpu) (t : Console) : Prop := t.calls = calls

def Exit.Called (calls : List Cpu) (e : Exit) : Prop := Stage2.Called calls e.console

section Calls

variable {bios : Bios} {df : Bool} {labels : Labels} {t : Console} {is : List Instr}
  {calls : List Cpu}

theorem on_called (f : Cpu → Cpu) (ht : Called calls t) : Called calls (t.on f) := ht

theorem int10_called (ht : Called calls t) : Called calls (int10 bios t) := ht

theorem block_called (ht : Called calls t) :
    Ensures (block is t) (Called calls) (Exit.Called calls) := by
  unfold block
  split
  · exact ensures_pure ht
  · exact ensures_throw ht

theorem puts_called (ht : Called calls t) :
    Ensures (puts bios df t) (Called calls) (Exit.Called calls) := by
  unfold puts
  refine (block_called ht).bind fun t ht => (Ensures.loop (I := Called calls) (Q := Called calls)
    ?_ ht).bind fun t ht => block_called ht
  intro t ht
  unfold putsLoop
  dsimp only
  split_ifs
  · exact ensures_pure ht
  · exact ensures_pure ht

theorem searchKernel_called (ht : Called calls t) : Ensures (searchKernel bios labels t)
    (Sum.elim (Called calls) (Called calls)) (Exit.Called calls) := by
  unfold searchKernel
  refine (block_called ht).bind fun t ht => (block_called (on_called _ ht)).bind fun t ht => ?_
  split_ifs
  · exact ensures_pure ht
  · unfold nextEntry
    refine (block_called ht).bind fun t ht => (puts_called ht).bind fun t ht =>
      (block_called ht).bind fun t ht => ?_
    split_ifs
    · exact ensures_pure ht
    · exact (block_called ht).bind fun t ht => ensures_throw ht

theorem search_called (ht : Called calls t) :
    Ensures (loop (searchKernel bios labels) t) (Called calls) (Exit.Called calls) :=
  Ensures.loop (fun _ ht => searchKernel_called ht) ht

theorem recovery_called (ht : Called calls t) :
    Ensures (recovery bios labels t) (Called calls) (Exit.Called calls) := by
  unfold recovery
  refine Ensures.bind (Q := Called calls) ?_ fun t ht =>
    Ensures.bind (Q := Called calls) ?_ fun t ht => ?_
  · unfold recoverySetup
    exact (block_called ht).bind fun t ht => (block_called (on_called _ ht)).bind fun t ht =>
      ensures_pure (int10_called ht)
  · unfold recoveryTitle
    exact (block_called ht).bind fun t ht => (block_called (int10_called ht)).bind fun t ht =>
      (puts_called ht).bind fun t ht => (block_called ht).bind fun t ht =>
      (block_called (int10_called ht)).bind fun t ht => ensures_pure (int10_called ht)
  · unfold recoveryMessage
    dsimp only
    split_ifs
    · exact puts_called (on_called _ ht)
    · exact puts_called (on_called _ ht)
    · refine (puts_called (on_called _ ht)).bind fun t ht => ?_
      split_ifs
      · exact puts_called (on_called _ ht)
      · exact ensures_pure ht
    · exact puts_called (on_called _ ht)

/-- `Asks` looks at the calls only. -/
theorem Asks.of_called {x : Code Console}
    (h : Ensures x (Called t.calls) (Exit.Called t.calls)) (ht : Asks t) :
    Ensures x Asks Exit.Asks := by
  refine h.imp (fun u hu v hv => ht v ?_) fun e he v hv => ht v ?_
  · exact (show u.calls = t.calls from hu) ▸ hv
  · exact (show e.console.calls = t.calls from he) ▸ hv

theorem Reads.of_called {u : Console} (ht : Reads t) (h : Called t.calls u) : Reads u := by
  obtain ⟨v, hv, hah⟩ := ht
  exact ⟨v, (show u.calls = t.calls from h) ▸ hv, hah⟩

end Calls

section Asks

variable {bios : Bios} {df : Bool} {labels : Labels} {t u : Console} {s : Cpu} {is : List Instr}
  {Q : Console → Prop}

theorem ensures_block (ht : Asks t) (hQ : ∀ s, run is t.cpu = some s → Q { t with cpu := s }) :
    Ensures (block is t) Q Exit.Asks := by
  unfold block
  cases h : run is t.cpu with
  | none => exact ensures_throw ht
  | some s => exact ensures_pure (hQ s h)

theorem on_asks (f : Cpu → Cpu) (ht : Asks t) : Asks (t.on f) := ht

theorem int10_asks (ht : Asks t) : Asks (int10 bios t) := ht

theorem block_asks (ht : Asks t) : Ensures (block is t) Asks Exit.Asks :=
  ensures_block ht fun _ _ => ht

theorem int13_asks (ht : Asks t) (h : t.cpu.reg8 .ah = 0x02 →
    Chs.decode t.cpu.cx (t.cpu.reg8 .dh) = ⟨0, 0, 1⟩) : Asks (int13 bios t) := by
  intro u hu
  obtain hu | hu := List.mem_append.mp hu
  · exact ht u hu
  · obtain rfl := List.mem_singleton.mp hu
    exact h

theorem puts_asks (ht : Asks t) : Ensures (puts bios df t) Asks Exit.Asks :=
  Asks.of_called (puts_called rfl) ht

/-- `lba_to_chs` gives the place of the first sector, when it gives one. -/
theorem lbaToChs_first (h : run lbaToChs s = some u.cpu) :
    u.cpu.cx = 1 ∧ hi u.cpu.dx = 0 ∧ u.cpu.stack = s.stack := by
  by_cases hs0 : loadWord s.mem 0#16 bdbSectorsPerTrack = 0#16
  · simp [lbaToChs, chsDivisions, hs0] at h
  by_cases hh0 : loadWord s.mem 0#16 bdbHeads = 0#16
  · simp [lbaToChs, chsDivisions, hs0, hh0] at h
  obtain ⟨zf, hrun⟩ := run_lbaToChs (s := s) rfl rfl hs0 hh0
  rw [hrun] at h
  obtain h := Option.some.inj h
  rw [← h]
  refine ⟨chsWord_zero, ?_, rfl⟩
  show hi (chsHead _ _ _ ++ _) = _
  rw [hi_append, chsHead_zero]
  rfl

/-- The head of a try to read the first sector. -/
structure Trying (t : Console) : Prop where
  asks : Asks t
  cx : t.cpu.cx = 1
  dh : hi t.cpu.dx = 0

/-- A reset keeps the registers, as long as the BIOS keeps the stack. -/
theorem diskReset_trying (hstack : ∀ s, (bios.int13 s).stack = s.stack) (ht : Trying t) :
    Ensures (diskReset bios t) Trying Exit.Asks := by
  unfold diskReset
  refine (ensures_block (Q := fun u => Asks u ∧ u.cpu.reg8 .ah = 0 ∧ u.cpu.stack = t.cpu.di ::
    t.cpu.si :: t.cpu.bp :: t.cpu.bx :: t.cpu.dx :: t.cpu.cx :: t.cpu.ax :: t.cpu.stack) ht.asks
    fun s hs => ⟨ht.asks, ?_⟩).bind ?_
  · simp only [run_pusha, run_mov8, run_stc, run_nil] at hs
    obtain rfl := Option.some.inj hs
    exact ⟨hi_append _ _, rfl⟩
  · rintro u ⟨hu, hah, hpushed⟩
    have hcall : Asks (int13 bios u) := int13_asks hu fun h => by
      rw [hah] at h
      exact absurd h (by decide)
    dsimp only
    split_ifs
    · exact ensures_throw hcall
    · refine ensures_block hcall fun s hs => ?_
      simp only [int13, run_popa, hstack, hpushed, run_nil] at hs
      obtain rfl := Option.some.inj hs
      exact ⟨hcall, ht.cx, ht.dh⟩

theorem retry_trying (hstack : ∀ s, (bios.int13 s).stack = s.stack) (ht : Trying t) :
    Ensures (retry bios labels t) (Sum.elim Trying Asks) Exit.Asks := by
  unfold retry
  refine (ensures_block (Q := fun u => Trying u ∧ u.cpu.stack = t.cpu.di ::
    t.cpu.si :: t.cpu.bp :: t.cpu.bx :: t.cpu.dx :: t.cpu.cx :: t.cpu.ax :: t.cpu.stack) ht.asks
    fun s hs => ?_).bind ?_
  · simp only [run_pusha, run_mov8, run_stc, run_nil] at hs
    obtain rfl := Option.some.inj hs
    exact ⟨⟨ht.asks, ht.cx, (hi_append _ _).trans ht.dh⟩, rfl⟩
  · rintro u ⟨hu, hpushed⟩
    have hcall : Asks (int13 bios u) := int13_asks hu.asks fun _ => by
      rw [hu.cx, Cpu.reg8, hu.dh]
      decide
    dsimp only
    split_ifs
    · exact (block_asks hcall).bind fun v hv => ensures_pure hv
    · refine (ensures_block (Q := Trying) hcall fun s hs => ?_).bind fun v hv =>
        (diskReset_trying hstack hv).bind fun w hw => ?_
      · simp only [int13, run_popa, hstack, hpushed, run_nil] at hs
        obtain rfl := Option.some.inj hs
        exact ⟨hcall, ht.cx, ht.dh⟩
      · refine (ensures_block (Q := Trying) hw.asks fun s hs => ?_).bind fun x hx => ?_
        · simp only [run_dec, run_alu, run_nil] at hs
          obtain rfl := Option.some.inj hs
          exact ⟨hw.asks, hw.cx, hw.dh⟩
        · split_ifs
          · exact ensures_throw hx.asks
          · exact ensures_pure hx

theorem diskRead_asks (hstack : ∀ s, (bios.int13 s).stack = s.stack) (ht : Asks t) :
    Ensures (diskRead bios labels t) Asks Exit.Asks := by
  unfold diskRead
  refine (block_asks ht).bind fun t ht => ?_
  refine (ensures_block (Q := Trying) ht fun s hs => ?_).bind fun t ht => ?_
  · obtain ⟨hcx, hdh, -⟩ := lbaToChs_first (u := { t with cpu := s }) hs
    exact ⟨ht, hcx, hdh⟩
  refine (ensures_block (Q := Trying) ht.asks fun s hs => ?_).bind fun t ht => ?_
  · rw [run_pop] at hs
    split at hs
    · cases hs
    · simp only [run_mov8, run_mov, run_nil] at hs
      obtain rfl := Option.some.inj hs
      exact ⟨ht.asks, ht.cx, ht.dh⟩
  · exact Ensures.loop (fun t ht => retry_trying hstack ht) ht

/-! ### The whole of stage 2 -/

theorem enablea20_asks (ht : Asks t) :
    Ensures (enablea20 bios t) (Sum.elim Asks Asks) Exit.Asks := by
  unfold enablea20
  refine (block_asks ht).bind fun t ht => ?_
  dsimp only
  split_ifs
  · exact ensures_pure ht
  · refine (block_asks (on_asks _ ht)).bind fun t ht => ?_
    split_ifs
    · exact (block_asks ht).bind fun t ht => ensures_throw ht
    · exact ensures_pure ht

theorem loadKernel_asks (ht : Asks t) : Ensures (loadKernel bios df labels t) Asks Exit.Asks := by
  unfold loadKernel
  exact (block_asks ht).bind fun t ht => puts_asks ht

theorem driveParameters_asks (ht : Asks t) :
    Ensures (driveParameters bios df labels t) Asks Exit.Asks := by
  unfold driveParameters
  refine (ensures_block (Q := fun u => Asks u ∧ u.cpu.reg8 .ah = 0x08) (on_asks _ ht) fun s hs =>
    ⟨ht, ?_⟩).bind ?_
  · simp only [run_push, run_mov8, run_nil] at hs
    obtain rfl := Option.some.inj hs
    exact hi_append _ _
  · rintro u ⟨hu, hah⟩
    have hcall : Asks (int13 bios u) := int13_asks hu fun h => by
      rw [hah] at h
      exact absurd h (by decide)
    dsimp only
    split_ifs
    · exact ensures_throw hcall
    · refine (block_asks hcall).bind fun t ht => (puts_asks ht).bind fun t ht => ?_
      exact (block_asks (on_asks _ ht)).bind fun t ht => ensures_pure (on_asks _ ht)

theorem rootDir_asks (ht : Asks t) : Ensures (rootDir t) Asks Exit.Asks := by
  unfold rootDir
  refine (block_asks ht).bind fun t ht => (block_asks (on_asks _ ht)).bind fun t ht =>
    (block_asks (on_asks _ ht)).bind fun t ht => ?_
  split_ifs
  · exact ensures_pure ht
  · exact block_asks ht

theorem rootDirAfter_asks (hstack : ∀ s, (bios.int13 s).stack = s.stack) (ht : Asks t) :
    Ensures (rootDirAfter bios labels t) Asks Exit.Asks := by
  unfold rootDirAfter
  exact (block_asks ht).bind fun t ht => (diskRead_asks hstack ht).bind fun t ht => block_asks ht

theorem foundKernel_asks (hstack : ∀ s, (bios.int13 s).stack = s.stack) (ht : Asks t) :
    Ensures (foundKernel bios labels t) Asks Exit.Asks := by
  unfold foundKernel
  exact (block_asks ht).bind fun t ht => (puts_asks ht).bind fun t ht =>
    (block_asks ht).bind fun t ht => (diskRead_asks hstack ht).bind fun t ht => block_asks ht

theorem loadKernelLoop_asks (hstack : ∀ s, (bios.int13 s).stack = s.stack) (ht : Asks t) :
    Ensures (loadKernelLoop bios labels t) (Sum.elim Asks Asks) Exit.Asks := by
  unfold loadKernelLoop
  refine (block_asks ht).bind fun t ht => (diskRead_asks hstack ht).bind fun t ht =>
    (block_asks ht).bind fun t ht => Ensures.bind (Q := Asks) ?_ fun t ht => ?_
  · unfold oddEven
    split_ifs
    · exact block_asks ht
    · exact (block_asks ht).bind fun t ht => (puts_asks ht).bind fun t ht => block_asks ht
  · unfold nextClusterAfter
    refine (block_asks ht).bind fun t ht => ?_
    split_ifs
    · exact (block_asks ht).bind fun t ht => ensures_pure ht
    · exact (block_asks ht).bind fun t ht => ensures_pure ht

theorem stage2_asks (hstack : ∀ s, (bios.int13 s).stack = s.stack) (s : Cpu) :
    Ensures (stage2 bios df labels s) Asks Exit.Asks := by
  unfold stage2 entry
  rw [bind_assoc]
  refine (block_asks (fun u hu => absurd hu List.not_mem_nil)).bind fun t ht => ?_
  refine (block_asks (on_asks _ ht)).bind fun t ht =>
    (Ensures.loop (fun t ht => enablea20_asks ht) ht).bind fun t ht =>
    (loadKernel_asks ht).bind fun t ht => (driveParameters_asks ht).bind fun t ht =>
    (rootDir_asks ht).bind fun t ht =>
    (rootDirAfter_asks hstack ht).bind fun t ht =>
    (Asks.of_called (search_called rfl) ht).bind fun t ht =>
    (foundKernel_asks hstack ht).bind fun t ht => ?_
  exact Ensures.loop (fun t ht => loadKernelLoop_asks hstack ht) ht

theorem floppyError_asks (ht : Asks t) :
    Ensures (floppyError bios labels t) (fun r => Asks r.2) Exit.Asks := by
  unfold floppyError digit ret
  refine (block_asks ht).bind fun t ht => (block_asks (on_asks _ ht)).bind fun t ht => ?_
  refine (block_asks (int10_asks (on_asks _ ht))).bind fun t ht => ?_
  split
  · exact ensures_throw ht
  · exact ensures_pure (on_asks _ ht)

end Asks

/-- **Stage 2 reads the first sector only.** In every run of stage 2 that comes to an end, whichever
it is, with every BIOS that keeps the stack of a disk call and whatever is in memory and on the
disk: every call of `int 13h` that reads asks for cylinder 0, head 0, sector 1. -/
theorem main_reads (bios : Bios) (df : Bool) (labels : Labels) (s : Cpu)
    (hstack : ∀ s, (bios.int13 s).stack = s.stack) :
    Ensures (main bios df labels s) (fun e => Asks e.console) Exit.Asks := by
  unfold main
  refine Ensures.tryCatch (F := Exit.Asks)
    (Ensures.map (R := fun e : Ending => Asks e.console) _ (stage2_asks hstack s)) fun e he => ?_
  cases e with
  | fault t => exact ensures_throw he
  | floppyError t =>
    exact Ensures.map (R := fun e : Ending => Asks e.console) _ (floppyError_asks he)
  | recovery t =>
    exact Ensures.map (R := fun e : Ending => Asks e.console) _
      (Asks.of_called (recovery_called rfl) he)

end DejOs.Stage2
