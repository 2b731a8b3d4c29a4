import DejOs.AcpiParse
import DejOs.BringUp
import DejOs.Framebuffer
import DejOs.Idt
import DejOs.MemoryInit
import DejOs.UserSpace

/-!
# Panics before the screen is set up

`kentry` of `entry.c` up to `kmain`, and `panic` of `panic.c`, which paints the screen before it
resets the machine. `draw_screen` takes its framebuffer from the boot loader's response, but
`putpixel` goes through the globals that only `set_up_framebuffer` fills, at the start of `kmain`.

None of the stages before writes to these globals (`kentry_keeps`). So a panic in any of them
dereferences `NULL`, unless the response names a screen without a pixel (`panic_early_iff`).
-/

namespace DejOs.Panic

open Framebuffer Loop Kernel Acpi CString

/-! ## The code -/

/-- What the boot loader hands over, and the kernel's globals. -/
structure Boot where
  kentryRan : Bool
  /-- `LIMINE_BASE_REVISION_SUPPORTED` -/
  revisionSupported : Bool
  /-- `framebuffer_request.response` -/
  response : U64
  /-- The entries of `memmap_request.response`. -/
  memmap : Option (List MemmapEntry)
  /-- The offset of `hhdm_request.response`. -/
  hhdm : Option U64
  /-- `mp_request.response` -/
  mp : Option MpResponse
  interrupts : Interrupts
  vm : Vm
  framebuffer : U64
  fbPtr : U64
  /-- The per-CPU `cpu_state` of the boot CPU. -/
  cpuState : U64

/-- What the stages read and no stage writes. -/
structure Machine where
  /-- Where physical memory is mapped. -/
  directMap : U64
  stubs : Stubs
  /-- The per-CPU block of the boot CPU. -/
  image : Fin 512 → U64
  /-- `registered_drivers` after `load_drivers`. -/
  drivers : List Driver
  /-- The memory that the ACPI tables and the PCI configuration space are in. -/
  acpi : Config
  /-- The address of `"MCFG"`. -/
  text : U64
  rsdp : U64
  /-- What the stack holds where `get_drivers` puts its record. -/
  stack : PciDevice

/-- A byte of physical memory. -/
def physByte (mem : Mem) (phys : U64) : Byte :=
  (mem (phys &&& ~~~0xFFF) (index phys 3) >>> (8 * (phys &&& 7).toNat)).setWidth 8

/-- What `framebuffer.c` sees of the state. -/
def Boot.screen (M : Machine) (b : Boot) : Screen where
  mem a := physByte b.vm.mem (a - M.directMap)
  response := b.response
  framebuffer := b.framebuffer
  fbPtr := b.fbPtr
  derefs := []

/-- A step on the memory state. -/
def onVm {α : Type} (x : Kernel Vm α) : Kernel Boot α :=
  Kernel.zoom Boot.vm (fun v b => { b with vm := v }) x

/-- A step on the interrupt tables. -/
def onInterrupts {α : Type} (x : Kernel Interrupts α) : Kernel Boot α :=
  Kernel.zoom Boot.interrupts (fun i b => { b with interrupts := i }) x

/-- `memory_init`, on the globals it shares with the allocator. -/
def memoryStage (memmap : List MemmapEntry) (hhdm : U64) : Kernel Vm Unit :=
  modify fun s => { s with
    alloc := { s.alloc with
      pages := (memoryInit memmap hhdm).2.pages
      hhdm := (memoryInit memmap hhdm).2.hhdm } }

/-- A check of `kentry`. -/
def panicIf (c : Prop) [Decidable c] (msg : String) : Kernel Boot Unit :=
  if c then throw (.panic msg .unknown) else return

/-- `kentry` up to `load_drivers`. The serial port, `check_watchdog` and `load_drivers` do not touch
this state. -/
def kentry (M : Machine) : Kernel Boot Unit := do
  let b ← get
  modify fun b => { b with kentryRan := true }
  panicIf b.kentryRan "kentry ran twice"
  panicIf (b.revisionSupported = false) "Bootloader doesnt support our revision"
  panicIf (b.response = 0 ∨ (b.screen M).framebufferCount < 1) "Didnt recieve a framebuffer"
  panicIf (b.memmap.isNone ∨ (b.memmap.getD []).length < 1) "Didnt recieve a memmap"
  panicIf b.hhdm.isNone "Didnt recieve a hhdm"
  panicIf b.mp.isNone "Didnt recieve a mp"
  onInterrupts (interruptInit M.stubs)
  onVm (memoryStage (b.memmap.getD []) (b.hhdm.getD 0))
  let _ ← onVm virtualMemoryInit
  onVm (userSpaceInit M.image)

/-- The boot from `b` has come to `t` before `kmain`: it ended there with `halt`, or `parse_acpi`
returned. -/
def Boots (M : Machine) (b : Boot) (halt : Option Halt) (t : Boot) : Prop :=
  (∃ e, kentry M b = .error e t ∧ halt = some e) ∨
    ∃ o, kentry M b = .ok () t ∧
      ParseAcpi M.drivers M.acpi M.directMap M.text M.rsdp M.stack o ∧ halt = o.halt

/-- `panic` called in the state `b` comes to `triple_fault`, and `u` is what it has dereferenced on
the way. A CPU with bit 0 of its `cpu_state` set stops before. -/
def PanicReaches (M : Machine) (b : Boot) (u : Screen) : Prop :=
  ¬ (isPerCpuReady b.vm.alloc.cpu.gsBase = true ∧ b.cpuState &&& 1 ≠ 0) ∧
    DrawScreen (b.screen M) u

/-- `panic` comes to `triple_fault` without a `NULL` pointer on the way. -/
def PanicSafe (M : Machine) (b : Boot) : Prop := ∃ u, PanicReaches M b u ∧ 0 ∉ u.derefs

/-! ## `draw_screen` without globals -/

/-- The response is there and names a screen without a pixel. -/
structure Blank (s : Screen) : Prop where
  response : s.response ≠ 0
  table : s.table ≠ 0
  first : s.framebuffers 0 ≠ 0
  empty : height s.mem (s.framebuffers 0) = 0 ∨ width s.mem (s.framebuffers 0) = 0

section Draw

variable {f : U64} {s u : Screen} {i : U64} {j : Option U64}

theorem drawScreenLoops_row (f : U64) (s : Screen) (i : U64) : drawScreenLoops f (s, i, none) =
    if i < height s.mem f then .inl (s.deref f, i, some 0) else .inr (s.deref f) := by
  simp [drawScreenLoops, nested, below]

theorem drawScreenLoops_pixel (f : U64) (s : Screen) (i j : U64) :
    drawScreenLoops f (s, i, some j) =
      if j < width s.mem f then .inl (putpixel j i 0x0000FF (s.deref f), i, some (j + 1))
      else .inl (s.deref f, i + 1, none) := by
  simp [drawScreenLoops, nested, below]

/-- A round dereferences more pointers, and a test `f`. -/
theorem drawScreenLoops_derefs {x : Screen × U64 × Option U64} {p : U64} (hp : p ∈ x.1.derefs) :
    (∀ y, drawScreenLoops f x = .inl y → p ∈ y.1.derefs) ∧
      ∀ r, drawScreenLoops f x = .inr r → p ∈ r.derefs ∧ f ∈ r.derefs := by
  obtain ⟨s, i, j⟩ := x
  cases j with
  | none =>
    rw [drawScreenLoops_row]
    constructor
    · intro y hy
      split_ifs at hy
      obtain rfl := Sum.inl.inj hy
      exact List.mem_cons_of_mem _ hp
    · intro r hr
      split_ifs at hr
      obtain rfl := Sum.inr.inj hr
      exact ⟨List.mem_cons_of_mem _ hp, List.mem_cons_self⟩
  | some j =>
    rw [drawScreenLoops_pixel]
    constructor
    · intro y hy
      split_ifs at hy
      · obtain rfl := Sum.inl.inj hy
        exact List.mem_cons_of_mem _ (List.mem_cons_of_mem _ (List.mem_cons_of_mem _ hp))
      · obtain rfl := Sum.inl.inj hy
        exact List.mem_cons_of_mem _ hp
    · intro r hr
      split_ifs at hr

theorem mem_derefs_of_returns {p : U64} (h : Returns (drawScreenLoops f) (s, i, j) u)
    (hp : p ∈ s.derefs) : p ∈ u.derefs ∧ f ∈ u.derefs := by
  refine Returns.rel (P := fun x r => p ∈ x.1.derefs → p ∈ r.derefs ∧ f ∈ r.derefs) ?_ ?_ h hp
  · exact fun x r hlast hp => (drawScreenLoops_derefs hp).2 r hlast
  · exact fun x y r hnext hr hp => hr ((drawScreenLoops_derefs hp).1 y hnext)

theorem zero_lt_of_ne {x : U64} (h : x ≠ 0) : 0 < x := by
  rw [BitVec.lt_def]
  exact BitVec.toNat_pos_of_ne_zero h

theorem framebuffer_mem_derefs (hh : height s.mem f ≠ 0) (hw : width s.mem f ≠ 0)
    (h : Returns (drawScreenLoops f) (s, 0, none) u) : s.framebuffer ∈ u.derefs := by
  have hrow : drawScreenLoops f (s, 0, none) = .inl (s.deref f, 0, some 0) := by
    rw [drawScreenLoops_row, if_pos (zero_lt_of_ne hh)]
  have hpixel : drawScreenLoops f (s.deref f, 0, some 0) =
      .inl (putpixel 0 0 0x0000FF ((s.deref f).deref f), 0, some (0 + 1)) := by
    rw [drawScreenLoops_pixel]
    exact if_pos (zero_lt_of_ne hw)
  refine (mem_derefs_of_returns ((h.tail hrow).tail hpixel) ?_).1
  exact List.mem_cons_of_mem _ List.mem_cons_self

/-- What holds while there is nothing to draw. -/
def Quiet (m : Bytes) (t : Screen) : Prop := t.mem = m ∧ 0 ∉ t.derefs

theorem Quiet.below {m : Bytes} {t : Screen} (h : Quiet m t) (hf : f ≠ 0)
    (bound : Bytes → U64 → U64) (i : U64) : Quiet m (below (fun _ => f) bound t i).1 ∧ () = () ∧
      ((below (fun _ => f) bound t i).2 = true ↔ i.toNat < (bound m f).toNat) := by
  obtain ⟨hmem, hderefs⟩ := h
  refine ⟨⟨hmem, ?_⟩, rfl, ?_⟩
  · show 0 ∉ f :: t.derefs
    rw [List.mem_cons, not_or]
    exact ⟨hf.symm, hderefs⟩
  · rw [below_iff le_rfl, hmem]

theorem drawScreenLoops_blank (hf : f ≠ 0) (hempty : height s.mem f = 0 ∨ width s.mem f = 0)
    (hs : 0 ∉ s.derefs) : ∃ u, Returns (drawScreenLoops f) (s, 0, none) u ∧ 0 ∉ u.derefs := by
  have hcount : NestedCounts (below (fun _ => f) height) (below (fun _ => f) width)
      (fun s y i => putpixel i y 0x0000FF s) (Quiet s.mem) (fun _ => ()) (fun _ _ _ => ())
      (height s.mem f).toNat (width s.mem f).toNat := by
    refine ⟨fun t i ht => ht.below hf height i, fun t i ht => ht.below hf width i,
      fun t y x _ hy hx => ?_, (height s.mem f).isLt, (width s.mem f).isLt⟩
    -- there is no such pixel
    rcases hempty with hzero | hzero
    · rw [hzero] at hy
      exact absurd hy (Nat.not_lt_zero _)
    · rw [hzero] at hx
      exact absurd hx (Nat.not_lt_zero _)
  obtain ⟨u, hu, -, hret⟩ := hcount.returns ⟨rfl, hs⟩
  exact ⟨u, hret, hu.2⟩

/-- **`draw_screen` before `set_up_framebuffer`.** It returns without a `NULL` pointer on the way
exactly when there is nothing to draw. -/
theorem drawScreen_safe_iff (hfb : s.framebuffer = 0) (hs : s.derefs = []) :
    (∃ u, DrawScreen s u ∧ 0 ∉ u.derefs) ↔ Blank s := by
  have hstart : (requestFrameBuffer s 0).2.derefs = [s.table, s.response] := by
    show s.table :: s.response :: s.derefs = _
    rw [hs]
  constructor
  · rintro ⟨u, hdraw, hnull⟩
    have hmem : ∀ p, p ∈ [s.table, s.response] → p ∈ u.derefs ∧ s.framebuffers 0 ∈ u.derefs :=
      fun p hp => mem_derefs_of_returns hdraw (by rwa [hstart])
    refine ⟨fun h => hnull (h ▸ (hmem s.response (by simp)).1),
      fun h => hnull (h ▸ (hmem s.table (by simp)).1),
      fun h => hnull (h ▸ (hmem s.table (by simp)).2), ?_⟩
    by_contra hpixel
    obtain ⟨hh, hw⟩ := not_or.mp hpixel
    have hglobal := framebuffer_mem_derefs (s := (requestFrameBuffer s 0).2) hh hw hdraw
    exact hnull (hfb ▸ hglobal)
  · rintro ⟨hresponse, htable, hfirst, hempty⟩
    refine drawScreenLoops_blank hfirst hempty ?_
    rw [hstart, List.mem_pair, not_or]
    exact ⟨htable.symm, hresponse.symm⟩

end Draw

/-! ## The boot -/

/-- The globals that `kmain` and the boot CPU write later. -/
def Boot.globals (b : Boot) : U64 × U64 × U64 := (b.framebuffer, b.fbPtr, b.cpuState)

/-- The kernel's image: the globals of `kmain.c` are in `.bss`, and `cpu_state` has no
initialiser. -/
def Boot.Fresh (b : Boot) : Prop := b.globals = (0, 0, 0)

theorem onVm_keeps {α : Type} (x : Kernel Vm α) : Keeps Boot.globals (onVm x) := by
  have hput : ∀ (v : Vm) (b : Boot), Boot.globals { b with vm := v } = b.globals := fun _ _ => rfl
  exact keeps_zoom hput x

theorem onInterrupts_keeps {α : Type} (x : Kernel Interrupts α) :
    Keeps Boot.globals (onInterrupts x) := by
  have hput : ∀ (i : Interrupts) (b : Boot), Boot.globals { b with interrupts := i } = b.globals :=
    fun _ _ => rfl
  exact keeps_zoom hput x

theorem panicIf_keeps (c : Prop) [Decidable c] (msg : String) :
    Keeps Boot.globals (panicIf c msg) := (keeps_throw _).ite (keeps_pure _)

theorem kentry_keeps (M : Machine) : Keeps Boot.globals (kentry M) := by
  have hran : ∀ b : Boot, Boot.globals { b with kentryRan := true } = b.globals := fun _ => rfl
  refine Keeps.bind keeps_get fun b => ?_
  refine Keeps.bind (keeps_modify hran) fun _ => ?_
  refine Keeps.bind (panicIf_keeps _ _) fun _ => ?_
  refine Keeps.bind (panicIf_keeps _ _) fun _ => ?_
  refine Keeps.bind (panicIf_keeps _ _) fun _ => ?_
  refine Keeps.bind (panicIf_keeps _ _) fun _ => ?_
  refine Keeps.bind (panicIf_keeps _ _) fun _ => ?_
  refine Keeps.bind (panicIf_keeps _ _) fun _ => ?_
  refine Keeps.bind (onInterrupts_keeps _) fun _ => ?_
  refine Keeps.bind (onVm_keeps _) fun _ => ?_
  exact Keeps.bind (onVm_keeps _) fun _ => onVm_keeps _

theorem Boots.globals {M : Machine} {b t : Boot} {halt : Option Halt} (h : Boots M b halt t) :
    t.globals = b.globals := by
  have hkeeps := kentry_keeps M b
  rcases h with ⟨e, hrun, -⟩ | ⟨o, hrun, -, -⟩
  · rw [hrun] at hkeeps
    exact hkeeps
  · rw [hrun] at hkeeps
    exact hkeeps

/-- What a panic needs while the global is `NULL`. -/
theorem PanicSafe.blank {M : Machine} {t : Boot} (h : PanicSafe M t) (hfb : t.framebuffer = 0) :
    Blank (t.screen M) := by
  obtain ⟨u, ⟨-, hdraw⟩, hnull⟩ := h
  exact (drawScreen_safe_iff hfb rfl).mp ⟨u, hdraw, hnull⟩

/-- **Panics before the screen is set up.** For every boot, wherever it has come to before `kmain`:
a panic there comes to `triple_fault` without dereferencing `NULL` exactly when the response is
there and its first framebuffer has no pixel. -/
theorem panic_early_iff {M : Machine} {b t : Boot} {halt : Option Halt} (hb : b.Fresh)
    (h : Boots M b halt t) : PanicSafe M t ↔ Blank (t.screen M) := by
  obtain ⟨hfb, hrest⟩ := Prod.mk.inj (h.globals.trans hb)
  obtain ⟨-, hstate⟩ := Prod.mk.inj hrest
  refine ⟨fun hsafe => hsafe.blank hfb, fun hblank => ?_⟩
  obtain ⟨u, hdraw, hnull⟩ := (drawScreen_safe_iff hfb rfl).mpr hblank
  refine ⟨u, ⟨?_, hdraw⟩, hnull⟩
  rintro ⟨-, hbit⟩
  rw [hstate] at hbit
  exact hbit BitVec.zero_and

/-- Physical memory is mapped at 0, and everything else is empty. -/
def plainMachine : Machine where
  directMap := 0
  stubs := ⟨0, 0, 0, 0, 0, 0⟩
  image _ := 0
  drivers := []
  acpi _ := 0
  text := 0
  rsdp := 0
  stack := zeroedDevice

/-- A boot without a memory map; the structures of `smallScreen` are in memory. -/
def noMemmap (response : U64) : Boot where
  kentryRan := false
  revisionSupported := true
  response := response
  memmap := none
  hhdm := some 0
  mp := none
  interrupts := zeroed
  vm := { blankVm [] with
    mem := fun frame i => ByteMemory.load64 smallScreen.mem (frame + BitVec.ofNat 64 (8 * i.val)) }
  framebuffer := 0
  fbPtr := 0
  cpuState := 0

theorem panicIf_of {c : Prop} [Decidable c] (h : c) (msg : String) (b : Boot) :
    panicIf c msg b = .error (.panic msg .unknown) b := by
  rw [panicIf, if_pos h]
  rfl

theorem panicIf_of_not {c : Prop} [Decidable c] (h : ¬ c) (msg : String) (b : Boot) :
    panicIf c msg b = .ok () b := by
  rw [panicIf, if_neg h]
  rfl

theorem noMemmap_null : Boots plainMachine (noMemmap 0)
    (some (.panic "Didnt recieve a framebuffer" .unknown))
    { noMemmap 0 with kentryRan := true } :=
  .inl ⟨_, rfl, rfl⟩

theorem noMemmap_screen : Boots plainMachine (noMemmap 0x500)
    (some (.panic "Didnt recieve a memmap" .unknown))
    { noMemmap 0x500 with kentryRan := true } := by
  have hran : ¬ (noMemmap 0x500).kentryRan = true := by decide
  have hrevision : ¬ (noMemmap 0x500).revisionSupported = false := by decide
  have hscreen : ¬ ((noMemmap 0x500).response = 0 ∨
      ((noMemmap 0x500).screen plainMachine).framebufferCount < 1) := by decide
  have hmemmap : (noMemmap 0x500).memmap.isNone = true ∨
      ((noMemmap 0x500).memmap.getD []).length < 1 := by decide
  have hget : (get : Kernel Boot Boot) (noMemmap 0x500) =
      .ok (noMemmap 0x500) (noMemmap 0x500) := rfl
  have hset : (modify fun b => { b with kentryRan := true } : Kernel Boot Unit) (noMemmap 0x500) =
      .ok () { noMemmap 0x500 with kentryRan := true } := rfl
  refine .inl ⟨_, ?_, rfl⟩
  unfold kentry
  rw [bind_of_ok hget, bind_of_ok hset, bind_of_ok (panicIf_of_not hran _ _),
    bind_of_ok (panicIf_of_not hrevision _ _), bind_of_ok (panicIf_of_not hscreen _ _),
    bind_of_error (panicIf_of hmemmap _ _)]

/-- The small screen is there, and a panic for want of a memory map is not safe. -/
theorem panic_early_noMemmap :
    Boots plainMachine (noMemmap 0x500) (some (.panic "Didnt recieve a memmap" .unknown))
      { noMemmap 0x500 with kentryRan := true } ∧
    ¬ PanicSafe plainMachine { noMemmap 0x500 with kentryRan := true } := by
  have hfresh : (noMemmap 0x500).Fresh := rfl
  refine ⟨noMemmap_screen, fun hsafe => ?_⟩
  obtain ⟨-, -, -, hempty⟩ := (panic_early_iff hfresh noMemmap_screen).mp hsafe
  exact absurd hempty (by decide)

/-- A panic for want of a framebuffer dereferences the response that is not there. -/
theorem panic_early_null :
    Boots plainMachine (noMemmap 0) (some (.panic "Didnt recieve a framebuffer" .unknown))
      { noMemmap 0 with kentryRan := true } ∧
    ¬ PanicSafe plainMachine { noMemmap 0 with kentryRan := true } :=
  ⟨noMemmap_null, fun h => (h.blank rfl).response rfl⟩

end DejOs.Panic
