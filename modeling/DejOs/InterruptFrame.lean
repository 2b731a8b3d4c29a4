import DejOs.Base
import DejOs.Lib.ByteMemory

/-!
# The register frame of an interrupt handler

The stubs of `interrupts.S` push the general registers below what the processor pushed and hand the
stack pointer to a C handler, which reads it as a packed structure of `interrupt.c` or `nmi.c`.

`PUSH_ALL` pushes `rax` first, so `rax` ends up highest; the structures name `rax` first, so they
look for it lowest. The fields of the fifteen general registers are read in the reverse order, and
the frame is right only for values that read the same both ways (`frame_right_iff`). What the
processor pushed is read as it should be.
-/

namespace DejOs.InterruptFrame

open ByteMemory

/-- The registers that take part in an interrupt. -/
inductive Reg
  | rax | rcx | rdx | rbx | rbp | rsi | rdi
  | r8 | r9 | r10 | r11 | r12 | r13 | r14 | r15
  | rip | cs | rflags | rsp | ss
  deriving DecidableEq, Repr

/-- A field of a frame structure: a register, or the error code. -/
inductive Field
  | reg (r : Reg)
  | ec
  deriving DecidableEq, Repr

structure Cpu where
  regs : Reg → U64
  mem : Memory 64

/-! ## The stubs -/

/-- The four stubs that hand a frame to their handler. -/
inductive Stub
  | intNmi
  | intTss
  | intGeneralProtectionFault
  | intPageFault
  deriving DecidableEq, Repr

inductive Instr
  | push (r : Reg)
  | mov (dst src : Reg)
  | cld
  /-- The call of the handler of a stub. -/
  | call (handler : Stub)
  deriving DecidableEq, Repr

/-- The registers in the order of `PUSH_ALL`. -/
def pushAllRegs : List Reg :=
  [.rax, .rcx, .rdx, .rbx, .rbp, .rsi, .rdi,
    .r8, .r9, .r10, .r11, .r12, .r13, .r14, .r15]

/-- `PUSH_ALL` -/
def pushAll : List Instr := pushAllRegs.map .push

/-- What each of the four stubs does until its handler runs. -/
def callWithFrame (handler : Stub) : List Instr :=
  pushAll ++ [.mov .rdi .rsp, .cld, .call handler]

def intNmi : List Instr := callWithFrame .intNmi

def intTss : List Instr := callWithFrame .intTss

def intGeneralProtectionFault : List Instr := callWithFrame .intGeneralProtectionFault

def intPageFault : List Instr := callWithFrame .intPageFault

namespace Stub

def code : Stub → List Instr
  | .intNmi => InterruptFrame.intNmi
  | .intTss => InterruptFrame.intTss
  | .intGeneralProtectionFault => InterruptFrame.intGeneralProtectionFault
  | .intPageFault => InterruptFrame.intPageFault

/-- The processor pushes an error code for the vectors 10, 13 and 14, and none for 2. -/
def errorCode : Stub → Bool
  | .intNmi => false
  | .intTss | .intGeneralProtectionFault | .intPageFault => true

end Stub

/-! ## The frame structures, by their fields -/

/-- The general registers, which all four structures name in this order. -/
def generalFields : List Field :=
  [.reg .rax, .reg .rcx, .reg .rdx, .reg .rbx, .reg .rbp, .reg .rsi, .reg .rdi,
    .reg .r8, .reg .r9, .reg .r10, .reg .r11, .reg .r12, .reg .r13, .reg .r14, .reg .r15]

/-- `nmi_registers_t` -/
def nmiRegisters : List Field :=
  generalFields ++ ([.reg .rip, .reg .cs, .reg .rflags, .reg .rsp, .reg .ss] : List Field)

/-- `tss_regs_t` -/
def tssRegs : List Field :=
  generalFields ++ ([.ec, .reg .rip, .reg .cs, .reg .rflags, .reg .rsp, .reg .ss] : List Field)

/-- `gp_registers_t` -/
def gpRegisters : List Field :=
  generalFields ++ ([.ec, .reg .rip, .reg .cs, .reg .rflags, .reg .rsp, .reg .ss] : List Field)

/-- `page_fault_regs_t` -/
def pageFaultRegs : List Field :=
  generalFields ++ ([.ec, .reg .rip, .reg .cs, .reg .rflags, .reg .rsp, .reg .ss] : List Field)

/-- The structure the handler of a stub takes a pointer to. -/
def Stub.frame : Stub → List Field
  | .intNmi => nmiRegisters
  | .intTss => tssRegs
  | .intGeneralProtectionFault => gpRegisters
  | .intPageFault => pageFaultRegs

/-- A field of a packed structure of `uint64_t` fields at `p`. -/
def field (layout : List Field) (m : Memory 64) (p : U64) (f : Field) : U64 :=
  load64 m (p + BitVec.ofNat 64 (8 * layout.idxOf f))

/-! ## Running a stub -/

namespace Cpu

def stack (c : Cpu) : Stack 64 := ⟨c.mem, c.regs .rsp⟩

def setStack (c : Cpu) (s : Stack 64) : Cpu where
  regs := Function.update c.regs .rsp s.sp
  mem := s.mem

/-- `ret` gives the address behind the call in each stub. -/
def exec (ret : Stub → U64) (c : Cpu) : Instr → Cpu
  | .push r => c.setStack (c.stack.push (bytes64 (c.regs r)))
  | .mov dst src => { c with regs := Function.update c.regs dst (c.regs src) }
  | .cld => { c with regs := Function.update c.regs .rflags (c.regs .rflags &&& ~~~0x400) }
  | .call handler => c.setStack (c.stack.push (bytes64 (ret handler)))

def run (ret : Stub → U64) (c : Cpu) (code : List Instr) : Cpu := code.foldl (exec ret) c

/-- The words the processor pushes, the first one first. -/
def hardwareWords (regs : Reg → U64) (ec : Option U64) : List U64 :=
  [regs .ss, regs .rsp, regs .rflags, regs .cs, regs .rip] ++ ec.toList

/-- The delivery of an interrupt, on the stack `rsp0` if the privilege level changes: the pointer is
aligned down to 16 bytes, then the interrupted state is pushed. The new `rip`, `cs`, `ss` and
`rflags` are not modelled; the stubs read none of them. -/
def deliver (c : Cpu) (rsp0 : Option U64) (ec : Option U64) : Cpu :=
  c.setStack (Stack.pushes ⟨c.mem, rsp0.getD (c.regs .rsp) &&& ~~~0xF⟩
    ((hardwareWords c.regs ec).map bytes64))

end Cpu

/-- The processor at the first instruction of the handler, after an interrupt in the state `c`. -/
def Stub.enter (stub : Stub) (ret : Stub → U64) (c : Cpu) (rsp0 : Option U64) (ec : U64) : Cpu :=
  (c.deliver rsp0 (if stub.errorCode then some ec else none)).run ret stub.code

/-- The interrupted value that a field is named after. -/
def Field.value (regs : Reg → U64) (ec : U64) : Field → U64
  | .reg r => regs r
  | .ec => ec

/-- Every field of the handler's frame has the interrupted value. -/
def FrameRight (stub : Stub) (ret : Stub → U64) (c : Cpu) (rsp0 : Option U64) (ec : U64) : Prop :=
  ∀ f ∈ stub.frame, field stub.frame (stub.enter ret c rsp0 ec).mem
    ((stub.enter ret c rsp0 ec).regs .rdi) f = f.value c.regs ec

/-! ## The words on the stack -/

namespace Cpu

@[simp] theorem stack_setStack (c : Cpu) (s : Stack 64) : (c.setStack s).stack = s := by
  simp [stack, setStack]

@[simp] theorem setStack_setStack (c : Cpu) (s t : Stack 64) :
    (c.setStack s).setStack t = c.setStack t := by
  unfold setStack
  rw [Function.update_idem]

theorem setStack_regs (c : Cpu) (s : Stack 64) {r : Reg} (h : r ≠ .rsp) :
    (c.setStack s).regs r = c.regs r := Function.update_of_ne h _ _

/-- A run of pushes pushes the registers' values, one after the other. -/
theorem run_pushes (ret : Stub → U64) (c : Cpu) (s : Stack 64) (rs : List Reg)
    (h : Reg.rsp ∉ rs) :
    (c.setStack s).run ret (rs.map .push) =
      c.setStack (s.pushes ((rs.map c.regs).map bytes64)) := by
  induction rs generalizing s with
  | nil => rfl
  | cons r rs ih =>
    have hr : r ≠ .rsp := fun e => h (e ▸ List.mem_cons_self)
    have hrs : Reg.rsp ∉ rs := fun hm => h (List.mem_cons_of_mem r hm)
    have hstep : (c.setStack s).exec ret (.push r) =
        c.setStack (s.push (bytes64 (c.regs r))) := by
      simp only [exec, stack_setStack, setStack_setStack, setStack_regs c s hr]
    simp only [List.map_cons, Stack.pushes_cons]
    rw [← ih (s.push (bytes64 (c.regs r))) hrs, ← hstep]
    rfl

end Cpu

namespace Stub

/-- Everything pushed below the aligned pointer when the handler's frame is complete. -/
def words (stub : Stub) (c : Cpu) (ec : U64) : List U64 :=
  Cpu.hardwareWords c.regs (if stub.errorCode then some ec else none) ++ pushAllRegs.map c.regs

/-- The stack when the frame is complete. -/
def framed (stub : Stub) (c : Cpu) (rsp0 : Option U64) (ec : U64) : Stack 64 :=
  Stack.pushes ⟨c.mem, rsp0.getD (c.regs .rsp) &&& ~~~0xF⟩ ((stub.words c ec).map bytes64)

/-- The handler gets the pointer to the frame; the call pushes its return address below. -/
theorem enter_eq (stub : Stub) (ret : Stub → U64) (c : Cpu) (rsp0 : Option U64) (ec : U64) :
    (stub.enter ret c rsp0 ec).mem = ((stub.framed c rsp0 ec).push (bytes64 (ret stub))).mem ∧
      (stub.enter ret c rsp0 ec).regs .rdi = (stub.framed c rsp0 ec).sp := by
  have hcode : stub.code = pushAllRegs.map .push ++ [.mov .rdi .rsp, .cld, .call stub] := by
    cases stub <;> rfl
  have hframe : (c.deliver rsp0 (if stub.errorCode then some ec else none)).run ret
      (pushAllRegs.map .push) = c.setStack (stub.framed c rsp0 ec) := by
    unfold Cpu.deliver framed words
    rw [Cpu.run_pushes ret c _ pushAllRegs (by decide), List.map_append, Stack.pushes,
      Stack.pushes, Stack.pushes, List.foldl_append]
  unfold enter
  rw [hcode]
  unfold Cpu.run at hframe ⊢
  rw [List.foldl_append, hframe]
  exact ⟨rfl, rfl⟩

theorem length_words (stub : Stub) (c : Cpu) (ec : U64) :
    (stub.words c ec).length = stub.frame.length := by
  cases stub <;> rfl

theorem nodup_frame (stub : Stub) : stub.frame.Nodup := by
  cases stub <;> decide

/-- The fields, in order, read the words that were pushed, the last one first. -/
theorem fields_eq (stub : Stub) (ret : Stub → U64) (c : Cpu) (rsp0 : Option U64) (ec : U64) :
    stub.frame.map (field stub.frame (stub.enter ret c rsp0 ec).mem
      ((stub.enter ret c rsp0 ec).regs .rdi)) = (stub.words c ec).reverse := by
  have hlen : (stub.words c ec).reverse.length = stub.frame.length := by
    rw [List.length_reverse, length_words]
  have hsize : stub.frame.length ≤ 21 := by cases stub <;> decide
  obtain ⟨hmem, hrdi⟩ := stub.enter_eq ret c rsp0 ec
  apply List.ext_getElem (by rw [List.length_map, hlen])
  intro i hi hi'
  rw [List.length_map] at hi
  rw [List.getElem_map, field, stub.nodup_frame.idxOf_getElem i hi, hmem, hrdi,
    Stack.load64_push_above _ _ (by rw [length_bytes64]; omega)]
  exact Stack.load64_pushes _ (stub.words c ec) (by rw [length_words]; omega) (by decide) i hi'

theorem values_eq (stub : Stub) (c : Cpu) (ec : U64) :
    stub.frame.map (Field.value c.regs ec) = pushAllRegs.map c.regs ++
      (Cpu.hardwareWords c.regs (if stub.errorCode then some ec else none)).reverse := by
  cases stub <;> rfl

end Stub

/-- The values of the general registers are the same from both ends. -/
theorem palindrome_iff (regs : Reg → U64) :
    (pushAllRegs.map regs).reverse = pushAllRegs.map regs ↔
      regs .rax = regs .r15 ∧ regs .rcx = regs .r14 ∧ regs .rdx = regs .r13 ∧
      regs .rbx = regs .r12 ∧ regs .rbp = regs .r11 ∧ regs .rsi = regs .r10 ∧
      regs .rdi = regs .r9 := by
  simp only [pushAllRegs, List.map_cons, List.map_nil, List.reverse_cons, List.reverse_nil,
    List.nil_append, List.cons_append, List.cons.injEq, and_true, true_and]
  constructor
  · rintro ⟨h15, h14, h13, h12, h11, h10, h9, -⟩
    exact ⟨h15.symm, h14.symm, h13.symm, h12.symm, h11.symm, h10.symm, h9.symm⟩
  · rintro ⟨h15, h14, h13, h12, h11, h10, h9⟩
    exact ⟨h15.symm, h14.symm, h13.symm, h12.symm, h11.symm, h10.symm, h9.symm,
      h9, h10, h11, h12, h13, h14, h15⟩

/-- The general registers are read backwards, and nothing else is wrong. -/
theorem frameRight_iff_reverse (stub : Stub) (ret : Stub → U64) (c : Cpu) (rsp0 : Option U64)
    (ec : U64) : FrameRight stub ret c rsp0 ec ↔
      (pushAllRegs.map c.regs).reverse = pushAllRegs.map c.regs := by
  unfold FrameRight
  rw [← List.map_inj_left, Stub.fields_eq, Stub.values_eq, Stub.words, List.reverse_append,
    List.append_left_inj]

/-- **The frame is the registers backwards.** For every stub, every interrupted state and either
stack, the fields of the handler's structure have the values of the registers they are named after
exactly when the values of the general registers read the same in both directions. -/
theorem frame_right_iff (stub : Stub) (ret : Stub → U64) (c : Cpu) (rsp0 : Option U64) (ec : U64) :
    FrameRight stub ret c rsp0 ec ↔
      c.regs .rax = c.regs .r15 ∧ c.regs .rcx = c.regs .r14 ∧ c.regs .rdx = c.regs .r13 ∧
      c.regs .rbx = c.regs .r12 ∧ c.regs .rbp = c.regs .r11 ∧ c.regs .rsi = c.regs .r10 ∧
      c.regs .rdi = c.regs .r9 := by
  rw [frameRight_iff_reverse, palindrome_iff]

/-- A processor with `rax = 1` and zeros elsewhere. -/
def oneInRax : Cpu := ⟨Function.update (fun _ => 0) .rax 1, fun _ => 0⟩

/-- **The handler is told the wrong registers.** A page fault with `rax = 1`, `r15 = 0` hands over a
frame that is not the interrupted state. -/
theorem pageFault_frame_wrong :
    ¬ FrameRight .intPageFault (fun _ => 0) oneInRax none 0 := by
  rw [frameRight_iff_reverse, palindrome_iff]
  rintro ⟨hrax, -⟩
  exact absurd hrax (by decide)

end DejOs.InterruptFrame
