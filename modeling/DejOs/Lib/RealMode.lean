import Mathlib.Tactic

/-!
# A processor in 16-bit real mode

The registers, a memory by the linear address, and the instructions that move, combine, multiply and
divide words and bytes. A block is a list of instructions without jumps; `run` makes them one after
the other and ends with `none` at a divide error.

The stack is the list of the words on it, the last pushed first. It is no part of the memory, so
that a store does not change it; return addresses are not on it, since a call is the block that is
called.
-/

namespace RealMode

abbrev Word := BitVec 16

abbrev Memory := ℕ → BitVec 8

/-! ## Halves of a word -/

/-- The high byte of a word. -/
def hi (w : Word) : BitVec 8 := w.extractLsb' 8 8

/-- The low byte of a word. -/
def lo (w : Word) : BitVec 8 := w.extractLsb' 0 8

theorem toNat_hi (w : Word) : (hi w).toNat = w.toNat / 256 := by
  have hlt := w.isLt
  unfold hi
  rw [BitVec.extractLsb'_toNat, Nat.shiftRight_eq_div_pow]
  omega

theorem toNat_lo (w : Word) : (lo w).toNat = w.toNat % 256 := by
  unfold lo
  rw [BitVec.extractLsb'_toNat, Nat.shiftRight_eq_div_pow]
  omega

theorem toNat_append (a b : BitVec 8) : (a ++ b : Word).toNat = 256 * a.toNat + b.toNat := by
  show (a ++ b : BitVec (8 + 8)).toNat = _
  rw [BitVec.toNat_append, ← Nat.shiftLeft_add_eq_or_of_lt b.isLt, Nat.shiftLeft_eq, Nat.mul_comm]

@[simp] theorem hi_append (a b : BitVec 8) : hi (a ++ b) = a := by
  apply BitVec.eq_of_toNat_eq
  rw [toNat_hi, toNat_append]
  omega

@[simp] theorem lo_append (a b : BitVec 8) : lo (a ++ b) = b := by
  apply BitVec.eq_of_toNat_eq
  rw [toNat_lo, toNat_append]
  omega

@[simp] theorem append_hi_lo (w : Word) : hi w ++ lo w = w := by
  apply BitVec.eq_of_toNat_eq
  rw [toNat_append, toNat_hi, toNat_lo]
  omega

/-! ## The state -/

/-- The registers and flags that are used, the stack and the memory. -/
structure Cpu where
  ax : Word
  bx : Word
  cx : Word
  dx : Word
  si : Word
  di : Word
  bp : Word
  ds : Word
  es : Word
  fs : Word
  zf : Bool
  cf : Bool
  stack : List Word
  mem : Memory

inductive Reg16
  | ax | bx | cx | dx | si | di | bp
  deriving DecidableEq, Repr

inductive Reg8
  | al | ah | bl | bh | cl | ch | dl | dh
  deriving DecidableEq, Repr

inductive Seg
  | ds | es | fs
  deriving DecidableEq, Repr

namespace Cpu

@[simp] def reg (s : Cpu) : Reg16 → Word
  | .ax => s.ax
  | .bx => s.bx
  | .cx => s.cx
  | .dx => s.dx
  | .si => s.si
  | .di => s.di
  | .bp => s.bp

@[simp] def setReg (s : Cpu) (r : Reg16) (v : Word) : Cpu :=
  match r with
  | .ax => { s with ax := v }
  | .bx => { s with bx := v }
  | .cx => { s with cx := v }
  | .dx => { s with dx := v }
  | .si => { s with si := v }
  | .di => { s with di := v }
  | .bp => { s with bp := v }

@[simp] def seg (s : Cpu) : Seg → Word
  | .ds => s.ds
  | .es => s.es
  | .fs => s.fs

@[simp] def setSeg (s : Cpu) (g : Seg) (v : Word) : Cpu :=
  match g with
  | .ds => { s with ds := v }
  | .es => { s with es := v }
  | .fs => { s with fs := v }

@[simp] def reg8 (s : Cpu) : Reg8 → BitVec 8
  | .al => lo s.ax
  | .ah => hi s.ax
  | .bl => lo s.bx
  | .bh => hi s.bx
  | .cl => lo s.cx
  | .ch => hi s.cx
  | .dl => lo s.dx
  | .dh => hi s.dx

@[simp] def setReg8 (s : Cpu) (r : Reg8) (v : BitVec 8) : Cpu :=
  match r with
  | .al => { s with ax := hi s.ax ++ v }
  | .ah => { s with ax := v ++ lo s.ax }
  | .bl => { s with bx := hi s.bx ++ v }
  | .bh => { s with bx := v ++ lo s.bx }
  | .cl => { s with cx := hi s.cx ++ v }
  | .ch => { s with cx := v ++ lo s.cx }
  | .dl => { s with dx := hi s.dx ++ v }
  | .dh => { s with dx := v ++ lo s.dx }

end Cpu

/-- The linear address of `seg:off`. -/
def linear (seg off : Word) : ℕ := 16 * seg.toNat + off.toNat

/-- The word at `seg:off`. -/
def loadWord (m : Memory) (seg off : Word) : Word := m (linear seg (off + 1)) ++ m (linear seg off)

/-- Stores a word at `seg:off`. -/
def storeWord (m : Memory) (seg off w : Word) : Memory :=
  Function.update (Function.update m (linear seg off) (lo w)) (linear seg (off + 1)) (hi w)

section Words

variable {m m' : Memory} {seg off w : Word} {a : ℕ}

theorem toNat_succ (h : w.toNat + 1 < 2 ^ 16) : (w + 1).toNat = w.toNat + 1 :=
  BitVec.toNat_add_of_lt h

/-- The byte behind one that is not the last of its segment. -/
theorem linear_succ (h : off.toNat + 1 < 2 ^ 16) : linear seg (off + 1) = linear seg off + 1 := by
  unfold linear
  rw [toNat_succ h, Nat.add_assoc]

theorem loadWord_eq (h : off.toNat + 1 < 2 ^ 16) :
    loadWord m seg off = m (linear seg off + 1) ++ m (linear seg off) := by
  unfold loadWord
  rw [linear_succ h]

theorem loadWord_congr (h : off.toNat + 1 < 2 ^ 16)
    (h₀ : m' (linear seg off) = m (linear seg off))
    (h₁ : m' (linear seg off + 1) = m (linear seg off + 1)) :
    loadWord m' seg off = loadWord m seg off := by
  rw [loadWord_eq h, loadWord_eq h, h₀, h₁]

theorem loadWord_storeWord (h : off.toNat + 1 < 2 ^ 16) :
    loadWord (storeWord m seg off w) seg off = w := by
  rw [loadWord_eq h]
  unfold storeWord
  rw [linear_succ h, Function.update_self, Function.update_of_ne (Nat.lt_succ_self _).ne,
    Function.update_self, append_hi_lo]

theorem storeWord_of_ne (h : off.toNat + 1 < 2 ^ 16) (h₀ : a ≠ linear seg off)
    (h₁ : a ≠ linear seg off + 1) : storeWord m seg off w a = m a := by
  unfold storeWord
  rw [linear_succ h, Function.update_of_ne h₁, Function.update_of_ne h₀]

end Words

/-! ## Instructions -/

/-- What a word is moved to: a register, a segment register or `[seg:base + disp]`. -/
inductive Place
  | reg (r : Reg16)
  | seg (g : Seg)
  | mem (g : Seg) (base : Option Reg16) (disp : Word)
  deriving DecidableEq, Repr

inductive Operand
  | place (p : Place)
  | imm (w : Word)
  deriving DecidableEq, Repr

/-- Where a byte comes from. -/
inductive Operand8
  | reg (r : Reg8)
  | mem (g : Seg) (disp : Word)
  | imm (b : BitVec 8)
  deriving DecidableEq, Repr

/-- The operations that set both flags; `cmp` and `test` keep the flags only. -/
inductive Alu
  | add | and | or | xor | cmp | test
  deriving DecidableEq, Repr

inductive Instr
  | mov (dst : Place) (src : Operand)
  | mov8 (dst : Reg8) (src : Operand8)
  | alu (op : Alu) (dst : Reg16) (src : Operand)
  | or8 (dst : Reg8) (src : Operand8)
  | inc (dst : Reg16)
  | dec (dst : Reg16)
  | shl8 (dst : Reg8) (n : ℕ)
  | shr (dst : Reg16) (n : ℕ)
  | mul (src : Operand)
  | div (src : Operand)
  | push (src : Operand)
  | pop (dst : Place)
  | pusha
  | popa
  | stc
  deriving DecidableEq, Repr

namespace Cpu

variable (s : Cpu)

/-- The offset of a place in memory. -/
@[simp] def offset (base : Option Reg16) (disp : Word) : Word :=
  match base with
  | none => disp
  | some r => s.reg r + disp

@[simp] def get : Place → Word
  | .reg r => s.reg r
  | .seg g => s.seg g
  | .mem g base disp => loadWord s.mem (s.seg g) (s.offset base disp)

@[simp] def set (p : Place) (v : Word) : Cpu :=
  match p with
  | .reg r => s.setReg r v
  | .seg g => s.setSeg g v
  | .mem g base disp => { s with mem := storeWord s.mem (s.seg g) (s.offset base disp) v }

@[simp] def value : Operand → Word
  | .place p => s.get p
  | .imm w => w

@[simp] def value8 : Operand8 → BitVec 8
  | .reg r => s.reg8 r
  | .mem g disp => s.mem (linear (s.seg g) disp)
  | .imm b => b

@[simp] def flags (zf cf : Bool) : Cpu := { s with zf := zf, cf := cf }

end Cpu

/-- The result of an operation, if it is kept, and the flags. -/
@[simp] def Alu.eval (op : Alu) (a b : Word) : Option Word × Bool × Bool :=
  match op with
  | .add => (some (a + b), a + b = 0, 2 ^ 16 ≤ a.toNat + b.toNat)
  | .and => (some (a &&& b), a &&& b = 0, false)
  | .or => (some (a ||| b), a ||| b = 0, false)
  | .xor => (some (a ^^^ b), a ^^^ b = 0, false)
  | .cmp => (none, a = b, a < b)
  | .test => (none, a &&& b = 0, false)

/-- One instruction. There is no next state after a divide error, or when nothing is there to be
popped. -/
def exec (i : Instr) (s : Cpu) : Option Cpu :=
  match i with
  | .mov dst src => some (s.set dst (s.value src))
  | .mov8 dst src => some (s.setReg8 dst (s.value8 src))
  | .alu op dst src =>
    let (r, zf, cf) := op.eval (s.reg dst) (s.value src)
    some ((r.elim s (s.setReg dst)).flags zf cf)
  | .or8 dst src =>
    let r := s.reg8 dst ||| s.value8 src
    some ((s.setReg8 dst r).flags (r = 0) false)
  | .inc dst => some ((s.setReg dst (s.reg dst + 1)).flags (s.reg dst + 1 = 0) s.cf)
  | .dec dst => some ((s.setReg dst (s.reg dst - 1)).flags (s.reg dst - 1 = 0) s.cf)
  | .shl8 dst n =>
    let r := s.reg8 dst <<< n
    some ((s.setReg8 dst r).flags (r = 0) ((s.reg8 dst).getLsbD (8 - n)))
  | .shr dst n =>
    let r := s.reg dst >>> n
    some ((s.setReg dst r).flags (r = 0) ((s.reg dst).getLsbD (n - 1)))
  | .mul src =>
    let p := s.ax.toNat * (s.value src).toNat
    some { s with ax := BitVec.ofNat 16 p, dx := BitVec.ofNat 16 (p / 2 ^ 16), cf := 2 ^ 16 ≤ p }
  | .div src =>
    let n := 2 ^ 16 * s.dx.toNat + s.ax.toNat
    let d := (s.value src).toNat
    if d = 0 ∨ 2 ^ 16 ≤ n / d then none
    else some { s with ax := BitVec.ofNat 16 (n / d), dx := BitVec.ofNat 16 (n % d) }
  | .push src => some { s with stack := s.value src :: s.stack }
  | .pop dst =>
    match s.stack with
    | [] => none
    | w :: stack => some ({ s with stack := stack }.set dst w)
  -- the stack pointer, which `popa` skips, is not among the words
  | .pusha =>
    some { s with stack := s.di :: s.si :: s.bp :: s.bx :: s.dx :: s.cx :: s.ax :: s.stack }
  | .popa =>
    match s.stack with
    | di :: si :: bp :: bx :: dx :: cx :: ax :: stack =>
      some { s with di, si, bp, bx, dx, cx, ax, stack }
    | _ => none
  | .stc => some { s with cf := true }

/-- A block. -/
def run : List Instr → Cpu → Option Cpu
  | [], s => some s
  | i :: is, s => (exec i s).bind (run is)

theorem run_append (is js : List Instr) (s : Cpu) :
    run (is ++ js) s = (run is s).bind (run js) := by
  induction is generalizing s with
  | nil => rfl
  | cons i is ih =>
    show (exec i s).bind (run (is ++ js)) = ((exec i s).bind (run is)).bind (run js)
    cases exec i s with
    | none => rfl
    | some t => exact ih t

theorem exec_div {src : Operand} {s : Cpu} (hdx : s.dx = 0) (hsrc : s.value src ≠ 0) :
    exec (.div src) s = some { s with ax := s.ax / s.value src, dx := s.ax % s.value src } := by
  have hpos : (s.value src).toNat ≠ 0 := fun h => hsrc (BitVec.eq_of_toNat_eq h)
  have hquot : s.ax.toNat / (s.value src).toNat < 2 ^ 16 :=
    (Nat.div_le_self ..).trans_lt s.ax.isLt
  have hdiv : BitVec.ofNat 16 (s.ax.toNat / (s.value src).toNat) = s.ax / s.value src := by
    apply BitVec.eq_of_toNat_eq
    rw [BitVec.toNat_ofNat, BitVec.toNat_udiv, Nat.mod_eq_of_lt hquot]
  have hmod : BitVec.ofNat 16 (s.ax.toNat % (s.value src).toNat) = s.ax % s.value src := by
    apply BitVec.eq_of_toNat_eq
    rw [← BitVec.toNat_umod, BitVec.ofNat_toNat, BitVec.setWidth_eq]
  have hn : 2 ^ 16 * s.dx.toNat + s.ax.toNat = s.ax.toNat := by
    rw [hdx]
    exact Nat.zero_add _
  simp only [exec, hn]
  rw [if_neg (by omega), hdiv, hmod]

theorem exec_mul {src : Operand} {s : Cpu} (h : s.ax.toNat * (s.value src).toNat < 2 ^ 16) :
    exec (.mul src) s = some { s with ax := s.ax * s.value src, dx := 0, cf := false } := by
  have hlow : BitVec.ofNat 16 (s.ax.toNat * (s.value src).toNat) = s.ax * s.value src := by
    rw [BitVec.ofNat_mul, BitVec.ofNat_toNat, BitVec.ofNat_toNat, BitVec.setWidth_eq,
      BitVec.setWidth_eq]
  have hhigh : s.ax.toNat * (s.value src).toNat / 2 ^ 16 = 0 := Nat.div_eq_of_lt h
  simp only [exec, hlow, hhigh, decide_eq_false (Nat.not_le.mpr h)]
  rfl

/-! ## Blocks from the front

One rule for each instruction; with them `simp` runs a block. They are not definitional, so that the
states in between are not compared by evaluation. -/

section Blocks

variable (is : List Instr) (s : Cpu)

@[simp] theorem run_nil : run [] s = some s := rfl

variable {is s}

theorem run_cons {i : Instr} {t : Cpu} (h : exec i s = some t) : run (i :: is) s = run is t := by
  show (exec i s).bind (run is) = _
  rw [h]
  rfl

variable (is s)

@[simp] theorem run_mov (dst : Place) (src : Operand) :
    run (.mov dst src :: is) s = run is (s.set dst (s.value src)) := run_cons rfl

@[simp] theorem run_mov8 (dst : Reg8) (src : Operand8) :
    run (.mov8 dst src :: is) s = run is (s.setReg8 dst (s.value8 src)) := run_cons rfl

@[simp] theorem run_alu (op : Alu) (dst : Reg16) (src : Operand) : run (.alu op dst src :: is) s =
    run is (((op.eval (s.reg dst) (s.value src)).1.elim s (s.setReg dst)).flags
      (op.eval (s.reg dst) (s.value src)).2.1 (op.eval (s.reg dst) (s.value src)).2.2) :=
  run_cons rfl

@[simp] theorem run_or8 (dst : Reg8) (src : Operand8) : run (.or8 dst src :: is) s =
    run is ((s.setReg8 dst (s.reg8 dst ||| s.value8 src)).flags
      (s.reg8 dst ||| s.value8 src = 0) false) := run_cons rfl

@[simp] theorem run_inc (dst : Reg16) : run (.inc dst :: is) s =
    run is ((s.setReg dst (s.reg dst + 1)).flags (s.reg dst + 1 = 0) s.cf) := run_cons rfl

@[simp] theorem run_dec (dst : Reg16) : run (.dec dst :: is) s =
    run is ((s.setReg dst (s.reg dst - 1)).flags (s.reg dst - 1 = 0) s.cf) := run_cons rfl

@[simp] theorem run_shl8 (dst : Reg8) (n : ℕ) : run (.shl8 dst n :: is) s =
    run is ((s.setReg8 dst (s.reg8 dst <<< n)).flags (s.reg8 dst <<< n = 0)
      ((s.reg8 dst).getLsbD (8 - n))) := run_cons rfl

@[simp] theorem run_shr (dst : Reg16) (n : ℕ) : run (.shr dst n :: is) s =
    run is ((s.setReg dst (s.reg dst >>> n)).flags (s.reg dst >>> n = 0)
      ((s.reg dst).getLsbD (n - 1))) := run_cons rfl

@[simp] theorem run_push (src : Operand) :
    run (.push src :: is) s = run is { s with stack := s.value src :: s.stack } := run_cons rfl

@[simp] theorem run_pop (dst : Place) : run (.pop dst :: is) s =
    match s.stack with
    | [] => none
    | w :: stack => run is ({ s with stack := stack }.set dst w) := by
  show (exec (.pop dst) s).bind (run is) = _
  unfold exec
  cases s.stack <;> rfl

@[simp] theorem run_pusha : run (.pusha :: is) s = run is { s with
    stack := s.di :: s.si :: s.bp :: s.bx :: s.dx :: s.cx :: s.ax :: s.stack } := run_cons rfl

@[simp] theorem run_popa : run (.popa :: is) s =
    match s.stack with
    | di :: si :: bp :: bx :: dx :: cx :: ax :: stack =>
      run is { s with di, si, bp, bx, dx, cx, ax, stack }
    | _ => none := by
  show (exec .popa s).bind (run is) = _
  unfold exec
  dsimp only
  split <;> rfl

@[simp] theorem run_stc : run (.stc :: is) s = run is { s with cf := true } := run_cons rfl

variable {is s}

@[simp] theorem run_mul {src : Operand} (h : s.ax.toNat * (s.value src).toNat < 2 ^ 16) :
    run (.mul src :: is) s =
      run is { s with ax := s.ax * s.value src, dx := 0, cf := false } := run_cons (exec_mul h)

@[simp] theorem run_div {src : Operand} (hdx : s.dx = 0) : run (.div src :: is) s =
    if s.value src = 0 then none
    else run is { s with ax := s.ax / s.value src, dx := s.ax % s.value src } := by
  split_ifs with hsrc
  · have hnone : exec (.div src) s = none := if_pos (.inl (congrArg BitVec.toNat hsrc))
    show (exec (.div src) s).bind (run is) = none
    rw [hnone]
    rfl
  · exact run_cons (exec_div hdx hsrc)

end Blocks

end RealMode
