import DejOs.Base

/-!
# The interrupt level

`RaiseSil` and `LowerSil` of `sil.c`. The level is kept twice: in CR8, which masks the interrupts,
and in the per-CPU word `sil`, which the assertions read. Both functions decide by CR8 and write
both.

What one call does is said once (`raiseSil_eq`, `lowerSil_eq`). It keeps the two copies equal, so a
sequence of calls does (`calls_agree`), and a block that ends with the level it began with can be
put anywhere (`Prog.exec_eq`).
-/

namespace DejOs.Sil

/-! ## The code -/

/-- The task priority register of the CPU and the word `sil` of its block. CR8 has four bits. -/
structure Levels where
  cr8 : BitVec 4
  sil : U64
  deriving DecidableEq, Repr

/-- `__readcr8`; a `ksil` is a `uint8_t`. -/
def readCr8 : Kernel Levels Byte := do
  let s ← get
  return (s.cr8.setWidth 64).setWidth 8

/-- `__writecr8`; the bits above the four of CR8 are reserved. -/
def writeCr8 (level : Byte) : Kernel Levels Unit :=
  if level ≤ 15 then modify fun s => { s with cr8 := level.setWidth 4 }
  else throw .generalProtection

/-- `percpu_write(sil, new)` -/
def writeSil (new : Byte) : Kernel Levels Unit :=
  modify fun s => { s with sil := new.setWidth 64 }

/-- The panic of `RaiseSil`. -/
def raisePanic : Halt := .panic "Tried to lower sil using RaiseSil" .invalidSil

/-- The panic of `LowerSil`. -/
def lowerPanic : Halt := .panic "attempted to raise sil using LowerSil" .invalidSil

/-- `RaiseSil` -/
def raiseSil (new : Byte) : Kernel Levels Byte := do
  let old ← readCr8
  if new < old then
    throw raisePanic
  writeCr8 new
  writeSil new
  return old

/-- `LowerSil` -/
def lowerSil (new : Byte) : Kernel Levels Unit := do
  let old ← readCr8
  if old < new then
    throw lowerPanic
  writeCr8 new
  writeSil new

/-! ## One call -/

/-- The level of the CPU. -/
def Levels.level (s : Levels) : Byte := s.cr8.setWidth 8

/-- The two copies are the same. -/
def Levels.Agree (s : Levels) : Prop := s.sil = s.level.setWidth 64

/-- Both copies at one level. -/
def Levels.both (n : Byte) : Levels := ⟨n.setWidth 4, n.setWidth 64⟩

section Call

variable {s : Levels} {n : Byte}

theorem readCr8_eq (s : Levels) : readCr8 s = .ok s.level s := by
  show EStateM.Result.ok ((s.cr8.setWidth 64).setWidth 8) s = _
  rw [BitVec.setWidth_setWidth_of_le s.cr8 (by decide)]
  rfl

theorem level_le (s : Levels) : s.level ≤ 15 := by
  have hlt := s.cr8.isLt
  rw [BitVec.le_def]
  show (s.cr8.setWidth 8).toNat ≤ 15
  rw [BitVec.toNat_setWidth, Nat.mod_eq_of_lt (by omega)]
  omega

theorem level_both (hn : n ≤ 15) : (Levels.both n).level = n := by
  have hle : n.toNat ≤ 15 := BitVec.le_def.mp hn
  apply BitVec.eq_of_toNat_eq
  show ((n.setWidth 4).setWidth 8).toNat = n.toNat
  rw [BitVec.toNat_setWidth, BitVec.toNat_setWidth]
  omega

theorem agree_both (hn : n ≤ 15) : (Levels.both n).Agree := by
  unfold Levels.Agree
  rw [level_both hn]
  rfl

theorem Levels.Agree.eq_both (h : s.Agree) : s = .both s.level := by
  obtain ⟨cr8, sil⟩ := s
  obtain rfl : sil = (cr8.setWidth 8).setWidth 64 := h
  have hcr8 : (cr8.setWidth 8).setWidth 4 = cr8 := by
    rw [BitVec.setWidth_setWidth_of_le cr8 (by decide), BitVec.setWidth_eq]
  exact congrArg (Levels.mk · _) hcr8.symm

theorem write_eq (hn : n ≤ 15) : (writeCr8 n >>= fun _ => writeSil n) s = .ok () (.both n) := by
  unfold writeCr8
  rw [if_pos hn]
  rfl

/-- `RaiseSil` panics on the way down, and sets both copies otherwise. -/
theorem raiseSil_eq (hn : n ≤ 15) : raiseSil n s =
    if n < s.level then .error raisePanic s else .ok s.level (.both n) := by
  unfold raiseSil
  rw [Kernel.bind_of_ok (readCr8_eq s)]
  split_ifs with h
  · rfl
  · show (writeCr8 n >>= fun _ => writeSil n >>= fun _ => return s.level) s = _
    rw [← bind_assoc, Kernel.bind_of_ok (write_eq hn)]
    rfl

theorem lowerSil_eq (hn : n ≤ 15) : lowerSil n s =
    if s.level < n then .error lowerPanic s else .ok () (.both n) := by
  unfold lowerSil
  rw [Kernel.bind_of_ok (readCr8_eq s)]
  split_ifs with h
  · rfl
  · exact write_eq hn

end Call

/-! ## Sequences of calls -/

/-- A call of one of the two functions. -/
inductive Call
  | raise (n : Byte)
  | lower (n : Byte)
  deriving DecidableEq, Repr

namespace Call

/-- The level that is asked for. -/
def target : Call → Byte
  | raise n | lower n => n

/-- The call, with the result of `RaiseSil`. -/
def exec : Call → Kernel Levels (Option Byte)
  | raise n => do
    let old ← raiseSil n
    return some old
  | lower n => do
    lowerSil n
    return none

/-- The call asks for the wrong direction. -/
def Wrong (s : Levels) : Call → Prop
  | raise n => n < s.level
  | lower n => s.level < n

/-- What the call should return. -/
def returned (s : Levels) : Call → Option Byte
  | raise _ => some s.level
  | lower _ => none

/-- The panic of the call. -/
def halt : Call → Halt
  | raise _ => raisePanic
  | lower _ => lowerPanic

theorem exec_wrong {c : Call} (hc : c.target ≤ 15) {s : Levels} (h : c.Wrong s) :
    c.exec s = .error c.halt s := by
  cases c with
  | raise n => exact Kernel.bind_of_error ((raiseSil_eq hc).trans (if_pos h))
  | lower n => exact Kernel.bind_of_error ((lowerSil_eq hc).trans (if_pos h))

theorem exec_right {c : Call} (hc : c.target ≤ 15) {s : Levels} (h : ¬ c.Wrong s) :
    c.exec s = .ok (c.returned s) (.both c.target) := by
  cases c with
  | raise n => exact Kernel.bind_of_ok ((raiseSil_eq hc).trans (if_neg h))
  | lower n => exact Kernel.bind_of_ok ((lowerSil_eq hc).trans (if_neg h))

end Call

/-- Calls one after the other. -/
def calls : List Call → Kernel Levels Unit
  | [] => return
  | c :: cs => do
    let _ ← c.exec
    calls cs

/-- The copies agree after calls that come back. -/
theorem calls_agree {cs : List Call} (hcs : ∀ c ∈ cs, c.target ≤ 15) {s s' : Levels}
    (hs : s.Agree) (h : calls cs s = .ok () s') : s'.Agree := by
  induction cs generalizing s with
  | nil =>
    obtain ⟨-, rfl⟩ := EStateM.Result.ok.inj h
    exact hs
  | cons c cs ih =>
    obtain ⟨hc, hcs⟩ := List.forall_mem_cons.mp hcs
    obtain ⟨r, t, hcall, h⟩ := Kernel.bind_eq_ok.mp h
    by_cases hwrong : c.Wrong s
    · rw [Call.exec_wrong hc hwrong] at hcall
      cases hcall
    · obtain ⟨-, rfl⟩ := EStateM.Result.ok.inj ((Call.exec_right hc hwrong).symm.trans hcall)
      exact ih hcs (agree_both hc) h

/-! ## Blocks -/

/-- Blocks `old = RaiseSil(n); body; LowerSil(old);` one after the other. -/
inductive Prog
  | done
  | block (n : Byte) (body next : Prog)
  deriving DecidableEq, Repr

namespace Prog

def exec : Prog → Kernel Levels Unit
  | done => return
  | block n body next => do
    let old ← raiseSil n
    body.exec
    lowerSil old
    next.exec

/-- No block is below the one around it. -/
def Nested : Byte → Prog → Prop
  | _, done => True
  | level, block n body next => level ≤ n ∧ n ≤ 15 ∧ Nested n body ∧ Nested level next

instance decidableNested (level : Byte) : (p : Prog) → Decidable (p.Nested level)
  | done => inferInstanceAs (Decidable True)
  | block n body next =>
    have := decidableNested n body
    have := decidableNested level next
    inferInstanceAs (Decidable (_ ∧ _ ∧ _ ∧ _))

/-- Such a program changes nothing in the end. -/
theorem exec_eq {p : Prog} {s : Levels} (hs : s.Agree) (hp : p.Nested s.level) :
    p.exec s = .ok () s := by
  induction p generalizing s with
  | done => rfl
  | block n body next ihbody ihnext =>
    obtain ⟨hle, hn, hbody, hnext⟩ := hp
    have hraise : raiseSil n s = .ok s.level (.both n) :=
      (raiseSil_eq hn).trans (if_neg (BitVec.not_lt.mpr hle))
    have hinside : body.exec (.both n) = .ok () (.both n) :=
      ihbody (agree_both hn) (by rwa [level_both hn])
    have hlower : lowerSil s.level (.both n) = .ok () s := by
      rw [lowerSil_eq (level_le s), level_both hn, if_neg (BitVec.not_lt.mpr hle), ← hs.eq_both]
    unfold exec
    rw [Kernel.bind_of_ok hraise, Kernel.bind_of_ok hinside, Kernel.bind_of_ok hlower]
    exact ihnext hs hnext

end Prog

/-- **The two copies of the level.** From every state in which they agree: whatever calls have come
back, they agree, the next call panics exactly when it asks for the wrong direction and then changes
neither, and otherwise sets both and returns the level before if it is `RaiseSil`; and a program of
nested blocks comes back to the same state. -/
theorem sil_disciplined {s : Levels} (hs : s.Agree) :
    (∀ (cs : List Call) (c : Call) (s' : Levels), (∀ d ∈ cs, d.target ≤ 15) → c.target ≤ 15 →
      calls cs s = .ok () s' → s'.Agree ∧ (c.exec s' = .error c.halt s' ↔ c.Wrong s') ∧
        (¬ c.Wrong s' → ∃ t, c.exec s' = .ok (c.returned s') t ∧ t.Agree ∧
          t.level = c.target)) ∧
    ∀ p : Prog, p.Nested s.level → p.exec s = .ok () s := by
  refine ⟨fun cs c s' hcs hc hcalls => ⟨calls_agree hcs hs hcalls, ?_, ?_⟩,
    fun p => Prog.exec_eq hs⟩
  · refine ⟨fun herr => ?_, Call.exec_wrong hc⟩
    by_contra hright
    rw [Call.exec_right hc hright] at herr
    cases herr
  · exact fun hright => ⟨_, Call.exec_right hc hright, agree_both hc, level_both hc⟩

/-- A block inside a block from level 0, and a call down too far. -/
theorem sil_disciplined_dispatch :
    (Prog.block 2 (.block 4 .done .done) (.block 15 .done .done)).exec (.both 0) =
        .ok () (.both 0) ∧
      (Call.raise 1).exec (.both 2) = .error raisePanic (.both 2) := by
  have hzero : (Levels.both 0).Agree := agree_both (by decide)
  have hraise : calls [.raise 2] (.both 0) = .ok () (.both 2) := rfl
  obtain ⟨hcalls, hprog⟩ := sil_disciplined hzero
  have hnext := (hcalls [.raise 2] (.raise 1) (.both 2) (by decide) (by decide) hraise).2.1
  exact ⟨hprog _ (by decide), hnext.mpr (show (1 : Byte) < (Levels.both 2).level by decide)⟩

end DejOs.Sil
