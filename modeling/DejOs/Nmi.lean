import DejOs.MachineCheck

/-!
# The handler of the non-maskable interrupt

`nmi_handler` of `nmi.c`, around the `check_severity` of `MachineCheck`: what it logs of the banks,
the core it stops, and the two legacy ports it asks in the end.

The verdict on the first valid bank decides. A fatal one resets the machine, a corrected one is
ignored, and an uncorrected one stops the core if `is_bsp` says no and is logged otherwise. But bit
11 of `IA32_APIC_BASE` says whether the local APIC is on, not which core this is; so no core with
its APIC on is ever stopped, and the machine check in progress, which is looked for in register
0x17A and taken back in 0x17F, is never taken back (`nmiHandler_decides`).
-/

namespace DejOs.Nmi

open MachineCheck

/-! ## The code -/

/-- Why the handler does not return. -/
inductive Ending
  /-- `cpu_stop()` -/
  | stopped
  /-- `fi_panic(cooked)` -/
  | reset (cooked : String)
  /-- `panic(s, code)` -/
  | panic (s : String) (code : Status)
  deriving DecidableEq, Repr

/-- The flags of the last NMI, `state`. -/
structure Flags where
  rIp : Bool
  eIp : Bool
  mcip : Bool
  lmce : Bool
  deriving DecidableEq, Repr

structure Machine where
  msr : BitVec 32 → U64
  port : BitVec 16 → Byte
  temperature : U64
  state : Flags
  log : List Logf

/-- A function of the handler. -/
abbrev Handler (α : Type) := EStateM Ending Machine α

/-- `LogfStr(mod, format, args)` -/
def logf (mod format : String) (args : List U64) : Handler Unit :=
  modify fun m => { m with log := m.log ++ [⟨mod, format, args⟩] }

/-- `fi_panic(cooked)` of `panic.c` -/
def fiPanic (cooked : String) : Handler Unit := do
  logf "panic" cooked []
  throw (.reset cooked)

/-- `is_bsp` -/
def isBsp (msr : BitVec 32 → U64) : Bool := msr 0x1B &&& ((1 : U64) <<< 11) ≠ 0

/-- `MSR_IA32_MCG_STATUS` of `msr.h` -/
def msrIa32McgStatus : BitVec 32 := 0x17F

/-- The lines that stop a core. -/
def killCore : Handler Unit := do
  logf "kernel" "\n NMI on non bsp core killing it \n" []
  modify fun m => { m with temperature := 999999 }
  let m ← get
  let res := m.msr msrIa32McgStatus &&& ~~~((1 : U64) <<< 2)
  modify fun m => { m with msr := Function.update m.msr msrIa32McgStatus res }
  throw .stopped

/-- A round of the loop that logs the banks. -/
def logBank (i : ℕ) : Handler Unit := do
  let m ← get
  let status := bankStatus m.msr i
  if bit status 63 then
    logf "kernel" "Bank %i :" [BitVec.ofNat 64 i]
    logf "kernel" " STATUS = %llu \n" [status]
    if bit status 59 then
      logf "kernel" "  PHYS ADDR = %llu \n" [m.msr (0x402 + BitVec.ofNat 32 i * 4)]

/-- The loop, from bank `i` on for `n` banks. -/
def logBanks (i : ℕ) : ℕ → Handler Unit
  | 0 => return
  | n + 1 => do
    logBank i
    logBanks (i + 1) n

/-- The status of the machine check, from register 0x17A. -/
def machineCheckState : Handler Unit := do
  let m ← get
  let res := m.msr 0x17A
  modify fun m => { m with state := { m.state with mcip := bit res 2 } }
  if bit res 2 then
    fiPanic "s.minmi"
  modify fun m => { m with
    state := { m.state with rIp := bit res 0, eIp := bit res 1, lmce := bit res 3 } }

/-- The legacy ports. -/
def legacyPorts : Handler Unit := do
  let m ← get
  if m.port 0x92 = 4 then
    modify fun m => { m with port := Function.update m.port 0x92 (m.port 0x92 &&& 0xFB) }
    throw (.panic "Watchdog expired" .lockup)
  -- `switch (res)`
  if m.port 0x61 = 6 then
    throw (.panic "Bus Error (from legacy port)" .hardwareFailure)
  if m.port 0x61 = 7 then
    throw (.panic "Memory failure (from legacy port)" .hardwareFailure)

/-- `nmi_handler`, for the interrupted `rip` and `rax`. -/
def nmiHandler (rip rax : U64) : Handler Unit := do
  logf "kernel" "NMI address = %p RAX = %p \n\n" [rip, rax]
  let m ← get
  match checkSeverity m.msr with
  | .error cooked => fiPanic cooked
  | .ok res =>
    if res = 0 then return
    if res = 1 ∧ isBsp m.msr = false then
      killCore
    logf "kernel" "--- MCA BANK LOGS ---\n" []
    logBanks 0 (numBanks m.msr)
    machineCheckState
    legacyPorts

/-! ## What it says -/

/-- How a call ends; `none` is a return. -/
def ending : EStateM.Result Ending Machine Unit → Option Ending
  | .ok _ _ => none
  | .error e _ => some e

/-- The state it ends in. -/
def endState : EStateM.Result Ending Machine Unit → Machine
  | .ok _ m => m
  | .error _ m => m

/-- The first valid bank is past help. -/
def Lost (m : Machine) : Prop := ∃ i, First m.msr i ∧ Fatal (bankStatus m.msr i)

/-- The first valid bank has an uncorrected error that asks for no action. -/
def Recoverable (m : Machine) : Prop :=
  ∃ i, First m.msr i ∧ Uncorrected (bankStatus m.msr i) ∧ ¬ Fatal (bankStatus m.msr i)

/-- The local APIC of the core is on. -/
def ApicOn (m : Machine) : Prop := (m.msr 0x1B).getLsbD 11 = true

/-- A machine check is in progress. -/
def InProgress (m : Machine) : Prop := (m.msr 0x17A).getLsbD 2 = true

instance (m : Machine) : Decidable (InProgress m) := inferInstanceAs (Decidable (_ = _))

/-- The lines about bank `i`. -/
def bankLines (msr : BitVec 32 → U64) (i : ℕ) : List Logf :=
  if bit (bankStatus msr i) 63 then
    [⟨"kernel", "Bank %i :", [BitVec.ofNat 64 i]⟩,
      ⟨"kernel", " STATUS = %llu \n", [bankStatus msr i]⟩] ++
    if bit (bankStatus msr i) 59 then
      [⟨"kernel", "  PHYS ADDR = %llu \n", [msr (0x402 + BitVec.ofNat 32 i * 4)]⟩]
    else []
  else []

section Run

variable {rip rax : U64} {m : Machine} {α β : Type}

theorem bind_of_ok {x : Handler α} {f : α → Handler β} {m m' : Machine} {a : α}
    (h : x m = .ok a m') : (x >>= f) m = f a m' := by
  show EStateM.bind x f m = _
  unfold EStateM.bind
  rw [h]

theorem bind_of_error {x : Handler α} {f : α → Handler β} {m m' : Machine} {e : Ending}
    (h : x m = .error e m') : (x >>= f) m = .error e m' := by
  show EStateM.bind x f m = _
  unfold EStateM.bind
  rw [h]

@[simp] theorem get_bind_apply (f : Machine → Handler α) (m : Machine) :
    (get >>= f) m = f m m := rfl

@[simp] theorem modify_bind_apply (g : Machine → Machine) (f : Unit → Handler α) (m : Machine) :
    (modify g >>= f) m = f () (g m) := rfl

@[simp] theorem logf_bind_apply (mod format : String) (args : List U64) (f : Unit → Handler α)
    (m : Machine) : (logf mod format args >>= f) m =
      f () { m with log := m.log ++ [⟨mod, format, args⟩] } := rfl

@[simp] theorem logf_apply (mod format : String) (args : List U64) (m : Machine) :
    logf mod format args m = .ok () { m with log := m.log ++ [⟨mod, format, args⟩] } := rfl

@[simp] theorem modify_apply (g : Machine → Machine) (m : Machine) :
    (modify g : Handler Unit) m = .ok () (g m) := rfl

@[simp] theorem throw_apply (e : Ending) (m : Machine) :
    (throw e : Handler α) m = .error e m := rfl

@[simp] theorem throw_bind_apply (e : Ending) (f : α → Handler β) (m : Machine) :
    ((throw e : Handler α) >>= f) m = .error e m := rfl

@[simp] theorem pure_apply (a : α) (m : Machine) : (pure a : Handler α) m = .ok a m := rfl

theorem isBsp_eq (msr : BitVec 32 → U64) : isBsp msr = (msr 0x1B).getLsbD 11 :=
  show bit (msr 0x1B) 11 = _ from bit_eq (by decide)

theorem fiPanic_eq (cooked : String) (m : Machine) : fiPanic cooked m =
    .error (.reset cooked) { m with log := m.log ++ [⟨"panic", cooked, []⟩] } := rfl

theorem killCore_eq (m : Machine) : killCore m = .error .stopped { m with
    temperature := 999999
    msr := Function.update m.msr 0x17F (m.msr 0x17F &&& ~~~((1 : U64) <<< 2))
    log := m.log ++ [⟨"kernel", "\n NMI on non bsp core killing it \n", []⟩] } := rfl

theorem logBank_eq (i : ℕ) (m : Machine) :
    logBank i m = .ok () { m with log := m.log ++ bankLines m.msr i } := by
  unfold logBank bankLines
  cases hvalid : bit (bankStatus m.msr i) 63 with
  | false => simp [hvalid]
  | true => cases haddr : bit (bankStatus m.msr i) 59 <;> simp [hvalid, haddr]

/-- Every valid bank is logged, in order. -/
theorem logBanks_eq (i n : ℕ) (m : Machine) : logBanks i n m =
    .ok () { m with log := m.log ++ (List.range' i n).flatMap (bankLines m.msr) } := by
  induction n generalizing i m with
  | zero => simp [logBanks]
  | succ n ih =>
    unfold logBanks
    rw [bind_of_ok (logBank_eq i m), ih, List.range'_succ, List.flatMap_cons, List.append_assoc]

theorem machineCheckState_of_inProgress (h : InProgress m) : ∃ m',
    machineCheckState m = .error (.reset "s.minmi") m' ∧ m'.msr = m.msr ∧
      m'.temperature = m.temperature ∧ m.log <+: m'.log := by
  have hbit : bit (m.msr 0x17A) 2 = true := (bit_eq (by decide)).trans h
  simp only [BitVec.ofNat_eq_ofNat] at hbit
  refine ⟨{ m with
    state := { m.state with mcip := true }
    log := m.log ++ [⟨"panic", "s.minmi", []⟩] }, ?_, rfl, rfl, List.prefix_append ..⟩
  simp [machineCheckState, hbit, bind_of_error (fiPanic_eq _ _)]

theorem machineCheckState_of_not (h : ¬ InProgress m) : ∃ f,
    machineCheckState m = .ok () { m with state := f } := by
  have hbit : bit (m.msr 0x17A) 2 = false :=
    (bit_eq (by decide)).trans (Bool.eq_false_of_not_eq_true h)
  simp only [BitVec.ofNat_eq_ofNat] at hbit
  exact ⟨_, by simp [machineCheckState, hbit]; rfl⟩

/-- What the ports say. -/
def portsSay (port : BitVec 16 → Byte) : Option Ending :=
  if port 0x92 = 4 then some (.panic "Watchdog expired" .lockup)
  else if port 0x61 = 6 then some (.panic "Bus Error (from legacy port)" .hardwareFailure)
  else if port 0x61 = 7 then some (.panic "Memory failure (from legacy port)" .hardwareFailure)
  else none

/-- Nothing but the ports has changed. -/
structure Same (m m' : Machine) : Prop where
  msr : m'.msr = m.msr
  temperature : m'.temperature = m.temperature
  log : m.log <+: m'.log

theorem legacyPorts_ends (m : Machine) :
    ending (legacyPorts m) = portsSay m.port ∧ Same m (endState (legacyPorts m)) := by
  have hsame : ∀ m' : Machine, m'.msr = m.msr → m'.temperature = m.temperature → m'.log = m.log →
      Same m m' := fun m' hmsr htemp hlog => ⟨hmsr, htemp, hlog ▸ List.prefix_refl _⟩
  unfold portsSay legacyPorts
  by_cases h92 : m.port 0x92 = 4
  · simp only [BitVec.ofNat_eq_ofNat] at h92 ⊢
    simp [h92, ending, endState, hsame]
  by_cases h6 : m.port 0x61 = 6
  · simp only [BitVec.ofNat_eq_ofNat] at h92 h6 ⊢
    simp [h92, h6, ending, endState, hsame]
  by_cases h7 : m.port 0x61 = 7
  · simp only [BitVec.ofNat_eq_ofNat] at h92 h6 h7 ⊢
    simp [h92, h7, ending, endState, hsame]
  · simp only [BitVec.ofNat_eq_ofNat] at h92 h6 h7 ⊢
    simp [h92, h6, h7, ending, endState, hsame]

theorem Same.trans {m₁ m₂ m₃ : Machine} (h : Same m₁ m₂) (h' : Same m₂ m₃) : Same m₁ m₃ :=
  ⟨h'.msr.trans h.msr, h'.temperature.trans h.temperature, h.log.trans h'.log⟩

theorem afterBanks_ends (m : Machine) :
    ending ((machineCheckState >>= fun _ => legacyPorts) m) =
      (if InProgress m then some (.reset "s.minmi") else portsSay m.port) ∧
    Same m (endState ((machineCheckState >>= fun _ => legacyPorts) m)) := by
  by_cases h : InProgress m
  · obtain ⟨m', hm', hmsr, htemp, hlog⟩ := machineCheckState_of_inProgress h
    rw [if_pos h, bind_of_error hm']
    exact ⟨rfl, hmsr, htemp, hlog⟩
  · obtain ⟨f, hf⟩ := machineCheckState_of_not h
    obtain ⟨hend, hmsr, htemp, hlog⟩ := legacyPorts_ends { m with state := f }
    rw [if_neg h, bind_of_ok hf]
    exact ⟨hend, hmsr, htemp, hlog⟩

/-! ## The verdict -/

theorem checkSeverity_of_lost (h : Lost m) : ∃ cooked, checkSeverity m.msr = .error cooked := by
  obtain ⟨i, hi, hfatal⟩ := h
  exact (checkSeverity_of_first hi).fatal.mpr (level_eq_two.mpr hfatal)

theorem checkSeverity_of_recoverable (h : Recoverable m) : checkSeverity m.msr = .ok 1 := by
  obtain ⟨i, hi, hunc, hfatal⟩ := h
  refine (checkSeverity_of_first hi).uncorrected.mpr ?_
  unfold level
  rw [if_neg hfatal, if_pos hunc]

theorem checkSeverity_of_neither (hl : ¬ Lost m) (hr : ¬ Recoverable m) :
    checkSeverity m.msr = .ok 0 := by
  by_cases hsome : ∃ i < numBanks m.msr, Valid (bankStatus m.msr i)
  · obtain ⟨i, hi⟩ := exists_first hsome
    have hfatal : ¬ Fatal (bankStatus m.msr i) := fun h => hl ⟨i, hi, h⟩
    have hunc : ¬ Uncorrected (bankStatus m.msr i) := fun h => hr ⟨i, hi, h, hfatal⟩
    exact (checkSeverity_of_first hi).good.mpr (level_eq_zero.mpr ⟨hfatal, hunc⟩)
  · exact checkSeverity_of_none fun i hi hvalid => hsome ⟨i, hi, hvalid⟩

theorem not_lost_of_recoverable (h : Recoverable m) : ¬ Lost m := by
  intro hl
  obtain ⟨cooked, hcooked⟩ := checkSeverity_of_lost hl
  rw [checkSeverity_of_recoverable h] at hcooked
  cases hcooked

/-! ## The handler -/

/-- The first line of the handler. -/
def opening (rip rax : U64) : Logf := ⟨"kernel", "NMI address = %p RAX = %p \n\n", [rip, rax]⟩

theorem nmiHandler_lost (rip rax : U64) (h : Lost m) : ∃ cooked m',
    nmiHandler rip rax m = .error (.reset cooked) m' ∧ Same m m' := by
  obtain ⟨cooked, hcooked⟩ := checkSeverity_of_lost h
  refine ⟨cooked, { m with log := m.log ++ [opening rip rax] ++ [⟨"panic", cooked, []⟩] }, ?_,
    rfl, rfl, by simp⟩
  simp [nmiHandler, hcooked, fiPanic_eq, opening]

theorem nmiHandler_quiet (rip rax : U64) (hl : ¬ Lost m) (hr : ¬ Recoverable m) :
    nmiHandler rip rax m = .ok () { m with log := m.log ++ [opening rip rax] } := by
  simp [nmiHandler, checkSeverity_of_neither hl hr, opening]

theorem nmiHandler_killed (rip rax : U64) (h : Recoverable m) (ha : ¬ ApicOn m) : ∃ m',
    nmiHandler rip rax m = .error .stopped m' ∧ m'.msr 0x17A = m.msr 0x17A := by
  have hbsp : isBsp m.msr = false := (isBsp_eq m.msr).trans (Bool.eq_false_of_not_eq_true ha)
  have hne : (0x17A : BitVec 32) ≠ 0x17F := by decide
  refine ⟨{ m with
    temperature := 999999
    msr := Function.update m.msr 0x17F (m.msr 0x17F &&& ~~~((1 : U64) <<< 2))
    log := m.log ++ [opening rip rax] ++
      [⟨"kernel", "\n NMI on non bsp core killing it \n", []⟩] }, ?_,
    ?_⟩
  · simp [nmiHandler, checkSeverity_of_recoverable h, hbsp, bind_of_error (killCore_eq _), opening]
  · exact Function.update_of_ne hne (m.msr 0x17F &&& ~~~((1 : U64) <<< 2)) m.msr

/-- The log of the banks. -/
def bankLog (msr : BitVec 32 → U64) : List Logf :=
  ⟨"kernel", "--- MCA BANK LOGS ---\n", []⟩ :: (List.range (numBanks msr)).flatMap (bankLines msr)

theorem nmiHandler_logged (rip rax : U64) (h : Recoverable m) (ha : ApicOn m) :
    ending (nmiHandler rip rax m) =
      (if InProgress m then some (.reset "s.minmi") else portsSay m.port) ∧
    (endState (nmiHandler rip rax m)).msr = m.msr ∧
    m.log ++ opening rip rax :: bankLog m.msr <+: (endState (nmiHandler rip rax m)).log := by
  have hbsp : isBsp m.msr = true := (isBsp_eq m.msr).trans ha
  have hrun : nmiHandler rip rax m = (machineCheckState >>= fun _ => legacyPorts)
      { m with log := m.log ++ opening rip rax :: bankLog m.msr } := by
    simp [nmiHandler, checkSeverity_of_recoverable h, hbsp, bind_of_ok (logBanks_eq ..), opening,
      bankLog, List.range_eq_range']
  obtain ⟨hend, hmsr, -, hlog⟩ :=
    afterBanks_ends { m with log := m.log ++ opening rip rax :: bankLog m.msr }
  rw [hrun]
  exact ⟨hend, hmsr, hlog⟩

end Run

/-- **`nmi_handler`.** It resets the machine when the first valid bank is past help; it stops the
core when that bank is recoverable and the local APIC of the core is off; when it is on, the banks
are logged, and a machine check in progress resets the machine, the legacy ports make it panic, or
the handler returns. It also returns when there is nothing to recover from. In no case has it
changed whether a machine check is in progress. -/
theorem nmiHandler_decides (rip rax : U64) (m : Machine) :
    (ending (nmiHandler rip rax m) = none ↔ ¬ Lost m ∧
      (Recoverable m → ApicOn m ∧ ¬ InProgress m ∧ portsSay m.port = none)) ∧
    (ending (nmiHandler rip rax m) = some .stopped ↔ Recoverable m ∧ ¬ ApicOn m) ∧
    ((∃ cooked, ending (nmiHandler rip rax m) = some (.reset cooked)) ↔
      Lost m ∨ Recoverable m ∧ ApicOn m ∧ InProgress m) ∧
    (∀ s code, ending (nmiHandler rip rax m) = some (.panic s code) ↔ Recoverable m ∧ ApicOn m ∧
      ¬ InProgress m ∧ portsSay m.port = some (.panic s code)) ∧
    (endState (nmiHandler rip rax m)).msr 0x17A = m.msr 0x17A ∧
    (Recoverable m → ApicOn m →
      m.log ++ opening rip rax :: bankLog m.msr <+: (endState (nmiHandler rip rax m)).log) := by
  by_cases hl : Lost m
  · have hr : ¬ Recoverable m := fun h => not_lost_of_recoverable h hl
    obtain ⟨cooked, m', hrun, hsame⟩ := nmiHandler_lost rip rax hl
    rw [hrun]
    simp [ending, endState, hl, hr, hsame.msr]
  by_cases hr : Recoverable m
  · by_cases ha : ApicOn m
    · obtain ⟨hend, hmsr, hlog⟩ := nmiHandler_logged rip rax hr ha
      have hports : ∀ e, portsSay m.port = some e → ∃ s code, e = .panic s code := by
        intro e he
        unfold portsSay at he
        split_ifs at he <;> obtain rfl := Option.some.inj he <;> exact ⟨_, _, rfl⟩
      rw [hend, hmsr]
      split_ifs with hmc
      · simp [hl, hr, ha, hmc, hlog]
      · refine ⟨by simp [hl, hr, ha, hmc], ?_, ?_, by simp [hr, ha, hmc], rfl, fun _ _ => hlog⟩
        · refine iff_of_false (fun h => ?_) (by simp [ha])
          obtain ⟨s, code, hpanic⟩ := hports _ h
          cases hpanic
        · refine iff_of_false (fun ⟨cooked, h⟩ => ?_) (by simp [hl, hmc])
          obtain ⟨s, code, hpanic⟩ := hports _ h
          cases hpanic
    · obtain ⟨m', hrun, hmsr⟩ := nmiHandler_killed rip rax hr ha
      simp only [BitVec.ofNat_eq_ofNat] at hmsr ⊢
      rw [hrun]
      simp [ending, endState, hl, hr, ha, hmsr]
  · rw [nmiHandler_quiet rip rax hl hr]
    simp [ending, endState, hl, hr]

end DejOs.Nmi
