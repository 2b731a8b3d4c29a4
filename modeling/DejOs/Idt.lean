import DejOs.Lock

/-!
# The interrupt descriptor table

`idt_set_gate`, `InterruptInit` and `RegisterInterruptVector` of `interrupt.c`. `InterruptInit` is
run by the boot CPU and again by every AP; `RegisterInterruptVector` takes the lock, refuses the
vectors up to 64 and those that are taken, and installs a gate that user code may call.

`Records` says what the table and `vectors` hold after a history of calls: the gates of the vectors
that were given a handler, and zeroes elsewhere. Every call keeps it (`Records.init`,
`Records.register`), and `idt_history` reads the rest off it.
-/

namespace DejOs

/-! ## Gates -/

/-- `struct InterruptDescriptor` -/
structure InterruptDescriptor where
  offset1 : BitVec 16
  selector : BitVec 16
  ist : Byte
  typeAttributes : Byte
  offset2 : BitVec 16
  offset3 : BitVec 32
  zero : BitVec 32
  deriving DecidableEq, Repr

namespace InterruptDescriptor

/-- An entry of the zeroed table. -/
def blank : InterruptDescriptor := ⟨0, 0, 0, 0, 0, 0, 0⟩

/-- The gate `idt_set_gate` writes. -/
def gate (addr : U64) (flags : Byte) : InterruptDescriptor where
  offset1 := (addr &&& 0xFFFF).setWidth 16
  selector := 0x28
  ist := 0
  typeAttributes := flags
  offset2 := ((addr >>> 16) &&& 0xFFFF).setWidth 16
  offset3 := ((addr >>> 32) &&& 0xFFFFFFFF).setWidth 32
  zero := 0

/-- The address the CPU puts together from the three offset fields. -/
def handler (d : InterruptDescriptor) : U64 := d.offset3 ++ d.offset2 ++ d.offset1

/-- The descriptor privilege level. -/
def dpl (d : InterruptDescriptor) : Byte := (d.typeAttributes >>> 5) &&& 3

theorem handler_gate (addr : U64) (flags : Byte) : (gate addr flags).handler = addr := by
  have h₁ : (addr &&& 0xFFFF).toNat = addr.toNat % 2 ^ 16 := by
    rw [BitVec.toNat_and]
    exact Nat.and_two_pow_sub_one_eq_mod _ 16
  have h₂ : ((addr >>> 16) &&& 0xFFFF).toNat = addr.toNat / 2 ^ 16 % 2 ^ 16 :=
    toNat_field addr 16 16 (by decide)
  have h₃ : ((addr >>> 32) &&& 0xFFFFFFFF).toNat = addr.toNat / 2 ^ 32 % 2 ^ 32 :=
    toNat_field addr 32 32 (by decide)
  have hlt := addr.isLt
  apply BitVec.eq_of_toNat_eq
  unfold handler gate
  rw [BitVec.toNat_append, BitVec.toNat_append, BitVec.toNat_setWidth, BitVec.toNat_setWidth,
    BitVec.toNat_setWidth, h₁, h₂, h₃, ← Nat.shiftLeft_add_eq_or_of_lt (by omega),
    ← Nat.shiftLeft_add_eq_or_of_lt (by omega), Nat.shiftLeft_eq, Nat.shiftLeft_eq]
  omega

theorem dpl_gate (addr : U64) (flags : Byte) : (gate addr flags).dpl = (flags >>> 5) &&& 3 := rfl

end InterruptDescriptor

/-! ## The code -/

/-- A line that `RegisterInterruptVector` logs. -/
structure VectorLog where
  format : String
  vector : Byte
  name : String
  deriving DecidableEq, Repr

/-- The globals of `interrupt.c` that the calls share. -/
structure Interrupts where
  idt : Byte → InterruptDescriptor
  vectors : Byte → Bool
  /-- `iv_lock` -/
  lock : Lock
  log : List VectorLog

/-- The entry stubs of `interrupts.S`, by their addresses. -/
structure Stubs where
  intDivideBy0 : U64
  intNmi : U64
  intTss : U64
  intGeneralProtectionFault : U64
  intPageFault : U64
  intWatchdog : U64

/-- `idt_set_gate` -/
def idtSetGate (vector : Byte) (handler : U64) (flags : Byte) : Kernel Interrupts Unit :=
  modify fun s => { s with
    idt := Function.update s.idt vector (.gate handler flags)
    vectors := Function.update s.vectors vector true }

/-- `InterruptInit`; the `lidt` at its end loads a register of the calling CPU. -/
def interruptInit (stubs : Stubs) : Kernel Interrupts Unit := do
  idtSetGate 0x00 stubs.intDivideBy0 0x8E
  idtSetGate 0x02 stubs.intNmi 0x8E
  idtSetGate 0x0A stubs.intTss 0x8E
  idtSetGate 0x0D stubs.intGeneralProtectionFault 0x8E
  idtSetGate 0x0E stubs.intPageFault 0x8E
  idtSetGate 0x30 stubs.intWatchdog 0x8E

def lockVectors (cpu : Cpu) : Kernel Interrupts Unit :=
  Kernel.zoom Interrupts.lock (fun l s => { s with lock := l }) (aquireLock cpu)

def unlockVectors : Kernel Interrupts Unit :=
  Kernel.zoom Interrupts.lock (fun l s => { s with lock := l }) releaseLock

def logVector (format : String) (vector : Byte) (name : String) : Kernel Interrupts Unit :=
  modify fun s => { s with log := s.log ++ [⟨format, vector, name⟩] }

/-- `RegisterInterruptVector`, called on `cpu`. -/
def registerInterruptVector (cpu : Cpu) (vector : Byte) (handler : U64) (name : String) :
    Kernel Interrupts Unit := do
  lockVectors cpu
  if vector ≤ 64 then
    throw (.panic "Attempted register reserved interrupt vector" .unknown)
  let s ← get
  if s.vectors vector = true then
    logVector "vector %u used attemped to be registered by %s" vector name
    throw (.panic "Vector in use " .taken)
  idtSetGate vector handler 0xEE
  logVector "Interrupt vector %u registered succesfully to \"%s\"\n" vector name
  unlockVectors

/-! ## Histories -/

/-- A call on the table. -/
inductive IdtCall
  | init
  | register (cpu : Cpu) (vector : Byte) (handler : U64) (name : String)

def IdtCall.run (stubs : Stubs) : IdtCall → Kernel Interrupts Unit
  | init => interruptInit stubs
  | register cpu vector handler name => registerInterruptVector cpu vector handler name

/-- Calls one after the other. -/
def idtCalls (stubs : Stubs) : List IdtCall → Kernel Interrupts Unit
  | [] => return
  | c :: cs => do
    c.run stubs
    idtCalls stubs cs

/-- The zeroed table. -/
def zeroed : Interrupts := ⟨fun _ => .blank, fun _ => false, .free, []⟩

/-- The stub `InterruptInit` installs at a vector. -/
def Stubs.at (stubs : Stubs) (v : Byte) : Option U64 :=
  if v = 0x00 then some stubs.intDivideBy0
  else if v = 0x02 then some stubs.intNmi
  else if v = 0x0A then some stubs.intTss
  else if v = 0x0D then some stubs.intGeneralProtectionFault
  else if v = 0x0E then some stubs.intPageFault
  else if v = 0x30 then some stubs.intWatchdog
  else none

/-- The handler a call gives a vector. -/
def IdtCall.gives (stubs : Stubs) (v : Byte) : IdtCall → Option U64
  | init => stubs.at v
  | register _ vector handler _ => if vector = v then some handler else none

/-- The handlers ever given for a vector. -/
def given (stubs : Stubs) (cs : List IdtCall) (v : Byte) : List U64 :=
  cs.filterMap (IdtCall.gives stubs v)

/-- The vectors that `RegisterInterruptVector` was called for. -/
def registered (cs : List IdtCall) : List Byte :=
  cs.filterMap fun
    | .init => none
    | .register _ vector _ _ => some vector

/-! ## One call -/

theorem Stubs.at_le {stubs : Stubs} {v : Byte} {a : U64} (h : stubs.at v = some a) : v ≤ 64 := by
  unfold Stubs.at at h
  split_ifs at h <;> subst v <;> decide

theorem interruptInit_eq (stubs : Stubs) (s : Interrupts) : interruptInit stubs s = .ok () { s with
    idt := fun v => (stubs.at v).elim (s.idt v) (.gate · 0x8E)
    vectors := fun v => (stubs.at v).isSome || s.vectors v } := by
  have hidt : (fun v => (stubs.at v).elim (s.idt v) (.gate · 0x8E)) =
      Function.update (Function.update (Function.update (Function.update (Function.update
        (Function.update s.idt 0x00 (.gate stubs.intDivideBy0 0x8E))
        0x02 (.gate stubs.intNmi 0x8E)) 0x0A (.gate stubs.intTss 0x8E))
        0x0D (.gate stubs.intGeneralProtectionFault 0x8E))
        0x0E (.gate stubs.intPageFault 0x8E)) 0x30 (.gate stubs.intWatchdog 0x8E) := by
    funext v
    simp only [Stubs.at, Function.update_apply]
    split_ifs <;> first | rfl | (subst v; contradiction)
  have hvec : (fun v => (stubs.at v).isSome || s.vectors v) =
      Function.update (Function.update (Function.update (Function.update (Function.update
        (Function.update s.vectors 0x00 true) 0x02 true) 0x0A true) 0x0D true) 0x0E true)
        0x30 true := by
    funext v
    simp only [Stubs.at, Function.update_apply]
    split_ifs <;> rfl
  rw [hidt, hvec]
  rfl

section Register

variable {s : Interrupts} (hl : s.lock = .free) (cpu : Cpu) {v : Byte} (addr : U64) (name : String)

include hl

theorem lockVectors_free : ∃ l, lockVectors cpu s = .ok () { s with lock := l } := by
  obtain ⟨l, hok, -⟩ := aquireLock_mine (l := s.lock) (Or.inl hl : Lock.Mine _ cpu)
  exact ⟨l, Kernel.zoom_of_ok hok⟩

theorem register_reserved (hv : v ≤ 64) : ∃ l, registerInterruptVector cpu v addr name s =
    .error (.panic "Attempted register reserved interrupt vector" .unknown)
      { s with lock := l } := by
  obtain ⟨l, hlock⟩ := lockVectors_free hl cpu
  refine ⟨l, ?_⟩
  unfold registerInterruptVector
  rw [Kernel.bind_of_ok hlock, if_pos hv]
  rfl

theorem register_taken (hv : ¬ v ≤ 64) (ht : s.vectors v = true) :
    ∃ l log, registerInterruptVector cpu v addr name s = .error (.panic "Vector in use " .taken)
      { s with lock := l, log := log } := by
  obtain ⟨l, hlock⟩ := lockVectors_free hl cpu
  refine ⟨l, s.log ++ [⟨"vector %u used attemped to be registered by %s", v, name⟩], ?_⟩
  unfold registerInterruptVector
  rw [Kernel.bind_of_ok hlock, if_neg hv]
  show (if s.vectors v = true then _ else _ : Kernel Interrupts Unit) { s with lock := l } = _
  rw [if_pos ht]
  rfl

theorem register_new (hv : ¬ v ≤ 64) (ht : s.vectors v = false) :
    ∃ log, registerInterruptVector cpu v addr name s = .ok () { s with
      idt := Function.update s.idt v (.gate addr 0xEE)
      vectors := Function.update s.vectors v true
      lock := .free
      log := log } := by
  obtain ⟨l, hlock⟩ := lockVectors_free hl cpu
  refine ⟨s.log ++ [⟨"Interrupt vector %u registered succesfully to \"%s\"\n", v, name⟩], ?_⟩
  unfold registerInterruptVector
  rw [Kernel.bind_of_ok hlock, if_neg hv]
  show (if s.vectors v = true then _ else _ : Kernel Interrupts Unit) { s with lock := l } = _
  rw [if_neg (by simp [ht])]
  rfl

end Register

/-! ## All calls -/

/-- The flags of the gate of a vector. -/
def gateFlags (v : Byte) : Byte := if v ≤ 64 then 0x8E else 0xEE

/-- What the table holds after a history of calls. -/
structure IdtRecords (stubs : Stubs) (cs : List IdtCall) (s : Interrupts) : Prop where
  lock : s.lock = .free
  vectors : ∀ v, s.vectors v = true ↔ given stubs cs v ≠ []
  gates : ∀ v, ∀ a ∈ given stubs cs v, s.idt v = .gate a (gateFlags v)
  blank : ∀ v, given stubs cs v = [] → s.idt v = .blank
  reserved : ∀ v, v ≤ 64 → ∀ a ∈ given stubs cs v, stubs.at v = some a
  high : ∀ v, ¬ v ≤ 64 → (given stubs cs v ≠ [] ↔ v ∈ registered cs)

theorem given_snoc (stubs : Stubs) (cs : List IdtCall) (c : IdtCall) (v : Byte) :
    given stubs (cs ++ [c]) v = given stubs cs v ++ (c.gives stubs v).toList := by
  unfold given
  rw [List.filterMap_append]
  cases h : c.gives stubs v <;> simp [h]

theorem IdtRecords.zeroed (stubs : Stubs) : IdtRecords stubs [] zeroed where
  lock := rfl
  vectors v := by simp [DejOs.zeroed, given]
  gates v a ha := by cases ha
  blank v _ := rfl
  reserved v _ a ha := by cases ha
  high v _ := by simp [given, registered]

section Keep

variable {stubs : Stubs} {cs : List IdtCall} {s : Interrupts} (h : IdtRecords stubs cs s)

include h

theorem IdtRecords.init : IdtRecords stubs (cs ++ [.init]) { s with
    idt := fun v => (stubs.at v).elim (s.idt v) (.gate · 0x8E)
    vectors := fun v => (stubs.at v).isSome || s.vectors v } := by
  have hgiven : ∀ v, given stubs (cs ++ [.init]) v = given stubs cs v ++ (stubs.at v).toList :=
    given_snoc stubs cs .init
  constructor
  · exact h.lock
  · intro v
    rw [hgiven]
    cases hv : stubs.at v with
    | none => simpa [hv] using h.vectors v
    | some a => simp [hv]
  · intro v a ha
    rw [hgiven] at ha
    cases hv : stubs.at v with
    | none =>
      rw [hv] at ha
      simpa [hv] using h.gates v a (by simpa using ha)
    | some b =>
      -- a stub is given again, and always the same one
      have hle := Stubs.at_le hv
      have hab : a = b := by
        rw [hv] at ha
        rcases List.mem_append.mp ha with ha | ha
        · exact Option.some.inj ((h.reserved v hle a ha).symm.trans hv)
        · simpa using ha
      rw [hab, gateFlags, if_pos hle]
      simp [hv]
  · intro v hnil
    rw [hgiven, List.append_eq_nil_iff] at hnil
    have hv : stubs.at v = none := by simpa using hnil.2
    simpa [hv] using h.blank v hnil.1
  · intro v hle a ha
    rw [hgiven] at ha
    rcases List.mem_append.mp ha with ha | ha
    · exact h.reserved v hle a ha
    · simpa using ha
  · intro v hv
    have hnone : stubs.at v = none := by
      rw [Option.eq_none_iff_forall_ne_some]
      exact fun a ha => hv (Stubs.at_le ha)
    rw [hgiven, hnone]
    simpa [registered] using h.high v hv

theorem IdtRecords.register {cpu : Cpu} {v : Byte} {addr : U64} {name : String}
    {log : List VectorLog} (hv : ¬ v ≤ 64) (ht : s.vectors v = false) :
    IdtRecords stubs (cs ++ [.register cpu v addr name]) { s with
      idt := Function.update s.idt v (.gate addr 0xEE)
      vectors := Function.update s.vectors v true
      lock := .free
      log := log } := by
  have hgiven : ∀ w, given stubs (cs ++ [.register cpu v addr name]) w =
      given stubs cs w ++ (if v = w then some addr else none).toList :=
    given_snoc stubs cs (.register cpu v addr name)
  have hnil : given stubs cs v = [] := by
    by_contra hne
    rw [(h.vectors v).mpr hne] at ht
    cases ht
  have hother : ∀ w, w ≠ v → given stubs (cs ++ [.register cpu v addr name]) w =
      given stubs cs w := by
    intro w hw
    rw [hgiven, if_neg (Ne.symm hw)]
    exact List.append_nil _
  have hself : given stubs (cs ++ [.register cpu v addr name]) v = [addr] := by
    rw [hgiven, hnil, if_pos rfl]
    rfl
  constructor
  · rfl
  · intro w
    rcases eq_or_ne w v with rfl | hw
    · simp [hself]
    · rw [hother w hw]
      simpa [hw] using h.vectors w
  · intro w a ha
    rcases eq_or_ne w v with rfl | hw
    · rw [hself, List.mem_singleton] at ha
      rw [ha, gateFlags, if_neg hv]
      exact Function.update_self ..
    · rw [hother w hw] at ha
      simpa [hw] using h.gates w a ha
  · intro w hnil
    rcases eq_or_ne w v with rfl | hw
    · rw [hself] at hnil
      cases hnil
    · rw [hother w hw] at hnil
      simpa [hw] using h.blank w hnil
  · intro w hle a ha
    have hw : w ≠ v := fun e => hv (e ▸ hle)
    rw [hother w hw] at ha
    exact h.reserved w hle a ha
  · intro w hlt
    have hreg : registered (cs ++ [.register cpu v addr name]) = registered cs ++ [v] := by
      simp [registered]
    rw [hreg, List.mem_append, List.mem_singleton]
    rcases eq_or_ne w v with rfl | hw
    · simp [hself]
    · rw [hother w hw, h.high w hlt]
      simp [hw]

end Keep

theorem idtRecords_of_ok {stubs : Stubs} {cs : List IdtCall} {s s' : Interrupts} {ds : List IdtCall}
    (hd : IdtRecords stubs ds s) (h : idtCalls stubs cs s = .ok () s') :
    IdtRecords stubs (ds ++ cs) s' := by
  induction cs generalizing s ds with
  | nil =>
    obtain ⟨-, rfl⟩ := EStateM.Result.ok.inj h
    rw [List.append_nil]
    exact hd
  | cons c cs ih =>
    obtain ⟨u, t, hc, h⟩ := Kernel.bind_eq_ok.mp h
    have hstep : IdtRecords stubs (ds ++ [c]) t := by
      cases c with
      | init =>
        obtain ⟨-, rfl⟩ := EStateM.Result.ok.inj ((interruptInit_eq stubs s).symm.trans hc)
        exact hd.init
      | register cpu v addr name =>
        have hc : registerInterruptVector cpu v addr name s = .ok u t := hc
        by_cases hv : v ≤ 64
        · obtain ⟨l, hpanic⟩ := register_reserved hd.lock cpu addr name hv
          rw [hpanic] at hc
          cases hc
        · cases ht : s.vectors v with
          | true =>
            obtain ⟨l, log, hpanic⟩ := register_taken hd.lock cpu addr name hv ht
            rw [hpanic] at hc
            cases hc
          | false =>
            obtain ⟨log, hok⟩ := register_new hd.lock cpu addr name hv ht
            obtain ⟨-, rfl⟩ := EStateM.Result.ok.inj (hok.symm.trans hc)
            exact hd.register hv ht
    rw [← List.singleton_append, ← List.append_assoc]
    exact ih hstep h

section Read

variable {stubs : Stubs} {cs : List IdtCall} {s : Interrupts} (h : IdtRecords stubs cs s)

include h

/-- A vector above 64 is taken when it was registered. -/
theorem IdtRecords.taken_iff {v : Byte} (hv : ¬ v ≤ 64) : s.vectors v = true ↔ v ∈ registered cs :=
  (h.vectors v).trans (h.high v hv)

theorem IdtRecords.returns_iff (cpu : Cpu) (v : Byte) (addr : U64) (name : String) :
    (∃ s', registerInterruptVector cpu v addr name s = .ok () s') ↔
      64 < v ∧ v ∉ registered cs := by
  by_cases hv : v ≤ 64
  · obtain ⟨l, hpanic⟩ := register_reserved h.lock cpu addr name hv
    rw [hpanic]
    exact ⟨fun ⟨_, hok⟩ => (nomatch hok), fun hlt => absurd hlt.1 (BitVec.not_lt.mpr hv)⟩
  · have hlt : 64 < v := BitVec.not_le.mp hv
    rw [← h.taken_iff hv]
    cases ht : s.vectors v with
    | true =>
      obtain ⟨l, log, hpanic⟩ := register_taken h.lock cpu addr name hv ht
      rw [hpanic]
      exact ⟨fun ⟨_, hok⟩ => (nomatch hok), fun hnot => absurd rfl hnot.2⟩
    | false =>
      obtain ⟨log, hok⟩ := register_new h.lock cpu addr name hv ht
      exact ⟨fun _ => ⟨hlt, Bool.false_ne_true⟩, fun _ => ⟨_, hok⟩⟩

theorem IdtRecords.panics (cpu : Cpu) {v : Byte} (addr : U64) (name : String)
    (hv : ¬ (64 < v ∧ v ∉ registered cs)) : ∃ msg code s',
      registerInterruptVector cpu v addr name s = .error (.panic msg code) s' ∧
        s'.idt = s.idt ∧ s'.vectors = s.vectors := by
  by_cases hle : v ≤ 64
  · obtain ⟨l, hpanic⟩ := register_reserved h.lock cpu addr name hle
    exact ⟨_, _, _, hpanic, rfl, rfl⟩
  · have ht : s.vectors v = true := by
      by_contra hne
      rw [h.taken_iff hle] at hne
      exact hv ⟨BitVec.not_le.mp hle, hne⟩
    obtain ⟨l, log, hpanic⟩ := register_taken h.lock cpu addr name hle ht
    exact ⟨_, _, _, hpanic, rfl, rfl⟩

/-- Only the gates above 64 can be called by the user. -/
theorem IdtRecords.dpl {v : Byte} (hd : (s.idt v).dpl = 3) : 64 < v := by
  rw [← BitVec.not_le]
  intro hle
  cases hg : given stubs cs v with
  | nil =>
    rw [h.blank v hg] at hd
    exact absurd hd (by decide)
  | cons a l =>
    rw [h.gates v a (by rw [hg]; exact List.mem_cons_self), gateFlags, if_pos hle,
      InterruptDescriptor.dpl_gate] at hd
    exact absurd hd (by decide)

end Read

/-- **The interrupt table.** After any calls of `InterruptInit` and `RegisterInterruptVector` that
came back, from the zeroed table. -/
theorem idt_history {stubs : Stubs} {cs : List IdtCall} {s : Interrupts}
    (hrun : idtCalls stubs cs zeroed = .ok () s) :
    (∀ cpu v addr name,
      ((∃ s', registerInterruptVector cpu v addr name s = .ok () s') ↔
        64 < v ∧ v ∉ registered cs) ∧
      (¬ (64 < v ∧ v ∉ registered cs) → ∃ msg code s',
        registerInterruptVector cpu v addr name s = .error (.panic msg code) s' ∧
          s'.idt = s.idt ∧ s'.vectors = s.vectors)) ∧
    (∀ v, s.vectors v = true ↔ given stubs cs v ≠ []) ∧
    (∀ v, given stubs cs v = [] → s.idt v = .blank) ∧
    (∀ v, ∀ a ∈ given stubs cs v, (s.idt v).handler = a) ∧
    (∀ v, (s.idt v).dpl = 3 → 64 < v) ∧
    ∃ s', interruptInit stubs s = .ok () s' ∧ ∀ v, 64 < v → s'.idt v = s.idt v := by
  have h : IdtRecords stubs cs s := idtRecords_of_ok (IdtRecords.zeroed stubs) hrun
  refine ⟨fun cpu v addr name => ⟨h.returns_iff cpu v addr name, h.panics cpu addr name⟩,
    h.vectors, h.blank, fun v a ha => ?_, fun v => h.dpl, _, interruptInit_eq stubs s,
    fun v hv => ?_⟩
  · rw [h.gates v a ha, InterruptDescriptor.handler_gate]
  · have hnone : stubs.at v = none := by
      rw [Option.eq_none_iff_forall_ne_some]
      exact fun a ha => BitVec.not_le.mpr hv (Stubs.at_le ha)
    simp [hnone]

/-- The boot CPU and an AP initialise the table, with one vector registered between them. -/
theorem idt_history_oneVector : ∃ s, idtCalls ⟨0x10, 0x20, 0x30, 0x40, 0x50, 0x60⟩
      [.init, .register ⟨0, 0⟩ 0x80 0xFFFFFFFF80001234 "timer", .init] zeroed = .ok () s ∧
    (s.idt 0x80).handler = 0xFFFFFFFF80001234 ∧
    ¬ ∃ s', registerInterruptVector ⟨0, 0⟩ 0x80 0 "again" s = .ok () s' := by
  have hrun : ∃ s, idtCalls ⟨0x10, 0x20, 0x30, 0x40, 0x50, 0x60⟩
      [.init, .register ⟨0, 0⟩ 0x80 0xFFFFFFFF80001234 "timer", .init] zeroed = .ok () s := ⟨_, rfl⟩
  obtain ⟨s, hs⟩ := hrun
  obtain ⟨hreg, -, -, hgate, -⟩ := idt_history hs
  refine ⟨s, hs, hgate 0x80 _ (by decide), ?_⟩
  rw [(hreg _ _ _ _).1]
  decide

end DejOs
