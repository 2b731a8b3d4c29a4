import DejOs.Mmio
import DejOs.Lib.Interleaving

/-!
# Interprocessor interrupts

`send_ipi` and `send_eoi` of `interrupt.c`, with the boot CPU as the sender and `watchdog_handler`
on the other CPUs. An interrupt is a message from the write of the ICR on, and is taken at any later
step.

The handler learns the mode from the flag `x2` and the pointer `lapic`, which the sender sets around
the launch: in xAPIC mode `lapic` before it, in x2APIC mode `x2` after it. So the first interrupt in
x2APIC mode can be taken while `x2` is still false, and the handler then writes through the `NULL`
pointer. `eoi_right` says that nothing else can go wrong.

The `here` flag that the handler stores is its own CPU's and is left out.
-/

namespace DejOs

open Interleaving

/-! ## The code -/

/-- The mode of the local APIC. -/
inductive ApicMode
  | disabled
  | xapic
  | x2apic
  deriving DecidableEq, Repr

/-- The mode `send_ipi` reads from `MSR_IA32_APIC_BASE`. -/
def apicMode (msr : U64) : ApicMode :=
  let en := (msr >>> 11) &&& 1
  let extd := (msr >>> 10) &&& 1
  if en ≠ 0 ∧ extd ≠ 0 then .x2apic
  else if en = 1 ∧ extd = 0 then .xapic
  else .disabled

namespace Ipi

/-- Where the sender is in `send_ipi`. -/
inductive Sender
  | idle
  /-- `wrmsr(MSR_X2APIC_ICR, icr)` -/
  | icr (apId : BitVec 32)
  /-- `if (!lapic) lapic = map_mmio(...)` -/
  | map (apId : BitVec 32)
  /-- `while (lapic_read(LAPIC_ICR_LOW) & ICR_DELIVERY_PENDING)` -/
  | poll (apId : BitVec 32)
  /-- `lapic_write(LAPIC_ICR_HIGH, (ap_id & 0xFF) << 24)` -/
  | high (apId : BitVec 32)
  /-- `lapic_write(LAPIC_ICR_LOW, vector)` -/
  | low (dest : BitVec 32)
  /-- `x2 = true` or `x2 = false` -/
  | flag
  deriving DecidableEq, Repr

/-- Where a CPU is in `watchdog_handler`. -/
inductive Handler
  | idle
  /-- `if (x2)` of `send_eoi` -/
  | test
  /-- `wrmsr(MSR_APIC_EOI, 0)` -/
  | msr
  /-- The load of `lapic` in `lapic_write` -/
  | load
  /-- The store of `lapic_write`, with the pointer loaded -/
  | mmio (lapic : U64)
  deriving DecidableEq, Repr

/-- How the end of an interrupt was signalled. -/
inductive Eoi
  /-- Through `MSR_APIC_EOI`. -/
  | msr
  /-- By a store to this address. -/
  | mmio (addr : U64)
  deriving DecidableEq, Repr

structure State (ι : Type) where
  x2 : Bool
  lapic : U64
  /-- The cursor of `map_mmio`. -/
  offst : U64
  sender : Sender
  /-- The destinations of the interrupts in flight. -/
  inflight : List (BitVec 32)
  handler : ι → Handler
  /-- The signals given so far. -/
  log : List (ι × Eoi)

/-- A step: a call of `send_ipi`, a step of the sender (which may find an earlier delivery pending),
the start of the handler on a CPU, or a step of it. -/
inductive Act (ι : Type)
  | send (apId : BitVec 32)
  | run (pending : Bool)
  | take (c : ι)
  | handle (c : ι)
  deriving DecidableEq, Repr

variable {ι : Type}

/-- Before the first call. -/
def init (offst : U64) : State ι := ⟨false, 0, offst, .idle, [], fun _ => .idle, []⟩

/-- `send_ipi`, up to its first step; with the APIC disabled it returns `-1`. -/
def State.send (msr : U64) (s : State ι) (apId : BitVec 32) : Option (State ι) :=
  if s.sender = .idle then
    match apicMode msr with
    | .x2apic => some { s with sender := .icr apId }
    | .xapic => some { s with sender := .map apId }
    | .disabled => some s
  else none

/-- The next step of the sender. `map_mmio` returns the page at its cursor. -/
def State.run (msr : U64) (s : State ι) (pending : Bool) : Option (State ι) :=
  match s.sender with
  | .idle => none
  | .icr apId => some { s with inflight := apId :: s.inflight, sender := .flag }
  | .map apId =>
    if s.lapic = 0 then
      some { s with lapic := mmioBase + s.offst, offst := s.offst + 4096, sender := .poll apId }
    else some { s with sender := .poll apId }
  | .poll apId => if pending then some s else some { s with sender := .high apId }
  | .high apId => some { s with sender := .low (apId &&& 0xFF) }
  | .low dest => some { s with inflight := dest :: s.inflight, sender := .flag }
  | .flag => some { s with x2 := apicMode msr = .x2apic, sender := .idle }

/-- The destination a CPU answers to. -/
def dest (msr : U64) (lapicId : BitVec 32) : BitVec 32 :=
  if apicMode msr = .x2apic then lapicId else lapicId &&& 0xFF

section

variable [DecidableEq ι]

def State.goto (s : State ι) (c : ι) (h : Handler) : State ι :=
  { s with handler := Function.update s.handler c h }

/-- CPU `c` takes an interrupt and enters the handler. -/
def State.take (msr : U64) (lapicId : ι → BitVec 32) (s : State ι) (c : ι) : Option (State ι) :=
  if s.handler c = .idle ∧ dest msr (lapicId c) ∈ s.inflight then
    some { s.goto c .test with inflight := s.inflight.erase (dest msr (lapicId c)) }
  else none

/-- The next step of `send_eoi` on CPU `c`. -/
def State.handle (s : State ι) (c : ι) : Option (State ι) :=
  match s.handler c with
  | .idle => none
  | .test => some (s.goto c (if s.x2 then .msr else .load))
  | .msr => some { s.goto c .idle with log := (c, .msr) :: s.log }
  | .load => some (s.goto c (.mmio s.lapic))
  | .mmio lapic => some { s.goto c .idle with log := (c, .mmio (lapic + 0xB0)) :: s.log }

def next (msr : U64) (lapicId : ι → BitVec 32) (s : State ι) : Act ι → Option (State ι)
  | .send apId => s.send msr apId
  | .run pending => s.run msr pending
  | .take c => s.take msr lapicId c
  | .handle c => s.handle c

end

/-- The signal the mode asks for, with the APIC mapped at `page`. -/
def Right (msr page : U64) (e : Eoi) : Prop :=
  match apicMode msr with
  | .x2apic => e = .msr
  | .xapic => e = .mmio (page + 0xB0)
  | .disabled => False

/-- In x2APIC mode no CPU tests `x2` while the sender is between the launch of its first interrupt
and `x2 = true`. -/
def Settled (msr : U64) (s : State ι) : Act ι → Prop
  | .handle c =>
    s.handler c = .test → ¬ (apicMode msr = .x2apic ∧ s.sender = .flag ∧ s.x2 = false)
  | _ => True

instance (msr : U64) (s : State ι) : DecidablePred (Settled msr s)
  | .handle _ => inferInstanceAs (Decidable (_ → _))
  | .send _ | .run _ | .take _ => inferInstanceAs (Decidable True)

/-! ## The invariant -/

/-- An interrupt is in flight or being handled. -/
def Busy (s : State ι) : Prop := s.inflight ≠ [] ∨ ∃ c, s.handler c ≠ .idle

/-- Handlers will find what they need, once the sender is past `x2 = true`. -/
def Ready (msr page : U64) (s : State ι) : Prop :=
  match apicMode msr with
  | .x2apic => s.x2 = true ∨ s.sender = .flag
  | .xapic => s.lapic = page
  | .disabled => False

/-- The places of the sender in each mode. -/
def SenderOk (msr page : U64) (s : State ι) : Prop :=
  match s.sender with
  | .idle => True
  | .icr _ => apicMode msr = .x2apic
  | .map _ => apicMode msr = .xapic
  | .poll _ | .high _ | .low _ => apicMode msr = .xapic ∧ s.lapic = page
  | .flag => apicMode msr = .x2apic ∨ (apicMode msr = .xapic ∧ s.lapic = page)

/-- The places of a handler in each mode. -/
def HandlerOk (msr page : U64) : Handler → Prop
  | .idle | .test => True
  | .msr => apicMode msr = .x2apic
  | .load => apicMode msr = .xapic
  | .mmio lapic => apicMode msr = .xapic ∧ lapic = page

structure Inv (msr offst : U64) (s : State ι) : Prop where
  sender : SenderOk msr (mmioBase + offst) s
  handlers : ∀ c, HandlerOk msr (mmioBase + offst) (s.handler c)
  log : ∀ x ∈ s.log, Right msr (mmioBase + offst) x.2
  sent : Busy s → Ready msr (mmioBase + offst) s
  x2 : apicMode msr = .xapic → s.x2 = false
  lapic : (s.lapic = 0 ∧ s.offst = offst) ∨ s.lapic = mmioBase + offst

section Keep

variable {msr offst : U64} {s s' : State ι} {lapicId : ι → BitVec 32} {c : ι}

theorem Inv.send (h : Inv msr offst s) {apId : BitVec 32} (hn : s.send msr apId = some s') :
    Inv msr offst s' := by
  unfold State.send at hn
  split_ifs at hn with hidle
  -- the sender was idle, so `x2` is set already if an interrupt is under way
  have hready : Ready msr (mmioBase + offst) s → ∀ p, Ready msr (mmioBase + offst)
      { s with sender := p } := by
    intro hr p
    unfold Ready at hr ⊢
    split at hr
    · rename_i hm
      rw [hidle] at hr
      simp only [reduceCtorEq, or_false] at hr
      exact Or.inl hr
    · exact hr
    · exact hr
  split at hn
  · rename_i hm
    cases hn
    exact ⟨hm, h.handlers, h.log, fun hb => hready (h.sent hb) _, h.x2, h.lapic⟩
  · rename_i hm
    cases hn
    exact ⟨hm, h.handlers, h.log, fun hb => hready (h.sent hb) _, h.x2, h.lapic⟩
  · cases hn
    exact h

/-- In xAPIC mode nothing but the pointer counts. -/
theorem ready_of_xapic {page : U64} (hm : apicMode msr = .xapic) (hl : s.lapic = page) :
    Ready msr page s := by
  unfold Ready
  rw [hm]
  exact hl

theorem Inv.run (h : Inv msr offst s) (hpage : mmioBase + offst ≠ 0) {pending : Bool}
    (hn : s.run msr pending = some s') : Inv msr offst s' := by
  have hs := h.sender
  unfold SenderOk at hs
  unfold State.run at hn
  split at hn <;> rename_i hpc <;> simp only [hpc] at hs
  · cases hn
  · cases hn
    refine ⟨Or.inl hs, h.handlers, h.log, fun _ => ?_, h.x2, h.lapic⟩
    unfold Ready
    rw [hs]
    exact Or.inr rfl
  · split_ifs at hn with hnull
    · cases hn
      obtain ⟨-, hoff⟩ := h.lapic.resolve_right fun e => hpage (e.symm.trans hnull)
      rw [hoff]
      exact ⟨⟨hs, rfl⟩, h.handlers, h.log, fun _ => ready_of_xapic hs rfl, h.x2, Or.inr rfl⟩
    · cases hn
      have hl := h.lapic.resolve_left fun e => hnull e.1
      exact ⟨⟨hs, hl⟩, h.handlers, h.log, fun _ => ready_of_xapic hs hl, h.x2, h.lapic⟩
  · split_ifs at hn
    · cases hn
      exact h
    · cases hn
      exact ⟨hs, h.handlers, h.log, fun _ => ready_of_xapic hs.1 hs.2, h.x2, h.lapic⟩
  · cases hn
    exact ⟨hs, h.handlers, h.log, fun _ => ready_of_xapic hs.1 hs.2, h.x2, h.lapic⟩
  · cases hn
    exact ⟨Or.inr hs, h.handlers, h.log, fun _ => ready_of_xapic hs.1 hs.2, h.x2, h.lapic⟩
  · cases hn
    refine ⟨trivial, h.handlers, h.log, fun hb => ?_, fun hm => ?_, h.lapic⟩
    · rcases hs with hm | ⟨hm, hl⟩
      · unfold Ready
        rw [hm]
        exact Or.inl rfl
      · exact ready_of_xapic hm hl
    · show decide (apicMode msr = .x2apic) = false
      rw [hm]
      rfl

/-- What `send_eoi` decides from `x2`: the interrupt was launched, and the sender is not on its way
to `x2 = true`. -/
theorem Inv.test (h : Inv msr offst s) (hset : Settled msr s (.handle c))
    (hpc : s.handler c = .test) (hr : Ready msr (mmioBase + offst) s) :
    HandlerOk msr (mmioBase + offst) (if s.x2 then .msr else .load) := by
  unfold Ready at hr
  cases hm : apicMode msr with
  | disabled =>
    rw [hm] at hr
    exact hr.elim
  | xapic =>
    rw [h.x2 hm]
    exact hm
  | x2apic =>
    rw [hm] at hr
    have hx2 : s.x2 = true := by
      rcases hr with hx | hflag
      · exact hx
      · by_contra hx
        exact hset hpc ⟨hm, hflag, by simpa using hx⟩
    rw [hx2]
    exact hm

variable [DecidableEq ι]

@[simp] theorem goto_handler_self (s : State ι) (c : ι) (p : Handler) :
    (s.goto c p).handler c = p := Function.update_self ..

theorem goto_handler_of_ne (s : State ι) {c d : ι} (p : Handler) (hd : d ≠ c) :
    (s.goto c p).handler d = s.handler d := Function.update_of_ne hd ..

theorem Inv.goto_handlers (h : Inv msr offst s) {p : Handler}
    (hp : HandlerOk msr (mmioBase + offst) p) (d : ι) :
    HandlerOk msr (mmioBase + offst) ((s.goto c p).handler d) := by
  rcases eq_or_ne d c with rfl | hd
  · rw [goto_handler_self]
    exact hp
  · rw [goto_handler_of_ne s p hd]
    exact h.handlers d

theorem Inv.take (h : Inv msr offst s) (hn : s.take msr lapicId c = some s') :
    Inv msr offst s' := by
  unfold State.take at hn
  split_ifs at hn with henabled
  cases hn
  have hready := h.sent (Or.inl (List.ne_nil_of_mem henabled.2))
  exact ⟨h.sender, h.goto_handlers trivial, h.log, fun _ => hready, h.x2, h.lapic⟩

theorem Inv.signal (h : Inv msr offst s) (hr : Ready msr (mmioBase + offst) s) {e : Eoi}
    (he : Right msr (mmioBase + offst) e) :
    Inv msr offst { s.goto c .idle with log := (c, e) :: s.log } := by
  refine ⟨h.sender, h.goto_handlers trivial, fun x hx => ?_, fun _ => hr, h.x2, h.lapic⟩
  rcases List.mem_cons.mp hx with rfl | hx
  · exact he
  · exact h.log x hx

theorem Inv.handle (h : Inv msr offst s) (hset : Settled msr s (.handle c))
    (hn : s.handle c = some s') : Inv msr offst s' := by
  have hready : s.handler c ≠ .idle → Ready msr (mmioBase + offst) s := fun hne =>
    h.sent (Or.inr ⟨c, hne⟩)
  have hok := h.handlers c
  unfold State.handle at hn
  split at hn <;> rename_i hpc <;> rw [hpc] at hok hready
  · cases hn
  · cases hn
    have hr := hready (by simp)
    exact ⟨h.sender, h.goto_handlers (h.test hset hpc hr), h.log, fun _ => hr, h.x2, h.lapic⟩
  · cases hn
    refine h.signal (hready (by simp)) ?_
    unfold Right
    rw [hok]
  · cases hn
    have hr := hready (by simp)
    refine ⟨h.sender, h.goto_handlers ⟨hok, ?_⟩, h.log, fun _ => hr, h.x2, h.lapic⟩
    unfold Ready at hr
    rw [hok] at hr
    exact hr
  · cases hn
    obtain ⟨hm, rfl⟩ := hok
    refine h.signal (hready (by simp)) ?_
    unfold Right
    rw [hm]

end Keep

theorem mmio_ne_zero {offst : U64} (h : offst.toNat < 0x10000000) : mmioBase + offst ≠ 0 := by
  intro e
  have e := congrArg BitVec.toNat e
  rw [BitVec.toNat_add] at e
  have hb : mmioBase.toNat = 0xFFFFFFFFE0000000 := rfl
  have hz : (0 : U64).toNat = 0 := rfl
  rw [hb, hz] at e
  omega

/-- **The end of interrupt.** In every run in which, in x2APIC mode, no CPU tests `x2` while the
sender is between the launch of its first interrupt and `x2 = true`: every signal goes through the
interface of the mode, in xAPIC mode to the page that `map_mmio` returned, and no CPU is about to
write through `NULL`. -/
theorem eoi_right [DecidableEq ι] {msr offst : U64} {lapicId : ι → BitVec 32} {s : State ι}
    (hoff : offst.toNat < 0x10000000)
    (h : Run (next msr lapicId) (Settled msr) (init offst) s) :
    (∀ x ∈ s.log, Right msr (mmioBase + offst) x.2) ∧ ∀ c, s.handler c ≠ .mmio 0 := by
  have hpage := mmio_ne_zero hoff
  have hinit : Inv msr offst (init offst : State ι) := by
    refine ⟨trivial, fun _ => trivial, List.forall_mem_nil _, ?_, fun _ => rfl, Or.inl ⟨rfl, rfl⟩⟩
    rintro (hne | ⟨c, hne⟩)
    · exact absurd rfl hne
    · exact absurd rfl hne
  have hinv : Inv msr offst s := h.invariant hinit fun s act s' hs hok hn => by
    cases act with
    | send apId => exact hs.send hn
    | run pending => exact hs.run hpage hn
    | take c => exact hs.take hn
    | handle c => exact hs.handle hok hn
  refine ⟨hinv.log, fun c hc => ?_⟩
  have hok := hinv.handlers c
  rw [hc] at hok
  exact hpage hok.2.symm

/-- In x2APIC mode, with the first interrupt handled after `x2 = true`. -/
theorem eoi_right_x2apic : ∃ s : State (Fin 1),
    Run (next 0xFEE00C00 fun _ => 1) (Settled 0xFEE00C00) (init 0) s ∧ s.log = [(0, .msr)] ∧
      ∀ x ∈ s.log, Right 0xFEE00C00 mmioBase x.2 := by
  have hrun : ∃ s : State (Fin 1), exec (next 0xFEE00C00 fun _ => 1) (Settled 0xFEE00C00) (init 0)
      [.send 1, .run false, .take 0, .run false, .handle 0, .handle 0] = some s ∧
      s.log = [(0, .msr)] := ⟨_, rfl, by decide⟩
  obtain ⟨s, hs, hlog⟩ := hrun
  have hr := Run.of_exec .refl hs
  exact ⟨s, hr, hlog, (eoi_right (by decide) hr).1⟩

/-- The first interrupt in x2APIC mode, taken and ended before `x2 = true`. -/
theorem eoi_through_null :
    ¬ ∀ (ι : Type) (_ : DecidableEq ι) (msr offst : U64) (lapicId : ι → BitVec 32) (s : State ι),
      apicMode msr ≠ .disabled → offst.toNat < 0x10000000 →
      Run (next msr lapicId) Free (init offst) s →
      (∀ x ∈ s.log, Right msr (mmioBase + offst) x.2) ∧ ∀ c, s.handler c ≠ .mmio 0 := by
  intro hall
  have hrun : ∃ s : State (Fin 1), exec (next 0xFEE00C00 fun _ => 1) Free (init 0)
      [.send 1, .run false, .take 0, .handle 0, .handle 0] = some s ∧
      s.handler 0 = .mmio 0 := ⟨_, rfl, by decide⟩
  obtain ⟨s, hs, h0⟩ := hrun
  exact (hall _ _ _ 0 _ s (by decide) (by decide) (Run.of_exec .refl hs)).2 0 h0

end Ipi

end DejOs
