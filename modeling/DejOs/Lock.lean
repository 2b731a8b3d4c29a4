import DejOs.Base

/-!
# The kernel lock

`lock_t` of `kernel.h` with `aquire_lock` and `release_lock` of `kernel.c`. The lock stores one bit
and the number of the CPU that holds it, `-1` when nobody does; a CPU that finds its own number
there is let through without touching the bit.

The number is `cpu_id` of the per-CPU block once the GS base is set, and `0` before
(`Cpu.current`). The stored `cpu_id` has 64 bits and the number is an `int`, so it is cut to 32.

The functions here are the calls of one CPU that runs alone; the single shared-memory accesses they
are made of (`passes`, `exchange`, `tag`, `untag`, `unhold`) are what the interleaved models of
`LockNesting` and `AllocatorSmp` step through.
-/

namespace DejOs

/-- `lock_t`. -/
structure Lock where
  held : Bool
  holdingCpu : CInt
  deriving DecidableEq, Repr

/-- The registers and per-CPU words `aquire_lock` reads: the GS base MSR of the executing CPU and
the `cpu_id` word of the block it points to. -/
structure Cpu where
  gsBase : U64
  cpuId : U64
  deriving DecidableEq, Repr

/-- `ispercpuready`: one of the two halves `rdmsr` returns is nonzero. -/
def isPerCpuReady (gsBase : U64) : Bool :=
  gsBase.setWidth 32 != 0#32 || (gsBase >>> 32).setWidth 32 != 0#32

theorem isPerCpuReady_iff (g : U64) : isPerCpuReady g = true ↔ g ≠ 0 := by
  unfold isPerCpuReady
  simp only [Bool.or_eq_true, bne_iff_ne, ne_eq]
  constructor
  · rintro h rfl
    simp at h
  · intro h
    by_contra hc
    push Not at hc
    apply h
    obtain ⟨hlo, hhi⟩ := hc
    have hlo' := congrArg BitVec.toNat hlo
    have hhi' := congrArg BitVec.toNat hhi
    simp only [BitVec.toNat_setWidth, BitVec.toNat_ushiftRight, Nat.shiftRight_eq_div_pow,
      BitVec.toNat_ofNat] at hlo' hhi'
    apply BitVec.eq_of_toNat_eq
    have := g.isLt
    show g.toNat = 0
    omega

/-- `current_cpu` of `aquire_lock`. -/
def Cpu.current (cpu : Cpu) : CInt :=
  if isPerCpuReady cpu.gsBase then cpu.cpuId.setWidth 32 else 0

namespace Lock

/-- The initial lock: not held, no CPU's number. -/
def free : Lock := ⟨false, -1⟩

/-- `lock->holding_cpu == current_cpu`. -/
def passes (l : Lock) (current : CInt) : Prop := l.holdingCpu = current

instance (l : Lock) (current : CInt) : Decidable (l.passes current) :=
  inferInstanceAs (Decidable (_ = _))

/-- The lock after `atomic_exchange(&lock->held, true)`, which returns the old bit. -/
def exchange (l : Lock) : Lock := { l with held := true }

/-- `lock->holding_cpu = current_cpu`. -/
def tag (l : Lock) (current : CInt) : Lock := { l with holdingCpu := current }

/-- `lock->holding_cpu = -1`. -/
def untag (l : Lock) : Lock := { l with holdingCpu := -1 }

/-- `atomic_store(&lock->held, false)`. -/
def unhold (l : Lock) : Lock := { l with held := false }

end Lock

/-- `aquire_lock` by a CPU that runs alone: when the bit is set by someone else the exchange loop
never ends. -/
def aquireLock (cpu : Cpu) : Kernel Lock Unit := fun l =>
  if l.passes cpu.current then .ok () l
  else if l.held then .error .spin l.exchange
  else .ok () (l.exchange.tag cpu.current)

/-- `release_lock`. -/
def releaseLock : Kernel Lock Unit := fun l => .ok () l.untag.unhold

/-- The lock is free, or left held by this CPU. -/
def Lock.Mine (l : Lock) (cpu : Cpu) : Prop := l = .free ∨ l = ⟨true, cpu.current⟩

/-- A CPU gets a lock that is free or its own, and it is its own or free afterwards. -/
theorem aquireLock_mine {cpu : Cpu} {l : Lock} (h : l.Mine cpu) :
    ∃ l', aquireLock cpu l = .ok () l' ∧ l'.Mine cpu := by
  unfold aquireLock
  by_cases hp : l.passes cpu.current
  · exact ⟨l, by rw [if_pos hp], h⟩
  · rcases h with rfl | rfl
    · exact ⟨⟨true, cpu.current⟩, by rw [if_neg hp]; rfl, Or.inr rfl⟩
    · exact absurd rfl hp

end DejOs
