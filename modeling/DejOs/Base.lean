import Mathlib.Tactic

/-!
# Machine words and calls that may not return

The kernel's `uint64_t` is `U64`, its `uint8_t` is `Byte` and its `int` is `CInt`; all of them wrap.
A kernel function is a `Kernel σ α`: from a state it either returns a value, or it ends in a `Halt`
and never returns (`panic` is `_Noreturn`). The state at the halt is kept, so that "panics and
changes nothing" can be said.
-/

namespace DejOs

/-- `uint64_t`. -/
abbrev U64 := BitVec 64

/-- `uint8_t`. -/
abbrev Byte := BitVec 8

/-- `int`, as the 32-bit pattern it is stored as. -/
abbrev CInt := BitVec 32

/-- A field of `w` bits from bit `k` on, cut out by a shift and a mask. -/
theorem toNat_field (a : U64) (k w : ℕ) (hw : w ≤ 64) :
    ((a >>> k) &&& BitVec.ofNat 64 (2 ^ w - 1)).toNat = a.toNat / 2 ^ k % 2 ^ w := by
  have hpow : 2 ^ w ≤ 2 ^ 64 := Nat.pow_le_pow_right (by decide) hw
  have hmask : (2 ^ w - 1) % 2 ^ 64 = 2 ^ w - 1 :=
    Nat.mod_eq_of_lt (by have := Nat.two_pow_pos w; omega)
  rw [BitVec.toNat_and, BitVec.toNat_ushiftRight, BitVec.toNat_ofNat, hmask,
    Nat.and_two_pow_sub_one_eq_mod, Nat.shiftRight_eq_div_pow]

/-- A field put next to the bits below it. -/
theorem toNat_or_shiftLeft {a b : U64} {k : ℕ} (ha : a.toNat < 2 ^ k)
    (hb : b.toNat * 2 ^ k < 2 ^ 64) : (a ||| b <<< k).toNat = a.toNat + b.toNat * 2 ^ k := by
  rw [BitVec.toNat_or, BitVec.toNat_shiftLeft, Nat.shiftLeft_eq, Nat.mod_eq_of_lt hb, Nat.or_comm,
    ← Nat.shiftLeft_eq, ← Nat.shiftLeft_add_eq_or_of_lt ha, Nat.add_comm]

/-- The status codes of `panic.h`. -/
inductive Status
  | unknown
  | invalidSil
  | taken
  | hardwareFailure
  | lockup
  | nomem
  | invalid
  deriving DecidableEq, Repr

/-- Why a call does not return. -/
inductive Halt
  /-- `panic(msg, code)`. -/
  | panic (msg : String) (code : Status)
  /-- A poll loop on a lock that nobody is left to release. -/
  | spin
  /-- An access to an address that is not mapped; the page fault handler stops the CPU. -/
  | fault (addr : U64)
  /-- A privileged write of reserved bits; the handler of the exception stops the CPU. -/
  | generalProtection
  deriving DecidableEq, Repr

/-- A call of `LogfStr`, with its arguments as words. -/
structure Logf where
  mod : String
  format : String
  args : List U64
  deriving DecidableEq, Repr

/-- A kernel function on the state `σ`. -/
abbrev Kernel (σ α : Type) := EStateM Halt σ α

namespace Kernel

variable {σ τ α β : Type}

theorem bind_apply (x : Kernel σ α) (f : α → Kernel σ β) (s : σ) :
    (x >>= f) s = match x s with
      | .ok a t => f a t
      | .error e t => .error e t := by
  show EStateM.bind x f s = _
  unfold EStateM.bind
  cases x s <;> rfl

theorem bind_eq_ok {x : Kernel σ α} {f : α → Kernel σ β} {s s' : σ} {b : β} :
    (x >>= f) s = .ok b s' ↔ ∃ a t, x s = .ok a t ∧ f a t = .ok b s' := by
  rw [bind_apply]
  constructor
  · intro h
    cases hx : x s with
    | ok a t => rw [hx] at h; exact ⟨a, t, rfl, h⟩
    | error e t => rw [hx] at h; cases h
  · rintro ⟨a, t, hx, hf⟩
    rw [hx]
    exact hf

theorem bind_of_ok {x : Kernel σ α} {f : α → Kernel σ β} {s t : σ} {a : α} (h : x s = .ok a t) :
    (x >>= f) s = f a t := by
  rw [bind_apply, h]

theorem bind_of_error {x : Kernel σ α} {f : α → Kernel σ β} {s t : σ} {e : Halt}
    (h : x s = .error e t) : (x >>= f) s = .error e t := by
  rw [bind_apply, h]

/-- Runs `x` on the part of the state that `get` selects and `put` writes back. -/
def zoom (get : σ → τ) (put : τ → σ → σ) (x : Kernel τ α) : Kernel σ α := fun s =>
  match x (get s) with
  | .ok a t => .ok a (put t s)
  | .error e t => .error e (put t s)

theorem zoom_of_ok {get : σ → τ} {put : τ → σ → σ} {x : Kernel τ α} {s : σ} {a : α} {t : τ}
    (h : x (get s) = .ok a t) : zoom get put x s = .ok a (put t s) := by
  unfold zoom; rw [h]

theorem zoom_of_error {get : σ → τ} {put : τ → σ → σ} {x : Kernel τ α} {s : σ} {e : Halt} {t : τ}
    (h : x (get s) = .error e t) : zoom get put x s = .error e (put t s) := by
  unfold zoom; rw [h]

/-- The state a call ends in, whether it returns or not. -/
def endState : EStateM.Result Halt σ α → σ
  | .ok _ t => t
  | .error _ t => t

/-- Whatever the call does, it leaves what `g` reads of the state as it is. -/
def Keeps (g : σ → τ) (x : Kernel σ α) : Prop := ∀ s, g (endState (x s)) = g s

section Keeps

variable {g : σ → τ}

theorem keeps_pure (a : α) : Keeps g (pure a : Kernel σ α) := fun _ => rfl

theorem keeps_throw (e : Halt) : Keeps g (throw e : Kernel σ α) := fun _ => rfl

theorem keeps_get : Keeps g (get : Kernel σ σ) := fun _ => rfl

theorem keeps_modify {f : σ → σ} (h : ∀ s, g (f s) = g s) : Keeps g (modify f : Kernel σ Unit) := h

theorem keeps_zoom {υ : Type} {get : σ → υ} {put : υ → σ → σ} (h : ∀ t s, g (put t s) = g s)
    (x : Kernel υ α) : Keeps g (zoom get put x) := by
  intro s
  unfold zoom
  cases x (get s) with
  | ok a t => exact h t s
  | error e t => exact h t s

theorem Keeps.bind {x : Kernel σ α} {f : α → Kernel σ β} (hx : Keeps g x)
    (hf : ∀ a, Keeps g (f a)) : Keeps g (x >>= f) := by
  intro s
  have hstep := hx s
  rw [bind_apply]
  cases hs : x s with
  | ok a t =>
    rw [hs] at hstep
    exact (hf a t).trans hstep
  | error e t =>
    rw [hs] at hstep
    exact hstep

theorem Keeps.ite {c : Prop} [Decidable c] {x y : Kernel σ α} (hx : Keeps g x) (hy : Keeps g y) :
    Keeps g (if c then x else y) := by
  split_ifs
  · exact hx
  · exact hy

end Keeps

end Kernel

end DejOs
