import Mathlib.Data.Stream.Init
import DejOs.CString

/-!
# The serial port

`putc` and `puts` of `io.c`, and the transmitter of COM1 they write to. A read of the line status
register says whether the transmit holding register is empty. It is not for some number of reads
after a data write, a number that nothing is known of: `Uart.delays` gives it for every write.

`putc` reads until the bit is set and then writes; `puts` only writes. `Writes` keeps, of what a
function does to the port, the bytes it writes, each with whether the bit was seen set since the
byte before. It composes, and the two functions are said once in its terms (`writes_putc`,
`writes_puts`).
-/

namespace DejOs.Serial

open CString

/-! ## The port -/

/-- An access to the registers of COM1. -/
inductive PortAccess
  /-- A read of the line status, and the bit 5 it found. -/
  | poll (ready : Bool)
  /-- A write of the transmit holding register. -/
  | data (b : Byte)
  deriving DecidableEq, Repr

/-- The transmitter, and the accesses it has seen. -/
structure Uart where
  /-- The reads that still find the bit clear. -/
  busy : ℕ
  /-- What this number will be after the next data writes. -/
  delays : Stream' ℕ
  trace : List PortAccess

/-- `x86_inb(COM1 + 5)`; the bits other than bit 5 are not looked at. -/
def readStatus : Kernel Uart Byte := fun u =>
  .ok (if u.busy = 0 then 0x20 else 0)
    { u with busy := u.busy - 1, trace := u.trace ++ [.poll (u.busy = 0)] }

/-- `x86_outb(COM1, b)` -/
def writeData (b : Byte) : Kernel Uart Unit := fun u =>
  .ok () ⟨u.delays.head, u.delays.tail, u.trace ++ [.data b]⟩

/-! ## The code -/

/-- The loop of `putc`, for at most `n` reads, and the write behind it. -/
def putcLoop (c : Byte) : ℕ → Kernel Uart Unit
  | 0 => throw .spin
  | n + 1 => do
    let status ← readStatus
    if status &&& 0x20 = 0 then putcLoop c n else writeData c

/-- `putc` -/
def putc (c : Byte) : Kernel Uart Unit := fun u => putcLoop c (u.busy + 1) u

/-- The loop of `puts`, for at most `n` characters. -/
def putsLoop (m : Bytes) : ℕ → U64 → Kernel Uart Unit
  | 0, _ => throw .spin
  | n + 1, s => if m s = 0 then return else do
    writeData (m s)
    putsLoop m n (s + 1)

/-- `puts`; a string has less than `2 ^ 64` characters. -/
def puts (m : Bytes) (s : U64) : Kernel Uart Unit := putsLoop m (2 ^ 64) s

/-! ## What a trace says -/

/-- The bytes written. -/
def dataOf : List PortAccess → List Byte
  | [] => []
  | .poll _ :: t => dataOf t
  | .data b :: t => b :: dataOf t

/-- Every byte is written when the bit has been seen set since the byte before; `seen` says whether
it was at the beginning. -/
def Polite : Bool → List PortAccess → Prop
  | _, [] => True
  | seen, .poll ready :: t => Polite (seen || ready) t
  | seen, .data _ :: t => seen = true ∧ Polite false t

/-- The bytes written, each with whether the bit has been seen set since the byte before. -/
def noted : Bool → List PortAccess → List (Byte × Bool)
  | _, [] => []
  | seen, .poll ready :: t => noted (seen || ready) t
  | seen, .data b :: t => (b, seen) :: noted false t

/-- Whether the bit has been seen set since the last byte. -/
def seenAfter : Bool → List PortAccess → Bool
  | seen, [] => seen
  | seen, .poll ready :: t => seenAfter (seen || ready) t
  | _, .data _ :: t => seenAfter false t

theorem map_fst_noted (seen : Bool) (t : List PortAccess) :
    (noted seen t).map Prod.fst = dataOf t := by
  induction t generalizing seen with
  | nil => rfl
  | cons a t ih =>
    cases a with
    | poll ready => exact ih _
    | data b => exact congrArg (b :: ·) (ih false)

theorem polite_iff (seen : Bool) (t : List PortAccess) :
    Polite seen t ↔ ∀ w ∈ noted seen t, w.2 = true := by
  induction t generalizing seen with
  | nil => simp [Polite, noted]
  | cons a t ih =>
    cases a with
    | poll ready => exact ih _
    | data b =>
      unfold Polite noted
      rw [ih, List.forall_mem_cons]

theorem noted_append (seen : Bool) (t t' : List PortAccess) :
    noted seen (t ++ t') = noted seen t ++ noted (seenAfter seen t) t' := by
  induction t generalizing seen with
  | nil => rfl
  | cons a t ih =>
    cases a with
    | poll ready => exact ih _
    | data b => exact congrArg ((b, seen) :: ·) (ih false)

theorem seenAfter_append (seen : Bool) (t t' : List PortAccess) :
    seenAfter seen (t ++ t') = seenAfter (seenAfter seen t) t' := by
  induction t generalizing seen with
  | nil => rfl
  | cons a t ih =>
    cases a with
    | poll ready => exact ih _
    | data b => exact ih false

/-! ## What a function writes -/

section Writes

variable {α β : Type} {x : Kernel Uart α} {f : α → Kernel Uart β} {a a' : α} {b : β}
  {ws ws' : List (Byte × Bool)}

/-- On every port `x` returns `a` after the writes `ws`, and does not leave a set bit unused. -/
def Writes (x : Kernel Uart α) (a : α) (ws : List (Byte × Bool)) : Prop :=
  ∀ u, ∃ u' t, x u = .ok a u' ∧ u'.trace = u.trace ++ t ∧ noted false t = ws ∧
    seenAfter false t = false

/-- On every port `x` returns after it has sent the bytes `bs`. -/
def Sends (x : Kernel Uart Unit) (bs : List Byte) : Prop :=
  ∀ u, ∃ u' t, x u = .ok () u' ∧ u'.trace = u.trace ++ t ∧ dataOf t = bs

theorem Writes.sends {x : Kernel Uart Unit} (h : Writes x () ws) : Sends x (ws.map Prod.fst) := by
  intro u
  obtain ⟨u', t, hx, ht, rfl, -⟩ := h u
  exact ⟨u', t, hx, ht, (map_fst_noted false t).symm⟩

theorem Writes.pure (a : α) : Writes (pure a) a [] :=
  fun u => ⟨u, [], rfl, (List.append_nil _).symm, rfl, rfl⟩

theorem Writes.bind (h : Writes x a ws) (h' : Writes (f a) b ws') :
    Writes (x >>= f) b (ws ++ ws') := by
  intro u
  obtain ⟨u₁, t₁, hx, ht₁, rfl, hseen₁⟩ := h u
  obtain ⟨u₂, t₂, hf, ht₂, rfl, hseen₂⟩ := h' u₁
  refine ⟨u₂, t₁ ++ t₂, (Kernel.bind_of_ok hx).trans hf, ?_, ?_, ?_⟩
  · rw [ht₂, ht₁, List.append_assoc]
  · rw [noted_append, hseen₁]
  · rw [seenAfter_append, hseen₁, hseen₂]

/-- The same when only the bytes of the second part are known. -/
theorem Writes.bind_sends {f : α → Kernel Uart Unit} {bs : List Byte} (h : Writes x a ws)
    (h' : Sends (f a) bs) : Sends (x >>= f) (ws.map Prod.fst ++ bs) := by
  intro u
  obtain ⟨u₁, t₁, hx, ht₁, rfl, -⟩ := h u
  obtain ⟨u₂, t₂, hf, ht₂, rfl⟩ := h' u₁
  refine ⟨u₂, t₁ ++ t₂, (Kernel.bind_of_ok hx).trans hf, ?_, ?_⟩
  · rw [ht₂, ht₁, List.append_assoc]
  · rw [← map_fst_noted false, noted_append, List.map_append, map_fst_noted, map_fst_noted]

theorem Writes.map (h : Writes x a ws) (g : α → β) :
    Writes (x >>= fun a => Pure.pure (g a)) (g a) ws := by
  have hbind := h.bind (f := fun a => Pure.pure (g a)) (Writes.pure (g a))
  rwa [List.append_nil] at hbind

theorem Sends.unique {x : Kernel Uart Unit} {bs bs' : List Byte} (h : Sends x bs)
    (h' : Sends x bs') : bs = bs' := by
  obtain ⟨u, t, hx, ht, rfl⟩ := h ⟨0, fun _ => 0, []⟩
  obtain ⟨u', t', hx', ht', rfl⟩ := h' ⟨0, fun _ => 0, []⟩
  obtain ⟨-, rfl⟩ := EStateM.Result.ok.inj (hx.symm.trans hx')
  exact congrArg dataOf (ht.symm.trans ht')

end Writes

/-! ## `putc` and `puts` -/

theorem putcLoop_succ (c : Byte) (n : ℕ) (u : Uart) : putcLoop c (n + 1) u =
    if u.busy = 0 then writeData c { u with busy := 0, trace := u.trace ++ [.poll true] }
    else putcLoop c n { u with busy := u.busy - 1, trace := u.trace ++ [.poll false] } := by
  have hread : putcLoop c (n + 1) u = (if (if u.busy = 0 then (0x20 : Byte) else 0) &&& 0x20 = 0
      then putcLoop c n else writeData c)
      { u with busy := u.busy - 1, trace := u.trace ++ [.poll (u.busy = 0)] } := rfl
  rw [hread]
  by_cases h : u.busy = 0
  · simp [h]
  · simp [h]

/-- The reads until the bit is set, and the write. -/
theorem putcLoop_ok (c : Byte) {n : ℕ} (u : Uart) (h : u.busy < n) : putcLoop c n u =
    .ok () ⟨u.delays.head, u.delays.tail,
      u.trace ++ (List.replicate u.busy (.poll false) ++ [.poll true, .data c])⟩ := by
  induction n generalizing u with
  | zero => exact absurd h (Nat.not_lt_zero _)
  | succ n ih =>
    obtain ⟨busy, delays, trace⟩ := u
    rw [putcLoop_succ]
    cases busy with
    | zero =>
      rw [if_pos rfl]
      show EStateM.Result.ok () (Uart.mk _ _ (trace ++ [.poll true] ++ [.data c])) = _
      rw [List.append_assoc]
      rfl
    | succ k =>
      rw [if_neg (Nat.succ_ne_zero k), ih _ (Nat.lt_of_succ_lt_succ h), List.append_assoc]
      rfl

theorem noted_polls (k : ℕ) (t : List PortAccess) :
    noted false (List.replicate k (.poll false) ++ t) = noted false t := by
  induction k with
  | zero => rfl
  | succ k ih => exact ih

theorem seenAfter_polls (k : ℕ) (t : List PortAccess) :
    seenAfter false (List.replicate k (.poll false) ++ t) = seenAfter false t := by
  induction k with
  | zero => rfl
  | succ k ih => exact ih

theorem writes_putc (c : Byte) : Writes (putc c) () [(c, true)] := by
  intro u
  refine ⟨_, _, putcLoop_ok c u (Nat.lt_succ_self _), rfl, ?_, ?_⟩
  · rw [noted_polls]
    rfl
  · rw [seenAfter_polls]
    rfl

theorem writes_writeData (c : Byte) : Writes (writeData c) () [(c, false)] :=
  fun _ => ⟨_, [.data c], rfl, rfl, rfl, rfl⟩

theorem writes_putsLoop {m : Bytes} {p : U64} {s : List Byte} (h : IsString m p s) {n : ℕ}
    (hn : s.length < n) : Writes (putsLoop m n p) () (s.map fun c => (c, false)) := by
  induction s generalizing p n with
  | nil =>
    obtain ⟨n, rfl⟩ := Nat.exists_eq_succ_of_ne_zero (Nat.ne_zero_of_lt hn)
    have hend : m p = 0 := h
    unfold putsLoop
    rw [if_pos hend]
    exact Writes.pure ()
  | cons c s ih =>
    obtain ⟨n, rfl⟩ := Nat.exists_eq_succ_of_ne_zero (Nat.ne_zero_of_lt hn)
    obtain ⟨rfl, hc, hs⟩ := h
    unfold putsLoop
    rw [if_neg hc]
    exact (writes_writeData (m p)).bind (ih hs (Nat.lt_of_succ_lt_succ hn))

theorem writes_puts {m : Bytes} {p : U64} {s : List Byte} (h : IsString m p s) :
    Writes (puts m p) () (s.map fun c => (c, false)) :=
  writes_putsLoop h h.length_lt

theorem writes_forM_putc (bs : List Byte) :
    Writes (bs.forM putc) () (bs.map fun c => (c, true)) := by
  induction bs with
  | nil => exact Writes.pure ()
  | cons c bs ih => exact (writes_putc c).bind ih

end DejOs.Serial
