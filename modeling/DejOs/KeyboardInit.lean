import DejOs.Keyboard

/-!
# Starting the keyboard

`keyboard_init` of `keyboard.c`: the reset `0xFF`, the keyboard's self-test, the command `0xF0` and
its parameter `0x00`. The answer to each of the first two bytes is checked, and `0xFE` is answered
by at most three more tries; the answer to the parameter is thrown away, and the retry loop behind
it looks at the answer to `0xF0`. The scan-code set is read twice, the second time without waiting.

`handshake` is the exchange as it is meant. `follows_command` and `follows_selfTest` take the
replies that both treat alike off the front, down to the parameter (`follows_parameter`).
-/

namespace DejOs.KeyboardInit

open Kernel (endState)

/-! ## The code -/

/-- The keyboard with the bytes written to port `0x60`. -/
structure KeyboardPort extends Keyboard where
  sent : List Byte
  scodeset : Byte

/-- A step of the driver that sends nothing. -/
def onKeyboard {α : Type} (x : Kernel Keyboard α) : Kernel KeyboardPort α :=
  Kernel.zoom KeyboardPort.toKeyboard (fun k s => { s with toKeyboard := k }) x

/-- `waittosend` and the write after it; the controller takes every byte in the end. -/
def send (c : Byte) : Kernel KeyboardPort Unit :=
  modify fun s => { s with sent := s.sent ++ [c] }

/-- A byte sent and the reply to it. -/
def exchange (c : Byte) : Kernel KeyboardPort Byte := do
  send c
  onKeyboard readData

/-- The retry loop with `n` attempts left. -/
def retry (c : Byte) : ℕ → Byte → Kernel KeyboardPort Byte
  | 0, response => return response
  | n + 1, _ => do
    let response ← exchange c
    if response ≠ 0xFE then
      return response
    retry c n response

/-- A command with its retry loop. -/
def command (c : Byte) : Kernel KeyboardPort Byte := do
  let response ← exchange c
  if response = 0xFE then
    retry c 3 response
  else
    return response

/-- The read that does not wait: `arrived` says whether a byte behind the last one is already
there. -/
def readAgain (arrived : Bool) : Kernel Keyboard Byte := do
  if arrived then
    inb60
  else
    let s ← get
    return s.last

/-- The bytes of `scancode_set`. -/
def IsSet (b : Byte) : Prop := b = 0x43 ∨ b = 0x41 ∨ b = 0x3F

instance (b : Byte) : Decidable (IsSet b) := inferInstanceAs (Decidable (_ ∨ _ ∨ _))

/-- `keyboard_init` from the parameter `0x00` on, with the `response` to the command. -/
def parameter (arrived : Bool) (response : Byte) : Kernel KeyboardPort CInt := do
  let _ ← exchange 0x00
  let _ ← if response = 0xFE then retry 0x00 3 response else pure response
  let _ ← onKeyboard readData
  let scodeset ← onKeyboard (readAgain arrived)
  modify fun s => { s with scodeset }
  if ¬ IsSet scodeset then
    return -1
  modify fun s => { s with inited := true }
  return 0

/-- `keyboard_init` -/
def keyboardInit (arrived : Bool) : Kernel KeyboardPort CInt := do
  onKeyboard assertSilChill
  let response ← command 0xFF
  if response ≠ 0xFA then
    return -1
  let response ← onKeyboard readData
  if response ≠ 0xAA then
    return 1
  let response ← command 0xF0
  if response ≠ 0xFA then
    return -1
  parameter arrived response

/-! ## The handshake -/

/-- The reply to a byte that is sent again after `0xFE`, at most `n` times: how often it is sent
again, the last reply and the bytes behind it. Without the last reply the sender waits. -/
def answered : ℕ → List Byte → ℕ × Option (Byte × List Byte)
  | _, [] => (0, none)
  | 0, b :: rest => (0, some (b, rest))
  | n + 1, b :: rest =>
    if b = 0xFE then ((answered n rest).1 + 1, (answered n rest).2) else (0, some (b, rest))

/-- How a handshake ends. -/
inductive Verdict
  | waiting
  | unacknowledged
  | failed
  /-- Everything is acknowledged, and `b` is the scan-code set. -/
  | set (b : Byte)

/-- A byte that has to be acknowledged before the handshake goes on: the bytes sent and the end. -/
def ask (c : Byte) (next : List Byte → List Byte × Verdict) (bs : List Byte) :
    List Byte × Verdict :=
  let sent := List.replicate ((answered 3 bs).1 + 1) c
  match (answered 3 bs).2 with
  | none => (sent, .waiting)
  | some (b, rest) =>
    if b = 0xFA then (sent ++ (next rest).1, (next rest).2) else (sent, .unacknowledged)

def scanSet : List Byte → List Byte × Verdict
  | [] => ([], .waiting)
  | b :: _ => ([], .set b)

def selfTest : List Byte → List Byte × Verdict
  | [] => ([], .waiting)
  | b :: rest => if b = 0xAA then ask 0xF0 (ask 0x00 scanSet) rest else ([], .failed)

/-- The handshake as it is meant, on the bytes the controller delivers. -/
def handshake : List Byte → List Byte × Verdict := ask 0xFF selfTest

/-- The call from `s` with the result `r` follows the handshake `h`: it sends the same bytes,
returns `0` and sets `inited` only after a valid scan-code set, and returns `-1` with `inited`
unchanged when a byte stays unacknowledged. -/
structure Follows (r : EStateM.Result Halt KeyboardPort CInt) (s : KeyboardPort)
    (h : List Byte × Verdict) : Prop where
  sent : (endState r).sent = s.sent ++ h.1
  accepted : ∀ t, r = .ok 0 t → ∃ b, h.2 = .set b ∧ IsSet b
  inited : (endState r).inited ≠ s.inited → ∃ t, r = .ok 0 t
  refused : h.2 = .unacknowledged → ∃ t, r = .ok (-1) t ∧ t.inited = s.inited

/-! ## Replies that both treat alike -/

theorem answered_iff {n : ℕ} {bs rest : List Byte} : (answered n bs).2 = some (0xFA, rest) ↔
    ∃ j ≤ n, bs = List.replicate j 0xFE ++ 0xFA :: rest := by
  induction n generalizing bs with
  | zero =>
    simp only [Nat.le_zero, exists_eq_left, List.replicate_zero, List.nil_append]
    cases bs with
    | nil => simp [answered]
    | cons b tail => simp [answered]
  | succ n ih =>
    cases bs with
    | nil =>
      constructor
      · intro h
        cases h
      · rintro ⟨j, -, h⟩
        exact absurd h.symm (List.append_ne_nil_of_right_ne_nil _ (List.cons_ne_nil _ _))
    | cons b tail =>
      by_cases hb : b = 0xFE
      · subst hb
        rw [answered, if_pos rfl]
        show (answered n tail).2 = _ ↔ _
        rw [ih]
        constructor
        · rintro ⟨j, hj, rfl⟩
          exact ⟨j + 1, Nat.succ_le_succ hj, rfl⟩
        · rintro ⟨j, hj, h⟩
          cases j with
          | zero =>
            obtain ⟨h, -⟩ := List.cons.inj h
            exact absurd h (by decide)
          | succ j =>
            obtain ⟨-, rfl⟩ := List.cons.inj h
            exact ⟨j, Nat.le_of_succ_le_succ hj, rfl⟩
      · rw [answered, if_neg hb]
        constructor
        · intro h
          obtain ⟨rfl, rfl⟩ := Prod.mk.inj (Option.some.inj h)
          exact ⟨0, Nat.zero_le _, rfl⟩
        · rintro ⟨j, hj, h⟩
          cases j with
          | zero =>
            obtain ⟨rfl, rfl⟩ := List.cons.inj h
            rfl
          | succ j =>
            obtain ⟨h, -⟩ := List.cons.inj h
            exact absurd h hb

section Stages

variable {s t : KeyboardPort} {bs : List Byte} {r : EStateM.Result Halt KeyboardPort CInt}
  {h : List Byte × Verdict}

/-- What is sent before `t` is the beginning of the handshake. -/
theorem follows_prepend {c : List Byte} (hsent : t.sent = s.sent ++ c)
    (hin : t.inited = s.inited) : Follows r t h ↔ Follows r s (c ++ h.1, h.2) := by
  constructor
  · rintro ⟨h₁, h₂, h₃, h₄⟩
    rw [hin] at h₃ h₄
    refine ⟨?_, h₂, h₃, h₄⟩
    rw [h₁, hsent, List.append_assoc]
  · rintro ⟨h₁, h₂, h₃, h₄⟩
    rw [← hin] at h₃ h₄
    refine ⟨?_, h₂, h₃, h₄⟩
    rw [h₁, hsent, List.append_assoc]

/-- The sender and the handshake both wait. -/
theorem follows_spin {c : List Byte} (hsent : t.sent = s.sent ++ c) (hin : t.inited = s.inited) :
    Follows (.error .spin t) s (c, .waiting) where
  sent := hsent
  accepted := nofun
  inited hne := absurd hin hne
  refused := nofun

theorem follows_return {c : List Byte} {v : Verdict} {k : CInt} (hsent : t.sent = s.sent ++ c)
    (hin : t.inited = s.inited) (hk : k ≠ 0) (hv : v = .unacknowledged → k = -1) :
    Follows (.ok k t) s (c, v) where
  sent := hsent
  accepted t' h := absurd (EStateM.Result.ok.inj h).1 hk
  inited hne := absurd hin hne
  refused h := ⟨t, by rw [hv h], hin⟩

theorem readData_port_cons {b : Byte} {rest : List Byte} (hs : s.bytes = b :: rest) :
    onKeyboard readData s = .ok b { s with bytes := rest, last := b } :=
  Kernel.zoom_of_ok (readData_cons hs)

theorem readData_port_nil (hs : s.bytes = []) : onKeyboard readData s = .error .spin s :=
  Kernel.zoom_of_error (readData_nil hs)

theorem exchange_cons (c : Byte) {b : Byte} {rest : List Byte} (hs : s.bytes = b :: rest) :
    exchange c s = .ok b { s with bytes := rest, last := b, sent := s.sent ++ [c] } :=
  readData_port_cons (s := { s with sent := s.sent ++ [c] }) hs

theorem exchange_nil (c : Byte) (hs : s.bytes = []) :
    exchange c s = .error .spin { s with sent := s.sent ++ [c] } :=
  readData_port_nil (s := { s with sent := s.sent ++ [c] }) hs

/-- A first try and `n` more: either they come to the last reply, or the bytes end before. -/
theorem retry_ends (c : Byte) (n : ℕ) (old : Byte) (s : KeyboardPort) :
    ∃ t : KeyboardPort, t.inited = s.inited ∧
      t.sent = s.sent ++ List.replicate ((answered n s.bytes).1 + 1) c ∧
      t.bytes = ((answered n s.bytes).2.map Prod.snd).getD [] ∧
      retry c (n + 1) old s = match (answered n s.bytes).2 with
        | none => .error .spin t
        | some (b, _) => .ok b t := by
  induction n generalizing s old with
  | zero =>
    cases hbs : s.bytes with
    | nil =>
      exact ⟨{ s with sent := s.sent ++ [c] }, rfl, rfl, hbs,
        Kernel.bind_of_error (exchange_nil c hbs)⟩
    | cons b rest =>
      refine ⟨{ s with bytes := rest, last := b, sent := s.sent ++ [c] }, rfl, rfl, rfl, ?_⟩
      rw [retry, Kernel.bind_of_ok (exchange_cons c hbs)]
      split_ifs <;> rfl
  | succ n ih =>
    cases hbs : s.bytes with
    | nil =>
      exact ⟨{ s with sent := s.sent ++ [c] }, rfl, rfl, hbs,
        Kernel.bind_of_error (exchange_nil c hbs)⟩
    | cons b rest =>
      have hex := exchange_cons c hbs
      by_cases hb : b = 0xFE
      · obtain ⟨t, hin, hsent, hbytes, hret⟩ := ih b { s with
          bytes := rest, last := b, sent := s.sent ++ [c] }
        rw [answered, if_pos hb]
        refine ⟨t, hin, ?_, hbytes, ?_⟩
        · rw [hsent]
          simp [List.replicate_succ]
        · rw [retry, Kernel.bind_of_ok hex, if_neg (not_not.mpr hb)]
          exact hret
      · rw [answered, if_neg hb]
        refine ⟨{ s with bytes := rest, last := b, sent := s.sent ++ [c] }, rfl, rfl, rfl, ?_⟩
        rw [retry, Kernel.bind_of_ok hex, if_pos hb]
        rfl

/-- The first try and the retry loop behind it are one loop. -/
theorem command_eq (c : Byte) : command c = retry c 4 0 := by
  unfold command
  rw [retry]
  congr 1
  funext r
  split_ifs <;> first | rfl | contradiction

/-- A command: what is left to compare is what comes behind its acknowledgement. -/
theorem follows_command {c : Byte} {f : Byte → Kernel KeyboardPort CInt}
    {next : List Byte → List Byte × Verdict} {ok : List Byte → Prop}
    (hf : ∀ b t, b ≠ 0xFA → f b t = .ok (-1) t)
    (hnext : ∀ t, Follows (f 0xFA t) t (next t.bytes) ↔ ok t.bytes) :
    Follows ((command c >>= f) s) s (ask c next s.bytes) ↔
      ∀ rest, (answered 3 s.bytes).2 = some (0xFA, rest) → ok rest := by
  obtain ⟨t, hin, hsent, hbytes, hret⟩ := retry_ends c 3 0 s
  rw [command_eq]
  unfold ask
  cases hans : (answered 3 s.bytes).2 with
  | none =>
    rw [hans] at hret
    rw [Kernel.bind_of_error hret]
    exact iff_of_true (follows_spin hsent hin) nofun
  | some p =>
    obtain ⟨b, rest⟩ := p
    rw [hans] at hret hbytes
    rw [Kernel.bind_of_ok hret]
    dsimp only
    obtain rfl : t.bytes = rest := hbytes
    by_cases hb : b = 0xFA
    · subst hb
      rw [if_pos rfl, ← follows_prepend hsent hin]
      refine (hnext t).trans ⟨fun h rest' heq => ?_, fun h => h t.bytes rfl⟩
      obtain ⟨-, rfl⟩ := Prod.mk.inj (Option.some.inj heq)
      exact h
    · rw [if_neg hb, hf b t hb]
      refine iff_of_true (follows_return hsent hin (by decide) fun _ => rfl) fun rest' heq => ?_
      obtain ⟨rfl, -⟩ := Prod.mk.inj (Option.some.inj heq)
      exact absurd rfl hb

theorem follows_selfTest {f : Byte → Kernel KeyboardPort CInt} {ok : List Byte → Prop}
    (hf : ∀ b t, b ≠ 0xAA → f b t = .ok 1 t)
    (hnext : ∀ t, Follows (f 0xAA t) t (ask 0xF0 (ask 0x00 scanSet) t.bytes) ↔ ok t.bytes) :
    Follows ((onKeyboard readData >>= f) s) s (selfTest s.bytes) ↔
      ∀ rest, s.bytes = 0xAA :: rest → ok rest := by
  cases hbs : s.bytes with
  | nil =>
    rw [Kernel.bind_of_error (readData_port_nil hbs)]
    exact iff_of_true (follows_spin (List.append_nil _).symm rfl) nofun
  | cons b rest =>
    have hread := readData_port_cons hbs
    set t : KeyboardPort := { s with bytes := rest, last := b } with ht
    rw [Kernel.bind_of_ok hread, selfTest]
    by_cases hb : b = 0xAA
    · subst hb
      rw [if_pos rfl]
      refine Iff.trans ?_ ((hnext t).trans ⟨fun h rest' heq => ?_, fun h => h rest rfl⟩)
      · exact (follows_prepend (c := []) (by rw [ht]; simp) (by rw [ht])).symm
      · obtain ⟨-, rfl⟩ := List.cons.inj heq
        exact h
    · rw [if_neg hb, hf b t hb]
      refine iff_of_true (follows_return (by rw [ht]; simp) (by rw [ht]) (by decide) nofun)
        fun rest' heq => ?_
      obtain ⟨rfl, -⟩ := List.cons.inj heq
      exact absurd rfl hb

end Stages

/-! ## The parameter -/

/-- The byte stored as the scan-code set: `b` is the waited one, `more` is behind it. -/
def scanned (arrived : Bool) (b : Byte) (more : List Byte) : Byte :=
  if arrived then more.headD b else b

/-- The bytes behind the acknowledgement of `0xF0` on which the missing check does no harm. The
parameter is not asked for again; where a scan-code set is stored, the parameter is acknowledged
and the byte behind that is one; and a parameter that is not acknowledged is followed by a byte. -/
def Harmless (arrived : Bool) : List Byte → Prop
  | [] => True
  | [r] => r = 0xFA
  | r :: b :: more => r ≠ 0xFE ∧ (IsSet (scanned arrived b more) → r = 0xFA ∧ IsSet b)

instance (arrived : Bool) : DecidablePred (Harmless arrived)
  | [] => inferInstanceAs (Decidable True)
  | [r] => inferInstanceAs (Decidable (r = 0xFA))
  | _ :: _ :: _ => inferInstanceAs (Decidable (_ ∧ (_ → _)))

section Parameter

variable {s : KeyboardPort} {arrived : Bool} {r b : Byte} {more : List Byte}

theorem parameter_waits (hs : s.bytes = [r]) : parameter arrived 0xFA s =
    .error .spin { s with bytes := [], last := r, sent := s.sent ++ [0x00] } := by
  unfold parameter
  rw [Kernel.bind_of_ok (exchange_cons 0x00 hs)]
  rfl

theorem readAgain_apply (arrived : Bool) (s : KeyboardPort) :
    onKeyboard (readAgain arrived) s = .ok (scanned arrived s.last s.bytes) { s with
      bytes := if arrived then s.bytes.tail else s.bytes
      last := scanned arrived s.last s.bytes } := by
  obtain ⟨⟨bytes, last, inited, keyd, sil⟩, sent, scodeset⟩ := s
  cases arrived with
  | false => rfl
  | true => cases bytes <;> rfl

/-- The byte that answers the parameter is thrown away. -/
theorem parameter_cons (arrived : Bool) (hs : s.bytes = r :: b :: more) :
    ∃ t, t.sent = s.sent ++ [0x00] ∧ t.inited = s.inited ∧ parameter arrived 0xFA s =
      if IsSet (scanned arrived b more) then .ok 0 { t with inited := true } else .ok (-1) t := by
  refine ⟨{ s with
    bytes := if arrived then more.tail else more
    last := scanned arrived b more
    sent := s.sent ++ [0x00]
    scodeset := scanned arrived b more }, rfl, rfl, ?_⟩
  unfold parameter
  rw [Kernel.bind_of_ok (exchange_cons 0x00 hs)]
  show (onKeyboard (readAgain arrived) >>= _) { s with
    bytes := more, last := b, sent := s.sent ++ [0x00] } = _
  rw [Kernel.bind_of_ok (readAgain_apply _ _)]
  show (if ¬ IsSet (scanned arrived b more) then _ else _ : Kernel KeyboardPort CInt) _ = _
  by_cases hset : IsSet (scanned arrived b more)
  · rw [if_pos hset, if_neg (not_not.mpr hset)]
    rfl
  · rw [if_neg hset, if_pos hset]
    rfl

theorem ask_refused (c : Byte) (next : List Byte → List Byte × Verdict) (rest : List Byte)
    (hack : r ≠ 0xFA) (hagain : r ≠ 0xFE) : ask c next (r :: rest) = ([c], .unacknowledged) := by
  rw [ask, answered, if_neg hagain]
  exact if_neg hack

/-- After `0xFE` the handshake sends the byte again. -/
theorem ask_again (c : Byte) (next : List Byte → List Byte × Verdict) (rest : List Byte) :
    1 < (ask c next (0xFE :: rest)).1.length := by
  unfold ask
  rw [answered, if_pos rfl]
  dsimp only
  split
  · simp
  · split_ifs
    · simp
      omega
    · simp

/-- A single `0x00` is too little after `0xFE`. -/
theorem not_follows_again {x : EStateM.Result Halt KeyboardPort CInt} {rest : List Byte}
    (hsent : (endState x).sent = s.sent ++ [0x00]) :
    ¬ Follows x s (ask 0x00 scanSet (0xFE :: rest)) := by
  intro h
  have heq := List.append_cancel_left (hsent.symm.trans h.sent)
  have hlen := ask_again 0x00 scanSet rest
  rw [← heq] at hlen
  exact absurd hlen (by decide)

theorem follows_parameter (arrived : Bool) (s : KeyboardPort) :
    Follows (parameter arrived 0xFA s) s (ask 0x00 scanSet s.bytes) ↔
      Harmless arrived s.bytes := by
  rcases hbs : s.bytes with _ | ⟨r, _ | ⟨b, more⟩⟩
  · have hwait : parameter arrived 0xFA s = .error .spin { s with sent := s.sent ++ [0x00] } :=
      Kernel.bind_of_error (exchange_nil 0x00 hbs)
    rw [hwait]
    exact iff_of_true (follows_spin rfl rfl) trivial
  · rw [parameter_waits hbs, Harmless]
    by_cases hack : r = 0xFA
    · subst hack
      exact iff_of_true (follows_spin rfl rfl) rfl
    · refine iff_of_false ?_ hack
      by_cases hagain : r = 0xFE
      · subst hagain
        exact not_follows_again rfl
      · rw [ask_refused _ _ _ hack hagain]
        intro h
        obtain ⟨t, ht, -⟩ := h.refused rfl
        cases ht
  · obtain ⟨t, hsent, hin, hpar⟩ := parameter_cons arrived hbs
    rw [hpar, Harmless]
    by_cases hagain : r = 0xFE
    · subst hagain
      refine iff_of_false (not_follows_again ?_) fun h => h.1 rfl
      split_ifs
      · exact hsent
      · exact hsent
    rw [and_iff_right hagain]
    by_cases hset : IsSet (scanned arrived b more)
    · rw [if_pos hset, imp_iff_right hset]
      constructor
      · intro h
        obtain ⟨b', hb', hvalid⟩ := h.accepted _ rfl
        by_cases hack : r = 0xFA
        · subst hack
          obtain rfl : b = b' := Verdict.set.inj hb'
          exact ⟨rfl, hvalid⟩
        · rw [ask_refused _ _ _ hack hagain] at hb'
          cases hb'
      · rintro ⟨rfl, hvalid⟩
        exact ⟨hsent, fun _ _ => ⟨b, rfl, hvalid⟩, fun _ => ⟨_, rfl⟩, nofun⟩
    · rw [if_neg hset]
      refine iff_of_true ?_ fun h => absurd h hset
      by_cases hack : r = 0xFA
      · subst hack
        exact follows_return hsent hin (by decide) nofun
      · rw [ask_refused _ _ _ hack hagain]
        exact follows_return hsent hin (by decide) fun _ => rfl

end Parameter

/-! ## The whole call -/

/-- The bytes behind the acknowledgements of the reset and of `0xF0` and the passed self-test. -/
def ToParameter (bs rest : List Byte) : Prop :=
  ∃ j ≤ 3, ∃ k ≤ 3, bs = List.replicate j 0xFE ++ 0xFA :: 0xAA ::
    (List.replicate k 0xFE ++ 0xFA :: rest)

/-- **The handshake of the keyboard.** For every sequence of bytes: `keyboard_init` follows the
handshake exactly when the bytes behind the acknowledgement of `0xF0`, if it comes to that, are
harmless. -/
theorem keyboardInit_follows_iff (arrived : Bool) {s : KeyboardPort} (hsil : s.sil = 0) :
    Follows (keyboardInit arrived s) s (handshake s.bytes) ↔
      ∀ rest, ToParameter s.bytes rest → Harmless arrived rest := by
  have hassert : onKeyboard assertSilChill s = .ok () s := by
    refine Kernel.zoom_of_ok (t := s.toKeyboard) ?_
    show (if 0 ≠ s.sil then _ else _ : Kernel Keyboard Unit) s.toKeyboard = _
    rw [if_neg (by simp [hsil])]
    rfl
  have hiff : Follows (keyboardInit arrived s) s (handshake s.bytes) ↔
      ∀ r₁, (answered 3 s.bytes).2 = some (0xFA, r₁) → ∀ r₂, r₁ = 0xAA :: r₂ →
        ∀ r₃, (answered 3 r₂).2 = some (0xFA, r₃) → Harmless arrived r₃ := by
    unfold keyboardInit handshake
    rw [Kernel.bind_of_ok hassert]
    refine follows_command (fun b t hb => by rw [if_pos hb]; rfl) fun t => ?_
    refine follows_selfTest (fun b t hb => by rw [if_pos hb]; rfl) fun t => ?_
    exact follows_command (fun b t hb => by rw [if_pos hb]; rfl) fun t =>
      follows_parameter arrived t
  rw [hiff]
  simp only [answered_iff]
  constructor
  · rintro h rest ⟨j, hj, k, hk, hbs⟩
    exact h _ ⟨j, hj, hbs⟩ _ rfl _ ⟨k, hk, rfl⟩
  · rintro h r₁ ⟨j, hj, hbs⟩ r₂ rfl r₃ ⟨k, hk, rfl⟩
    exact h r₃ ⟨j, hj, k, hk, hbs⟩

/-- The command `0xF0` is sent twice, everything else is acknowledged at once. -/
theorem keyboardInit_follows_retry :
    Follows (keyboardInit false ⟨⟨[0xFA, 0xAA, 0xFE, 0xFA, 0xFA, 0x41], 0, false, 0, 0⟩, [], 0⟩)
      ⟨⟨[0xFA, 0xAA, 0xFE, 0xFA, 0xFA, 0x41], 0, false, 0, 0⟩, [], 0⟩
      (handshake [0xFA, 0xAA, 0xFE, 0xFA, 0xFA, 0x41]) := by
  refine (keyboardInit_follows_iff false (s := ⟨⟨[0xFA, 0xAA, 0xFE, 0xFA, 0xFA, 0x41], 0, false, 0,
    0⟩, [], 0⟩) rfl).mpr ?_
  rintro rest ⟨j, hj, k, hk, hbs⟩
  obtain ⟨-, hreset⟩ := Prod.mk.inj (Option.some.inj (answered_iff.mpr ⟨j, hj, hbs⟩))
  obtain ⟨-, htest⟩ := List.cons.inj hreset
  obtain ⟨-, rfl⟩ := Prod.mk.inj (Option.some.inj (answered_iff.mpr ⟨k, hk, htest⟩))
  decide

/-- The keyboard asks for the parameter again and sends one byte more: the call returns `0`. -/
theorem keyboardInit_accepts_again :
    ¬ ∀ s : KeyboardPort, s.sil = 0 → Follows (keyboardInit false s) s (handshake s.bytes) := by
  intro h
  have hcall : keyboardInit false ⟨⟨[0xFA, 0xAA, 0xFA, 0xFE, 0x41], 0, false, 0, 0⟩, [], 0⟩ =
      .ok 0 ⟨⟨[], 0x41, true, 0, 0⟩, [0xFF, 0xF0, 0x00], 0x41⟩ := rfl
  have hend : (handshake [0xFA, 0xAA, 0xFA, 0xFE, 0x41]).2 = .unacknowledged := rfl
  have hfollows := h ⟨⟨[0xFA, 0xAA, 0xFA, 0xFE, 0x41], 0, false, 0, 0⟩, [], 0⟩ rfl
  obtain ⟨t, ht, -⟩ := hfollows.refused hend
  obtain ⟨hk, -⟩ := EStateM.Result.ok.inj (hcall.symm.trans ht)
  exact absurd hk (by decide)

end DejOs.KeyboardInit
