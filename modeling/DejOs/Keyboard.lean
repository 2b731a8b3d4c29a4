import DejOs.Base

/-!
# The PS/2 keyboard

`keyboard_poll_k` of `keyboard.c`. The controller delivers a stream of bytes; a read waits until one
is there. The decoder reads scan codes of set 2: it returns the key of a release, `-1` on an
ordinary press, and goes back to its `start` label after an extended press and after the Pause
sequence.

A stream made of whole sequences (`encode`) stays one: an iteration consumes exactly the first
sequence (`pollOnce_bytes`), so a call stops at the end of the first sequence that returns
(`pollLoop_encode`), and any number of calls is in step with the sequences (`polls_framed`). That is
the next release only if no ordinary key is pressed before it (`keyboardPollK_release_iff`).
-/

namespace DejOs

/-! ## Keys -/

/-- `key_t` -/
inductive Key
  | keyNone | keyF1 | keyF2 | keyF3 | keyF4 | keyF5 | keyF6 | keyF7 | keyF8 | keyF9 | keyF10
  | keyF11 | keyF12 | keyEsc | keyGrave | keyTab | keyLeftCtrl | keyLeftShift | keyLeftAlt | keyQ
  | keyW | keyE | keyR | keyT | keyY | keyU | keyI | keyO | keyP | keyA | keyS | keyD | keyF
  | keyG | keyH | keyJ | keyK | keyL | keyZ | keyX | keyC | keyV | keyB | keyN | keyM | key1
  | key2 | key3 | key4 | key5 | key6 | key7 | key8 | key9 | key0 | keyMinus | keyEqual
  | keyLbracket | keyRbracket | keyBackslash | keySemicolon | keyApostrophe | keyComma | keyDot
  | keySlash | keySpace | keyEnter | keyBackspace | keyCapslock | keyRightShift | keyNumlock
  | keyScrolllock | keyKp0 | keyKp1 | keyKp2 | keyKp3 | keyKp4 | keyKp5 | keyKp6 | keyKp7
  | keyKp8 | keyKp9 | keyKpDot | keyKpPlus | keyKpMinus | keyKpStar | keyRightAlt | keyRightCtrl
  | keyLeftGui | keyRightGui | keyApps | keyPrintscreen | keyPause | keyInsert | keyDelete
  | keyHome | keyEnd | keyPageUp | keyPageDown | keyArrowUp | keyArrowDown | keyArrowLeft
  | keyArrowRight | keyKpSlash | keyKpEnter | keyMediaSearch | keyMediaPrev | keyMediaFavourites
  | keyMediaRefresh | keyMediaVolumeDown | keyMediaMute | keyMediaCalculator | keyMediaForward
  | keyMediaVolumeUp | keyMediaPlayPause | keyMediaStop | keyMediaBack | keyMediaHome
  | keyMediaNext | keyMediaSelect | keyMediaMyComputer | keyMediaEmail | keyAcpiPower
  | keyAcpiSleep | keyAcpiWake
  deriving DecidableEq, Repr

/-- The value of an enumerator. -/
def Key.code (k : Key) : CInt := BitVec.ofNat 32 k.ctorIdx

/-- The initialisers of `set2_table`. -/
def set2Entries : List (Byte × Key) :=
  [ (0x01, .keyF9), (0x03, .keyF5), (0x04, .keyF3), (0x05, .keyF1), (0x06, .keyF2),
    (0x07, .keyF12), (0x09, .keyF10), (0x0A, .keyF8), (0x0B, .keyF6), (0x0C, .keyF4),
    (0x0D, .keyTab), (0x0E, .keyGrave), (0x11, .keyLeftAlt), (0x12, .keyLeftShift),
    (0x14, .keyLeftCtrl), (0x15, .keyQ), (0x16, .key1), (0x1A, .keyZ), (0x1B, .keyS),
    (0x1C, .keyA), (0x1D, .keyW), (0x1E, .key2), (0x21, .keyC), (0x22, .keyX), (0x23, .keyD),
    (0x24, .keyE), (0x25, .key4), (0x26, .key3), (0x29, .keySpace), (0x2A, .keyV), (0x2B, .keyF),
    (0x2C, .keyT), (0x2D, .keyR), (0x2E, .key5), (0x31, .keyN), (0x32, .keyB), (0x33, .keyH),
    (0x34, .keyG), (0x35, .keyY), (0x36, .key6), (0x3A, .keyM), (0x3B, .keyJ), (0x3C, .keyU),
    (0x3D, .key7), (0x3E, .key8), (0x41, .keyComma), (0x42, .keyK), (0x43, .keyI), (0x44, .keyO),
    (0x45, .key0), (0x46, .key9), (0x49, .keyDot), (0x4A, .keySlash), (0x4B, .keyL),
    (0x4C, .keySemicolon), (0x4D, .keyP), (0x4E, .keyMinus), (0x52, .keyApostrophe),
    (0x54, .keyLbracket), (0x55, .keyEqual), (0x58, .keyCapslock), (0x59, .keyRightShift),
    (0x5A, .keyEnter), (0x5B, .keyRbracket), (0x5D, .keyBackslash), (0x66, .keyBackspace),
    (0x69, .keyKp1), (0x6B, .keyKp4), (0x6C, .keyKp7), (0x70, .keyKp0), (0x71, .keyKpDot),
    (0x72, .keyKp2), (0x73, .keyKp5), (0x74, .keyKp6), (0x75, .keyKp8), (0x76, .keyEsc),
    (0x77, .keyNumlock), (0x78, .keyF11), (0x79, .keyKpPlus), (0x7A, .keyKp3),
    (0x7B, .keyKpMinus), (0x7C, .keyKpStar), (0x7D, .keyKp9), (0x7E, .keyScrolllock),
    (0x83, .keyF7) ]

/-- The initialisers of `set2_e0_table`. -/
def set2E0Entries : List (Byte × Key) :=
  [ (0x10, .keyMediaSearch), (0x11, .keyRightAlt), (0x14, .keyRightCtrl), (0x15, .keyMediaPrev),
    (0x18, .keyMediaFavourites), (0x1F, .keyLeftGui), (0x20, .keyMediaRefresh),
    (0x21, .keyMediaVolumeDown), (0x23, .keyMediaMute), (0x27, .keyRightGui),
    (0x28, .keyMediaStop), (0x2B, .keyMediaCalculator), (0x2F, .keyApps),
    (0x30, .keyMediaForward), (0x32, .keyMediaVolumeUp), (0x34, .keyMediaPlayPause),
    (0x37, .keyAcpiPower), (0x38, .keyMediaBack), (0x3A, .keyMediaHome), (0x3B, .keyMediaStop),
    (0x3F, .keyAcpiSleep), (0x40, .keyMediaMyComputer), (0x48, .keyMediaEmail),
    (0x4A, .keyKpSlash), (0x4D, .keyMediaNext), (0x50, .keyMediaSelect), (0x5A, .keyKpEnter),
    (0x5E, .keyAcpiWake), (0x69, .keyEnd), (0x6B, .keyArrowLeft), (0x6C, .keyHome),
    (0x70, .keyInsert), (0x71, .keyDelete), (0x72, .keyArrowDown), (0x74, .keyArrowRight),
    (0x75, .keyArrowUp), (0x7A, .keyPageDown), (0x7D, .keyPageUp) ]

/-- `set2_table`; what has no initialiser is `KEY_NONE`. -/
def set2Table (c : Byte) : Key := (set2Entries.lookup c).getD .keyNone

/-- `set2_e0_table` -/
def set2E0Table (c : Byte) : Key := (set2E0Entries.lookup c).getD .keyNone

/-! ## The decoder -/

/-- The controller's output and what the driver keeps. -/
structure Keyboard where
  /-- The bytes the controller has still to deliver at port `0x60`. -/
  bytes : List Byte
  /-- What port `0x60` reads when there is no new byte. -/
  last : Byte
  inited : Bool
  keyd : Byte
  /-- The per-CPU `sil`. -/
  sil : U64

/-- `waitfordata`: without a byte to come the loop does not end. -/
def waitForData : Kernel Keyboard Unit := fun s =>
  if s.bytes = [] then .error .spin s else .ok () s

/-- `x86_inb(0x60)` -/
def inb60 : Kernel Keyboard Byte := fun s =>
  match s.bytes with
  | [] => .ok s.last s
  | b :: rest => .ok b { s with bytes := rest, last := b }

/-- `waitfordata` and the read after it. -/
def readData : Kernel Keyboard Byte := do
  waitForData
  inb60

/-- The loop that discards `n` bytes. -/
def discard : ℕ → Kernel Keyboard Unit
  | 0 => return
  | n + 1 => do
    let _ ← readData
    discard n

/-- `Assert_sil_chill()` -/
def assertSilChill : Kernel Keyboard Unit := do
  let s ← get
  if 0 ≠ s.sil then
    throw (.panic "sil not less or equal" .invalidSil)

/-- `keyboard_poll_k` from `start` on; `none` is `goto start`. -/
def pollOnce : Kernel Keyboard (Option CInt) := do
  let response ← readData
  if response = 0xE1 then
    waitForData
    discard 7
    return none
  if response = 0xF0 then
    modify fun s => { s with keyd := if 0 < s.keyd then s.keyd - 1 else s.keyd }
    let response ← readData
    return some (set2Table response).code
  if response = 0xE0 then
    let response ← readData
    if response = 0xF0 then
      let response ← readData
      return some (set2E0Table response).code
    else
      modify fun s => { s with keyd := s.keyd + 1 }
      return none
  return some (-1)

/-- At most `n` rounds from `start`. A round reads a byte or waits for ever, so there are no more
rounds than bytes (`pollLoop_fuel`). -/
def pollLoop : ℕ → Kernel Keyboard CInt
  | 0 => throw .spin
  | n + 1 => do
    match ← pollOnce with
    | some k => return k
    | none => pollLoop n

/-- `keyboard_poll_k` -/
def keyboardPollK : Kernel Keyboard CInt := do
  let s ← get
  if s.inited = false then
    return -1
  assertSilChill
  pollLoop (s.bytes.length + 1)

/-- Calls of `keyboard_poll_k` one after the other. -/
def polls : ℕ → Kernel Keyboard (List CInt)
  | 0 => return []
  | n + 1 => do
    let k ← keyboardPollK
    let ks ← polls n
    return k :: ks

/-! ### The loop ends or waits -/

theorem readData_cons {s : Keyboard} {b : Byte} {rest : List Byte} (hs : s.bytes = b :: rest) :
    readData s = .ok b { s with bytes := rest, last := b } := by
  have hwait : waitForData s = .ok () s := by
    simp [waitForData, hs]
  have hin : inb60 s = .ok b { s with bytes := rest, last := b } := by
    simp [inb60, hs]
  unfold readData
  rw [Kernel.bind_of_ok hwait, hin]

theorem readData_nil {s : Keyboard} (hs : s.bytes = []) : readData s = .error .spin s := by
  have hwait : waitForData s = .error .spin s := by
    simp [waitForData, hs]
  unfold readData
  rw [Kernel.bind_of_error hwait]

theorem readData_ok {s s' : Keyboard} {b : Byte} (h : readData s = .ok b s') :
    s'.bytes.length < s.bytes.length := by
  cases hs : s.bytes with
  | nil =>
    rw [readData_nil hs] at h
    cases h
  | cons a rest =>
    rw [readData_cons hs] at h
    obtain ⟨-, rfl⟩ := EStateM.Result.ok.inj h
    simp

theorem discard_ok {n : ℕ} {s s' : Keyboard} (h : discard n s = .ok () s') :
    s'.bytes.length ≤ s.bytes.length := by
  induction n generalizing s with
  | zero =>
    obtain ⟨-, rfl⟩ := EStateM.Result.ok.inj h
    exact le_refl _
  | succ n ih =>
    obtain ⟨b, t, hread, h⟩ := Kernel.bind_eq_ok.mp h
    exact (ih h).trans (readData_ok hread).le

theorem waitForData_ok {s s' : Keyboard} (h : waitForData s = .ok () s') : s' = s := by
  unfold waitForData at h
  split_ifs at h
  exact (EStateM.Result.ok.inj h).2.symm

theorem pollOnce_ok {s s' : Keyboard} {r : Option CInt} (h : pollOnce s = .ok r s') :
    s'.bytes.length < s.bytes.length := by
  obtain ⟨b, t, hread, h⟩ := Kernel.bind_eq_ok.mp h
  have hlt := readData_ok hread
  split_ifs at h
  · obtain ⟨u, t₁, hwait, h⟩ := Kernel.bind_eq_ok.mp h
    obtain ⟨u, t₂, hdis, h⟩ := Kernel.bind_eq_ok.mp h
    obtain ⟨-, rfl⟩ := EStateM.Result.ok.inj h
    rw [waitForData_ok hwait] at hdis
    exact (discard_ok hdis).trans_lt hlt
  · obtain ⟨u, t₁, hmod, h⟩ := Kernel.bind_eq_ok.mp h
    obtain ⟨-, rfl⟩ := EStateM.Result.ok.inj hmod
    obtain ⟨c, t₂, hread', h⟩ := Kernel.bind_eq_ok.mp h
    obtain ⟨-, rfl⟩ := EStateM.Result.ok.inj h
    exact (readData_ok hread').trans hlt
  · obtain ⟨c, t₁, hread', h⟩ := Kernel.bind_eq_ok.mp h
    have hlt' := readData_ok hread'
    split_ifs at h
    · obtain ⟨d, t₂, hread'', h⟩ := Kernel.bind_eq_ok.mp h
      obtain ⟨-, rfl⟩ := EStateM.Result.ok.inj h
      exact (readData_ok hread'').trans (hlt'.trans hlt)
    · obtain ⟨u, t₂, hmod, h⟩ := Kernel.bind_eq_ok.mp h
      obtain ⟨-, rfl⟩ := EStateM.Result.ok.inj hmod
      obtain ⟨-, rfl⟩ := EStateM.Result.ok.inj h
      exact hlt'.trans hlt
  · obtain ⟨-, rfl⟩ := EStateM.Result.ok.inj h
    exact hlt

theorem pollLoop_succ (n : ℕ) (s : Keyboard) : pollLoop (n + 1) s = match pollOnce s with
    | .ok (some k) t => .ok k t
    | .ok none t => pollLoop n t
    | .error e t => .error e t := by
  show (pollOnce >>= _) s = _
  rw [Kernel.bind_apply]
  rcases pollOnce s with ⟨_ | k, t⟩ | ⟨e, t⟩ <;> rfl

/-- More rounds than bytes do not matter. -/
theorem pollLoop_fuel {m n : ℕ} {s : Keyboard} (hm : s.bytes.length < m) (hn : s.bytes.length < n) :
    pollLoop m s = pollLoop n s := by
  induction m generalizing n s with
  | zero => exact absurd hm (Nat.not_lt_zero _)
  | succ m ih =>
    cases n with
    | zero => exact absurd hn (Nat.not_lt_zero _)
    | succ n =>
      rw [pollLoop_succ, pollLoop_succ]
      cases h : pollOnce s with
      | error e t => rfl
      | ok r t =>
        have hlt := pollOnce_ok h
        cases r with
        | some k => rfl
        | none => exact ih (by omega) (by omega)

/-! ## Whole sequences -/

/-- A sequence of scan-code set 2. -/
inductive ScanSeq
  /-- An ordinary key is pressed. -/
  | make (m : Byte) (hm : m ≠ 0xE0 ∧ m ≠ 0xE1 ∧ m ≠ 0xF0)
  /-- An ordinary key is released. -/
  | brk (c : Byte)
  /-- An extended key is pressed. -/
  | extMake (c : Byte) (hc : c ≠ 0xF0)
  /-- An extended key is released. -/
  | extBrk (c : Byte)
  /-- The Pause key. -/
  | pause

namespace ScanSeq

def bytes : ScanSeq → List Byte
  | make m _ => [m]
  | brk c => [0xF0, c]
  | extMake c _ => [0xE0, c]
  | extBrk c => [0xE0, 0xF0, c]
  | pause => [0xE1, 0x14, 0x77, 0xE1, 0xF0, 0x14, 0xF0, 0x77]

/-- The key a release stands for. -/
def released : ScanSeq → Option CInt
  | brk c => some (set2Table c).code
  | extBrk c => some (set2E0Table c).code
  | make _ _ | extMake _ _ | pause => none

/-- What a round of the decoder returns for the sequence; `none` is another round. -/
def result : ScanSeq → Option CInt
  | make _ _ => some (-1)
  | q => q.released

/-- The last byte of the sequence. -/
def lastByte : ScanSeq → Byte
  | make m _ => m
  | brk c | extMake c _ | extBrk c => c
  | pause => 0x77

/-- `keyd` after the sequence. -/
def keyd : ScanSeq → Byte → Byte
  | brk _, n => if 0 < n then n - 1 else n
  | extMake _ _, n => n + 1
  | make _ _, n | extBrk _, n | pause, n => n

/-- `keyd` after the sequences. -/
def keydAfter (qs : List ScanSeq) (n : Byte) : Byte := qs.foldl (fun n q => q.keyd n) n

end ScanSeq

/-- The bytes of sequences one after the other. -/
def encode (qs : List ScanSeq) : List Byte := qs.flatMap ScanSeq.bytes

/-- A round consumes the first sequence, all of it. -/
theorem pollOnce_bytes (q : ScanSeq) (rest : List Byte) {s : Keyboard}
    (hs : s.bytes = q.bytes ++ rest) : pollOnce s = .ok q.result
      { s with bytes := rest, last := q.lastByte, keyd := q.keyd s.keyd } := by
  obtain ⟨bytes, last, inited, keyd, sil⟩ := s
  obtain rfl : bytes = _ := hs
  cases q with
  | make m hm =>
    obtain ⟨h0, h1, hf⟩ := hm
    have hread : readData ⟨m :: rest, last, inited, keyd, sil⟩ =
        .ok m ⟨rest, m, inited, keyd, sil⟩ := rfl
    unfold pollOnce
    show (readData >>= _) (⟨m :: rest, last, inited, keyd, sil⟩ : Keyboard) = _
    rw [Kernel.bind_of_ok hread, if_neg h1, if_neg hf, if_neg h0]
    rfl
  | brk c => rfl
  | extMake c hc =>
    have hread : readData ⟨0xE0 :: c :: rest, last, inited, keyd, sil⟩ =
        .ok 0xE0 ⟨c :: rest, 0xE0, inited, keyd, sil⟩ := rfl
    have hread' : readData ⟨c :: rest, 0xE0, inited, keyd, sil⟩ =
        .ok c ⟨rest, c, inited, keyd, sil⟩ := rfl
    unfold pollOnce
    show (readData >>= _) (⟨0xE0 :: c :: rest, last, inited, keyd, sil⟩ : Keyboard) = _
    rw [Kernel.bind_of_ok hread, if_neg (by decide), if_neg (by decide), if_pos rfl,
      Kernel.bind_of_ok hread', if_neg hc]
    rfl
  | extBrk c => rfl
  | pause => rfl

/-! ## Calls -/

/-- The sequences that make a call return. -/
def returning (qs : List ScanSeq) : ℕ := qs.countP fun q => q.result.isSome

theorem Key.code_ne (x : Key) : x.code ≠ -1 := by
  cases x <;> decide

theorem filter_result {q : ScanSeq} {k : CInt} (h : q.result = some k) (ks : List CInt) :
    (k :: ks).filter (· ≠ -1) = q.released.toList ++ ks.filter (· ≠ -1) := by
  cases q with
  | make m hm =>
    obtain rfl : -1 = k := Option.some.inj h
    rfl
  | brk c =>
    obtain rfl : (set2Table c).code = k := Option.some.inj h
    exact List.filter_cons_of_pos (decide_eq_true (Key.code_ne _))
  | extBrk c =>
    obtain rfl : (set2E0Table c).code = k := Option.some.inj h
    exact List.filter_cons_of_pos (decide_eq_true (Key.code_ne _))
  | extMake c hc => cases h
  | pause => cases h

/-- A sequence without a result is no release. -/
theorem released_of_result {q : ScanSeq} (h : q.result = none) : q.released = none := by
  cases q <;> first | rfl | cases h

/-- A call on whole sequences skips those without a result and returns at the end of the first one
that has one, or waits for ever. -/
theorem pollLoop_encode {qs : List ScanSeq} {n : ℕ} {s : Keyboard} (hs : s.bytes = encode qs)
    (hn : s.bytes.length < n) :
    (∃ quiet q rest k s', qs = quiet ++ q :: rest ∧ (∀ p ∈ quiet, p.result = none) ∧
      q.result = some k ∧ pollLoop n s = .ok k s' ∧ s'.bytes = encode rest ∧
      s'.inited = s.inited ∧ s'.sil = s.sil ∧
      s'.keyd = ScanSeq.keydAfter (quiet ++ [q]) s.keyd) ∨
    ((∀ p ∈ qs, p.result = none) ∧ ∃ s', pollLoop n s = .error .spin s') := by
  induction qs generalizing n s with
  | nil =>
    right
    refine ⟨List.forall_mem_nil _, s, ?_⟩
    obtain ⟨n, rfl⟩ := Nat.exists_eq_succ_of_ne_zero (Nat.ne_zero_of_lt hn)
    have honce : pollOnce s = .error .spin s := Kernel.bind_of_error (readData_nil hs)
    rw [pollLoop_succ, honce]
  | cons q qs ih =>
    obtain ⟨n, rfl⟩ := Nat.exists_eq_succ_of_ne_zero (Nat.ne_zero_of_lt hn)
    have honce := pollOnce_bytes q (encode qs) hs
    have hlt := pollOnce_ok honce
    rw [pollLoop_succ, honce]
    cases hq : q.result with
    | some k =>
      left
      exact ⟨[], q, qs, k, _, rfl, List.forall_mem_nil _, hq, rfl, rfl, rfl, rfl, rfl⟩
    | none =>
      rcases ih (n := n) (s := { s with
          bytes := encode qs, last := q.lastByte, keyd := q.keyd s.keyd }) rfl (by omega) with
        ⟨quiet, p, rest, k, s', rfl, hquiet, hp, hloop, hrest, hkept⟩ | ⟨hall, s', hloop⟩
      · left
        exact ⟨q :: quiet, p, rest, k, s', rfl, List.forall_mem_cons.mpr ⟨hq, hquiet⟩, hp, hloop,
          hrest, hkept⟩
      · right
        exact ⟨List.forall_mem_cons.mpr ⟨hq, hall⟩, s', hloop⟩

theorem keyboardPollK_ready {s : Keyboard} (hin : s.inited = true) (hsil : s.sil = 0) :
    keyboardPollK s = pollLoop (s.bytes.length + 1) s := by
  have hassert : assertSilChill s = .ok () s := by
    show (if 0 ≠ s.sil then _ else _ : Kernel Keyboard Unit) s = _
    rw [if_neg (by simp [hsil])]
    rfl
  show (if s.inited = false then _ else _ : Kernel Keyboard CInt) s = _
  rw [if_neg (by simp [hin]), Kernel.bind_of_ok hassert]

theorem returning_append_cons {quiet rest : List ScanSeq} {q : ScanSeq}
    (hquiet : ∀ p ∈ quiet, p.result = none) (hq : q.result.isSome) :
    returning (quiet ++ q :: rest) = returning rest + 1 := by
  have hzero : quiet.countP (fun p => p.result.isSome) = 0 := by
    rw [List.countP_eq_zero]
    intro p hp
    simp [hquiet p hp]
  unfold returning
  rw [List.countP_append, hzero, Nat.zero_add]
  exact List.countP_cons_of_pos hq

theorem filterMap_released_append_cons {quiet : List ScanSeq} {q : ScanSeq} (done : List ScanSeq)
    (hquiet : ∀ p ∈ quiet, p.result = none) :
    (quiet ++ q :: done).filterMap ScanSeq.released =
      q.released.toList ++ done.filterMap ScanSeq.released := by
  have hnil : quiet.filterMap ScanSeq.released = [] := by
    rw [List.filterMap_eq_nil_iff]
    exact fun p hp => released_of_result (hquiet p hp)
  rw [List.filterMap_append, hnil, List.nil_append]
  cases hq : q.released <;> simp [hq]

/-- **The decoder keeps its framing.** On a stream of whole sequences `n` calls come back if and
only if `n` of the sequences make a call return; what they have consumed is then a whole number of
sequences, and their results other than `-1` are the keys of the releases among these, in order. -/
theorem polls_framed (n : ℕ) {qs : List ScanSeq} {s : Keyboard} (hin : s.inited = true)
    (hsil : s.sil = 0) (hs : s.bytes = encode qs) :
    ((∃ ks s', polls n s = .ok ks s') ↔ n ≤ returning qs) ∧
    ∀ ks s', polls n s = .ok ks s' → ∃ done rest, qs = done ++ rest ∧ s'.bytes = encode rest ∧
      ks.length = n ∧ ks.filter (· ≠ -1) = done.filterMap ScanSeq.released := by
  induction n generalizing qs s with
  | zero =>
    refine ⟨⟨fun _ => Nat.zero_le _, fun _ => ⟨[], s, rfl⟩⟩, fun ks s' h => ?_⟩
    obtain ⟨rfl, rfl⟩ := EStateM.Result.ok.inj h
    exact ⟨[], qs, rfl, hs, rfl, rfl⟩
  | succ n ih =>
    have hcall := keyboardPollK_ready hin hsil
    rcases pollLoop_encode hs (Nat.lt_succ_self _) with
      ⟨quiet, q, rest, k, s₁, rfl, hquiet, hq, hloop, hrest, hin₁, hsil₁, -⟩ | ⟨hall, s', hloop⟩
    · have hk : keyboardPollK s = .ok k s₁ := hcall.trans hloop
      obtain ⟨hiff, hok⟩ := ih (hin₁.trans hin) (hsil₁.trans hsil) hrest
      have hpolls : polls (n + 1) s = (polls n >>= fun ks => return k :: ks) s₁ :=
        Kernel.bind_of_ok hk
      refine ⟨?_, fun ks s' h => ?_⟩
      · rw [returning_append_cons hquiet (by rw [hq]; rfl), Nat.add_le_add_iff_right, ← hiff,
          hpolls]
        constructor
        · rintro ⟨ks, s', h⟩
          obtain ⟨ks', s₂, h', -⟩ := Kernel.bind_eq_ok.mp h
          exact ⟨ks', s₂, h'⟩
        · rintro ⟨ks, s', h⟩
          exact ⟨k :: ks, s', Kernel.bind_of_ok h⟩
      · rw [hpolls] at h
        obtain ⟨ks', s₂, h', h⟩ := Kernel.bind_eq_ok.mp h
        obtain ⟨rfl, rfl⟩ := EStateM.Result.ok.inj h
        obtain ⟨done, rest', rfl, hbytes, hlen, hkeys⟩ := hok ks' s₂ h'
        refine ⟨quiet ++ q :: done, rest', by simp, hbytes, congrArg (· + 1) hlen, ?_⟩
        rw [filter_result hq, hkeys, filterMap_released_append_cons done hquiet]
    · -- the first of the calls waits for ever
      have hno : ∀ ks s', polls (n + 1) s ≠ .ok ks s' := by
        intro ks s' h
        obtain ⟨k, s₁, hk, -⟩ := Kernel.bind_eq_ok.mp h
        rw [hcall, hloop] at hk
        cases hk
      have hzero : returning qs = 0 := by
        unfold returning
        rw [List.countP_eq_zero]
        intro p hp
        simp [hall p hp]
      refine ⟨⟨fun ⟨ks, s', h⟩ => absurd h (hno ks s'), fun h => ?_⟩, fun ks s' h =>
        absurd h (hno ks s')⟩
      omega

/-- Two calls on a press and a release of A, with Pause between them. -/
theorem polls_framed_pause :
    ∃ ks s' done rest, polls 2 ⟨encode [.make 0x1C (by decide), .pause, .brk 0x1C], 0, true, 0, 0⟩ =
        .ok ks s' ∧ [.make 0x1C (by decide), .pause, .brk 0x1C] = done ++ rest ∧
      s'.bytes = encode rest ∧ ks.filter (· ≠ -1) = done.filterMap ScanSeq.released := by
  obtain ⟨hiff, hok⟩ := polls_framed 2 (s := ⟨encode [.make 0x1C (by decide), .pause, .brk 0x1C],
    0, true, 0, 0⟩) rfl rfl rfl
  obtain ⟨ks, s', h⟩ := hiff.mpr (by decide)
  obtain ⟨done, rest, hqs, hrest, -, hkeys⟩ := hok ks s' h
  exact ⟨ks, s', done, rest, h, hqs, hrest, hkeys⟩

/-! ## The next release -/

/-- An ordinary key is pressed. -/
def ScanSeq.IsMake : ScanSeq → Prop
  | make _ _ => True
  | brk _ | extMake _ _ | extBrk _ | pause => False

section Release

variable {q : ScanSeq} {k : CInt}

theorem ScanSeq.result_of_released (h : q.released = some k) : q.result = some k := by
  cases q with
  | brk c => exact h
  | extBrk c => exact h
  | make m hm => cases h
  | extMake c hc => cases h
  | pause => cases h

theorem ScanSeq.ne_of_released (h : q.released = some k) : k ≠ -1 := by
  cases q with
  | brk c =>
    obtain rfl := Option.some.inj h
    exact Key.code_ne _
  | extBrk c =>
    obtain rfl := Option.some.inj h
    exact Key.code_ne _
  | make m hm => cases h
  | extMake c hc => cases h
  | pause => cases h

theorem ScanSeq.not_isMake (h : q.result = none) : ¬ q.IsMake := by
  cases q with
  | make m hm => cases h
  | brk c => exact not_false
  | extMake c hc => exact not_false
  | extBrk c => exact not_false
  | pause => exact not_false

/-- A sequence that makes a call return and is no release is an ordinary press. -/
theorem ScanSeq.isMake_of_result (h : q.released = none) (hk : q.result = some k) :
    q.IsMake ∧ k = -1 := by
  cases q with
  | make m hm => exact ⟨trivial, (Option.some.inj hk).symm⟩
  | brk c => cases h
  | extBrk c => cases h
  | extMake c hc => cases hk
  | pause => cases hk

end Release

/-- **The next release.** For every stream of whole sequences with a release in it: a call returns
the key of the first release, right behind its sequence, exactly when no ordinary key is pressed
before. -/
theorem keyboardPollK_release_iff {pre rest : List ScanSeq} {q : ScanSeq} {k : CInt} {s : Keyboard}
    (hin : s.inited = true) (hsil : s.sil = 0) (hs : s.bytes = encode (pre ++ q :: rest))
    (hpre : ∀ p ∈ pre, p.released = none) (hq : q.released = some k) :
    (∃ s', keyboardPollK s = .ok k s' ∧ s'.bytes = encode rest) ↔ ∀ p ∈ pre, ¬ p.IsMake := by
  have hresult := ScanSeq.result_of_released hq
  rw [keyboardPollK_ready hin hsil]
  rcases pollLoop_encode hs (Nat.lt_succ_self _) with
    ⟨quiet, p, rest', k', s', hqs, hquiet, hp, hloop, hrest, -⟩ | ⟨hall, -⟩
  · rcases List.append_eq_append_iff.mp hqs with ⟨as, rfl, has⟩ | ⟨bs, rfl, hbs⟩
    · -- the call goes on at least to the release
      refine iff_of_true ?_ fun x hx => ScanSeq.not_isMake (hquiet x (List.mem_append_left _ hx))
      cases as with
      | nil =>
        obtain ⟨rfl, rfl⟩ := List.cons.inj has
        obtain rfl := Option.some.inj (hresult.symm.trans hp)
        exact ⟨s', hloop, hrest⟩
      | cons a as =>
        obtain ⟨rfl, -⟩ := List.cons.inj has
        have hnone := hquiet q (List.mem_append_right _ List.mem_cons_self)
        rw [hnone] at hresult
        cases hresult
    · cases bs with
      | nil =>
        obtain ⟨rfl, rfl⟩ := List.cons.inj hbs
        obtain rfl := Option.some.inj (hresult.symm.trans hp)
        rw [List.append_nil]
        exact iff_of_true ⟨s', hloop, hrest⟩ fun x hx => ScanSeq.not_isMake (hquiet x hx)
      | cons b bs =>
        -- the call returns before the release
        obtain ⟨rfl, -⟩ := List.cons.inj hbs
        have hmem : p ∈ quiet ++ p :: bs := List.mem_append_right _ List.mem_cons_self
        obtain ⟨hmake, rfl⟩ := ScanSeq.isMake_of_result (hpre p hmem) hp
        refine iff_of_false ?_ fun hno => hno p hmem hmake
        rintro ⟨s₁, hcall, -⟩
        obtain ⟨hk, -⟩ := EStateM.Result.ok.inj (hcall.symm.trans hloop)
        exact ScanSeq.ne_of_released hq hk
  · rw [hall q (List.mem_append_right _ List.mem_cons_self)] at hresult
    cases hresult

/-- Arrow up is pressed twice, then Pause, then released. -/
theorem keyboardPollK_release_arrowUp :
    ∃ s', keyboardPollK ⟨encode [.extMake 0x75 (by decide), .extMake 0x75 (by decide), .pause,
      .extBrk 0x75], 0, true, 0, 0⟩ = .ok Key.keyArrowUp.code s' ∧ s'.bytes = encode [] := by
  have hpre : ∀ p ∈ [ScanSeq.extMake 0x75 (by decide), .extMake 0x75 (by decide), .pause],
      p.released = none := by simp [ScanSeq.released]
  have hq : (ScanSeq.extBrk 0x75).released = some Key.keyArrowUp.code := rfl
  refine (keyboardPollK_release_iff rfl rfl rfl hpre hq).mpr ?_
  simp [ScanSeq.IsMake]

/-- A is pressed and released: the call returns `-1` at the press. -/
theorem keyboardPollK_press_keyA : ¬ ∃ s', keyboardPollK
    ⟨encode [.make 0x1C (by decide), .brk 0x1C], 0, true, 0, 0⟩ = .ok Key.keyA.code s' := by
  rintro ⟨s', h⟩
  have hcall : keyboardPollK ⟨encode [.make 0x1C (by decide), .brk 0x1C], 0, true, 0, 0⟩ =
      .ok (-1) ⟨[0xF0, 0x1C], 0x1C, true, 0, 0⟩ := rfl
  obtain ⟨hk, -⟩ := EStateM.Result.ok.inj (hcall.symm.trans h)
  exact Key.code_ne _ hk.symm

end DejOs
