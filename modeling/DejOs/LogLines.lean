import DejOs.Log
import DejOs.Lock

/-!
# Lines in the log

`LogStr`, `LogfStr` and `LogRaw` of `log.c`, which write to COM1 under `com1_lock`.

`LogStr` prints with `printk`, whose loop puts out a character after it has tested the one before:
the first character gets no `\r`, and the NUL is sent too. `LogfStr` prints the module with `printk`
and the text with `vlog`, which sends no NUL and no `\r`. So the two never send the same, nor what
they should (`log_never`).

All of them write with `putc`, except for the strings of `%s` (`log_polite_iff`). `LogRaw` numbers
its bytes with 16 bits, so that a long buffer starts over (`logRaw_sends_iff`).
-/

namespace DejOs.Log

open CString Serial

/-! ## The code -/

/-- `com1_lock` and the port. -/
structure Com1 where
  lock : Lock
  uart : Uart

/-- `aquire_lock(&com1_lock)` -/
def lockCom1 (cpu : Cpu) : Kernel Com1 Unit :=
  Kernel.zoom Com1.lock (fun l c => { c with lock := l }) (aquireLock cpu)

/-- `release_lock(&com1_lock)` -/
def unlockCom1 : Kernel Com1 Unit :=
  Kernel.zoom Com1.lock (fun l c => { c with lock := l }) releaseLock

/-- Output under the lock. -/
def locked (cpu : Cpu) (x : Kernel Uart Unit) : Kernel Com1 Unit := do
  lockCom1 cpu
  Kernel.zoom Com1.uart (fun u c => { c with uart := u }) x
  unlockCom1

/-- The body of the loop of `printk`. -/
def printkChar (c : Byte) : Kernel Uart Unit := do
  if c = ascii '\n' then putc (ascii '\r')
  putc c

/-- The loop of `printk`, for at most `n` characters; `*s++` is tested. -/
def printkLoop (m : Bytes) : ℕ → U64 → Kernel Uart Unit
  | 0, _ => throw .spin
  | n + 1, s => if m s = 0 then return else do
    printkChar (m (s + 1))
    printkLoop m n (s + 1)

/-- `printk`; a string has less than `2 ^ 64` characters. -/
def printk (m : Bytes) (s : U64) : Kernel Uart Unit := do
  putc (m s)
  printkLoop m (2 ^ 64) s

/-- `LogStr` -/
def logStr (cpu : Cpu) (m : Bytes) (module s : U64) : Kernel Com1 Unit := locked cpu do
  putc (ascii '[')
  printk m module
  putc (ascii ']')
  putc (ascii ' ')
  printk m s

/-- `LogfStr` -/
def logfStr (cpu : Cpu) (m : Bytes) (module s : U64) (args : Stream' U64) : Kernel Com1 Unit :=
  locked cpu do
    putc (ascii '[')
    printk m module
    putc (ascii ']')
    putc (ascii ' ')
    vlog m s args

/-- The loop of `LogRaw`; the index has 16 bits. -/
def logRawLoop (m : Bytes) (out : U64) : ℕ → BitVec 16 → Kernel Uart Unit
  | 0, _ => return
  | len + 1, i => do
    putc (m (out + i.setWidth 64))
    logRawLoop m out len (i + 1)

/-- `LogRaw` -/
def logRaw (cpu : Cpu) (m : Bytes) (buffer len : U64) : Kernel Com1 Unit :=
  locked cpu (logRawLoop m buffer len.toNat 0)

/-! ## What they write -/

section Writes

variable {m : Bytes} {cpu : Cpu} {c : Com1} {ws : List (Byte × Bool)}

/-- A call that gets the lock comes back, after its writes. -/
theorem locked_writes {x : Kernel Uart Unit} (h : Writes x () ws) (hl : c.lock.Mine cpu) :
    ∃ c' t, locked cpu x c = .ok () c' ∧ c'.uart.trace = c.uart.trace ++ t ∧
      noted false t = ws := by
  obtain ⟨l, hlock, -⟩ := aquireLock_mine hl
  obtain ⟨u, t, hx, ht, hws, -⟩ := h c.uart
  refine ⟨⟨l.untag.unhold, u⟩, t, ?_, ht, hws⟩
  have hfirst : lockCom1 cpu c = .ok () { c with lock := l } := Kernel.zoom_of_ok hlock
  have hmid : Kernel.zoom Com1.uart (fun u c => { c with uart := u }) x { c with lock := l } =
      .ok () ⟨l, u⟩ := Kernel.zoom_of_ok hx
  unfold locked
  rw [Kernel.bind_of_ok hfirst, Kernel.bind_of_ok hmid]
  rfl

/-- A character with the `\r` before a `\n`. -/
def crlf (c : Byte) : List Byte := if c = ascii '\n' then [ascii '\r', c] else [c]

/-- What `printk` sends for a string. -/
def printkBytes : List Byte → List Byte
  | [] => [0]
  | c :: s => c :: (s ++ [0]).flatMap crlf

/-- A byte that was written after the bit was seen set. -/
def polled (b : Byte) : Byte × Bool := (b, true)

theorem writes_printkChar (c : Byte) : Writes (printkChar c) () ((crlf c).map polled) := by
  unfold printkChar crlf
  by_cases hc : c = ascii '\n'
  · simp only [if_pos hc]
    exact (writes_putc _).bind (writes_putc c)
  · simp only [if_neg hc]
    exact writes_putc c

theorem printkLoop_succ {p : U64} (h : m p ≠ 0) (n : ℕ) : printkLoop m (n + 1) p = (do
    printkChar (m (p + 1))
    printkLoop m n (p + 1)) := if_neg h

theorem writes_printkLoop {p : U64} {a : Byte} {s : List Byte} (h : IsString m p (a :: s)) {n : ℕ}
    (hn : s.length + 1 < n) :
    Writes (printkLoop m n p) () (((s ++ [0]).flatMap crlf).map polled) := by
  induction s generalizing p a n with
  | nil =>
    obtain ⟨k, rfl⟩ : ∃ k, n = k + 1 + 1 := ⟨n - 2, by omega⟩
    obtain ⟨rfl, ha, hend⟩ := h
    have hend : m (p + 1) = 0 := hend
    have hlast : printkLoop m (k + 1) (p + 1) = pure () := if_pos hend
    rw [printkLoop_succ ha, hlast, hend]
    exact (writes_printkChar 0).map fun _ => ()
  | cons b s ih =>
    obtain ⟨k, rfl⟩ : ∃ k, n = k + 1 := ⟨n - 1, by omega⟩
    obtain ⟨rfl, ha, hs⟩ := h
    have hb : m (p + 1) = b := hs.1
    rw [List.cons_append, List.flatMap_cons, List.map_append, printkLoop_succ ha, hb]
    rw [List.length_cons] at hn
    exact (writes_printkChar b).bind (ih hs (by omega))

theorem writes_printk {p : U64} {s : List Byte} (h : IsString m p s) :
    Writes (printk m p) () ((printkBytes s).map polled) := by
  cases s with
  | nil =>
    have hend : m p = 0 := h
    have hloop : printkLoop m (2 ^ 64) p = pure () := if_pos hend
    unfold printk
    rw [hloop, hend]
    exact (writes_putc 0).map fun _ => ()
  | cons a s =>
    have ha : m p = a := h.1
    have hlen := h.length_lt
    rw [List.length_cons] at hlen
    unfold printk
    rw [ha]
    exact (writes_putc a).bind (writes_printkLoop h hlen)

/-- The bytes in front of the text. -/
def header (module : List Byte) : List Byte :=
  ascii '[' :: (printkBytes module ++ [ascii ']', ascii ' '])

theorem writes_line {pm : U64} {module : List Byte} (hm : IsString m pm module)
    {x : Kernel Uart Unit} (hx : Writes x () ws) : Writes (do
      putc (ascii '[')
      printk m pm
      putc (ascii ']')
      putc (ascii ' ')
      x) () ((header module).map polled ++ ws) := by
  have h := (writes_putc (ascii '[')).bind (f := fun _ => _) ((writes_printk hm).bind
    (f := fun _ => _) ((writes_putc (ascii ']')).bind (f := fun _ => _)
      ((writes_putc (ascii ' ')).bind (f := fun _ => x) hx)))
  have hws : (header module).map polled ++ ws = [(ascii '[', true)] ++
      ((printkBytes module).map polled ++
        ([(ascii ']', true)] ++ ([(ascii ' ', true)] ++ ws))) := by
    unfold header
    simp [polled]
  rw [hws]
  exact h

/-- The bytes that the index, cut to 16 bits, finds. -/
theorem writes_logRawLoop (m : Bytes) (out : U64) (len : ℕ) (i : ℕ) :
    Writes (logRawLoop m out len (BitVec.ofNat 16 i)) ()
      (((List.range' i len).map fun j => m (out + BitVec.ofNat 64 (j % 65536))).map polled) := by
  induction len generalizing i with
  | zero => exact Writes.pure ()
  | succ len ih =>
    have hindex : (BitVec.ofNat 16 i).setWidth 64 = BitVec.ofNat 64 (i % 65536) := by
      rw [← BitVec.ofNat_toNat, BitVec.toNat_ofNat]
    have hnext : BitVec.ofNat 16 i + 1 = BitVec.ofNat 16 (i + 1) := (BitVec.ofNat_add i 1).symm
    unfold logRawLoop
    rw [hindex, hnext]
    exact (writes_putc _).bind (ih (i + 1))

end Writes

/-- The strings `"k"`, `""`, `"%s"`, `"a"` and `"up\n"`, one behind the other at `0x1000`. -/
def someStrings : Bytes := fun a =>
  if a = 0x1000 then ascii 'k'
  else if a = 0x1003 then ascii '%'
  else if a = 0x1004 then ascii 's'
  else if a = 0x1006 then ascii 'a'
  else if a = 0x1008 then ascii 'u'
  else if a = 0x1009 then ascii 'p'
  else if a = 0x100A then 0x0A
  else 0

/-! ## The two never send the same -/

/-- Under the lock, `x` sends `bs`. -/
def LogSends (cpu : Cpu) (x : Kernel Com1 Unit) (bs : List Byte) : Prop :=
  ∀ c : Com1, c.lock.Mine cpu → ∃ c' t, x c = .ok () c' ∧
    c'.uart.trace = c.uart.trace ++ t ∧ dataOf t = bs

/-- The line that should be sent. -/
def line (module s : List Byte) : List Byte :=
  ascii '[' :: (module.flatMap crlf ++ [ascii ']', ascii ' '] ++ s.flatMap crlf)

section Never

variable {m : Bytes} {cpu : Cpu} {pm p : U64} {module s : List Byte}

theorem LogSends.of_writes (cpu : Cpu) {x : Kernel Uart Unit} {ws : List (Byte × Bool)}
    (h : Writes x () ws) : LogSends cpu (locked cpu x) (ws.map Prod.fst) := by
  intro c hc
  obtain ⟨c', t, hx, ht, rfl⟩ := locked_writes h hc
  exact ⟨c', t, hx, ht, (map_fst_noted false t).symm⟩

theorem LogSends.unique {x : Kernel Com1 Unit} {bs bs' : List Byte} (h : LogSends cpu x bs)
    (h' : LogSends cpu x bs') : bs = bs' := by
  obtain ⟨c, t, hx, ht, rfl⟩ := h ⟨.free, 0, fun _ => 0, []⟩ (Or.inl rfl)
  obtain ⟨c', t', hx', ht', rfl⟩ := h' ⟨.free, 0, fun _ => 0, []⟩ (Or.inl rfl)
  obtain ⟨-, rfl⟩ := EStateM.Result.ok.inj (hx.symm.trans hx')
  exact congrArg dataOf (ht.symm.trans ht')

theorem map_fst_polled (bs : List Byte) : (bs.map polled).map Prod.fst = bs := by
  rw [List.map_map]
  exact List.map_id bs

theorem logStr_sends (cpu : Cpu) (hm : IsString m pm module) (hs : IsString m p s) :
    LogSends cpu (logStr cpu m pm p) (header module ++ printkBytes s) := by
  have h := LogSends.of_writes cpu (writes_line hm (writes_printk hs))
  rwa [List.map_append, map_fst_polled, map_fst_polled] at h

/-- A string without a `%` is all literals. -/
theorem tokens_of_no_percent (h : ascii '%' ∉ s) : tokens s = s.map Token.lit := by
  unfold tokens
  induction s with
  | nil => rfl
  | cons c s ih =>
    obtain ⟨hc, hs⟩ := not_or.mp (mt List.mem_cons.mpr h)
    rw [List.map_cons, ← ih hs]
    exact if_neg fun e => hc e.symm

theorem tokenWrites_literals (s : List Byte) (args : Stream' U64) :
    tokenWrites m (s.map Token.lit) args = s.map polled := by
  induction s with
  | nil => rfl
  | cons c s ih => exact congrArg (polled c :: ·) ih

theorem strPointers_literals (s : List Byte) (args : Stream' U64) :
    strPointers (s.map Token.lit) args = [] := by
  induction s with
  | nil => rfl
  | cons c s ih => exact ih

theorem logfStr_sends (cpu : Cpu) (hm : IsString m pm module) (hs : IsString m p s)
    (hno : ascii '%' ∉ s) (args : Stream' U64) :
    LogSends cpu (logfStr cpu m pm p args) (header module ++ s) := by
  have hvlog := writes_vlog hs fun q (hq : q ∈ strPointers (tokens s) args) => by
    rw [tokens_of_no_percent hno, strPointers_literals] at hq
    cases hq
  rw [tokens_of_no_percent hno, tokenWrites_literals] at hvlog
  have h := LogSends.of_writes cpu (writes_line hm hvlog)
  rwa [List.map_append, map_fst_polled, map_fst_polled] at h

theorem zero_mem_printkBytes (s : List Byte) : 0 ∈ printkBytes s := by
  cases s with
  | nil => exact List.mem_singleton_self _
  | cons c s =>
    refine List.mem_cons_of_mem _ (List.mem_flatMap.mpr ⟨0, ?_, ?_⟩)
    · exact List.mem_append_right _ (List.mem_singleton_self _)
    · decide

theorem zero_mem_header (module : List Byte) : 0 ∈ header module :=
  List.mem_cons_of_mem _ (List.mem_append_left _ (zero_mem_printkBytes module))

theorem zero_not_mem_crlf (h : ∀ b ∈ s, b ≠ 0) : 0 ∉ s.flatMap crlf := by
  intro hz
  obtain ⟨b, hb, hz⟩ := List.mem_flatMap.mp hz
  unfold crlf at hz
  split at hz
  · rcases List.mem_cons.mp hz with hz | hz
    · exact absurd hz (by decide)
    · exact h b hb (List.mem_singleton.mp hz).symm
  · exact h b hb (List.mem_singleton.mp hz).symm

theorem zero_not_mem_line (hm : ∀ b ∈ module, b ≠ 0) (hs : ∀ b ∈ s, b ≠ 0) :
    0 ∉ line module s := by
  have hmodule := zero_not_mem_crlf hm
  have htext := zero_not_mem_crlf hs
  unfold line
  simp only [List.mem_cons, List.mem_append, not_or]
  exact ⟨by decide, ⟨hmodule, by decide, by decide, List.not_mem_nil⟩, htext⟩

end Never

/-- **`LogStr` and `LogfStr`.** For every module and every text without a `%`: the two do not send
the same bytes, and neither sends the line with `\r` before every `\n` and nothing added. -/
theorem log_never {m : Bytes} {pm p : U64} {module s : List Byte} (cpu : Cpu) (args : Stream' U64)
    (hm : IsString m pm module) (hs : IsString m p s) (hno : ascii '%' ∉ s) :
    (¬ ∃ bs, LogSends cpu (logStr cpu m pm p) bs ∧ LogSends cpu (logfStr cpu m pm p args) bs) ∧
      ¬ LogSends cpu (logStr cpu m pm p) (line module s) ∧
      ¬ LogSends cpu (logfStr cpu m pm p args) (line module s) := by
  have hstr := logStr_sends cpu hm hs
  have hfmt := logfStr_sends cpu hm hs hno args
  have hline := zero_not_mem_line hm.ne_zero hs.ne_zero
  refine ⟨?_, ?_, ?_⟩
  · rintro ⟨bs, h₁, h₂⟩
    have hsame : printkBytes s = s :=
      List.append_cancel_left ((hstr.unique h₁).trans (h₂.unique hfmt))
    exact hs.ne_zero 0 (hsame ▸ zero_mem_printkBytes s) rfl
  · intro h
    rw [h.unique hstr] at hline
    exact hline (List.mem_append_left _ (zero_mem_header module))
  · intro h
    rw [h.unique hfmt] at hline
    exact hline (List.mem_append_left _ (zero_mem_header module))

theorem log_never_up :
    (¬ ∃ bs, LogSends ⟨0, 0⟩ (logStr ⟨0, 0⟩ someStrings 0x1000 0x1008) bs ∧
      LogSends ⟨0, 0⟩ (logfStr ⟨0, 0⟩ someStrings 0x1000 0x1008 fun _ => 0) bs) ∧
      ¬ LogSends ⟨0, 0⟩ (logStr ⟨0, 0⟩ someStrings 0x1000 0x1008)
        (line [ascii 'k'] [ascii 'u', ascii 'p', 0x0A]) := by
  have hm : IsString someStrings 0x1000 [ascii 'k'] := by decide
  have hs : IsString someStrings 0x1008 [ascii 'u', ascii 'p', 0x0A] := by decide
  obtain ⟨hdiffer, hstr, -⟩ := log_never ⟨0, 0⟩ (fun _ => 0) hm hs (by decide)
  exact ⟨hdiffer, hstr⟩

/-- `LogStr("k", "")` sends a NUL for each of the two strings. -/
theorem logStr_adds_nul : ¬ LogSends ⟨0, 0⟩ (logStr ⟨0, 0⟩ someStrings 0x1000 0x1002)
    (line [ascii 'k'] []) := by
  intro h
  have hm : IsString someStrings 0x1000 [ascii 'k'] := by decide
  have hs : IsString someStrings 0x1002 [] := by decide
  exact absurd (h.unique (logStr_sends ⟨0, 0⟩ hm hs)) (by decide)

/-! ## The transmitter is waited for -/

/-- On the port as it is in `c`, `x` writes only when the bit has been seen set since the byte
before. -/
def Politely (x : Kernel Com1 Unit) (c : Com1) : Prop :=
  ∃ c' t, x c = .ok () c' ∧ c'.uart.trace = c.uart.trace ++ t ∧ Polite false t

section Polite

variable {m : Bytes} {cpu : Cpu} {c : Com1} {args : Stream' U64}

theorem politely_iff {x : Kernel Uart Unit} {ws : List (Byte × Bool)} (h : Writes x () ws)
    (hl : c.lock.Mine cpu) : Politely (locked cpu x) c ↔ ∀ w ∈ ws, w.2 = true := by
  obtain ⟨c', t, hx, ht, rfl⟩ := locked_writes h hl
  constructor
  · rintro ⟨c'', t', hx', ht', hp⟩
    obtain ⟨-, rfl⟩ := EStateM.Result.ok.inj (hx.symm.trans hx')
    obtain rfl : t = t' := List.append_cancel_left (ht.symm.trans ht')
    exact (polite_iff false t).mp hp
  · exact fun hp => ⟨c', t, hx, ht, (polite_iff false t).mpr hp⟩

theorem snd_polled (bs : List Byte) : ∀ w ∈ bs.map polled, w.2 = true := by
  intro w hw
  obtain ⟨b, -, rfl⟩ := List.mem_map.mp hw
  rfl

theorem snd_token_iff (t : Token) (w : U64) :
    (∀ x ∈ t.writes m w, x.2 = true) ↔ ∀ q, t.strPointer w = some q → stringAt m q = [] := by
  cases t with
  | lit b => simp [Token.writes, Token.strPointer]
  | spec l b =>
    show (∀ x ∈ (convOf b).writes m l w, x.2 = true) ↔
      ∀ q, (if convOf b = .str then some w else none) = some q → stringAt m q = []
    cases hb : convOf b with
    | char | percent | invalid => simp [Conv.writes]
    | str =>
      cases hs : stringAt m w with
      | nil => simp [Conv.writes, hs]
      | cons a s => simp [Conv.writes, hs]
    | num radix sign =>
      cases sign with
      | true => simp [Conv.writes]
      | false => simp [Conv.writes]

/-- Of the writes of a format string only those of its `%s` are made without a look. -/
theorem snd_tokenWrites_iff (ts : List Token) (args : Stream' U64) :
    (∀ x ∈ tokenWrites m ts args, x.2 = true) ↔ ∀ q ∈ strPointers ts args, stringAt m q = [] := by
  induction ts generalizing args with
  | nil => simp [tokenWrites, strPointers]
  | cons t ts ih =>
    unfold tokenWrites strPointers
    simp only [List.forall_mem_append, ih, snd_token_iff, Option.mem_toList]

theorem stringAt_eq_nil_iff {q : U64} (h : ∃ s, IsString m q s) : stringAt m q = [] ↔ m q = 0 := by
  obtain ⟨s, hs⟩ := h
  rw [hs.stringAt_eq]
  cases s with
  | nil => exact iff_of_true rfl hs
  | cons b s => exact iff_of_false (List.cons_ne_nil b s) fun h0 => hs.2.1 (hs.1.symm.trans h0)

theorem logfStr_politely_iff {pm fmt : U64} {module f : List Byte} (hl : c.lock.Mine cpu)
    (hm : IsString m pm module) (hf : IsString m fmt f)
    (hstr : ∀ q ∈ strPointers (tokens f) args, ∃ s, IsString m q s) :
    Politely (logfStr cpu m pm fmt args) c ↔ ∀ q ∈ strPointers (tokens f) args, m q = 0 := by
  have h := writes_line hm (writes_vlog hf hstr)
  refine (politely_iff h hl).trans ?_
  rw [List.forall_mem_append, snd_tokenWrites_iff]
  constructor
  · rintro ⟨-, hall⟩ q hq
    exact (stringAt_eq_nil_iff (hstr q hq)).mp (hall q hq)
  · exact fun hall => ⟨snd_polled _, fun q hq => (stringAt_eq_nil_iff (hstr q hq)).mpr (hall q hq)⟩

end Polite

/-- **The transmitter.** For every format string with its arguments and on every port: each byte
that `LogStr`, `LogfStr` and `LogRaw` send is written when the transmitter has been seen empty since
the byte before, exactly when no `%s` of the format string has a string to print. -/
theorem log_polite_iff {m : Bytes} {cpu : Cpu} {c : Com1} {args : Stream' U64}
    {pm p fmt : U64} {module s f : List Byte} (buffer len : U64) (hl : c.lock.Mine cpu)
    (hm : IsString m pm module) (hs : IsString m p s) (hf : IsString m fmt f)
    (hstr : ∀ q ∈ strPointers (tokens f) args, ∃ t, IsString m q t) :
    (Politely (logStr cpu m pm p) c ∧ Politely (logfStr cpu m pm fmt args) c ∧
      Politely (logRaw cpu m buffer len) c) ↔ ∀ q ∈ strPointers (tokens f) args, m q = 0 := by
  have hlogStr : Politely (logStr cpu m pm p) c := by
    refine (politely_iff (writes_line hm (writes_printk hs)) hl).mpr ?_
    exact List.forall_mem_append.mpr ⟨snd_polled _, snd_polled _⟩
  have hlogRaw : Politely (logRaw cpu m buffer len) c := by
    exact (politely_iff (writes_logRawLoop m buffer len.toNat 0) hl).mpr (snd_polled _)
  rw [← logfStr_politely_iff hl hm hf hstr]
  exact ⟨fun h => h.2.1, fun h => ⟨hlogStr, h, hlogRaw⟩⟩

theorem log_polite_iff_plain :
    Politely (logfStr ⟨0, 0⟩ someStrings 0x1000 0x1006 fun _ => 0) ⟨.free, 7, fun _ => 3, []⟩ := by
  have hpointers : strPointers (tokens [ascii 'a']) (fun _ => 0) = [] := rfl
  have hnone : ∀ q, q ∉ strPointers (tokens [ascii 'a']) (fun _ => 0) := by
    intro q hq
    rw [hpointers] at hq
    cases hq
  have hm : IsString someStrings 0x1000 [ascii 'k'] := by decide
  have hs : IsString someStrings 0x1002 [] := by decide
  have hf : IsString someStrings 0x1006 [ascii 'a'] := by decide
  have hl : (⟨.free, 7, fun _ => 3, []⟩ : Com1).lock.Mine ⟨0, 0⟩ := Or.inl rfl
  have hiff := log_polite_iff 0 0 hl hm hs hf fun q hq => absurd hq (hnone q)
  exact (hiff.mpr fun q hq => absurd hq (hnone q)).2.1

/-- `LogfStr("k", "%s", "a")` on a port that needs three reads. -/
theorem logfStr_impolite : ¬ Politely (logfStr ⟨0, 0⟩ someStrings 0x1000 0x1003
    ([0x1006] ++ₛ fun _ => 0)) ⟨.free, 0, fun _ => 3, []⟩ := by
  have hpointers : strPointers (tokens [ascii '%', ascii 's']) ([0x1006] ++ₛ fun _ => 0) =
      [0x1006] := rfl
  have hm : IsString someStrings 0x1000 [ascii 'k'] := by decide
  have hf : IsString someStrings 0x1003 [ascii '%', ascii 's'] := by decide
  rw [logfStr_politely_iff (Or.inl rfl) hm hf, hpointers]
  · exact fun h => absurd (h 0x1006 (List.mem_singleton_self _)) (by decide)
  · rw [hpointers]
    intro q hq
    obtain rfl := List.mem_singleton.mp hq
    exact ⟨[ascii 'a'], by decide⟩

/-! ## Raw bytes -/

theorem logRaw_sends (cpu : Cpu) (m : Bytes) (buffer len : U64) :
    LogSends cpu (logRaw cpu m buffer len)
      ((List.range len.toNat).map fun i => m (buffer + BitVec.ofNat 64 (i % 65536))) := by
  have h := LogSends.of_writes cpu (writes_logRawLoop m buffer len.toNat 0)
  rwa [map_fst_polled, ← List.range_eq_range'] at h

/-- Two ways to index the buffer find the same bytes. -/
theorem map_range_inj {n : ℕ} {f g : ℕ → Byte} :
    (List.range n).map f = (List.range n).map g ↔ ∀ i < n, f i = g i := by
  simp only [List.map_inj_left, List.mem_range]

/-- **`LogRaw`.** For every buffer and every length: the bytes of the buffer are sent in order
exactly when each byte from number 65536 on is the same as the one its number cut to 16 bits
finds. -/
theorem logRaw_sends_iff (cpu : Cpu) (m : Bytes) (buffer len : U64) :
    LogSends cpu (logRaw cpu m buffer len)
        ((List.range len.toNat).map fun i => m (buffer + BitVec.ofNat 64 i)) ↔
      ∀ i, 65536 ≤ i → i < len.toNat →
        m (buffer + BitVec.ofNat 64 i) = m (buffer + BitVec.ofNat 64 (i % 65536)) := by
  have hsends := logRaw_sends cpu m buffer len
  constructor
  · intro h i _ hi
    exact map_range_inj.mp (h.unique hsends) i hi
  · intro h
    have hsame : (List.range len.toNat).map (fun i => m (buffer + BitVec.ofNat 64 i)) =
        (List.range len.toNat).map fun i => m (buffer + BitVec.ofNat 64 (i % 65536)) := by
      refine map_range_inj.mpr fun i hi => ?_
      by_cases hlow : i < 65536
      · rw [Nat.mod_eq_of_lt hlow]
      · exact h i (by omega) hi
    rw [hsame]
    exact hsends

/-- 65537 bytes at `0x20000`, all of them 0 but the last. The last one is not sent. -/
theorem logRaw_wraps : ¬ LogSends ⟨0, 0⟩
    (logRaw ⟨0, 0⟩ (fun a => if a = 0x30000 then 1 else 0) 0x20000 0x10001)
    ((List.range 0x10001).map fun i => if (0x20000 : U64) + BitVec.ofNat 64 i = 0x30000 then 1
      else 0) := by
  intro h
  have hlast := map_range_inj.mp (h.unique (logRaw_sends _ _ _ _)) 0x10000 (by decide)
  revert hlast
  decide

end DejOs.Log
