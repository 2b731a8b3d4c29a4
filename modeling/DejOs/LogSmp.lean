import DejOs.LockNesting
import DejOs.LogLines

/-!
# Many CPUs in the log

The calls of `LogStr`, `LogfStr` and `LogRaw` on all CPUs, interleaved at single accesses: of
`com1_lock`, as in `LockNesting`, and of the port, where a byte of `putc` is one or more reads of
the line status and a write, and a byte of `puts` only the write.

What the log is for is said by `Journal`: the texts that were called, and whole lines one after the
other. As long as no CPU calls the log inside a call of its own (from an interrupt handler, say),
the port shows a journal, up to the part of one text that is just being sent (`journal`). Every call
can still come back (`can_return`).
-/

namespace DejOs.LogSmp

open Interleaving Nesting Serial Log CString

/-! ## The calls -/

/-- The output between the two calls for the lock. -/
structure Text where
  code : Kernel Uart Unit
  writes : List (Byte × Bool)
  sound : Writes code () writes

/-- What `LogStr` puts out. -/
def Text.logStr {m : Bytes} {pm p : U64} {module s : List Byte} (hm : IsString m pm module)
    (hs : IsString m p s) : Text where
  code := do
    putc (ascii '[')
    printk m pm
    putc (ascii ']')
    putc (ascii ' ')
    printk m p
  writes := (header module).map polled ++ (printkBytes s).map polled
  sound := writes_line hm (writes_printk hs)

/-- What `LogfStr` puts out. -/
noncomputable def Text.logfStr {m : Bytes} {pm p : U64} {module f : List Byte} {args : Stream' U64}
    (hm : IsString m pm module) (hf : IsString m p f)
    (hstr : ∀ q ∈ strPointers (tokens f) args, ∃ t, IsString m q t) : Text where
  code := do
    putc (ascii '[')
    printk m pm
    putc (ascii ']')
    putc (ascii ' ')
    vlog m p args
  writes := (header module).map polled ++ tokenWrites m (tokens f) args
  sound := writes_line hm (writes_vlog hf hstr)

/-- What `LogRaw` puts out. -/
def Text.logRaw (m : Bytes) (buffer len : U64) : Text where
  code := logRawLoop m buffer len.toNat 0
  writes := ((List.range' 0 len.toNat).map fun j =>
    m (buffer + BitVec.ofNat 64 (j % 65536))).map polled
  sound := writes_logRawLoop m buffer len.toNat 0

section Bodies

variable {m : Bytes} {pm p : U64} {module s f : List Byte} {args : Stream' U64} (cpu : Cpu)

theorem locked_logStr (hm : IsString m pm module) (hs : IsString m p s) :
    locked cpu (Text.logStr hm hs).code = logStr cpu m pm p := rfl

theorem locked_logfStr (hm : IsString m pm module) (hf : IsString m p f)
    (hstr : ∀ q ∈ strPointers (tokens f) args, ∃ t, IsString m q t) :
    locked cpu (Text.logfStr hm hf hstr).code = logfStr cpu m pm p args := rfl

theorem locked_logRaw (m : Bytes) (buffer len : U64) :
    locked cpu (Text.logRaw m buffer len).code = logRaw cpu m buffer len := rfl

end Bodies

/-- A call that has not returned. -/
structure Call where
  frame : Frame
  text : Text
  /-- What is still to be written. -/
  rest : List (Byte × Bool)
  /-- `putc` has seen the bit set, and writes next. -/
  looked : Bool

/-- A call of the log. -/
def Call.start (x : Text) : Call := ⟨.check, x, x.writes, false⟩

/-! ## The accesses -/

/-- The port after a read of the line status. -/
def poll (u : Uart) : Uart :=
  { u with busy := u.busy - 1, trace := u.trace ++ [.poll (u.busy = 0)] }

/-- The port after a write of `b`. -/
def write (b : Byte) (u : Uart) : Uart := ⟨u.delays.head, u.delays.tail, u.trace ++ [.data b]⟩

theorem readStatus_eq (u : Uart) :
    readStatus u = .ok (if u.busy = 0 then 0x20 else 0) (poll u) := rfl

theorem writeData_eq (b : Byte) (u : Uart) : writeData b u = .ok () (write b u) := rfl

/-- `com1_lock`, the port, and the calls of every CPU, innermost first. -/
structure System (ι : Type) where
  lock : Lock
  uart : Uart
  calls : ι → List Call
  /-- The texts of all calls so far, in their order. -/
  called : ι → List Text

/-- A move of a CPU: a call, or the next access of its innermost call. -/
inductive Act
  | call (x : Text)
  | run

variable {ι : Type}

section Step

variable [DecidableEq ι]

/-- The state after CPU `c` changed its calls. -/
def System.set (s : System ι) (c : ι) (l : List Call) : System ι :=
  { s with calls := Function.update s.calls c l }

/-- The next access between the two calls for the lock, or the call of `release_lock`. -/
def System.output (s : System ι) (c : ι) (k : Call) (r : List Call) : System ι :=
  match k.rest with
  | [] => s.set c ({ k with frame := .untag } :: r)
  | (b, polled) :: ws =>
    if polled && !k.looked then
      { s.set c ({ k with looked := decide (s.uart.busy = 0) } :: r) with uart := poll s.uart }
    else
      { s.set c ({ k with rest := ws, looked := false } :: r) with uart := write b s.uart }

/-- The next access of the innermost call of `c`, whose number is `n`. -/
def System.step (n : CInt) (s : System ι) (c : ι) : Option (System ι) :=
  match s.calls c with
  | [] => none
  | k :: r =>
    match k.frame with
    | .check =>
      some (s.set c ({ k with frame := if s.lock.passes n then .inside else .spin } :: r))
    | .spin =>
      some { s.set c ({ k with frame := if s.lock.held then .spin else .tag } :: r) with
        lock := s.lock.exchange }
    | .tag => some { s.set c ({ k with frame := .inside } :: r) with lock := s.lock.tag n }
    | .inside => some (s.output c k r)
    | .untag => some { s.set c ({ k with frame := .unhold } :: r) with lock := s.lock.untag }
    | .unhold => some { s.set c r with lock := s.lock.unhold }

/-- One move of one CPU; `id` gives the CPUs' numbers. -/
def next (id : ι → CInt) (s : System ι) : ι × Act → Option (System ι)
  | (c, .call x) =>
    some { s.set c (.start x :: s.calls c) with
      called := Function.update s.called c (s.called c ++ [x]) }
  | (c, .run) => s.step (id c) c

end Step

/-- Nobody has called the log, the lock is free, and nothing has been sent. -/
def idle (ι : Type) (busy : ℕ) (delays : Stream' ℕ) : System ι :=
  ⟨.free, ⟨busy, delays, []⟩, fun _ => [], fun _ => []⟩

/-- The log is called only by a CPU that is not in a call of the log. -/
def NotNested (s : System ι) : ι × Act → Prop
  | (c, .call _) => s.calls c = []
  | (_, .run) => True

/-! ## The lock -/

/-- The pairs of calls for the lock that the calls of the log make. -/
def System.nesting (s : System ι) : Nesting.State ι := ⟨s.lock, fun c => (s.calls c).map Call.frame⟩

section Lock

variable {id : ι → CInt} {s s' : System ι} {c : ι} {k : Call} {r : List Call}

theorem nesting_stack (h : s.calls c = k :: r) :
    s.nesting.stack c = k.frame :: r.map Call.frame :=
  congrArg (List.map Call.frame) h

theorem open_of_mem (h : k ∈ s.calls c) (hk : k.frame.isOpen = true) : s.nesting.Open c :=
  ⟨k.frame, List.mem_map_of_mem h, hk⟩

/-- What holds of the lock and of the calls as long as no call is nested. -/
structure Good (id : ι → CInt) (s : System ι) : Prop where
  lock : Nesting.Inv id s.nesting
  held : s.lock.held = true → ∃ c, s.nesting.Open c
  single : ∀ c, (s.calls c).length ≤ 1

theorem nil_of_single (h : (s.calls c).length ≤ 1) (hs : s.calls c = k :: r) : r = [] := by
  rw [hs, List.length_cons] at h
  exact List.length_eq_zero_iff.mp (by omega)

/-- Beside a call that has the lock, every other CPU is before or behind it. -/
theorem Good.others (h : Good id s) (hs : s.calls c = [k]) (hk : k.frame.isOpen = true) {d : ι}
    (hd : d ≠ c) {k' : Call} (hk' : k' ∈ s.calls d) : k'.frame ≠ .inside := by
  intro hin
  have hc : s.nesting.Open c := open_of_mem (hs ▸ List.mem_cons_self) hk
  have hopen : s.nesting.Open d := open_of_mem hk' (by rw [hin]; rfl)
  exact hd (h.lock.excl d c hopen hc)

variable [DecidableEq ι]

theorem calls_set_self (s : System ι) (c : ι) (l : List Call) : (s.set c l).calls c = l := by
  unfold System.set
  exact Function.update_self (β := fun _ => List Call) c l s.calls

theorem calls_set_of_ne (s : System ι) {c d : ι} (l : List Call) (h : d ≠ c) :
    (s.set c l).calls d = s.calls d := by
  unfold System.set
  exact Function.update_of_ne (β := fun _ => List Call) h l s.calls

theorem nesting_set_lock (s : System ι) (c : ι) (l : List Call) (lk : Lock) :
    System.nesting { s.set c l with lock := lk } =
      { s.nesting.set c (l.map Call.frame) with lock := lk } := by
  refine congrArg (Nesting.State.mk lk) (funext fun d => ?_)
  show ((s.set c l).calls d).map Call.frame = Function.update s.nesting.stack c _ d
  rcases eq_or_ne d c with rfl | hd
  · rw [calls_set_self, Function.update_self]
  · rw [calls_set_of_ne s l hd, Function.update_of_ne hd]
    rfl

theorem nesting_set (s : System ι) (c : ι) (l : List Call) :
    (s.set c l).nesting = s.nesting.set c (l.map Call.frame) :=
  nesting_set_lock s c l s.lock

theorem set_stack_self (t : Nesting.State ι) (c : ι) : t.set c (t.stack c) = t := by
  unfold Nesting.State.set
  rw [Function.update_eq_self]

theorem nesting_output (h : s.calls c = k :: r) (hk : k.frame = .inside) :
    (s.output c k r).nesting = s.nesting ∨
      Nesting.next id s.nesting (c, .release) = some (s.output c k r).nesting := by
  have hstack := nesting_stack h
  rw [hk] at hstack
  unfold System.output
  split
  · right
    rw [next_release id hstack, nesting_set]
    rfl
  · left
    split
    · show (s.set c _).nesting = s.nesting
      rw [nesting_set, List.map_cons, hk, ← hstack, set_stack_self]
    · show (s.set c _).nesting = s.nesting
      rw [nesting_set, List.map_cons, hk, ← hstack, set_stack_self]

/-- The other accesses are those of `LockNesting`. -/
theorem nesting_step (h : s.calls c = k :: r) (hk : k.frame ≠ .inside)
    (hn : s.step (id c) c = some s') :
    Nesting.next id s.nesting (c, .run) = some s'.nesting := by
  have hstack := nesting_stack h
  unfold System.step at hn
  rw [h] at hn
  show s.nesting.step (id c) c = _
  unfold Nesting.State.step
  rw [hstack]
  cases hf : k.frame with
  | check =>
    simp only [hf] at hn
    cases hn
    rw [nesting_set]
    show (if s.lock.passes (id c) then _ else _) = _
    split_ifs <;> rfl
  | spin =>
    simp only [hf] at hn
    cases hn
    rw [nesting_set_lock]
    show (if s.lock.held = true then _ else _) = _
    split_ifs
    · rw [hf] at hstack
      rw [List.map_cons, ← hstack, set_stack_self]
      rfl
    · rfl
  | inside => exact absurd hf hk
  | tag | untag | unhold =>
    simp only [hf] at hn
    cases hn
    rw [nesting_set_lock]
    rfl

/-- **One move.** To the lock it is nothing, or a move of `LockNesting`. -/
theorem nesting_next {a : ι × Act} (hsingle : ∀ d, (s.calls d).length ≤ 1)
    (hn : next id s a = some s') :
    s'.nesting = s.nesting ∨
      ∃ m, Outermost s.nesting m ∧ Nesting.next id s.nesting m = some s'.nesting := by
  obtain ⟨c, x | _⟩ := a
  · cases hn
    exact .inr ⟨(c, .aquire), trivial, congrArg some (nesting_set s c (.start x :: s.calls c)).symm⟩
  · have hn : s.step (id c) c = some s' := hn
    cases hs : s.calls c with
    | nil =>
      unfold System.step at hn
      rw [hs] at hn
      cases hn
    | cons k r =>
      have hr : r = [] := nil_of_single (hsingle c) hs
      by_cases hk : k.frame = .inside
      · have hout : s' = s.output c k r := by
          unfold System.step at hn
          rw [hs] at hn
          simp only [hk] at hn
          exact (Option.some.inj hn).symm
        rw [hout]
        refine (nesting_output hs hk).imp_right fun h => ⟨(c, .release), ?_, h⟩
        have hstack := nesting_stack hs
        subst hr
        intro f hf
        rw [hstack] at hf
        cases hf
      · exact .inr ⟨(c, .run), trivial, nesting_step hs hk hn⟩

theorem single_set {l : List Call} (h : ∀ d, (s.calls d).length ≤ 1) (hl : l.length ≤ 1) (d : ι) :
    ((s.set c l).calls d).length ≤ 1 := by
  rcases eq_or_ne d c with rfl | hd
  · rwa [calls_set_self]
  · rw [calls_set_of_ne s l hd]
    exact h d

theorem single_next {a : ι × Act} (h : ∀ d, (s.calls d).length ≤ 1) (hok : NotNested s a)
    (hn : next id s a = some s') : ∀ d, (s'.calls d).length ≤ 1 := by
  obtain ⟨c, x | _⟩ := a
  · cases hn
    refine single_set h ?_
    have hnil : s.calls c = [] := hok
    rw [hnil]
    exact Nat.le_refl 1
  · have hn : s.step (id c) c = some s' := hn
    unfold System.step at hn
    have hc := h c
    split at hn
    · cases hn
    · rename_i k r hs
      rw [hs] at hc
      cases hf : k.frame with
      | inside =>
        simp only [hf] at hn
        cases hn
        unfold System.output
        split
        · exact single_set h hc
        · split
          · exact single_set h hc
          · exact single_set h hc
      | unhold =>
        simp only [hf] at hn
        cases hn
        exact single_set h ((Nat.le_succ _).trans hc)
      | check | spin | tag | untag =>
        simp only [hf] at hn
        cases hn
        exact single_set h hc

/-- **One move** keeps what is known of the lock. -/
theorem Good.next {a : ι × Act} (h : Good id s) (hinj : Function.Injective id)
    (hne : ∀ c, id c ≠ -1) (hok : NotNested s a) (hn : next id s a = some s') : Good id s' := by
  rcases nesting_next h.single hn with hlock | ⟨m, hout, hm⟩
  · refine ⟨hlock ▸ h.lock, fun hl => ?_, single_next h.single hok hn⟩
    have hheld : s.nesting.lock.held = true := by rw [← hlock]; exact hl
    rw [hlock]
    exact h.held hheld
  · exact ⟨h.lock.next hinj hne hout hm, held_next h.held hm, single_next h.single hok hn⟩

end Lock

/-! ## What the log is for -/

/-- The texts that were called, those that have not been put down, and the lines. -/
structure Journal (ι : Type) where
  called : ι → List Text
  waiting : ι → List Text
  lines : List (ι × Text)

namespace Journal

/-- A text is called, or the first one that waits is put down as a line. -/
inductive Act
  | call (x : Text)
  | put

/-- What the lines look like on the port. -/
def render (lines : List (ι × Text)) : List (Byte × Bool) := lines.flatMap fun l => l.2.writes

variable [DecidableEq ι]

/-- One act for one CPU. -/
def next (j : Journal ι) : ι × Act → Option (Journal ι)
  | (c, .call x) => some { j with
      called := Function.update j.called c (j.called c ++ [x])
      waiting := Function.update j.waiting c (j.waiting c ++ [x]) }
  | (c, .put) =>
    match j.waiting c with
    | [] => none
    | x :: r =>
      some { j with waiting := Function.update j.waiting c r, lines := j.lines ++ [(c, x)] }

/-- The lines of `c`. -/
def linesOf (lines : List (ι × Text)) (c : ι) : List Text :=
  (lines.filter fun l => l.1 = c).map Prod.snd

/-- Every text is a line or waits, in the order of the calls. -/
def Kept (j : Journal ι) : Prop := ∀ c, j.called c = linesOf j.lines c ++ j.waiting c

/-- Nothing has been called. -/
def empty (ι : Type) : Journal ι := ⟨fun _ => [], fun _ => [], []⟩

variable {j j' : Journal ι}

theorem kept_next {a : ι × Act} (h : j.Kept) (hn : j.next a = some j') : j'.Kept := by
  obtain ⟨c, x | _⟩ := a
  · cases hn
    intro d
    show Function.update j.called c _ d = _ ++ Function.update j.waiting c _ d
    rcases eq_or_ne d c with rfl | hd
    · rw [Function.update_self, Function.update_self, h d, List.append_assoc]
    · rw [Function.update_of_ne hd, Function.update_of_ne hd]
      exact h d
  · have hn : (match j.waiting c with
      | [] => none
      | x :: r => some { j with
          waiting := Function.update j.waiting c r, lines := j.lines ++ [(c, x)] }) = some j' := hn
    split at hn
    · cases hn
    · rename_i x r hw
      cases hn
      intro d
      show j.called d = linesOf (j.lines ++ [(c, x)]) d ++ Function.update j.waiting c r d
      unfold linesOf
      rw [List.filter_append, List.map_append, h d]
      rcases eq_or_ne d c with rfl | hd
      · rw [Function.update_self, hw]
        simp [linesOf]
      · rw [Function.update_of_ne hd]
        simp [linesOf, hd.symm]

/-- **The journal loses nothing.** -/
theorem kept_of_run (h : Run next Free (empty ι) j) : j.Kept :=
  h.invariant (fun _ => rfl) fun _ _ _ hk _ => kept_next hk

end Journal

/-! ## The port shows a journal -/

/-- `release_lock` has not been called. -/
def Call.isPending (k : Call) : Bool :=
  match k.frame with
  | .check | .spin | .tag | .inside => true
  | .untag | .unhold => false

/-- The texts of the calls that still have something to do at the port. -/
def pending (l : List Call) : List Text := (l.filter Call.isPending).map Call.text

/-- The call has not come to the port. -/
def Call.Fresh (k : Call) : Prop := k.rest = k.text.writes ∧ k.looked = false

/-- The port after the lines and a part of the text of `k`. -/
structure Amid (u : Uart) (lines : List (ι × Text)) (k : Call) : Prop where
  part : ∃ pre, noted false u.trace = Journal.render lines ++ pre ∧ pre ++ k.rest = k.text.writes
  seen : seenAfter false u.trace = k.looked
  due : k.looked = true → ∃ b ws, k.rest = (b, true) :: ws

/-- The port after the lines. -/
structure Quiet (u : Uart) (lines : List (ι × Text)) : Prop where
  whole : noted false u.trace = Journal.render lines
  seen : seenAfter false u.trace = false

/-- What the calls that have not come to the port still have to do, and what the port shows. -/
structure Shows (s : System ι) (j : Journal ι) : Prop where
  called : j.called = s.called
  waiting : j.waiting = fun c => pending (s.calls c)
  fresh : ∀ c, ∀ k ∈ s.calls c, k.isPending = true → k.frame ≠ .inside → k.Fresh
  inside : ∀ c, ∀ k ∈ s.calls c, k.frame = .inside → Amid s.uart j.lines k
  quiet : (∀ c, ∀ k ∈ s.calls c, k.frame ≠ .inside) → Quiet s.uart j.lines

section Port

variable {u : Uart} {lines : List (ι × Text)} {k : Call} {b : Byte} {ws : List (Byte × Bool)}

theorem Quiet.start (h : Quiet u lines) (hk : k.Fresh) : Amid u lines k where
  part := ⟨[], by rw [h.whole, List.append_nil], hk.1⟩
  seen := h.seen.trans hk.2.symm
  due hl := by rw [hk.2] at hl; cases hl

theorem Amid.poll (h : Amid u lines k) (hr : k.rest = (b, true) :: ws) (hl : k.looked = false) :
    Amid (poll u) lines { k with looked := decide (u.busy = 0) } := by
  obtain ⟨pre, hpre, htext⟩ := h.part
  have hseen : seenAfter false u.trace = false := h.seen.trans hl
  refine ⟨⟨pre, ?_, htext⟩, ?_, fun _ => ⟨b, ws, hr⟩⟩
  · show noted false (u.trace ++ [.poll (u.busy = 0)]) = _
    rw [noted_append, hpre]
    exact List.append_nil _
  · show seenAfter false (u.trace ++ [.poll (u.busy = 0)]) = _
    rw [seenAfter_append, hseen]
    exact Bool.false_or _

theorem Amid.write {p : Bool} (h : Amid u lines k) (hr : k.rest = (b, p) :: ws)
    (hp : (p && !k.looked) = false) :
    Amid (write b u) lines { k with rest := ws, looked := false } := by
  obtain ⟨pre, hpre, htext⟩ := h.part
  have hflag : k.looked = p := by
    cases hl : k.looked with
    | false =>
      rw [hl] at hp
      simpa using hp.symm
    | true =>
      obtain ⟨b', ws', hr'⟩ := h.due hl
      rw [hr] at hr'
      simp only [List.cons.injEq, Prod.mk.injEq] at hr'
      exact hr'.1.2.symm
  refine ⟨⟨pre ++ [(b, p)], ?_, ?_⟩, ?_, fun hl => by cases hl⟩
  · show noted false (u.trace ++ [.data b]) = _
    rw [noted_append, hpre, h.seen, hflag, List.append_assoc]
    rfl
  · rw [← htext, hr, List.append_assoc]
    rfl
  · show seenAfter false (u.trace ++ [.data b]) = false
    rw [seenAfter_append]
    rfl

/-- The text is through: one more line. -/
theorem Amid.line (h : Amid u lines k) (hr : k.rest = []) (c : ι) :
    Quiet u (lines ++ [(c, k.text)]) := by
  obtain ⟨pre, hpre, htext⟩ := h.part
  rw [hr, List.append_nil] at htext
  refine ⟨?_, ?_⟩
  · rw [hpre, htext]
    simp [Journal.render]
  · rw [h.seen]
    by_contra hl
    obtain ⟨b, ws, hr'⟩ := h.due (by simpa using hl)
    rw [hr] at hr'
    cases hr'

end Port

section Simulation

variable {id : ι → CInt} {s s' : System ι} {j j' : Journal ι} {c : ι} {k : Call} {l : List Call}

theorem pending_congr {k' : Call} (hp : k'.isPending = k.isPending) (ht : k'.text = k.text) :
    pending [k'] = pending [k] := by
  unfold pending
  rw [List.filter_singleton, List.filter_singleton, hp]
  cases k.isPending with
  | false => rfl
  | true => exact congrArg (fun x => [x]) ht

/-- Nobody is inside when a call that has just got the lock comes in. -/
theorem Shows.quiet_of_tag (h : Shows s j) (hg : Good id s) (hs : s.calls c = [k])
    (hk : k.frame = .tag) : Quiet s.uart j.lines := by
  refine h.quiet fun d k' hk' => ?_
  rcases eq_or_ne d c with rfl | hd
  · rw [hs, List.mem_singleton] at hk'
    rw [hk', hk]
    decide
  · exact hg.others hs (by rw [hk]; rfl) hd hk'

/-- A call with no other below it is not let through by its own number. -/
theorem Good.not_passes (hg : Good id s) (hs : s.calls c = [k]) (hk : k.frame = .check) :
    ¬ s.lock.passes (id c) := by
  intro hp
  obtain ⟨f, hf, hopen⟩ := hg.lock.tagged c hp
  rw [nesting_stack hs, hk, List.map_nil, List.mem_singleton] at hf
  rw [hf] at hopen
  cases hopen

theorem Shows.trace (h : Shows s j) :
    ∃ pre, noted false s.uart.trace = Journal.render j.lines ++ pre ∧
      (pre = [] ∨ ∃ c, ∃ k ∈ s.calls c, k.frame = .inside ∧ pre ++ k.rest = k.text.writes) := by
  by_cases hin : ∃ c, ∃ k ∈ s.calls c, k.frame = .inside
  · obtain ⟨c, k, hk, hf⟩ := hin
    obtain ⟨pre, hpre, htext⟩ := (h.inside c k hk hf).part
    exact ⟨pre, hpre, .inr ⟨c, k, hk, hf, htext⟩⟩
  · push Not at hin
    exact ⟨[], by rw [(h.quiet hin).whole, List.append_nil], .inl rfl⟩

/-- The two systems side by side. -/
def Related (id : ι → CInt) (s : System ι) (j : Journal ι) : Prop := Good id s ∧ Shows s j

theorem idle_related (hne : ∀ c, id c ≠ -1) (busy : ℕ) (delays : Stream' ℕ) :
    Related id (idle ι busy delays) (.empty ι) := by
  constructor
  · exact ⟨initial_inv hne, (nomatch ·), fun _ => Nat.zero_le 1⟩
  · exact ⟨rfl, rfl, fun _ _ => (nomatch ·), fun _ _ => (nomatch ·), fun _ => ⟨rfl, rfl⟩⟩

variable [DecidableEq ι]

theorem forall_set {P : ι → Call → Prop} (hc' : s'.calls = (s.set c l).calls)
    (hl : ∀ k ∈ l, P c k) (ho : ∀ d, d ≠ c → ∀ k ∈ s.calls d, P d k) (d : ι) :
    ∀ k ∈ s'.calls d, P d k := by
  rw [hc']
  rcases eq_or_ne d c with rfl | hd
  · rwa [calls_set_self]
  · rw [calls_set_of_ne s l hd]
    exact ho d hd

theorem Shows.set (h : Shows s j) (hc' : s'.calls = (s.set c l).calls)
    (hcalled : j'.called = s'.called)
    (hwaiting : j'.waiting = Function.update j.waiting c (pending l))
    (hfresh : ∀ k ∈ l, k.isPending = true → k.frame ≠ .inside → k.Fresh)
    (hothers : ∀ d, d ≠ c → ∀ k ∈ s.calls d, k.frame = .inside → Amid s'.uart j'.lines k)
    (hin : ∀ k ∈ l, k.frame = .inside → Amid s'.uart j'.lines k)
    (hquiet : (∀ k ∈ l, k.frame ≠ .inside) →
      (∀ d, d ≠ c → ∀ k ∈ s.calls d, k.frame ≠ .inside) → Quiet s'.uart j'.lines) :
    Shows s' j' where
  called := hcalled
  waiting := by
    rw [hwaiting, h.waiting, hc']
    funext d
    rcases eq_or_ne d c with rfl | hd
    · rw [Function.update_self, calls_set_self]
    · rw [Function.update_of_ne hd, calls_set_of_ne s l hd]
  fresh := forall_set hc' hfresh fun d _ => h.fresh d
  inside := forall_set hc' hin hothers
  quiet hno := by
    rw [hc'] at hno
    refine hquiet (fun k hk => ?_) fun d hd k hk => ?_
    · exact hno c k (by rwa [calls_set_self])
    · exact hno d k (by rwa [calls_set_of_ne s l hd])

/-- `c` does something that has nothing to do with the port. -/
theorem Shows.aside (h : Shows s j) (hs : s.calls c = [k]) (hk : k.frame ≠ .inside)
    (hc' : s'.calls = (s.set c l).calls) (hu : s'.uart = s.uart) (hd : s'.called = s.called)
    (hp : pending l = pending [k])
    (hl : ∀ k' ∈ l, k'.frame ≠ .inside ∧ (k'.isPending = true → k'.Fresh)) : Shows s' j := by
  refine h.set hc' (h.called.trans hd.symm) ?_ (fun k' hk' hp' _ => (hl k' hk').2 hp') ?_ ?_ ?_
  · rw [hp, h.waiting, ← hs]
    exact (Function.update_eq_self c fun c => pending (s.calls c)).symm
  · rw [hu]
    exact fun d _ => h.inside d
  · exact fun k' hk' hin => absurd hin (hl k' hk').1
  · intro _ hno
    rw [hu]
    refine h.quiet fun d k' hk' => ?_
    rcases eq_or_ne d c with rfl | hd
    · rw [hs, List.mem_singleton] at hk'
      exact hk' ▸ hk
    · exact hno d hd k' hk'

/-- `c` is or comes to the port, where it is alone. -/
theorem Shows.alone {k' : Call} (h : Shows s j) (hg : Good id s) (hs : s.calls c = [k])
    (hk : k.frame.isOpen = true) (hc' : s'.calls = (s.set c [k']).calls)
    (hcalled : j'.called = s'.called)
    (hwaiting : j'.waiting = Function.update j.waiting c (pending [k']))
    (hport : k'.frame = .inside ∧ Amid s'.uart j'.lines k' ∨
      k'.frame = .untag ∧ Quiet s'.uart j'.lines) : Shows s' j' := by
  have hothers := fun d (hd : d ≠ c) k'' (hk'' : k'' ∈ s.calls d) => hg.others hs hk hd hk''
  refine h.set hc' hcalled hwaiting ?_ ?_ ?_ ?_
  · intro k'' hk'' hp hno
    obtain rfl := List.mem_singleton.mp hk''
    rcases hport with ⟨hin, -⟩ | ⟨hun, -⟩
    · exact absurd hin hno
    · unfold Call.isPending at hp
      rw [hun] at hp
      cases hp
  · exact fun d hd k'' hk'' hin => absurd hin (hothers d hd k'' hk'')
  · intro k'' hk'' hin
    obtain rfl := List.mem_singleton.mp hk''
    rcases hport with ⟨-, ha⟩ | ⟨hun, -⟩
    · exact ha
    · rw [hun] at hin
      cases hin
  · intro hno _
    rcases hport with ⟨hin, -⟩ | ⟨-, hq⟩
    · exact absurd hin (hno k' (List.mem_singleton_self _))
    · exact hq

theorem Shows.waiting_self (h : Shows s j) (hs : s.calls c = [k]) (k' : Call)
    (hp : pending [k'] = pending [k]) :
    j.waiting = Function.update j.waiting c (pending [k']) := by
  rw [hp, h.waiting, ← hs]
  exact (Function.update_eq_self c fun c => pending (s.calls c)).symm

/-- **The output of the call inside.** -/
theorem Shows.output (h : Shows s j) (hg : Good id s) (hs : s.calls c = [k])
    (hk : k.frame = .inside) :
    ∃ j', Run Journal.next Free j j' ∧ Shows (s.output c k []) j' := by
  have hamid : Amid s.uart j.lines k := h.inside c k (hs ▸ List.mem_singleton_self k) hk
  have hopen : k.frame.isOpen = true := by rw [hk]; rfl
  unfold System.output
  split
  · -- the text is through, and `release_lock` is called
    rename_i hr
    have hput : j.waiting c = [k.text] := by
      rw [h.waiting]
      simp [pending, hs, Call.isPending, hk]
    let j' : Journal ι := ⟨j.called, Function.update j.waiting c [], j.lines ++ [(c, k.text)]⟩
    have hnext : Journal.next j (c, .put) = some j' := by
      unfold Journal.next
      simp only [hput]
      rfl
    exact ⟨j', .single trivial hnext,
      h.alone hg hs hopen rfl h.called rfl (.inr ⟨rfl, hamid.line hr c⟩)⟩
  · rename_i b p ws hr
    split
    · rename_i hp
      obtain ⟨rfl, hl⟩ : p = true ∧ k.looked = false := by simpa using hp
      refine ⟨j, .refl, h.alone hg hs hopen rfl h.called (h.waiting_self hs _ ?_)
        (.inl ⟨hk, hamid.poll hr hl⟩)⟩
      exact pending_congr rfl rfl
    · rename_i hp
      refine ⟨j, .refl, h.alone hg hs hopen rfl h.called (h.waiting_self hs _ ?_)
        (.inl ⟨hk, hamid.write hr (by simpa using hp)⟩)⟩
      exact pending_congr rfl rfl

/-- **One access of a call.** -/
theorem Shows.step (h : Shows s j) (hg : Good id s) (hs : s.calls c = [k])
    (hn : s.step (id c) c = some s') : ∃ j', Run Journal.next Free j j' ∧ Shows s' j' := by
  have hfresh : k.isPending = true → k.frame ≠ .inside → k.Fresh :=
    h.fresh c k (hs ▸ List.mem_singleton_self k)
  unfold System.step at hn
  rw [hs] at hn
  cases hf : k.frame with
  | check =>
    simp only [hf, if_neg (hg.not_passes hs hf)] at hn
    cases hn
    refine ⟨j, .refl, h.aside hs (by rw [hf]; decide) rfl rfl rfl ?_ ?_⟩
    · exact pending_congr (by simp [Call.isPending, hf]) rfl
    · intro k' hk'
      obtain rfl := List.mem_singleton.mp hk'
      exact ⟨Frame.noConfusion, fun _ =>
        hfresh (by simp [Call.isPending, hf]) (by rw [hf]; decide)⟩
  | spin =>
    simp only [hf] at hn
    cases hn
    refine ⟨j, .refl, h.aside hs (by rw [hf]; decide) rfl rfl rfl ?_ ?_⟩
    · refine pending_congr ?_ rfl
      split_ifs <;> simp [Call.isPending, hf]
    · intro k' hk'
      obtain rfl := List.mem_singleton.mp hk'
      refine ⟨?_, fun _ => hfresh (by simp [Call.isPending, hf]) (by rw [hf]; decide)⟩
      show (if s.lock.held = true then Frame.spin else .tag) ≠ .inside
      split_ifs <;> decide
  | tag =>
    simp only [hf] at hn
    cases hn
    have hstart : k.Fresh := hfresh (by simp [Call.isPending, hf]) (by rw [hf]; decide)
    have hquiet := h.quiet_of_tag hg hs hf
    refine ⟨j, .refl, h.alone hg hs (by rw [hf]; rfl) rfl h.called (h.waiting_self hs _ ?_)
      (.inl ⟨rfl, Quiet.start (k := { k with frame := .inside }) hquiet hstart⟩)⟩
    exact pending_congr (by simp [Call.isPending, hf]) rfl
  | inside =>
    simp only [hf] at hn
    cases hn
    exact h.output hg hs hf
  | untag =>
    simp only [hf] at hn
    cases hn
    refine ⟨j, .refl, h.aside hs (by rw [hf]; decide) rfl rfl rfl ?_ ?_⟩
    · exact pending_congr (by simp [Call.isPending, hf]) rfl
    · intro k' hk'
      obtain rfl := List.mem_singleton.mp hk'
      exact ⟨Frame.noConfusion, fun hp => by cases hp⟩
  | unhold =>
    simp only [hf] at hn
    cases hn
    refine ⟨j, .refl, h.aside hs (by rw [hf]; decide) rfl rfl rfl ?_ fun k' hk' => by cases hk'⟩
    simp [pending, Call.isPending, hf]

/-- A call of the log is a call of the journal. -/
theorem Shows.call (h : Shows s j) (hs : s.calls c = []) (x : Text)
    (hn : next id s (c, .call x) = some s') : ∃ j', Run Journal.next Free j j' ∧ Shows s' j' := by
  cases hn
  refine ⟨⟨_, _, j.lines⟩, .single (a := (c, .call x)) trivial rfl, ?_⟩
  refine h.set (c := c) (l := [.start x]) ?_ ?_ ?_ ?_ ?_ ?_ ?_
  · rw [← hs]
  · rw [h.called]
  · have hnone : j.waiting c = [] := by
      rw [h.waiting]
      simp only [hs]
      rfl
    simp only [hnone]
    rfl
  · intro k hk _ _
    obtain rfl := List.mem_singleton.mp hk
    exact ⟨rfl, rfl⟩
  · exact fun d _ => h.inside d
  · intro k hk hin
    obtain rfl := List.mem_singleton.mp hk
    cases hin
  · intro _ hno
    refine h.quiet fun d k hk => ?_
    rcases eq_or_ne d c with rfl | hd
    · rw [hs] at hk
      cases hk
    · exact hno d hd k hk

/-- **The log simulates its journal.** -/
theorem simulation (hinj : Function.Injective id) (hne : ∀ c, id c ≠ -1) :
    Simulation (next id) NotNested Journal.next Free (Related id) where
  step {s j a s'} := by
    rintro ⟨hg, h⟩ hok hn
    have hg' := hg.next hinj hne hok hn
    obtain ⟨c, x | _⟩ := a
    · obtain ⟨j', hrun, hj'⟩ := h.call hok x hn
      exact ⟨j', hrun, hg', hj'⟩
    · have hn : s.step (id c) c = some s' := hn
      cases hs : s.calls c with
      | nil =>
        unfold System.step at hn
        rw [hs] at hn
        cases hn
      | cons k r =>
        obtain rfl := nil_of_single (hg.single c) hs
        obtain ⟨j', hrun, hj'⟩ := h.step hg hs hn
        exact ⟨j', hrun, hg', hj'⟩

theorem related_of_run (hinj : Function.Injective id) (hne : ∀ c, id c ≠ -1) {busy : ℕ}
    {delays : Stream' ℕ} (h : Run (next id) NotNested (idle ι busy delays) s) :
    ∃ j, j.Kept ∧ Related id s j := by
  obtain ⟨j, hrun, hrel⟩ := (simulation hinj hne).run (idle_related hne busy delays) h
  exact ⟨j, Journal.kept_of_run hrun, hrel⟩

theorem Shows.called_eq (h : Shows s j) (hk : j.Kept) (c : ι) :
    s.called c = Journal.linesOf j.lines c ++ pending (s.calls c) := by
  have hc := hk c
  rwa [h.called, h.waiting] at hc

/-- When every text that is called waits for the transmitter, the port never sees a byte too
early. -/
theorem Shows.polite (h : Shows s j) (hk : j.Kept)
    (hall : ∀ c, ∀ x ∈ s.called c, ∀ w ∈ x.writes, w.2 = true) : Polite false s.uart.trace := by
  obtain ⟨pre, hpre, hpart⟩ := h.trace
  rw [polite_iff, hpre, List.forall_mem_append]
  constructor
  · intro w hw
    obtain ⟨⟨c, x⟩, hx, hw⟩ := List.mem_flatMap.mp hw
    refine hall c x ?_ w hw
    rw [h.called_eq hk c]
    refine List.mem_append_left _ (List.mem_map.mpr ⟨(c, x), ?_, rfl⟩)
    exact List.mem_filter.mpr ⟨hx, by simp⟩
  · rcases hpart with rfl | ⟨c, k, hc, hin, htext⟩
    · exact fun w hw => nomatch hw
    · intro w hw
      refine hall c k.text ?_ w (htext ▸ List.mem_append_left _ hw)
      rw [h.called_eq hk c]
      refine List.mem_append_right _ (List.mem_map.mpr ⟨k, ?_, rfl⟩)
      exact List.mem_filter.mpr ⟨hc, by simp [Call.isPending, hin]⟩

end Simulation

/-! ## Every call can come back -/

section Progress

variable {id : ι → CInt} {s s' s'' : System ι} {c : ι} {k : Call} [DecidableEq ι]

/-- Only `c` moves, and it calls nothing. -/
structure Alone (id : ι → CInt) (c : ι) (s s' : System ι) : Prop where
  run : Run (next id) NotNested s s'
  others : ∀ d, d ≠ c → s'.calls d = s.calls d
  called : s'.called = s.called

theorem Alone.refl : Alone id c s s := ⟨.refl, fun _ _ => rfl, rfl⟩

theorem Alone.trans (h : Alone id c s s') (h' : Alone id c s' s'') : Alone id c s s'' where
  run := h.run.trans h'.run
  others d hd := (h'.others d hd).trans (h.others d hd)
  called := h'.called.trans h.called

theorem Alone.step {l : List Call} (hn : s.step (id c) c = some s')
    (hc' : s'.calls = (s.set c l).calls) (hd : s'.called = s.called) :
    Alone id c s s' ∧ s'.calls c = l := by
  refine ⟨⟨.single (a := (c, .run)) trivial hn, fun d hne => ?_, hd⟩, ?_⟩
  · rw [hc', calls_set_of_ne s l hne]
  · rw [hc', calls_set_self]

theorem step_eq (hs : s.calls c = [k]) (n : CInt) : s.step n c = match k.frame with
    | .check =>
      some (s.set c [{ k with frame := if s.lock.passes n then .inside else .spin }])
    | .spin =>
      some { s.set c [{ k with frame := if s.lock.held then .spin else .tag }] with
        lock := s.lock.exchange }
    | .tag => some { s.set c [{ k with frame := .inside }] with lock := s.lock.tag n }
    | .inside => some (s.output c k [])
    | .untag => some { s.set c [{ k with frame := .unhold }] with lock := s.lock.untag }
    | .unhold => some { s.set c [] with lock := s.lock.unhold } := by
  unfold System.step
  rw [hs]

variable (id)

theorem poll_alone {b : Byte} {ws : List (Byte × Bool)} (hs : s.calls c = [k])
    (hk : k.frame = .inside) (hr : k.rest = (b, true) :: ws) (hl : k.looked = false) :
    ∃ s', Alone id c s s' ∧ s'.calls c = [{ k with looked := decide (s.uart.busy = 0) }] ∧
      s'.uart = poll s.uart := by
  have hn : s.step (id c) c = some (s.output c k []) := by rw [step_eq hs, hk]
  have hout : s.output c k [] =
      { s.set c [{ k with looked := decide (s.uart.busy = 0) }] with uart := poll s.uart } := by
    unfold System.output
    rw [hr, hl]
    rfl
  obtain ⟨halone, hcalls⟩ := Alone.step hn (by rw [hout]) (by rw [hout]; rfl)
  exact ⟨_, halone, hcalls, by rw [hout]⟩

theorem polls_alone {b : Byte} {ws : List (Byte × Bool)} (hs : s.calls c = [k])
    (hk : k.frame = .inside) (hr : k.rest = (b, true) :: ws) (hl : k.looked = false) :
    ∃ s', Alone id c s s' ∧ s'.calls c = [{ k with looked := true }] := by
  generalize hb : s.uart.busy = n
  induction n generalizing s with
  | zero =>
    obtain ⟨s', halone, hcalls, -⟩ := poll_alone id hs hk hr hl
    exact ⟨s', halone, by rw [hcalls, hb]; rfl⟩
  | succ n ih =>
    obtain ⟨s₁, halone, hcalls, hu⟩ := poll_alone id hs hk hr hl
    have hsame : { k with looked := decide (s.uart.busy = 0) } = k := by
      rw [hb, decide_eq_false (Nat.succ_ne_zero n), ← hl]
    have hbusy : s₁.uart.busy = n := by
      rw [hu]
      show s.uart.busy - 1 = n
      rw [hb, Nat.add_sub_cancel]
    obtain ⟨s', halone', hcalls'⟩ := ih (hcalls.trans (congrArg (fun k => [k]) hsame)) hbusy
    exact ⟨s', halone.trans halone', hcalls'⟩

theorem write_alone {b : Byte} {p : Bool} {ws : List (Byte × Bool)} (hs : s.calls c = [k])
    (hk : k.frame = .inside) (hr : k.rest = (b, p) :: ws) (hp : (p && !k.looked) = false) :
    ∃ s', Alone id c s s' ∧ s'.calls c = [{ k with rest := ws, looked := false }] := by
  have hn : s.step (id c) c = some (s.output c k []) := by rw [step_eq hs, hk]
  have hout : s.output c k [] =
      { s.set c [{ k with rest := ws, looked := false }] with uart := write b s.uart } := by
    unfold System.output
    rw [hr]
    simp only [hp, Bool.false_eq_true, if_false]
  obtain ⟨halone, hcalls⟩ := Alone.step hn (by rw [hout]) (by rw [hout]; rfl)
  exact ⟨_, halone, hcalls⟩

theorem output_alone {ws : List (Byte × Bool)} (hs : s.calls c = [k]) (hk : k.frame = .inside)
    (hr : k.rest = ws) : ∃ s' k', Alone id c s s' ∧ s'.calls c = [k'] ∧ k'.frame = .inside ∧
      k'.rest = [] := by
  induction ws generalizing s k with
  | nil => exact ⟨s, k, .refl, hs, hk, hr⟩
  | cons w ws ih =>
    obtain ⟨b, p⟩ := w
    cases hp : p && !k.looked with
    | false =>
      obtain ⟨s₁, halone, hcalls⟩ := write_alone id hs hk hr hp
      obtain ⟨s', k', halone', h'⟩ := ih hcalls hk rfl
      exact ⟨s', k', halone.trans halone', h'⟩
    | true =>
      obtain ⟨rfl, hl⟩ : p = true ∧ k.looked = false := by simpa using hp
      obtain ⟨s₁, halone₁, hcalls₁⟩ := polls_alone id hs hk hr hl
      obtain ⟨s₂, halone₂, hcalls₂⟩ := write_alone id hcalls₁ hk hr rfl
      obtain ⟨s', k', halone', h'⟩ := ih hcalls₂ hk rfl
      exact ⟨s', k', (halone₁.trans halone₂).trans halone', h'⟩

/-- A call that has the lock comes back, and leaves the lock free. -/
theorem finish (hs : s.calls c = [k]) (hk : k.frame.isOpen = true) :
    ∃ s', Alone id c s s' ∧ s'.calls c = [] ∧ s'.lock.held = false := by
  -- from the end to the beginning: each access comes before those that are known to get through
  have hunhold : ∀ {s : System ι} {k : Call}, s.calls c = [k] → k.frame = .unhold →
      ∃ s', Alone id c s s' ∧ s'.calls c = [] ∧ s'.lock.held = false := by
    intro s k hs hk
    have hn : s.step (id c) c = some { s.set c [] with lock := s.lock.unhold } := by
      rw [step_eq hs, hk]
    obtain ⟨halone, hcalls⟩ := Alone.step (l := []) hn rfl rfl
    exact ⟨_, halone, hcalls, rfl⟩
  have huntag : ∀ {s : System ι} {k : Call}, s.calls c = [k] → k.frame = .untag →
      ∃ s', Alone id c s s' ∧ s'.calls c = [] ∧ s'.lock.held = false := by
    intro s k hs hk
    have hn : s.step (id c) c =
        some { s.set c [{ k with frame := .unhold }] with lock := s.lock.untag } := by
      rw [step_eq hs, hk]
    obtain ⟨halone, hcalls⟩ := Alone.step (l := [{ k with frame := .unhold }]) hn rfl rfl
    obtain ⟨s', halone', h'⟩ := hunhold hcalls rfl
    exact ⟨s', halone.trans halone', h'⟩
  have hinside : ∀ {s : System ι} {k : Call}, s.calls c = [k] → k.frame = .inside →
      ∃ s', Alone id c s s' ∧ s'.calls c = [] ∧ s'.lock.held = false := by
    intro s k hs hk
    obtain ⟨s₁, k₁, halone₁, hs₁, hk₁, hr₁⟩ := output_alone id hs hk rfl
    have hn : s₁.step (id c) c = some (s₁.set c [{ k₁ with frame := .untag }]) := by
      rw [step_eq hs₁, hk₁]
      unfold System.output
      rw [hr₁]
    obtain ⟨halone₂, hcalls₂⟩ := Alone.step (l := [{ k₁ with frame := .untag }]) hn rfl rfl
    obtain ⟨s', halone', h'⟩ := huntag hcalls₂ rfl
    exact ⟨s', (halone₁.trans halone₂).trans halone', h'⟩
  cases hf : k.frame with
  | check | spin =>
    rw [hf] at hk
    cases hk
  | tag =>
    have hn : s.step (id c) c =
        some { s.set c [{ k with frame := .inside }] with lock := s.lock.tag (id c) } := by
      rw [step_eq hs, hf]
    obtain ⟨halone, hcalls⟩ := Alone.step (l := [{ k with frame := .inside }]) hn rfl rfl
    obtain ⟨s', halone', h'⟩ := hinside hcalls rfl
    exact ⟨s', halone.trans halone', h'⟩
  | inside => exact hinside hs hf
  | untag => exact huntag hs hf
  | unhold => exact hunhold hs hf

theorem take_alone (hs : s.calls c = [k]) (hk : k.frame = .spin) (hl : s.lock.held = false) :
    ∃ s' k', Alone id c s s' ∧ s'.calls c = [k'] ∧ k'.frame.isOpen = true := by
  have hn : s.step (id c) c =
      some { s.set c [{ k with frame := .tag }] with lock := s.lock.exchange } := by
    rw [step_eq hs, hk, hl]
    rfl
  obtain ⟨halone, hcalls⟩ := Alone.step (l := [{ k with frame := .tag }]) hn rfl rfl
  exact ⟨_, _, halone, hcalls, rfl⟩

/-- With the lock free, a CPU's call comes back when only that CPU runs. -/
theorem finish_of_free (hs : s.calls c = [k]) (hl : s.lock.held = false) :
    ∃ s', Alone id c s s' ∧ s'.calls c = [] := by
  have hspin : ∀ {s : System ι} {k : Call}, s.calls c = [k] → k.frame = .spin →
      s.lock.held = false → ∃ s', Alone id c s s' ∧ s'.calls c = [] := by
    intro s k hs hk hl
    obtain ⟨s₁, k₁, halone₁, hs₁, hk₁⟩ := take_alone id hs hk hl
    obtain ⟨s', halone', hcalls', -⟩ := finish id hs₁ hk₁
    exact ⟨s', halone₁.trans halone', hcalls'⟩
  cases hf : k.frame with
  | check =>
    have hn : s.step (id c) c = some (s.set c
        [{ k with frame := if s.lock.passes (id c) then .inside else .spin }]) := by
      rw [step_eq hs, hf]
    obtain ⟨s₁, hl₁, halone, hcalls⟩ : ∃ s₁, s₁.lock = s.lock ∧ Alone id c s s₁ ∧ s₁.calls c =
        [{ k with frame := if s.lock.passes (id c) then .inside else .spin }] :=
      ⟨_, rfl, Alone.step hn rfl rfl⟩
    by_cases hp : s.lock.passes (id c)
    · rw [if_pos hp] at hcalls
      obtain ⟨s', halone', hcalls', -⟩ := finish id hcalls rfl
      exact ⟨s', halone.trans halone', hcalls'⟩
    · rw [if_neg hp] at hcalls
      obtain ⟨s', halone', hcalls'⟩ := hspin hcalls rfl (hl₁ ▸ hl)
      exact ⟨s', halone.trans halone', hcalls'⟩
  | spin => exact hspin hs hf hl
  | tag | inside | untag | unhold =>
    obtain ⟨s', halone, hcalls, -⟩ := finish id hs (by rw [hf]; rfl)
    exact ⟨s', halone, hcalls⟩

variable {id}

/-- Whoever has the lock comes back first, and then `c`. -/
theorem one_returns (h : Good id s) (c : ι) : ∃ s', Run (next id) NotNested s s' ∧
    s'.calls c = [] ∧ (∀ d, s.calls d = [] → s'.calls d = []) ∧ s'.called = s.called := by
  have hone : ∀ d, s.calls d = [] ∨ ∃ k, s.calls d = [k] := by
    intro d
    cases hs : s.calls d with
    | nil => exact .inl rfl
    | cons k r => exact .inr ⟨k, by rw [nil_of_single (h.single d) hs]⟩
  have hkeep : ∀ {e : ι} {s s' : System ι}, Alone id e s s' → s'.calls e = [] →
      ∀ d, s.calls d = [] → s'.calls d = [] := by
    intro e s s' halone hnil d hd
    rcases eq_or_ne d e with rfl | hne
    · exact hnil
    · rw [halone.others d hne]
      exact hd
  -- the lock is given back
  obtain ⟨s₁, hrun₁, hcalls₁, hkept₁, hcalled₁, hfree₁⟩ : ∃ s₁, Run (next id) NotNested s s₁ ∧
      (s₁.calls c = [] ∨ ∃ k, s₁.calls c = [k]) ∧ (∀ d, s.calls d = [] → s₁.calls d = []) ∧
      s₁.called = s.called ∧ s₁.lock.held = false := by
    cases hl : s.lock.held with
    | false => exact ⟨s, .refl, hone c, fun _ hd => hd, rfl, hl⟩
    | true =>
      obtain ⟨d, f, hf, hopen⟩ := h.held hl
      obtain ⟨k, hk, rfl⟩ := List.mem_map.mp hf
      rcases hone d with hs | ⟨k', hs⟩
      · rw [hs] at hk
        cases hk
      · obtain rfl : k = k' := by rwa [hs, List.mem_singleton] at hk
        obtain ⟨s₁, halone, hnil, hfree⟩ := finish id hs hopen
        refine ⟨s₁, halone.run, ?_, hkeep halone hnil, halone.called, hfree⟩
        rcases eq_or_ne c d with rfl | hne
        · exact .inl hnil
        · rw [halone.others c hne]
          exact hone c
  rcases hcalls₁ with hs | ⟨k, hs⟩
  · exact ⟨s₁, hrun₁, hs, hkept₁, hcalled₁⟩
  · obtain ⟨s', halone, hnil⟩ := finish_of_free id hs hfree₁
    exact ⟨s', hrun₁.trans halone.run, hnil, fun d hd => hkeep halone hnil d (hkept₁ d hd),
      halone.called.trans hcalled₁⟩

end Progress

theorem render_unit (lines : List (Unit × Text)) :
    Journal.render lines = (Journal.linesOf lines ()).flatMap Text.writes := by
  have hall : lines.filter (fun l => l.1 = ()) = lines :=
    List.filter_eq_self.mpr fun _ _ => by simp
  unfold Journal.render Journal.linesOf
  rw [hall, List.flatMap_map]

/-- The accesses of one CPU that runs alone put out what the call does. -/
theorem call_alone {cpu : Cpu} (hne : cpu.current ≠ -1) (x : Text) (busy : ℕ)
    (delays : Stream' ℕ) : ∃ s c', Run (next fun _ => cpu.current) NotNested
        (idle Unit busy delays) s ∧ s.called () = [x] ∧ s.calls () = [] ∧
      locked cpu x.code ⟨.free, busy, delays, []⟩ = .ok () c' ∧
      noted false c'.uart.trace = noted false s.uart.trace := by
  have hinj : Function.Injective fun _ : Unit => cpu.current := fun _ _ _ => rfl
  have hnes : ∀ _ : Unit, cpu.current ≠ -1 := fun _ => hne
  obtain ⟨s₁, hrun₁, hcalled₁⟩ : ∃ s₁, Run (next fun _ => cpu.current) NotNested
      (idle Unit busy delays) s₁ ∧ s₁.called () = [x] :=
    ⟨_, .single (a := ((), .call x)) rfl rfl, rfl⟩
  obtain ⟨j₁, -, hgood₁, -⟩ := related_of_run hinj hnes hrun₁
  obtain ⟨s, hrun, hnil, -, hcalled⟩ := one_returns hgood₁ ()
  obtain ⟨j, hkept, -, hshows⟩ := related_of_run hinj hnes (hrun₁.trans hrun)
  obtain ⟨c', t, hcall, ht, hwrites⟩ : ∃ c' t, locked cpu x.code ⟨.free, busy, delays, []⟩ =
      .ok () c' ∧ c'.uart.trace = [] ++ t ∧ noted false t = x.writes :=
    locked_writes x.sound (Or.inl rfl)
  have hx : s.called () = [x] := by rw [hcalled, hcalled₁]
  have hlines : Journal.linesOf j.lines () = [x] := by
    have h := hshows.called_eq hkept ()
    rw [hx, hnil] at h
    exact (h.trans (List.append_nil _)).symm
  have hquiet : Quiet s.uart j.lines := by
    refine hshows.quiet fun c k hk => ?_
    rw [hnil] at hk
    cases hk
  refine ⟨s, c', hrun₁.trans hrun, hx, hnil, hcall, ?_⟩
  have htrace : c'.uart.trace = t := ht
  rw [htrace, hwrites, hquiet.whole, render_unit, hlines]
  exact (List.append_nil _).symm

/-! ## Any order of the accesses -/

instance [DecidableEq ι] (s : System ι) (a : ι × Act) : Decidable (NotNested s a) :=
  match a with
  | (c, .call _) => decidable_of_iff ((s.calls c).isEmpty = true) List.isEmpty_iff
  | (_, .run) => .isTrue trivial

/-- **The log on many CPUs.** CPUs with distinct numbers, none of them `-1`, call the log, none of
them inside a call of its own, and their accesses are interleaved in any way. Then the port shows
whole texts one after the other and at most a part of one more, of the call that is inside; of each
CPU the texts are those it called, in the order of its calls and each of them once, but for the one
that is not through. When all texts wait for the transmitter, no byte comes too early. -/
theorem journal [DecidableEq ι] {id : ι → CInt} {busy : ℕ} {delays : Stream' ℕ} {s : System ι}
    (hinj : Function.Injective id) (hne : ∀ c, id c ≠ -1)
    (hrun : Run (next id) NotNested (idle ι busy delays) s) :
    (∃ (lines : List (ι × Text)) (pre : List (Byte × Bool)),
      noted false s.uart.trace = (lines.flatMap fun l => l.2.writes) ++ pre ∧
      (pre = [] ∨ ∃ c, ∃ k ∈ s.calls c, k.frame = .inside ∧ pre ++ k.rest = k.text.writes) ∧
      ∀ c, s.called c = ((lines.filter fun l => l.1 = c).map Prod.snd) ++ pending (s.calls c) ∧
        (s.calls c).length ≤ 1) ∧
    ((∀ c, ∀ x ∈ s.called c, ∀ w ∈ x.writes, w.2 = true) → Polite false s.uart.trace) := by
  obtain ⟨j, hkept, hgood, hshows⟩ := related_of_run hinj hne hrun
  obtain ⟨pre, hpre, hpart⟩ := hshows.trace
  refine ⟨⟨j.lines, pre, hpre, hpart, fun c => ⟨hshows.called_eq hkept c, hgood.single c⟩⟩, ?_⟩
  exact hshows.polite hkept

/-- The byte `'k'` and the one behind it, and the byte `'a'`. -/
def someText : Text := .logRaw someStrings 0x1000 2

def otherText : Text := .logRaw someStrings 0x1006 1

/-- CPU 0 has sent its first byte when CPU 1 comes. -/
theorem journal_two : ∃ s, exec (next ids) NotNested (idle (Fin 2) 1 fun _ => 0)
      ((0, .call someText) :: List.replicate 6 (0, .run) ++
        (1, .call otherText) :: List.replicate 3 (1, .run)) = some s ∧
    dataOf s.uart.trace = [ascii 'k'] ∧ Polite false s.uart.trace := by
  refine ⟨_, rfl, by decide, ?_⟩
  have hrun : Run (next ids) NotNested (idle (Fin 2) 1 fun _ => 0) _ :=
    Run.of_exec (l := (0, .call someText) :: List.replicate 6 (0, .run) ++
      (1, .call otherText) :: List.replicate 3 (1, .run)) .refl rfl
  refine (journal (by decide) (by decide) hrun).2 ?_
  intro c x hx
  fin_cases c
  · obtain rfl := List.mem_singleton.mp hx
    exact snd_polled _
  · obtain rfl := List.mem_singleton.mp hx
    exact snd_polled _

/-- A handler that logs while its CPU is inside is let through, and its text lands in the middle of
the other one. -/
theorem journal_nested : ¬ ∀ s : System Unit,
    Run (next fun _ => 0) Free (idle Unit 0 fun _ => 0) s → s.calls () = [] →
      dataOf s.uart.trace = ((s.called ()).flatMap fun x => x.writes).map Prod.fst := by
  intro h
  have hrun : Run (next fun _ => 0) Free (idle Unit 0 fun _ => 0) _ :=
    Run.of_exec (l := ((), .call someText) :: List.replicate 5 ((), .run) ++
      ((), .call otherText) :: List.replicate 11 ((), .run)) .refl rfl
  exact absurd (h _ hrun rfl) (by decide)

/-- **No call is lost.** In every such state the calls of any number of CPUs can all come back,
without a further call. -/
theorem can_return [DecidableEq ι] {id : ι → CInt} {busy : ℕ} {delays : Stream' ℕ} {s : System ι}
    (hinj : Function.Injective id) (hne : ∀ c, id c ≠ -1)
    (hrun : Run (next id) NotNested (idle ι busy delays) s) (cs : List ι) :
    ∃ s', Run (next id) NotNested s s' ∧ (∀ c ∈ cs, s'.calls c = []) ∧ s'.called = s.called := by
  induction cs with
  | nil => exact ⟨s, .refl, fun _ => (nomatch ·), rfl⟩
  | cons c cs ih =>
    obtain ⟨s₁, hrun₁, hnil₁, hcalled₁⟩ := ih
    obtain ⟨j, -, hgood, -⟩ := related_of_run hinj hne (hrun.trans hrun₁)
    obtain ⟨s', hrun', hnil', hkept, hcalled'⟩ := one_returns hgood c
    refine ⟨s', hrun₁.trans hrun', List.forall_mem_cons.mpr ⟨hnil', fun d hd => ?_⟩,
      hcalled'.trans hcalled₁⟩
    exact hkept d (hnil₁ d hd)

theorem can_return_two : ∃ s s', exec (next ids) NotNested (idle (Fin 2) 1 fun _ => 0)
      ((0, .call someText) :: List.replicate 3 (0, .run) ++
        (1, .call otherText) :: List.replicate 3 (1, .run)) = some s ∧
    Run (next ids) NotNested s s' ∧ s'.calls 0 = [] ∧ s'.calls 1 = [] := by
  have hrun : Run (next ids) NotNested (idle (Fin 2) 1 fun _ => 0) _ :=
    Run.of_exec (l := (0, .call someText) :: List.replicate 3 (0, .run) ++
      (1, .call otherText) :: List.replicate 3 (1, .run)) .refl rfl
  obtain ⟨s', hrun', hnil, -⟩ := can_return (by decide) (by decide) hrun [0, 1]
  refine ⟨_, s', rfl, hrun', hnil 0 (by simp), hnil 1 (by simp)⟩

end DejOs.LogSmp
