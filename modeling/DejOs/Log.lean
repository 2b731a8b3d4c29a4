import Mathlib.Data.Nat.Digits.Lemmas
import DejOs.Serial

/-!
# `vlog`

The formatter of `log.c`: `printf_unsigned`, `printf_signed` and the state machine `vlog`. The
variable arguments are the stream of the 8-byte words they are passed in, those behind the last
argument included; `va_arg` takes one of them, for an `int` its low half.

`scan` cuts a format string, well-formed or not, into its literals and directives. `vlog` handles
these one after the other (`writes_vlogChars`): what it writes for a directive depends on the
directive and its argument and on nothing before.
-/

namespace DejOs.Log

open CString Serial

/-! ## The code -/

/-- A character as a byte. -/
def ascii (c : Char) : Byte := BitVec.ofNat 8 c.toNat

/-- `g_HexChars` -/
def hexChars : List Byte :=
  ['0', '1', '2', '3', '4', '5', '6', '7', '8', '9', 'a', 'b', 'c', 'd', 'e', 'f'].map ascii

/-- The `do` loop of `printf_unsigned`, for at most `n` rounds, with `buffer[0..pos)`. -/
def digitLoop (radix : U64) : ℕ → U64 → List Byte → List Byte
  | 0, _, buffer => buffer
  | n + 1, number, buffer =>
    let rem := number % radix
    let number := number / radix
    let buffer := buffer ++ [hexChars.getD rem.toNat 0]
    if 0 < number then digitLoop radix n number buffer else buffer

/-- `printf_unsigned`; the number gets smaller in every round but the last. -/
def printfUnsigned (number radix : U64) : Kernel Uart Unit :=
  (digitLoop radix (number.toNat + 1) number []).reverse.forM putc

/-- `printf_signed` -/
def printfSigned (number radix : U64) : Kernel Uart Unit :=
  if number.slt 0 then do
    putc (ascii '-')
    printfUnsigned (-number) radix
  else printfUnsigned number radix

/-- `LOGF_STATE_…` -/
inductive State
  | normal
  | length
  | lengthShort
  | lengthLong
  | spec
  deriving DecidableEq, Repr

/-- `LOGF_LENGTH_…` -/
inductive Length
  | default
  | shortShort
  | short
  | long
  | longLong
  deriving DecidableEq, Repr

/-- The variables of `vlog`. -/
structure Vlog where
  state : State
  length : Length
  radix : U64
  sign : Bool
  number : Bool
  args : Stream' U64

/-- The variables at the beginning, and after every directive. -/
def Vlog.start (args : Stream' U64) : Vlog := ⟨.normal, .default, 10, false, false, args⟩

/-- The cases of the `switch` at `PRINTF_STATE_SPEC_`. -/
inductive Conv
  | char
  | str
  | percent
  | num (radix : ℕ) (sign : Bool)
  | invalid
  deriving DecidableEq, Repr

/-- The labels of the cases. -/
def convOf (c : Byte) : Conv :=
  if c = ascii 'c' then .char
  else if c = ascii 's' then .str
  else if c = ascii '%' then .percent
  else if c = ascii 'd' ∨ c = ascii 'i' then .num 10 true
  else if c = ascii 'u' then .num 10 false
  else if c = ascii 'X' ∨ c = ascii 'x' ∨ c = ascii 'p' then .num 16 false
  else if c = ascii 'o' then .num 8 false
  else .invalid

/-- The `switch` at `PRINTF_STATE_SPEC_`. -/
def specSwitch (m : Bytes) (c : Byte) (v : Vlog) : Kernel Uart Vlog :=
  match convOf c with
  | .char => do
    putc ((v.args.head.setWidth 32).setWidth 8)
    return { v with args := v.args.tail }
  | .str => do
    puts m v.args.head
    return { v with args := v.args.tail }
  | .percent => do
    putc (ascii '%')
    return v
  | .num radix sign =>
    return { v with radix := BitVec.ofNat 64 radix, sign := sign, number := true }
  | .invalid => return v

/-- The `if (number)` behind it. -/
def printNumber (v : Vlog) : Kernel Uart Vlog :=
  if v.number then do
    if v.sign then
      match v.length with
      | .shortShort | .short | .default =>
        printfSigned ((v.args.head.setWidth 32).signExtend 64) v.radix
      | .long | .longLong => printfSigned v.args.head v.radix
    else
      match v.length with
      | .shortShort | .short | .default =>
        printfUnsigned ((v.args.head.setWidth 32).setWidth 64) v.radix
      | .long | .longLong => printfUnsigned v.args.head v.radix
    return { v with args := v.args.tail }
  else return v

/-- The case `LOGF_STATE_SPEC`, with the reset at its end. -/
def vlogSpec (m : Bytes) (c : Byte) (v : Vlog) : Kernel Uart Vlog := do
  let v ← specSwitch m c v
  let v ← printNumber v
  return .start v.args

/-- The body of the loop of `vlog`. -/
def vlogChar (m : Bytes) (v : Vlog) (c : Byte) : Kernel Uart Vlog :=
  match v.state with
  | .normal =>
    if c = ascii '%' then return { v with state := .length }
    else do
      putc c
      return v
  | .length =>
    if c = ascii 'h' then return { v with length := .short, state := .lengthShort }
    else if c = ascii 'l' then return { v with length := .long, state := .lengthLong }
    else vlogSpec m c v
  | .lengthShort =>
    if c = ascii 'h' then return { v with length := .shortShort, state := .spec }
    else vlogSpec m c v
  | .lengthLong =>
    if c = ascii 'l' then return { v with length := .longLong, state := .spec }
    else vlogSpec m c v
  | .spec => vlogSpec m c v

/-- The loop of `vlog`, for at most `n` characters. -/
def vlogLoop (m : Bytes) : ℕ → U64 → Vlog → Kernel Uart Vlog
  | 0, _, _ => throw .spin
  | n + 1, fmt, v => if m fmt = 0 then return v else do
    let v ← vlogChar m v (m fmt)
    vlogLoop m n (fmt + 1) v

/-- `vlog`; a string has less than `2 ^ 64` characters. -/
def vlog (m : Bytes) (fmt : U64) (args : Stream' U64) : Kernel Uart Unit := do
  let _ ← vlogLoop m (2 ^ 64) fmt (.start args)
  return

/-! ## Numerals -/

/-- A digit: `0` to `9`, and then the lower-case letters from `a` on. -/
def digitChar (d : ℕ) : Byte :=
  if d < 10 then BitVec.ofNat 8 (0x30 + d) else BitVec.ofNat 8 (0x61 + (d - 10))

/-- The numeral of a number: no leading zeros, lower-case letters. -/
def numeral (b n : ℕ) : List Byte :=
  if n = 0 then [digitChar 0] else ((Nat.digits b n).map digitChar).reverse

/-- The numeral of an integer. -/
def intNumeral (b : ℕ) (z : ℤ) : List Byte :=
  if z < 0 then ascii '-' :: numeral b z.natAbs else numeral b z.natAbs

section Numerals

variable {radix : U64}

theorem hexChars_getD {d : ℕ} (hd : d < 16) : hexChars.getD d 0 = digitChar d := by
  have h : ∀ d : Fin 16, hexChars.getD d.val 0 = digitChar d.val := by decide
  exact h ⟨d, hd⟩

/-- The digits come out with the last one first. -/
theorem digitLoop_eq (hr : 1 < radix.toNat) (hr16 : radix.toNat ≤ 16) {n : ℕ} (number : U64)
    (hn : number.toNat < n) (buffer : List Byte) :
    digitLoop radix n number buffer = buffer ++ (numeral radix.toNat number.toNat).reverse := by
  induction n generalizing number buffer with
  | zero => exact absurd hn (Nat.not_lt_zero _)
  | succ n ih =>
    have hdiv : (number / radix).toNat = number.toNat / radix.toNat := BitVec.toNat_udiv
    have hmod : (number % radix).toNat = number.toNat % radix.toNat := BitVec.toNat_umod
    have hpos : 0 < number / radix ↔ number.toNat / radix.toNat ≠ 0 := by
      rw [BitVec.lt_def, hdiv]
      exact Nat.pos_iff_ne_zero
    have hdigit : number.toNat % radix.toNat < 16 :=
      (Nat.mod_lt _ (Nat.lt_of_succ_lt hr)).trans_le hr16
    unfold digitLoop
    dsimp only
    rw [hmod, hexChars_getD hdigit]
    by_cases hzero : number.toNat = 0
    · rw [if_neg (by rw [hpos, hzero, Nat.zero_div]; exact fun h => h rfl), hzero, Nat.zero_mod]
      rfl
    · have hdigits := Nat.digits_def' hr (Nat.pos_of_ne_zero hzero)
      unfold numeral
      rw [if_neg hzero, List.reverse_reverse, hdigits, List.map_cons]
      by_cases hmore : number.toNat / radix.toNat = 0
      · rw [if_neg (by rw [hpos]; exact fun h => h hmore), hmore, Nat.digits_zero]
        rfl
      · have hlt := Nat.div_lt_self (Nat.pos_of_ne_zero hzero) hr
        rw [if_pos (hpos.mpr hmore), ih _ (by rw [hdiv]; omega), hdiv]
        unfold numeral
        rw [if_neg hmore, List.reverse_reverse, List.append_assoc]
        rfl

/-- `buffer` has 32 places, and 22 of them are enough. -/
theorem length_digitLoop (hr : 8 ≤ radix.toNat) (hr16 : radix.toNat ≤ 16) (number : U64) :
    (digitLoop radix (number.toNat + 1) number []).length ≤ 22 := by
  rw [digitLoop_eq (by omega) hr16 number (Nat.lt_succ_self _), List.nil_append,
    List.length_reverse]
  unfold numeral
  split
  · exact Nat.le_of_lt_succ (by decide)
  · rw [List.length_reverse, List.length_map, Nat.digits_length_le_iff (by omega)]
    calc number.toNat < 2 ^ 64 := number.isLt
      _ ≤ 8 ^ 22 := by norm_num
      _ ≤ radix.toNat ^ 22 := Nat.pow_le_pow_left hr 22

theorem writes_printfUnsigned (hr : 1 < radix.toNat) (hr16 : radix.toNat ≤ 16) (number : U64) :
    Writes (printfUnsigned number radix) ()
      ((numeral radix.toNat number.toNat).map fun c => (c, true)) := by
  unfold printfUnsigned
  rw [digitLoop_eq hr hr16 number (Nat.lt_succ_self _), List.nil_append, List.reverse_reverse]
  exact writes_forM_putc _

/-- The negation wraps to the absolute value, also for the smallest number. -/
theorem natAbs_toInt {number : U64} (h : number.toInt < 0) :
    (-number).toNat = number.toInt.natAbs := by
  have hlt := number.isLt
  rw [BitVec.toInt_eq_toNat_cond] at h ⊢
  rw [BitVec.toNat_neg]
  split_ifs at h ⊢ with hhalf
  · omega
  · omega

theorem writes_printfSigned (hr : 1 < radix.toNat) (hr16 : radix.toNat ≤ 16) (number : U64) :
    Writes (printfSigned number radix) ()
      ((intNumeral radix.toNat number.toInt).map fun c => (c, true)) := by
  have hslt : number.slt 0 = true ↔ number.toInt < 0 := by
    rw [BitVec.slt_iff_toInt_lt]
    rfl
  unfold printfSigned intNumeral
  by_cases hneg : number.toInt < 0
  · rw [if_pos (hslt.mpr hneg), if_pos hneg, ← natAbs_toInt hneg]
    exact (writes_putc _).bind (writes_printfUnsigned hr hr16 _)
  · have habs : number.toInt.natAbs = number.toNat := by
      have hlt := number.isLt
      rw [BitVec.toInt_eq_toNat_cond] at hneg ⊢
      split_ifs at hneg ⊢ with hhalf
      · omega
      · omega
    rw [if_neg (fun h => hneg (hslt.mp h)), if_neg hneg, habs]
    exact writes_printfUnsigned hr hr16 number

end Numerals

/-! ## Directives -/

/-- A literal character or a directive of a format string. -/
inductive Token
  | lit (c : Byte)
  | spec (length : Length) (c : Byte)
  deriving DecidableEq, Repr

/-- The literals and directives of a string, from a state of the formatter on. What comes behind a
`%` that is not finished is none of them. -/
def scan : State → Length → List Byte → List Token
  | _, _, [] => []
  | .normal, l, c :: f => if c = ascii '%' then scan .length l f else .lit c :: scan .normal l f
  | .length, l, c :: f =>
    if c = ascii 'h' then scan .lengthShort .short f
    else if c = ascii 'l' then scan .lengthLong .long f
    else .spec l c :: scan .normal .default f
  | .lengthShort, l, c :: f =>
    if c = ascii 'h' then scan .spec .shortShort f else .spec l c :: scan .normal .default f
  | .lengthLong, l, c :: f =>
    if c = ascii 'l' then scan .spec .longLong f else .spec l c :: scan .normal .default f
  | .spec, l, c :: f => .spec l c :: scan .normal .default f

theorem scan_nil (s : State) (l : Length) : scan s l [] = [] := by cases s <;> rfl

/-- The argument of a signed conversion. -/
def Length.toInt (w : U64) : Length → ℤ
  | .default | .short | .shortShort => (w.setWidth 32).toInt
  | .long | .longLong => w.toInt

/-- The argument of an unsigned conversion. -/
def Length.toNat (w : U64) : Length → ℕ
  | .default | .short | .shortShort => (w.setWidth 32).toNat
  | .long | .longLong => w.toNat

/-- Whether a directive takes an argument. -/
def Conv.takes : Conv → Bool
  | .char | .str | .num _ _ => true
  | .percent | .invalid => false

/-- What is written for a directive, when the next argument is `w`. -/
noncomputable def Conv.writes (m : Bytes) (l : Length) (w : U64) : Conv → List (Byte × Bool)
  | .char => [((w.setWidth 32).setWidth 8, true)]
  | .str => (stringAt m w).map fun c => (c, false)
  | .percent => [(ascii '%', true)]
  | .num radix true => (intNumeral radix (l.toInt w)).map fun c => (c, true)
  | .num radix false => (numeral radix (l.toNat w)).map fun c => (c, true)
  | .invalid => []

namespace Token

/-- The pointer of a `%s`. -/
def strPointer (w : U64) : Token → Option U64
  | .lit _ => none
  | .spec _ c => if convOf c = .str then some w else none

/-- Whether an argument is taken. -/
def takes : Token → Bool
  | .lit _ => false
  | .spec _ c => (convOf c).takes

/-- What is written for a token, when the next argument is `w`. -/
noncomputable def writes (m : Bytes) (w : U64) : Token → List (Byte × Bool)
  | .lit c => [(c, true)]
  | .spec l c => (convOf c).writes m l w

/-- The arguments left over. -/
def rest (t : Token) (args : Stream' U64) : Stream' U64 := if t.takes then args.tail else args

end Token

/-- What is written for the tokens. -/
noncomputable def tokenWrites (m : Bytes) : List Token → Stream' U64 → List (Byte × Bool)
  | [], _ => []
  | t :: ts, args => t.writes m args.head ++ tokenWrites m ts (t.rest args)

/-- The pointers of the `%s` of a format string. -/
def strPointers : List Token → Stream' U64 → List U64
  | [], _ => []
  | t :: ts, args => (t.strPointer args.head).toList ++ strPointers ts (t.rest args)

/-! ## What `vlog` writes -/

section Writes

variable {m : Bytes} {args : Stream' U64}

theorem convOf_radix {c : Byte} {radix : ℕ} {sign : Bool} (h : convOf c = .num radix sign) :
    1 < (BitVec.ofNat 64 radix).toNat ∧ (BitVec.ofNat 64 radix).toNat ≤ 16 ∧
      (BitVec.ofNat 64 radix).toNat = radix := by
  unfold convOf at h
  split_ifs at h <;> obtain ⟨rfl, -⟩ := Conv.num.inj h <;> exact ⟨by decide, by decide, rfl⟩

theorem writes_printNumber (args : Stream' U64) (s : State) (l : Length) {radix : U64}
    (hr : 1 < radix.toNat) (hr16 : radix.toNat ≤ 16) (sign : Bool) :
    Writes (printNumber ⟨s, l, radix, sign, true, args⟩) ⟨s, l, radix, sign, true, args.tail⟩
      ((if sign then intNumeral radix.toNat (l.toInt args.head)
        else numeral radix.toNat (l.toNat args.head)).map fun c => (c, true)) := by
  have hlow : ((args.head.setWidth 32).signExtend 64).toInt = (args.head.setWidth 32).toInt :=
    BitVec.toInt_signExtend_of_le (by decide)
  have hzero : ((args.head.setWidth 32).setWidth 64).toNat = (args.head.setWidth 32).toNat :=
    BitVec.toNat_setWidth_of_le (by decide)
  have hsigned := writes_printfSigned hr hr16 ((args.head.setWidth 32).signExtend 64)
  have hunsigned := writes_printfUnsigned hr hr16 ((args.head.setWidth 32).setWidth 64)
  rw [hlow] at hsigned
  rw [hzero] at hunsigned
  cases sign with
  | true =>
    cases l with
    | default | short | shortShort => exact hsigned.map fun _ => _
    | long | longLong => exact (writes_printfSigned hr hr16 args.head).map fun _ => _
  | false =>
    cases l with
    | default | short | shortShort => exact hunsigned.map fun _ => _
    | long | longLong => exact (writes_printfUnsigned hr hr16 args.head).map fun _ => _

/-- A directive that is not a number is done with the `switch`. -/
theorem writes_vlogSpec_of_switch {c : Byte} {v : Vlog} (v' : Vlog) {ws : List (Byte × Bool)}
    (h : Writes (specSwitch m c v) v' ws) (hv : v'.number = false) :
    Writes (vlogSpec m c v) (.start v'.args) ws := by
  have hprint : printNumber v' = pure v' := by
    unfold printNumber
    rw [hv]
    rfl
  have hrest : Writes (printNumber v' >>= fun v => pure (Vlog.start v.args))
      (.start v'.args) [] := by
    rw [hprint]
    exact (Writes.pure v').map fun v => Vlog.start v.args
  have hall := h.bind (f := fun v => printNumber v >>= fun v => pure (Vlog.start v.args)) hrest
  rwa [List.append_nil] at hall

theorem writes_vlogSpec (s : State) (l : Length) (c : Byte)
    (hstr : convOf c = .str → ∃ t, IsString m args.head t) :
    Writes (vlogSpec m c ⟨s, l, 10, false, false, args⟩) (.start ((Token.spec l c).rest args))
      ((Token.spec l c).writes m args.head) := by
  show Writes _ (Vlog.start (if (convOf c).takes then args.tail else args))
    ((convOf c).writes m l _)
  cases hc : convOf c with
  | char =>
    refine writes_vlogSpec_of_switch ⟨s, l, 10, false, false, args.tail⟩ ?_ rfl
    unfold specSwitch
    rw [hc]
    exact (writes_putc _).map fun _ => _
  | str =>
    obtain ⟨t, ht⟩ := hstr hc
    unfold Conv.writes
    rw [ht.stringAt_eq]
    refine writes_vlogSpec_of_switch ⟨s, l, 10, false, false, args.tail⟩ ?_ rfl
    unfold specSwitch
    rw [hc]
    exact (writes_puts ht).map fun _ => _
  | percent =>
    refine writes_vlogSpec_of_switch ⟨s, l, 10, false, false, args⟩ ?_ rfl
    unfold specSwitch
    rw [hc]
    exact (writes_putc _).map fun _ => _
  | num radix sign =>
    obtain ⟨hr, hr16, hradix⟩ := convOf_radix hc
    have h := (writes_printNumber args s l hr hr16 sign).map fun v => Vlog.start v.args
    rw [hradix] at h
    have hspec : vlogSpec m c ⟨s, l, 10, false, false, args⟩ = (do
        let v ← printNumber ⟨s, l, BitVec.ofNat 64 radix, sign, true, args⟩
        return .start v.args) := by
      unfold vlogSpec specSwitch
      rw [hc]
      rfl
    rw [hspec]
    cases sign with
    | true => exact h
    | false => exact h
  | invalid =>
    refine writes_vlogSpec_of_switch ⟨s, l, 10, false, false, args⟩ ?_ rfl
    unfold specSwitch
    rw [hc]
    exact Writes.pure _

/-- The characters of a format string one after the other. -/
def vlogChars (m : Bytes) (f : List Byte) (v : Vlog) : Kernel Uart Vlog := f.foldlM (vlogChar m) v

theorem vlogLoop_eq {fmt : U64} {f : List Byte} (h : IsString m fmt f) {n : ℕ} (hn : f.length < n)
    (v : Vlog) : vlogLoop m n fmt v = vlogChars m f v := by
  induction f generalizing fmt n v with
  | nil =>
    obtain ⟨n, rfl⟩ := Nat.exists_eq_succ_of_ne_zero (Nat.ne_zero_of_lt hn)
    have hend : m fmt = 0 := h
    unfold vlogLoop
    rw [if_pos hend]
    rfl
  | cons c f ih =>
    obtain ⟨n, rfl⟩ := Nat.exists_eq_succ_of_ne_zero (Nat.ne_zero_of_lt hn)
    obtain ⟨rfl, hc, hf⟩ := h
    unfold vlogLoop vlogChars
    rw [if_neg hc, List.foldlM_cons]
    exact congrArg _ (funext fun v' => ih hf (Nat.lt_of_succ_lt_succ hn) v')

theorem writes_spec_append {s : State} {l : Length} {c : Byte} {f : List Byte}
    (hchar : vlogChar m ⟨s, l, 10, false, false, args⟩ c =
      vlogSpec m c ⟨s, l, 10, false, false, args⟩)
    (hstr : ∀ p ∈ strPointers (.spec l c :: scan .normal .default f) args, ∃ t, IsString m p t)
    (ih : ∀ args : Stream' U64,
      (∀ p ∈ strPointers (scan .normal .default f) args, ∃ t, IsString m p t) →
      ∃ v, Writes (vlogChars m f (.start args)) v
        (tokenWrites m (scan .normal .default f) args)) :
    ∃ v, Writes (vlogChars m (c :: f) ⟨s, l, 10, false, false, args⟩) v
      (tokenWrites m (.spec l c :: scan .normal .default f) args) := by
  have hhead : convOf c = .str → ∃ t, IsString m args.head t := by
    intro hc
    refine hstr args.head (List.mem_append_left _ ?_)
    show args.head ∈ (if convOf c = .str then some args.head else none).toList
    rw [if_pos hc]
    exact List.mem_singleton_self _
  obtain ⟨v, hv⟩ := ih ((Token.spec l c).rest args)
    fun p hp => hstr p (List.mem_append_right _ hp)
  refine ⟨v, ?_⟩
  unfold vlogChars
  rw [List.foldlM_cons, hchar]
  exact (writes_vlogSpec s l c hhead).bind hv

/-- **What `vlog` writes.** For every format string, the writes for its literals and directives one
after the other, each directive with the next arguments. -/
theorem writes_vlogChars (f : List Byte) (s : State) (l : Length) (args : Stream' U64)
    (hl : s = .normal ∨ s = .length → l = .default)
    (hstr : ∀ p ∈ strPointers (scan s l f) args, ∃ t, IsString m p t) :
    ∃ v, Writes (vlogChars m f ⟨s, l, 10, false, false, args⟩) v
      (tokenWrites m (scan s l f) args) := by
  induction f generalizing s l args with
  | nil =>
    rw [scan_nil]
    exact ⟨_, Writes.pure _⟩
  | cons c f ih =>
    have ihNormal : ∀ args : Stream' U64,
        (∀ p ∈ strPointers (scan .normal .default f) args, ∃ t, IsString m p t) →
        ∃ v, Writes (vlogChars m f (.start args)) v
          (tokenWrites m (scan .normal .default f) args) :=
      fun args h => ih .normal .default args (fun _ => rfl) h
    -- a character that only moves the formatter to another state
    have hmove : ∀ s' l', vlogChar m ⟨s, l, 10, false, false, args⟩ c =
        pure ⟨s', l', 10, false, false, args⟩ → (s' = .normal ∨ s' = .length → l' = .default) →
        scan s l (c :: f) = scan s' l' f →
        ∃ v, Writes (vlogChars m (c :: f) ⟨s, l, 10, false, false, args⟩) v
          (tokenWrites m (scan s l (c :: f)) args) := by
      intro s' l' hchar hl' hscan
      rw [hscan] at hstr ⊢
      obtain ⟨v, hv⟩ := ih s' l' args hl' hstr
      refine ⟨v, ?_⟩
      unfold vlogChars
      rw [List.foldlM_cons, hchar, pure_bind]
      exact hv
    cases s with
    | normal =>
      obtain rfl : l = .default := hl (Or.inl rfl)
      by_cases hc : c = ascii '%'
      · exact hmove .length .default (if_pos hc) (fun _ => rfl) (if_pos hc)
      · have hscan : scan .normal .default (c :: f) = .lit c :: scan .normal .default f := if_neg hc
        rw [hscan] at hstr ⊢
        obtain ⟨v, hv⟩ := ihNormal args hstr
        refine ⟨v, ?_⟩
        have hchar : vlogChar m ⟨.normal, .default, 10, false, false, args⟩ c = (do
            putc c
            return ⟨.normal, .default, 10, false, false, args⟩) := if_neg hc
        unfold vlogChars
        rw [List.foldlM_cons, hchar]
        exact ((writes_putc c).map fun _ => _).bind hv
    | length =>
      obtain rfl : l = .default := hl (Or.inr rfl)
      by_cases hh : c = ascii 'h'
      · exact hmove .lengthShort .short (if_pos hh) (by simp) (if_pos hh)
      · by_cases hl : c = ascii 'l'
        · exact hmove .lengthLong .long ((if_neg hh).trans (if_pos hl)) (by simp)
            ((if_neg hh).trans (if_pos hl))
        · have hscan : scan .length .default (c :: f) =
              .spec .default c :: scan .normal .default f := (if_neg hh).trans (if_neg hl)
          rw [hscan] at hstr ⊢
          exact writes_spec_append ((if_neg hh).trans (if_neg hl)) hstr ihNormal
    | lengthShort =>
      by_cases hh : c = ascii 'h'
      · exact hmove .spec .shortShort (if_pos hh) (by simp) (if_pos hh)
      · have hscan : scan .lengthShort l (c :: f) = .spec l c :: scan .normal .default f :=
          if_neg hh
        rw [hscan] at hstr ⊢
        exact writes_spec_append (if_neg hh) hstr ihNormal
    | lengthLong =>
      by_cases hl : c = ascii 'l'
      · exact hmove .spec .longLong (if_pos hl) (by simp) (if_pos hl)
      · have hscan : scan .lengthLong l (c :: f) = .spec l c :: scan .normal .default f :=
          if_neg hl
        rw [hscan] at hstr ⊢
        exact writes_spec_append (if_neg hl) hstr ihNormal
    | spec => exact writes_spec_append rfl hstr ihNormal

/-- The tokens of a whole format string. -/
def tokens (f : List Byte) : List Token := scan .normal .default f

theorem writes_vlog {fmt : U64} {f : List Byte} (h : IsString m fmt f)
    (hstr : ∀ p ∈ strPointers (tokens f) args, ∃ t, IsString m p t) :
    Writes (vlog m fmt args) () (tokenWrites m (tokens f) args) := by
  obtain ⟨v, hv⟩ := writes_vlogChars f .normal .default args (fun _ => rfl) hstr
  unfold vlog
  rw [vlogLoop_eq h h.length_lt]
  exact hv.map fun _ => ()

end Writes

end DejOs.Log
