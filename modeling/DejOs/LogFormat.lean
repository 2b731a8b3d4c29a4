import DejOs.Log

/-!
# What the directives of `vlog` mean

Format strings as sequences of pieces: literals, and directives with their argument. A piece has a
text, a meaning (`Piece.render`, what C says is printed) and what `vlog` prints for it
(`Piece.writes`). The two agree for `%c`, `%s`, `%%` and for the numbers without a length or with
`l` or `ll` (`vlog_renders`). For `%p` and for the lengths `h` and `hh`, `vlog` prints the low 32
bits of the argument, which is what is meant for small arguments only (`vlog_narrow_iff`).
-/

namespace DejOs.Log

open CString Serial

/-! ## Pieces -/

/-- The letters of the conversions of numbers. -/
inductive NumConv
  | d
  | i
  | u
  | x
  | upperX
  | o
  | p
  deriving DecidableEq, Repr

namespace NumConv

def letter : NumConv → Byte
  | .d => ascii 'd'
  | .i => ascii 'i'
  | .u => ascii 'u'
  | .x => ascii 'x'
  | .upperX => ascii 'X'
  | .o => ascii 'o'
  | .p => ascii 'p'

def radix : NumConv → ℕ
  | .d | .i | .u => 10
  | .x | .upperX | .p => 16
  | .o => 8

def sign : NumConv → Bool
  | .d | .i => true
  | .u | .x | .upperX | .o | .p => false

end NumConv

namespace Length

/-- The length modifier. -/
def text : Length → List Byte
  | .default => []
  | .short => [ascii 'h']
  | .shortShort => [ascii 'h', ascii 'h']
  | .long => [ascii 'l']
  | .longLong => [ascii 'l', ascii 'l']

/-- The number of bits of an argument, as C has it on this machine. -/
def width : Length → ℕ
  | .default => 32
  | .short => 16
  | .shortShort => 8
  | .long | .longLong => 64

end Length

/-- A literal, or a directive with the word its argument is passed in. -/
inductive Piece
  | lit (c : Byte) (h : c ≠ ascii '%')
  | percent
  | char (w : U64)
  /-- With the characters of the string. -/
  | str (p : U64) (s : List Byte)
  | num (l : Length) (conv : NumConv) (w : U64)

namespace Piece

/-- The piece in the format string. -/
def text : Piece → List Byte
  | .lit c _ => [c]
  | .percent => [ascii '%', ascii '%']
  | .char _ => [ascii '%', ascii 'c']
  | .str _ _ => [ascii '%', ascii 's']
  | .num l conv _ => ascii '%' :: (l.text ++ [conv.letter])

/-- The words of the argument. -/
def words : Piece → List U64
  | .lit _ _ | .percent => []
  | .char w | .num _ _ w => [w]
  | .str p _ => [p]

/-- The number an argument stands for, of the length's width; a pointer is not cut. -/
def value (l : Length) (conv : NumConv) (w : U64) : ℤ :=
  if conv = .p then w.toNat
  else if conv.sign then (w.setWidth l.width).toInt else (w.setWidth l.width).toNat

/-- What C says is printed. -/
def render : Piece → List Byte
  | .lit c _ => [c]
  | .percent => [ascii '%']
  | .char w => [w.setWidth 8]
  | .str _ s => s
  | .num l conv w => intNumeral conv.radix (value l conv w)

/-- What `vlog` writes. -/
def writes : Piece → List (Byte × Bool)
  | .lit c _ => [(c, true)]
  | .percent => [(ascii '%', true)]
  | .char w => [(w.setWidth 8, true)]
  | .str _ s => s.map fun c => (c, false)
  | .num l conv w => (intNumeral conv.radix (if conv.sign then l.toInt w else l.toNat w)).map
      fun c => (c, true)

/-- The directives `%c`, `%s`, `%%` and the numbers of the width of `int` or `long`. -/
def Plain : Piece → Prop
  | .num l conv _ => (l = .default ∨ l = .long ∨ l = .longLong) ∧
      (conv = .d ∨ conv = .i ∨ conv = .u ∨ conv = .x ∨ conv = .o)
  | _ => True

end Piece

/-- The format string of some pieces. -/
def text (ps : List Piece) : List Byte := ps.flatMap Piece.text

/-- The arguments of some pieces. -/
def words (ps : List Piece) : List U64 := ps.flatMap Piece.words

/-- The arguments of the `%s` are strings. -/
def Strings (m : Bytes) (ps : List Piece) : Prop := ∀ p s, .str p s ∈ ps → IsString m p s

/-! ## `vlog` on pieces -/

section Pieces

variable {m : Bytes} {args : Stream' U64}

theorem convOf_letter (conv : NumConv) : convOf conv.letter = .num conv.radix conv.sign := by
  cases conv <;> rfl

theorem vlogChars_directive (m : Bytes) (args : Stream' U64) (l : Length) {c : Byte}
    (hh : c ≠ ascii 'h') (hl : c ≠ ascii 'l') :
    ∃ s, vlogChars m (ascii '%' :: (l.text ++ [c])) (.start args) =
      vlogSpec m c ⟨s, l, 10, false, false, args⟩ := by
  have hlast : ∀ s, (s = .length ∨ s = .lengthShort ∨ s = .lengthLong ∨ s = .spec) →
      vlogChars m [c] ⟨s, l, 10, false, false, args⟩ =
        vlogSpec m c ⟨s, l, 10, false, false, args⟩ := by
    rintro s (rfl | rfl | rfl | rfl)
    · show (if c = ascii 'h' then _ else if c = ascii 'l' then _ else _) >>= pure = _
      rw [if_neg hh, if_neg hl, bind_pure]
    · show (if c = ascii 'h' then _ else _) >>= pure = _
      rw [if_neg hh, bind_pure]
    · show (if c = ascii 'l' then _ else _) >>= pure = _
      rw [if_neg hl, bind_pure]
    · show vlogSpec m c _ >>= pure = _
      rw [bind_pure]
  cases l with
  | default => exact ⟨.length, hlast _ (Or.inl rfl)⟩
  | short => exact ⟨.lengthShort, hlast _ (Or.inr (Or.inl rfl))⟩
  | shortShort => exact ⟨.spec, hlast _ (Or.inr (Or.inr (Or.inr rfl)))⟩
  | long => exact ⟨.lengthLong, hlast _ (Or.inr (Or.inr (Or.inl rfl)))⟩
  | longLong => exact ⟨.spec, hlast _ (Or.inr (Or.inr (Or.inr rfl)))⟩

theorem writes_directive (args : Stream' U64) (l : Length) {c : Byte} (hh : c ≠ ascii 'h')
    (hl : c ≠ ascii 'l') (hstr : convOf c = .str → ∃ t, IsString m args.head t) :
    Writes (vlogChars m (ascii '%' :: (l.text ++ [c])) (.start args))
      (.start ((Token.spec l c).rest args)) ((Token.spec l c).writes m args.head) := by
  obtain ⟨s, hs⟩ := vlogChars_directive m args l hh hl
  rw [hs]
  exact writes_vlogSpec s l c hstr

/-- One piece: it takes its argument, and nothing of it is left in the variables. -/
theorem writes_piece (p : Piece) (hstr : ∀ a s, p = .str a s → IsString m a s) :
    Writes (vlogChars m p.text (.start (p.words ++ₛ args))) (.start args) p.writes := by
  cases p with
  | lit c hc =>
    have hchar : vlogChars m [c] (.start args) = (do
        putc c
        return .start args) := by
      show (if c = ascii '%' then _ else _) >>= pure = _
      rw [if_neg hc, bind_pure]
    show Writes (vlogChars m [c] (.start args)) _ _
    rw [hchar]
    exact (writes_putc c).map fun _ => _
  | percent =>
    exact writes_directive args .default (c := ascii '%') (by decide) (by decide)
      fun h => absurd h (by decide)
  | char w =>
    have h := writes_directive (m := m) ([w] ++ₛ args) .default (c := ascii 'c')
      (by decide) (by decide) fun h => absurd h (by decide)
    have hwrites : (Token.spec .default (ascii 'c')).writes m w = (Piece.char w).writes := by
      show [((w.setWidth 32).setWidth 8, true)] = [(w.setWidth 8, true)]
      rw [BitVec.setWidth_setWidth_of_le w (by decide)]
    rw [← hwrites]
    exact h
  | str a t =>
    have ht := hstr a t rfl
    have h := writes_directive (m := m) ([a] ++ₛ args) .default (c := ascii 's')
      (by decide) (by decide) fun _ => ⟨t, ht⟩
    have hwrites : (Token.spec .default (ascii 's')).writes m a = (Piece.str a t).writes := by
      show ((stringAt m a).map fun c => (c, false)) = t.map fun c => (c, false)
      rw [ht.stringAt_eq]
    rw [← hwrites]
    exact h
  | num l conv w =>
    have h := writes_directive (m := m) ([w] ++ₛ args) l (c := conv.letter)
      (by cases conv <;> decide) (by cases conv <;> decide)
      fun h => absurd h (by rw [convOf_letter]; exact Conv.noConfusion)
    have hrest : (Token.spec l conv.letter).rest ([w] ++ₛ args) = args := by
      show (if (convOf conv.letter).takes then args else [w] ++ₛ args) = args
      rw [convOf_letter]
      rfl
    have hwrites : (Token.spec l conv.letter).writes m w = (Piece.num l conv w).writes := by
      show (convOf conv.letter).writes m l w = _
      rw [convOf_letter]
      cases conv <;> rfl
    rw [hrest] at h
    rw [← hwrites]
    exact h

theorem strings_nil : Strings m [] := fun _ _ h => absurd h List.not_mem_nil

theorem Strings.of_cons {p : Piece} {ps : List Piece} (h : Strings m (p :: ps)) :
    (∀ a s, p = .str a s → IsString m a s) ∧ Strings m ps :=
  ⟨fun a s hp => h a s (hp ▸ List.mem_cons_self), fun a s hs => h a s (List.mem_cons_of_mem _ hs)⟩

theorem writes_pieces (ps : List Piece) (hstr : Strings m ps) :
    Writes (vlogChars m (text ps) (.start (words ps ++ₛ args))) (.start args)
      (ps.flatMap Piece.writes) := by
  induction ps with
  | nil => exact Writes.pure _
  | cons p ps ih =>
    obtain ⟨hp, hps⟩ := hstr.of_cons
    have htext : vlogChars m (text (p :: ps)) (.start (words (p :: ps) ++ₛ args)) =
        vlogChars m p.text (.start (p.words ++ₛ (words ps ++ₛ args))) >>=
          vlogChars m (text ps) := by
      unfold vlogChars
      rw [← Stream'.append_append_stream, ← List.foldlM_append]
      rfl
    rw [htext, List.flatMap_cons]
    exact (writes_piece p hp).bind (ih hps)

theorem sends_pieces {ps : List Piece} (hstr : Strings m ps) {fmt : U64}
    (hfmt : IsString m fmt (text ps)) :
    Sends (vlog m fmt (words ps ++ₛ args)) ((ps.flatMap Piece.writes).map Prod.fst) := by
  unfold vlog
  rw [vlogLoop_eq hfmt hfmt.length_lt]
  exact ((writes_pieces ps hstr).map fun _ => ()).sends

theorem sends_pieces_append {ps : List Piece} (hstr : Strings m ps) {f : List Byte}
    {fmt fmt' : U64} (hfmt : IsString m fmt (text ps ++ f)) (hfmt' : IsString m fmt' f)
    {bs : List Byte} (h : Sends (vlog m fmt' args) bs) :
    Sends (vlog m fmt (words ps ++ₛ args)) ((ps.flatMap Piece.writes).map Prod.fst ++ bs) := by
  have hvlog : vlog m fmt (words ps ++ₛ args) =
      vlogChars m (text ps) (.start (words ps ++ₛ args)) >>= fun v =>
        vlogChars m f v >>= fun _ => pure () := by
    unfold vlog
    rw [vlogLoop_eq hfmt hfmt.length_lt]
    unfold vlogChars
    rw [List.foldlM_append, bind_assoc]
  have hrest : vlog m fmt' args = vlogChars m f (.start args) >>= fun _ => pure () := by
    unfold vlog
    rw [vlogLoop_eq hfmt' hfmt'.length_lt]
  rw [hrest] at h
  rw [hvlog]
  exact (writes_pieces ps hstr).bind_sends h

end Pieces

/-! ## The directives that are right -/

/-- The argument is as wide as `vlog` takes it. -/
theorem Piece.Plain.value_eq {l : Length} {conv : NumConv} {w : U64}
    (h : (Piece.num l conv w).Plain) :
    Piece.value l conv w = if conv.sign then l.toInt w else l.toNat w := by
  obtain ⟨hl, hconv⟩ := h
  have hp : conv ≠ .p := by
    rintro rfl
    simp at hconv
  unfold Piece.value
  rw [if_neg hp]
  rcases hl with rfl | rfl | rfl
  · rfl
  · show (if conv.sign then ((w.setWidth 64).toInt : ℤ) else (w.setWidth 64).toNat) = _
    rw [BitVec.setWidth_eq]
    rfl
  · show (if conv.sign then ((w.setWidth 64).toInt : ℤ) else (w.setWidth 64).toNat) = _
    rw [BitVec.setWidth_eq]
    rfl

theorem map_fst_mark (bs : List Byte) (b : Bool) : (bs.map fun c => (c, b)).map Prod.fst = bs := by
  rw [List.map_map]
  exact List.map_id bs

theorem Piece.Plain.writes_fst {p : Piece} (h : p.Plain) : p.writes.map Prod.fst = p.render := by
  cases p with
  | lit c hc => rfl
  | percent => rfl
  | char w => rfl
  | str a s => exact map_fst_mark s false
  | num l conv w =>
    have hrender : (num l conv w).render = intNumeral conv.radix (value l conv w) := rfl
    rw [hrender, h.value_eq]
    exact map_fst_mark _ true

theorem map_fst_writes {ps : List Piece} (h : ∀ p ∈ ps, p.Plain) :
    (ps.flatMap Piece.writes).map Prod.fst = ps.flatMap Piece.render := by
  rw [List.map_flatMap]
  exact List.flatMap_congr fun p hp => (h p hp).writes_fst

/-- **The formatter.** For every format string of literals, `%c`, `%s`, `%%` and numbers of the
width of `int` or `long`, `vlog` prints the literals and the arguments in order, and an argument is
taken for each directive but `%%`. What comes behind such a string is printed as it is alone. -/
theorem vlog_renders (m : Bytes) (fmt : U64) (ps : List Piece) (rest : Stream' U64)
    (hplain : ∀ p ∈ ps, p.Plain) (hstr : Strings m ps) (hfmt : IsString m fmt (text ps)) :
    Sends (vlog m fmt (words ps ++ₛ rest)) (ps.flatMap Piece.render) ∧
      ∀ (f : List Byte) (fmt₁₂ fmt₂ : U64) (bs : List Byte), IsString m fmt₁₂ (text ps ++ f) →
        IsString m fmt₂ f → Sends (vlog m fmt₂ rest) bs →
        Sends (vlog m fmt₁₂ (words ps ++ₛ rest)) (ps.flatMap Piece.render ++ bs) := by
  constructor
  · rw [← map_fst_writes hplain]
    exact sends_pieces hstr hfmt
  · intro f fmt₁₂ fmt₂ bs h₁₂ h₂ hbs
    rw [← map_fst_writes hplain]
    exact sends_pieces_append hstr h₁₂ h₂ hbs

/-- The string `s` at the address `a`, and zeros elsewhere. -/
def textAt (a : U64) (s : List Byte) : Bytes := fun x => s.getD (x - a).toNat 0

/-- `vlog("%d", -7)`; the upper half of the word of an `int` is anything. -/
theorem vlog_renders_minusSeven :
    Sends (vlog (textAt 0x1000 [ascii '%', ascii 'd']) 0x1000
      ([0x12345678FFFFFFF9] ++ₛ fun _ => 0)) [ascii '-', ascii '7'] := by
  have hrender : [Piece.num .default .d 0x12345678FFFFFFF9].flatMap Piece.render =
      [ascii '-', ascii '7'] := by
    have hvalue : Piece.value .default .d 0x12345678FFFFFFF9 = -7 := by decide
    show intNumeral 10 (Piece.value .default .d 0x12345678FFFFFFF9) ++ [] = _
    rw [hvalue]
    simp [intNumeral, numeral, digitChar, ascii]
  rw [← hrender]
  refine (vlog_renders _ 0x1000 [.num .default .d 0x12345678FFFFFFF9] _ ?_ ?_ ?_).1
  · intro p hp
    obtain rfl := List.mem_singleton.mp hp
    exact ⟨Or.inl rfl, Or.inl rfl⟩
  · intro a s hs
    cases List.mem_singleton.mp hs
  · decide

/-! ## Numerals read back -/

/-- The value of a digit. -/
def digitValue (c : Byte) : Option ℕ :=
  if 0x30 ≤ c ∧ c ≤ 0x39 then some (c.toNat - 0x30)
  else if 0x61 ≤ c ∧ c ≤ 0x66 then some (c.toNat - 0x61 + 10)
  else none

/-- Reads a numeral; `none` if there is no digit, or something that is none. -/
def readNumeral (b : ℕ) (bs : List Byte) : Option ℕ :=
  if bs = [] then none else (bs.reverse.mapM digitValue).map (Nat.ofDigits b)

theorem digitValue_digitChar {d : ℕ} (hd : d < 16) : digitValue (digitChar d) = some d := by
  have h : ∀ d : Fin 16, digitValue (digitChar d) = some d.val := by decide
  exact h ⟨d, hd⟩

theorem mapM_digitValue {ds : List ℕ} (h : ∀ d ∈ ds, d < 16) :
    (ds.map digitChar).mapM digitValue = some ds := by
  induction ds with
  | nil => rfl
  | cons d ds ih =>
    obtain ⟨hd, hds⟩ := List.forall_mem_cons.mp h
    rw [List.map_cons, List.mapM_cons, digitValue_digitChar hd, ih hds]
    rfl

section Read

variable {b : ℕ} (hb : 1 < b) (hb16 : b ≤ 16)

include hb hb16

theorem digits_lt_sixteen {n d : ℕ} (hd : d ∈ Nat.digits b n) : d < 16 :=
  lt_of_lt_of_le (Nat.digits_lt_base hb hd) hb16

theorem readNumeral_numeral (n : ℕ) : readNumeral b (numeral b n) = some n := by
  unfold readNumeral numeral
  by_cases hn : n = 0
  · subst hn
    rfl
  · have hne : ((Nat.digits b n).map digitChar).reverse ≠ [] := by
      rw [Ne, List.reverse_eq_nil_iff, List.map_eq_nil_iff, Nat.digits_eq_nil_iff_eq_zero]
      exact hn
    rw [if_neg hn, if_neg hne, List.reverse_reverse,
      mapM_digitValue fun d hd => digits_lt_sixteen hb hb16 hd, Option.map_some,
      Nat.ofDigits_digits]

theorem numeral_inj {n n' : ℕ} (h : numeral b n = numeral b n') : n = n' := by
  have hread := readNumeral_numeral hb hb16 n
  rw [h, readNumeral_numeral hb hb16 n'] at hread
  exact (Option.some.inj hread).symm

theorem minus_not_mem_numeral (n : ℕ) : ascii '-' ∉ numeral b n := by
  have hdigit : ∀ d < 16, digitChar d ≠ ascii '-' := by
    intro d hd
    have h : ∀ d : Fin 16, digitChar d ≠ ascii '-' := by decide
    exact h ⟨d, hd⟩
  intro hmem
  unfold numeral at hmem
  split at hmem
  · exact hdigit 0 (by decide) (List.mem_singleton.mp hmem).symm
  · obtain ⟨d, hd, hchar⟩ := List.mem_map.mp (List.mem_reverse.mp hmem)
    exact hdigit d (digits_lt_sixteen hb hb16 hd) hchar

theorem intNumeral_inj {z z' : ℤ} (h : intNumeral b z = intNumeral b z') : z = z' := by
  unfold intNumeral at h
  split_ifs at h with hz hz' hz'
  · have habs := numeral_inj hb hb16 (List.cons.inj h).2
    omega
  · exact absurd (h ▸ List.mem_cons_self) (minus_not_mem_numeral hb hb16 _)
  · exact absurd (h ▸ List.mem_cons_self) (minus_not_mem_numeral hb hb16 _)
  · have habs := numeral_inj hb hb16 h
    omega

end Read

/-! ## The directives that are right for small arguments -/

/-- `%p`, and `%d`, `%u` and `%x` with the lengths `h` and `hh`. -/
def Narrow (l : Length) (conv : NumConv) : Prop :=
  l = .default ∧ conv = .p ∨
    (l = .short ∨ l = .shortShort) ∧ (conv = .d ∨ conv = .u ∨ conv = .x)

/-- What is to be printed: for `%p` hexadecimal digits that read back as the pointer, for the others
the argument reduced to the length. -/
def Right (l : Length) (conv : NumConv) (w : U64) (bs : List Byte) : Prop :=
  if conv = .p then readNumeral 16 bs = some w.toNat else bs = (Piece.num l conv w).render

/-- The argument is the same when only its low 32 bits are taken, and when it is reduced. -/
def Small (l : Length) (conv : NumConv) (w : U64) : Prop :=
  if conv = .p then w.toNat < 2 ^ 32
  else if conv.sign then
    -(2 ^ (l.width - 1) : ℤ) ≤ (w.setWidth 32).toInt ∧ (w.setWidth 32).toInt < 2 ^ (l.width - 1)
  else (w.setWidth 32).toNat < 2 ^ l.width

/-- What `vlog` prints for these: the low 32 bits. -/
def lowValue (conv : NumConv) (w : U64) : ℤ :=
  if conv.sign then (w.setWidth 32).toInt else (w.setWidth 32).toNat

theorem Narrow.writes_eq {l : Length} {conv : NumConv} (h : Narrow l conv) (w : U64) :
    (Piece.num l conv w).writes = (intNumeral conv.radix (lowValue conv w)).map
      fun c => (c, true) := by
  rcases h with ⟨rfl, -⟩ | ⟨rfl | rfl, -⟩ <;> rfl

theorem Narrow.sends {m : Bytes} {l : Length} {conv : NumConv} (h : Narrow l conv) {w : U64}
    {f : List Byte} {fmt fmt' : U64} (hfmt : IsString m fmt ((Piece.num l conv w).text ++ f))
    (hfmt' : IsString m fmt' f) {rest : Stream' U64} {bs : List Byte}
    (hbs : Sends (vlog m fmt' rest) bs) :
    Sends (vlog m fmt ([w] ++ₛ rest)) (intNumeral conv.radix (lowValue conv w) ++ bs) := by
  have hstr : Strings m [Piece.num l conv w] := by
    intro a s hs
    cases List.mem_singleton.mp hs
  have hone : text [Piece.num l conv w] = (Piece.num l conv w).text := List.append_nil _
  have hsends := sends_pieces_append hstr (by rw [hone]; exact hfmt) hfmt' hbs
  rw [List.flatMap_singleton, h.writes_eq, map_fst_mark] at hsends
  exact hsends

theorem NumConv.radix_bounds (conv : NumConv) : 1 < conv.radix ∧ conv.radix ≤ 16 := by
  cases conv <;> decide

theorem toNat_setWidth_eq_iff (w : U64) {n : ℕ} (hn : n ≤ 32) :
    (w.setWidth n).toNat = (w.setWidth 32).toNat ↔ (w.setWidth 32).toNat < 2 ^ n := by
  have hpow : 2 ^ 32 = 2 ^ n * 2 ^ (32 - n) := by rw [← Nat.pow_add, Nat.add_sub_cancel' hn]
  have hmod : w.toNat % 2 ^ 32 % 2 ^ n = w.toNat % 2 ^ n := by
    rw [hpow, Nat.mod_mul_right_mod]
  rw [BitVec.toNat_setWidth, BitVec.toNat_setWidth, ← hmod]
  constructor
  · intro h
    rw [← h]
    exact Nat.mod_lt _ (Nat.two_pow_pos n)
  · exact Nat.mod_eq_of_lt

/-- A reduction to 8 or 16 bits keeps the small numbers. -/
theorem toInt_setWidth_eq_iff (w : U64) {n : ℕ} (hn : n = 8 ∨ n = 16) :
    (w.setWidth n).toInt = (w.setWidth 32).toInt ↔
      -(2 ^ (n - 1) : ℤ) ≤ (w.setWidth 32).toInt ∧ (w.setWidth 32).toInt < 2 ^ (n - 1) := by
  rw [BitVec.toInt_eq_toNat_cond, BitVec.toInt_eq_toNat_cond, BitVec.toNat_setWidth,
    BitVec.toNat_setWidth]
  rcases hn with rfl | rfl
  · split_ifs <;> omega
  · split_ifs <;> omega

theorem Narrow.right_iff {l : Length} {conv : NumConv} (h : Narrow l conv) (w : U64) :
    Right l conv w (intNumeral conv.radix (lowValue conv w)) ↔ Small l conv w := by
  unfold Right Small
  rcases h with ⟨rfl, rfl⟩ | ⟨hl, hconv⟩
  · have hlow : intNumeral NumConv.p.radix (lowValue .p w) = numeral 16 (w.setWidth 32).toNat := rfl
    rw [if_pos rfl, if_pos rfl, hlow, readNumeral_numeral (by decide) (by decide),
      Option.some_inj, BitVec.toNat_setWidth]
    constructor
    · intro hw
      rw [← hw]
      exact Nat.mod_lt _ (by decide)
    · exact Nat.mod_eq_of_lt
  · have hp : conv ≠ .p := by rcases hconv with rfl | rfl | rfl <;> decide
    have hwidth : l.width = 8 ∨ l.width = 16 := by rcases hl with rfl | rfl <;> decide
    have hrender : intNumeral conv.radix (lowValue conv w) = (Piece.num l conv w).render ↔
        Piece.value l conv w = lowValue conv w := by
      constructor
      · exact fun e => (intNumeral_inj conv.radix_bounds.1 conv.radix_bounds.2 e).symm
      · exact fun e => congrArg (intNumeral conv.radix) e.symm
    rw [if_neg hp, if_neg hp, hrender]
    unfold Piece.value lowValue
    rw [if_neg hp]
    by_cases hsign : conv.sign = true
    · rw [if_pos hsign, if_pos hsign, if_pos hsign]
      exact toInt_setWidth_eq_iff w hwidth
    · rw [if_neg hsign, if_neg hsign, if_neg hsign, Int.ofNat_inj]
      exact toNat_setWidth_eq_iff w (by omega)

/-- **`%p` and the lengths `h` and `hh`.** Anywhere in a format string, behind whole directives
`ps` and in front of anything: such a directive prints what it should, between what is printed for
the rest, exactly when its argument is small. -/
theorem vlog_narrow_iff {m : Bytes} {ps : List Piece} {l : Length} {conv : NumConv} {w : U64}
    {f : List Byte} {fmt fmt₁ fmt₂ : U64} {rest : Stream' U64} {bs₁ bs₂ : List Byte}
    (hnarrow : Narrow l conv) (hstr : Strings m ps)
    (hfmt : IsString m fmt (text ps ++ ((Piece.num l conv w).text ++ f)))
    (hfmt₁ : IsString m fmt₁ (text ps)) (hfmt₂ : IsString m fmt₂ f)
    (h₁ : Sends (vlog m fmt₁ (words ps ++ₛ ([w] ++ₛ rest))) bs₁)
    (h₂ : Sends (vlog m fmt₂ rest) bs₂) :
    (∃ bs, Right l conv w bs ∧
      Sends (vlog m fmt (words ps ++ₛ ([w] ++ₛ rest))) (bs₁ ++ bs ++ bs₂)) ↔ Small l conv w := by
  have hprefix : bs₁ = (ps.flatMap Piece.writes).map Prod.fst :=
    h₁.unique (sends_pieces hstr hfmt₁)
  have hwhole := sends_pieces_append hstr hfmt hfmt.drop (hnarrow.sends hfmt.drop hfmt₂ h₂)
  rw [← hprefix, ← List.append_assoc] at hwhole
  rw [← hnarrow.right_iff w]
  constructor
  · rintro ⟨bs, hright, hsends⟩
    have hsame := hsends.unique hwhole
    rw [List.append_left_inj, List.append_right_inj] at hsame
    rwa [hsame] at hright
  · exact fun hright => ⟨_, hright, hwhole⟩

theorem vlog_narrow_iff_apic : ∃ bs, readNumeral 16 bs = some 0xFEE00000 ∧
    Sends (vlog (textAt 0x1000 [ascii '%', ascii 'p']) 0x1000
      ([0xFEE00000] ++ₛ fun _ => 0)) bs := by
  have hempty : ∀ args, Sends (vlog (textAt 0x1000 [ascii '%', ascii 'p']) 0x1002 args) [] :=
    fun args => sends_pieces strings_nil (by decide)
  have hfmt : IsString (textAt 0x1000 [ascii '%', ascii 'p']) 0x1000
      (text [] ++ ((Piece.num .default .p 0xFEE00000).text ++ [])) := by decide
  have hiff := vlog_narrow_iff (Or.inl ⟨rfl, rfl⟩) strings_nil hfmt (by decide) (by decide)
    (hempty _) (hempty fun _ => 0)
  obtain ⟨bs, hright, hsends⟩ := hiff.mpr (show 0xFEE00000 < 2 ^ 32 by decide)
  rw [List.nil_append, List.append_nil] at hsends
  exact ⟨bs, hright, hsends⟩

/-- `vlog("%p", 0x100000000)` -/
theorem vlog_pointer_cut : ¬ ∃ bs, readNumeral 16 bs = some 0x100000000 ∧
    Sends (vlog (textAt 0x1000 [ascii '%', ascii 'p']) 0x1000
      ([0x100000000] ++ₛ fun _ => 0)) bs := by
  rintro ⟨bs, hread, hbs⟩
  have hempty : ∀ args, Sends (vlog (textAt 0x1000 [ascii '%', ascii 'p']) 0x1002 args) [] :=
    fun args => sends_pieces strings_nil (by decide)
  have hnarrow : Narrow .default .p := Or.inl ⟨rfl, rfl⟩
  have hfmt : IsString (textAt 0x1000 [ascii '%', ascii 'p']) 0x1000
      ((Piece.num .default .p 0x100000000).text ++ []) := by decide
  have hsends := hnarrow.sends hfmt (by decide) (hempty fun _ => 0)
  rw [List.append_nil] at hsends
  rw [hbs.unique hsends] at hread
  exact absurd ((hnarrow.right_iff 0x100000000).mp hread)
    (show ¬ (0x100000000 : ℕ) < 2 ^ 32 by decide)

end DejOs.Log
