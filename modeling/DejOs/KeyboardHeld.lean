import DejOs.Keyboard

/-!
# The keys held down

`keyd` of `keyboard.c` against the keys that are down. The decoder counts an extended press up and
an ordinary release down, and leaves `keyd` alone at an ordinary press and at an extended release.
A call returns at the first sequence that is not an extended press, so `keyd` is wrong after the
first call that returns, whatever the stream: `keyd_held_iff`.
-/

namespace DejOs

/-! ## Orderly streams -/

/-- A key, and whether its code is an extended one. -/
abbrev HeldKey := Bool × Byte

namespace ScanSeq

/-- The keys held after the sequence. -/
def hold : ScanSeq → Finset HeldKey → Finset HeldKey
  | make m _, held => insert (false, m) held
  | brk c, held => held.erase (false, c)
  | extMake c _, held => insert (true, c) held
  | extBrk c, held => held.erase (true, c)
  | pause, held => held

/-- A key is pressed when it is up, and released when it is down. Pause has no release. -/
def Fits (held : Finset HeldKey) : ScanSeq → Prop
  | make m _ => (false, m) ∉ held
  | brk c => (false, c) ∈ held
  | extMake c _ => (true, c) ∉ held
  | extBrk c => (true, c) ∈ held
  | pause => False

/-- An extended key is pressed. -/
def IsExtMake : ScanSeq → Prop
  | extMake _ _ => True
  | make _ _ | brk _ | extBrk _ | pause => False

/-- The keys held after the sequences. -/
def holdAfter (qs : List ScanSeq) (held : Finset HeldKey) : Finset HeldKey :=
  qs.foldl (fun held q => q.hold held) held

end ScanSeq

/-- A stream without Pause and repeats, with at most 255 keys held at once. -/
def Orderly : Finset HeldKey → List ScanSeq → Prop
  | _, [] => True
  | held, q :: qs => q.Fits held ∧ (q.hold held).card ≤ 255 ∧ Orderly (q.hold held) qs

/-- After each of the first `n` calls `keyd` is the number of keys held. -/
def KeydHeld (qs : List ScanSeq) (s : Keyboard) (n : ℕ) : Prop :=
  ∀ m ≤ n, ∀ ks s', polls m s = .ok ks s' → ∀ done rest, qs = done ++ rest →
    s'.bytes = encode rest → s'.keyd.toNat = (ScanSeq.holdAfter done ∅).card

/-! ## Extended presses -/

section Quiet

variable {held : Finset HeldKey} {q : ScanSeq} {quiet rest qs : List ScanSeq} {n : Byte}

theorem ScanSeq.isExtMake_of_result (hq : q.result = none) (hfits : q.Fits held) :
    q.IsExtMake := by
  cases q with
  | extMake c hc => trivial
  | pause => exact hfits.elim
  | make m hm => cases hq
  | brk c => cases hq
  | extBrk c => cases hq

/-- `keyd` is right, and no ordinary key is held. -/
structure Counted (held : Finset HeldKey) (n : Byte) : Prop where
  keyd : n.toNat = held.card
  extended : ∀ x ∈ held, x.1 = true

/-- An extended press is counted. -/
theorem Counted.extMake (h : Counted held n) (hq : q.IsExtMake) (hfits : q.Fits held)
    (hcard : (q.hold held).card ≤ 255) : Counted (q.hold held) (q.keyd n) := by
  cases q with
  | extMake c hc =>
    have hins : (insert (true, c) held).card = held.card + 1 := Finset.card_insert_of_notMem hfits
    refine ⟨?_, fun x hx => ?_⟩
    · show (n + 1).toNat = (insert (true, c) held).card
      have hle : held.card + 1 ≤ 255 := hins ▸ hcard
      rw [hins, BitVec.toNat_add, h.keyd]
      show (held.card + 1) % 256 = held.card + 1
      omega
    · rcases Finset.mem_insert.mp hx with rfl | hx
      · rfl
      · exact h.extended x hx
  | make m hm => exact hq.elim
  | brk c => exact hq.elim
  | extBrk c => exact hq.elim
  | pause => exact hq.elim

theorem Counted.presses (h : Counted held n) (hquiet : ∀ p ∈ quiet, p.result = none)
    (horderly : Orderly held (quiet ++ rest)) :
    Counted (ScanSeq.holdAfter quiet held) (ScanSeq.keydAfter quiet n) ∧
      Orderly (ScanSeq.holdAfter quiet held) rest := by
  induction quiet generalizing held n with
  | nil => exact ⟨h, horderly⟩
  | cons p quiet ih =>
    obtain ⟨hfits, hcard, horderly⟩ := horderly
    have hp := ScanSeq.isExtMake_of_result (hquiet p List.mem_cons_self) hfits
    exact ih (h.extMake hp hfits hcard) (fun x hx => hquiet x (List.mem_cons_of_mem _ hx)) horderly

/-- The sequence that makes a call return is not counted. -/
theorem Counted.returning (h : Counted held n) (hq : q.result ≠ none) (hfits : q.Fits held) :
    (q.keyd n).toNat ≠ (q.hold held).card := by
  cases q with
  | make m hm =>
    show n.toNat ≠ (insert (false, m) held).card
    rw [Finset.card_insert_of_notMem hfits, h.keyd]
    omega
  | brk c =>
    -- an ordinary key would have to be held
    exact absurd (h.extended _ hfits) (by simp)
  | extBrk c =>
    have hpos := Finset.card_pos.mpr ⟨_, hfits⟩
    show n.toNat ≠ (held.erase (true, c)).card
    rw [Finset.card_erase_of_mem hfits, h.keyd]
    omega
  | extMake c hc => exact absurd rfl hq
  | pause => exact absurd rfl hq

theorem Orderly.isExtMake (h : Orderly held qs) (hq : q ∈ qs) (hresult : q.result = none) :
    q.IsExtMake := by
  induction qs generalizing held with
  | nil => cases hq
  | cons p qs ih =>
    obtain ⟨hfits, -, h⟩ := h
    rcases List.mem_cons.mp hq with rfl | hq
    · exact ScanSeq.isExtMake_of_result hresult hfits
    · exact ih h hq

theorem ScanSeq.IsExtMake.result (h : q.IsExtMake) : q.result = none := by
  cases q with
  | extMake c hc => rfl
  | make m hm => exact h.elim
  | brk c => exact h.elim
  | extBrk c => exact h.elim
  | pause => exact h.elim

theorem eq_nil_of_encode {done : List ScanSeq} (h : encode (done ++ rest) = encode rest) :
    done = [] := by
  cases done with
  | nil => rfl
  | cons q done =>
    have hlen := congrArg List.length h
    unfold encode at hlen
    rw [List.flatMap_append, List.flatMap_cons, List.length_append, List.length_append] at hlen
    have hpos : 0 < q.bytes.length := by
      cases q <;> exact Nat.succ_pos _
    omega

end Quiet

/-! ## Calls -/

section Calls

variable {qs : List ScanSeq} {s : Keyboard}

theorem keydHeld_zero (hkeyd : s.keyd = 0) (hs : s.bytes = encode qs) {ks : List CInt}
    {s' : Keyboard} (h : polls 0 s = .ok ks s') {done rest : List ScanSeq}
    (hqs : qs = done ++ rest) (hrest : s'.bytes = encode rest) :
    s'.keyd.toNat = (ScanSeq.holdAfter done ∅).card := by
  obtain ⟨-, rfl⟩ := EStateM.Result.ok.inj h
  obtain rfl := eq_nil_of_encode ((hqs ▸ hs).symm.trans hrest)
  rw [hkeyd]
  rfl

/-- The first call that returns leaves `keyd` wrong. -/
theorem not_keydHeld_one (hkeyd : s.keyd = 0) (horderly : Orderly ∅ qs) {quiet rest : List ScanSeq}
    {q : ScanSeq} {k : CInt} {s' : Keyboard} (hqs : qs = quiet ++ q :: rest)
    (hquiet : ∀ p ∈ quiet, p.result = none) (hq : q.result = some k)
    (hs' : s'.keyd = ScanSeq.keydAfter (quiet ++ [q]) s.keyd) :
    s'.keyd.toNat ≠ (ScanSeq.holdAfter (quiet ++ [q]) ∅).card := by
  have hstart : Counted ∅ s.keyd :=
    ⟨by rw [hkeyd]; rfl, fun x hx => absurd hx (Finset.notMem_empty x)⟩
  rw [hqs] at horderly
  obtain ⟨hcounted, hfits, -, -⟩ := hstart.presses hquiet horderly
  have hne := hcounted.returning (by rw [hq]; exact Option.some_ne_none k) hfits
  unfold ScanSeq.keydAfter ScanSeq.holdAfter at *
  rwa [hs', List.foldl_append, List.foldl_append]

end Calls

/-- **When `keyd` counts the keys held.** For an orderly stream from no key held, and any number of
calls: exactly when there is no call, or the stream is of extended presses only, so that none
returns. -/
theorem keyd_held_iff (n : ℕ) (qs : List ScanSeq) (s : Keyboard) (hin : s.inited = true)
    (hsil : s.sil = 0) (hkeyd : s.keyd = 0) (hs : s.bytes = encode qs) (horderly : Orderly ∅ qs) :
    KeydHeld qs s n ↔ n = 0 ∨ ∀ q ∈ qs, q.IsExtMake := by
  have hcall := keyboardPollK_ready hin hsil
  have hloop := pollLoop_encode hs (Nat.lt_succ_self _)
  constructor
  · intro h
    rcases Nat.eq_zero_or_pos n with hn | hn
    · exact Or.inl hn
    · rcases hloop with
        ⟨quiet, q, rest, k, s', hqs, hquiet, hq, hret, hrest, -, -, hs'⟩ | ⟨hall, -⟩
      · have hone : polls 1 s = .ok [k] s' := Kernel.bind_of_ok (hcall.trans hret)
        exact absurd (h 1 hn [k] s' hone (quiet ++ [q]) rest (by rw [hqs]; simp) hrest)
          (not_keydHeld_one hkeyd horderly hqs hquiet hq hs')
      · exact Or.inr fun q hq => horderly.isExtMake hq (hall q hq)
  · intro h m hm ks s' hpolls done rest hqs hrest
    cases m with
    | zero => exact keydHeld_zero hkeyd hs hpolls hqs hrest
    | succ m =>
      -- no call returns
      have hall := h.resolve_left (by omega)
      obtain ⟨k, s₁, hk, -⟩ := Kernel.bind_eq_ok.mp hpolls
      rw [hcall] at hk
      rcases hloop with ⟨quiet, q, rest', k', s₂, rfl, -, hq, -⟩ | ⟨-, s₂, herr⟩
      · have hmem : q ∈ quiet ++ q :: rest' := List.mem_append_right _ List.mem_cons_self
        rw [(hall q hmem).result] at hq
        cases hq
      · rw [herr] at hk
        cases hk

theorem keyd_held_arrowUp : KeydHeld [.extMake 0x75 (by decide)]
    ⟨encode [.extMake 0x75 (by decide)], 0, true, 0, 0⟩ 1 := by
  have horderly : Orderly ∅ [.extMake 0x75 (by decide)] :=
    ⟨Finset.notMem_empty _, by decide, trivial⟩
  exact (keyd_held_iff 1 _ _ rfl rfl rfl rfl horderly).mpr
    (Or.inr (List.forall_mem_singleton.mpr trivial))

theorem keyd_held_keyA : Orderly ∅ [.make 0x1C (by decide)] ∧
    (ScanSeq.holdAfter [.make 0x1C (by decide)] ∅).card = 1 ∧
    (∃ s', polls 1 ⟨encode [.make 0x1C (by decide)], 0, true, 0, 0⟩ = .ok [-1] s' ∧
      s'.bytes = encode [] ∧ s'.keyd = 0) ∧
    ¬ KeydHeld [.make 0x1C (by decide)] ⟨encode [.make 0x1C (by decide)], 0, true, 0, 0⟩ 1 := by
  have hcall : polls 1 ⟨encode [.make 0x1C (by decide)], 0, true, 0, 0⟩ =
      .ok [-1] ⟨[], 0x1C, true, 0, 0⟩ := rfl
  refine ⟨⟨Finset.notMem_empty _, by decide, trivial⟩, by decide, ⟨_, hcall, rfl, rfl⟩, fun h => ?_⟩
  have hheld := h 1 le_rfl _ _ hcall [.make 0x1C (by decide)] [] rfl rfl
  exact absurd hheld (by decide)

end DejOs
