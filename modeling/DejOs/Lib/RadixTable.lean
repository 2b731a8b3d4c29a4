import Mathlib.Tactic

/-!
# Radix tables in memory

A multi-level table of the kind a paging unit walks: memory is an array of frames with an entry for
every index, and what an entry means (`Node`) depends on the level it stands at. `tableAt` follows a
path of indices through entries that point to tables, and `walk` follows one to a leaf and returns
the entries it has read.

The tables below a root form a `Tree` when no table is reached by two paths. In a tree a slot is
read only by the paths through it, which gives the three facts that an insertion is made of: a write
outside the tables changes nothing (`walk_congr`), linking a fresh empty table changes no walk
(`Linked`), and writing a leaf into an absent slot changes exactly the walks through that slot
(`walk_put_leaf`, `walk_put`).
-/

namespace RadixTable

variable {F I E : Type*}

/-- What an entry says: nothing, a leaf, or the next table. -/
inductive Node (F : Type*)
  | absent
  | leaf
  | table (f : F)

section Walk

variable (dec : ℕ → E → Node F) (mem : F → I → E)

/-- The table a path of indices leads to, from table `f` at level `d`. -/
def tableAt : ℕ → F → List I → Option F
  | _, f, [] => some f
  | d, f, i :: p =>
    match dec d (mem f i) with
    | .table g => tableAt (d + 1) g p
    | .absent | .leaf => none

/-- The entries read on the way to a leaf, the leaf included. -/
def walk : ℕ → F → List I → Option (List E)
  | _, _, [] => none
  | d, f, i :: p =>
    match dec d (mem f i) with
    | .table g => (walk (d + 1) g p).map (mem f i :: ·)
    | .leaf => some [mem f i]
    | .absent => none

/-- No table below `f` is reached by two paths. -/
def Tree (f : F) : Prop :=
  ∀ p q g, tableAt dec mem 0 f p = some g → tableAt dec mem 0 f q = some g → p = q

end Walk

variable {dec : ℕ → E → Node F} {mem mem' : F → I → E} {d : ℕ} {f g h : F} {i j : I}
  {p q : List I}

@[simp] theorem tableAt_nil : tableAt dec mem d f [] = some f := rfl

theorem tableAt_cons_of_table (he : dec d (mem f i) = .table g) :
    tableAt dec mem d f (i :: p) = tableAt dec mem (d + 1) g p := by
  simp [tableAt, he]

theorem tableAt_cons_of_absent (he : dec d (mem f i) = .absent) :
    tableAt dec mem d f (i :: p) = none := by
  simp [tableAt, he]

theorem walk_cons_of_table (he : dec d (mem f i) = .table g) :
    walk dec mem d f (i :: p) = (walk dec mem (d + 1) g p).map (mem f i :: ·) := by
  simp [walk, he]

theorem walk_cons_of_absent (he : dec d (mem f i) = .absent) :
    walk dec mem d f (i :: p) = none := by
  simp [walk, he]

theorem walk_cons_of_leaf (he : dec d (mem f i) = .leaf) :
    walk dec mem d f (i :: p) = some [mem f i] := by
  simp [walk, he]

/-- The first entry a walk reads is in the first table. -/
theorem walk_head {es : List E} (hw : walk dec mem d f (i :: p) = some es) : mem f i ∈ es := by
  unfold walk at hw
  split at hw
  · obtain ⟨es', -, rfl⟩ := Option.map_eq_some_iff.mp hw
    exact List.mem_cons_self
  · obtain rfl := Option.some.inj hw
    exact List.mem_singleton_self _
  · cases hw

/-- A path that leads to a table goes through a table first. -/
theorem table_of_tableAt_cons (ht : tableAt dec mem d f (i :: p) = some h) :
    ∃ g, dec d (mem f i) = .table g ∧ tableAt dec mem (d + 1) g p = some h := by
  unfold tableAt at ht
  split at ht
  · rename_i g he
    exact ⟨g, he, ht⟩
  · simp at ht
  · simp at ht

theorem tableAt_append (p q : List I) : tableAt dec mem d f (p ++ q) =
    (tableAt dec mem d f p).bind fun g => tableAt dec mem (d + p.length) g q := by
  induction p generalizing d f with
  | nil => simp
  | cons i p ih =>
    have hd : d + 1 + p.length = d + (p.length + 1) := by omega
    simp only [List.cons_append, tableAt, List.length_cons]
    split
    · rw [ih, hd]
    · rfl
    · rfl

theorem tableAt_snoc (ht : tableAt dec mem d f p = some g)
    (he : dec (d + p.length) (mem g i) = .table h) : tableAt dec mem d f (p ++ [i]) = some h := by
  rw [tableAt_append, ht]
  simp [tableAt, he]

theorem walk_append (ht : tableAt dec mem d f p = some g) :
    ∃ es, es.length = p.length ∧ ∀ q, walk dec mem d f (p ++ q) =
      (walk dec mem (d + p.length) g q).map (es ++ ·) := by
  induction p generalizing d f with
  | nil =>
    obtain rfl : f = g := by simpa using ht
    exact ⟨[], rfl, fun q => by simp⟩
  | cons i p ih =>
    obtain ⟨k, he, ht⟩ := table_of_tableAt_cons ht
    obtain ⟨es, hlen, hes⟩ := ih ht
    refine ⟨mem f i :: es, by simp [hlen], fun q => ?_⟩
    have hd : d + 1 + p.length = d + (p.length + 1) := by omega
    rw [List.cons_append, walk_cons_of_table he, hes, hd, Option.map_map]
    rfl

/-- The entry read at step `k` stands in the table the first `k` indices lead to. -/
theorem walk_getElem {es : List E} {e : E} {k : ℕ} (hw : walk dec mem d f p = some es)
    (he : es[k]? = some e) : ∃ g i r, p = p.take k ++ i :: r ∧
      tableAt dec mem d f (p.take k) = some g ∧ e = mem g i ∧ dec (d + k) e ≠ .absent := by
  induction p generalizing d f es k with
  | nil => simp [walk] at hw
  | cons i p ih =>
    unfold walk at hw
    split at hw
    · rename_i h hk
      obtain ⟨es', hes', rfl⟩ := Option.map_eq_some_iff.mp hw
      cases k with
      | zero =>
        obtain rfl : mem f i = e := by simpa using he
        exact ⟨f, i, p, rfl, rfl, rfl, by simp [hk]⟩
      | succ k =>
        obtain ⟨g, j, r, hp, hg, rfl, habs⟩ := ih hes' (by simpa using he)
        refine ⟨g, j, r, ?_, ?_, rfl, ?_⟩
        · rw [List.take_succ_cons, List.cons_append, ← hp]
        · rw [List.take_succ_cons, tableAt_cons_of_table hk, hg]
        · rw [Nat.add_comm k 1, ← Nat.add_assoc]
          exact habs
    · rename_i hk
      obtain rfl : [mem f i] = es := by simpa using hw
      cases k with
      | zero =>
        obtain rfl : mem f i = e := by simpa using he
        exact ⟨f, i, p, rfl, rfl, rfl, by simp [hk]⟩
      | succ k => simp at he
    · simp at hw

/-! ## Memories that agree on what is read -/

/-- The entries read on the path `p` from `f` are the same in `mem'`. -/
def Agree (dec : ℕ → E → Node F) (mem mem' : F → I → E) (d : ℕ) (f : F) (p : List I) : Prop :=
  ∀ q j r g, p = q ++ j :: r → tableAt dec mem d f q = some g → mem' g j = mem g j

theorem Agree.head (ha : Agree dec mem mem' d f (i :: p)) : mem' f i = mem f i :=
  ha [] i p f rfl rfl

theorem Agree.tail (ha : Agree dec mem mem' d f (i :: p)) (he : dec d (mem f i) = .table g) :
    Agree dec mem mem' (d + 1) g p := by
  intro q j r k hp hq
  exact ha (i :: q) j r k (by rw [hp]; rfl) (by rw [tableAt_cons_of_table he, hq])

theorem tableAt_congr (ha : Agree dec mem mem' d f p) :
    tableAt dec mem' d f p = tableAt dec mem d f p := by
  induction p generalizing d f with
  | nil => rfl
  | cons i p ih =>
    simp only [tableAt, ha.head]
    split
    · rename_i g he
      exact ih (ha.tail he)
    · rfl
    · rfl

theorem walk_congr (ha : Agree dec mem mem' d f p) :
    walk dec mem' d f p = walk dec mem d f p := by
  induction p generalizing d f with
  | nil => rfl
  | cons i p ih =>
    simp only [walk, ha.head]
    split
    · rename_i g he
      rw [ih (ha.tail he)]
    · rfl
    · rfl

/-- Memories that agree on the tables below `f` agree on every path. -/
theorem Agree.of_tables (hm : ∀ q g, tableAt dec mem d f q = some g → mem' g = mem g) :
    Agree dec mem mem' d f p := by
  intro q j r g _ hq
  rw [hm q g hq]

/-- Two roots with the same entry at `i` are walked alike from there. -/
theorem walk_eq_of_slot (hs : mem g i = mem f i) :
    walk dec mem d g (i :: p) = walk dec mem d f (i :: p) := by
  simp only [walk, hs]

theorem tableAt_eq_of_slot (hs : mem g i = mem f i) :
    tableAt dec mem d g (i :: p) = tableAt dec mem d f (i :: p) := by
  simp only [tableAt, hs]

theorem walk_through_absent (hp : tableAt dec mem d f p = some g)
    (ha : dec (d + p.length) (mem g j) = .absent) (r : List I) :
    walk dec mem d f (p ++ [j] ++ r) = none := by
  obtain ⟨es, -, hes⟩ := walk_append hp
  rw [List.append_assoc, hes, List.singleton_append, walk_cons_of_absent ha]
  rfl

theorem tableAt_through_absent (hp : tableAt dec mem d f p = some g)
    (ha : dec (d + p.length) (mem g j) = .absent) (r : List I) :
    tableAt dec mem d f (p ++ [j] ++ r) = none := by
  rw [List.append_assoc, tableAt_append, hp, List.singleton_append]
  exact tableAt_cons_of_absent ha

theorem not_snoc_prefix_self (p : List I) (j : I) : ¬ p ++ [j] <+: p := by
  intro hp
  have hlen := hp.length_le
  simp at hlen

/-! ## Writing one slot -/

section Put

variable [DecidableEq F] [DecidableEq I] {e : E}

/-- The memory after one entry is written. -/
def put (mem : F → I → E) (g : F) (j : I) (e : E) : F → I → E :=
  Function.update mem g (Function.update (mem g) j e)

@[simp] theorem put_self : put mem g j e g j = e := by
  simp [put]

theorem put_of_frame_ne (hf : f ≠ g) : put mem g j e f = mem f := by
  unfold put; exact Function.update_of_ne hf ..

theorem put_of_index_ne (hi : i ≠ j) : put mem g j e g i = mem g i := by
  simp [put, hi]

theorem put_of_ne (hne : ¬ (f = g ∧ i = j)) : put mem g j e f i = mem f i := by
  by_cases hf : f = g
  · subst hf
    exact put_of_index_ne fun hi => hne ⟨rfl, hi⟩
  · rw [put_of_frame_ne hf]

/-- In a tree a slot is read only on the paths through it. -/
theorem Agree.put (ht : Tree dec mem f) (hp : tableAt dec mem 0 f p = some g)
    (hq : ¬ p ++ [j] <+: q) : Agree dec mem (put mem g j e) 0 f q := by
  intro r i t k hr hk
  refine put_of_ne ?_
  rintro ⟨rfl, rfl⟩
  obtain rfl : r = p := ht _ _ _ hk hp
  exact hq ⟨t, by simp [hr]⟩

/-- The path to the table itself does not read the slot. -/
theorem tableAt_put_self (ht : Tree dec mem f) (hp : tableAt dec mem 0 f p = some g) :
    tableAt dec (put mem g j e) 0 f p = some g := by
  rw [tableAt_congr (Agree.put ht hp (not_snoc_prefix_self p j)), hp]

theorem walk_put (ht : Tree dec mem f) (hp : tableAt dec mem 0 f p = some g)
    (hq : ¬ p ++ [j] <+: q) : walk dec (put mem g j e) 0 f q = walk dec mem 0 f q :=
  walk_congr (Agree.put ht hp hq)

/-! ### A leaf -/

theorem tableAt_put_leaf (ht : Tree dec mem f) (hp : tableAt dec mem 0 f p = some g)
    (ha : dec p.length (mem g j) = .absent) (he : dec p.length e = .leaf) (q : List I) :
    tableAt dec (put mem g j e) 0 f q = tableAt dec mem 0 f q := by
  by_cases hq : p ++ [j] <+: q
  · obtain ⟨r, rfl⟩ := hq
    rw [tableAt_through_absent hp (by simpa using ha), List.append_assoc, tableAt_append,
      tableAt_put_self ht hp]
    simp [tableAt, he]
  · exact tableAt_congr (Agree.put ht hp hq)

theorem Tree.put_leaf (ht : Tree dec mem f) (hp : tableAt dec mem 0 f p = some g)
    (ha : dec p.length (mem g j) = .absent) (he : dec p.length e = .leaf) :
    Tree dec (put mem g j e) f := by
  intro q r k
  rw [tableAt_put_leaf ht hp ha he, tableAt_put_leaf ht hp ha he]
  exact ht q r k

theorem walk_put_leaf (ht : Tree dec mem f) (hp : tableAt dec mem 0 f p = some g)
    (he : dec p.length e = .leaf) : ∃ es, es.length = p.length ∧
      ∀ r, walk dec (put mem g j e) 0 f (p ++ j :: r) = some (es ++ [e]) := by
  obtain ⟨es, hlen, hes⟩ := walk_append (tableAt_put_self (j := j) (e := e) ht hp)
  refine ⟨es, hlen, fun r => ?_⟩
  rw [hes, walk_cons_of_leaf (by simpa using he)]
  simp

/-! ### A fresh table -/

section Table

variable (ht : Tree dec mem f) (hp : tableAt dec mem 0 f p = some g)
  (ha : dec p.length (mem g j) = .absent) (he : dec p.length e = .table h)
  (hz : ∀ i, dec (p.length + 1) (mem h i) = .absent) (hh : ∀ q, tableAt dec mem 0 f q ≠ some h)

include ht hp ha he hz hh

/-- The tables after an empty table that was none is linked into an absent slot. -/
theorem tableAt_put_table (q : List I) (k : F) :
    tableAt dec (put mem g j e) 0 f q = some k ↔
      tableAt dec mem 0 f q = some k ∨ (q = p ++ [j] ∧ k = h) := by
  have hgh : h ≠ g := fun e => hh p (e ▸ hp)
  by_cases hq : p ++ [j] <+: q
  · obtain ⟨r, rfl⟩ := hq
    rw [tableAt_through_absent hp (by simpa using ha), List.append_assoc, tableAt_append,
      tableAt_put_self ht hp, Option.bind_some, Nat.zero_add, List.singleton_append,
      tableAt_cons_of_table (by simpa using he)]
    cases r with
    | nil => simp [eq_comm]
    | cons i r =>
      rw [tableAt_cons_of_absent (by rw [put_of_frame_ne hgh]; exact hz i)]
      simp
  · rw [tableAt_congr (Agree.put ht hp hq)]
    refine ⟨Or.inl, fun hk => hk.resolve_right ?_⟩
    rintro ⟨rfl, -⟩
    exact hq (List.prefix_refl _)

theorem Tree.put_table : Tree dec (put mem g j e) f := by
  intro q r k hq hr
  rw [tableAt_put_table ht hp ha he hz hh] at hq hr
  rcases hq with hq | ⟨rfl, rfl⟩ <;> rcases hr with hr | ⟨rfl, hk⟩
  · exact ht q r k hq hr
  · exact absurd (hk ▸ hq) (hh q)
  · exact absurd hr (hh r)
  · rfl

theorem walk_put_table (q : List I) :
    walk dec (put mem g j e) 0 f q = walk dec mem 0 f q := by
  have hgh : h ≠ g := fun e => hh p (e ▸ hp)
  by_cases hq : p ++ [j] <+: q
  · obtain ⟨r, rfl⟩ := hq
    obtain ⟨es, -, hes⟩ := walk_append (tableAt_put_self (j := j) (e := e) ht hp)
    rw [walk_through_absent hp (by simpa using ha), List.append_assoc, hes, Nat.zero_add,
      List.singleton_append, walk_cons_of_table (by simpa using he)]
    cases r with
    | nil => simp [walk]
    | cons i r =>
      rw [walk_cons_of_absent (by rw [put_of_frame_ne hgh]; exact hz i)]
      rfl
  · exact walk_put ht hp hq

end Table

end Put

end RadixTable
