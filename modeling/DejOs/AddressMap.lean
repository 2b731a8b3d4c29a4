import DejOs.Lib.WriteOnce
import DejOs.MapSequence

/-!
# An address space as a write-once map

Abstractly an address space is a write-once map from page numbers to leaves, and `map_page` is its
`add`: it answers `0` for a page that was not mapped and `-1`, with no change, for one that was.
The tables are what is left out, and they cost frames. Any sequence of calls on one root does to the
walks of the hardware what the additions do to the map (`mapPages_refines`), takes one frame for
every table on the way of a requested page that did not exist, however often it is passed
(`needed`), and comes back exactly when there are that many. For different pages the order of the
calls does not show (`mapPages_perm`).
-/

namespace DejOs

open RadixTable WriteOnce

/-! ## Requests -/

/-- What `map_page` is asked for. -/
structure Request where
  virt : U64
  phys : U64
  flags : U64

/-- Calls of `map_page` on one root, with their results. -/
def mapPages (root : U64) : List Request → Kernel Vm (List CInt)
  | [] => return []
  | r :: l => do
    let c ← mapPage root r.virt r.phys r.flags
    let cs ← mapPages root l
    return c :: cs

/-- The number of the page an address is in, of the 48-bit space. -/
def pageNumber (virt : U64) : ℕ := virt.toNat / 4096 % 2 ^ 36

/-- How many entries the paging unit reads for an address, and the last of them. -/
def leafOf (mem : Mem) (root virt : U64) : Option (ℕ × U64) :=
  (hwWalk mem root virt).bind fun es => es.getLast?.map fun e => (es.length, e)

/-- The entry a request is for, and its address. -/
def Request.entry (r : Request) : U64 × U64 := (r.virt, r.phys ||| r.flags)

/-- A request as an addition: a 4 KiB leaf for a page. -/
def Request.addition (r : Request) : ℕ × ℕ × U64 := (pageNumber r.virt, 4, r.phys ||| r.flags)

/-- What `map_page` returns for the answer of an addition. -/
def answer (added : Bool) : CInt := if added then 0 else -1

/-- The walks below `root` find what the map `m` says. -/
def Represents (mem : Mem) (root : U64) (m : ℕ → Option (ℕ × U64)) : Prop :=
  ∀ v, leafOf mem root v = m (pageNumber v)

/-- The paths to tables on the way of requested pages where no table is. -/
def needed (mem : Mem) (root : U64) (l : List Request) : Finset (List (Fin 512)) :=
  {p ∈ (l.flatMap fun r => (tablePath r.virt).inits).toFinset | tableFrom mem root p = none}

theorem path_eq_iff_pageNumber {v w : U64} : path v = path w ↔ pageNumber v = pageNumber w :=
  path_eq_iff v w

theorem leafOf_of_walk {mem : Mem} {root v e : U64} {es : List U64}
    (h : hwWalk mem root v = some (es ++ [e])) : leafOf mem root v = some (es.length + 1, e) := by
  simp [leafOf, h]

theorem leafOf_eq_none {mem : Mem} {root v : U64} :
    leafOf mem root v = none ↔ hwWalk mem root v = none := by
  unfold leafOf hwWalk
  cases hw : RadixTable.walk decode mem 0 root (path v) with
  | none => simp
  | some es =>
    have hne : es ≠ [] := by
      rintro rfl
      exact absurd (walk_head hw) List.not_mem_nil
    simp [hne]

theorem leafOf_congr {mem mem' : Mem} {root v w : U64}
    (h : hwWalk mem' root v = hwWalk mem root w) : leafOf mem' root v = leafOf mem root w := by
  unfold leafOf
  rw [h]

/-- The physical address depends on the leaf and its level. -/
theorem translate_of_leafOf {mem mem' : Mem} {root v : U64}
    (h : leafOf mem' root v = leafOf mem root v) :
    translate mem' root v = translate mem root v := by
  have heq : ∀ mem : Mem, translate mem root v = (leafOf mem root v).map fun x =>
      ((x.2 &&& frameMask) >>> (12 + 9 * (4 - x.1)) <<< (12 + 9 * (4 - x.1))) |||
        (v &&& (BitVec.ofNat 64 (2 ^ (12 + 9 * (4 - x.1)) - 1))) := by
    intro mem
    unfold translate leafOf
    cases hwWalk mem root v with
    | none => rfl
    | some es =>
      show es.getLast?.map _ = (es.getLast?.map _).map _
      rw [Option.map_map]
      rfl
  rw [heq, heq, h]

/-! ## The tables a call needs -/

section Tables

variable {V : Set U64} {root v phys flags : U64} {s s' : Vm} {c : CInt}

theorem isSome_of_prefix {mem : Mem} {p q : List (Fin 512)} (h : q <+: p)
    (hp : tableFrom mem root p ≠ none) : tableFrom mem root q ≠ none := by
  obtain ⟨r, rfl⟩ := h
  intro hq
  refine hp ((tableAt_append q r).trans ?_)
  rw [show tableAt decode mem 0 root q = none from hq]
  rfl

theorem mem_needed {mem : Mem} {l : List Request} {q : List (Fin 512)} :
    q ∈ needed mem root l ↔
      (∃ r ∈ l, q <+: tablePath r.virt) ∧ tableFrom mem root q = none := by
  simp [needed]

/-- The frames a call takes are those of the tables that are not there. -/
theorem missing_eq_card (mem : Mem) (root : U64) (r : Request) :
    missing mem root r.virt = (needed mem root [r]).card := by
  have hnodup : (tablePath r.virt).inits.Nodup := by
    simp [tablePath, List.inits]
  have hcount : (needed mem root [r]).card =
      ((tablePath r.virt).inits.map fun p => lacks mem root p).sum := by
    unfold needed
    rw [Finset.card_filter, List.flatMap_singleton, List.sum_toFinset _ hnodup]
    refine congrArg List.sum (List.map_congr_left fun p _ => ?_)
    unfold lacks
    cases tableFrom mem root p <;> rfl
  have hroot : lacks mem root [] = 0 := rfl
  rw [hcount]
  simp [missing, tablePath, lacksOn, List.inits, hroot]

/-- After a call that came back the tables on the way are there, and no others are new. -/
theorem mapPage_tables (hw : WellFormed V root s) (hv : v ∈ V)
    (he : present (phys ||| flags) = true) (h : mapPage root v phys flags s = .ok c s')
    (q : List (Fin 512)) :
    tableFrom s'.mem root q = none ↔ tableFrom s.mem root q = none ∧ ¬ q <+: tablePath v := by
  rcases Nat.lt_or_ge s.free.length (missing s.mem root v) with hlt | hge
  · obtain ⟨s'', h''⟩ := mapPage_exhausted hw hv hlt
    rw [h''] at h
    cases h
  obtain ⟨t, s₁, ht, d⟩ := descend_descends hw hv (p := []) (l := tablePath v) (q := [index v 12])
    rfl (by simp) rfl hge
  have hdesc : tableFrom s₁.mem root q = none ↔
      tableFrom s.mem root q = none ∧ ¬ q <+: tablePath v := by
    by_cases hq : q <+: tablePath v
    · have hsome : tableFrom s₁.mem root q ≠ none :=
        isSome_of_prefix hq (by rw [← List.nil_append (tablePath v), d.table]; simp)
      simp [hq, hsome]
    · rw [d.below q hq]
      simp [hq]
  rw [← hdesc]
  rw [mapPage_eq, Kernel.bind_of_ok ht] at h
  cases hj : present (s₁.mem t (index v 12)) with
  | true =>
    rw [mapLeaf_of_present hj] at h
    obtain ⟨-, rfl⟩ := EStateM.Result.ok.inj h
    rfl
  | false =>
    rw [mapLeaf_of_absent hj] at h
    obtain ⟨-, rfl⟩ := EStateM.Result.ok.inj h
    rw [tableFrom_leaf d.wf d.table hj he]

/-- What the first call makes is not needed by the rest. -/
theorem needed_cons {l : List Request} {r : Request} (hw : WellFormed V root s) (hv : r.virt ∈ V)
    (he : present (r.phys ||| r.flags) = true)
    (h : mapPage root r.virt r.phys r.flags s = .ok c s') :
    (needed s.mem root (r :: l)).card = missing s.mem root r.virt +
      (needed s'.mem root l).card := by
  have htables := mapPage_tables hw hv he h
  have hunion : needed s.mem root (r :: l) = needed s.mem root [r] ∪ needed s'.mem root l := by
    ext q
    simp only [Finset.mem_union, mem_needed, htables, List.mem_cons, List.not_mem_nil, or_false,
      exists_eq_or_imp, exists_eq_left]
    tauto
  have hdisj : Disjoint (needed s.mem root [r]) (needed s'.mem root l) := by
    rw [Finset.disjoint_left]
    intro q hq hq'
    obtain ⟨⟨r', hr', hpre⟩, -⟩ := mem_needed.mp hq
    obtain rfl := List.mem_singleton.mp hr'
    exact ((htables q).mp (mem_needed.mp hq').2).2 hpre
  rw [hunion, Finset.card_union_of_disjoint hdisj, ← missing_eq_card]

theorem missing_le_needed (mem : Mem) (r : Request) (l : List Request) :
    missing mem root r.virt ≤ (needed mem root (r :: l)).card := by
  rw [missing_eq_card]
  refine Finset.card_le_card fun q hq => ?_
  obtain ⟨⟨r', hr', hpre⟩, hnone⟩ := mem_needed.mp hq
  obtain rfl := List.mem_singleton.mp hr'
  exact mem_needed.mpr ⟨⟨r', List.mem_cons_self, hpre⟩, hnone⟩

/-- The first of several calls takes as many frames as are needed less behind it. -/
theorem mapPage_first {l : List Request} {r : Request} (hw : WellFormed V root s) (hv : r.virt ∈ V)
    (he : present (r.phys ||| r.flags) = true)
    (hfree : (needed s.mem root (r :: l)).card ≤ s.free.length) :
    ∃ c s', mapPage root r.virt r.phys r.flags s = .ok c s' ∧
      s.free.length + (needed s'.mem root l).card =
        s'.free.length + (needed s.mem root (r :: l)).card := by
  have hfirst := (missing_le_needed s.mem r l).trans hfree
  obtain ⟨c, s', h, hlen⟩ := mapPage_returns hw hv he hfirst
  refine ⟨c, s', h, ?_⟩
  rw [needed_cons hw hv he h, hlen]
  omega

/-- `n` consecutive pages from a 2 MiB boundary on need at most three tables for every 512. -/
theorem needed_le_blocks (mem : Mem) (root : U64) {base : U64} (hb : base.toNat % 2 ^ 21 = 0)
    {n : ℕ} {l : List Request} (hl : ∀ r ∈ l, ∃ k < n, r.virt = pageAt base k) :
    (needed mem root l).card ≤ 3 * ((n + 511) / 512) := by
  have hsub : needed mem root l ⊆ (Finset.range ((n + 511) / 512)).biUnion fun b =>
      (tablePath (pageAt base (512 * b))).inits.tail.toFinset := by
    intro q hq
    obtain ⟨⟨r, hr, hpre⟩, hnone⟩ := mem_needed.mp hq
    obtain ⟨k, hk, hvirt⟩ := hl r hr
    have hpath : tablePath (pageAt base k) = tablePath (pageAt base (512 * (k / 512))) := by
      unfold tablePath
      simp only [List.cons.injEq, and_true, Fin.ext_iff, index_val, pageAt_toNat]
      omega
    have hne : q ≠ [] := by
      rintro rfl
      cases hnone
    rw [hvirt, hpath] at hpre
    refine Finset.mem_biUnion.mpr ⟨k / 512, Finset.mem_range.mpr (by omega), ?_⟩
    have hinits := (List.mem_inits ..).mpr hpre
    exact List.mem_toFinset.mpr ((List.mem_cons.mp hinits).resolve_left hne)
  refine (Finset.card_le_card hsub).trans ?_
  refine (Finset.card_biUnion_le_card_mul _ _ 3 fun b _ => ?_).trans ?_
  · exact List.toFinset_card_le _
  · rw [Finset.card_range, Nat.mul_comm]

end Tables

/-! ## Calls as additions -/

section Refine

variable {V : Set U64} {root : U64} {s : Vm} {r : Request} {l : List Request}
  {m : ℕ → Option (ℕ × U64)}

/-- `s'` is `s` after the additions `l`, with `n` frames taken, and `cs` are their results. -/
structure Refined (V : Set U64) (root : U64) (m : ℕ → Option (ℕ × U64)) (l : List Request) (n : ℕ)
    (s : Vm) (cs : List CInt) (s' : Vm) : Prop where
  wf : WellFormed V root s'
  results : cs = (addAll m (l.map Request.addition)).1.map answer
  represents : Represents s'.mem root (addAll m (l.map Request.addition)).2
  free : s'.free = s.free.drop n

/-- **One call is one addition.** -/
theorem mapPage_refines (hw : WellFormed V root s) (hv : r.virt ∈ V)
    (he : present (r.phys ||| r.flags) = true) (hm : Represents s.mem root m)
    (hfree : missing s.mem root r.virt ≤ s.free.length) :
    ∃ s', mapPage root r.virt r.phys r.flags s =
        .ok (answer (add m r.addition.1 r.addition.2).1) s' ∧ WellFormed V root s' ∧
      Represents s'.mem root (add m r.addition.1 r.addition.2).2 ∧
      s'.free = s.free.drop (missing s.mem root r.virt) := by
  by_cases hwalk : hwWalk s.mem root r.virt = none
  · have hnone : m r.addition.1 = none := (hm r.virt).symm.trans (leafOf_eq_none.mpr hwalk)
    obtain ⟨s', h, d⟩ := mapPage_of_unmapped hw hv he hwalk hfree
    have hadd : (add m r.addition.1 r.addition.2).1 = true := by rw [add_fst, hnone]; rfl
    rw [hadd]
    refine ⟨s', h, d.wf, fun w => ?_, d.free⟩
    by_cases hpath : path w = path r.virt
    · have hpage : pageNumber w = r.addition.1 := path_eq_iff_pageNumber.mp hpath
      obtain ⟨es, hlen, hes⟩ := d.walk
      rw [leafOf_congr (hwWalk_congr hpath), leafOf_of_walk hes, hlen, hpage, add_self, hnone]
      rfl
    · have hpage : pageNumber w ≠ r.addition.1 := fun e => hpath (path_eq_iff_pageNumber.mpr e)
      rw [leafOf_congr (d.others w hpath), add_of_ne hpage, hm]
  · have hsome : m r.addition.1 ≠ none := fun e =>
      hwalk (leafOf_eq_none.mp ((hm r.virt).trans e))
    have hadd : add m r.addition.1 r.addition.2 = (false, m) := by
      unfold add
      rw [if_neg hsome]
    rw [hadd]
    refine ⟨s, mapPage_of_mapped hw hv hwalk, hw, hm, ?_⟩
    rw [missing_of_mapped hw hv hwalk, List.drop_zero]

theorem mapPages_of_le (hw : WellFormed V root s)
    (hl : ∀ r ∈ l, r.virt ∈ V ∧ present (r.phys ||| r.flags) = true)
    (hm : Represents s.mem root m) (hfree : (needed s.mem root l).card ≤ s.free.length) :
    ∃ cs s', mapPages root l s = .ok cs s' ∧
      Refined V root m l (needed s.mem root l).card s cs s' := by
  induction l generalizing s m with
  | nil => exact ⟨[], s, rfl, hw, rfl, hm, rfl⟩
  | cons r l ih =>
    obtain ⟨⟨hv, he⟩, hl⟩ := List.forall_mem_cons.mp hl
    have hfirst : missing s.mem root r.virt ≤ s.free.length :=
      (missing_le_needed s.mem r l).trans hfree
    obtain ⟨s₁, h₁, hw₁, hm₁, hf₁⟩ := mapPage_refines hw hv he hm hfirst
    have hcard := needed_cons (l := l) hw hv he h₁
    have hrest : (needed s₁.mem root l).card ≤ s₁.free.length := by
      rw [hf₁, List.length_drop]
      omega
    obtain ⟨cs, s₂, h₂, d⟩ := ih hw₁ hl hm₁ hrest
    refine ⟨answer (add m r.addition.1 r.addition.2).1 :: cs, s₂, ?_, d.wf, ?_, d.represents, ?_⟩
    · show (mapPage root r.virt r.phys r.flags >>= fun c =>
        mapPages root l >>= fun cs => pure (c :: cs)) s = _
      rw [Kernel.bind_of_ok h₁, Kernel.bind_of_ok h₂]
      rfl
    · rw [d.results]
      rfl
    · rw [d.free, hf₁, List.drop_drop, hcard]

theorem mapPages_exhausted (hw : WellFormed V root s)
    (hl : ∀ r ∈ l, r.virt ∈ V ∧ present (r.phys ||| r.flags) = true)
    (hm : Represents s.mem root m) (hfree : s.free.length < (needed s.mem root l).card) :
    ∃ s', mapPages root l s =
      .error (.panic "Raw Page requested but allocator exahusted" .nomem) s' := by
  induction l generalizing s m with
  | nil => simp [needed] at hfree
  | cons r l ih =>
    obtain ⟨⟨hv, he⟩, hl⟩ := List.forall_mem_cons.mp hl
    rcases Nat.lt_or_ge s.free.length (missing s.mem root r.virt) with hlt | hge
    · obtain ⟨s', h⟩ := mapPage_exhausted hw hv hlt
      exact ⟨s', Kernel.bind_of_error h⟩
    · obtain ⟨s₁, h₁, hw₁, hm₁, hf₁⟩ := mapPage_refines hw hv he hm hge
      have hcard := needed_cons (l := l) hw hv he h₁
      have hrest : s₁.free.length < (needed s₁.mem root l).card := by
        rw [hf₁, List.length_drop]
        omega
      obtain ⟨s', h⟩ := ih hw₁ hl hm₁ hrest
      refine ⟨s', ?_⟩
      show (mapPage root r.virt r.phys r.flags >>= fun c =>
        mapPages root l >>= fun cs => pure (c :: cs)) s = _
      rw [Kernel.bind_of_ok h₁, Kernel.bind_of_error h]

/-- **`map_page` refines the write-once map.** Of a well-formed root, calls for any sequence of
present pages come back exactly if there is a free frame for every table that is needed, and panic
otherwise. When they come back, their results are the answers of the additions and the walks of the
hardware are the map after them. -/
theorem mapPages_refines (hw : WellFormed V root s) (hm : Represents s.mem root m)
    (hl : ∀ r ∈ l, r.virt ∈ V ∧ r.flags &&& pagePresent = pagePresent) :
    ((∃ cs s', mapPages root l s = .ok cs s') ↔
      (needed s.mem root l).card ≤ s.free.length) ∧
    (∀ cs s', mapPages root l s = .ok cs s' →
      Refined V root m l (needed s.mem root l).card s cs s') ∧
    (s.free.length < (needed s.mem root l).card → ∃ s', mapPages root l s =
      .error (.panic "Raw Page requested but allocator exahusted" .nomem) s') := by
  have hpresent : ∀ r ∈ l, r.virt ∈ V ∧ present (r.phys ||| r.flags) = true := fun r hr =>
    ⟨(hl r hr).1, present_or (hl r hr).2⟩
  have hexhausted := mapPages_exhausted hw hpresent hm
  have hle : ∀ cs s', mapPages root l s = .ok cs s' →
      (needed s.mem root l).card ≤ s.free.length := by
    intro cs s' h
    by_contra hlt
    obtain ⟨s'', h''⟩ := hexhausted (by omega)
    rw [h''] at h
    cases h
  refine ⟨⟨fun ⟨cs, s', h⟩ => hle cs s' h, fun hfree => ?_⟩, fun cs s' h => ?_, hexhausted⟩
  · obtain ⟨cs, s', h, -⟩ := mapPages_of_le hw hpresent hm hfree
    exact ⟨cs, s', h⟩
  · obtain ⟨cs', s'', h', d⟩ := mapPages_of_le hw hpresent hm (hle cs s' h)
    obtain ⟨rfl, rfl⟩ := EStateM.Result.ok.inj (h'.symm.trans h)
    exact d

/-- Two pages behind one last table, the second asked for twice. -/
theorem mapPages_refines_blank :
    ∃ s', mapPages 0x9000 [⟨0x400000, 0xA000, 3⟩, ⟨0x401000, 0xB000, 3⟩, ⟨0x401FFF, 0xC000, 3⟩]
        (blankVm [0x1000, 0x2000, 0x3000, 0x4000]) = .ok [0, 0, -1] s' ∧
      leafOf s'.mem 0x9000 0x401FFF = some (4, 0xB003) ∧ s'.free = [0x4000] := by
  have hw : WellFormed Set.univ 0x9000 (blankVm [0x1000, 0x2000, 0x3000, 0x4000]) :=
    blankVm_wellFormed _ (by simp [IsFrame]) (by decide) (by decide)
  have hm : Represents (blankVm [0x1000, 0x2000, 0x3000, 0x4000]).mem 0x9000 fun _ => none :=
    fun _ => leafOf_eq_none.mpr (walk_cons_of_absent (decode_of_not_present
      (by simp [blankVm, present])))
  obtain ⟨hiff, hok, -⟩ := @mapPages_refines _ _ _
    [⟨0x400000, 0xA000, 3⟩, ⟨0x401000, 0xB000, 3⟩, ⟨0x401FFF, 0xC000, 3⟩] _ hw hm
    (by simp [pagePresent])
  obtain ⟨cs, s', h⟩ := hiff.mpr (by decide)
  have d := hok cs s' h
  obtain rfl : cs = [0, 0, -1] := d.results.trans (by decide)
  exact ⟨s', h, d.represents _, d.free⟩

end Refine

/-! ## The order of calls -/

section Order

variable {V : Set U64} {root : U64} {s s₁ : Vm} {l l' : List Request} {cs : List CInt}

/-- The map a root represents. -/
def pageMap (mem : Mem) (root : U64) (n : ℕ) : Option (ℕ × U64) :=
  leafOf mem root (BitVec.ofNat 64 (4096 * n))

theorem represents_pageMap (mem : Mem) (root : U64) : Represents mem root (pageMap mem root) := by
  intro v
  refine leafOf_congr (hwWalk_congr (path_eq_iff_pageNumber.mpr ?_))
  unfold pageNumber
  rw [BitVec.toNat_ofNat]
  omega

theorem needed_perm (mem : Mem) (root : U64) (hp : l.Perm l') :
    needed mem root l = needed mem root l' := by
  ext q
  simp only [mem_needed, hp.mem_iff]

/-- **The order of `map_page` calls for different pages does not matter.** If they come back in one
order they come back in every order, with the same result for each request, the same address space
and the same free frames. -/
theorem mapPages_perm (hw : WellFormed V root s)
    (hl : ∀ r ∈ l, r.virt ∈ V ∧ r.flags &&& pagePresent = pagePresent)
    (hpages : (l.map fun r => pageNumber r.virt).Nodup) (hp : l.Perm l')
    (h : mapPages root l s = .ok cs s₁) :
    ∃ cs' s₂, mapPages root l' s = .ok cs' s₂ ∧ (l'.zip cs').Perm (l.zip cs) ∧
      (∀ v, leafOf s₂.mem root v = leafOf s₁.mem root v ∧
        translate s₂.mem root v = translate s₁.mem root v) ∧
      s₂.free = s₁.free ∧ WellFormed V root s₂ := by
  have hm := represents_pageMap s.mem root
  have hpresent : ∀ r ∈ l, r.virt ∈ V ∧ present (r.phys ||| r.flags) = true := fun r hr =>
    ⟨(hl r hr).1, present_or (hl r hr).2⟩
  have hfree : (needed s.mem root l).card ≤ s.free.length := by
    by_contra hlt
    obtain ⟨s'', h''⟩ := mapPages_exhausted hw hpresent hm (by omega)
    rw [h''] at h
    cases h
  obtain ⟨cs₁, s₁', h₁, d₁⟩ := mapPages_of_le hw hpresent hm hfree
  obtain ⟨rfl, rfl⟩ := EStateM.Result.ok.inj (h.symm.trans h₁)
  obtain ⟨cs₂, s₂, h₂, d₂⟩ := mapPages_of_le (l := l') hw
    (fun r hr => hpresent r (hp.mem_iff.mpr hr)) hm (by rwa [← needed_perm s.mem root hp])
  have hkeys : ((l.map Request.addition).map Prod.fst).Nodup := by
    rw [List.map_map]
    exact hpages
  have hperm := hp.map Request.addition
  have hkeys' := (hperm.map Prod.fst).nodup_iff.mp hkeys
  have hleaf : ∀ v, leafOf s₂.mem root v = leafOf s₁.mem root v := fun v => by
    rw [d₁.represents, d₂.represents, addAll_perm _ hkeys hperm]
  refine ⟨cs₂, s₂, h₂, ?_, fun v => ⟨hleaf v, translate_of_leafOf (hleaf v)⟩, ?_, d₂.wf⟩
  · rw [d₁.results, d₂.results, addAll_answers _ hkeys, addAll_answers _ hkeys']
    simp only [List.map_map, ← List.map_prod_left_eq_zip]
    exact hp.symm.map _
  · rw [d₁.free, d₂.free, needed_perm s.mem root hp]

/-- Two pages behind one last table, in either order. -/
theorem mapPages_perm_blank :
    ∃ cs s₁ cs' s₂, mapPages 0x9000 [⟨0x400000, 0xA000, 3⟩, ⟨0x401000, 0xB000, 3⟩]
        (blankVm [0x1000, 0x2000, 0x3000]) = .ok cs s₁ ∧
      mapPages 0x9000 [⟨0x401000, 0xB000, 3⟩, ⟨0x400000, 0xA000, 3⟩]
        (blankVm [0x1000, 0x2000, 0x3000]) = .ok cs' s₂ ∧
      ∀ v, translate s₂.mem 0x9000 v = translate s₁.mem 0x9000 v := by
  have hw : WellFormed Set.univ 0x9000 (blankVm [0x1000, 0x2000, 0x3000]) :=
    blankVm_wellFormed _ (by simp [IsFrame]) (by decide) (by decide)
  obtain ⟨cs, s₁, h, -⟩ := @mapPages_of_le _ 0x9000 _
    [⟨0x400000, 0xA000, 3⟩, ⟨0x401000, 0xB000, 3⟩] _ hw (by decide) (represents_pageMap _ _)
    (by decide)
  obtain ⟨cs', s₂, h', -, hwalks, -⟩ := mapPages_perm hw (by simp [pagePresent]) (by decide)
    (List.Perm.swap ..) h
  exact ⟨cs, s₁, cs', s₂, h, h', fun v => (hwalks v).2⟩

end Order

end DejOs
