import DejOs.Lib.Interleaving
import DejOs.Allocator

/-!
# The page allocator called by many CPUs

`KGetPage`, `__giverawpage` and `retpage` again, now as the single shared-memory accesses they make,
interleaved in any order between any number of CPUs. `Pc` names the access a CPU makes next;
`aquire_lock` is `check`, `spin`, `tag`, the scan is `scan`, `mark`, `release_lock` is `untag`,
`unhold`, and `retpage`, which takes no lock, is `search`, `probe`, `clear`.

Two components of `State` are not in the program. `owned` lists the pages the callers have: a page
belongs to a CPU from the write of its flag on that CPU's behalf until `retpage` clears the flag.
`holder` is the CPU whose exchange took the lock.

The main invariant `Inv` is kept by every step as long as only the holder is let through by
`aquire_lock` (`OwnPass`) and `retpage` is called on owned pages (`RetOwned`). With numbers that are
pairwise distinct and not `-1`, `OwnPass` is a consequence (`no_double_ownership`).
-/

namespace DejOs

open Interleaving Allocator

namespace Smp

/-- The two functions that allocate. -/
inductive Get
  | kGetPage
  | giveRawPage
  deriving DecidableEq, Repr

/-- Where a CPU is in the allocator's code: the access it makes next. -/
inductive Pc
  /-- Outside the allocator. -/
  | idle
  /-- `if (lock->holding_cpu == current_cpu) return` -/
  | check (f : Get) (current : CInt)
  /-- `while (atomic_exchange(&lock->held, true))` -/
  | spin (f : Get) (current : CInt)
  /-- `lock->holding_cpu = current_cpu` -/
  | tag (f : Get) (current : CInt)
  /-- `if (page_list[i].used == false) break`, or the end of the loop -/
  | scan (f : Get) (i : ℕ)
  /-- `page_list[i].used = true` -/
  | mark (f : Get) (i : ℕ)
  /-- `lock->holding_cpu = -1` -/
  | untag (f : Get) (i : ℕ)
  /-- `atomic_store(&lock->held, false)` -/
  | unhold (f : Get) (i : ℕ)
  /-- `return page_list[i].start` -/
  | load (f : Get) (i : ℕ)
  /-- `if (page_list[i].start == ptr)`, or the end of the loop -/
  | search (addr : U64) (i : ℕ)
  /-- `if (page_list[i].used == true)` -/
  | probe (addr : U64) (i : ℕ)
  /-- `page_list[i].used = false` -/
  | clear (addr : U64) (i : ℕ)
  /-- In `panic`. -/
  | halted
  deriving DecidableEq, Repr

variable {ι : Type}

/-- The shared memory, the registers of every CPU, and the two ghost components. -/
structure State (ι : Type) where
  pages : List Page
  lock : Lock
  hhdm : U64
  /-- The GS base MSR. -/
  gsBase : ι → U64
  /-- The `cpu_id` word of the per-CPU block at an address. -/
  cpuId : U64 → U64
  pc : ι → Pc
  /-- What the last call returned. -/
  ret : ι → U64
  owned : List (ι × U64)
  holder : Option ι

/-- `current_cpu` of a CPU. -/
def State.current (s : State ι) (c : ι) : CInt := Cpu.current ⟨s.gsBase c, s.cpuId (s.gsBase c)⟩

/-- A move of a CPU. -/
inductive Act
  | call (r : Call)
  | run
  deriving DecidableEq, Repr

section Step

variable [DecidableEq ι]

/-- CPU `c` goes on at `p`. -/
def State.goto (s : State ι) (c : ι) (p : Pc) : State ι := { s with pc := Function.update s.pc c p }

/-- The value `KGetPage` or `__giverawpage` returns for page `i`. -/
def State.result (s : State ι) : Get → ℕ → U64
  | .kGetPage, i => startAt s.pages i + s.hhdm
  | .giveRawPage, i => startAt s.pages i

/-- Enters a call. `current_cpu` is a local variable, read here from the CPU's own block. -/
def State.enter (s : State ι) (c : ι) : Call → State ι
  | .kGetPage => s.goto c (.check .kGetPage (s.current c))
  | .giveRawPage => s.goto c (.check .giveRawPage (s.current c))
  | .retPage ptr => s.goto c (.search (ptr - s.hhdm) 0)

/-- The next access of a CPU inside a call. -/
def State.step (s : State ι) (c : ι) : Option (State ι) :=
  match s.pc c with
  | .idle | .halted => none
  | .check f n => if s.lock.passes n then s.goto c (.scan f 0) else s.goto c (.spin f n)
  | .spin f n =>
    if s.lock.held then some { s with lock := s.lock.exchange }
    else some { s.goto c (.tag f n) with lock := s.lock.exchange, holder := some c }
  | .tag f n => some { s.goto c (.scan f 0) with lock := s.lock.tag n }
  | .scan f i =>
    match s.pages[i]? with
    | some p => if p.used then s.goto c (.scan f (i + 1)) else s.goto c (.mark f i)
    | none =>
      match f with
      | .kGetPage => some { s.goto c .idle with ret := Function.update s.ret c 0 }
      | .giveRawPage => s.goto c .halted
  | .mark f i =>
    some { s.goto c (.untag f i) with
      pages := setUsed s.pages i true
      owned := (c, startAt s.pages i) :: s.owned }
  | .untag f i => some { s.goto c (.unhold f i) with lock := s.lock.untag }
  | .unhold f i => some { s.goto c (.load f i) with lock := s.lock.unhold, holder := none }
  | .load f i => some { s.goto c .idle with ret := Function.update s.ret c (s.result f i) }
  | .search a i =>
    match s.pages[i]? with
    | some p => if p.start = a then s.goto c (.probe a i) else s.goto c (.search a (i + 1))
    | none => s.goto c .halted
  | .probe a i =>
    match s.pages[i]? with
    | some p => if p.used then s.goto c (.clear a i) else s.goto c .halted
    | none => s.goto c .halted
  | .clear a i =>
    some { s.goto c .idle with
      pages := setUsed s.pages i false
      owned := s.owned.erase (c, a) }

/-- One move of one CPU. -/
def next (s : State ι) : ι × Act → Option (State ι)
  | (c, .call r) => if s.pc c = .idle then s.enter c r else none
  | (c, .run) => s.step c

/-- What one access does, case by case. -/
inductive Trans (s : State ι) (c : ι) : State ι → Prop
  | pass {f n} (h : s.pc c = .check f n) (hn : s.lock.passes n) : Trans s c (s.goto c (.scan f 0))
  | miss {f n} (h : s.pc c = .check f n) (hn : ¬ s.lock.passes n) :
      Trans s c (s.goto c (.spin f n))
  | poll {f n} (h : s.pc c = .spin f n) (hl : s.lock.held = true) :
      Trans s c { s with lock := s.lock.exchange }
  | take {f n} (h : s.pc c = .spin f n) (hl : s.lock.held = false) :
      Trans s c { s.goto c (.tag f n) with lock := s.lock.exchange, holder := some c }
  | tag {f n} (h : s.pc c = .tag f n) :
      Trans s c { s.goto c (.scan f 0) with lock := s.lock.tag n }
  | busy {f i p} (h : s.pc c = .scan f i) (hp : s.pages[i]? = some p) (hu : p.used = true) :
      Trans s c (s.goto c (.scan f (i + 1)))
  | found {f i p} (h : s.pc c = .scan f i) (hp : s.pages[i]? = some p) (hu : p.used = false) :
      Trans s c (s.goto c (.mark f i))
  | fail {i} (h : s.pc c = .scan .kGetPage i) (hp : s.pages[i]? = none) :
      Trans s c { s.goto c .idle with ret := Function.update s.ret c 0 }
  | exhausted {i} (h : s.pc c = .scan .giveRawPage i) (hp : s.pages[i]? = none) :
      Trans s c (s.goto c .halted)
  | mark {f i} (h : s.pc c = .mark f i) :
      Trans s c { s.goto c (.untag f i) with
        pages := setUsed s.pages i true
        owned := (c, startAt s.pages i) :: s.owned }
  | untag {f i} (h : s.pc c = .untag f i) :
      Trans s c { s.goto c (.unhold f i) with lock := s.lock.untag }
  | unhold {f i} (h : s.pc c = .unhold f i) :
      Trans s c { s.goto c (.load f i) with lock := s.lock.unhold, holder := none }
  | load {f i} (h : s.pc c = .load f i) :
      Trans s c { s.goto c .idle with ret := Function.update s.ret c (s.result f i) }
  | skip {a i p} (h : s.pc c = .search a i) (hp : s.pages[i]? = some p) (hs : p.start ≠ a) :
      Trans s c (s.goto c (.search a (i + 1)))
  | hit {a i p} (h : s.pc c = .search a i) (hp : s.pages[i]? = some p) (hs : p.start = a) :
      Trans s c (s.goto c (.probe a i))
  | lost {a i} (h : s.pc c = .search a i ∨ s.pc c = .probe a i) : Trans s c (s.goto c .halted)
  | inUse {a i} (h : s.pc c = .probe a i) : Trans s c (s.goto c (.clear a i))
  | clear {a i} (h : s.pc c = .clear a i) :
      Trans s c { s.goto c .idle with
        pages := setUsed s.pages i false
        owned := s.owned.erase (c, a) }

theorem trans_of_step {s s' : State ι} {c : ι} (h : s.step c = some s') : Trans s c s' := by
  unfold State.step at h
  split at h
  · cases h
  · cases h
  · rename_i f n hpc
    split_ifs at h with hn
    · cases h; exact .pass hpc hn
    · cases h; exact .miss hpc hn
  · rename_i f n hpc
    split_ifs at h with hl
    · cases h; exact .poll hpc hl
    · cases h; exact .take hpc (by simpa using hl)
  · rename_i f n hpc
    cases h; exact .tag hpc
  · rename_i f i hpc
    split at h
    · rename_i p hp
      split_ifs at h with hu
      · cases h; exact .busy hpc hp hu
      · cases h; exact .found hpc hp (by simpa using hu)
    · rename_i hp
      cases f with
      | kGetPage => cases h; exact .fail hpc hp
      | giveRawPage => cases h; exact .exhausted hpc hp
  · rename_i f i hpc
    cases h; exact .mark hpc
  · rename_i f i hpc
    cases h; exact .untag hpc
  · rename_i f i hpc
    cases h; exact .unhold hpc
  · rename_i f i hpc
    cases h; exact .load hpc
  · rename_i a i hpc
    split at h
    · rename_i p hp
      split_ifs at h with hs
      · cases h; exact .hit hpc hp hs
      · cases h; exact .skip hpc hp hs
    · cases h; exact .lost (Or.inl hpc)
  · rename_i a i hpc
    split at h
    · split_ifs at h with hu
      · cases h; exact .inUse hpc
      · cases h; exact .lost (Or.inr hpc)
    · cases h; exact .lost (Or.inr hpc)
  · rename_i a i hpc
    cases h; exact .clear hpc

end Step

/-! ## Side conditions -/

/-- `retpage` is called on a page its caller owns. -/
def RetOwned (s : State ι) : ι × Act → Prop
  | (c, .call (.retPage ptr)) => (c, ptr - s.hhdm) ∈ s.owned
  | _ => True

/-- The next access of `c` lets it through `aquire_lock` although it did not take the lock. -/
def State.intrudes [DecidableEq ι] (s : State ι) (c : ι) : Bool :=
  match s.pc c with
  | .check _ n => s.lock.passes n && s.holder != some c
  | _ => false

/-- `aquire_lock` returns early only on the CPU that took the lock. -/
def OwnPass [DecidableEq ι] (s : State ι) : ι × Act → Prop
  | (c, .run) => s.intrudes c = false
  | _ => True

theorem holder_of_passes [DecidableEq ι] {s : State ι} {c : ι} {f : Get} {n : CInt}
    (h : s.intrudes c = false) (hpc : s.pc c = .check f n) (hn : s.lock.passes n) :
    s.holder = some c := by
  unfold State.intrudes at h
  simpa [hpc, hn] using h

/-! ## The invariant -/

/-- What holds of a CPU at a place in the code. -/
def PcOk (s : State ι) (c : ι) : Pc → Prop
  | .idle | .halted | .check _ _ | .spin _ _ => True
  | .tag _ _ | .scan _ _ => s.holder = some c
  | .mark _ i => s.holder = some c ∧ ∃ p, s.pages[i]? = some p ∧ p.used = false
  | .untag _ i | .unhold _ i =>
    s.holder = some c ∧ ∃ p, s.pages[i]? = some p ∧ (c, p.start) ∈ s.owned
  | .load _ i => ∃ p, s.pages[i]? = some p ∧ (c, p.start) ∈ s.owned
  | .search a _ => (c, a) ∈ s.owned
  | .probe a i | .clear a i => (c, a) ∈ s.owned ∧ ∃ p, s.pages[i]? = some p ∧ p.start = a

/-- Who holds the lock, who owns which page, and where everybody is. -/
structure Inv (s : State ι) : Prop where
  starts : (s.pages.map Page.start).Nodup
  held : s.lock.held = s.holder.isSome
  nodup : (s.owned.map Prod.snd).Nodup
  used : ∀ c a, (c, a) ∈ s.owned → ⟨a, true⟩ ∈ s.pages
  pcs : ∀ c, PcOk s c (s.pc c)

section Keep

variable {s s' : State ι} {c : ι}

theorem PcOk.congr {t : State ι} {d : ι} {p : Pc} (hp : t.pages = s.pages)
    (ho : t.owned = s.owned) (hh : t.holder = s.holder) : PcOk t d p ↔ PcOk s d p := by
  cases p <;> simp only [PcOk, hp, ho, hh]

/-- A CPU that is not the holder keeps its place when the holder changes. -/
theorem PcOk.of_not_holder {t : State ι} {d : ι} {p : Pc} (h : PcOk s d p)
    (hd : s.holder ≠ some d) (hp : t.pages = s.pages) (ho : t.owned = s.owned) : PcOk t d p := by
  cases p with
  | idle | halted | check | spin => trivial
  | tag | scan => exact absurd h hd
  | mark | untag | unhold => exact absurd h.1 hd
  | load | search | probe | clear => simpa only [PcOk, hp, ho] using h

theorem pcOk_of_eq (h : Inv s) {p : Pc} (hpc : s.pc c = p) : PcOk s c p := hpc ▸ h.pcs c

theorem Inv.percpu (h : Inv s) (gsBase : ι → U64) (cpuId : U64 → U64) :
    Inv { s with gsBase := gsBase, cpuId := cpuId } :=
  ⟨h.starts, h.held, h.nodup, h.used, h.pcs⟩

theorem not_mem_owned_of_unused (h : Inv s) {i : ℕ} {p : Page} (hp : s.pages[i]? = some p)
    (hu : p.used = false) (d : ι) : (d, p.start) ∉ s.owned := by
  intro hm
  obtain ⟨j, hj⟩ := List.getElem?_of_mem (h.used d _ hm)
  rcases eq_or_ne j i with rfl | hne
  · rw [hp] at hj
    rw [Option.some.inj hj] at hu
    cases hu
  · exact start_ne h.starts hp hj hne rfl

/-- Pages found before a flag is written are found after it, at the same start. -/
theorem exists_page_setUsed {pages : List Page} {i : ℕ} {b : Bool} {j : ℕ} {P : U64 → Prop}
    (h : ∃ p, pages[j]? = some p ∧ P p.start) :
    ∃ p, (setUsed pages i b)[j]? = some p ∧ P p.start := by
  obtain ⟨p, hp, hP⟩ := h
  rw [getElem?_setUsed]
  by_cases hij : i = j
  · rw [if_pos hij, hp]
    exact ⟨_, rfl, hP⟩
  · rw [if_neg hij]
    exact ⟨p, hp, hP⟩

/-- A CPU keeps its place when another one writes a flag, if it loses no page and does not stand
before setting a flag that was just set. -/
theorem PcOk.write {t : State ι} {d : ι} {p : Pc} {i : ℕ} {b : Bool} (h : PcOk s d p)
    (hp : t.pages = setUsed s.pages i b) (hh : t.holder = s.holder)
    (ho : ∀ a, (d, a) ∈ s.owned → (d, a) ∈ t.owned) (hm : b = false ∨ ∀ f j, p ≠ .mark f j) :
    PcOk t d p := by
  cases p with
  | idle | halted | check | spin => trivial
  | tag | scan => exact hh.trans h
  | mark f j =>
    obtain ⟨hd, q, hq, hu⟩ := h
    obtain rfl : b = false := hm.resolve_right fun h => h f j rfl
    refine ⟨hh.trans hd, ?_⟩
    rw [hp, getElem?_setUsed, hq]
    by_cases hij : i = j
    · rw [if_pos hij]; exact ⟨_, rfl, rfl⟩
    · rw [if_neg hij]; exact ⟨q, rfl, hu⟩
  | untag f j | unhold f j =>
    refine ⟨hh.trans h.1, ?_⟩
    rw [hp]
    exact exists_page_setUsed (P := fun a => (d, a) ∈ t.owned)
      (h.2.imp fun q hq => ⟨hq.1, ho _ hq.2⟩)
  | load f j =>
    show ∃ q, t.pages[j]? = some q ∧ (d, q.start) ∈ t.owned
    rw [hp]
    exact exists_page_setUsed (P := fun a => (d, a) ∈ t.owned)
      (h.imp fun q hq => ⟨hq.1, ho _ hq.2⟩)
  | search a j => exact ho _ h
  | probe a j | clear a j =>
    refine ⟨ho _ h.1, ?_⟩
    rw [hp]
    exact exists_page_setUsed (P := fun x => x = a) h.2

theorem mem_setUsed_of_ne {pages : List Page} {i : ℕ} {b : Bool} {p q : Page}
    (hp : pages[i]? = some p) (hq : q ∈ pages) (hne : q.start ≠ p.start) :
    q ∈ setUsed pages i b := by
  obtain ⟨j, hj⟩ := List.getElem?_of_mem hq
  have hij : i ≠ j := by
    rintro rfl
    exact hne (by rw [Option.some.inj (hp.symm.trans hj)])
  refine List.mem_of_getElem? (i := j) ?_
  rw [getElem?_setUsed, if_neg hij, hj]

variable [DecidableEq ι]

@[simp] theorem goto_pc_self (s : State ι) (c : ι) (p : Pc) : (s.goto c p).pc c = p :=
  Function.update_self ..

theorem goto_pc_of_ne (s : State ι) {c d : ι} (p : Pc) (h : d ≠ c) : (s.goto c p).pc d = s.pc d :=
  Function.update_of_ne h ..

theorem pcs_goto {t : State ι} {p : Pc} (hpc : t.pc = (s.goto c p).pc) (hc : PcOk t c p)
    (ho : ∀ d, d ≠ c → PcOk t d (s.pc d)) (d : ι) : PcOk t d (t.pc d) := by
  rw [hpc]
  rcases eq_or_ne d c with rfl | hd
  · rw [goto_pc_self]; exact hc
  · rw [goto_pc_of_ne _ _ hd]; exact ho d hd

/-- A move that leaves pages, owners, holder and the lock's bit alone. -/
theorem Inv.move (h : Inv s) {t : State ι} {p : Pc} (hpc : t.pc = (s.goto c p).pc)
    (hp : t.pages = s.pages) (ho : t.owned = s.owned) (hh : t.holder = s.holder)
    (hl : t.lock.held = s.lock.held) (hok : PcOk s c p) : Inv t where
  starts := by rw [hp]; exact h.starts
  held := by rw [hl, hh]; exact h.held
  nodup := by rw [ho]; exact h.nodup
  used := by rw [ho, hp]; exact h.used
  pcs := pcs_goto hpc ((PcOk.congr hp ho hh).mpr hok) fun d _ =>
    (PcOk.congr hp ho hh).mpr (h.pcs d)

/-- Taking a free lock: nobody was the holder. -/
theorem Inv.take (h : Inv s) {p : Pc} (hl : s.lock.held = false) {f : Get} {n : CInt}
    (hp : p = .tag f n) :
    Inv { s.goto c p with lock := s.lock.exchange, holder := some c } where
  starts := h.starts
  held := rfl
  nodup := h.nodup
  used := h.used
  pcs := by
    have hnone : s.holder = none := by
      have := h.held
      rw [hl] at this
      simpa using this.symm
    refine pcs_goto (s := s) rfl ?_ fun d _ => ?_
    · rw [hp]; exact rfl
    · exact (h.pcs d).of_not_holder (by rw [hnone]; exact fun e => by cases e) rfl rfl

theorem Inv.unhold (h : Inv s) {f : Get} {i : ℕ} (hpc : s.pc c = .unhold f i) :
    Inv { s.goto c (.load f i) with lock := s.lock.unhold, holder := none } where
  starts := h.starts
  held := rfl
  nodup := h.nodup
  used := h.used
  pcs := by
    obtain ⟨hh, hp⟩ := pcOk_of_eq h hpc
    refine pcs_goto (s := s) rfl hp fun d hd => ?_
    exact (h.pcs d).of_not_holder (by rw [hh]; exact fun e => hd (Option.some.inj e).symm) rfl rfl

/-- The flag write: the page was unused, so nobody owned it. -/
theorem Inv.mark (h : Inv s) {f : Get} {i : ℕ} (hpc : s.pc c = .mark f i) :
    Inv { s.goto c (.untag f i) with
      pages := setUsed s.pages i true
      owned := (c, startAt s.pages i) :: s.owned } := by
  obtain ⟨hh, p, hp, hu⟩ := pcOk_of_eq h hpc
  have hst : startAt s.pages i = p.start := by unfold startAt; rw [hp]; rfl
  have hno := not_mem_owned_of_unused h hp hu
  rw [hst]
  constructor
  · simpa using h.starts
  · exact h.held
  · rw [List.map_cons, List.nodup_cons]
    refine ⟨fun hm => ?_, h.nodup⟩
    obtain ⟨⟨d, a⟩, hd, rfl⟩ := List.mem_map.mp hm
    exact hno d hd
  · intro d a hm
    rcases List.mem_cons.mp hm with he | hm
    · obtain ⟨-, rfl⟩ := Prod.mk.inj he
      refine List.mem_of_getElem? (i := i) ?_
      rw [getElem?_setUsed, if_pos rfl, hp]
      rfl
    · exact mem_setUsed_of_ne hp (h.used d a hm) fun e => hno d (e ▸ hm)
  · refine pcs_goto (s := s) rfl ⟨hh, ?_⟩ fun d hd => ?_
    · exact exists_page_setUsed (P := fun a => (c, a) ∈ (c, p.start) :: s.owned)
        ⟨p, hp, List.mem_cons_self⟩
    · refine (h.pcs d).write rfl rfl (fun a hm => List.mem_cons_of_mem _ hm) (Or.inr ?_)
      intro f' j hm
      have hpd := pcOk_of_eq h hm
      exact hd (Option.some.inj (hpd.1.symm.trans hh))

theorem Inv.clear (h : Inv s) {a : U64} {i : ℕ} (hpc : s.pc c = .clear a i) :
    Inv { s.goto c .idle with
      pages := setUsed s.pages i false
      owned := s.owned.erase (c, a) } := by
  obtain ⟨hown, p, hp, hs⟩ := pcOk_of_eq h hpc
  have hinj : ∀ x ∈ s.owned, ∀ y ∈ s.owned, x.2 = y.2 → x = y :=
    List.inj_on_of_nodup_map h.nodup
  have hkeep : ∀ d b, d ≠ c → (d, b) ∈ s.owned → (d, b) ∈ s.owned.erase (c, a) :=
    fun d b hd hm => (List.mem_erase_of_ne fun e => hd (Prod.mk.inj e).1).mpr hm
  have hnd : s.owned.Nodup := h.nodup.of_map _
  constructor
  · simpa using h.starts
  · exact h.held
  · exact h.nodup.sublist (List.erase_sublist.map _)
  · intro d b hm
    have hne : (d, b) ≠ (c, a) := fun e => (hnd.not_mem_erase) (e ▸ hm)
    have hm := List.mem_of_mem_erase hm
    refine mem_setUsed_of_ne hp (h.used d b hm) fun e => hne ?_
    exact hinj _ hm _ hown (e.trans hs)
  · refine pcs_goto (s := s) rfl trivial fun d hd => ?_
    exact (h.pcs d).write rfl rfl (fun b hm => hkeep d b hd hm) (Or.inl rfl)

/-- Every access keeps the invariant, if only the holder is let through. -/
theorem Inv.trans (h : Inv s) (hown : OwnPass s (c, .run)) (ht : Trans s c s') : Inv s' := by
  cases ht with
  | pass hpc hn => exact h.move rfl rfl rfl rfl rfl (holder_of_passes hown hpc hn)
  | miss hpc hn => exact h.move rfl rfl rfl rfl rfl trivial
  | poll hpc hl => exact ⟨h.starts, by rw [← h.held, hl]; rfl, h.nodup, h.used, h.pcs⟩
  | take hpc hl => exact h.take hl rfl
  | tag hpc =>
    have hok := pcOk_of_eq h hpc
    exact h.move rfl rfl rfl rfl rfl hok
  | busy hpc hp hu =>
    have hok := pcOk_of_eq h hpc
    exact h.move rfl rfl rfl rfl rfl hok
  | found hpc hp hu => exact h.move rfl rfl rfl rfl rfl ⟨pcOk_of_eq h hpc, _, hp, hu⟩
  | fail hpc hp => exact h.move rfl rfl rfl rfl rfl trivial
  | exhausted hpc hp => exact h.move rfl rfl rfl rfl rfl trivial
  | mark hpc => exact h.mark hpc
  | untag hpc =>
    have hok := pcOk_of_eq h hpc
    exact h.move rfl rfl rfl rfl rfl hok
  | unhold hpc => exact h.unhold hpc
  | load hpc => exact h.move rfl rfl rfl rfl rfl trivial
  | skip hpc hp hs =>
    have hok := pcOk_of_eq h hpc
    exact h.move rfl rfl rfl rfl rfl hok
  | hit hpc hp hs => exact h.move rfl rfl rfl rfl rfl ⟨pcOk_of_eq h hpc, _, hp, hs⟩
  | lost hpc => exact h.move rfl rfl rfl rfl rfl trivial
  | inUse hpc =>
    have hok := pcOk_of_eq h hpc
    exact h.move rfl rfl rfl rfl rfl hok
  | clear hpc => exact h.clear hpc

theorem Inv.enter (h : Inv s) {r : Call} (hret : RetOwned s (c, .call r)) :
    Inv (s.enter c r) := by
  cases r with
  | kGetPage | giveRawPage => exact h.move rfl rfl rfl rfl rfl trivial
  | retPage ptr => exact h.move rfl rfl rfl rfl rfl hret

/-- **One move.** The invariant is kept. -/
theorem Inv.next {m : ι × Act} (h : Inv s) (hret : RetOwned s m) (hown : OwnPass s m)
    (hn : next s m = some s') : Inv s' := by
  obtain ⟨c, r | _⟩ := m
  · have hn : (if s.pc c = .idle then some (s.enter c r) else none) = some s' := hn
    split_ifs at hn
    cases hn
    exact h.enter hret
  · exact h.trans hown (trans_of_step hn)

end Keep

/-! ## Numbers that tell the CPUs apart -/

/-- The number a CPU carries through `aquire_lock` is its own, and the lock carries none when it is
about to be released. -/
def TagOk (s : State ι) (c : ι) : Pc → Prop
  | .check _ n | .spin _ n | .tag _ n => n = s.current c
  | .unhold _ _ => s.lock.holdingCpu = -1
  | _ => True

/-- The numbers of the CPUs are distinct and not `-1`, and the lock carries the holder's or none. -/
structure Tags (s : State ι) : Prop where
  inj : Function.Injective s.current
  ne_free : ∀ c, s.current c ≠ -1
  tagged : s.lock.holdingCpu = -1 ∨ ∃ c, s.holder = some c ∧ s.lock.holdingCpu = s.current c
  pcs : ∀ c, TagOk s c (s.pc c)

section Tags

variable {s s' : State ι} {c : ι}

theorem tagOk_of_eq (h : Tags s) {p : Pc} (hpc : s.pc c = p) : TagOk s c p := hpc ▸ h.pcs c

theorem TagOk.congr {t : State ι} {d : ι} {p : Pc} (hc : t.current = s.current)
    (hl : t.lock.holdingCpu = s.lock.holdingCpu) (h : TagOk s d p) : TagOk t d p := by
  cases p with
  | check | spin | tag => exact h.trans (congrFun hc d).symm
  | unhold => exact hl.trans h
  | idle | halted | scan | mark | untag | load | search | probe | clear => trivial

variable [DecidableEq ι]

/-- With such numbers only the holder finds its own number in the lock. -/
theorem Tags.ownPass (h : Tags s) (m : ι × Act) : OwnPass s m := by
  obtain ⟨c, r | _⟩ := m
  · trivial
  · show s.intrudes c = false
    unfold State.intrudes
    split
    · rename_i f n hpc
      by_cases hn : s.lock.passes n
      · have hl : s.lock.holdingCpu = s.current c := Eq.trans hn (tagOk_of_eq h hpc)
        rcases h.tagged with hfree | ⟨d, hd, hdl⟩
        · exact absurd (hl.symm.trans hfree) (h.ne_free c)
        · simp [hd, h.inj (hdl.symm.trans hl)]
      · simp [hn]
    · rfl

theorem tags_goto {t : State ι} {p : Pc} (hpc : t.pc = (s.goto c p).pc) (hc : TagOk t c p)
    (ho : ∀ d, d ≠ c → TagOk t d (s.pc d)) (d : ι) : TagOk t d (t.pc d) := by
  rw [hpc]
  rcases eq_or_ne d c with rfl | hd
  · rw [goto_pc_self]; exact hc
  · rw [goto_pc_of_ne _ _ hd]; exact ho d hd

theorem Tags.move (h : Tags s) {t : State ι} {p : Pc} (hpc : t.pc = (s.goto c p).pc)
    (hc : t.current = s.current) (hl : t.lock.holdingCpu = s.lock.holdingCpu)
    (hh : t.holder = s.holder) (hok : TagOk s c p) : Tags t where
  inj := hc ▸ h.inj
  ne_free := hc ▸ h.ne_free
  tagged := by rw [hl, hh, hc]; exact h.tagged
  pcs := tags_goto hpc (hok.congr hc hl) fun d _ => (h.pcs d).congr hc hl

theorem Tags.trans (h : Tags s) (hi : Inv s) (ht : Trans s c s') : Tags s' := by
  cases ht with
  | pass hpc hn => exact h.move rfl rfl rfl rfl trivial
  | miss hpc hn =>
    have hok := tagOk_of_eq h hpc
    exact h.move rfl rfl rfl rfl hok
  | poll hpc hl => exact ⟨h.inj, h.ne_free, h.tagged, h.pcs⟩
  | take hpc hl =>
    have hok := tagOk_of_eq h hpc
    have hnone : s.holder = none := by
      have := hi.held
      rw [hl] at this
      simpa using this.symm
    refine ⟨h.inj, h.ne_free, Or.inl ?_, tags_goto (s := s) rfl hok fun d _ => h.pcs d⟩
    rcases h.tagged with hfree | ⟨d, hd, -⟩
    · exact hfree
    · rw [hnone] at hd
      cases hd
  | tag hpc =>
    have hc := tagOk_of_eq h hpc
    have hh := pcOk_of_eq hi hpc
    refine ⟨h.inj, h.ne_free, Or.inr ⟨c, hh, hc⟩, tags_goto (s := s) rfl trivial fun d hd => ?_⟩
    -- no other CPU is about to clear the bit, for it would be the holder
    have hd' := h.pcs d
    cases hp : s.pc d with
    | unhold =>
      have hdh := (pcOk_of_eq hi hp).1
      exact absurd (Option.some.inj (hdh.symm.trans hh)) hd
    | check | spin | tag => rw [hp] at hd'; exact hd'
    | idle | halted | scan | mark | untag | load | search | probe | clear => trivial
  | busy hpc hp hu => exact h.move rfl rfl rfl rfl trivial
  | found hpc hp hu => exact h.move rfl rfl rfl rfl trivial
  | fail hpc hp => exact h.move rfl rfl rfl rfl trivial
  | exhausted hpc hp => exact h.move rfl rfl rfl rfl trivial
  | mark hpc => exact h.move rfl rfl rfl rfl trivial
  | untag hpc =>
    refine ⟨h.inj, h.ne_free, Or.inl rfl, tags_goto (s := s) rfl rfl fun d _ => ?_⟩
    have hd' := h.pcs d
    cases hp : s.pc d with
    | unhold => rfl
    | check | spin | tag => rw [hp] at hd'; exact hd'
    | idle | halted | scan | mark | untag | load | search | probe | clear => trivial
  | unhold hpc =>
    have hfree := tagOk_of_eq h hpc
    exact ⟨h.inj, h.ne_free, Or.inl hfree, tags_goto (s := s) rfl trivial fun d _ => h.pcs d⟩
  | load hpc => exact h.move rfl rfl rfl rfl trivial
  | skip hpc hp hs => exact h.move rfl rfl rfl rfl trivial
  | hit hpc hp hs => exact h.move rfl rfl rfl rfl trivial
  | lost hpc => exact h.move rfl rfl rfl rfl trivial
  | inUse hpc => exact h.move rfl rfl rfl rfl trivial
  | clear hpc => exact h.move rfl rfl rfl rfl trivial

theorem Tags.next {m : ι × Act} (h : Tags s) (hi : Inv s) (hn : next s m = some s') :
    Tags s' := by
  obtain ⟨c, r | _⟩ := m
  · have hn : (if s.pc c = .idle then some (s.enter c r) else none) = some s' := hn
    split_ifs at hn
    cases hn
    cases r with
    | kGetPage | giveRawPage => exact h.move rfl rfl rfl rfl rfl
    | retPage ptr => exact h.move rfl rfl rfl rfl trivial
  · exact h.trans hi (trans_of_step hn)

end Tags

/-! ## No page has two owners -/

/-- No call is under way, the lock is free and no page is handed out. -/
structure Initial (s : State ι) : Prop where
  starts : (s.pages.map Page.start).Nodup
  unused : ∀ p ∈ s.pages, p.used = false
  lock : s.lock = .free
  pc : ∀ c, s.pc c = .idle
  owned : s.owned = []
  holder : s.holder = none

theorem Initial.inv {s : State ι} (h : Initial s) : Inv s where
  starts := h.starts
  held := by rw [h.lock, h.holder]; rfl
  nodup := by rw [h.owned]; exact List.nodup_nil
  used c a hm := by rw [h.owned] at hm; cases hm
  pcs c := by rw [h.pc]; trivial

theorem Initial.tags {s : State ι} (h : Initial s) (hinj : Function.Injective s.current)
    (hne : ∀ c, s.current c ≠ -1) : Tags s where
  inj := hinj
  ne_free := hne
  tagged := Or.inl (by rw [h.lock]; rfl)
  pcs c := by rw [h.pc]; trivial

theorem Inv.used_of_owned {s : State ι} (h : Inv s) {c : ι} {p : Page} (hp : p ∈ s.pages)
    (hm : (c, p.start) ∈ s.owned) : p.used = true := by
  by_contra hu
  obtain ⟨i, hi⟩ := List.getElem?_of_mem hp
  exact not_mem_owned_of_unused h hi (Bool.not_eq_true _ ▸ hu) c hm

/-- **No double ownership.** CPUs whose per-CPU data is ready call the three functions in any
order and interleaving, `retpage` only on pages they own. If their numbers, as the `int` that
`aquire_lock` compares, are pairwise distinct and not `-1`, no page is ever owned twice, every owned
page is flagged used, and a CPU that is about to return a page owns it. -/
theorem no_double_ownership [DecidableEq ι] {s₀ s : State ι} (h0 : Initial s₀)
    (hready : ∀ c, isPerCpuReady (s₀.gsBase c) = true)
    (hinj : Function.Injective fun c => (s₀.cpuId (s₀.gsBase c)).setWidth 32)
    (hne : ∀ c, (s₀.cpuId (s₀.gsBase c)).setWidth 32 ≠ (-1 : CInt))
    (hrun : Run next RetOwned s₀ s) :
    (s.owned.map Prod.snd).Nodup ∧
      (∀ c, ∀ p ∈ s.pages, (c, p.start) ∈ s.owned → p.used = true) ∧
      ∀ c f i, s.pc c = .load f i → (c, startAt s.pages i) ∈ s.owned := by
  have hcur : s₀.current = fun c => (s₀.cpuId (s₀.gsBase c)).setWidth 32 := by
    funext c
    unfold State.current Cpu.current
    rw [if_pos (hready c)]
  have hboth : Inv s ∧ Tags s := by
    refine hrun.invariant (P := fun s => Inv s ∧ Tags s) ⟨h0.inv, h0.tags ?_ ?_⟩ ?_
    · rw [hcur]; exact hinj
    · rw [hcur]; exact hne
    · rintro s m s' ⟨hi, ht⟩ hret hn
      exact ⟨hi.next hret (ht.ownPass m) hn, ht.next hi hn⟩
  refine ⟨hboth.1.nodup, fun c p hp hm => hboth.1.used_of_owned hp hm, fun c f i hpc => ?_⟩
  obtain ⟨p, hp, hm⟩ := pcOk_of_eq hboth.1 hpc
  unfold startAt
  rw [hp]
  exact hm

instance [DecidableEq ι] (s : State ι) (m : ι × Act) : Decidable (RetOwned s m) :=
  match m with
  | (c, .call (.retPage ptr)) => inferInstanceAs (Decidable ((c, ptr - s.hhdm) ∈ s.owned))
  | (_, .call .kGetPage) | (_, .call .giveRawPage) | (_, .run) => .isTrue trivial

/-- Two CPUs with the given `cpu_id` words, their blocks at `0x8000` and `0x9000`, and pages that
start at the given addresses. -/
def twoCpus (id₀ id₁ : U64) (starts : List U64) : State (Fin 2) where
  pages := starts.map fun a => ⟨a, false⟩
  lock := .free
  hhdm := 0xFFFF800000000000
  gsBase := ![0x8000, 0x9000]
  cpuId a := if a = 0x8000 then id₀ else id₁
  pc _ := .idle
  ret _ := 0
  owned := []
  holder := none

/-- CPU 0 takes a page and gives it back while CPU 1 is in its scan. -/
def overlap : List (Fin 2 × Act) :=
  [(0, .call .kGetPage), (0, .run), (0, .run), (0, .run), (0, .run), (0, .run), (0, .run),
    (0, .run), (0, .run),
    (1, .call .giveRawPage), (1, .run), (1, .run), (1, .run), (1, .run),
    (0, .call (.retPage 0xFFFF800000100000)), (0, .run), (0, .run), (0, .run),
    (1, .run), (1, .run), (1, .run), (1, .run), (1, .run)]

theorem no_double_ownership_overlap :
    ∃ s, exec next RetOwned (twoCpus 0 1 [0x100000, 0x101000]) overlap = some s ∧
      s.owned = [(1, 0x101000)] ∧ (s.owned.map Prod.snd).Nodup ∧
      (∀ c, ∀ p ∈ s.pages, (c, p.start) ∈ s.owned → p.used = true) ∧
      ∀ c f i, s.pc c = .load f i → (c, startAt s.pages i) ∈ s.owned := by
  refine ⟨_, rfl, rfl, ?_⟩
  have hrun : Run next RetOwned (twoCpus 0 1 [0x100000, 0x101000]) _ :=
    Run.of_exec (l := overlap) .refl rfl
  refine no_double_ownership ?_ (by decide) ?_ (by decide) hrun
  · exact ⟨by decide, by decide, rfl, fun _ => rfl, rfl, rfl⟩
  · intro c d h
    revert c d
    decide

/-- With `cpu_id = 0xFFFFFFFF` the number is `-1`: CPU 0 is let through the free lock, stops before
its flag write, and CPU 1 takes the same page. -/
def freeTag : List (Fin 2 × Act) :=
  [(0, .call .kGetPage), (0, .run), (0, .run),
    (1, .call .kGetPage), (1, .run), (1, .run), (1, .run), (1, .run), (1, .run),
    (0, .run)]

theorem double_ownership_freeTag :
    ¬ ∀ s₀ s : State (Fin 2), Initial s₀ → (∀ c, isPerCpuReady (s₀.gsBase c) = true) →
      (Function.Injective fun c => s₀.cpuId (s₀.gsBase c)) → Run next RetOwned s₀ s →
      (s.owned.map Prod.snd).Nodup ∧
        ∀ c, ∀ p ∈ s.pages, (c, p.start) ∈ s.owned → p.used = true := by
  intro h
  have hrun : Run next RetOwned (twoCpus 0xFFFFFFFF 0 [0x100000]) _ :=
    Run.of_exec (l := freeTag) .refl rfl
  have hinit : Initial (twoCpus 0xFFFFFFFF 0 [0x100000]) :=
    ⟨by decide, by decide, rfl, fun _ => rfl, rfl, rfl⟩
  have hinj : Function.Injective fun c =>
      (twoCpus 0xFFFFFFFF 0 [0x100000]).cpuId ((twoCpus 0xFFFFFFFF 0 [0x100000]).gsBase c) := by
    intro c d
    revert c d
    decide
  obtain ⟨hnodup, -⟩ := h _ _ hinit (by decide) hinj hrun
  revert hnodup
  decide

end Smp

end DejOs
