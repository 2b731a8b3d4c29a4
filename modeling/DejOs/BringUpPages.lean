import DejOs.BringUp

/-!
# A frame for every AP

With more free frames than APs when the boot CPU asks for its page, every `KGetPage` of a starting
AP finds one (`Stock.not_fails`), in any interleaving. An AP that the lock lets through although it
did not take it may mark the page another one has marked, but it marks no more than one.
-/

namespace DejOs

open Interleaving

namespace BringUp

variable {mp : MpResponse}

/-- Where an AP is in `KGetPage`: the pages that the scan has passed are used, and the page that it
has found is one of the frames `F`. -/
def Place (F : List U64) (pages : List Page) : Smp.Pc → Prop
  | .scan _ i => ∀ j < i, ∀ p, pages[j]? = some p → p.used = true
  | .mark _ i | .untag _ i | .unhold _ i | .load _ i => Allocator.startAt pages i ∈ F
  | _ => True

/-- Places behind the write of the flag. -/
def marked : Smp.Pc → Bool
  | .untag _ _ | .unhold _ _ | .load _ _ | .idle => true
  | _ => false

/-- The AP has marked a page. -/
def hasPage : Ap.Stage → Smp.Pc → Bool
  | .start, _ | .claimed _, _ => false
  | .calling _, pc => marked pc
  | _, _ => true

/-- No page is marked, or one by an AP that had none. -/
def Marks (pages pages' : List Page) (had has : Bool) : Prop :=
  pages' = pages ∧ has = had ∨
    had = false ∧ has = true ∧ ∃ i, pages' = Allocator.setUsed pages i true

/-- An AP at its place in `ap_entry`: its frame is one of `F`. -/
structure CpuOk (F : List U64) (s : Smp.State (Id mp)) (c : Id mp) (st : Ap.Stage) : Prop where
  outside : st.isCalling = false → s.pc c = .idle
  inside : st.isCalling = true → (s.pc c).inKGetPage = true
  place : Place F s.pages (s.pc c)
  back : st.isCalling = true → s.pc c = .idle → ∃ f ∈ F, s.ret c = f + s.hhdm
  block : ∀ b, st.block = some b → ∃ f ∈ F, b = f + s.hhdm

/-- The APs get frames of `F`, and there is one left for every AP that has not marked a page yet. -/
structure Stock (F : List U64) (s : State mp) : Prop where
  basic : Basic s
  cpus : ∀ c, CpuOk F s.ap.smp (some c) (s.stage c)
  free : ∀ f ∈ freeFrames s.ap.smp.pages, f ∈ F
  enough : ∃ l : List (Fin mp.cpuCount), l.Nodup ∧
    (∀ c, c ∈ l ↔ hasPage (s.stage c) (s.ap.smp.pc (some c)) = true) ∧
    mp.aps.length ≤ (freeFrames s.ap.smp.pages).length + l.length

section Pages

variable {F : List U64} {pages : List Page} {i : ℕ} {p : Page}

theorem mem_freeFrames (hp : pages[i]? = some p) (hu : p.used = false) :
    p.start ∈ freeFrames pages := by
  refine List.mem_map.mpr ⟨p, List.mem_filter.mpr ⟨List.mem_of_getElem? hp, ?_⟩, rfl⟩
  rw [hu]
  rfl

theorem freeFrames_of_scanned (hused : ∀ j < i, ∀ p, pages[j]? = some p → p.used = true)
    (hlen : pages.length ≤ i) : freeFrames pages = [] := by
  refine freeFrames_eq_nil_iff.mpr fun p hp => ?_
  obtain ⟨j, hj⟩ := List.getElem?_of_mem hp
  obtain ⟨hlt, -⟩ := List.getElem?_eq_some_iff.mp hj
  exact hused j (hlt.trans_le hlen) p hj

theorem freeFrames_cons (p : Page) (pages : List Page) : freeFrames (p :: pages) =
    if p.used then freeFrames pages else p.start :: freeFrames pages := by
  unfold freeFrames
  cases hu : p.used <;> simp [hu]

theorem freeFrames_setUsed (pages : List Page) (i : ℕ) :
    (freeFrames pages).length ≤ (freeFrames (Allocator.setUsed pages i true)).length + 1 ∧
      ∀ f ∈ freeFrames (Allocator.setUsed pages i true), f ∈ freeFrames pages := by
  induction pages generalizing i with
  | nil => exact ⟨Nat.zero_le _, fun f hf => by simpa [Allocator.setUsed] using hf⟩
  | cons p pages ih =>
    cases i with
    | zero =>
      have hset : freeFrames (Allocator.setUsed (p :: pages) 0 true) = freeFrames pages :=
        freeFrames_cons { p with used := true } pages
      rw [hset, freeFrames_cons]
      split
      · exact ⟨Nat.le_succ _, fun f hf => hf⟩
      · exact ⟨Nat.le_refl _, fun f hf => List.mem_cons_of_mem _ hf⟩
    | succ i =>
      have hset : Allocator.setUsed (p :: pages) (i + 1) true =
          p :: Allocator.setUsed pages i true := rfl
      obtain ⟨hlen, hmem⟩ := ih i
      rw [hset, freeFrames_cons, freeFrames_cons]
      split
      · exact ⟨hlen, hmem⟩
      · exact ⟨Nat.succ_le_succ hlen, fun f hf =>
          List.mem_cons.mpr ((List.mem_cons.mp hf).imp_right (hmem f))⟩

theorem Place.setUsed {pc : Smp.Pc} (h : Place F pages pc) (i : ℕ) :
    Place F (Allocator.setUsed pages i true) pc := by
  cases pc with
  | scan f n =>
    intro j hj p hp
    rw [Allocator.getElem?_setUsed] at hp
    split_ifs at hp with hij
    · obtain ⟨q, -, rfl⟩ := Option.map_eq_some_iff.mp hp
      rfl
    · exact h j hj p hp
  | mark f n | untag f n | unhold f n | load f n =>
    show Allocator.startAt (Allocator.setUsed pages i true) n ∈ F
    rw [Smp.startAt_setUsed]
    exact h
  | idle | halted | check | spin | tag | search | probe | clear => trivial

/-- The places of an AP in `KGetPage`, when it does not fail. -/
theorem place_trans {ι : Type} [DecidableEq ι] {s s' : Smp.State ι} {c : ι}
    (ht : Smp.Trans s c s') (hin : (s.pc c).inKGetPage = true) (hok : s.fails c = false)
    (hfree : ∀ f ∈ freeFrames s.pages, f ∈ F) (hp : Place F s.pages (s.pc c)) :
    Place F s'.pages (s'.pc c) ∧
      (s'.pc c = .idle → ∃ f ∈ F, s'.ret c = f + s'.hhdm) ∧
      Marks s.pages s'.pages (marked (s.pc c)) (marked (s'.pc c)) := by
  -- a place behind which the pages stay as they are
  have hstay : ∀ {pc : Smp.Pc}, s'.pc c = pc → s'.pages = s.pages → Place F s.pages pc →
      (pc = .idle → ∃ f ∈ F, s'.ret c = f + s'.hhdm) → marked pc = marked (s.pc c) →
      Place F s'.pages (s'.pc c) ∧ (s'.pc c = .idle → ∃ f ∈ F, s'.ret c = f + s'.hhdm) ∧
        Marks s.pages s'.pages (marked (s.pc c)) (marked (s'.pc c)) := by
    intro pc hpc hpages hplace hback hmarked
    rw [hpc, hpages]
    exact ⟨hplace, hback, Or.inl ⟨rfl, hmarked⟩⟩
  have hself : ∀ pc, (s.goto c pc).pc c = pc := fun pc => Smp.goto_pc_self s c pc
  cases ht with
  | pass h =>
    exact hstay (hself _) rfl (fun j hj => absurd hj (Nat.not_lt_zero _)) nofun (by rw [h]; rfl)
  | miss h => exact hstay (hself _) rfl trivial nofun (by rw [h]; rfl)
  | poll h => exact hstay h rfl trivial nofun (by rw [h])
  | take h => exact hstay (hself _) rfl trivial nofun (by rw [h]; rfl)
  | tag h =>
    exact hstay (hself _) rfl (fun j hj => absurd hj (Nat.not_lt_zero _)) nofun (by rw [h]; rfl)
  | @busy f i p h hq hu =>
    rw [h] at hp
    refine hstay (hself _) rfl (fun j hj q hq' => ?_) nofun (by rw [h]; rfl)
    rcases Nat.lt_succ_iff_lt_or_eq.mp hj with hlt | rfl
    · exact hp j hlt q hq'
    · rw [← Option.some.inj (hq.symm.trans hq')]
      exact hu
  | @found f i p h hq hu =>
    refine hstay (hself _) rfl ?_ nofun (by rw [h]; rfl)
    have hstart : Allocator.startAt s.pages i = p.start := by
      unfold Allocator.startAt
      rw [hq]
      rfl
    show Allocator.startAt s.pages i ∈ F
    rw [hstart]
    exact hfree _ (mem_freeFrames hq hu)
  | @fail i h hq =>
    have hlen : s.pages.length ≤ i := List.getElem?_eq_none_iff.mp hq
    unfold Smp.State.fails at hok
    rw [h] at hok
    exact absurd hlen (of_decide_eq_false hok)
  | @mark f i h =>
    rw [h] at hp ⊢
    refine ⟨?_, fun e => ?_, Or.inr ⟨rfl, ?_, i, rfl⟩⟩
    · show Place F (Allocator.setUsed s.pages i true) ((s.goto c (.untag f i)).pc c)
      rw [hself]
      have hplace : Place F s.pages (.untag f i) := hp
      exact hplace.setUsed i
    · cases (hself _).symm.trans e
    · exact congrArg marked (hself _)
  | untag h | unhold h =>
    rw [h] at hp
    exact hstay (hself _) rfl hp nofun (by rw [h]; rfl)
  | @load f i h =>
    rw [h] at hp hin
    obtain rfl : f = .kGetPage := of_decide_eq_true hin
    refine hstay (hself _) rfl trivial (fun _ => ⟨_, hp, ?_⟩) (by rw [h]; rfl)
    exact Function.update_self ..
  | exhausted h | skip h | hit h | inUse h | clear h =>
    rw [h] at hin
    cases hin
  | lost h => rcases h with h | h <;> rw [h] at hin <;> cases hin

end Pages

section Stock

variable {tssForCpus : U64} {F : List U64} {s s' : State mp} {c : Fin mp.cpuCount}

theorem CpuOk.congr {u v : Smp.State (Id mp)} {d : Id mp} {st : Ap.Stage} (h : CpuOk F u d st)
    (hpc : v.pc d = u.pc d) (hret : v.ret d = u.ret d) (hh : v.hhdm = u.hhdm)
    (hpages : v.pages = u.pages ∨ ∃ i, v.pages = Allocator.setUsed u.pages i true) :
    CpuOk F v d st where
  outside hst := hpc.trans (h.outside hst)
  inside hst := (congrArg Smp.Pc.inKGetPage hpc).trans (h.inside hst)
  place := by
    rw [hpc]
    rcases hpages with hp | ⟨i, hp⟩
    · rw [hp]
      exact h.place
    · rw [hp]
      exact h.place.setUsed i
  back hst hidle := by
    rw [hret, hh]
    exact h.back hst (hpc.symm.trans hidle)
  block b hb := by
    rw [hh]
    exact h.block b hb

/-- The AP that is about to mark a page finds one. -/
theorem Stock.not_fails (h : Stock F s) (hst : (s.stage c).isCalling = true) :
    s.ap.smp.fails (some c) = false := by
  by_contra hfails
  obtain ⟨i, hpc, hlen⟩ : ∃ i, s.ap.smp.pc (some c) = .scan .kGetPage i ∧
      s.ap.smp.pages.length ≤ i := by
    unfold Smp.State.fails at hfails
    split at hfails
    · rename_i i hpc
      exact ⟨i, hpc, by simpa using hfails⟩
    · exact absurd rfl hfails
  have hused := (h.cpus c).place
  rw [hpc] at hused
  have hfree := freeFrames_of_scanned hused hlen
  obtain ⟨l, hl, hmem, henough⟩ := h.enough
  have hcl : c ∉ l := by
    rw [hmem, hpc]
    cases hcs : s.stage c with
    | calling => exact fun e => by cases e
    | _ =>
      rw [hcs] at hst
      cases hst
  -- with `c` there are more APs than there are
  have haps : ∀ d ∈ c :: l, mp.IsAp d := by
    intro d hd
    refine h.basic.entered d (h.basic.started d fun hstart => ?_)
    rcases List.mem_cons.mp hd with rfl | hd
    · rw [hstart] at hst
      cases hst
    · rw [hmem, hstart] at hd
      cases hd
  have hle := MpResponse.length_le_aps (List.nodup_cons.mpr ⟨hcl, hl⟩) haps
  rw [hfree, List.length_nil] at henough
  rw [List.length_cons] at hle
  omega

theorem Stock.step (h : Stock F s) (hbasic : Basic s')
    (hother : ∀ d, d ≠ c → s'.stage d = s.stage d ∧ s'.ap.smp.pc (some d) = s.ap.smp.pc (some d) ∧
      s'.ap.smp.ret (some d) = s.ap.smp.ret (some d)) (hh : s'.ap.smp.hhdm = s.ap.smp.hhdm)
    (hc : CpuOk F s'.ap.smp (some c) (s'.stage c))
    (hpages : Marks s.ap.smp.pages s'.ap.smp.pages (hasPage (s.stage c) (s.ap.smp.pc (some c)))
      (hasPage (s'.stage c) (s'.ap.smp.pc (some c)))) : Stock F s' := by
  obtain ⟨l, hl, hmem, henough⟩ := h.enough
  have hsame : ∀ d, d ≠ c → (d ∈ l ↔ hasPage (s'.stage d) (s'.ap.smp.pc (some d)) = true) := by
    intro d hd
    rw [hmem, (hother d hd).1, (hother d hd).2.1]
  refine ⟨hbasic, fun d => ?_, ?_, ?_⟩
  · rcases eq_or_ne d c with rfl | hd
    · exact hc
    · obtain ⟨hst, hpc, hret⟩ := hother d hd
      rw [hst]
      exact (h.cpus d).congr hpc hret hh (hpages.imp And.left fun hp => hp.2.2)
  · rcases hpages with ⟨hp, -⟩ | ⟨-, -, i, hp⟩
    · rw [hp]
      exact h.free
    · rw [hp]
      exact fun f hf => h.free f ((freeFrames_setUsed _ i).2 f hf)
  · rcases hpages with ⟨hp, hhas⟩ | ⟨hnone, hhas, i, hp⟩
    · refine ⟨l, hl, fun d => ?_, by rw [hp]; exact henough⟩
      rcases eq_or_ne d c with rfl | hd
      · rw [hmem, hhas]
      · exact hsame d hd
    · have hcl : c ∉ l := by
        rw [hmem, hnone]
        exact Bool.false_ne_true
      refine ⟨c :: l, List.nodup_cons.mpr ⟨hcl, hl⟩, fun d => ?_, ?_⟩
      · rcases eq_or_ne d c with rfl | hd
        · exact iff_of_true List.mem_cons_self hhas
        · rw [List.mem_cons, or_iff_right hd]
          exact hsame d hd
      · have hlen := (freeFrames_setUsed s.ap.smp.pages i).1
        rw [hp, List.length_cons]
        omega

theorem Stock.goto (h : Stock F s) {t : Ap.State (Id mp)} {st : Ap.Stage} {acc : List Access}
    (hbasic : Basic { s with ap := t.goto (some c) st, accesses := acc })
    (hstage : t.stage = s.ap.stage) (hpages : t.smp.pages = s.ap.smp.pages)
    (hh : t.smp.hhdm = s.ap.smp.hhdm) (hpc : t.smp.pc = s.ap.smp.pc)
    (hret : t.smp.ret = s.ap.smp.ret) (hidle : s.ap.smp.pc (some c) = .idle)
    (hout : st.isCalling = false) (hblock : ∀ b, st.block = some b → ∃ f ∈ F, b = f + s.ap.smp.hhdm)
    (hhas : hasPage st .idle = hasPage (s.stage c) .idle) :
    Stock F { s with ap := t.goto (some c) st, accesses := acc } := by
  have hself : (t.goto (some c) st).stage (some c) = st := Ap.goto_stage_self _ _ _
  have hidle' : t.smp.pc (some c) = .idle := (congrFun hpc _).trans hidle
  refine h.step (c := c) hbasic (fun d hd => ⟨?_, congrFun hpc _, congrFun hret _⟩) hh ?_
    (Or.inl ⟨hpages, ?_⟩)
  · exact (Ap.goto_stage_of_ne t st fun e => hd (Option.some.inj e)).trans (congrFun hstage _)
  · show CpuOk F t.smp (some c) ((t.goto (some c) st).stage (some c))
    rw [hself]
    refine ⟨fun _ => hidle', fun e => absurd (hout.symm.trans e) (by decide), ?_,
      fun e => absurd (hout.symm.trans e) (by decide), ?_⟩
    · rw [hidle']
      trivial
    · rw [hh]
      exact hblock
  · show hasPage ((t.goto (some c) st).stage (some c)) (t.smp.pc (some c)) = _
    rw [hself, hidle', hidle, hhas]

theorem Stock.moved (h : Stock F s) (hm : Moved tssForCpus s c s') : Stock F s' := by
  have hbasic := h.basic.moved hm
  have hne : ∀ d, d ≠ c → (some d : Id mp) ≠ some c := fun d hd e => hd (Option.some.inj e)
  obtain ⟨-, -, hstage, -⟩ := hm.stage
  cases hm with
  | @access k u he hst ht =>
    have hcall : (s.stage c).isCalling = true := by rw [hst]; rfl
    obtain ⟨-, hin, hplace, -, -⟩ := h.cpus c
    obtain ⟨hplace', hback, hpages⟩ :=
      place_trans ht (hin hcall) (h.not_fails hcall) h.free hplace
    refine h.step hbasic (fun d hd => ⟨rfl, ht.pc_of_ne (hne d hd), ht.ret_of_ne (hne d hd)⟩)
      ht.hhdm ⟨fun e => ?_, fun _ => ht.inKGetPage (hin hcall), hplace', fun _ => hback,
        fun b hb => ?_⟩ ?_
    · exact absurd (hcall.symm.trans e) (by decide)
    · rw [show ({ s with ap := { s.ap with smp := u } } : State mp).stage c = _ from hst] at hb
      cases hb
    · show Marks _ _ _ (hasPage (s.stage c) (u.pc (some c)))
      rw [hst]
      exact hpages
  | went he hw =>
    have hok : ∀ {st}, s.ap.stage (some c) = st → CpuOk F s.ap.smp (some c) st :=
      fun hst => hst ▸ h.cpus c
    have hhas : ∀ {st st'}, s.ap.stage (some c) = st → hasPage st' .idle = hasPage st .idle →
        hasPage st' .idle = hasPage (s.stage c) .idle :=
      fun hst e => e.trans (congrArg (hasPage · .idle) hst.symm)
    cases hw with
    | claim hst =>
      exact h.goto hbasic rfl rfl rfl rfl rfl ((hok hst).outside rfl) rfl nofun (hhas hst rfl)
    | @call k hst =>
      have hcheck := Smp.goto_pc_self s.ap.smp (some c)
        (.check .kGetPage (s.ap.smp.current (some c)))
      have hself := Ap.goto_stage_self s.ap (some c) (.calling k)
      refine h.step hbasic (fun d hd => ⟨Ap.goto_stage_of_ne _ _ (hne d hd),
        Smp.goto_pc_of_ne _ _ (hne d hd), rfl⟩) rfl ?_ (Or.inl ⟨rfl, ?_⟩)
      · show CpuOk F (s.ap.smp.enter (some c) .kGetPage) (some c)
          ((s.ap.goto (some c) (.calling k)).stage (some c))
        rw [hself]
        refine ⟨nofun, fun _ => congrArg Smp.Pc.inKGetPage hcheck, ?_, fun _ e => ?_, nofun⟩
        · rw [show (s.ap.smp.enter (some c) .kGetPage).pc (some c) = _ from hcheck]
          trivial
        · cases hcheck.symm.trans e
      · show hasPage ((s.ap.goto (some c) (.calling k)).stage (some c))
          ((s.ap.smp.enter (some c) .kGetPage).pc (some c)) = hasPage (s.ap.stage (some c)) _
        rw [hself, hst, show (s.ap.smp.enter (some c) .kGetPage).pc (some c) = _ from hcheck]
        rfl
    | back hst hpc =>
      refine h.goto hbasic rfl rfl rfl rfl rfl hpc rfl (fun b hb => ?_) (hhas hst rfl)
      rw [← Option.some.inj hb]
      exact (hok hst).back rfl hpc
    | fill hst | base hst | name hst | point hst | store hst =>
      exact h.goto hbasic rfl rfl rfl rfl rfl ((hok hst).outside rfl) rfl (hok hst).block
        (hhas hst rfl)

theorem Stock.kentry (h : Stock F s) (hn : s.kentry = some s') : Stock F s' := by
  have hb := h.basic.kentry hn
  obtain ⟨hap, -⟩ := kentry_ap hn
  refine ⟨hb, fun c => ?_, ?_, ?_⟩
  · unfold State.stage
    rw [hap]
    exact h.cpus c
  · rw [hap]
    exact h.free
  · unfold State.stage
    rw [hap]
    exact h.enough

theorem Stock.booted {a a' : Allocator} {b : U64} (hg : Gave a a' b)
    (hlen : mp.aps.length < (freeFrames a.pages).length) :
    Stock (freeFrames a'.pages) (booted mp tssForCpus a' b) where
  basic := Basic.booted a'
  cpus c := by
    rw [booted_stage]
    exact ⟨fun _ => rfl, nofun, trivial, nofun, nofun⟩
  free _ hf := hf
  enough := by
    obtain ⟨f, hf, -⟩ := hg.of_ne_nil (List.ne_nil_of_length_pos (by omega))
    refine ⟨[], List.nodup_nil, fun c => ?_, ?_⟩
    · rw [booted_stage]
      exact iff_of_false List.not_mem_nil nofun
    · rw [hf, List.length_cons] at hlen
      show _ ≤ (freeFrames a'.pages).length + 0
      omega

end Stock

end BringUp

end DejOs
