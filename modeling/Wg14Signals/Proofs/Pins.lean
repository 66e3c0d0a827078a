import Wg14Signals.Proofs.Retraction
import Wg14Signals.Proofs.Mapped

namespace Wg14Signals
open Lib

/-- The books balance with these references of raises. Those that are `parked` have been given
back, and may be asked for again. -/
structure Pinned (g : Global) (L : Layout) (pend : List Slot) (held parked : List Hold) : Prop where
  wf : Wf g L pend (held.map Hold.item) (held.map Hold.node)
  listed : ∀ x ∈ held ++ parked, x.node ∈ L x.item .global
  live : ∀ x ∈ parked, ∃ nd, g.nodes x.node = some nd
  mapped : ∀ signo c, g.map signo = some c → g.nodes.AllLive (L c .global)

namespace Pinned

variable {g g' : Global} {L L' : Layout} {pend : List Slot} {held held' parked : List Hold}
  {x : Hold} {signo : Signo}

theorem perm (h : Pinned g L pend held parked) (hp : held.Perm held') :
    Pinned g L pend held' parked where
  wf := h.wf.perm (List.Perm.refl _) (hp.map Hold.item) (hp.map Hold.node)
  listed x hx := h.listed x ((hp.append_right parked).mem_iff.mpr hx)
  live := h.live
  mapped := h.mapped

theorem setKernel (h : Pinned g L pend held parked) (signo : Signo) (sa : Sigaction) :
    Pinned (g.setKernel signo sa) L pend held parked :=
  ⟨h.wf.congr rfl rfl rfl rfl rfl, h.listed, h.live, h.mapped⟩

/-- Where a node is on a list, its container is there. -/
theorem container (h : Pinned g L pend held parked) (hx : x ∈ held ++ parked) :
    ∃ k, g.containers x.item = some k := by
  refine Option.ne_none_iff_exists'.mp fun hd => ?_
  have hlist := h.listed x hx
  rw [h.wf.dead x.item .global hd] at hlist
  cases hlist

/-- Nobody but `y` leaves a list in a step that frees no container somebody may return to. -/
theorem evolve (h : Pinned g L pend held parked) {y : Option Addr} (kept : List Hold)
    (hw : Wf g' L' pend (held'.map Hold.item) (held'.map Hold.node))
    (he : Evolves none y g g' L L') (hmap : g'.map = g.map) (hkept : kept ⊆ held)
    (hcount : ∀ x ∈ kept ++ parked, (∀ signo, g.map signo ≠ some x.item) →
      (held.map Hold.item).count x.item ≤ (held'.map Hold.item).count x.item)
    (hy : ∀ x ∈ kept ++ parked, y = some x.node →
      x.node ∈ L' x.item .global ∨ g'.containers x.item = none)
    (hnew : ∀ x ∈ held', x ∈ kept ∨ x.node ∈ L' x.item .global) :
    Pinned g' L' pend held' parked := by
  have hstays : ∀ x ∈ kept ++ parked, x.node ∈ L' x.item .global := by
    intro x hx
    have hx' : x ∈ held ++ parked :=
      (List.mem_append.mp hx).elim (fun hx => List.mem_append.mpr (.inl (hkept hx)))
        fun hx => List.mem_append.mpr (.inr hx)
    obtain ⟨k, hk⟩ := h.container hx'
    have hgone : g'.containers x.item ≠ none := by
      intro hnone
      have hunmapped : ∀ signo, g.map signo ≠ some x.item := by
        intro signo hm
        obtain ⟨k', hk'⟩ := hw.mapped signo x.item (hmap ▸ hm)
        cases hnone.symm.trans hk'
      have hnobody : (held'.map Hold.item).count x.item = 0 := by
        refine List.count_eq_zero.mpr fun hm => ?_
        obtain ⟨k', hk'⟩ := hw.held x.item hm
        cases hnone.symm.trans hk'
      have hidle : k.lifetimeRefcount = 0 := by
        have hrefs : mapRefs g x.item = 0 := if_neg fun ⟨signo, hm⟩ => hunmapped signo hm
        have hzero := hcount x hx hunmapped
        rw [hnobody] at hzero
        rw [h.wf.lifetime x.item k hk, hrefs, Nat.le_zero.mp hzero]
        rfl
      obtain ⟨k', hk', -⟩ := he.containers.idle x.item k hk hidle
      cases hnone.symm.trans hk'
    rcases he.keeps x.item (h.wf.container_lt hk) x.node (h.listed x hx') with hn | hn | hn
    · exact hn
    · exact (hy x hx hn).resolve_right hgone
    · exact absurd hn hgone
  refine ⟨hw, fun x hx => ?_, fun x hx => ?_, fun signo c hm => ?_⟩
  · rcases List.mem_append.mp hx with hx | hx
    · exact (hnew x hx).elim (fun hx => hstays x (List.mem_append.mpr (.inl hx))) id
    · exact hstays x (List.mem_append.mpr (.inr hx))
  · refine Option.ne_none_iff_exists'.mp fun hnone => ?_
    obtain ⟨nd, hnd⟩ := h.live x hx
    have hlist := hstays x (List.mem_append.mpr (.inr hx))
    rcases he.spares x.item .global x.node hlist hnone with hdead | hdead
    · cases hnd.symm.trans hdead
    · cases hdead
  · exact he.allLive (h.mapped signo c (hmap ▸ hm)) (by simp)

/-- A raise enters the first decider of its signal. -/
theorem enter_deciding (h : Pinned g L pend held parked) {i : Nat} {item n : Addr} {value : Int}
    {sa : Sigaction} (hr : raiseEnter g signo = .ok (.deciding item n value sa, g')) :
    g'.map = g.map ∧ g.map signo = some item ∧
      Pinned g' L pend (⟨i, item, n⟩ :: held) parked := by
  obtain ⟨hmap, ⟨hm, -⟩, hw, he, hf⟩ := h.wf.raiseEnter hr
  refine ⟨hmap, hm, h.evolve held hw he hmap (fun _ => id)
    (fun x _ _ => List.count_le_count_cons) (by simp) fun x hx => ?_⟩
  rcases List.mem_cons.mp hx with rfl | hx
  · exact .inr (List.mem_of_head? hf)
  · exact .inl hx

/-- Or finds none. -/
theorem enter_unclaimed (h : Pinned g L pend held parked) {sa : Sigaction}
    (hr : raiseEnter g signo = .ok (.unclaimed sa, g')) :
    g'.map = g.map ∧ ∃ L', Pinned g' L' pend held parked := by
  obtain ⟨hmap, -, L', hw, he⟩ := h.wf.raiseEnter hr
  exact ⟨hmap, L', h.evolve held hw he hmap (fun _ => id) (fun _ _ _ => Nat.le_refl _)
    (by simp) fun x hx => .inl hx⟩

theorem enter_run (h : Pinned g L pend held parked) (signo : Signo) :
    ∃ r, raiseEnter g signo = .ok r :=
  h.wf.raiseEnter_run (h.mapped signo)

/-- The decider a raise is inside of returns, without the last reference on a node that is
parked. -/
theorem leave (h : Pinned g L pend (x :: held) parked) (hm : g.map signo = some x.item)
    (hspare : ∀ y ∈ parked, y.node = x.node → ¬LastRef g x.node) {l : Left} {claimed : Bool}
    (hr : raiseLeave g x.item x.node claimed = .ok (l, g')) :
    g'.map = g.map ∧ ∃ L',
      (∀ m value, l = .deciding m value → Pinned g' L' pend (⟨x.raise, x.item, m⟩ :: held) parked) ∧
      ((∀ m value, l ≠ .deciding m value) → Pinned g' L' pend held parked) := by
  have hin : x.node ∈ L x.item .global := h.listed x List.mem_cons_self
  obtain ⟨hmap, L', he, -, hlast, hcase⟩ := h.wf.raiseLeave hin hr
  have hstays : ∀ y ∈ held ++ parked, some x.node = some y.node →
      y.node ∈ L' y.item .global ∨ g'.containers y.item = none := by
    intro y hy heq
    have heq : y.node = x.node := (Option.some.inj heq).symm
    have hitem : y.item = x.item := by
      have hlist := h.listed y (List.mem_cons_of_mem _ hy)
      rw [heq] at hlist
      exact (h.wf.unshared _ _ _ _ _ hlist hin).1
    rw [heq, hitem]
    refine hlast ?_
    rcases List.mem_append.mp hy with hy | hy
    · rintro ⟨nd, hnd, hone⟩
      have hcount := h.wf.refcount x.node nd hnd
      have hpos : 0 < (held.map Hold.node).count x.node :=
        List.count_pos_iff.mpr (heq ▸ List.mem_map_of_mem hy)
      rw [List.map_cons, List.count_cons_self] at hcount
      omega
    · exact hspare y hy heq
  have hothers : ∀ y ∈ held ++ parked, (∀ signo, g.map signo ≠ some y.item) →
      ((x :: held).map Hold.item).count y.item = (held.map Hold.item).count y.item := by
    intro y _ hunmapped
    have hne : x.item ≠ y.item := fun heq => hunmapped signo (heq ▸ hm)
    rw [List.map_cons, List.count_cons_of_ne hne]
  refine ⟨hmap, L', fun m value hl => ?_, fun hl => ?_⟩
  · subst hl
    obtain ⟨hw, hmem, -⟩ := hcase
    refine h.evolve held hw he hmap (List.subset_cons_self _ _)
      (fun y hy hunmapped =>
        Nat.le_trans (Nat.le_of_eq (hothers y hy hunmapped)) List.count_le_count_cons) hstays
      fun y hy => ?_
    rcases List.mem_cons.mp hy with rfl | hy
    · exact .inr hmem
    · exact .inl hy
  · have hw : Wf g' L' pend (held.map Hold.item) (held.map Hold.node) := by
      cases l with
      | deciding m value => exact absurd rfl (hl m value)
      | claimed => exact hcase
      | unclaimed => exact hcase
    exact h.evolve held hw he hmap (List.subset_cons_self _ _)
      (fun y hy hunmapped => Nat.le_of_eq (hothers y hy hunmapped)) hstays fun y hy => .inl hy

theorem leave_run (h : Pinned g L pend (x :: held) parked) (hm : g.map signo = some x.item)
    (claimed : Bool) : ∃ r, raiseLeave g x.item x.node claimed = .ok r :=
  h.wf.raiseLeave_run (h.mapped signo x.item hm) (h.listed x List.mem_cons_self) claimed

theorem abandon (h : Pinned g L pend (x :: held) []) :
    ∃ g', sigdeciderAbandon g x.item x.node = .ok g' ∧ g'.map = g.map ∧
      Pinned g' L pend held [x] := by
  obtain ⟨g', hr⟩ := h.wf.abandon_run
  obtain ⟨hw, he, hmap⟩ := h.wf.abandon hr
  have hlist := h.listed x List.mem_cons_self
  obtain ⟨nd, hnd⟩ := h.wf.pinned x.node List.mem_cons_self
  refine ⟨g', hr, hmap, hw, fun y hy => ?_, fun y hy => ?_, fun signo c hm =>
    he.allLive (h.mapped signo c (hmap ▸ hm)) (by simp)⟩
  · rcases List.mem_append.mp hy with hy | hy
    · exact h.listed y (List.mem_append.mpr (.inl (List.mem_cons_of_mem _ hy)))
    · rw [List.mem_singleton.mp hy]
      exact hlist
  · rw [List.mem_singleton.mp hy]
    refine Option.ne_none_iff_exists'.mp fun hnone => ?_
    rcases he.spares x.item .global x.node hlist hnone with hdead | hdead
    · cases hnd.symm.trans hdead
    · cases hdead

theorem resume (h : Pinned g L pend held [x]) :
    ∃ g', sigdeciderAbandonResume g x.item x.node = .ok g' ∧ g'.map = g.map ∧
      Pinned g' L pend (x :: held) [] := by
  obtain ⟨nd, hnd⟩ := h.live x (List.mem_singleton_self x)
  obtain ⟨k, hk⟩ := h.container (List.mem_append.mpr (.inr (List.mem_singleton_self x)))
  have hlist : x.node ∈ L x.item .global :=
    h.listed x (List.mem_append.mpr (.inr (List.mem_singleton_self x)))
  refine ⟨_, bind_ok.mpr ⟨k, Heap.read_some hk, bind_ok.mpr ⟨nd, Heap.read_some hnd, rfl⟩⟩, rfl,
    ?_, fun y hy => ?_, by simp, fun signo c hm n hn => ?_⟩
  · refine (h.wf.hold hk).pin hnd fun d hd => ?_
    cases (h.wf.unshared _ _ _ _ _ hlist hd).2
  · rw [List.append_nil] at hy
    rcases List.mem_cons.mp hy with rfl | hy
    · exact hlist
    · exact h.listed y (List.mem_append.mpr (.inl hy))
  · obtain ⟨md, hmd⟩ := h.mapped signo c hm n hn
    by_cases he : n = x.node
    · exact ⟨_, by rw [he]; exact Heap.set_self _ _ _⟩
    · exact ⟨md, (Heap.set_other _ _ he).trans hmd⟩

end Pinned

section

variable {p : Platform} {s s' : State} {L : Layout} {kernel : Signo → Sigaction}

theorem MapSafe.resumed {t : Tid} (hs : MapSafe s L) (h : resumeStep p s (.resume t) = .ok s') :
    MapSafe s' L := by
  rcases resume_cases h with rfl | ⟨a, r, pin, g', htop, hc, hr, hp, hg, rfl⟩
  · exact hs
  · obtain ⟨k, nd, -, hn, rfl⟩ := abandonResume_ok hg
    refine ⟨fun signo c hm n hin => ?_, fun b hb signo n hmiss c hm => ?_⟩
    · obtain ⟨md, hmd⟩ := hs.live signo c hm n hin
      by_cases he : n = pin.current
      · exact ⟨_, by rw [he]; exact Heap.set_self ..⟩
      · exact ⟨md, (Heap.set_other _ _ he).trans hmd⟩
    · rcases List.mem_cons.mp hb with rfl | hb
      · cases hmiss
      · exact hs.missed b (List.mem_of_mem_eraseP hb) signo n hmiss c hm

/-- So the books balance in every state the library comes to. -/
theorem pinned_run
    (hr : Run (resumeStep p) (fun s act => act.Meets Retractable s) (State.initial kernel) s) :
    ∃ L, Pinned s.g L (s.pending p) s.holds [] := by
  obtain ⟨L, hi, -, -, hs⟩ := hr.invariant
    (I := fun s => ∃ L, Inv p s L ∧ Parked s L ∧ Tidy p s ∧ MapSafe s L)
    ⟨_, inv_initial p kernel, parked_initial kernel, tidy_initial p kernel,
      by simp [State.initial], by simp [State.initial]⟩ (by
      rintro s act s' ⟨L, hi, hk, ht, hs⟩ hok h
      cases act with
      | lib act =>
        obtain ⟨L', hi', hx, hl⟩ := hi.step h
        exact ⟨L', hi', hk.step hi hok h hi' hx hl, ht.step h, hs.step hi h hx⟩
      | resume t =>
        obtain ⟨hi', hk', ht', -⟩ := resume_keeps hi hk ht h
        exact ⟨L, hi', hk', ht', hs.resumed h⟩)
  refine ⟨L, hi.wf, fun x hx => ?_, fun x hx => ?_, hs.live⟩
  · rw [List.append_nil] at hx
    exact hi.inside x hx
  · cases hx

end

end Wg14Signals
