import Wg14Signals.Proofs.Nodes

namespace Wg14Signals
open Lib

namespace Wf

variable {g g' : Global} {L L' : Layout} {pend pend' : List Slot} {cs cs' ns ns' : List Addr}
  {c n : Addr} {k k' : Container} {nd : Node}

theorem pinNode (h : Wf g L pend cs ns) (hd : ∀ c, n ∉ L c .deferred) {value : Int}
    (hr : Wg14Signals.pinNode g n = .ok (value, g')) :
    Wf g' L pend cs (n :: ns) ∧ Evolves none none g g' L L ∧ g'.map = g.map := by
  obtain ⟨nd, hnd, hr⟩ := bind_ok.mp hr
  obtain ⟨_, he, hn⟩ := Heap.read_ok.mp hnd
  cases he
  simp only [pure_ok, Prod.mk.injEq] at hr
  obtain ⟨rfl, rfl⟩ := hr
  exact ⟨h.pin hn hd, .rewrite hn _ rfl, rfl⟩

theorem release_map (hr : sighandlerInfoRelease g c = .ok g') : g'.map = g.map := by
  obtain ⟨k, _, hr⟩ := bind_ok.mp hr
  split at hr
  · obtain ⟨g₁, hf, hr⟩ := bind_ok.mp hr
    obtain ⟨g₂, hd, hr⟩ := bind_ok.mp hr
    obtain ⟨containers', _, hr⟩ := bind_ok.mp hr
    obtain ⟨⟨_, _⟩, _, hf⟩ := bind_ok.mp hf
    obtain ⟨⟨_, _⟩, _, hd⟩ := bind_ok.mp hd
    simp only [pure_ok] at hf hd hr
    subst hf hd hr
    rfl
  · simp only [pure_ok] at hr
    subst hr
    rfl

/-- The first locked section of a raise. The decider called first is the front of
the list, and the action remembered is the mapped container's. -/
theorem raiseEnter (h : Wf g L pend cs ns) {signo : Signo} {r : Entered}
    (hr : Wg14Signals.raiseEnter g signo = .ok (r, g')) :
    g'.map = g.map ∧
    match r with
    | .absent => g.map signo = none ∧ g' = g
    | .deciding item current _ sa =>
      (g.map signo = some item ∧ ∃ k, g.containers item = some k ∧ k.oldHandler = sa) ∧
        Wf g' L pend (item :: cs) (current :: ns) ∧ Evolves none none g g' L L ∧
        (L item .global).head? = some current
    | .unclaimed sa =>
      (∃ item k, g.map signo = some item ∧ g.containers item = some k ∧ k.oldHandler = sa) ∧
        ∃ L', Wf g' L' pend cs ns ∧ Evolves none none g g' L L' := by
  unfold Wg14Signals.raiseEnter at hr
  split at hr
  · simp only [pure_ok, Prod.mk.injEq] at hr
    obtain ⟨rfl, rfl⟩ := hr
    exact ⟨rfl, ‹_›, rfl⟩
  · rename_i item hm
    obtain ⟨k, hk, hr⟩ := bind_ok.mp hr
    obtain ⟨_, he, hc⟩ := Heap.read_ok.mp hk
    cases he
    have hw := h.hold hc
    have hpos := Int.ne_of_gt (h.map_lifetime hm hc)
    have he : Evolves none none g (g.setContainer item
        { k with lifetimeRefcount := k.lifetimeRefcount + 1 }) L L :=
      Evolves.same (.setContainer hc _ fun hz => absurd hz hpos) rfl
    have hfront := (h.lists item k .global hc).front
    simp only at hr
    split at hr
    · rename_i current hcur
      obtain ⟨⟨value, g₁⟩, hpin, hr⟩ := bind_ok.mp hr
      simp only [pure_ok, Prod.mk.injEq] at hr
      obtain ⟨rfl, rfl⟩ := hr
      have hhead : (L item .global).head? = some current := hfront.symm.trans hcur
      obtain ⟨hw', he', hmap⟩ := hw.pinNode (fun d hd => by
        have := h.unshared _ _ _ _ current (List.mem_of_head? hhead) hd
        exact absurd this.2 (by simp)) hpin
      exact ⟨hmap, ⟨hm, k, hc, rfl⟩, hw', he.trans he', hhead⟩
    · obtain ⟨g₁, hrel, hr⟩ := bind_ok.mp hr
      simp only [pure_ok, Prod.mk.injEq] at hr
      obtain ⟨rfl, rfl⟩ := hr
      obtain ⟨L', hw', he'⟩ := hw.release hrel
      exact ⟨(release_map hrel).trans rfl, ⟨item, k, hm, hc, rfl⟩, L', hw', he.trans he'⟩

/-- The decider at `n` has returned. The next one is read off the node before it
can leave the list; `a` and `b` are what stands before and after it. With its
last reference the node is retired. -/
theorem unpinNode (h : Wf g L pend cs (n :: ns)) (hn : n ∈ L c .global)
    {next : Option Addr} (hr : Wg14Signals.unpinNode g c n = .ok (next, g')) :
    g'.map = g.map ∧ ∃ a b L', L c .global = a ++ n :: b ∧ next = b.head? ∧
      Wf g' L' pend cs ns ∧ Evolves none (some n) g g' L L' ∧ (∀ m ∈ b, m ∈ L' c .global) ∧
      (LastRef g n ∧ n ∈ L' c .deferred ∨ ¬ LastRef g n ∧ n ∈ L' c .global) := by
  obtain ⟨nd, hnd, hr⟩ := bind_ok.mp hr
  obtain ⟨_, he, hlive⟩ := Heap.read_ok.mp hnd
  cases he
  obtain ⟨a, b, hl⟩ := List.append_of_mem hn
  obtain ⟨k, hc⟩ : ∃ k, g.containers c = some k := by
    refine Option.ne_none_iff_exists'.mp fun hd => ?_
    rw [h.dead c .global hd] at hn
    cases hn
  have hlist := h.lists c k .global hc
  rw [hl] at hlist
  have hnext : nd.links.next = b.head? := congrArg Links.next (hlist.middle hlive)
  have hw := h.unpin hlive
  have he : Evolves none (some n) g _ L L :=
    Evolves.rewrite hlive { nd with refcount := nd.refcount - 1 } rfl
  simp only at hr
  split at hr
  · rename_i hz
    obtain ⟨k', hk', hr⟩ := bind_ok.mp hr
    obtain ⟨_, hitem, hc'⟩ := Heap.read_ok.mp hk'
    cases hitem
    have hkk : k = k' := Option.some.inj (hc.symm.trans hc')
    subst hkk
    obtain ⟨⟨nodes₁, global⟩, hrem, hr⟩ := bind_ok.mp hr
    obtain ⟨⟨nodes₂, deferred⟩, hins, hr⟩ := bind_ok.mp hr
    simp only [pure_ok, Prod.mk.injEq] at hr
    obtain ⟨rfl, rfl⟩ := hr
    have hself := Heap.set_self g.nodes n (some { nd with refcount := nd.refcount - 1 })
    have hlist' := hw.lists c k .global hc
    rw [hl] at hlist'
    obtain ⟨rfl, rfl⟩ := DList.remove_ok hlist' hrem
    have hr₁ := DList.unlinked_relinked (g.setNode n (some { nd with refcount := nd.refcount - 1 })).nodes
      a n b
    have hshape := hw.shape hc
    have hdl : DList.IsList _ k.deferredFrees (L c .deferred) :=
      (hw.lists c k .deferred hc).relinked hr₁ fun m hm hm' =>
        hshape.apart m (hl ▸ hm') hm
    obtain ⟨rfl, rfl⟩ := DList.insertBack_ok hdl (by
      intro nd₁ hnd₁
      rw [DList.unlinked_self hlist'.nodup] at hnd₁
      obtain ⟨nd₂, _, rfl⟩ := Option.map_eq_some_iff.mp hnd₁
      rfl) hins
    let k' : Container := { k with
      globalHandler := ⟨(a ++ b).head?, (a ++ b).getLast?⟩
      deferredFrees := ⟨(L c .deferred ++ [n]).head?, some n⟩ }
    have hs := hshape.defer k'.ends hl hself hz rfl rfl rfl
    have hsub : (a ++ b).Sublist (L c .global) := by
      rw [hl]
      exact (List.sublist_cons_self n b).append_left a
    have hc₁ : (g.setNode n (some { nd with refcount := nd.refcount - 1 })).containers c = some k :=
      hc
    have he' : Evolves none (some n) _ _ L _ := hw.cut_evolves hs rfl (.cut hc₁ k' id) hsub
      (fun m hm => mem_or_eq hl hm) fun m hm => Or.inl (List.mem_append.mpr (Or.inl hm))
    refine ⟨rfl, a, b, _, hl, hnext, hw.cut k' hc rfl hs, he.trans he', fun m hm => ?_,
      Or.inl ⟨⟨nd, hlive, by omega⟩, ?_⟩⟩
    · rw [Layout.set_self]
      exact List.mem_append.mpr (Or.inr hm)
    · rw [Layout.set_self]
      exact List.mem_append.mpr (Or.inr List.mem_cons_self)
  · rename_i hz
    simp only [pure_ok, Prod.mk.injEq] at hr
    obtain ⟨rfl, rfl⟩ := hr
    refine ⟨rfl, a, b, L, hl, hnext, hw, he, fun m hm => ?_, Or.inr ⟨?_, hn⟩⟩
    · rw [hl]
      exact List.mem_append.mpr (Or.inr (List.mem_cons_of_mem _ hm))
    · rintro ⟨nd', hn', hone⟩
      rw [hlive] at hn'
      cases hn'
      omega

/-- The locked section after a decider has returned. The node goes only with its last
reference, and then it is retired, if not freed at once. -/
theorem raiseLeave (h : Wf g L pend (c :: cs) (n :: ns)) (hn : n ∈ L c .global) {claimed : Bool}
    {r : Left} (hr : Wg14Signals.raiseLeave g c n claimed = .ok (r, g')) :
    g'.map = g.map ∧ ∃ L', Evolves none (some n) g g' L L' ∧
      (LastRef g n → (∃ d, n ∈ L' d .deferred) ∨ g'.nodes n = none) ∧
      (¬ LastRef g n → n ∈ L' c .global ∨ g'.containers c = none) ∧
      match r with
      | .deciding m _ => Wf g' L' pend (c :: cs) (m :: ns) ∧ m ∈ L' c .global ∧
          ∃ a b, L c .global = a ++ n :: m :: b
      | _ => Wf g' L' pend cs ns := by
  obtain ⟨⟨next, g₁⟩, hu, hr⟩ := bind_ok.mp hr
  obtain ⟨hmap₁, a, b, L₁, hl, rfl, hw₁, he₁, hb, hlast⟩ := h.unpinNode hn hu
  have hlt : c < g₁.nextContainer := by
    obtain ⟨k, hk⟩ := hw₁.held c List.mem_cons_self
    exact hw₁.container_lt hk
  -- what becomes of the node in the second half of the section
  have settle : ∀ {L₂}, Evolves none none g₁ g' L₁ L₂ →
      (LastRef g n → (∃ d, n ∈ L₂ d .deferred) ∨ g'.nodes n = none) ∧
      (¬ LastRef g n → n ∈ L₂ c .global ∨ g'.containers c = none) := by
    intro L₂ he₂
    constructor
    · intro hl
      rcases hlast with ⟨_, hd⟩ | ⟨hl', _⟩
      · exact he₂.retired c n hd
      · exact absurd hl hl'
    · intro hl
      rcases hlast with ⟨hl', _⟩ | ⟨_, hd⟩
      · exact absurd hl' hl
      · exact (he₂.keeps c hlt n hd).imp_right fun h => h.resolve_left (by simp)
  simp only at hr
  split at hr
  · obtain ⟨g₂, hrel, hr⟩ := bind_ok.mp hr
    simp only [pure_ok, Prod.mk.injEq] at hr
    obtain ⟨rfl, rfl⟩ := hr
    obtain ⟨L₂, hw₂, he₂⟩ := hw₁.release hrel
    exact ⟨(release_map hrel).trans hmap₁, L₂, he₁.trans he₂.allow, (settle he₂).1, (settle he₂).2,
      hw₂⟩
  · split at hr
    · rename_i m hm
      obtain ⟨⟨value, g₂⟩, hpin, hr⟩ := bind_ok.mp hr
      simp only [pure_ok, Prod.mk.injEq] at hr
      obtain ⟨rfl, rfl⟩ := hr
      obtain ⟨b, rfl⟩ := List.head?_eq_some_iff.mp hm
      have hml : m ∈ L₁ c .global := hb m List.mem_cons_self
      obtain ⟨hw₂, he₂, hmap₂⟩ := hw₁.pinNode (fun d hd =>
        absurd (hw₁.unshared _ _ _ _ m hml hd).2 (by simp)) hpin
      exact ⟨hmap₂.trans hmap₁, L₁, he₁.trans he₂.allow, (settle he₂).1, (settle he₂).2, hw₂, hml,
        a, b, hl⟩
    · obtain ⟨g₂, hrel, hr⟩ := bind_ok.mp hr
      simp only [pure_ok, Prod.mk.injEq] at hr
      obtain ⟨rfl, rfl⟩ := hr
      obtain ⟨L₂, hw₂, he₂⟩ := hw₁.release hrel
      exact ⟨(release_map hrel).trans hmap₁, L₂, he₁.trans he₂.allow, (settle he₂).1, (settle he₂).2,
        hw₂⟩

theorem abandon (h : Wf g L pend (c :: cs) (n :: ns))
    (hr : sigdeciderAbandon g c n = .ok g') :
    Wf g' L pend cs ns ∧ Evolves none none g g' L L ∧ g'.map = g.map := by
  obtain ⟨k, hk, hr⟩ := bind_ok.mp hr
  obtain ⟨_, he, hc⟩ := Heap.read_ok.mp hk
  cases he
  obtain ⟨nd, hnd, hr⟩ := bind_ok.mp hr
  obtain ⟨_, he, hn⟩ := Heap.read_ok.mp hnd
  cases he
  simp only [pure_ok] at hr
  subst hr
  refine ⟨(h.unhold hc).unpin hn, ?_, rfl⟩
  have he : Evolves none none g (g.setContainer c
      { k with lifetimeRefcount := k.lifetimeRefcount - 1 }) L L :=
    Evolves.same (.setContainer hc _ fun hz =>
      absurd hz (Int.ne_of_gt (h.hold_lifetime List.mem_cons_self hc))) rfl
  exact he.trans (.rewrite hn _ rfl)

end Wf

end Wg14Signals
