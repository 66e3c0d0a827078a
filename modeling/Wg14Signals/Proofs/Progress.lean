import Wg14Signals.Proofs.Raises
import Mathlib.Data.List.Perm.Subperm

namespace Wg14Signals
open Lib

/-- Every registered node is live. The deferred ones are live in any case. -/
def Safe (g : Global) (L : Layout) : Prop := ∀ c, g.nodes.AllLive (L c .global)

theorem Evolves.allLive {x y : Option Addr} {g g' : Global} {L L' : Layout} {c : Addr}
    (he : Evolves x y g g' L L') (hs : g.nodes.AllLive (L c .global))
    (hx : ∀ n, x = some n → g'.nodes n = none → n ∉ L' c .global) :
    g'.nodes.AllLive (L' c .global) := by
  intro n hn
  refine Option.ne_none_iff_exists'.mp fun hd => ?_
  rcases he.spares c .global n hn hd with hg | rfl
  · obtain ⟨nd, hnd⟩ := hs n ((he.shrinks c).subset hn)
    rw [hg] at hnd
    cases hnd
  · exact hx n rfl hd hn

theorem Joins.allLive {i item : Addr} {owner : Nat} {callfirst : Bool} {g g' : Global}
    {L L' : Layout} {c : Addr} (hj : Joins i item owner callfirst g g' L L')
    (hs : g.nodes.AllLive (L c .global)) : g'.nodes.AllLive (L' c .global) := by
  intro n hn
  by_cases he : n = i
  · obtain ⟨nd, hnd, _⟩ := hj.live
    exact ⟨nd, he ▸ hnd⟩
  · obtain ⟨nd, hnd⟩ := hs n ((hj.member hn).resolve_left he)
    have hp := hj.payload n he
    rw [hnd] at hp
    obtain ⟨nd', hnd', _⟩ := Option.map_eq_some_iff.mp hp
    exact ⟨nd', hnd'⟩

namespace Wf

variable {g g' : Global} {L L' : Layout} {pend pend' : List Slot} {cs cs' ns ns' : List Addr}
  {c n : Addr} {k k' : Container} {nd : Node} {signo : Signo}

/-- The loops' fuel, the number of nodes ever allocated, covers any list. -/
theorem fuel (h : Wf g L pend cs ns) (hc : g.containers c = some k) (w : Which) :
    (L c w).length ≤ g.nextNode := by
  have hsub : L c w ⊆ List.range g.nextNode :=
    fun n hn => List.mem_range.mpr (h.bound c w n hn)
  have hlen := ((h.lists c k w hc).nodup.subperm hsub).length_le
  rwa [List.length_range] at hlen

theorem freeDeferred_run (h : Wf g L pend cs ns) (hc : g.containers c = some k) :
    ∃ g', freeDeferred g k = .ok g' := by
  have hlive : g.nodes.AllLive (L c .deferred) := fun n hn => by
    obtain ⟨nd, hnd, _⟩ := h.retired c n hn
    exact ⟨nd, hnd⟩
  obtain ⟨nodes', e', hd⟩ := DList.drain_run Fault.node .stuck (Heap.free .node)
    (h.lists c k .deferred hc) hlive (h.fuel hc .deferred) (by
      rintro h x ⟨a, ha⟩
      exact ⟨h.set x none, Heap.free_run ⟨a, ha⟩, fun y hy => Heap.set_other _ _ hy⟩)
  exact ⟨g.setNodes nodes', bind_ok.mpr ⟨(nodes', e'), hd, rfl⟩⟩

theorem detachDeciders_run (h : Wf g L pend cs ns) (hc : g.containers c = some k)
    (hs : g.nodes.AllLive (L c .global)) : ∃ g', detachDeciders g k = .ok g' := by
  obtain ⟨nodes', e', hd⟩ := DList.drain_run Fault.node .stuck (fun h _ => pure h)
    (h.lists c k .global hc) hs (h.fuel hc .global)
    fun h x _ => ⟨h, rfl, fun _ _ => rfl⟩
  exact ⟨g.setNodes nodes', bind_ok.mpr ⟨(nodes', e'), hd, rfl⟩⟩

theorem release_run (h : Wf g L pend (c :: cs) ns) (hs : g.nodes.AllLive (L c .global)) :
    ∃ g', sighandlerInfoRelease g c = .ok g' := by
  obtain ⟨k, hc⟩ := h.held c List.mem_cons_self
  simp only [sighandlerInfoRelease, Global.readContainer, Heap.read_some hc, bind, Except.bind]
  split
  · obtain ⟨g₁, hf⟩ := h.freeDeferred_run hc
    let k₁ : Container := { k with deferredFrees := {} }
    obtain ⟨hw, he⟩ := h.flush k₁ hc hf rfl rfl rfl
    have hs₁ := he.allLive hs (by simp)
    obtain ⟨nodes₁, rfl, _⟩ := freeDeferred_ok (h.shape hc) hf
    obtain ⟨g₂, hd⟩ := hw.detachDeciders_run (setContainer_self _ c k₁) hs₁
    have hd' : ∃ nodes₂, detachDeciders (g.setNodes nodes₁) k =
        .ok ((g.setNodes nodes₁).setNodes nodes₂) := by
      obtain ⟨⟨nodes₂, e'⟩, hd, _⟩ := bind_ok.mp hd
      exact ⟨nodes₂, bind_ok.mpr ⟨(nodes₂, e'), hd, rfl⟩⟩
    obtain ⟨nodes₂, hd'⟩ := hd'
    simp only [hf, hd', Global.setNodes_containers, Heap.free_run ⟨k, hc⟩]
    exact ⟨_, rfl⟩
  · exact ⟨_, rfl⟩

theorem dropEntry_run (h : Wf g L pend cs ns) (hs : g.nodes.AllLive (L c .global))
    (hm : g.map signo = some c) : ∃ g', Wg14Signals.dropEntry g signo c k = .ok g' :=
  (h.erase hm k.oldHandler).release_run hs

theorem countInstall_run (h : Wf g L pend cs ns) (hs : g.nodes.AllLive (L c .global))
    (hm : g.map signo = some c) (env : InstallEnv) : ∃ r, Wg14Signals.countInstall g signo c env = .ok r := by
  obtain ⟨k, hc⟩ := h.mapped signo c hm
  obtain ⟨g₁, hd⟩ := h.dropEntry_run hs hm (k := k)
  simp only [Wg14Signals.countInstall, Global.readContainer, Heap.read_some hc, bind, Except.bind,
    hd]
  split
  · split <;> exact ⟨_, rfl⟩
  · exact ⟨_, rfl⟩

theorem install_run (h : Wf g L pend cs ns)
    (hs : ∀ c, g.map signo = some c → g.nodes.AllLive (L c .global)) (env : InstallEnv) :
    ∃ r, installSighandler g signo env = .ok r := by
  unfold installSighandler
  split
  · rename_i item hm
    exact h.countInstall_run (hs item hm) hm env
  · rename_i hm
    split
    · exact ⟨_, rfl⟩
    · split
      · exact ⟨_, rfl⟩
      · refine (h.publish hm).countInstall_run ?_ (by simp [newSighandlerInfo]) env
        rw [h.dead _ _ (h.containerFresh _ (Nat.le_refl _))]
        exact fun n hn => absurd hn (by simp)

theorem uninstall_run (h : Wf g L pend cs ns)
    (hs : ∀ c, g.map signo = some c → g.nodes.AllLive (L c .global)) :
    ∃ g', uninstallSighandler g signo = .ok g' := by
  unfold uninstallSighandler
  split
  · exact ⟨_, rfl⟩
  · rename_i item hm
    obtain ⟨k, hc⟩ := h.mapped signo item hm
    obtain ⟨g₁, hf⟩ := h.freeDeferred_run hc
    let k₁ : Container := { k with deferredFrees := {}, installCount := k.installCount - 1 }
    obtain ⟨hw, he⟩ := h.flush k₁ hc hf rfl rfl rfl
    have hs₁ := he.allLive (hs item hm) (by simp)
    obtain ⟨nodes₁, rfl, _⟩ := freeDeferred_ok (h.shape hc) hf
    let g₂ : Global := { (g.setNodes nodes₁).setContainer item k₁ with
      sighandlersCount := g.sighandlersCount - 1 }
    have hw₂ : Wf g₂ (L.set item (Shape.flushed (L item))) pend cs ns :=
      hw.congr rfl rfl rfl rfl rfl
    obtain ⟨g₃, hd⟩ := hw₂.dropEntry_run (k := k₁) hs₁ hm
    simp only [Global.readContainer, Heap.read_some hc, bind, Except.bind, hf]
    split
    · exact ⟨g₃, hd⟩
    · exact ⟨_, rfl⟩

theorem create_run (h : Wf g L pend cs ns)
    (hs : ∀ c, g.map signo = some c → g.nodes.AllLive (L c .global)) (args : CreateArgs)
    (calloc : Bool) :
    ∃ r, createNode g signo args calloc = .ok r := by
  unfold createNode
  split
  · exact ⟨_, rfl⟩
  · rename_i item hm
    obtain ⟨k, hc⟩ := h.mapped signo item hm
    split
    · exact ⟨_, rfl⟩
    · have ha := h.alloc args signo
      have hl := ha.lists item k .global hc
      have hlive : (g.nodes.set g.nextNode (some (newDecider args))).AllLive (L item .global) := by
        intro n hn
        rw [Heap.set_other _ _ (Nat.ne_of_lt (h.bound item .global n hn))]
        exact hs item hm n hn
      have hnew : ∃ a, g.nodes.set g.nextNode (some (newDecider args)) g.nextNode = some a :=
        ⟨_, Heap.set_self _ _ _⟩
      have hlink : ∃ r, linkDecider (g.nodes.set g.nextNode (some (newDecider args)))
          k.globalHandler args.callfirst g.nextNode = .ok r := by
        unfold linkDecider
        split
        · obtain ⟨nodes', e', hi⟩ := DList.insertFront_run Fault.node .assertion hl hlive hnew
          exact ⟨_, hi⟩
        · obtain ⟨nodes', e', hi⟩ := DList.insertBack_run Fault.node .assertion hl hlive hnew
          exact ⟨_, hi⟩
      obtain ⟨r, hlink⟩ := hlink
      simp only [Global.readContainer, Heap.read_some hc, bind, Except.bind, hlink]
      exact ⟨_, rfl⟩

theorem retire_run (h : Wf g L pend cs ns) (hc : g.containers c = some k)
    (hs : g.nodes.AllLive (L c .global)) (hn : g.nodes n = some nd) : ∃ g', retireNode g c k n = .ok g' := by
  have hlist := h.lists c k .global hc
  obtain ⟨linked, hfind⟩ := DList.find_run Fault.node .stuck hlist.seg hs
    (h.fuel hc .global) n
  have hmem := DList.find_ok hlist.seg hfind
  rw [← hlist.front] at hfind
  have hun : ∃ nodes' e', unlinkDecider g.nodes k.globalHandler linked n = .ok (nodes', e') ∧
      ∃ nd', nodes' n = some nd' := by
    unfold unlinkDecider
    cases hlinked : linked with
    | true =>
      rw [hlinked] at hmem
      obtain ⟨a, b, hl⟩ := List.append_of_mem (hmem.mp rfl)
      have hlive := hs
      rw [hl] at hlist hlive
      obtain ⟨nodes', e', hr⟩ := DList.remove_run Fault.node hlist hlive
      obtain ⟨rfl, rfl⟩ := DList.remove_ok hlist hr
      have hp := (DList.unlinked_relinked g.nodes a n b).payload n
      rw [hn] at hp
      obtain ⟨nd', hnd', _⟩ := Option.map_eq_some_iff.mp hp
      exact ⟨_, _, hr, nd', hnd'⟩
    | false =>
      simp only [Bool.false_eq_true, ↓reduceIte, Heap.update_run ⟨nd, hn⟩, bind, Except.bind]
      exact ⟨_, _, rfl, Heap.mapAt_live ⟨nd, hn⟩ _ _⟩
  obtain ⟨nodes', e', hun, hlive⟩ := hun
  have hfind' : sighandlerInfoHasDecider g k n = .ok linked := hfind
  simp only [retireNode, hfind', hun, bind, Except.bind, Heap.free_run hlive]
  exact ⟨_, rfl⟩

theorem destroyUnlocked_run {x : Slot} (h : Wf g L (x :: pend) cs ns) :
    ∃ g', Wg14Signals.destroyUnlocked g (some x.node) = .ok g' := by
  obtain ⟨nd, hn, _⟩ := h.owned x List.mem_cons_self
  simp only [Wg14Signals.destroyUnlocked, Global.readNode, Heap.read_some hn, bind, Except.bind]
  split
  · simp only [Global.setNode_nodes, Heap.free_run ⟨_, Heap.set_self _ _ _⟩]
    exact ⟨_, rfl⟩
  · exact ⟨_, rfl⟩

theorem destroyLocked_none_run (h : Wf g L pend cs ns) (signo : Signo) :
    ∃ r, Wg14Signals.destroyLocked g signo none = .ok r := by
  unfold Wg14Signals.destroyLocked
  split
  · exact ⟨_, rfl⟩
  · rename_i item hm
    obtain ⟨k, hc⟩ := h.mapped signo item hm
    obtain ⟨g₁, hf⟩ := h.freeDeferred_run hc
    simp only [Global.readContainer, Heap.read_some hc, bind, Except.bind, hf]
    exact ⟨_, rfl⟩

theorem destroyLocked_some_run {x : Slot} (h : Wf g L (x :: pend) cs ns)
    (hs : ∀ c, g.map signo = some c → g.nodes.AllLive (L c .global)) :
    ∃ r, Wg14Signals.destroyLocked g signo (some x.node) = .ok r := by
  unfold Wg14Signals.destroyLocked
  split
  · exact ⟨_, rfl⟩
  · rename_i item hm
    obtain ⟨k, hc⟩ := h.mapped signo item hm
    obtain ⟨g₁, hf⟩ := h.freeDeferred_run hc
    obtain ⟨hw, he⟩ := h.flush { k with deferredFrees := {} } hc hf rfl rfl rfl
    have hs₁ := he.allLive (hs item hm) (by simp)
    obtain ⟨nodes₁, rfl, _⟩ := freeDeferred_ok (h.shape hc) hf
    obtain ⟨nd, hn, _⟩ := hw.owned x List.mem_cons_self
    have hread : Global.readNode _ (some x.node) = .ok nd := Heap.read_some hn
    have hdrop := hw.dropSlot hn
    have he₂ : Evolves none none _ _ (L.set item (Shape.flushed (L item))) _ :=
      Evolves.rewrite hn { nd with refcount := nd.refcount - 1 } rfl
    have hs₂ := he₂.allLive hs₁ (by simp)
    obtain ⟨g₂, hret⟩ := hdrop.retire_run (setContainer_self _ item _) hs₂
      (Heap.set_self _ _ _)
    simp only [Global.readContainer, Heap.read_some hc, bind, Except.bind, hf, hread]
    split
    · simp only [hret]
      exact ⟨_, rfl⟩
    · exact ⟨_, rfl⟩

theorem pinNode_run (hn : ∃ nd, g.nodes n = some nd) : ∃ r, Wg14Signals.pinNode g n = .ok r := by
  obtain ⟨nd, hn⟩ := hn
  simp only [Wg14Signals.pinNode, Global.readNode, Heap.read_some hn, bind, Except.bind]
  exact ⟨_, rfl⟩

theorem raiseEnter_run (h : Wf g L pend cs ns)
    (hs : ∀ c, g.map signo = some c → g.nodes.AllLive (L c .global)) :
    ∃ r, Wg14Signals.raiseEnter g signo = .ok r := by
  unfold Wg14Signals.raiseEnter
  split
  · exact ⟨_, rfl⟩
  · rename_i item hm
    obtain ⟨k, hc⟩ := h.mapped signo item hm
    have hfront := (h.lists item k .global hc).front
    simp only [Global.readContainer, Heap.read_some hc, bind, Except.bind]
    split
    · rename_i current hcur
      have hlive := hs item hm current (List.mem_of_head? (hfront.symm.trans hcur))
      obtain ⟨r, hpin⟩ := pinNode_run (g := g.setContainer item
        { k with lifetimeRefcount := k.lifetimeRefcount + 1 }) hlive
      simp only [hpin]
      exact ⟨_, rfl⟩
    · obtain ⟨g₁, hrel⟩ := (h.hold hc).release_run (hs item hm)
      simp only [hrel]
      exact ⟨_, rfl⟩

theorem unpinNode_run (h : Wf g L pend cs (n :: ns)) (hs : g.nodes.AllLive (L c .global))
    (hn : n ∈ L c .global) :
    ∃ r, Wg14Signals.unpinNode g c n = .ok r := by
  obtain ⟨nd, hlive⟩ := h.pinned n List.mem_cons_self
  obtain ⟨k, hc⟩ : ∃ k, g.containers c = some k := by
    refine Option.ne_none_iff_exists'.mp fun hd => ?_
    rw [h.dead c .global hd] at hn
    cases hn
  simp only [Wg14Signals.unpinNode, Global.readNode, Heap.read_some hlive, bind, Except.bind]
  split
  · have hw := h.unpin hlive
    have he : Evolves none none _ _ L _ :=
      Evolves.rewrite hlive { nd with refcount := nd.refcount - 1 } rfl
    have hall := he.allLive hs (by simp)
    obtain ⟨a, b, hl⟩ := List.append_of_mem hn
    have hlist := hw.lists c k .global hc
    rw [hl] at hlist hall
    obtain ⟨nodes₁, e₁, hrem⟩ := DList.remove_run Fault.node hlist hall
    obtain ⟨rfl, rfl⟩ := DList.remove_ok hlist hrem
    have hr₁ := DList.unlinked_relinked
      (g.setNode n (some { nd with refcount := nd.refcount - 1 })).nodes a n b
    have hdl : DList.IsList _ k.deferredFrees (L c .deferred) :=
      (hw.lists c k .deferred hc).relinked hr₁ fun m hm hm' =>
        (hw.shape hc).apart m (hl ▸ hm') hm
    have hdlive : Heap.AllLive _ (L c .deferred) := DList.allLive_relinked (fun m hm => by
      obtain ⟨md, hmd, _⟩ := hw.retired c m hm
      exact ⟨md, hmd⟩) hr₁
    obtain ⟨nodes₂, e₂, hins⟩ := DList.insertBack_run Fault.node .assertion (x := n) hdl hdlive
      (DList.allLive_relinked hall hr₁ n (by simp))
    have hc' : (g.setNode n (some { nd with refcount := nd.refcount - 1 })).containers c = some k :=
      hc
    have hrem' : DList.remove Fault.node
        (g.setNode n (some { nd with refcount := nd.refcount - 1 })).nodes k.globalHandler n =
        .ok _ := hrem
    simp only [Global.readContainer, Heap.read_some hc', hrem', hins]
    exact ⟨_, rfl⟩
  · exact ⟨_, rfl⟩

theorem raiseLeave_run (h : Wf g L pend (c :: cs) (n :: ns)) (hs : g.nodes.AllLive (L c .global))
    (hn : n ∈ L c .global) (claimed : Bool) :
    ∃ r, Wg14Signals.raiseLeave g c n claimed = .ok r := by
  obtain ⟨⟨next, g₁⟩, hu⟩ := h.unpinNode_run hs hn
  obtain ⟨_, a, b, L₁, hl, rfl, hw₁, he₁, hb, _⟩ := h.unpinNode hn hu
  have hs₁ := he₁.allLive hs (by simp)
  obtain ⟨g₂, hrel⟩ := hw₁.release_run hs₁
  simp only [Wg14Signals.raiseLeave, hu, bind, Except.bind, hrel]
  split
  · exact ⟨_, rfl⟩
  · split
    · rename_i m hm
      obtain ⟨r, hpin⟩ := pinNode_run (hs₁ m (hb m (List.mem_of_head? hm)))
      simp only [hpin]
      exact ⟨_, rfl⟩
    · exact ⟨_, rfl⟩

theorem abandon_run (h : Wf g L pend (c :: cs) (n :: ns)) :
    ∃ g', sigdeciderAbandon g c n = .ok g' := by
  obtain ⟨k, hc⟩ := h.held c List.mem_cons_self
  obtain ⟨nd, hn⟩ := h.pinned n List.mem_cons_self
  have hn' : (g.setContainer c
      { k with lifetimeRefcount := k.lifetimeRefcount - 1 }).nodes n = some nd := hn
  simp only [sigdeciderAbandon, Global.readContainer, Heap.read_some hc, bind, Except.bind,
    Global.readNode, Heap.read_some hn']
  exact ⟨_, rfl⟩

end Wf

/-- Faults of the node lists, as opposed to those of containers. -/
def Fault.Nodal : Fault → Prop
  | .node _ => True
  | .assertion => True
  | .stuck => True
  | _ => False

section Errors

variable {g : Global} {c n : Addr} {k : Container} {signo : Signo} {e : Fault}

theorem nodal_of_drain (h : e = .stuck ∨ ∃ p, e = .node p) : e.Nodal := by
  rcases h with rfl | ⟨p, rfl⟩ <;> trivial

theorem nodal_of_insert (h : e = .assertion ∨ ∃ p, e = .node p) : e.Nodal := by
  rcases h with rfl | ⟨p, rfl⟩ <;> trivial

theorem nodal_of_read {p : Option Addr} (h : e = .node p) : e.Nodal := h ▸ trivial

theorem freeDeferred_error (hr : freeDeferred g k = .error e) : e.Nodal := by
  rcases bind_error.mp hr with hr | ⟨⟨_, _⟩, _, hr⟩
  · exact nodal_of_drain (DList.drain_error (fun _ _ _ h => ⟨_, Heap.free_error h⟩) hr)
  · simp at hr

theorem detachDeciders_error (hr : detachDeciders g k = .error e) : e.Nodal := by
  rcases bind_error.mp hr with hr | ⟨⟨_, _⟩, _, hr⟩
  · exact nodal_of_drain (DList.drain_error (fun _ _ _ h => by simp at h) hr)
  · simp at hr

/-- Reading a live container cannot fail, so a failure lies in what follows. -/
theorem readContainer_bind_error {β : Type} {f : Container → Except Fault β}
    (hc : g.containers c = some k) (hr : (g.readContainer c >>= f) = .error e) :
    f k = .error e := by
  rw [Global.readContainer, Heap.read_some hc] at hr
  exact hr

theorem release_error (hc : g.containers c = some k)
    (hr : sighandlerInfoRelease g c = .error e) : e.Nodal := by
  have hr := readContainer_bind_error hc hr
  split at hr
  · rcases bind_error.mp hr with hr | ⟨g₁, hf, hr⟩
    · exact freeDeferred_error hr
    · rcases bind_error.mp hr with hr | ⟨g₂, hd, hr⟩
      · exact detachDeciders_error hr
      · obtain ⟨⟨nodes₁, _⟩, _, hf⟩ := bind_ok.mp hf
        obtain ⟨⟨nodes₂, _⟩, _, hd⟩ := bind_ok.mp hd
        simp only [pure_ok] at hf hd
        subst hf hd
        simp only [Global.setNodes_containers, Heap.free_run ⟨k, hc⟩, bind, Except.bind] at hr
        simp at hr
  · simp at hr

theorem dropEntry_error (hc : g.containers c = some k) {k' : Container}
    (hr : dropEntry g signo c k' = .error e) : e.Nodal := by
  have hc' : ((g.setKernel signo k'.oldHandler).setMap signo none).containers c = some k := hc
  exact release_error hc' hr

theorem countInstall_error (hc : g.containers c = some k) {env : InstallEnv}
    (hr : countInstall g signo c env = .error e) : e.Nodal := by
  have hr := readContainer_bind_error hc hr
  split at hr
  · split at hr
    · rcases bind_error.mp hr with hr | ⟨g₁, _, hr⟩
      · exact dropEntry_error hc hr
      · simp at hr
    · simp at hr
  · simp at hr

theorem install_error (hm : ∀ c, g.map signo = some c → ∃ k, g.containers c = some k)
    {env : InstallEnv} (hr : installSighandler g signo env = .error e) : e.Nodal := by
  unfold installSighandler at hr
  split at hr
  · obtain ⟨k, hc⟩ := hm _ ‹_›
    exact countInstall_error hc hr
  · split at hr
    · simp at hr
    · split at hr
      · simp at hr
      · exact countInstall_error (Heap.set_self _ _ _) hr

theorem uninstall_error (hm : ∀ c, g.map signo = some c → ∃ k, g.containers c = some k)
    (hr : uninstallSighandler g signo = .error e) : e.Nodal := by
  unfold uninstallSighandler at hr
  split at hr
  · simp at hr
  · obtain ⟨k, hc⟩ := hm _ ‹_›
    have hr := readContainer_bind_error hc hr
    rcases bind_error.mp hr with hr | ⟨g₁, _, hr⟩
    · exact freeDeferred_error hr
    · simp only at hr
      split at hr
      · exact dropEntry_error (Heap.set_self _ _ _) hr
      · simp at hr

theorem create_error (hm : ∀ c, g.map signo = some c → ∃ k, g.containers c = some k)
    {args : CreateArgs} {calloc : Bool} (hr : createNode g signo args calloc = .error e) :
    e.Nodal := by
  unfold createNode at hr
  split at hr
  · simp at hr
  · split at hr
    · simp at hr
    · obtain ⟨k, hc⟩ := hm _ ‹_›
      have hr := readContainer_bind_error hc hr
      rcases bind_error.mp hr with hr | ⟨⟨_, _⟩, _, hr⟩
      · unfold linkDecider at hr
        split at hr
        · exact nodal_of_insert (DList.insertFront_error hr)
        · exact nodal_of_insert (DList.insertBack_error hr)
      · simp at hr

theorem retire_error (hr : retireNode g c k n = .error e) : e.Nodal := by
  rcases bind_error.mp hr with hr | ⟨linked, _, hr⟩
  · exact nodal_of_drain (DList.find_error hr)
  · rcases bind_error.mp hr with hr | ⟨⟨_, _⟩, _, hr⟩
    · unfold unlinkDecider at hr
      split at hr
      · obtain ⟨p, hp⟩ := DList.remove_error hr
        exact nodal_of_read hp
      · rcases bind_error.mp hr with hr | ⟨_, _, hr⟩
        · exact nodal_of_read (Heap.update_error hr)
        · simp at hr
    · rcases bind_error.mp hr with hr | ⟨_, _, hr⟩
      · exact nodal_of_read (Heap.free_error hr)
      · simp at hr

theorem destroyLocked_error (hm : ∀ c, g.map signo = some c → ∃ k, g.containers c = some k)
    {slot : Option Addr} (hr : destroyLocked g signo slot = .error e) : e.Nodal := by
  unfold destroyLocked at hr
  split at hr
  · simp at hr
  · obtain ⟨k, hc⟩ := hm _ ‹_›
    have hr := readContainer_bind_error hc hr
    rcases bind_error.mp hr with hr | ⟨g₁, _, hr⟩
    · exact freeDeferred_error hr
    · simp only at hr
      split at hr
      · simp at hr
      · rcases bind_error.mp hr with hr | ⟨nd, _, hr⟩
        · exact nodal_of_read (Heap.read_error hr)
        · split at hr
          · rcases bind_error.mp hr with hr | ⟨_, _, hr⟩
            · exact retire_error hr
            · simp at hr
          · simp at hr

theorem destroyUnlocked_error {slot : Option Addr} (hr : destroyUnlocked g slot = .error e) :
    e.Nodal := by
  unfold destroyUnlocked at hr
  split at hr
  · simp at hr
  · rcases bind_error.mp hr with hr | ⟨nd, _, hr⟩
    · exact nodal_of_read (Heap.read_error hr)
    · simp only at hr
      split at hr
      · rcases bind_error.mp hr with hr | ⟨_, _, hr⟩
        · exact nodal_of_read (Heap.free_error hr)
        · simp at hr
      · simp at hr

theorem pinNode_error (hr : pinNode g n = .error e) : e.Nodal := by
  rcases bind_error.mp hr with hr | ⟨nd, _, hr⟩
  · exact nodal_of_read (Heap.read_error hr)
  · simp at hr

theorem raiseEnter_error (hm : ∀ c, g.map signo = some c → ∃ k, g.containers c = some k)
    (hr : raiseEnter g signo = .error e) : e.Nodal := by
  unfold raiseEnter at hr
  split at hr
  · simp at hr
  · obtain ⟨k, hc⟩ := hm _ ‹_›
    have hr := readContainer_bind_error hc hr
    simp only at hr
    split at hr
    · rcases bind_error.mp hr with hr | ⟨⟨_, _⟩, _, hr⟩
      · exact pinNode_error hr
      · simp at hr
    · rcases bind_error.mp hr with hr | ⟨_, _, hr⟩
      · exact release_error (Heap.set_self _ _ _) hr
      · simp at hr

theorem unpinNode_error (hc : g.containers c = some k) (hr : unpinNode g c n = .error e) :
    e.Nodal := by
  rcases bind_error.mp hr with hr | ⟨nd, _, hr⟩
  · exact nodal_of_read (Heap.read_error hr)
  · simp only at hr
    split at hr
    · have hr := readContainer_bind_error (k := k) hc hr
      rcases bind_error.mp hr with hr | ⟨⟨_, _⟩, _, hr⟩
      · obtain ⟨p, hp⟩ := DList.remove_error hr
        exact nodal_of_read hp
      · rcases bind_error.mp hr with hr | ⟨⟨_, _⟩, _, hr⟩
        · exact nodal_of_insert (DList.insertBack_error hr)
        · simp at hr
    · simp at hr

theorem unpinNode_container {g' : Global} {next : Option Addr} (hc : g.containers c = some k)
    (hr : unpinNode g c n = .ok (next, g')) : ∃ k', g'.containers c = some k' := by
  obtain ⟨nd, _, hr⟩ := bind_ok.mp hr
  simp only at hr
  split at hr
  · obtain ⟨k', _, hr⟩ := bind_ok.mp hr
    obtain ⟨⟨_, _⟩, _, hr⟩ := bind_ok.mp hr
    obtain ⟨⟨_, _⟩, _, hr⟩ := bind_ok.mp hr
    simp only [pure_ok, Prod.mk.injEq] at hr
    obtain ⟨rfl, rfl⟩ := hr
    exact ⟨_, Heap.set_self _ _ _⟩
  · simp only [pure_ok, Prod.mk.injEq] at hr
    obtain ⟨rfl, rfl⟩ := hr
    exact ⟨k, hc⟩

theorem raiseLeave_error (hc : g.containers c = some k) {claimed : Bool}
    (hr : raiseLeave g c n claimed = .error e) : e.Nodal := by
  rcases bind_error.mp hr with hr | ⟨⟨next, g₁⟩, hu, hr⟩
  · exact unpinNode_error hc hr
  · obtain ⟨k₁, hc₁⟩ := unpinNode_container hc hu
    simp only at hr
    split at hr
    · rcases bind_error.mp hr with hr | ⟨_, _, hr⟩
      · exact release_error hc₁ hr
      · simp at hr
    · split at hr
      · rcases bind_error.mp hr with hr | ⟨⟨_, _⟩, _, hr⟩
        · exact pinNode_error hr
        · simp at hr
      · rcases bind_error.mp hr with hr | ⟨_, _, hr⟩
        · exact release_error hc₁ hr
        · simp at hr

theorem abandon_error (hc : g.containers c = some k) (hr : sigdeciderAbandon g c n = .error e) :
    e.Nodal := by
  have hr := readContainer_bind_error hc hr
  rcases bind_error.mp hr with hr | ⟨nd, _, hr⟩
  · exact nodal_of_read (Heap.read_error hr)
  · simp at hr

end Errors

end Wg14Signals
