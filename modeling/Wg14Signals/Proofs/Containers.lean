import Wg14Signals.Install
import Wg14Signals.Proofs.Surgery

namespace Wg14Signals
open Lib

theorem Layout.set_same (L : Layout) (c : Addr) : L.set c (L c) = L := by
  funext d
  by_cases h : d = c
  · rw [h, Layout.set_self]
  · rw [Layout.set_other _ _ h]

theorem freeDeferred_ok {g g' : Global} {k : Container} {l : Which → List Addr}
    (hs : Shape g.nodes k.ends l) (hf : freeDeferred g k = .ok g') :
    ∃ nodes', g' = g.setNodes nodes' ∧
      ∀ n, nodes' n = if n ∈ l .deferred then none else g.nodes n := by
  obtain ⟨⟨nodes', e'⟩, hd, hf⟩ := bind_ok.mp hf
  simp only [pure_ok] at hf
  exact ⟨nodes', hf.symm, (DList.drain_free_ok (hs.lists .deferred) hd).2⟩

theorem detachDeciders_ok {g g' : Global} {k : Container} {l : Which → List Addr}
    (hl : DList.IsList g.nodes k.globalHandler (l .global)) (hf : detachDeciders g k = .ok g') :
    ∃ nodes', g' = g.setNodes nodes' ∧ DList.Relinked g.nodes nodes' (l .global) := by
  obtain ⟨⟨nodes', e'⟩, hd, hf⟩ := bind_ok.mp hf
  simp only [pure_ok] at hf
  exact ⟨nodes', hf.symm, (DList.drain_keep_ok hl hd).2.1⟩

theorem mapRefs_congr {g g' : Global} {c : Addr}
    (h : ∀ s, g'.map s = some c ↔ g.map s = some c) : mapRefs g' c = mapRefs g c := by
  have he : (∃ s, g'.map s = some c) = ∃ s, g.map s = some c := by
    simp only [h]
  unfold mapRefs
  rw [he]

namespace Wf

variable {g g' : Global} {L L' : Layout} {pend pend' : List Slot} {cs cs' ns ns' : List Addr}
  {c : Addr} {k k' : Container}

/-- The kernel's table and the count of installs play no part. -/
theorem congr (h : Wf g L pend cs ns) (hn : g'.nodes = g.nodes) (hnn : g'.nextNode = g.nextNode)
    (hc : g'.containers = g.containers) (hnc : g'.nextContainer = g.nextContainer)
    (hm : g'.map = g.map) : Wf g' L pend cs ns := by
  obtain ⟨nodes, nextNode, containers, nextContainer, map, count, kernel⟩ := g
  obtain ⟨nodes', nextNode', containers', nextContainer', map', count', kernel'⟩ := g'
  simp only at hn hnn hc hnc hm
  subst hn hnn hc hnc hm
  exact ⟨h.nodeFresh, h.containerFresh, h.bound, h.dead, h.mapped, h.mapInj, h.lists, h.unshared,
    h.retired, h.lifetime, h.refcount, h.owned, h.distinct, h.aligned, h.held, h.pinned⟩

/-- Rewriting what the books do not mention of a container. -/
theorem touch (h : Wf g L pend cs ns) (k' : Container) (hc : g.containers c = some k)
    (he : k'.ends = k.ends)
    (hlife : k'.lifetimeRefcount = k.lifetimeRefcount) :
    Wf (g.setContainer c k') L pend cs ns := by
  have hs : Surgery [] g.nodes (L c) g.nodes k'.ends (L c) := by
    refine ⟨fun n nd hn => ⟨nd, hn, rfl⟩, fun n hn => Or.inl hn, fun n _ _ => rfl, fun w => ?_,
      fun n hn => Or.inl hn, fun n hn => ⟨⟨_, hn⟩, fun hg => (h.shape hc).apart n hg hn,
        (h.shape hc).retired n hn⟩⟩
    rw [he]
    exact h.lists c k w hc
  have hw := h.cut k' hc hlife hs
  rwa [Layout.set_same] at hw

/-- The deferred nodes of a container are freed. -/
theorem flush (h : Wf g L pend cs ns) (k' : Container) (hc : g.containers c = some k)
    (hf : freeDeferred g k = .ok g') (hg : k'.globalHandler = k.globalHandler)
    (hd : k'.deferredFrees = {}) (hlife : k'.lifetimeRefcount = k.lifetimeRefcount) :
    Wf (g'.setContainer c k') (L.set c (Shape.flushed (L c))) pend cs ns ∧
      Evolves none none g (g'.setContainer c k') L (L.set c (Shape.flushed (L c))) := by
  obtain ⟨nodes', rfl, hn⟩ := freeDeferred_ok (h.shape hc) hf
  have hs := (h.shape hc).flush k'.ends hn hg hd
  refine ⟨h.cut k' hc hlife hs, h.cut_evolves hs rfl (.cut hc _ hlife.trans) (List.Sublist.refl _)
    (fun n hm => Or.inl hm) fun n hm => Or.inr ?_⟩
  rw [hn n, if_pos hm]

/-- A container nobody refers to any more, with empty lists, can go. -/
theorem dropContainer (h : Wf g L pend cs ns) (hc : g.containers c = some k)
    (hz : k.lifetimeRefcount = 0) (he : ∀ w, L c w = []) :
    Wf (g.setContainers (g.containers.set c none)) L pend cs ns := by
  have hcount := h.lifetime c k hc
  have hmap : ∀ s, g.map s ≠ some c := by
    intro s hs
    have : mapRefs g c = 1 := if_pos ⟨s, hs⟩
    omega
  have hcs : c ∉ cs := fun hm => by
    have := List.count_pos_iff.mpr hm
    omega
  have hlive : ∀ d kd, g.containers.set c none d = some kd → d ≠ c ∧ g.containers d = some kd := by
    intro d kd hd
    by_cases he : d = c
    · rw [he, Heap.set_self] at hd
      cases hd
    · exact ⟨he, by rwa [Heap.set_other _ _ he] at hd⟩
  refine ⟨h.nodeFresh, ?_, h.bound, ?_, ?_, h.mapInj, ?_, h.unshared, h.retired, ?_, h.refcount,
    h.owned, h.distinct, h.aligned, ?_, h.pinned⟩
  · intro d hd
    by_cases hdc : d = c
    · rw [hdc]
      exact Heap.set_self _ _ _
    · exact (Heap.set_other _ _ hdc).trans (h.containerFresh d hd)
  · intro d w hd
    by_cases hdc : d = c
    · rw [hdc]
      exact he w
    · exact h.dead d w ((Heap.set_other _ _ hdc).symm.trans hd)
  · intro s d hd
    have hdc : d ≠ c := fun he => hmap s (he ▸ hd)
    obtain ⟨kd, hkd⟩ := h.mapped s d hd
    exact ⟨kd, (Heap.set_other _ _ hdc).trans hkd⟩
  · intro d kd w hd
    exact h.lists d kd w (hlive d kd hd).2
  · intro d kd hd
    exact h.lifetime d kd (hlive d kd hd).2
  · intro d hd
    have hdc : d ≠ c := fun he => hcs (he ▸ hd)
    obtain ⟨kd, hkd⟩ := h.held d hd
    exact ⟨kd, (Heap.set_other _ _ hdc).trans hkd⟩

/-- A container a raise refers to. -/
theorem hold_lifetime (h : Wf g L pend cs ns) (hm : c ∈ cs) (hc : g.containers c = some k) :
    0 < k.lifetimeRefcount := by
  have hpos : 0 < cs.count c := List.count_pos_iff.mpr hm
  have := h.lifetime c k hc
  omega

/-- A container the map leads to. -/
theorem map_lifetime (h : Wf g L pend cs ns) {signo : Signo} (hm : g.map signo = some c)
    (hc : g.containers c = some k) : 0 < k.lifetimeRefcount := by
  have hone : mapRefs g c = 1 := if_pos ⟨signo, hm⟩
  have := h.lifetime c k hc
  omega

/-- One reference on a container is given back. -/
theorem release (h : Wf g L pend (c :: cs) ns) (hr : sighandlerInfoRelease g c = .ok g') :
    ∃ L', Wf g' L' pend cs ns ∧ Evolves none none g g' L L' := by
  obtain ⟨k, hk, hr⟩ := bind_ok.mp hr
  obtain ⟨_, he, hc⟩ := Heap.read_ok.mp hk
  cases he
  have hu := h.unhold hc
  have hpos := Int.ne_of_gt (h.hold_lifetime List.mem_cons_self hc)
  split at hr
  · rename_i hz
    obtain ⟨g₁, hf, hr⟩ := bind_ok.mp hr
    obtain ⟨g₂, hd, hr⟩ := bind_ok.mp hr
    obtain ⟨containers', hfree, hr⟩ := bind_ok.mp hr
    obtain ⟨_, rfl⟩ := Heap.free_ok.mp hfree
    simp only [pure_ok] at hr
    subst hr
    -- the two loops together empty both lists, and free only what was deferred
    obtain ⟨nodes₁, rfl, hn₁⟩ := freeDeferred_ok (h.shape hc) hf
    let k₁ : Container := { k with deferredFrees := {} }
    let k₂ : Container := { k with lifetimeRefcount := 0, globalHandler := {}, deferredFrees := {} }
    have hs₁ := (h.shape hc).flush k₁.ends hn₁ rfl rfl
    obtain ⟨nodes₂, rfl, hrel⟩ := detachDeciders_ok (hs₁.lists .global) hd
    have hshape : Shape nodes₁ k₁.ends (Shape.flushed (L c)) :=
      ⟨hs₁.lists, fun n _ hm => by simp [Shape.flushed] at hm,
        fun n hm => by simp [Shape.flushed] at hm⟩
    have hs₂ := hshape.relink [] k₂.ends hrel (by simp) rfl (by simp)
      (DList.isList_nil _)
    have hs := hs₁.trans hs₂ (fun n hm => by simp [Shape.flushed] at hm)
    have hcu := setContainer_self g c { k with lifetimeRefcount := k.lifetimeRefcount - 1 }
    have hw := hu.cut k₂ hcu hz.symm hs
    have hfreed : ∀ n ∈ L c .deferred, nodes₂ n = none := by
      intro n hm
      refine (hrel.live n).mpr ?_
      rw [Global.setNodes_nodes, hn₁ n, if_pos hm]
    have hdrop := hw.dropContainer (setContainer_self _ c k₂) rfl (by
      intro w
      rw [Layout.set_self]
      cases w <;> rfl)
    refine ⟨_, hdrop.congr rfl rfl ?_ rfl rfl, ?_⟩
    · funext d
      by_cases hdc : d = c
      · simp [hdc]
      · simp [Global.setContainer, hdc]
    · refine h.cut_evolves hs rfl ?_ (List.nil_sublist _) (fun n _ => Or.inr (Or.inr ?_))
        fun n hm => Or.inr (hfreed n hm)
      · refine ⟨Nat.le_refl _, Nat.le_refl _, fun d _ hd => ?_, fun d kd hd hzero => ⟨kd, ?_, hzero⟩⟩
        · by_cases hdc : d = c
          · simp [hdc]
          · simpa [hdc] using hd
        · have hdc : d ≠ c := by
            rintro rfl
            rw [hc] at hd
            cases hd
            exact hpos hzero
          simpa [hdc] using hd
      · exact Heap.set_self _ _ _
  · simp only [pure_ok] at hr
    subst hr
    exact ⟨L, hu, .same (.setContainer hc _ fun hzero => absurd hzero hpos) rfl⟩

/-- Erasing a map entry hands its reference to whoever erased it. -/
theorem erase (h : Wf g L pend cs ns) {signo : Signo} (hm : g.map signo = some c)
    (sa : Sigaction) :
    Wf ((g.setKernel signo sa).setMap signo none) L pend (c :: cs) ns := by
  have hmap : ∀ s d, ((g.setKernel signo sa).setMap signo none).map s = some d →
      s ≠ signo ∧ g.map s = some d := by
    intro s d hd
    simp only [Global.setMap, Global.setKernel] at hd
    split at hd
    · cases hd
    · exact ⟨‹_›, hd⟩
  refine ⟨h.nodeFresh, h.containerFresh, h.bound, h.dead, ?_, ?_, h.lists, h.unshared, h.retired,
    ?_, h.refcount, h.owned, h.distinct, ?_, ?_, h.pinned⟩
  · exact fun s d hd => h.mapped s d (hmap s d hd).2
  · exact fun s s' d hd hd' => h.mapInj s s' d (hmap s d hd).2 (hmap s' d hd').2
  · intro d kd hd
    have hl := h.lifetime d kd hd
    by_cases hdc : d = c
    · subst hdc
      have h1 : mapRefs g d = 1 := if_pos ⟨signo, hm⟩
      have h0 : mapRefs ((g.setKernel signo sa).setMap signo none) d = 0 := by
        refine if_neg ?_
        rintro ⟨s, hs⟩
        exact (hmap s d hs).1 (h.mapInj s signo d (hmap s d hs).2 hm)
      rw [h0, List.count_cons_self]
      omega
    · have hsame : mapRefs ((g.setKernel signo sa).setMap signo none) d = mapRefs g d := by
        refine mapRefs_congr fun s => ⟨fun hs => (hmap s d hs).2, fun hs => ?_⟩
        have hne : s ≠ signo := by
          rintro rfl
          rw [hm] at hs
          exact hdc (Option.some.inj hs).symm
        simpa [Global.setMap, Global.setKernel, hne] using hs
      rw [hsame, List.count_cons_of_ne (Ne.symm hdc)]
      exact hl
  · exact fun x hx s d hd => h.aligned x hx s d (hmap s d hd).2
  · intro d hd
    rcases List.mem_cons.mp hd with rfl | hd
    · exact h.mapped signo d hm
    · exact h.held d hd

theorem dropEntry (h : Wf g L pend cs ns) {signo : Signo} (hm : g.map signo = some c)
    (hr : Wg14Signals.dropEntry g signo c k = .ok g') :
    ∃ L', Wf g' L' pend cs ns ∧ Evolves none none g g' L L' := by
  obtain ⟨L', hw, he⟩ := (h.erase hm k.oldHandler).release hr
  have hout : Outlives g ((g.setKernel signo k.oldHandler).setMap signo none) :=
    (Outlives.refl g).congr rfl (Nat.le_refl _) (Nat.le_refl _)
  exact ⟨L', hw, he.congr rfl rfl (hout.trans he.containers) (Nat.le_refl _) fun _ _ h => h⟩

/-- A new container is published with the map's reference already counted. -/
theorem publish (h : Wf g L pend cs ns) {signo : Signo} (hm : g.map signo = none) :
    Wf (newSighandlerInfo g signo) L pend cs ns := by
  have hfresh : g.containers g.nextContainer = none := h.containerFresh _ (Nat.le_refl _)
  have hnil : ∀ w, L g.nextContainer w = [] := fun w => h.dead _ w hfresh
  have hold : ∀ d kd, g.containers d = some kd → d ≠ g.nextContainer := by
    intro d kd hd he
    rw [he, hfresh] at hd
    cases hd
  have hmap : ∀ s d, (newSighandlerInfo g signo).map s = some d →
      (s = signo ∧ d = g.nextContainer) ∨ (s ≠ signo ∧ d ≠ g.nextContainer ∧ g.map s = some d) := by
    intro s d hd
    simp only [newSighandlerInfo, Global.setMap, Global.setKernel] at hd
    split at hd
    · exact Or.inl ⟨‹_›, (Option.some.inj hd).symm⟩
    · obtain ⟨kd, hkd⟩ := h.mapped s d hd
      exact Or.inr ⟨‹_›, hold d kd hkd, hd⟩
  have hset : ∀ d, d ≠ g.nextContainer →
      (newSighandlerInfo g signo).containers d = g.containers d :=
    fun d hd => Heap.set_other _ _ hd
  have hself : (newSighandlerInfo g signo).containers g.nextContainer =
      some { lifetimeRefcount := 1, oldHandler := g.kernel signo } := Heap.set_self _ _ _
  refine ⟨h.nodeFresh, ?_, h.bound, ?_, ?_, ?_, ?_, h.unshared, h.retired, ?_, h.refcount, h.owned,
    h.distinct, ?_, ?_, h.pinned⟩
  · intro d hd
    have hd' : g.nextContainer + 1 ≤ d := hd
    rw [hset d (Nat.ne_of_gt hd')]
    exact h.containerFresh d (Nat.le_of_succ_le hd')
  · intro d w hd
    by_cases he : d = g.nextContainer
    · rw [he]
      exact hnil w
    · exact h.dead d w ((hset d he).symm.trans hd)
  · intro s d hd
    rcases hmap s d hd with ⟨_, rfl⟩ | ⟨_, hne, hd⟩
    · exact ⟨_, hself⟩
    · rw [hset d hne]
      exact h.mapped s d hd
  · intro s s' d hd hd'
    rcases hmap s d hd with ⟨rfl, he⟩ | ⟨_, hne, hd⟩
    · rcases hmap s' d hd' with ⟨rfl, _⟩ | ⟨_, hne, _⟩
      · rfl
      · exact absurd he hne
    · rcases hmap s' d hd' with ⟨_, he⟩ | ⟨_, _, hd'⟩
      · exact absurd he hne
      · exact h.mapInj s s' d hd hd'
  · intro d kd w hd
    by_cases he : d = g.nextContainer
    · subst he
      rw [hself] at hd
      cases hd
      rw [hnil w]
      cases w <;> exact DList.isList_nil _
    · exact h.lists d kd w ((hset d he).symm.trans hd)
  · intro d kd hd
    by_cases he : d = g.nextContainer
    · subst he
      rw [hself] at hd
      cases hd
      have h1 : mapRefs (newSighandlerInfo g signo) g.nextContainer = 1 :=
        if_pos ⟨signo, by simp [newSighandlerInfo, Global.setMap]⟩
      have h0 : cs.count g.nextContainer = 0 := by
        refine List.count_eq_zero.mpr fun hc => ?_
        obtain ⟨kd, hkd⟩ := h.held _ hc
        exact hold _ kd hkd rfl
      simp [h1, h0]
    · have hd' := (hset d he).symm.trans hd
      have hsame : mapRefs (newSighandlerInfo g signo) d = mapRefs g d := by
        refine mapRefs_congr fun s => ⟨fun hs => ?_, fun hs => ?_⟩
        · rcases hmap s d hs with ⟨_, hde⟩ | ⟨_, _, hs⟩
          · exact absurd hde he
          · exact hs
        · have hne : s ≠ signo := by
            rintro rfl
            rw [hm] at hs
            cases hs
          simpa [newSighandlerInfo, Global.setMap, Global.setKernel, hne] using hs
      rw [hsame]
      exact h.lifetime d kd hd'
  · intro x hx s d hd hn
    rcases hmap s d hd with ⟨_, rfl⟩ | ⟨_, _, hd⟩
    · rw [hnil] at hn
      cases hn
    · exact h.aligned x hx s d hd hn
  · intro d hd
    obtain ⟨kd, hkd⟩ := h.held d hd
    exact ⟨kd, (hset d (hold d kd hkd)).trans hkd⟩

theorem countInstall (h : Wf g L pend cs ns) {signo : Signo} (hm : g.map signo = some c)
    {env : InstallEnv} {ok : Bool} (hr : Wg14Signals.countInstall g signo c env = .ok (ok, g')) :
    ∃ L', Wf g' L' pend cs ns ∧ Evolves none none g g' L L' := by
  obtain ⟨k, hk, hr⟩ := bind_ok.mp hr
  obtain ⟨_, he, hc⟩ := Heap.read_ok.mp hk
  cases he
  split at hr
  · split at hr
    · obtain ⟨g₁, hd, hr⟩ := bind_ok.mp hr
      simp only [pure_ok, Prod.mk.injEq] at hr
      obtain ⟨-, rfl⟩ := hr
      exact h.dropEntry hm hd
    · simp only [pure_ok, Prod.mk.injEq] at hr
      obtain ⟨-, rfl⟩ := hr
      exact ⟨L, h, .refl _ _⟩
  · simp only [pure_ok, Prod.mk.injEq] at hr
    obtain ⟨-, rfl⟩ := hr
    have ht := h.touch { k with installCount := k.installCount + 1 } hc rfl rfl
    have hout := Outlives.setContainer hc { k with installCount := k.installCount + 1 } id
    exact ⟨L, ht.congr rfl rfl rfl rfl rfl, .same (hout.congr rfl (Nat.le_refl _) (Nat.le_refl _)) rfl⟩

theorem install (h : Wf g L pend cs ns) {signo : Signo} {env : InstallEnv} {ok : Bool}
    (hr : installSighandler g signo env = .ok (ok, g')) :
    ∃ L', Wf g' L' pend cs ns ∧ Evolves none none g g' L L' := by
  unfold installSighandler at hr
  split at hr
  · exact h.countInstall ‹_› hr
  · rename_i hm
    split at hr
    · simp only [pure_ok, Prod.mk.injEq] at hr
      obtain ⟨-, rfl⟩ := hr
      exact ⟨L, h, .refl _ _⟩
    · split at hr
      · simp only [pure_ok, Prod.mk.injEq] at hr
        obtain ⟨-, rfl⟩ := hr
        refine ⟨L, ⟨h.nodeFresh, fun d hd => h.containerFresh d (Nat.le_of_succ_le hd), h.bound,
          h.dead, h.mapped, h.mapInj, h.lists, h.unshared, h.retired, h.lifetime, h.refcount,
          h.owned, h.distinct, h.aligned, h.held, h.pinned⟩, 
          .same ((Outlives.refl g).congr rfl (Nat.le_succ _) (Nat.le_refl _)) rfl⟩
      · have hmap : (newSighandlerInfo g signo).map signo = some g.nextContainer := by
          simp [newSighandlerInfo, Global.setMap]
        obtain ⟨L', hw, he⟩ := (h.publish hm).countInstall hmap hr
        have hout : Outlives g (newSighandlerInfo g signo) := by
          refine ⟨Nat.le_refl _, Nat.le_succ _, fun d hd hg => (Heap.set_other _ _ (Nat.ne_of_lt hd)).trans hg,
            fun d kd hk hz => ⟨kd, (Heap.set_other _ _ fun he => ?_).trans hk, hz⟩⟩
          rw [he, h.containerFresh _ (Nat.le_refl _)] at hk
          cases hk
        exact ⟨L', hw, he.congr rfl rfl (hout.trans he.containers) (Nat.le_succ _) fun _ _ h => h⟩

theorem uninstall (h : Wf g L pend cs ns) {signo : Signo}
    (hr : uninstallSighandler g signo = .ok g') :
    ∃ L', Wf g' L' pend cs ns ∧ Evolves none none g g' L L' := by
  unfold uninstallSighandler at hr
  split at hr
  · simp only [pure_ok] at hr
    subst hr
    exact ⟨L, h, .refl _ _⟩
  · rename_i item hm
    obtain ⟨k, hk, hr⟩ := bind_ok.mp hr
    obtain ⟨_, he, hc⟩ := Heap.read_ok.mp hk
    cases he
    obtain ⟨g₁, hf, hr⟩ := bind_ok.mp hr
    obtain ⟨nodes₁, hg₁, _⟩ := freeDeferred_ok (h.shape hc) hf
    let k₁ : Container := { k with deferredFrees := {}, installCount := k.installCount - 1 }
    obtain ⟨hw, he⟩ := h.flush k₁ hc hf rfl rfl rfl
    have hw' : Wf { g₁.setContainer item k₁ with sighandlersCount := g₁.sighandlersCount - 1 }
        (L.set item (Shape.flushed (L item))) pend cs ns := hw.congr rfl rfl rfl rfl rfl
    have he' : Evolves none none g
        { g₁.setContainer item k₁ with sighandlersCount := g₁.sighandlersCount - 1 } L
        (L.set item (Shape.flushed (L item))) :=
      he.congr rfl rfl (he.containers.congr rfl (Nat.le_refl _) (Nat.le_refl _)) (Nat.le_refl _)
        fun _ _ h => h
    simp only at hr
    split at hr
    · have hm' : g₁.map signo = some item := by
        rw [hg₁]
        exact hm
      obtain ⟨L', hw'', he''⟩ := hw'.dropEntry hm' hr
      exact ⟨L', hw'', he'.trans he''⟩
    · simp only [pure_ok] at hr
      subst hr
      exact ⟨_, hw', he'⟩

end Wf

end Wg14Signals
