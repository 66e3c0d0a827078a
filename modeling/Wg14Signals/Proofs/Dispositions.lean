import Wg14Signals.Proofs.Effects
import Wg14Signals.Proofs.Surgery

namespace Wg14Signals
open Lib

@[simps -fullyApplied]
def Global.setCount (g : Global) (n : Int) : Global := { g with sighandlersCount := n }

/-- An operation that leaves alone the map, the kernel's table, the count of all installs,
and what containers have saved and counted. It may free containers. -/
structure Still (g g' : Global) : Prop where
  map : g'.map = g.map
  kernel : g'.kernel = g.kernel
  count : g'.sighandlersCount = g.sighandlersCount
  next : g.nextContainer ≤ g'.nextContainer
  saved : ∀ c k', g'.containers c = some k' →
    ∃ k, g.containers c = some k ∧ k'.oldHandler = k.oldHandler ∧ k'.installCount = k.installCount

namespace Still

variable {g g' g'' : Global}

theorem refl (g : Global) : Still g g :=
  ⟨rfl, rfl, rfl, Nat.le_refl _, fun _ k h => ⟨k, h, rfl, rfl⟩⟩

theorem trans (hx : Still g g') (hy : Still g' g'') : Still g g'' where
  map := hy.map.trans hx.map
  kernel := hy.kernel.trans hx.kernel
  count := hy.count.trans hx.count
  next := Nat.le_trans hx.next hy.next
  saved c k'' hk'' := by
    obtain ⟨k', hk', ho', hn'⟩ := hy.saved c k'' hk''
    obtain ⟨k, hk, ho, hn⟩ := hx.saved c k' hk'
    exact ⟨k, hk, ho'.trans ho, hn'.trans hn⟩

theorem setNodes (hs : Still g g') (nodes : Heap Node) : Still g (g'.setNodes nodes) :=
  ⟨hs.map, hs.kernel, hs.count, hs.next, hs.saved⟩

theorem setContainer (hs : Still g g') {c : Addr} {k : Container}
    (hc : g'.containers c = some k) (k' : Container) (ho : k'.oldHandler = k.oldHandler)
    (hn : k'.installCount = k.installCount) : Still g (g'.setContainer c k') := by
  refine hs.trans ⟨rfl, rfl, rfl, Nat.le_refl _, fun d kd hd => ?_⟩
  by_cases he : d = c
  · subst he
    rw [setContainer_self] at hd
    cases hd
    exact ⟨k, hc, ho, hn⟩
  · rw [setContainer_other _ _ he] at hd
    exact ⟨kd, hd, rfl, rfl⟩

end Still

/-- The four ways a section of `install_sighandler` can end, each up to what is still. -/
inductive Installs (signo : Signo) (g : Global) : Bool → Global → Prop where
  | refused {g' : Global} (h : Still g g') : Installs signo g false g'
  | counted {g' : Global} (c : Addr) (k : Container) (hm : g.map signo = some c)
      (hc : g.containers c = some k)
      (h : Still ((g.setContainer c { k with installCount := k.installCount + 1 }).setCount
        (g.sighandlersCount + 1)) g') :
      Installs signo g true g'
  | published {g' : Global} (hm : g.map signo = none)
      (h : Still (((newSighandlerInfo g signo).setContainer g.nextContainer
        { installCount := 1, lifetimeRefcount := 1, oldHandler := g.kernel signo }).setCount
        (g.sighandlersCount + 1)) g') :
      Installs signo g true g'
  /-- Only an entry nobody has counted could be rolled back by another install. -/
  | dropped {g' : Global} (c : Addr) (k : Container) (hm : g.map signo = some c)
      (hc : g.containers c = some k) (hz : k.installCount = 0)
      (h : Still ((g.setKernel signo k.oldHandler).setMap signo none) g') :
      Installs signo g false g'

inductive Uninstalls (signo : Signo) (g : Global) : Global → Prop where
  | absent (hm : g.map signo = none) : Uninstalls signo g g
  | counted {g' : Global} (c : Addr) (k : Container) (hm : g.map signo = some c)
      (hc : g.containers c = some k) (hn : k.installCount ≠ 1)
      (h : Still ((g.setContainer c { k with installCount := k.installCount - 1 }).setCount
        (g.sighandlersCount - 1)) g') :
      Uninstalls signo g g'
  | erased {g' : Global} (c : Addr) (k : Container) (hm : g.map signo = some c)
      (hc : g.containers c = some k) (hn : k.installCount = 1)
      (h : Still ((((g.setContainer c { k with installCount := 0 }).setCount
        (g.sighandlersCount - 1)).setKernel signo k.oldHandler).setMap signo none) g') :
      Uninstalls signo g g'

theorem readContainer_ok {g : Global} {c : Addr} {k : Container}
    (h : g.readContainer c = .ok k) : g.containers c = some k := by
  obtain ⟨_, he, hc⟩ := Heap.read_ok.mp h
  cases he
  exact hc

section

variable {g g' : Global} {c n : Addr} {k : Container} {signo : Signo}

theorem freeDeferred_still (h : freeDeferred g k = .ok g') : Still g g' := by
  obtain ⟨⟨nodes, _⟩, _, h⟩ := bind_ok.mp h
  simp only [pure_ok] at h
  subst h
  exact (Still.refl g).setNodes nodes

theorem detachDeciders_still (h : detachDeciders g k = .ok g') : Still g g' := by
  obtain ⟨⟨nodes, _⟩, _, h⟩ := bind_ok.mp h
  simp only [pure_ok] at h
  subst h
  exact (Still.refl g).setNodes nodes

theorem release_still (h : sighandlerInfoRelease g c = .ok g') : Still g g' := by
  obtain ⟨k, hk, h⟩ := bind_ok.mp h
  split at h
  · obtain ⟨g₁, hf, h⟩ := bind_ok.mp h
    obtain ⟨g₂, hd, h⟩ := bind_ok.mp h
    obtain ⟨containers', hfree, h⟩ := bind_ok.mp h
    obtain ⟨_, rfl⟩ := Heap.free_ok.mp hfree
    simp only [pure_ok] at h
    subst h
    refine (freeDeferred_still hf).trans ((detachDeciders_still hd).trans ?_)
    refine ⟨rfl, rfl, rfl, Nat.le_refl _, fun d kd hkd => ?_⟩
    by_cases he : d = c
    · simp [he] at hkd
    · exact ⟨kd, (Heap.set_other _ _ he).symm.trans hkd, rfl, rfl⟩
  · simp only [pure_ok] at h
    subst h
    exact (Still.refl g).setContainer (readContainer_ok hk) _ rfl rfl

theorem release_frees (hc : g.containers c = some k) (hone : k.lifetimeRefcount = 1)
    (hr : sighandlerInfoRelease g c = .ok g') : g'.containers c = none := by
  obtain ⟨k', hk, hr⟩ := bind_ok.mp hr
  obtain ⟨_, he, hc'⟩ := Heap.read_ok.mp hk
  cases he
  rw [hc] at hc'
  cases hc'
  rw [if_pos (by omega)] at hr
  obtain ⟨g₁, hf, hr⟩ := bind_ok.mp hr
  obtain ⟨g₂, hd, hr⟩ := bind_ok.mp hr
  obtain ⟨containers', hfree, hr⟩ := bind_ok.mp hr
  obtain ⟨_, rfl⟩ := Heap.free_ok.mp hfree
  simp only [pure_ok] at hr
  subst hr
  exact Heap.set_self _ _ _

theorem pinNode_still {value : Int} (h : pinNode g n = .ok (value, g')) : Still g g' := by
  obtain ⟨nd, _, h⟩ := bind_ok.mp h
  simp only [pure_ok, Prod.mk.injEq] at h
  rw [← h.2]
  exact (Still.refl g).setNodes _

theorem unpinNode_still {next : Option Addr} (h : unpinNode g c n = .ok (next, g')) :
    Still g g' := by
  obtain ⟨nd, _, h⟩ := bind_ok.mp h
  have hpin : Still g (g.setNode n (some { nd with refcount := nd.refcount - 1 })) :=
    (Still.refl g).setNodes _
  simp only at h
  split at h
  · obtain ⟨k, hk, h⟩ := bind_ok.mp h
    obtain ⟨⟨nodes₁, ends₁⟩, _, h⟩ := bind_ok.mp h
    obtain ⟨⟨nodes₂, ends₂⟩, _, h⟩ := bind_ok.mp h
    simp only [pure_ok, Prod.mk.injEq] at h
    rw [← h.2]
    exact (hpin.setNodes nodes₂).setContainer (readContainer_ok hk) _ rfl rfl
  · simp only [pure_ok, Prod.mk.injEq] at h
    rw [← h.2]
    exact hpin

theorem raiseEnter_still {e : Entered} (h : raiseEnter g signo = .ok (e, g')) : Still g g' := by
  unfold raiseEnter at h
  split at h
  · simp only [pure_ok, Prod.mk.injEq] at h
    rw [← h.2]
    exact .refl g
  · obtain ⟨k, hk, h⟩ := bind_ok.mp h
    have hheld := (Still.refl g).setContainer (readContainer_ok hk)
      { k with lifetimeRefcount := k.lifetimeRefcount + 1 } rfl rfl
    simp only at h
    split at h
    · obtain ⟨⟨value, g₁⟩, hp, h⟩ := bind_ok.mp h
      simp only [pure_ok, Prod.mk.injEq] at h
      rw [← h.2]
      exact hheld.trans (pinNode_still hp)
    · obtain ⟨g₁, hr, h⟩ := bind_ok.mp h
      simp only [pure_ok, Prod.mk.injEq] at h
      rw [← h.2]
      exact hheld.trans (release_still hr)

theorem raiseLeave_still {claimed : Bool} {l : Left} (h : raiseLeave g c n claimed = .ok (l, g')) :
    Still g g' := by
  obtain ⟨⟨next, g₁⟩, hu, h⟩ := bind_ok.mp h
  refine (unpinNode_still hu).trans ?_
  simp only at h
  split at h
  · obtain ⟨g₂, hr, h⟩ := bind_ok.mp h
    simp only [pure_ok, Prod.mk.injEq] at h
    rw [← h.2]
    exact release_still hr
  · split at h
    · obtain ⟨⟨value, g₂⟩, hp, h⟩ := bind_ok.mp h
      simp only [pure_ok, Prod.mk.injEq] at h
      rw [← h.2]
      exact pinNode_still hp
    · obtain ⟨g₂, hr, h⟩ := bind_ok.mp h
      simp only [pure_ok, Prod.mk.injEq] at h
      rw [← h.2]
      exact release_still hr

theorem abandon_still (h : sigdeciderAbandon g c n = .ok g') : Still g g' := by
  obtain ⟨k, hk, h⟩ := bind_ok.mp h
  obtain ⟨nd, _, h⟩ := bind_ok.mp h
  simp only [pure_ok] at h
  subst h
  exact ((Still.refl g).setContainer (readContainer_ok hk)
    { k with lifetimeRefcount := k.lifetimeRefcount - 1 } rfl rfl).setNodes _

theorem createNode_still {args : CreateArgs} {calloc : Bool} {r : Created}
    (h : createNode g signo args calloc = .ok (r, g')) : Still g g' := by
  unfold createNode at h
  split at h
  · simp only [pure_ok, Prod.mk.injEq] at h
    rw [← h.2]
    exact .refl g
  · split at h
    · simp only [pure_ok, Prod.mk.injEq] at h
      rw [← h.2]
      exact .refl g
    · obtain ⟨k, hk, h⟩ := bind_ok.mp h
      obtain ⟨⟨nodes, ends⟩, _, h⟩ := bind_ok.mp h
      simp only [pure_ok, Prod.mk.injEq] at h
      rw [← h.2]
      let g₁ : Global := { g with nextNode := g.nextNode + 1 }
      have hnext : Still g g₁ := ⟨rfl, rfl, rfl, Nat.le_refl _, (Still.refl g).saved⟩
      exact (hnext.setNodes nodes).setContainer (readContainer_ok hk) _ rfl rfl

theorem retireNode_still {k₀ : Container} (hc : g.containers c = some k₀)
    (ho : k.oldHandler = k₀.oldHandler) (hn : k.installCount = k₀.installCount)
    (h : retireNode g c k n = .ok g') : Still g g' := by
  obtain ⟨linked, _, h⟩ := bind_ok.mp h
  obtain ⟨⟨nodes₁, ends⟩, _, h⟩ := bind_ok.mp h
  obtain ⟨nodes₂, _, h⟩ := bind_ok.mp h
  simp only [pure_ok] at h
  subst h
  exact ((Still.refl g).setNodes nodes₂).setContainer hc _ ho hn

theorem destroyLocked_still {slot slot' : Option Addr}
    (h : destroyLocked g signo slot = .ok (slot', g')) : Still g g' := by
  unfold destroyLocked at h
  split at h
  · simp only [pure_ok, Prod.mk.injEq] at h
    rw [← h.2]
    exact .refl g
  · rename_i item hm
    obtain ⟨k, hk, h⟩ := bind_ok.mp h
    obtain ⟨g₁, hf, h⟩ := bind_ok.mp h
    have hflush : Still g (g₁.setContainer item { k with deferredFrees := {} }) := by
      refine (freeDeferred_still hf).setContainer (k := k) ?_ _ rfl rfl
      obtain ⟨⟨nodes, _⟩, _, hf⟩ := bind_ok.mp hf
      simp only [pure_ok] at hf
      subst hf
      exact readContainer_ok hk
    cases slot with
    | none =>
      simp only [pure_ok, Prod.mk.injEq] at h
      rw [← h.2]
      exact hflush
    | some m =>
      obtain ⟨nd, _, h⟩ := bind_ok.mp h
      have hdrop := hflush.setNodes
        ((g₁.setContainer item { k with deferredFrees := {} }).nodes.set m
          (some { nd with refcount := nd.refcount - 1 }))
      simp only at h
      split at h
      · obtain ⟨g₂, hret, h⟩ := bind_ok.mp h
        simp only [pure_ok, Prod.mk.injEq] at h
        rw [← h.2]
        refine hdrop.trans (retireNode_still ?_ rfl rfl hret)
        exact setContainer_self g₁ item { k with deferredFrees := {} }
      · simp only [pure_ok, Prod.mk.injEq] at h
        rw [← h.2]
        exact hdrop

theorem destroyUnlocked_still {slot : Option Addr} (h : destroyUnlocked g slot = .ok g') :
    Still g g' := by
  unfold destroyUnlocked at h
  split at h
  · simp only [pure_ok] at h
    rw [h]
    exact .refl g'
  · obtain ⟨nd, _, h⟩ := bind_ok.mp h
    simp only at h
    split at h
    · obtain ⟨nodes, _, h⟩ := bind_ok.mp h
      simp only [pure_ok] at h
      subst h
      exact ((Still.refl g).setNodes _).setNodes nodes
    · simp only [pure_ok] at h
      subst h
      exact (Still.refl g).setNodes _

theorem install_installs {env : InstallEnv} {ok : Bool}
    (h : installSighandler g signo env = .ok (ok, g')) : Installs signo g ok g' := by
  unfold installSighandler at h
  split at h
  · rename_i c hm
    obtain ⟨k, hk, h⟩ := bind_ok.mp h
    have hc := readContainer_ok hk
    split at h
    · split at h
      · rename_i hz
        obtain ⟨g₁, hd, h⟩ := bind_ok.mp h
        simp only [pure_ok, Prod.mk.injEq] at h
        obtain ⟨rfl, rfl⟩ := h
        exact .dropped c k hm hc (by omega) (release_still hd)
      · simp only [pure_ok, Prod.mk.injEq] at h
        obtain ⟨rfl, rfl⟩ := h
        exact .refused (.refl _)
    · simp only [pure_ok, Prod.mk.injEq] at h
      obtain ⟨rfl, rfl⟩ := h
      exact .counted c k hm hc ⟨rfl, rfl, rfl, Nat.le_refl _, (Still.refl _).saved⟩
  · rename_i hm
    split at h
    · simp only [pure_ok, Prod.mk.injEq] at h
      obtain ⟨rfl, rfl⟩ := h
      exact .refused (.refl _)
    · split at h
      · simp only [pure_ok, Prod.mk.injEq] at h
        obtain ⟨rfl, rfl⟩ := h
        exact .refused ⟨rfl, rfl, rfl, Nat.le_succ _, (Still.refl g).saved⟩
      · obtain ⟨k, hk, h⟩ := bind_ok.mp h
        have hc := readContainer_ok hk
        have hnew : k = { lifetimeRefcount := 1, oldHandler := g.kernel signo } := by
          simp only [newSighandlerInfo, Global.setMap_containers, Global.setKernel_containers,
            Heap.set_self, Option.some.injEq] at hc
          exact hc.symm
        split at h
        · split at h
          · obtain ⟨g₁, hd, h⟩ := bind_ok.mp h
            simp only [pure_ok, Prod.mk.injEq] at h
            obtain ⟨rfl, rfl⟩ := h
            refine .refused ?_
            have hst := release_still hd
            have hgone := release_frees (k := k)
              (g := ((newSighandlerInfo g signo).setKernel signo k.oldHandler).setMap signo none)
              hc (by rw [hnew]) hd
            -- the entry, the handler and the container are all gone again
            refine ⟨hst.map.trans ?_, hst.kernel.trans ?_, hst.count,
              Nat.le_trans (Nat.le_succ _) hst.next, ?_⟩
            · funext t
              by_cases he : t = signo <;> simp [newSighandlerInfo, he, hm]
            · funext t
              by_cases he : t = signo <;> simp [newSighandlerInfo, he, hnew]
            · intro d kd hd'
              have hne : d ≠ g.nextContainer := fun he => by
                rw [he, hgone] at hd'
                cases hd'
              obtain ⟨k₀, hk₀, ho, hn⟩ := hst.saved d kd hd'
              refine ⟨k₀, ?_, ho, hn⟩
              simpa [newSighandlerInfo, hne] using hk₀
          · rename_i hz
            rw [hnew] at hz
            exact absurd rfl hz
        · simp only [pure_ok, Prod.mk.injEq] at h
          obtain ⟨rfl, rfl⟩ := h
          refine .published hm ?_
          rw [hnew]
          exact ⟨rfl, rfl, rfl, Nat.le_refl _, (Still.refl _).saved⟩

theorem uninstall_uninstalls (h : uninstallSighandler g signo = .ok g') :
    Uninstalls signo g g' := by
  unfold uninstallSighandler at h
  split at h
  · rename_i hm
    simp only [pure_ok] at h
    subst h
    exact .absent hm
  · rename_i c hm
    obtain ⟨k, hk, h⟩ := bind_ok.mp h
    have hc := readContainer_ok hk
    obtain ⟨g₁, hf, h⟩ := bind_ok.mp h
    obtain ⟨⟨nodes, _⟩, _, hf⟩ := bind_ok.mp hf
    simp only [pure_ok] at hf
    subst hf
    simp only at h
    let k₁ : Container := { k with deferredFrees := {}, installCount := k.installCount - 1 }
    let k₂ : Container := { k with installCount := k.installCount - 1 }
    have hst : Still ((g.setContainer c k₂).setCount (g.sighandlersCount - 1))
        { (g.setNodes nodes).setContainer c k₁ with sighandlersCount := g.sighandlersCount - 1 } := by
      refine ⟨rfl, rfl, rfl, Nat.le_refl _, fun d kd hd => ?_⟩
      by_cases he : d = c
      · subst he
        refine ⟨k₂, setContainer_self g d k₂, ?_⟩
        have hd' : ((g.setNodes nodes).setContainer d k₁).containers d = some kd := hd
        rw [setContainer_self] at hd'
        cases hd'
        exact ⟨rfl, rfl⟩
      · have hd' : ((g.setNodes nodes).setContainer c k₁).containers d = some kd := hd
        rw [setContainer_other _ _ he] at hd'
        exact ⟨kd, (setContainer_other g k₂ he).trans hd', rfl, rfl⟩
    split at h
    · rename_i hz
      have hone : k.installCount = 1 := by omega
      refine .erased c k hm hc hone (Still.trans ?_ (release_still h))
      have hk₂ : k₂ = { k with installCount := 0 } := by simp [k₂, hone]
      rw [hk₂] at hst
      exact ⟨by simp, by simp, by simp, hst.next, hst.saved⟩
    · rename_i hz
      simp only [pure_ok] at h
      subst h
      exact .counted c k hm hc (fun hone => hz (by omega)) hst

/-- What a section does to the map, the kernel's table and the saved dispositions. -/
theorem turn_dispositions {p : Platform} {s : State} {a : Act} {ys : List Act} {hs : List Handle}
    (turn : Turn p s a ys hs g') :
    Still s.g g' ∨
      (∃ set done signo todo ok, a.call = .siginstall set done (signo :: todo) ∧
        Installs signo s.g ok g') ∨
      (∃ signo todo, (a.call = .rollback (signo :: todo) ∨ a.call = .siguninstall (signo :: todo)) ∧
        Uninstalls signo s.g g') ∨
      ∃ r h sa, a.call = .raise r ∧ r.phase = .handoff h ∧ g' = s.g.setKernel r.signo sa := by
  cases turn with
  | install set done signo todo env ok g' hc op =>
    exact Or.inr (Or.inl ⟨set, done, signo, todo, ok, hc, install_installs op⟩)
  | rollback signo todo g' hc op =>
    exact Or.inr (Or.inr (Or.inl ⟨signo, todo, Or.inl hc, uninstall_uninstalls op⟩))
  | uninstall signo todo g' hc op =>
    exact Or.inr (Or.inr (Or.inl ⟨signo, todo, Or.inr hc, uninstall_uninstalls op⟩))
  | reset r current hc hr => exact Or.inr (Or.inr (Or.inr ⟨r, _, _, hc, hr, rfl⟩))
  | restore r current hc hr => exact Or.inr (Or.inr (Or.inr ⟨r, _, _, hc, hr, rfl⟩))
  | create args filled signo todo env i g' hc hd op => exact Or.inl (createNode_still op)
  | missing args filled signo todo env g' hc hd op => exact Or.inl (createNode_still op)
  | giveUp args filled signo env g' hc op => exact Or.inl (createNode_still op)
  | destroyUnlocked handle guarded slot retp signo todo g' hc hs op =>
    exact Or.inl (destroyUnlocked_still op)
  | destroyLocked handle guarded slot slot' retp signo todo g' hc hs op =>
    exact Or.inl (destroyLocked_still op)
  | destroySkip handle guarded slot retp signo todo unlocked g' hc hs op =>
    exact Or.inl (destroyLocked_still op)
  | absent r g' hc hr op => exact Or.inl (raiseEnter_still op)
  | enter r item current value sa g' hc hr op => exact Or.inl (raiseEnter_still op)
  | pass r sa g' hc hr op => exact Or.inl (raiseEnter_still op)
  | claimed r pin cl g' hc hr hp op => exact Or.inl (raiseLeave_still op)
  | walk r pin cl current value g' hc hr hp op => exact Or.inl (raiseLeave_still op)
  | unclaimed r pin cl g' hc hr hp op => exact Or.inl (raiseLeave_still op)
  | abandon r pin g' hc hr hp op => exact Or.inl (abandon_still op)
  | _ => exact Or.inl (.refl _)

end

/-- Containers keep the disposition they saved, and their addresses are not used again. -/
structure Keeps (g g' : Global) : Prop where
  next : g.nextContainer ≤ g'.nextContainer
  saved : ∀ c k', g'.containers c = some k' →
    (∃ k, g.containers c = some k ∧ k'.oldHandler = k.oldHandler) ∨ g.nextContainer ≤ c

theorem Still.keeps {g g' : Global} (h : Still g g') : Keeps g g' :=
  ⟨h.next, fun c k' hk' => by
    obtain ⟨k, hk, ho, _⟩ := h.saved c k' hk'
    exact Or.inl ⟨k, hk, ho⟩⟩

theorem Keeps.trans {g g' g'' : Global} (hx : Keeps g g') (hy : Keeps g' g'') : Keeps g g'' := by
  refine ⟨Nat.le_trans hx.next hy.next, fun c k'' hk'' => ?_⟩
  rcases hy.saved c k'' hk'' with ⟨k', hk', ho'⟩ | hn
  · rcases hx.saved c k' hk' with ⟨k, hk, ho⟩ | hn
    · exact Or.inl ⟨k, hk, ho'.trans ho⟩
    · exact Or.inr hn
  · exact Or.inr (Nat.le_trans hx.next hn)

theorem keeps_setContainer {g g' : Global} {c : Addr} {k k' : Container}
    (hc : g.containers c = some k) (hg : g'.containers = (g.setContainer c k').containers)
    (hn : g'.nextContainer = g.nextContainer) (ho : k'.oldHandler = k.oldHandler) :
    Keeps g g' := by
  refine ⟨Nat.le_of_eq hn.symm, fun d kd hd => Or.inl ?_⟩
  rw [hg] at hd
  by_cases he : d = c
  · subst he
    rw [setContainer_self] at hd
    cases hd
    exact ⟨k, hc, ho⟩
  · rw [setContainer_other _ _ he] at hd
    exact ⟨kd, hd, rfl⟩

theorem Installs.keeps {signo : Signo} {g g' : Global} {ok : Bool}
    (h : Installs signo g ok g') : Keeps g g' := by
  cases h with
  | refused h => exact h.keeps
  | counted c k hm hc h =>
    refine .trans ?_ h.keeps
    exact keeps_setContainer hc rfl rfl rfl
  | published hm h =>
    refine Keeps.trans ⟨Nat.le_succ _, fun d kd hd => ?_⟩ h.keeps
    by_cases he : d = g.nextContainer
    · exact Or.inr (Nat.le_of_eq he.symm)
    · refine Or.inl ⟨kd, ?_, rfl⟩
      simpa [newSighandlerInfo, he] using hd
  | dropped c k hm hc hz h =>
    refine .trans ?_ h.keeps
    exact ⟨Nat.le_refl _, fun d kd hd => Or.inl ⟨kd, hd, rfl⟩⟩

theorem Uninstalls.keeps {signo : Signo} {g g' : Global} (h : Uninstalls signo g g') :
    Keeps g g' := by
  cases h with
  | absent hm => exact (Still.refl g).keeps
  | counted c k hm hc hn h =>
    refine .trans ?_ h.keeps
    exact keeps_setContainer hc rfl rfl rfl
  | erased c k hm hc hn h =>
    refine .trans ?_ h.keeps
    exact keeps_setContainer hc rfl rfl rfl

/-- Only a section of a call changes what the library keeps. -/
theorem step_turns {p : Platform} {s s' : State} {act : Action} (h : step p s act = .ok s') :
    s'.g = s.g ∨ ∃ t a ys hs, s.top t = some a ∧ Turn p s a ys hs s'.g ∧
      s'.acts = ys ++ s.others t ∧ s'.lost = s.lost ∧ Sections s act t a ∧
      ∀ x ∈ a.holds, (∃ d, act = .decide t d) ∨ act = .abandon t := by
  cases step_moves h with
  | idle h => exact Or.inl (h ▸ rfl)
  | begins t call installs hb h => exact Or.inl (h ▸ rfl)
  | destroys t hd hf h => exact Or.inl (h ▸ rfl)
  | raises t signo delivered h => exact Or.inl (h ▸ (pushRaise_frame t signo delivered s.acts).1)
  | turns t a ys hs ht turn ha hh hl hn hd hi hu =>
    refine Or.inr ⟨t, a, ys, hs, ht, turn, ha, hl, hd, fun x hx => ?_⟩
    rcases hu x hx with ⟨d, hact, _⟩ | ⟨hact, _⟩
    · exact Or.inl ⟨d, hact⟩
    · exact Or.inr hact
  | reenters t a r phase ht hc hp h => exact Or.inl (h ▸ (pushRaise_frame a.tid r.signo true _).1)
  | recovers t a r f fs ht hd hc hr hf h => exact Or.inl (h ▸ rfl)

theorem keeps_step {p : Platform} {s s' : State} {act : Action} (h : step p s act = .ok s') :
    Keeps s.g s'.g := by
  rcases step_turns h with he | ⟨t, a, ys, hs, _, turn, _⟩
  · exact he ▸ (Still.refl _).keeps
  · rcases turn_dispositions turn with hst | ⟨_, _, _, _, _, _, hi⟩ | ⟨_, _, _, hu⟩ | ⟨_, _, _, _, _, hg⟩
    · exact hst.keeps
    · exact hi.keeps
    · exact hu.keeps
    · rw [hg]
      exact ⟨Nat.le_refl _, fun c k hk => Or.inl ⟨k, hk, rfl⟩⟩

theorem keeps_run {p : Platform} {ok : State → Action → Prop} {s s' : State}
    (hr : Run (step p) ok s s') : Keeps s.g s'.g := by
  refine hr.invariant (I := fun s' => Keeps s.g s'.g) (Still.refl _).keeps ?_
  intro u act v hk _ hs
  exact hk.trans (keeps_step hs)

end Wg14Signals
