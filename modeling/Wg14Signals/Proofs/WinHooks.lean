import Wg14Signals.Proofs.Installing
import Wg14Signals.WinHooks

namespace Wg14Signals
open Lib

section

variable {g : Global} {c : Addr} {k : Container}

theorem freeDeferred_empty (hd : k.deferredFrees = {}) : freeDeferred g k = .ok g := by
  unfold freeDeferred
  rw [hd, DList.drain]
  rfl

theorem detachDeciders_empty (hg : k.globalHandler = {}) : detachDeciders g k = .ok g := by
  unfold detachDeciders
  rw [hg, DList.drain]
  rfl

theorem release_empty (hc : g.containers c = some k) (hone : k.lifetimeRefcount = 1)
    (hg : k.globalHandler = {}) (hd : k.deferredFrees = {}) :
    sighandlerInfoRelease g c = .ok (g.setContainers (g.containers.set c none)) := by
  refine bind_ok.mpr ⟨k, Heap.read_some hc, ?_⟩
  rw [if_pos (by rw [hone]; rfl)]
  refine bind_ok.mpr ⟨g, freeDeferred_empty hd, bind_ok.mpr ⟨g, detachDeciders_empty hg, ?_⟩⟩
  exact bind_ok.mpr ⟨_, bind_ok.mpr ⟨k, Heap.read_some hc, rfl⟩, rfl⟩

end

/-- Both hooks are the library's, in a process that had these. -/
structure Armed (sys : WinSystem) (m : WinLibrary) : Prop where
  filter : m.system.filter = .library
  saved : m.oldUnhandledExceptionFilter = sys.filter
  handle : ∃ h, sys.nextHandle ≤ h ∧ m.vectoredContinueHandler = some h ∧
    m.system.continueHandlers = (h, .library) :: sys.continueHandlers

/-- Both are those the process had. -/
structure Disarmed (sys : WinSystem) (m : WinLibrary) : Prop where
  filter : m.system.filter = sys.filter
  continueHandlers : m.system.continueHandlers = sys.continueHandlers

/-- The library as installs of these signals have left it, where nobody has installed a decider,
in a process that had these hooks. -/
structure HooksHeld (sys : WinSystem) (m : WinLibrary) (l : List Signo) : Prop where
  tallied : Tallied m.g l
  live : ∀ signo c, m.g.map signo = some c → ∃ k, m.g.containers c = some k ∧
    k.lifetimeRefcount = 1 ∧ k.globalHandler = {} ∧ k.deferredFrees = {}
  apart : ∀ signo t c, m.g.map signo = some c → m.g.map t = some c → signo = t
  fresh : ∀ signo c, m.g.map signo = some c → c < m.g.nextContainer
  next : sys.nextHandle ≤ m.system.nextHandle
  restores : m.oldUnhandledExceptionFilter ≠ .library
  off : l = [] → Disarmed sys m
  on : l ≠ [] → Armed sys m

/-- Nothing of the library is among these hooks. -/
structure WinSystem.Foreign (sys : WinSystem) : Prop where
  filter : sys.filter ≠ .library
  continueHandlers : sys.registered = 0

section

variable {sys : WinSystem} {m m' n : WinLibrary} {l : List Signo} {signo : Signo} {c : Addr}
  {env : WinInstallEnv} {ok : Bool}

theorem HooksHeld.zero_iff (h : HooksHeld sys m l) : m.g.sighandlersCount = 0 ↔ l = [] := by
  rw [h.tallied.total, ← List.length_eq_zero_iff]
  exact Int.ofNat_eq_zero

/-- Where no signal has an entry, and nothing is counted. -/
theorem hooks_nil (hmap : ∀ signo, m.g.map signo = none) (hz : m.g.sighandlersCount = 0)
    (hn : sys.nextHandle ≤ m.system.nextHandle) (ho : m.oldUnhandledExceptionFilter ≠ .library)
    (hd : Disarmed sys m) : HooksHeld sys m [] where
  tallied := ⟨by simp [hmap], by simp [hmap], hz⟩
  live := by simp [hmap]
  apart := by simp [hmap]
  fresh := by simp [hmap]
  next := hn
  restores := ho
  off _ := hd
  on hl := absurd rfl hl

theorem hooks_initial (sys : WinSystem) : HooksHeld sys (HookState.initial sys).lib [] :=
  hooks_nil (fun _ => rfl) rfl (Nat.le_refl _) (by simp [HookState.initial]) ⟨rfl, rfl⟩

theorem HooksHeld.follows (hs : sys.Foreign) (h : HooksHeld sys m l) : HooksFollow sys m where
  counted hpos := by
    have hl : l ≠ [] := fun hnil => Int.ne_of_gt hpos (h.zero_iff.mpr hnil)
    obtain ⟨a, -, -, hreg⟩ := (h.on hl).handle
    refine ⟨?_, (h.on hl).filter⟩
    have hother := hs.continueHandlers
    unfold WinSystem.registered at hother ⊢
    rw [hreg, List.countP_cons_of_pos (by rfl), hother]
  uncounted hneg := by
    have hl : l = [] := by
      rw [h.tallied.total] at hneg
      exact List.length_eq_zero_iff.mp (by omega)
    refine ⟨?_, (h.off hl).filter⟩
    unfold WinSystem.registered
    rw [(h.off hl).continueHandlers]
    exact hs.continueHandlers
  old := h.restores

/-- Another install of a signal that has an entry is counted. -/
theorem HooksHeld.counted {k : Container} (h : HooksHeld sys m l) (hm : m.g.map signo = some c)
    (hk : m.g.containers c = some k) :
    HooksHeld sys (m.setG { m.g.setContainer c { k with installCount := k.installCount + 1 } with
      sighandlersCount := m.g.sighandlersCount + 1 }) (signo :: l) where
  tallied := by
    refine h.tallied.count_up (c := c) hm (Heap.set_self _ _ _) ?_ (fun _ _ => rfl) ?_ rfl
    · simp [h.tallied.counts signo c k hm hk]
    · intro t d hne hd
      refine Heap.set_other _ _ fun hdc => hne ?_
      exact h.apart t signo c (hdc ▸ hd) hm
  live t d hd := by
    by_cases hdc : d = c
    · subst hdc
      obtain ⟨k', hk', hone, hg, hdef⟩ := h.live signo d hm
      obtain rfl := Option.some.inj (hk.symm.trans hk')
      exact ⟨_, Heap.set_self _ _ _, hone, hg, hdef⟩
    · obtain ⟨k', hk', hrest⟩ := h.live t d hd
      exact ⟨k', (Heap.set_other _ _ hdc).trans hk', hrest⟩
  apart := h.apart
  fresh := h.fresh
  next := h.next
  restores := h.restores
  off hnil := absurd hnil (List.cons_ne_nil _ _)
  on _ := { h.on (List.ne_nil_of_mem ((h.tallied.mapped signo).mpr ⟨c, hm⟩)) with }

/-- `install_sighandler_impl` sees to it that both hooks are the library's, or fails and has
changed neither. -/
theorem HooksHeld.arms (h : HooksHeld sys m l) (hg : n.g.sighandlersCount = m.g.sighandlersCount)
    (hs : n.system = m.system) (ho : n.oldUnhandledExceptionFilter = m.oldUnhandledExceptionFilter)
    (hv : n.vectoredContinueHandler = m.vectoredContinueHandler) (add : Bool) :
    ∃ ok m₁, winInstallSighandlerImpl n add = (ok, m₁) ∧ m₁.g = n.g ∧
      sys.nextHandle ≤ m₁.system.nextHandle ∧
      if ok then Armed sys m₁
      else l = [] ∧ Disarmed sys m₁ ∧ m₁.oldUnhandledExceptionFilter ≠ .library := by
  unfold winInstallSighandlerImpl
  split
  · rename_i hz
    have hl := h.zero_iff.mp (hg ▸ hz)
    have hoff := h.off hl
    split
    · refine ⟨_, _, rfl, rfl, ?_, ?_, ?_, ?_⟩
      · exact hs ▸ Nat.le_succ_of_le h.next
      · rfl
      · exact hs ▸ hoff.filter
      · refine ⟨n.system.nextHandle, hs ▸ h.next, rfl, ?_⟩
        change _ :: n.system.continueHandlers = _
        rw [hs, hoff.continueHandlers]
    · refine ⟨_, _, rfl, rfl, hs ▸ h.next, hl, ⟨?_, ?_⟩, ho ▸ h.restores⟩
      · exact hs ▸ hoff.filter
      · exact hs ▸ hoff.continueHandlers
  · rename_i hz
    have hon := h.on fun hl => hz (hg ▸ h.zero_iff.mpr hl)
    refine ⟨true, n, rfl, rfl, hs ▸ h.next, ?_, ?_, ?_⟩
    · exact hs ▸ hon.filter
    · exact ho ▸ hon.saved
    · rw [hv, hs]
      exact hon.handle

/-- Where nothing is counted any more `uninstall_sighandler_impl` takes both hooks out again. -/
theorem Armed.disarms (h : Armed sys m) (hz : m.g.sighandlersCount = 0) :
    Disarmed sys (winUninstallSighandlerImpl m) := by
  obtain ⟨a, ha, hv, hreg⟩ := h.handle
  unfold winUninstallSighandlerImpl
  rw [if_pos hz]
  refine ⟨h.saved, ?_⟩
  change m.system.continueHandlers.filter _ = _
  rw [hreg, hv, List.filter_cons_of_neg (by simp)]
  refine List.filter_eq_self.mpr fun x hx => ?_
  have hlt := Nat.lt_of_lt_of_le (sys.old x hx) ha
  simp [Nat.ne_of_lt hlt]

theorem HooksHeld.map_none (h : HooksHeld sys m []) (signo : Signo) : m.g.map signo = none := by
  refine Option.eq_none_iff_forall_ne_some.mpr fun c hm => ?_
  cases (h.tallied.mapped signo).mpr ⟨c, hm⟩

theorem uninstallImpl_keeps (m : WinLibrary) :
    (winUninstallSighandlerImpl m).g = m.g ∧
      (winUninstallSighandlerImpl m).system.nextHandle = m.system.nextHandle ∧
      (winUninstallSighandlerImpl m).oldUnhandledExceptionFilter =
        m.oldUnhandledExceptionFilter := by
  unfold winUninstallSighandlerImpl
  split
  · exact ⟨rfl, rfl, rfl⟩
  · exact ⟨rfl, rfl, rfl⟩

/-- A map entry goes, and the container with it. -/
theorem drop_runs {k : Container} (hc : m.g.containers c = some k) (hone : k.lifetimeRefcount = 1)
    (hg : k.globalHandler = {}) (hd : k.deferredFrees = {}) (signo : Signo) :
    winDropEntry m signo c = .ok ((winUninstallSighandlerImpl m).setG
      ((m.g.setMap signo none).setContainers (m.g.containers.set c none))) := by
  unfold winDropEntry
  simp only [(uninstallImpl_keeps m).1]
  exact bind_ok.mpr ⟨_, release_empty (g := m.g.setMap signo none) hc hone hg hd, rfl⟩

/-- The container of a signal's first install, before the install is counted. -/
def newWinSighandlerInfo : Container := { lifetimeRefcount := 1, oldHandler := .dfl }

def WinLibrary.publish (m : WinLibrary) (signo : Signo) (c : Addr) : WinLibrary :=
  m.setG ((m.g.setContainer c newWinSighandlerInfo).setMap signo (some c))

/-- The first install of a signal. -/
theorem HooksHeld.published (hs : sys.Foreign) (h : HooksHeld sys m l) (hm : m.g.map signo = none)
    (hg : m'.g = { m.g with nextContainer := m.g.nextContainer + 1 })
    (hn : sys.nextHandle ≤ m'.system.nextHandle) (ha : Armed sys m') :
    let m₂ := m'.publish signo m.g.nextContainer
    HooksHeld sys (m₂.setG { m₂.g.setContainer m.g.nextContainer { newWinSighandlerInfo with
        installCount := newWinSighandlerInfo.installCount + 1 } with
      sighandlersCount := m₂.g.sighandlersCount + 1 }) (signo :: l) := by
  intro m₂
  have hmap : ∀ t d, m₂.g.map t = some d →
      t = signo ∧ d = m.g.nextContainer ∨ t ≠ signo ∧ m.g.map t = some d := by
    intro t d hd
    by_cases ht : t = signo
    · exact .inl ⟨ht, (Option.some.inj ((if_pos ht).symm.trans hd)).symm⟩
    · refine .inr ⟨ht, ?_⟩
      have hold : m'.g.map t = some d := (if_neg ht).symm.trans hd
      rw [hg] at hold
      exact hold
  have hcont : ∀ d, d ≠ m.g.nextContainer → m₂.g.containers d = m.g.containers d := by
    intro d hd
    refine (Heap.set_other _ _ hd).trans ?_
    rw [hg]
  refine
    { tallied := ?_, live := ?_, apart := ?_, fresh := ?_, next := hn,
      restores := ha.saved ▸ hs.filter, off := fun hnil => absurd hnil (List.cons_ne_nil _ _),
      on := fun _ => { ha with } }
  · have hcount : l.count signo = 0 := List.count_eq_zero.mpr fun hl => by
      obtain ⟨c, hc⟩ := (h.tallied.mapped signo).mp hl
      rw [hm] at hc
      cases hc
    refine h.tallied.count_up (c := m.g.nextContainer) (if_pos rfl) (Heap.set_self _ _ _) ?_ ?_ ?_ ?_
    · rw [hcount]
      rfl
    · intro t ht
      refine (if_neg ht).trans ?_
      rw [hg]
      rfl
    · intro t d ht hd
      have hne := Nat.ne_of_lt (h.fresh t d hd)
      exact (Heap.set_other _ _ hne).trans (hcont d hne)
    · change m'.g.sighandlersCount + 1 = _
      rw [hg]
  · intro t d hd
    rcases hmap t d hd with ⟨-, rfl⟩ | ⟨-, hold⟩
    · exact ⟨_, Heap.set_self _ _ _, rfl, rfl, rfl⟩
    · have hne := Nat.ne_of_lt (h.fresh t d hold)
      obtain ⟨k, hk, hrest⟩ := h.live t d hold
      exact ⟨k, (Heap.set_other _ _ hne).trans ((hcont d hne).trans hk), hrest⟩
  · intro t u d ht hu
    rcases hmap t d ht with ⟨rfl, rfl⟩ | ⟨-, ht⟩
    · rcases hmap u _ hu with ⟨rfl, -⟩ | ⟨-, hu⟩
      · rfl
      · exact absurd (h.fresh u _ hu) (Nat.lt_irrefl _)
    · rcases hmap u d hu with ⟨-, rfl⟩ | ⟨-, hu⟩
      · exact absurd (h.fresh t _ ht) (Nat.lt_irrefl _)
      · exact h.apart t u d ht hu
  · intro t d hd
    change d < m'.g.nextContainer
    rw [hg]
    rcases hmap t d hd with ⟨-, rfl⟩ | ⟨-, hold⟩
    · exact Nat.lt_succ_self _
    · exact Nat.lt_succ_of_lt (h.fresh t d hold)

theorem HooksHeld.install (hs : sys.Foreign) (h : HooksHeld sys m l) (signo : Signo)
    (env : WinInstallEnv) :
    ∃ ok m', winInstallSighandler m signo env = .ok (ok, m') ∧
      HooksHeld sys m' (if ok then signo :: l else l) := by
  unfold winInstallSighandler
  split
  · rename_i c hm
    obtain ⟨k, hk, -⟩ := h.live signo c hm
    have hz : m.g.sighandlersCount ≠ 0 := fun hz =>
      List.ne_nil_of_mem ((h.tallied.mapped signo).mpr ⟨c, hm⟩) (h.zero_iff.mp hz)
    exact ⟨true, _, bind_ok.mpr ⟨k, Heap.read_some hk, if_neg fun hc => hz hc.1⟩, h.counted hm hk⟩
  · rename_i hm
    split
    · exact ⟨false, m, rfl, h⟩
    · obtain ⟨ok, m₁, himpl, hg, hn, harm⟩ := h.arms (n := m.setG { m.g with
        nextContainer := m.g.nextContainer + 1 }) rfl rfl rfl rfl env.addHandler
      simp only [himpl]
      cases ok with
      | false =>
        obtain ⟨rfl, hdis, hold⟩ := harm
        refine ⟨false, m₁, rfl, hooks_nil ?_ ?_ hn hold hdis⟩
        · intro t
          rw [hg]
          exact h.map_none t
        · rw [hg]
          exact h.zero_iff.mpr rfl
      | true =>
        have hread : (m₁.publish signo m.g.nextContainer).g.containers m.g.nextContainer =
            some newWinSighandlerInfo := Heap.set_self _ _ _
        by_cases hfail : m₁.g.sighandlersCount = 0 ∧ env.tssCreate = false
        · have hl := h.zero_iff.mp ((congrArg Global.sighandlersCount hg).symm.trans hfail.1)
          subst hl
          let m₂ := m₁.publish signo m.g.nextContainer
          have hdrop := drop_runs (m := m₂) hread rfl rfl rfl signo
          obtain ⟨-, hun, huo⟩ := uninstallImpl_keeps m₂
          have harmed : Armed sys m₂ := { harm with }
          refine ⟨false, (winUninstallSighandlerImpl m₂).setG _, bind_ok.mpr
            ⟨_, Heap.read_some hread, (if_pos hfail).trans ((if_pos rfl).trans
              (bind_ok.mpr ⟨_, hdrop, rfl⟩))⟩, ?_⟩
          refine hooks_nil (fun t => ?_) hfail.1 (hun ▸ hn) ?_ { harmed.disarms hfail.1 with }
          · by_cases ht : t = signo
            · exact if_pos ht
            · refine (if_neg ht).trans ((if_neg ht).trans ?_)
              rw [hg]
              exact h.map_none t
          · change (winUninstallSighandlerImpl m₂).oldUnhandledExceptionFilter ≠ _
            rw [huo]
            exact harm.saved ▸ hs.filter
        · refine ⟨true, _, bind_ok.mpr ⟨_, Heap.read_some hread, if_neg hfail⟩, ?_⟩
          exact h.published hs hm hg hn harm

/-- One install of a signal fewer is counted. -/
def WinLibrary.uncount (m : WinLibrary) (c : Addr) (k : Container) : WinLibrary :=
  m.setG { m.g.setContainer c
      { k with deferredFrees := {}, installCount := k.installCount - 1 } with
    sighandlersCount := m.g.sighandlersCount - 1 }

theorem HooksHeld.tallied_less {k : Container} (h : HooksHeld sys m l) (hm : m.g.map signo = some c)
    (hk : m.g.containers c = some k) : Tallied m.g (signo :: l.erase signo) ∧
      k.installCount = (l.erase signo).count signo + 1 := by
  have htally := h.tallied.perm
    (List.perm_cons_erase ((h.tallied.mapped signo).mpr ⟨c, hm⟩)).symm
  refine ⟨htally, ?_⟩
  have hcount := htally.counts signo c k hm hk
  rw [List.count_cons_self] at hcount
  exact_mod_cast hcount

/-- There are installs of the signal left. -/
theorem HooksHeld.uncounted {k : Container} (h : HooksHeld sys m l) (hm : m.g.map signo = some c)
    (hk : m.g.containers c = some k) (hlast : k.installCount - 1 ≠ 0) :
    HooksHeld sys (m.uncount c k) (l.erase signo) := by
  obtain ⟨htally, hcount⟩ := h.tallied_less hm hk
  have hmem : signo ∈ l := (h.tallied.mapped signo).mpr ⟨c, hm⟩
  have hstill : signo ∈ l.erase signo := List.count_pos_iff.mp (by omega)
  have hread : (m.uncount c k).g.containers c = some _ := Heap.set_self _ _ _
  refine
    { tallied := ?_, live := ?_, apart := h.apart, fresh := h.fresh, next := h.next,
      restores := h.restores, off := fun hnil => absurd hnil (List.ne_nil_of_mem hstill),
      on := fun _ => { h.on (List.ne_nil_of_mem hmem) with } }
  · refine htally.count_down (c := c) (.inl ⟨hm, hstill⟩) ?_ (fun _ _ => rfl) ?_ rfl
    · intro k' _ hk'
      obtain rfl := Option.some.inj (hread.symm.trans hk')
      change k.installCount - 1 = _
      omega
    · intro t d ht hd
      exact Heap.set_other _ _ fun hdc => ht (h.apart t signo c (hdc ▸ hd) hm)
  · intro t d hd
    by_cases hdc : d = c
    · subst hdc
      obtain ⟨k', hk', hone, hg, -⟩ := h.live signo d hm
      obtain rfl := Option.some.inj (hk.symm.trans hk')
      exact ⟨_, hread, hone, hg, rfl⟩
    · obtain ⟨k', hk', hrest⟩ := h.live t d hd
      exact ⟨k', (Heap.set_other _ _ hdc).trans hk', hrest⟩

/-- That was the last one, and the entry goes. -/
theorem HooksHeld.dropped {k : Container} (h : HooksHeld sys m l) (hm : m.g.map signo = some c)
    (hk : m.g.containers c = some k) (hlast : k.installCount - 1 = 0) :
    ∃ m', winDropEntry (m.uncount c k) signo c = .ok m' ∧ HooksHeld sys m' (l.erase signo) := by
  obtain ⟨htally, hcount⟩ := h.tallied_less hm hk
  obtain ⟨k', hk', hone, hg, -⟩ := h.live signo c hm
  obtain rfl := Option.some.inj (hk.symm.trans hk')
  let m₁ := m.uncount c k
  let g' := (m₁.g.setMap signo none).setContainers (m₁.g.containers.set c none)
  have hdrop := drop_runs (m := m₁) (Heap.set_self _ _ _) hone hg rfl signo
  have harmed : Armed sys m₁ :=
    { h.on (List.ne_nil_of_mem ((h.tallied.mapped signo).mpr ⟨c, hm⟩)) with }
  have hmap : ∀ t, t ≠ signo → g'.map t = m.g.map t := fun t ht => if_neg ht
  have hother : ∀ t d, g'.map t = some d →
      m.g.map t = some d ∧ g'.containers d = m.g.containers d := by
    intro t d hd
    by_cases ht : t = signo
    · cases (if_pos ht).symm.trans hd
    · have hold := (hmap t ht).symm.trans hd
      have hne : d ≠ c := fun hdc => ht (h.apart t signo c (hdc ▸ hold) hm)
      exact ⟨hold, (Heap.set_other _ _ hne).trans (Heap.set_other _ _ hne)⟩
  have hcounted : Tallied g' (l.erase signo) := by
    refine htally.count_down (c := c) (.inr ⟨if_pos rfl, List.count_eq_zero.mp (by omega)⟩)
      (fun _ hsome => by cases (if_pos rfl).symm.trans hsome) hmap ?_ rfl
    intro t d ht hd
    exact (hother t d ((hmap t ht).trans hd)).2
  obtain ⟨-, hun, huo⟩ := uninstallImpl_keeps m₁
  refine ⟨(winUninstallSighandlerImpl m₁).setG g', hdrop, ?_⟩
  refine
    { tallied := hcounted, live := ?_, apart := ?_, fresh := ?_, next := hun ▸ h.next,
      restores := ?_, off := ?_, on := ?_ }
  · intro t d hd
    obtain ⟨hold, hsame⟩ := hother t d hd
    obtain ⟨k', hk', hrest⟩ := h.live t d hold
    exact ⟨k', hsame.trans hk', hrest⟩
  · intro t u d ht hu
    exact h.apart t u d (hother t d ht).1 (hother u d hu).1
  · intro t d hd
    exact h.fresh t d (hother t d hd).1
  · change (winUninstallSighandlerImpl m₁).oldUnhandledExceptionFilter ≠ _
    rw [huo]
    exact h.restores
  · intro hnil
    have hz : m₁.g.sighandlersCount = 0 := by
      have htotal := hcounted.total
      rw [hnil] at htotal
      exact htotal
    exact { harmed.disarms hz with }
  · intro hl
    have hz : m₁.g.sighandlersCount ≠ 0 := fun hz => hl (List.length_eq_zero_iff.mp
      (Int.ofNat_eq_zero.mp (hcounted.total.symm.trans hz)))
    have hstays : winUninstallSighandlerImpl m₁ = m₁ := if_neg hz
    rw [hstays]
    exact { harmed with }

theorem HooksHeld.uninstall (h : HooksHeld sys m l) (signo : Signo) :
    ∃ m', winUninstallSighandler m signo = .ok m' ∧ HooksHeld sys m' (l.erase signo) := by
  unfold winUninstallSighandler
  split
  · rename_i hm
    have hl : signo ∉ l := fun hl => by
      obtain ⟨c, hc⟩ := (h.tallied.mapped signo).mp hl
      rw [hm] at hc
      cases hc
    exact ⟨m, rfl, (List.erase_of_not_mem hl).symm ▸ h⟩
  · rename_i c hm
    obtain ⟨k, hk, -, -, hd⟩ := h.live signo c hm
    have hfree : freeDeferred m.g k = .ok m.g := freeDeferred_empty hd
    by_cases hlast : k.installCount - 1 = 0
    · obtain ⟨m', hdrop, hhooked⟩ := h.dropped hm hk hlast
      exact ⟨m', bind_ok.mpr ⟨k, Heap.read_some hk, bind_ok.mpr ⟨m.g, hfree,
        (if_pos hlast).trans hdrop⟩⟩, hhooked⟩
    · exact ⟨_, bind_ok.mpr ⟨k, Heap.read_some hk, bind_ok.mpr ⟨m.g, hfree, if_neg hlast⟩⟩,
        h.uncounted hm hk hlast⟩

/-- The next section of a call in progress can always be gone through. -/
theorem HooksHeld.section {s : HookState} (hs : sys.Foreign) (h : HooksHeld sys s.lib l) (t : Tid)
    (env : WinInstallEnv) (call : HookCall) :
    ∃ s' l', hookSection s t env call = .ok s' ∧ HooksHeld sys s'.lib l' := by
  cases call with
  | siginstall set done todo =>
    cases todo with
    | nil => exact ⟨_, l, rfl, h⟩
    | cons signo todo =>
      obtain ⟨ok, lib, hok, hlib⟩ := h.install hs signo env
      cases ok with
      | true => exact ⟨_, _, bind_ok.mpr ⟨_, hok, rfl⟩, hlib⟩
      | false => exact ⟨_, _, bind_ok.mpr ⟨_, hok, rfl⟩, hlib⟩
  | rollback todo =>
    cases todo with
    | nil => exact ⟨_, l, rfl, h⟩
    | cons signo todo =>
      obtain ⟨lib, hok, hlib⟩ := h.uninstall signo
      exact ⟨_, _, bind_ok.mpr ⟨_, hok, rfl⟩, hlib⟩
  | siguninstall todo =>
    cases todo with
    | nil => exact ⟨_, l, rfl, h⟩
    | cons signo todo =>
      obtain ⟨lib, hok, hlib⟩ := h.uninstall signo
      exact ⟨_, _, bind_ok.mpr ⟨_, hok, rfl⟩, hlib⟩

theorem HooksHeld.step {p : Platform} {s s' : HookState} {act : HookAction} (hs : sys.Foreign)
    (h : HooksHeld sys s.lib l) (hstep : hookStep p s act = .ok s') : ∃ l', HooksHeld sys s'.lib l' := by
  cases act with
  | siginstall t guarded malloc =>
    simp only [hookStep] at hstep
    split at hstep
    · cases throw_ok hstep
    · split at hstep
      · exact ⟨l, pure_ok.mp hstep ▸ h⟩
      · exact ⟨l, pure_ok.mp hstep ▸ h⟩
  | siguninstall t handle =>
    simp only [hookStep] at hstep
    split at hstep
    · exact ⟨l, pure_ok.mp hstep ▸ h⟩
    · cases throw_ok hstep
  | advance t env =>
    simp only [hookStep] at hstep
    split at hstep
    · rename_i call _
      obtain ⟨s₁, l', hsection, hl⟩ := h.section hs t env call
      obtain rfl := Except.ok.inj (hsection.symm.trans hstep)
      exact ⟨l', hl⟩
    · cases throw_ok hstep

end

/-- The hooks of the process follow the number of installs, and no call in progress gets stuck. -/
theorem hooks_follow_count {p : Platform} {sys : WinSystem} {s : HookState} (hs : sys.Foreign)
    (hr : Run (hookStep p) (fun _ _ => True) (.initial sys) s) :
    HooksFollow sys s.lib ∧
      ∀ t env, s.call t ≠ none → ∃ s', hookStep p s (.advance t env) = .ok s' := by
  obtain ⟨l, h⟩ : ∃ l, HooksHeld sys s.lib l := by
    refine hr.invariant (I := fun s => ∃ l, HooksHeld sys s.lib l) ⟨[], hooks_initial sys⟩ ?_
    rintro s act s' ⟨l, hi⟩ _ hstep
    exact hi.step hs hstep
  refine ⟨h.follows hs, fun t env hcall => ?_⟩
  obtain ⟨call, hc⟩ := Option.ne_none_iff_exists'.mp hcall
  obtain ⟨s', -, hsection, -⟩ := h.section hs t env call
  exact ⟨s', by simpa only [hookStep, hc] using hsection⟩

/-- A process with an unhandled exception filter and a continue handler of its own. -/
def hookedProcess : WinSystem where
  filter := .other (some 7)
  continueHandlers := [(0, .other 7)]
  nextHandle := 1
  old := by simp

/-- An install fails at the storage and takes the hooks out again, and another is half done when
that of a second thread fails at its first container. -/
theorem hooks_follow_count_overlapping :
    ∃ s, Run (hookStep .tiny) (fun _ _ => True) (.initial hookedProcess) s ∧
      s.lib.g.sighandlersCount = 1 ∧ s.lib.system.nextHandle = 3 ∧
      HooksFollow hookedProcess s.lib ∧
      ∀ t env, s.call t ≠ none → ∃ s', hookStep .tiny s (.advance t env) = .ok s' := by
  obtain ⟨s, hr, hq⟩ := run_of_ends (f := hookStep .tiny) (r := fun _ _ => True)
    (s := .initial hookedProcess) (c := fun _ _ => true)
    (q := fun s => s.lib.g.sighandlersCount == 1 && s.lib.system.nextHandle == 3)
    (l := [.siginstall 1 none true, .advance 1 { tssCreate := false }, .advance 1 {},
      .siginstall 1 none true, .advance 1 {}, .siginstall 2 none true, .advance 2 {},
      .advance 2 { calloc := false }, .advance 2 {}])
    (fun _ _ _ => trivial) (by decide)
  simp only [Bool.and_eq_true, beq_iff_eq] at hq
  exact ⟨s, hr, hq.1, hq.2, hooks_follow_count ⟨by decide, by decide⟩ hr⟩

end Wg14Signals
