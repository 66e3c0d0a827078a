import Wg14Signals.Proofs.Installing
import Wg14Signals.Proofs.Storages
import Wg14Signals.Rollback

namespace Wg14Signals
open Lib

/-- Some installs are counted, and every entry of the map counts at least one. -/
def Totalled (g : Global) : Prop := ∃ l, Tallied g l

section

variable {p : Platform} {s s' : State} {act : Action} {L : Layout}

theorem totalled_step (hi : Inv p s L) (ht : Totalled s.g) (h : step p s act = .ok s') :
    Totalled s'.g := by
  obtain ⟨l, ht⟩ := ht
  rcases step_turns h with he | ⟨t, a, ys, hs, _, turn, _⟩
  · exact ⟨l, he ▸ ht⟩
  · rcases turn_dispositions turn with hst | ⟨_, _, _, _, _, _, hin⟩ | ⟨signo, _, _, hun⟩ |
      ⟨_, _, _, _, _, hg⟩
    · exact ⟨l, ht.still hst⟩
    · exact ⟨_, Tallied.installs hi ht hin⟩
    · by_cases hm : signo ∈ l
      · exact ⟨_, Tallied.uninstalls hi (ht.perm (List.perm_cons_erase hm).symm) hun⟩
      · generalize s'.g = g' at hun ⊢
        cases hun with
        | absent => exact ⟨l, ht⟩
        | counted c k hmap | erased c k hmap => exact absurd ((ht.mapped signo).mpr ⟨c, hmap⟩) hm
    · exact ⟨l, hg ▸ ht.setKernel _ _⟩

theorem totalled_run {kernel : Signo → Sigaction} {ok : State → Action → Prop}
    (hr : Run (step p) ok (State.initial kernel) s) : (∃ L, Inv p s L) ∧ Totalled s.g := by
  refine hr.invariant (I := fun s => (∃ L, Inv p s L) ∧ Totalled s.g)
    ⟨⟨_, inv_initial p kernel⟩, ⟨_, (counting_initial p kernel).tallied⟩⟩ ?_
  rintro s act s' ⟨⟨L, hi⟩, hc⟩ _ h
  obtain ⟨L', hi', _⟩ := hi.step h
  exact ⟨⟨L', hi'⟩, totalled_step hi hc h⟩

end

section

variable {g g' : Global} {c : Addr} {k : Container} {signo : Signo} {env : InstallEnv}

/-- The last reference on a container with empty lists goes, and the container with it. -/
theorem release_last (hc : g.containers c = some k) (hone : k.lifetimeRefcount = 1)
    (hg : k.globalHandler = {}) (hd : k.deferredFrees = {})
    (h : sighandlerInfoRelease g c = .ok g') : g' = g.setContainers (g.containers.set c none) := by
  obtain ⟨k', hk, h⟩ := bind_ok.mp h
  obtain rfl := Option.some.inj (hc.symm.trans (readContainer_ok hk))
  rw [if_pos (by rw [hone]; rfl)] at h
  obtain ⟨g₁, hf, h⟩ := bind_ok.mp h
  obtain ⟨g₂, hdet, h⟩ := bind_ok.mp h
  obtain ⟨containers', hfree, h⟩ := bind_ok.mp h
  obtain ⟨⟨nodes₁, e₁⟩, hr₁, hf⟩ := bind_ok.mp hf
  obtain rfl := pure_ok.mp hf
  obtain ⟨⟨nodes₂, e₂⟩, hr₂, hdet⟩ := bind_ok.mp hdet
  obtain rfl := pure_ok.mp hdet
  obtain ⟨_, rfl⟩ := Heap.free_ok.mp hfree
  obtain rfl := pure_ok.mp h
  rw [hd] at hr₁
  rw [hg] at hr₂
  have h₁ : nodes₁ = g.nodes := funext fun n => by
    rw [(DList.drain_free_ok (DList.isList_nil _) hr₁).2 n, if_neg List.not_mem_nil]
  have h₂ : nodes₂ = nodes₁ := funext fun n =>
    (DList.drain_keep_ok (DList.isList_nil _) hr₂).2.1.outside n List.not_mem_nil
  rw [h₂, h₁]
  rfl

theorem dropEntry_last (h : dropEntry g signo c k = .ok g') (hc : g.containers c = some k)
    (hone : k.lifetimeRefcount = 1) (hg : k.globalHandler = {}) (hd : k.deferredFrees = {}) :
    g' = ((g.setKernel signo k.oldHandler).setMap signo none).setContainers
      (g.containers.set c none) :=
  release_last (g := (g.setKernel signo k.oldHandler).setMap signo none) hc hone hg hd h

/-- What a successful `install_sighandler` does, to the letter. -/
theorem install_eq (h : installSighandler g signo env = .ok (true, g')) :
    (g.sighandlersCount = 0 → env.tssCreate = true) ∧
    ((∃ c k, g.map signo = some c ∧ g.containers c = some k ∧
      g' = (g.setContainer c { k with installCount := k.installCount + 1 }).setCount
        (g.sighandlersCount + 1)) ∨
    g.map signo = none ∧ env.calloc = true ∧ env.sigaction = true ∧
      g' = ((newSighandlerInfo g signo).setContainer g.nextContainer
        { installCount := 1, lifetimeRefcount := 1, oldHandler := g.kernel signo }).setCount
        (g.sighandlersCount + 1)) := by
  have counted : ∀ {g g' : Global} {c : Addr}, countInstall g signo c env = .ok (true, g') →
      (g.sighandlersCount = 0 → env.tssCreate = true) ∧ ∃ k, g.containers c = some k ∧
        g' = (g.setContainer c { k with installCount := k.installCount + 1 }).setCount
          (g.sighandlersCount + 1) := by
    intro g g' c h
    obtain ⟨k, hk, h⟩ := bind_ok.mp h
    split at h
    · split at h
      · obtain ⟨g₁, -, h⟩ := bind_ok.mp h
        simp at h
      · simp at h
    · rename_i hcond
      simp only [pure_ok, Prod.mk.injEq, true_and] at h
      exact ⟨fun hz => by simpa [hz] using hcond, k, readContainer_ok hk, h.symm⟩
  unfold installSighandler at h
  split at h
  · rename_i c hm
    obtain ⟨hz, k, hk, hg⟩ := counted h
    exact ⟨hz, .inl ⟨c, k, hm, hk, hg⟩⟩
  · rename_i hm
    split at h
    · simp at h
    · split at h
      · simp at h
      · obtain ⟨hz, k, hk, hg⟩ := counted h
        simp only [newSighandlerInfo, Global.setMap_containers, Global.setKernel_containers,
          Heap.set_self, Option.some.injEq] at hk
        subst hk
        exact ⟨hz, .inr ⟨hm, by simpa using ‹¬env.calloc = false›, by simpa using ‹¬_ = false›, hg⟩⟩

/-- What `uninstall_sighandler` does to a signal that has an entry, to the letter. -/
theorem uninstall_eq {xs : List Addr} (hm : g.map signo = some c) (hc : g.containers c = some k)
    (hl : DList.IsList g.nodes k.deferredFrees xs) (h : uninstallSighandler g signo = .ok g') :
    ∃ nodes', (∀ n, nodes' n = if n ∈ xs then none else g.nodes n) ∧
      ∃ k₁ g₁, k₁ = { k with deferredFrees := {}, installCount := k.installCount - 1 } ∧
        g₁ = ((g.setNodes nodes').setContainer c k₁).setCount (g.sighandlersCount - 1) ∧
        (if k.installCount - 1 = 0 then dropEntry g₁ signo c k₁ = .ok g' else g' = g₁) := by
  unfold uninstallSighandler at h
  rw [hm] at h
  obtain ⟨k', hk, h⟩ := bind_ok.mp h
  obtain rfl := Option.some.inj (hc.symm.trans (readContainer_ok hk))
  obtain ⟨g₂, hf, h⟩ := bind_ok.mp h
  obtain ⟨⟨nodes', e⟩, hd, hf⟩ := bind_ok.mp hf
  obtain rfl := pure_ok.mp hf
  refine ⟨nodes', (DList.drain_free_ok hl hd).2, _, _, rfl, rfl, ?_⟩
  by_cases hz : k.installCount - 1 = 0
  · rw [if_pos hz]
    rw [if_pos hz] at h
    exact h
  · rw [if_neg hz]
    rw [if_neg hz] at h
    exact (pure_ok.mp h).symm

/-- A failed `install_sighandler` leaves everything as it was. -/
theorem install_failed (hz : ∀ c, g.map signo = some c → g.sighandlersCount ≠ 0)
    (hfresh : g.containers g.nextContainer = none)
    (h : installSighandler g signo env = .ok (false, g')) :
    g.nextContainer ≤ g'.nextContainer ∧ g' = { g with nextContainer := g'.nextContainer } ∧
      (env.calloc = false ∨ env.sigaction = false ∨
        g.sighandlersCount = 0 ∧ env.tssCreate = false) := by
  unfold installSighandler at h
  split at h
  · rename_i c hm
    obtain ⟨k, -, h⟩ := bind_ok.mp h
    rw [if_neg fun hc => hz c hm hc.1] at h
    simp at h
  · rename_i hm
    split at h
    · obtain ⟨-, rfl⟩ := Prod.mk.inj (pure_ok.mp h)
      exact ⟨Nat.le_refl _, rfl, .inl ‹_›⟩
    · split at h
      · obtain ⟨-, rfl⟩ := Prod.mk.inj (pure_ok.mp h)
        exact ⟨Nat.le_succ _, rfl, .inr (.inl ‹_›)⟩
      · obtain ⟨k, hk, h⟩ := bind_ok.mp h
        have hk := readContainer_ok hk
        simp only [newSighandlerInfo, Global.setMap_containers, Global.setKernel_containers,
          Heap.set_self, Option.some.injEq] at hk
        subst hk
        split at h
        · rename_i hcond
          rw [if_pos (by simp)] at h
          obtain ⟨g₁, hd, h⟩ := bind_ok.mp h
          obtain ⟨-, rfl⟩ := Prod.mk.inj (pure_ok.mp h)
          rw [dropEntry_last hd (by simp [newSighandlerInfo]) rfl rfl rfl]
          refine ⟨Nat.le_succ _, ?_, .inr (.inr hcond)⟩
          simp only [newSighandlerInfo, Global.setMap, Global.setKernel, Global.setContainers,
            Global.mk.injEq, true_and]
          refine ⟨funext fun d => ?_, funext fun s => ?_, funext fun s => ?_⟩
          · by_cases hd : d = g.nextContainer <;> simp [hd, hfresh]
          · by_cases hs : s = signo <;> simp [hs, hm]
          · by_cases hs : s = signo <;> simp [hs]
        · simp at h

end

/-- The state is `g₀` with one more install of each signal in the list, as often as the list
has it, and perhaps some deferred nodes freed. `L` are the lists of `g₀`. -/
structure Added (g₀ : Global) (L : Layout) (l : List Signo) (g : Global) : Prop where
  count : g.sighandlersCount = g₀.sighandlersCount + l.length
  next : g₀.nextContainer ≤ g.nextContainer
  map : ∀ signo, signo ∉ l ∨ g₀.map signo ≠ none → g.map signo = g₀.map signo
  kernel : ∀ signo, signo ∉ l ∨ g₀.map signo ≠ none → g.kernel signo = g₀.kernel signo
  /-- The signals that had no entry have one of their own now. -/
  fresh : ∀ signo ∈ l, g₀.map signo = none → ∃ c, g.map signo = some c ∧ g₀.nextContainer ≤ c ∧
    c < g.nextContainer ∧ g.containers c = some
      { installCount := l.count signo, lifetimeRefcount := 1, oldHandler := g₀.kernel signo }
  owner : ∀ c, g₀.nextContainer ≤ c → g.containers c ≠ none → ∃ signo, g.map signo = some c
  kept : ∀ c k, g₀.containers c = some k → ∃ ends, g.containers c = some
      { k with
        installCount := k.installCount + l.countP fun signo => g₀.map signo == some c
        deferredFrees := ends } ∧
    (ends = k.deferredFrees ∧ (∀ n ∈ L c .deferred, g.nodes n = g₀.nodes n) ∨ ends = {})
  gone : ∀ c, c < g₀.nextContainer → g₀.containers c = none → g.containers c = none
  nodes : ∀ n, g.nodes n = g₀.nodes n ∨ g.nodes n = none ∧ ∃ c, n ∈ L c .deferred

namespace Added

variable {g₀ g g' : Global} {L : Layout} {l l' : List Signo} {signo : Signo} {pend : List Slot}
  {cs ns : List Addr}

theorem refl (h : Wf g₀ L pend cs ns) : Added g₀ L [] g₀ where
  count := by simp
  next := Nat.le_refl _
  map _ _ := rfl
  kernel _ _ := rfl
  fresh _ hm := by cases hm
  owner c hc hne := absurd (h.containerFresh c hc) hne
  kept c k hk := ⟨k.deferredFrees, by simp [hk], .inl ⟨rfl, fun _ _ => rfl⟩⟩
  gone _ _ h := h
  nodes _ := .inl rfl

theorem perm (h : Added g₀ L l g) (hp : l.Perm l') : Added g₀ L l' g where
  count := by rw [h.count, hp.length_eq]
  next := h.next
  map signo hs := h.map signo (hs.imp_left fun hn hm => hn (hp.mem_iff.mp hm))
  kernel signo hs := h.kernel signo (hs.imp_left fun hn hm => hn (hp.mem_iff.mp hm))
  fresh signo hm hn := by
    rw [← hp.count_eq signo]
    exact h.fresh signo (hp.mem_iff.mpr hm) hn
  owner := h.owner
  kept c k hk := by
    rw [← hp.countP_eq]
    exact h.kept c k hk
  gone := h.gone
  nodes := h.nodes

/-- What is left when everything has been taken back. -/
theorem before (hw : Wf g₀ L pend cs ns) (h : Added g₀ L [] g) : AsBefore g₀ g where
  map := funext fun signo => h.map signo (.inl List.not_mem_nil)
  kernel := funext fun signo => h.kernel signo (.inl List.not_mem_nil)
  count := by simpa using h.count
  containers c k hk := by
    obtain ⟨ends, hc, ⟨rfl, -⟩ | rfl⟩ := h.kept c k hk
    · exact .inl (by simpa using hc)
    · exact .inr (by simpa using hc)
  gone c hc := by
    by_cases hlt : c < g₀.nextContainer
    · exact h.gone c hlt hc
    · by_contra hne
      obtain ⟨signo, hm⟩ := h.owner c (Nat.le_of_not_lt hlt) hne
      rw [h.map signo (.inl List.not_mem_nil)] at hm
      exact hlt (hw.mapped_lt hm)
  deciders c k n hk hn := by
    have hl := hw.lists c k .global hk
    have hmem : n ∈ L c .global := hl.seg.reaches (hl.front ▸ hn)
    rcases h.nodes n with hs | ⟨-, d, hd⟩
    · exact hs
    · cases (hw.unshared c .global d .deferred n hmem hd).2
  nodes n := by
    rcases h.nodes n with hs | ⟨hs, c, hm⟩
    · exact .inl hs
    · refine .inr ⟨hs, c, ?_⟩
      cases hk : g₀.containers c with
      | none =>
        rw [hw.dead c .deferred hk] at hm
        cases hm
      | some k =>
        have hl := hw.lists c k .deferred hk
        have hlive : g₀.nodes.AllLive (L c .deferred) := fun x hx => by
          obtain ⟨nd, hnd, -⟩ := hw.retired c x hx
          exact ⟨nd, hnd⟩
        exact ⟨k, rfl, hl.front ▸ hl.seg.reached hlive hm⟩

/-- A signal of the list that had no entry is mapped to a new container. -/
theorem unmapped (h : Added g₀ L l g) (hn : g.map signo = none) :
    g₀.map signo = none ∧ signo ∉ l := by
  have hnone : g₀.map signo = none := by
    by_contra hne
    rw [h.map signo (.inr hne)] at hn
    exact hne hn
  refine ⟨hnone, fun hm => ?_⟩
  obtain ⟨c, hc, -⟩ := h.fresh signo hm hnone
  rw [hn] at hc
  cases hc

/-- The container of an old entry is an old one, that of a new one is new. -/
theorem old_iff (hw : Wf g₀ L pend cs ns) (h : Added g₀ L l g) {c : Addr}
    (hm : g.map signo = some c) : c < g₀.nextContainer ↔ g₀.map signo = some c := by
  constructor
  · intro hlt
    by_cases hn : g₀.map signo = none
    · by_cases hl : signo ∈ l
      · obtain ⟨d, hd, hle, -⟩ := h.fresh signo hl hn
        rw [hm] at hd
        cases hd
        exact absurd hlt (Nat.not_lt_of_le hle)
      · rw [h.map signo (.inl hl), hn] at hm
        cases hm
    · rw [← h.map signo (.inr hn), hm]
  · exact fun hm₀ => hw.mapped_lt hm₀

theorem countP_cons_some {c : Addr} (hm : g₀.map signo = some c) :
    (signo :: l).countP (fun signo => g₀.map signo == some c) =
      l.countP (fun signo => g₀.map signo == some c) + 1 :=
  List.countP_cons_of_pos (by simp [hm])

theorem countP_cons_other {c : Addr} (hm : g₀.map signo ≠ some c) :
    (signo :: l).countP (fun signo => g₀.map signo == some c) =
      l.countP fun signo => g₀.map signo == some c :=
  List.countP_cons_of_neg (by simpa using hm)

/-- The signal had an entry before it was counted once more. -/
theorem counted (hw₀ : Wf g₀ L pend cs ns) {L' : Layout} (hw : Wf g L' pend cs ns)
    (h : Added g₀ L l g) {c : Addr} {k : Container} (hm : g.map signo = some c)
    (hc : g.containers c = some k)
    (hg : g' = (g.setContainer c { k with installCount := k.installCount + 1 }).setCount
      (g.sighandlersCount + 1)) : Added g₀ L (signo :: l) g' := by
  have hcont : ∀ d, d ≠ c → g'.containers d = g.containers d := fun d hd => by
    rw [hg]
    exact setContainer_other _ _ hd
  have hself : g'.containers c = some { k with installCount := k.installCount + 1 } := by
    rw [hg]
    exact setContainer_self _ _ _
  have hmap : g'.map = g.map := by rw [hg]; rfl
  have hker : g'.kernel = g.kernel := by rw [hg]; rfl
  have hnodes : g'.nodes = g.nodes := by rw [hg]; rfl
  have hnext : g'.nextContainer = g.nextContainer := by rw [hg]; rfl
  have tail : ∀ {s}, s ∉ signo :: l ∨ g₀.map s ≠ none → s ∉ l ∨ g₀.map s ≠ none :=
    fun hs => hs.imp_left fun hn hm => hn (List.mem_cons_of_mem _ hm)
  refine ⟨?_, ?_, fun s hs => ?_, fun s hs => ?_, fun s hs hn => ?_, fun d hd hne => ?_,
    fun d kd hd => ?_, fun d hlt hd => ?_, fun n => ?_⟩
  · rw [hg, Global.setCount_sighandlersCount, h.count, List.length_cons]
    push_cast
    omega
  · rw [hnext]
    exact h.next
  · rw [hmap]
    exact h.map s (tail hs)
  · rw [hker]
    exact h.kernel s (tail hs)
  · have hl : s ∈ l := by
      rcases List.mem_cons.mp hs with rfl | hs
      · by_contra hl
        rw [h.map s (.inl hl), hn] at hm
        cases hm
      · exact hs
    obtain ⟨d, hd, hle, hlt, hkd⟩ := h.fresh s hl hn
    refine ⟨d, by rw [hmap]; exact hd, hle, by rw [hnext]; exact hlt, ?_⟩
    by_cases hs : s = signo
    · subst hs
      rw [hm] at hd
      cases hd
      rw [hc] at hkd
      cases hkd
      rw [hself, List.count_cons_self]
      push_cast
      rfl
    · have hdc : d ≠ c := fun he => hs (hw.mapInj s signo c (he ▸ hd) hm)
      rw [hcont d hdc, hkd, List.count_cons_of_ne (Ne.symm hs)]
  · rw [hmap]
    refine h.owner d hd ?_
    by_cases hdc : d = c
    · rw [hdc, hc]
      simp
    · rwa [hcont d hdc] at hne
  · obtain ⟨ends, hkd, hends⟩ := h.kept d kd hd
    refine ⟨ends, ?_, by rw [hnodes]; exact hends⟩
    by_cases hdc : d = c
    · subst hdc
      rw [hc] at hkd
      cases hkd
      have hold := (old_iff hw₀ h hm).mp (hw₀.container_lt hd)
      rw [hself, countP_cons_some hold]
      push_cast
      simp only [add_assoc]
    · have hne : g₀.map signo ≠ some d := fun hold => by
        rw [h.map signo (.inr (by simp [hold])), hold] at hm
        exact hdc (Option.some.inj hm)
      rw [hcont d hdc, hkd, countP_cons_other hne]
  · have hdc : d ≠ c := by
      rintro rfl
      rw [h.gone d hlt hd] at hc
      cases hc
    rw [hcont d hdc]
    exact h.gone d hlt hd
  · rw [hnodes]
    exact h.nodes n

/-- The signal gets its first entry. -/
theorem published (hw₀ : Wf g₀ L pend cs ns) (h : Added g₀ L l g) (hm : g.map signo = none)
    (hg : g' = ((newSighandlerInfo g signo).setContainer g.nextContainer
      { installCount := 1, lifetimeRefcount := 1, oldHandler := g.kernel signo }).setCount
      (g.sighandlersCount + 1)) : Added g₀ L (signo :: l) g' := by
  obtain ⟨hn₀, hl⟩ := h.unmapped hm
  have hcont : ∀ d, d ≠ g.nextContainer → g'.containers d = g.containers d := fun d hd => by
    rw [hg]
    exact (setContainer_other _ _ hd).trans (by simp [newSighandlerInfo, hd])
  have hself : g'.containers g.nextContainer = some
      { installCount := 1, lifetimeRefcount := 1, oldHandler := g.kernel signo } := by
    rw [hg]
    exact setContainer_self _ _ _
  have hmap : ∀ s, s ≠ signo → g'.map s = g.map s := fun s hs => by
    rw [hg]
    simp [newSighandlerInfo, hs]
  have hmapped : g'.map signo = some g.nextContainer := by
    rw [hg]
    simp [newSighandlerInfo]
  have hker : ∀ s, s ≠ signo → g'.kernel s = g.kernel s := fun s hs => by
    rw [hg]
    simp [newSighandlerInfo, hs]
  have hnodes : g'.nodes = g.nodes := by rw [hg]; rfl
  have hnext : g'.nextContainer = g.nextContainer + 1 := by rw [hg]; rfl
  have apart : ∀ {s}, s ∉ signo :: l ∨ g₀.map s ≠ none → s ≠ signo ∧ (s ∉ l ∨ g₀.map s ≠ none) := by
    intro s hs
    refine ⟨?_, hs.imp_left fun hn hm => hn (List.mem_cons_of_mem _ hm)⟩
    rintro rfl
    rcases hs with hs | hs
    · exact hs List.mem_cons_self
    · exact hs hn₀
  refine ⟨?_, ?_, fun s hs => ?_, fun s hs => ?_, fun s hs hn => ?_, fun d hd hne => ?_,
    fun d kd hd => ?_, fun d hlt hd => ?_, fun n => ?_⟩
  · rw [hg, Global.setCount_sighandlersCount, h.count, List.length_cons]
    push_cast
    omega
  · rw [hnext]
    exact Nat.le_succ_of_le h.next
  · rw [hmap s (apart hs).1]
    exact h.map s (apart hs).2
  · rw [hker s (apart hs).1]
    exact h.kernel s (apart hs).2
  · by_cases he : s = signo
    · subst he
      refine ⟨g.nextContainer, hmapped, h.next, by rw [hnext]; exact Nat.lt_succ_self _, ?_⟩
      rw [hself, List.count_cons_self, List.count_eq_zero_of_not_mem hl, h.kernel s (.inl hl)]
      rfl
    · obtain ⟨d, hd, hle, hlt, hkd⟩ := h.fresh s (List.mem_of_ne_of_mem he hs) hn
      refine ⟨d, by rw [hmap s he]; exact hd, hle, by rw [hnext]; exact Nat.lt_succ_of_lt hlt, ?_⟩
      rw [hcont d (Nat.ne_of_lt hlt), hkd, List.count_cons_of_ne (Ne.symm he)]
  · by_cases hdc : d = g.nextContainer
    · exact ⟨signo, by rw [hmapped, hdc]⟩
    · rw [hcont d hdc] at hne
      obtain ⟨s, hs⟩ := h.owner d hd hne
      have hne : s ≠ signo := by
        rintro rfl
        rw [hm] at hs
        cases hs
      exact ⟨s, by rw [hmap s hne]; exact hs⟩
  · obtain ⟨ends, hkd, hends⟩ := h.kept d kd hd
    have hdc : d ≠ g.nextContainer :=
      Nat.ne_of_lt (Nat.lt_of_lt_of_le (hw₀.container_lt hd) h.next)
    exact ⟨ends, by rw [hcont d hdc, hkd, countP_cons_other (by simp [hn₀])],
      by rw [hnodes]; exact hends⟩
  · rw [hcont d (Nat.ne_of_lt (Nat.lt_of_lt_of_le hlt h.next))]
    exact h.gone d hlt hd
  · rw [hnodes]
    exact h.nodes n

theorem install {L' : Layout} (hw₀ : Wf g₀ L pend cs ns) (hw : Wf g L' pend cs ns)
    (h : Added g₀ L l g) {env : InstallEnv} (hi : installSighandler g signo env = .ok (true, g')) :
    Added g₀ L (signo :: l) g' := by
  rcases (install_eq hi).2 with ⟨c, k, hm, hc, hg⟩ | ⟨hm, -, -, hg⟩
  · exact h.counted hw₀ hw hm hc hg
  · exact h.published hw₀ hm hg

/-- An old entry counts one install less. -/
theorem uncounted (hw₀ : Wf g₀ L pend cs ns) (ht : Totalled g₀) (h : Added g₀ L (signo :: l) g)
    {c : Addr} (hm₀ : g₀.map signo = some c) (hu : uninstallSighandler g signo = .ok g') :
    Added g₀ L l g' := by
  obtain ⟨k₀, hk₀⟩ := hw₀.mapped signo c hm₀
  obtain ⟨ends, hc, hends⟩ := h.kept c k₀ hk₀
  have hm : g.map signo = some c := by rw [h.map signo (.inr (by simp [hm₀])), hm₀]
  -- the deferred nodes are those the container had, or none are left
  obtain ⟨xs, hlist, hxs⟩ : ∃ xs, DList.IsList g.nodes ends xs ∧ ∀ n ∈ xs, n ∈ L c .deferred := by
    rcases hends with ⟨rfl, hsame⟩ | rfl
    · have hl := hw₀.lists c k₀ .deferred hk₀
      exact ⟨L c .deferred, ⟨hl.front, hl.back, hl.nodup, hl.seg.congr hsame⟩, fun _ hn => hn⟩
    · exact ⟨[], DList.isList_nil _, by simp⟩
  obtain ⟨nodes', hnodes, k₁, g₁, rfl, rfl, hg⟩ := uninstall_eq hm hc hlist hu
  obtain ⟨l₀, hl₀⟩ := ht
  have hpos := hl₀.positive hm₀ hk₀
  rw [countP_cons_some hm₀, if_neg (by push_cast; omega)] at hg
  have hcont : ∀ d, d ≠ c → g'.containers d = g.containers d := fun d hd => by
    rw [hg]
    exact setContainer_other _ _ hd
  have hn : g'.nodes = nodes' := by rw [hg]; rfl
  have hlt := hw₀.mapped_lt hm₀
  have tail : ∀ {s}, s ∉ l ∨ g₀.map s ≠ none → s ∉ signo :: l ∨ g₀.map s ≠ none := by
    intro s hs
    by_cases he : s = signo
    · subst he
      exact .inr (by simp [hm₀])
    · exact hs.imp_left fun hn hm => hn (List.mem_of_ne_of_mem he hm)
  refine ⟨?_, ?_, fun s hs => ?_, fun s hs => ?_, fun s hs hnone => ?_, fun d hd hne => ?_,
    fun d kd hd => ?_, fun d hlt' hd => ?_, fun n => ?_⟩
  · rw [hg, Global.setCount_sighandlersCount, h.count, List.length_cons]
    push_cast
    omega
  · rw [hg]
    exact h.next
  · rw [hg]
    exact h.map s (tail hs)
  · rw [hg]
    exact h.kernel s (tail hs)
  · have he : signo ≠ s := by
      rintro rfl
      rw [hm₀] at hnone
      cases hnone
    obtain ⟨d, hd, hle, hlt', hkd⟩ := h.fresh s (List.mem_cons_of_mem _ hs) hnone
    refine ⟨d, by rw [hg]; exact hd, hle, by rw [hg]; exact hlt', ?_⟩
    rw [hcont d (Nat.ne_of_gt (Nat.lt_of_lt_of_le hlt hle)), hkd, List.count_cons_of_ne he]
  · rw [hcont d (Nat.ne_of_gt (Nat.lt_of_lt_of_le hlt hd))] at hne
    rw [hg]
    exact h.owner d hd hne
  · by_cases hdc : d = c
    · subst hdc
      rw [hk₀] at hd
      cases hd
      refine ⟨{}, ?_, .inr rfl⟩
      rw [hg]
      refine (setContainer_self _ _ _).trans ?_
      simp only [Option.some.injEq, Container.mk.injEq, and_true, true_and]
      push_cast
      omega
    · obtain ⟨ends', hkd, hends'⟩ := h.kept d kd hd
      have hne : g₀.map signo ≠ some d := fun hold => hdc (Option.some.inj (hold.symm.trans hm₀))
      refine ⟨ends', by rw [hcont d hdc, hkd, countP_cons_other hne], hends'.imp_left fun he => ?_⟩
      refine ⟨he.1, fun n hmem => ?_⟩
      have hout : n ∉ xs := fun hx =>
        hdc (hw₀.unshared d .deferred c .deferred n hmem (hxs n hx)).1
      rw [hn, hnodes, if_neg hout]
      exact he.2 n hmem
  · have hdc : d ≠ c := by
      rintro rfl
      rw [hk₀] at hd
      cases hd
    rw [hcont d hdc]
    exact h.gone d hlt' hd
  · rw [hn, hnodes]
    by_cases hx : n ∈ xs
    · exact .inr ⟨if_pos hx, c, hxs n hx⟩
    · rw [if_neg hx]
      exact h.nodes n

/-- A new entry counts one install less, and goes with its last. -/
theorem unpublished {L' : Layout} (hw₀ : Wf g₀ L pend cs ns) (hw : Wf g L' pend cs ns)
    (h : Added g₀ L (signo :: l) g) (hm₀ : g₀.map signo = none)
    (hu : uninstallSighandler g signo = .ok g') : Added g₀ L l g' := by
  obtain ⟨c, hm, hle, hlt, hc⟩ := h.fresh signo List.mem_cons_self hm₀
  obtain ⟨nodes', hnodes, k₁, g₁, rfl, rfl, hg⟩ := uninstall_eq hm hc (DList.isList_nil _) hu
  obtain rfl : nodes' = g.nodes := funext fun n => by rw [hnodes, if_neg List.not_mem_nil]
  have hcount : ((signo :: l).count signo : Int) - 1 = l.count signo := by
    rw [List.count_cons_self]
    push_cast
    omega
  dsimp only at hg
  rw [hcount] at hg
  -- what does not depend on whether this was the last
  have facts : g'.sighandlersCount = g.sighandlersCount - 1 ∧ g'.nextContainer = g.nextContainer ∧
      g'.nodes = g.nodes ∧ (∀ d, d ≠ c → g'.containers d = g.containers d) ∧
      (∀ s, s ≠ signo → g'.map s = g.map s ∧ g'.kernel s = g.kernel s) ∧
      (signo ∈ l ∧ g'.map signo = some c ∧ g'.containers c = some
          { installCount := l.count signo, lifetimeRefcount := 1, oldHandler := g₀.kernel signo } ∨
        signo ∉ l ∧ g'.map signo = none ∧ g'.kernel signo = g₀.kernel signo ∧
          g'.containers c = none) := by
    by_cases hz : l.count signo = 0
    · rw [if_pos (by rw [hz]; rfl)] at hg
      have hrel := dropEntry_last hg (setContainer_self _ _ _) rfl rfl rfl
      rw [hrel]
      refine ⟨rfl, rfl, rfl, fun d hd => ?_, fun s hs => by simp [hs],
        .inr ⟨List.count_eq_zero.mp hz, by simp, by simp, by simp⟩⟩
      simp [hd]
    · rw [if_neg (by exact_mod_cast hz)] at hg
      rw [hg]
      refine ⟨rfl, rfl, rfl, fun d hd => setContainer_other _ _ hd, fun s _ => ⟨rfl, rfl⟩,
        .inl ⟨List.count_pos_iff.mp (Nat.pos_of_ne_zero hz), hm, setContainer_self _ _ _⟩⟩
  obtain ⟨hcnt, hnext, hn, hcont, hsame, hlast⟩ := facts
  have hold : ∀ d, d < g₀.nextContainer → d ≠ c :=
    fun d hd => Nat.ne_of_lt (Nat.lt_of_lt_of_le hd hle)
  have tail : ∀ {s}, s ≠ signo → s ∉ l ∨ g₀.map s ≠ none → s ∉ signo :: l ∨ g₀.map s ≠ none :=
    fun hs h => h.imp_left fun hn hm => hn (List.mem_of_ne_of_mem hs hm)
  refine ⟨?_, ?_, fun s hs => ?_, fun s hs => ?_, fun s hs hnone => ?_, fun d hd hne => ?_,
    fun d kd hd => ?_, fun d hlt' hd => ?_, fun n => by rw [hn]; exact h.nodes n⟩
  · rw [hcnt, h.count, List.length_cons]
    push_cast
    omega
  · rw [hnext]
    exact h.next
  · by_cases he : s = signo
    · subst he
      rcases hlast with ⟨hl, -⟩ | ⟨-, hgone, -⟩
      · exact absurd (hs.resolve_left (fun h => h hl)) (by simp [hm₀])
      · rw [hgone, hm₀]
    · rw [(hsame s he).1]
      exact h.map s (tail he hs)
  · by_cases he : s = signo
    · subst he
      rcases hlast with ⟨hl, -⟩ | ⟨-, -, hker, -⟩
      · exact absurd (hs.resolve_left (fun h => h hl)) (by simp [hm₀])
      · exact hker
    · rw [(hsame s he).2]
      exact h.kernel s (tail he hs)
  · by_cases he : s = signo
    · subst he
      rcases hlast with ⟨-, hmap, hself⟩ | ⟨hl, -⟩
      · exact ⟨c, hmap, hle, by rw [hnext]; exact hlt, hself⟩
      · exact absurd hs hl
    · obtain ⟨d, hd, hled, hltd, hkd⟩ := h.fresh s (List.mem_cons_of_mem _ hs) hnone
      have hdc : d ≠ c := fun hdc => he (hw.mapInj s signo c (hdc ▸ hd) hm)
      refine ⟨d, by rw [(hsame s he).1]; exact hd, hled, by rw [hnext]; exact hltd, ?_⟩
      rw [hcont d hdc, hkd, List.count_cons_of_ne (Ne.symm he)]
  · by_cases hdc : d = c
    · subst hdc
      rcases hlast with ⟨-, hmap, -⟩ | ⟨-, -, -, hgone⟩
      · exact ⟨signo, hmap⟩
      · exact absurd hgone hne
    · rw [hcont d hdc] at hne
      obtain ⟨s, hs⟩ := h.owner d hd hne
      have he : s ≠ signo := by
        rintro rfl
        exact hdc (Option.some.inj (hs.symm.trans hm))
      exact ⟨s, by rw [(hsame s he).1]; exact hs⟩
  · obtain ⟨ends, hkd, hends⟩ := h.kept d kd hd
    exact ⟨ends, by rw [hcont d (hold d (hw₀.container_lt hd)), hkd,
      countP_cons_other (by simp [hm₀])], by rw [hn]; exact hends⟩
  · rw [hcont d (hold d hlt')]
    exact h.gone d hlt' hd

theorem uninstall {L' : Layout} (hw₀ : Wf g₀ L pend cs ns) (ht : Totalled g₀)
    (hw : Wf g L' pend cs ns) (h : Added g₀ L (signo :: l) g)
    (hu : uninstallSighandler g signo = .ok g') : Added g₀ L l g' := by
  cases hm : g₀.map signo with
  | some c => exact h.uncounted hw₀ ht hm hu
  | none => exact h.unpublished hw₀ hw hm hu

/-- A failed install changes nothing but the addresses handed out. -/
theorem failed (h : Added g₀ L l g) (hn : g.nextContainer ≤ g'.nextContainer)
    (hg : g' = { g with nextContainer := g'.nextContainer }) : Added g₀ L l g' := by
  rw [hg]
  exact ⟨h.count, Nat.le_trans h.next hn, h.map, h.kernel,
    fun s hs hnone => by
      obtain ⟨c, hm, hle, hlt, hc⟩ := h.fresh s hs hnone
      exact ⟨c, hm, hle, Nat.lt_of_lt_of_le hlt hn, hc⟩,
    h.owner, h.kept, h.gone, h.nodes⟩

/-- A signal of the list has an entry. -/
theorem mapped (ht : Totalled g₀) (h : Added g₀ L l g) (hs : signo ∈ l) :
    ∃ c, g.map signo = some c := by
  cases hm : g₀.map signo with
  | none =>
    obtain ⟨c, hc, -⟩ := h.fresh signo hs hm
    exact ⟨c, hc⟩
  | some c => exact ⟨c, by rw [h.map signo (.inr (by simp [hm])), hm]⟩

/-- Nothing is counted where nothing was, and nothing has been added. -/
theorem count_zero (ht : Totalled g₀) (h : Added g₀ L l g) :
    g.sighandlersCount = 0 ↔ g₀.sighandlersCount = 0 ∧ l = [] := by
  obtain ⟨l₀, ht⟩ := ht
  rw [h.count, ht.total, ← List.length_eq_zero_iff]
  omega

/-- Where nothing is counted no signal has an entry. -/
theorem map_none (ht : Totalled g₀) (h : Added g₀ L l g) (hz : g.sighandlersCount = 0) :
    g.map signo = none := by
  obtain ⟨hz, rfl⟩ := (h.count_zero ht).mp hz
  obtain ⟨l₀, ht⟩ := ht
  rw [h.map signo (.inl List.not_mem_nil)]
  refine Option.eq_none_iff_forall_ne_some.mpr fun c hm => ?_
  have hmem := (ht.mapped signo).mpr ⟨c, hm⟩
  rw [ht.total] at hz
  rw [List.length_eq_zero_iff.mp (Int.ofNat_eq_zero.mp hz)] at hmem
  cases hmem

end Added

/-- What the loop of `siginstall` has done so far, to a process whose storage was `st₀`. -/
structure Looping (env : SiginstallEnv) (g₀ : Global) (L : Layout) (st₀ : ThreadStorage)
    (pend : List Slot) (cs ns : List Addr) (done : List Signo) (m : Process) : Prop where
  wf : ∃ L', Wf m.g L' pend cs ns
  added : Added g₀ L done m.g
  kept : g₀.sighandlersCount ≠ 0 ∨ done = [] → m.store = st₀
  /-- The first install creates the storage. -/
  created : g₀.sighandlersCount = 0 → ∀ signo, done.head? = some signo →
    st₀.create (env.signal signo).tssCreate = (true, m.store)
  published : g₀.sighandlersCount = 0 → ∀ signo ∈ done,
    (env.signal signo).calloc = true ∧ (env.signal signo).sigaction = true

section

variable {env : SiginstallEnv} {g₀ : Global} {L : Layout} {st₀ : ThreadStorage} {pend : List Slot}
  {cs ns : List Addr} {done l : List Signo} {m m' : Process} {signo : Signo}

theorem create_failed {st st' : ThreadStorage} {ok : Bool} (h : st.create ok = (false, st')) :
    st.slot = .fallback none ∧ ok = false := by
  unfold ThreadStorage.create at h
  split at h
  · simp at h
  · simp at h
  · split at h <;> simp_all

/-- One turn of the loop that installs a signal. -/
theorem Looping.installed (hw₀ : Wf g₀ L pend cs ns) (ht : Totalled g₀)
    (h : Looping env g₀ L st₀ pend cs ns done m)
    (hi : installStored env m signo = .ok (true, m')) :
    Looping env g₀ L st₀ pend cs ns (done ++ [signo]) m' := by
  obtain ⟨L', hw⟩ := h.wf
  unfold installStored at hi
  generalize hcreate : m.store.create (env.signal signo).tssCreate = r at hi
  obtain ⟨created, store⟩ := r
  obtain ⟨⟨ok, g⟩, hg, hi⟩ := bind_ok.mp hi
  have hg := ofLib_ok.mp hg
  cases ok with
  | false => simp at hi
  | true =>
    obtain ⟨-, rfl⟩ := Prod.mk.inj (pure_ok.mp hi)
    obtain ⟨L'', hw', -⟩ := hw.install hg
    have hzero := h.added.count_zero ht
    refine ⟨⟨L'', hw'⟩, (h.added.install hw₀ hw hg).perm (List.perm_append_singleton _ _).symm,
      fun hk => ?_, fun hz s hs => ?_, fun hz s hs => ?_⟩
    · have hne := hk.resolve_right (by simp)
      rw [if_neg fun hc => hne (hzero.mp hc).1]
      exact h.kept (.inl hne)
    · cases done with
      | nil =>
        cases hs
        rw [if_pos (hzero.mpr ⟨hz, rfl⟩), ← h.kept (.inr rfl), hcreate]
        cases created with
        | true => rfl
        | false =>
          -- without storage the first install fails
          cases (install_eq hg).1 (hzero.mpr ⟨hz, rfl⟩)
      | cons s' done =>
        rw [if_neg fun hc => by simpa using (hzero.mp hc).2]
        exact h.created hz s hs
    · rcases List.mem_append.mp hs with hs | hs
      · exact h.published hz s hs
      · obtain rfl := List.mem_singleton.mp hs
        by_cases hmem : s ∈ done
        · exact h.published hz s hmem
        · rcases (install_eq hg).2 with ⟨c, k, hm, -⟩ | ⟨-, hcalloc, hsigaction, -⟩
          · rw [h.added.map s (.inl hmem),
              (Added.refl hw₀).map_none ht hz] at hm
            cases hm
          · exact ⟨hcalloc, hsigaction⟩

/-- One turn of the loop that cannot install its signal. -/
theorem Looping.refused (ht : Totalled g₀) (h : Looping env g₀ L st₀ pend cs ns done m)
    (hi : installStored env m signo = .ok (false, m')) :
    (∃ L', Wf m'.g L' pend cs ns) ∧ Added g₀ L done m'.g ∧ m'.store = m.store ∧
      ((env.signal signo).calloc = true → (env.signal signo).sigaction = true →
        g₀.sighandlersCount = 0 ∧ done = [] ∧ st₀.slot = .fallback none ∧
          (env.signal signo).tssCreate = false ∧ m'.errno = env.noise env.code) ∧
      (¬((env.signal signo).calloc = true ∧ (env.signal signo).sigaction = true) →
        m'.errno = env.code) := by
  obtain ⟨L', hw⟩ := h.wf
  unfold installStored at hi
  generalize hcreate : m.store.create (env.signal signo).tssCreate = r at hi
  obtain ⟨created, store⟩ := r
  obtain ⟨⟨ok, g⟩, hg, hi⟩ := bind_ok.mp hi
  have hg := ofLib_ok.mp hg
  cases ok with
  | true => simp at hi
  | false =>
    obtain ⟨-, rfl⟩ := Prod.mk.inj (pure_ok.mp hi)
    obtain ⟨L'', hw', -⟩ := hw.install hg
    have hz : ∀ c, m.g.map signo = some c → m.g.sighandlersCount ≠ 0 := by
      intro c hm hz
      rw [h.added.map_none ht hz] at hm
      cases hm
    obtain ⟨hn, hsame, hwhy⟩ := install_failed hz (hw.containerFresh _ (Nat.le_refl _)) hg
    have hmap : g.map = m.g.map := by rw [hsame]
    refine ⟨⟨L'', hw'⟩, h.added.failed hn hsame, rfl, fun hcalloc hsigaction => ?_, fun hnot => ?_⟩
    · obtain ⟨hzero, hcreated⟩ := (hwhy.resolve_left (by simp [hcalloc])).resolve_left
        (by simp [hsigaction])
      obtain ⟨hz₀, rfl⟩ := (h.added.count_zero ht).mp hzero
      obtain rfl : created = false := hcreated
      rw [h.kept (.inr rfl)] at hcreate
      obtain ⟨hslot, htss⟩ := create_failed hcreate
      refine ⟨hz₀, rfl, hslot, htss, if_pos ?_⟩
      simp [InstallEnv.published, hcalloc, hsigaction, hmap, h.added.map_none ht hzero]
    · refine if_neg fun hd => hnot ?_
      simp only [InstallEnv.published, Bool.and_eq_true, Bool.or_eq_true,
        Option.isNone_iff_eq_none] at hd
      obtain ⟨hp, hnone⟩ := hd
      exact hp.resolve_left (by simp [← hmap, hnone])

/-- The loop that takes back what has been installed. -/
theorem rollback_run (hw₀ : Wf g₀ L pend cs ns) (ht : Totalled g₀)
    (hw : ∃ L', Wf m.g L' pend cs ns) (h : Added g₀ L l m.g)
    (hr : l.foldlM (rollbackStored env) m = .ok m') :
    Added g₀ L [] m'.g ∧
      (g₀.sighandlersCount ≠ 0 ∨ l = [] → m'.store = m.store) ∧
      (g₀.sighandlersCount = 0 → l ≠ [] → m.store.destroy ThreadFault.tss = .ok m'.store) := by
  induction l generalizing m with
  | nil =>
    obtain rfl := pure_ok.mp hr
    exact ⟨h, fun _ => rfl, fun _ hn => absurd rfl hn⟩
  | cons signo l ih =>
    rw [List.foldlM_cons] at hr
    obtain ⟨m₁, hm₁, hr⟩ := bind_ok.mp hr
    obtain ⟨m₂, hu, hm₁⟩ := bind_ok.mp hm₁
    obtain rfl := pure_ok.mp hm₁
    obtain ⟨L', hw⟩ := hw
    have hg := uninstallStored_g hu
    obtain ⟨L'', hw', -⟩ := hw.uninstall hg
    have hadded := h.uninstall hw₀ ht hw hg
    obtain ⟨hdone, hkept, hlost⟩ := ih (m := { m₂ with errno := env.noise m₂.errno }) ⟨L'', hw'⟩
      hadded hr
    -- the storage goes with the last install there is
    have hlast : m.g.lastUninstall signo = true ↔ g₀.sighandlersCount = 0 ∧ l = [] := by
      obtain ⟨c, hm⟩ := h.mapped ht List.mem_cons_self
      have hzero := hadded.count_zero ht
      rw [(uninstall_uninstalls hg).count, hm] at hzero
      simpa [Global.lastUninstall, hm] using hzero
    obtain ⟨g, -, hu⟩ := bind_ok.mp hu
    split at hu
    · rename_i hl
      obtain ⟨hz, rfl⟩ := hlast.mp hl
      obtain ⟨store, hd, hu⟩ := bind_ok.mp hu
      obtain rfl := pure_ok.mp hu
      refine ⟨hdone, fun hk => absurd hk (by simp [hz]), fun _ _ => ?_⟩
      rw [hkept (.inr rfl)]
      exact hd
    · rename_i hl
      obtain rfl := pure_ok.mp hu
      refine ⟨hdone, fun hk => ?_, fun hz _ => ?_⟩
      · exact hkept (.inl (hk.resolve_right (by simp)))
      · exact hlost hz fun hnil => hl (hlast.mpr ⟨hz, hnil⟩)

/-- How a `siginstall` has failed at `signo`, with `done` installed before and taken back. -/
structure Refused (env : SiginstallEnv) (g₀ : Global) (L : Layout) (st₀ : ThreadStorage)
    (done : List Signo) (signo : Signo) (m' : Process) : Prop where
  added : Added g₀ L [] m'.g
  published : g₀.sighandlersCount = 0 → ∀ s ∈ done,
    (env.signal s).calloc = true ∧ (env.signal s).sigaction = true
  kept : g₀.sighandlersCount ≠ 0 ∨ done = [] → m'.store = st₀
  destroyed : g₀.sighandlersCount = 0 → ∀ s, done.head? = some s →
    ∃ st, st₀.create (env.signal s).tssCreate = (true, st) ∧
      st.destroy ThreadFault.tss = .ok m'.store
  storage : (env.signal signo).calloc = true → (env.signal signo).sigaction = true →
    g₀.sighandlersCount = 0 ∧ done = [] ∧ st₀.slot = .fallback none ∧
      (env.signal signo).tssCreate = false ∧ m'.errno = env.noise env.code
  errno : ¬((env.signal signo).calloc = true ∧ (env.signal signo).sigaction = true) →
    m'.errno = env.code

theorem installAll_refused {todo : List Signo} (hw₀ : Wf g₀ L pend cs ns) (ht : Totalled g₀)
    (h : Looping env g₀ L st₀ pend cs ns done m)
    (hr : installAll env m done todo = .ok (false, m')) :
    ∃ done' signo todo', done' ++ signo :: todo' = done ++ todo ∧
      Refused env g₀ L st₀ done' signo m' := by
  induction todo generalizing m done with
  | nil => simp [installAll] at hr
  | cons signo todo ih =>
    obtain ⟨⟨ok, m₁⟩, hi, hr⟩ := bind_ok.mp hr
    cases ok with
    | true =>
      obtain ⟨done', signo', todo', hsplit, href⟩ := ih (h.installed hw₀ ht hi) hr
      exact ⟨done', signo', todo', by rw [hsplit, List.append_assoc]; rfl, href⟩
    | false =>
      obtain ⟨m₂, hroll, hr⟩ := bind_ok.mp hr
      obtain ⟨-, rfl⟩ := Prod.mk.inj (pure_ok.mp hr)
      obtain ⟨hw₁, hadded, hstore, hstorage, herrno⟩ := h.refused ht hi
      obtain ⟨hdone, hkept, hlost⟩ := rollback_run hw₀ ht hw₁ hadded hroll
      refine ⟨done, signo, todo, rfl, hdone, h.published, fun hk => ?_, fun hz s hs => ?_,
        hstorage, herrno⟩
      · rw [← h.kept hk, ← hstore]
        exact hkept hk
      · refine ⟨m.store, h.created hz s hs, ?_⟩
        rw [← hstore]
        refine hlost hz ?_
        rintro rfl
        cases hs

/-- What is left of the guard stack when the storage has been created and destroyed again. -/
theorem destroyed_front {st st' : ThreadStorage} {ok : Bool} (hc : st₀.create ok = (true, st))
    (hd : st.destroy ThreadFault.tss = .ok st') :
    (∃ own, st₀.slot = .threadLocal own) ∧ st'.front = st₀.front ∨
      (∃ tss, st₀.slot = .fallback tss) ∧ st'.front = none := by
  unfold ThreadStorage.create at hc
  split at hc
  · rename_i own hslot
    obtain rfl := (Prod.mk.inj hc).2
    rw [ThreadStorage.destroy, hslot] at hd
    obtain rfl := pure_ok.mp hd
    exact .inl ⟨⟨own, hslot⟩, rfl⟩
  · rename_i own hslot
    obtain rfl := (Prod.mk.inj hc).2
    rw [ThreadStorage.destroy, hslot] at hd
    obtain rfl := pure_ok.mp hd
    exact .inr ⟨⟨_, hslot⟩, front_of_none rfl⟩
  · rename_i hslot
    split at hc
    · obtain rfl := (Prod.mk.inj hc).2
      obtain rfl := pure_ok.mp hd
      exact .inr ⟨⟨_, hslot⟩, front_of_none rfl⟩
    · simp at hc

/-- The first signal is the one whose install created the storage, or that which failed. -/
theorem Refused.undone_iff {p : Platform} {guarded : Option SigSet} {todo : List Signo}
    {errno : Int} (hw₀ : Wf g₀ L pend cs ns) (ht : Totalled g₀)
    (h : Refused env g₀ L st₀ done signo m') (hmalloc : env.malloc = true)
    (hset : p.members (p.installSet guarded) = done ++ signo :: todo) :
    Undone env ⟨g₀, st₀, errno⟩ m' ↔
      ¬env.dropsGuards p ⟨g₀, st₀, errno⟩ guarded ∧
        ¬env.dropsErrno p ⟨g₀, st₀, errno⟩ guarded := by
  constructor
  · rintro ⟨-, hfront, herrno⟩
    constructor
    · rintro ⟨hz, ⟨tss, hslot⟩, hne, s, -, hhead, hcalloc, hsigaction⟩
      rw [hset] at hhead
      cases done with
      | nil =>
        obtain rfl := Option.some.inj hhead
        obtain ⟨-, -, hnone, -⟩ := h.storage hcalloc hsigaction
        exact hne (front_of_none (congrArg TssSlot.own hnone))
      | cons s' done =>
        obtain rfl := Option.some.inj hhead
        obtain ⟨st, hc, hd⟩ := h.destroyed hz s' rfl
        rcases destroyed_front hc hd with ⟨⟨own, hown⟩, -⟩ | ⟨-, hnone⟩
        · rw [hslot] at hown
          cases hown
        · exact hne (hfront.symm.trans hnone)
    · rintro ⟨hz, hslot, hne, s, ⟨-, hhead, hcalloc, hsigaction⟩, htss⟩
      rw [hset] at hhead
      cases done with
      | nil =>
        obtain rfl := Option.some.inj hhead
        obtain ⟨-, -, -, -, hnoise⟩ := h.storage hcalloc hsigaction
        exact hne (hnoise.symm.trans herrno)
      | cons s' done =>
        obtain rfl := Option.some.inj hhead
        obtain ⟨st, hc, -⟩ := h.destroyed hz s' rfl
        simp [ThreadStorage.create, show st₀.slot = .fallback none from hslot, htss] at hc
  · rintro ⟨hguards, herr⟩
    refine ⟨h.added.before hw₀, ?_, ?_⟩
    · by_cases hk : g₀.sighandlersCount ≠ 0 ∨ done = []
      · exact congrArg ThreadStorage.front (h.kept hk)
      · obtain ⟨hz, hdone⟩ := not_or.mp hk
        have hz := not_not.mp hz
        obtain ⟨s, done, rfl⟩ := List.exists_cons_of_ne_nil hdone
        obtain ⟨st, hc, hd⟩ := h.destroyed hz s rfl
        rcases destroyed_front hc hd with ⟨-, hsame⟩ | ⟨hslot, hnone⟩
        · exact hsame
        · by_contra hne
          refine hguards ⟨hz, hslot, fun hfront => hne (hnone.trans hfront.symm), s, hmalloc,
            by rw [hset]; rfl, h.published hz s List.mem_cons_self⟩
    · by_cases hp : (env.signal signo).calloc = true ∧ (env.signal signo).sigaction = true
      · obtain ⟨hz, rfl, hslot, htss, hnoise⟩ := h.storage hp.1 hp.2
        by_contra hne
        exact herr ⟨hz, hslot, fun hcode => hne (hnoise.trans hcode), signo,
          ⟨hmalloc, by rw [hset]; rfl, hp⟩, htss⟩
      · exact h.errno hp

end

/-- A `siginstall` that fails, in any reachable state and at any point, has left nothing behind
exactly when it did not destroy the storage that holds guards of the thread, nor leave another
`errno` than that of the storage it could not create. -/
theorem siginstall_undone_iff (p : Platform) (kernel : Signo → Sigaction) {s : State}
    (hr : Run (step p) (fun _ _ => True) (State.initial kernel) s) (store : ThreadStorage)
    (errno : Int) (env : SiginstallEnv) (guarded : Option SigSet) {m' : Process}
    (h : siginstall p env ⟨s.g, store, errno⟩ guarded = .ok (none, m')) :
    Undone env ⟨s.g, store, errno⟩ m' ↔
      ¬env.dropsGuards p ⟨s.g, store, errno⟩ guarded ∧
        ¬env.dropsErrno p ⟨s.g, store, errno⟩ guarded := by
  obtain ⟨⟨L, hi⟩, ht⟩ := totalled_run hr
  unfold siginstall at h
  split at h
  · rename_i hmalloc
    obtain ⟨⟨ok, m₁⟩, hall, h⟩ := bind_ok.mp h
    cases ok with
    | true => simp at h
    | false =>
      obtain ⟨-, rfl⟩ := Prod.mk.inj (pure_ok.mp h)
      have hloop : Looping env s.g L store (s.pending p) (s.holds.map Hold.item)
          (s.holds.map Hold.node) [] ⟨s.g, store, errno⟩ :=
        ⟨⟨L, hi.wf⟩, .refl hi.wf, fun _ => rfl, by simp, by simp⟩
      obtain ⟨done, signo, todo, hsplit, href⟩ := installAll_refused hi.wf ht hloop hall
      exact href.undone_iff hi.wf ht hmalloc hsplit.symm
  · rename_i hmalloc
    obtain ⟨-, rfl⟩ := Prod.mk.inj (pure_ok.mp h)
    refine iff_of_true ⟨(Added.refl hi.wf).before hi.wf, rfl, rfl⟩ ⟨?_, ?_⟩
    · rintro ⟨-, -, -, signo, hm, -⟩
      exact hmalloc hm
    · rintro ⟨-, -, -, signo, ⟨hm, -⟩, -⟩
      exact hmalloc hm

/-- A second signal that cannot be installed. -/
def secondFails : SiginstallEnv where
  signal signo := { sigaction := signo != 2 }
  code := 22

/-- A thread with a guard, in the configuration with native thread locals. -/
def guardedStore : ThreadStorage where
  states := Heap.empty.set 0 (some { front := some 5 })
  nextState := 1
  slot := .threadLocal (some 0)

theorem siginstall_undone_guarded :
    ∃ m', siginstall .tiny secondFails ⟨(State.initial fun _ => .dfl).g, guardedStore, 0⟩ none =
      .ok (none, m') ∧
      Undone secondFails ⟨(State.initial fun _ => .dfl).g, guardedStore, 0⟩ m' := by
  have hfails : okAnd (siginstall .tiny secondFails
      ⟨(State.initial fun _ => .dfl).g, guardedStore, 0⟩ none) (fun r => r.1.isNone) = true := by
    decide
  obtain ⟨⟨handle, m'⟩, h, hnone⟩ := okAnd_iff.mp hfails
  obtain rfl : handle = none := Option.isNone_iff_eq_none.mp hnone
  refine ⟨m', h, (siginstall_undone_iff .tiny _ (.refl _) _ _ _ _ h).mpr ⟨?_, ?_⟩⟩
  · rintro ⟨-, ⟨tss, hslot⟩, -⟩
    cases hslot
  · rintro ⟨-, hslot, -⟩
    cases hslot

/-- Without the condition: a thread enters a guard before anything is installed, and the install
that fails then takes the guard away. -/
theorem siginstall_drops_guard :
    ∃ s m', Run (guardStep .tiny) (fun _ _ => True)
        (.initial false (State.initial fun _ => .dfl).g) s ∧
      siginstall .tiny secondFails s.process none = .ok (none, m') ∧
      ¬Undone secondFails s.process m' := by
  obtain ⟨s, hr, hs⟩ := run_of_ends (s := .initial false (State.initial fun _ => .dfl).g)
    (c := fun _ _ => true) (r := fun _ _ => True) (f := guardStep .tiny)
    (q := fun s => okAnd (siginstall .tiny secondFails s.process none) fun r =>
      r.1.isNone && r.2.store.front != s.process.store.front)
    (l := [.sigguarded (· == 1) true 0 7 {}]) (fun _ _ _ => trivial) (by decide)
  obtain ⟨⟨handle, m'⟩, h, hq⟩ := okAnd_iff.mp hs
  simp only [Bool.and_eq_true, Option.isNone_iff_eq_none, bne_iff_ne] at hq
  obtain ⟨rfl, hne⟩ := hq
  exact ⟨s, m', hr, h, fun hundone => hne hundone.front⟩

end Wg14Signals
