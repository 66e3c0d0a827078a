import Wg14Signals.Proofs.Progress
import Wg14Signals.Proofs.Effects

namespace Wg14Signals
open Lib

/-- The books balance: counts are those of the handles' slots and of the raises
inside deciders, and each of the latter stands on a node of its container. -/
structure Inv (p : Platform) (s : State) (L : Layout) : Prop where
  wf : Wf s.g L (s.pending p) (s.holds.map Hold.item) (s.holds.map Hold.node)
  inside : ∀ x ∈ s.holds, x.node ∈ L x.item .global

/-- The same step, seen from the lists. -/
inductive Shift (p : Platform) (s : State) (act : Action) (s' : State) (L L' : Layout) : Prop where
  | keeps {y : Option Addr} (he : Evolves none y s.g s'.g L L')
      (hm : ∀ signo c, s'.g.map signo = some c → s.g.map signo = some c ∨
        s.g.nextContainer ≤ c ∧ L' c .global = [])
      (hp : (s'.pending p).Perm (s.pending p)) (hh : ∀ x ∈ s'.holds, x ∈ s.holds)
  | joins (x : Slot) (item : Addr) (callfirst : Bool)
      (hj : Joins x.node item x.owner callfirst s.g s'.g L L')
      (ha : s.registers p act = some (item, callfirst))
      (hp : (s'.pending p).Perm (x :: s.pending p)) (hh : ∀ x ∈ s'.holds, x ∈ s.holds)
  | drops (x : Slot) (searched : Option Addr) (hd : s.drops act = some (x.node, searched))
      (ho : ∃ a ∈ s.acts, a.destroying = some x.owner)
      (hx : Wf.Drops s.g s'.g L L' x.node)
      (hs : ∀ c, searched = some c → LastRef s.g x.node → x.node ∉ L' c .global)
      (hp : (s.pending p).Perm (x :: s'.pending p)) (hh : ∀ x ∈ s'.holds, x ∈ s.holds)
  | enters (x : Hold) (signo : Signo) (hm : s.g.map signo = some x.item)
      (hf : (L x.item .global).head? = some x.node) (he : Evolves none none s.g s'.g L L')
      (hg : s'.g.map = s.g.map) (hp : (s'.pending p).Perm (s.pending p))
      (hh : ∀ y ∈ s'.holds, y = x ∨ y ∈ s.holds)
  | walks (x : Hold) (next : Addr) (hx : x ∈ s.inside)
      (hn : ∃ a b, L x.item .global = a ++ x.node :: next :: b)
      (he : Evolves none (some x.node) s.g s'.g L L')
      (hg : s'.g.map = s.g.map) (hp : (s'.pending p).Perm (s.pending p))
      (hh : ∀ y ∈ s'.holds, y = { x with node := next } ∨ y ∈ s.holds)

/-- What becomes of registered and of retired nodes in a step. One leaves its list only
with the container, or with its last reference; and only an abandoned decider
leaves a node behind that has none and is not retired. -/
structure Lasts (s : State) (act : Action) (s' : State) (L L' : Layout) : Prop where
  containers : Outlives s.g s'.g
  stays : ∀ c, ∀ n ∈ L c .global, n ∈ L' c .global ∨ s'.g.containers c = none ∨
    LastRef s.g n ∧ (∀ nd', s'.g.nodes n = some nd' → nd'.refcount = 0) ∧
      ((∃ x ∈ s.unpins act, x.node = n) ∨ ∃ searched, s.drops act = some (n, searched))
  retired : ∀ c, ∀ n ∈ L c .deferred, (∃ d, n ∈ L' d .deferred) ∨ s'.g.nodes n = none
  spent : ∀ n nd', s'.g.nodes n = some nd' → nd'.refcount = 0 →
    (∃ nd, s.g.nodes n = some nd ∧ nd.refcount = 0) ∨ (∃ c, n ∈ L' c .deferred) ∨
      ∃ x ∈ s.abandons act, x.node = n ∧ LastRef s.g n

theorem install_map {g g' : Global} {signo : Signo} {env : InstallEnv} {ok : Bool}
    (h : installSighandler g signo env = .ok (ok, g')) {t : Signo} {c : Addr}
    (hm : g'.map t = some c) : g.map t = some c ∨ c = g.nextContainer := by
  have key : ∀ {g₁ : Global} {d : Addr}, countInstall g₁ signo d env = .ok (ok, g') →
      g₁.map t = some c := by
    intro g₁ d hr
    obtain ⟨k, _, hr⟩ := bind_ok.mp hr
    split at hr
    · split at hr
      · obtain ⟨g₂, hd, hr⟩ := bind_ok.mp hr
        simp only [pure_ok, Prod.mk.injEq] at hr
        rw [← hr.2, Wf.release_map hd] at hm
        simp only [Global.setMap_map, Global.setKernel_map] at hm
        split at hm
        · cases hm
        · exact hm
      · simp only [pure_ok, Prod.mk.injEq] at hr
        rwa [← hr.2] at hm
    · simp only [pure_ok, Prod.mk.injEq] at hr
      rwa [← hr.2] at hm
  unfold installSighandler at h
  split at h
  · exact Or.inl (key h)
  · split at h
    · simp only [pure_ok, Prod.mk.injEq] at h
      rw [← h.2] at hm
      exact Or.inl hm
    · split at h
      · simp only [pure_ok, Prod.mk.injEq] at h
        rw [← h.2] at hm
        exact Or.inl hm
      · have hk := key h
        simp only [newSighandlerInfo, Global.setMap_map, Global.setKernel_map] at hk
        split at hk
        · exact Or.inr (Option.some.inj hk).symm
        · exact Or.inl hk

theorem uninstall_map {g g' : Global} {signo : Signo} (h : uninstallSighandler g signo = .ok g')
    {t : Signo} {c : Addr} (hm : g'.map t = some c) : g.map t = some c := by
  unfold uninstallSighandler at h
  split at h
  · simp only [pure_ok] at h
    rwa [h]
  · obtain ⟨k, _, h⟩ := bind_ok.mp h
    obtain ⟨g₁, hf, h⟩ := bind_ok.mp h
    obtain ⟨⟨_, _⟩, _, hf⟩ := bind_ok.mp hf
    simp only [pure_ok] at hf
    subst hf
    simp only at h
    split at h
    · rw [Wf.release_map h] at hm
      simp only [Global.setMap_map, Global.setKernel_map] at hm
      split at hm
      · cases hm
      · exact hm
    · simp only [pure_ok] at h
      rwa [← h] at hm

theorem inv_initial (p : Platform) (kernel : Signo → Sigaction) :
    Inv p (State.initial kernel) fun _ _ => [] := by
  refine ⟨⟨?_, ?_, ?_, ?_, ?_, ?_, ?_, ?_, ?_, ?_, ?_, ?_, ?_, ?_, ?_, ?_⟩, ?_⟩ <;>
    simp [State.initial, State.pending, State.holds, Heap.empty]

namespace Inv

variable {p : Platform} {s s' : State} {act : Action} {L : Layout}

/-- A container with a member is not a new one. -/
theorem old (hi : Inv p s L) {c n : Addr} (hn : n ∈ L c .global) : c < s.g.nextContainer := by
  refine Nat.lt_of_not_le fun hle => ?_
  rw [hi.wf.dead c .global (hi.wf.containerFresh c hle)] at hn
  cases hn

/-- A step in which nobody but perhaps a node with its last reference leaves a list. -/
theorem lasts {x y : Option Addr} {L' : Layout} (hi : Inv p s L)
    (he : Evolves x y s.g s'.g L L')
    (hy : ∀ n, y = some n → ∀ c, n ∈ L c .global → n ∈ L' c .global ∨ s'.g.containers c = none ∨
      LastRef s.g n ∧ (∀ nd', s'.g.nodes n = some nd' → nd'.refcount = 0) ∧
        ((∃ x ∈ s.unpins act, x.node = n) ∨ ∃ searched, s.drops act = some (n, searched)))
    (hs : ∀ n nd', s'.g.nodes n = some nd' → nd'.refcount = 0 →
      (∃ nd, s.g.nodes n = some nd ∧ nd.refcount = 0) ∨ (∃ c, n ∈ L' c .deferred) ∨
        ∃ x ∈ s.abandons act, x.node = n ∧ LastRef s.g n) : Lasts s act s' L L' where
  containers := he.containers
  stays c n hn := by
    rcases he.keeps c (hi.old hn) n hn with hn' | rfl | hg
    · exact Or.inl hn'
    · exact hy n rfl c hn
    · exact Or.inr (Or.inl hg)
  retired := he.retired
  spent := hs

theorem owned_before {x y : Option Addr} {L' : Layout} (he : Evolves x y s.g s'.g L L') {n : Addr}
    {nd' : Node} (hn' : s'.g.nodes n = some nd') : ∃ nd, s.g.nodes n = some nd := by
  obtain ⟨nd, hn, _⟩ := he.owners n nd' hn'
  exact ⟨nd, hn⟩

/-- A raise that leaves a decider retires the node if nobody else refers to it. -/
theorem left {x : Hold} {L' : Layout} {rest : List Hold} (hi : Inv p s L)
    (hh : s.holds.Perm (x :: rest)) (hu : x ∈ s.unpins act)
    (he : Evolves none (some x.node) s.g s'.g L L')
    (hlast : LastRef s.g x.node → (∃ d, x.node ∈ L' d .deferred) ∨ s'.g.nodes x.node = none)
    (hmore : ¬ LastRef s.g x.node → x.node ∈ L' x.item .global ∨ s'.g.containers x.item = none)
    {cs ns : List Addr} (hw' : Wf s'.g L' (s.pending p) cs ns)
    (hns : ∀ n, n ≠ x.node → (rest.map Hold.node).count n ≤ ns.count n)
    (hself : (rest.map Hold.node).count x.node = ns.count x.node) : Lasts s act s' L L' := by
  have hw := hi.wf.perm (List.Perm.refl _) (hh.map Hold.item) (hh.map Hold.node)
  rw [List.map_cons, List.map_cons] at hw
  have hin := hi.inside x (hh.mem_iff.mpr List.mem_cons_self)
  refine hi.lasts he (fun n hn c hc => ?_) fun n nd' hn' hz => ?_
  · cases hn
    obtain ⟨rfl, _⟩ := hi.wf.unshared _ _ _ _ _ hin hc
    by_cases hl : LastRef s.g x.node
    · refine Or.inr (Or.inr ⟨hl, fun nd' hn' => ?_, Or.inl ⟨x, hu, rfl⟩⟩)
      obtain ⟨hp, hr⟩ := hw.last_pin hl
      rw [hw'.refcount _ nd' hn', hp, ← hself, hr]
      rfl
    · exact (hmore hl).imp_right Or.inl
  · by_cases hne : n = x.node
    · subst hne
      have hl : LastRef s.g x.node := by
        obtain ⟨nd, hn⟩ := owned_before he hn'
        have hr := hw.refcount _ nd hn
        have hr' := hw'.refcount _ nd' hn'
        rw [List.count_cons_self, hself] at hr
        push_cast at hr
        exact ⟨nd, hn, by omega⟩
      rcases hlast hl with hd | hd
      · exact Or.inr (Or.inl hd)
      · rw [hd] at hn'
        cases hn'
    · refine Or.inl (hw.spent hw' (owned_before he hn') hn' hz (Nat.le_refl _) ?_)
      rw [List.count_cons_of_ne (Ne.symm hne)]
      exact hns n hne

/-- The invariant and the lists after a step. -/
theorem effect (hi : Inv p s L) (he : Effect p s act s') :
    ∃ L', Inv p s' L' ∧ Shift p s act s' L L' ∧ Lasts s act s' L L' := by
  have hw := hi.wf
  -- most steps leave the holds as they are, up to order
  have same : ∀ {L'}, s'.holds.Perm s.holds →
      Wf s'.g L' (s'.pending p) (s.holds.map Hold.item) (s.holds.map Hold.node) →
      (∀ x ∈ s.holds, x.node ∈ L' x.item .global) → Inv p s' L' := by
    intro L' hh hw' hin
    exact ⟨hw'.perm (List.Perm.refl _) (hh.symm.map _) (hh.symm.map _),
      fun x hx => hin x (hh.mem_iff.mp hx)⟩
  -- nobody leaves from under a raise
  have stay : ∀ {L' cs ns}, Lasts s act s' L L' → Wf s'.g L' (s'.pending p) cs ns →
      ∀ x ∈ s.holds, x.item ∈ cs → x.node ∈ ns → x.node ∈ L' x.item .global := by
    intro L' cs ns hl hw' x hx hc hn
    obtain ⟨k, hk⟩ := hw'.held x.item hc
    obtain ⟨nd, hnd⟩ := hw'.pinned x.node hn
    rcases hl.stays x.item x.node (hi.inside x hx) with hn' | hg | ⟨_, hz, _⟩
    · exact hn'
    · rw [hg] at hk
      cases hk
    · have hpos := hw'.pin_refcount hn hnd
      rw [hz nd hnd] at hpos
      exact absurd hpos (by simp)
  have keep : ∀ {L'}, Wf s'.g L' (s.pending p) (s.holds.map Hold.item) (s.holds.map Hold.node) →
      Evolves none none s.g s'.g L L' →
      (∀ signo c, s'.g.map signo = some c → s.g.map signo = some c ∨
        s.g.nextContainer ≤ c ∧ L' c .global = []) →
      (s'.pending p).Perm (s.pending p) → s'.holds.Perm s.holds →
      ∃ L', Inv p s' L' ∧ Shift p s act s' L L' ∧ Lasts s act s' L L' := by
    intro L' hw' he hm hp hh
    have hlasts : Lasts s act s' L L' := hi.lasts he (by simp) fun n nd' hn' hz =>
      Or.inl (hw.spent hw' (owned_before he hn') hn' hz (Nat.le_refl _) (Nat.le_refl _))
    have hw'' := hw'.perm hp.symm (List.Perm.refl _) (List.Perm.refl _)
    exact ⟨L', same hh hw'' fun x hx =>
      stay hlasts hw'' x hx (List.mem_map_of_mem hx) (List.mem_map_of_mem hx),
      .keeps he hm hp fun x hx => hh.mem_iff.mp hx, hlasts⟩
  -- the handle's reference is given back
  have drop : ∀ {L'} {x : Slot} {searched : Option Addr}, s.drops act = some (x.node, searched) →
      (∃ a ∈ s.acts, a.destroying = some x.owner) → (s.pending p).Perm (x :: s'.pending p) →
      s'.holds.Perm s.holds →
      Wf s'.g L' (s'.pending p) (s.holds.map Hold.item) (s.holds.map Hold.node) →
      Wf.Drops s.g s'.g L L' x.node →
      (∀ c, searched = some c → LastRef s.g x.node → x.node ∉ L' c .global) →
      ∃ L', Inv p s' L' ∧ Shift p s act s' L L' ∧ Lasts s act s' L L' := by
    intro L' x searched hd ho hp hh hw' hx hs
    have hwx := hw.perm hp (List.Perm.refl _) (List.Perm.refl _)
    have hlasts : Lasts s act s' L L' := by
      refine hi.lasts hx.evolves (fun n hn c hc => ?_) fun n nd' hn' hz => Or.inl ?_
      · cases hn
        by_cases hl : LastRef s.g x.node
        · refine Or.inr (Or.inr ⟨hl, fun nd' hn' => ?_, Or.inr ⟨searched, hd⟩⟩)
          rw [hx.frees.mpr hl] at hn'
          cases hn'
        · rw [← hx.stays hl c] at hc
          exact Or.inl hc
      · have hne : n ≠ x.node := by
          rintro rfl
          have hl : LastRef s.g x.node := by
            obtain ⟨nd, hn⟩ := owned_before hx.evolves hn'
            have hr := hwx.refcount _ nd hn
            have hr' := hw'.refcount _ nd' hn'
            rw [List.map_cons, List.count_cons_self] at hr
            push_cast at hr
            exact ⟨nd, hn, by omega⟩
          rw [hx.frees.mpr hl] at hn'
          cases hn'
        refine hwx.spent hw' (owned_before hx.evolves hn') hn' hz ?_ (Nat.le_refl _)
        rw [List.map_cons]
        exact Nat.le_of_eq (List.count_cons_of_ne (Ne.symm hne))
    exact ⟨L', same hh hw' fun y hy =>
      stay hlasts hw' y hy (List.mem_map_of_mem hy) (List.mem_map_of_mem hy),
      .drops x searched hd ho hx hs hp fun y hy => hh.mem_iff.mp hy, hlasts⟩
  cases he with
  | quiet hg hp hh =>
    have hout : Outlives s.g s'.g := by
      rw [hg]
      exact (Outlives.refl s.g).congr rfl (Nat.le_refl _) (Nat.le_refl _)
    refine keep (hw.congr ?_ ?_ ?_ ?_ ?_) (.same hout ?_) ?_ hp hh <;> rw [hg]
    exact fun _ _ h => Or.inl h
  | install signo env ok op hp hh =>
    obtain ⟨L', hw', he⟩ := hw.install op
    refine keep hw' he (fun t c hm => ?_) hp hh
    refine (install_map op hm).imp_right fun hc => ?_
    have hnil : L c .global = [] := by
      rw [hc]
      exact hw.dead _ _ (hw.containerFresh _ (Nat.le_refl _))
    exact ⟨Nat.le_of_eq hc.symm, List.sublist_nil.mp (hnil ▸ he.shrinks c)⟩
  | uninstall signo op hp hh =>
    obtain ⟨L', hw', he⟩ := hw.uninstall op
    exact keep hw' he (fun t c hm => Or.inl (uninstall_map op hm)) hp hh
  | create signo args calloc i ha op hp hh =>
    obtain ⟨item, L', hm, hw', hj⟩ := hw.create op
    rw [hm, Option.map_some] at ha
    refine ⟨L', same hh (hw'.perm hp.symm (List.Perm.refl _) (List.Perm.refl _))
      (fun x hx => hj.still (hi.inside x hx)), .joins ⟨args.owner, signo, i⟩ item args.callfirst hj
      ha hp fun x hx => hh.mem_iff.mp hx, hj.containers,
      fun c n hn => Or.inl (hj.still hn), fun c n hn => Or.inl ⟨c, hj.still hn⟩,
      fun n nd' hn' hz => Or.inl ?_⟩
    have hne : n ≠ i := by
      rintro rfl
      have hr' := hw'.refcount _ nd' hn'
      rw [List.map_cons, List.count_cons_self] at hr'
      push_cast at hr'
      omega
    refine hw.spent hw' ?_ hn' hz ?_ (Nat.le_refl _)
    · have hpay := hj.payload n hne
      rw [hn', Option.map_some, eq_comm] at hpay
      obtain ⟨nd, hn, _⟩ := Option.map_eq_some_iff.mp hpay
      exact ⟨nd, hn⟩
    · rw [List.map_cons]
      exact List.count_le_count_cons
  | flush signo slot op hp hh =>
    obtain ⟨_, hm, L', hw', he⟩ := hw.destroyLocked_none op
    exact keep hw' he (fun t c h => Or.inl (hm ▸ h)) hp hh
  | locked x item slot hd hm ho op hp hh =>
    obtain ⟨_, L', hw', hx, hlast⟩ :=
      (hw.perm hp (List.Perm.refl _) (List.Perm.refl _)).destroyLocked_some hm op
    refine drop hd ho hp hh hw' hx ?_
    rintro c ⟨rfl⟩ hl
    exact hlast hl
  | unlocked x hd ho op hp hh =>
    obtain ⟨hw', hx⟩ := (hw.perm hp (List.Perm.refl _) (List.Perm.refl _)).destroyUnlocked op
    exact drop hd ho hp hh hw' hx (by simp)
  | enter signo raise item current value sa op hp hh =>
    obtain ⟨hg, ⟨hm, _⟩, hw', he, hf⟩ := hw.raiseEnter op
    refine ⟨L, ⟨hw'.perm hp.symm (hh.symm.map Hold.item) (hh.symm.map Hold.node), ?_⟩,
      .enters ⟨raise, item, current⟩ signo hm hf he hg hp fun y hy => ?_,
      hi.lasts he (by simp) fun n nd' hn' hz => Or.inl ?_⟩
    · intro y hy
      rcases List.mem_cons.mp (hh.mem_iff.mp hy) with rfl | hy
      · exact List.mem_of_head? hf
      · exact hi.inside y hy
    · exact List.mem_cons.mp (hh.mem_iff.mp hy)
    · exact hw.spent hw' (owned_before he hn') hn' hz (Nat.le_refl _)
        (List.count_le_count_cons)
  | pass signo sa op hp hh =>
    obtain ⟨hm, _, L', hw', he⟩ := hw.raiseEnter op
    exact keep hw' he (fun t c h => Or.inl (hm ▸ h)) hp hh
  | walk raise item current next value claimed rest op hp hx hu hh hh' =>
    have hin : current ∈ L item .global :=
      hi.inside ⟨raise, item, current⟩ (hh.mem_iff.mpr List.mem_cons_self)
    have hw₁ := hw.perm (List.Perm.refl _) (hh.map Hold.item) (hh.map Hold.node)
    obtain ⟨hg, L', he, hlast, hmore, hw', hnext, hsplit⟩ := hw₁.raiseLeave hin op
    have hne : next ≠ current := by
      obtain ⟨a, b, hl⟩ := hsplit
      obtain ⟨k, hk⟩ := hw.held item ((hh.map Hold.item).mem_iff.mpr List.mem_cons_self)
      have hnd := (hw.lists item k .global hk).nodup
      rw [hl] at hnd
      rintro rfl
      simp [List.nodup_append] at hnd
    have hlasts : Lasts s act s' L L' := hi.left hh hu he hlast hmore hw'
      (fun n hn => List.count_le_count_cons) (by rw [List.count_cons_of_ne hne])
    have hw'' := hw'.perm hp.symm (hh'.symm.map Hold.item) (hh'.symm.map Hold.node)
    refine ⟨L', ⟨hw'', ?_⟩, .walks ⟨raise, item, current⟩ next hx hsplit he hg hp fun y hy => ?_,
      hlasts⟩
    · intro y hy
      rcases List.mem_cons.mp (hh'.mem_iff.mp hy) with rfl | hy'
      · exact hnext
      · exact stay hlasts hw'' y (hh.mem_iff.mpr (List.mem_cons_of_mem _ hy'))
          (List.mem_map_of_mem hy) (List.mem_map_of_mem hy)
    · refine (List.mem_cons.mp (hh'.mem_iff.mp hy)).imp_right fun hy => ?_
      exact hh.mem_iff.mpr (List.mem_cons_of_mem _ hy)
  | leave x claimed r op hr hu hp hh =>
    have hin := hi.inside x (hh.mem_iff.mpr List.mem_cons_self)
    have hw₁ := hw.perm (List.Perm.refl _) (hh.map Hold.item) (hh.map Hold.node)
    obtain ⟨hg, L', he, hlast, hmore, hrest⟩ := hw₁.raiseLeave hin op
    have hw' : Wf s'.g L' (s.pending p) (s'.holds.map Hold.item) (s'.holds.map Hold.node) := by
      cases r with
      | deciding current value => exact absurd rfl (hr current value)
      | claimed => exact hrest
      | unclaimed => exact hrest
    have hlasts : Lasts s act s' L L' := hi.left hh hu he hlast hmore hw'
      (fun n _ => Nat.le_refl _) rfl
    have hw'' := hw'.perm hp.symm (List.Perm.refl _) (List.Perm.refl _)
    have hsub : ∀ y ∈ s'.holds, y ∈ s.holds :=
      fun y hy => hh.mem_iff.mpr (List.mem_cons_of_mem _ hy)
    exact ⟨L', ⟨hw'', fun y hy =>
      stay hlasts hw'' y (hsub y hy) (List.mem_map_of_mem hy) (List.mem_map_of_mem hy)⟩,
      .keeps he (fun t c h => Or.inl (hg ▸ h)) hp hsub, hlasts⟩
  | abandon x op hu hp hh =>
    have hw₁ := hw.perm (List.Perm.refl _) (hh.map Hold.item) (hh.map Hold.node)
    obtain ⟨hw', he, hg⟩ := hw₁.abandon op
    have hsub : ∀ y ∈ s'.holds, y ∈ s.holds :=
      fun y hy => hh.mem_iff.mpr (List.mem_cons_of_mem _ hy)
    refine ⟨L, ⟨hw'.perm hp.symm (List.Perm.refl _) (List.Perm.refl _),
      fun y hy => hi.inside y (hsub y hy)⟩, .keeps he (fun t c h => Or.inl (hg ▸ h)) hp hsub,
      hi.lasts he (by simp) fun n nd' hn' hz => ?_⟩
    by_cases hne : n = x.node
    · subst hne
      refine Or.inr (Or.inr ⟨x, hu, rfl, ?_⟩)
      obtain ⟨nd, hn⟩ := owned_before he hn'
      have hr := hw₁.refcount _ nd hn
      have hr' := hw'.refcount _ nd' hn'
      rw [List.map_cons, List.count_cons_self] at hr
      push_cast at hr
      exact ⟨nd, hn, by omega⟩
    · refine Or.inl (hw₁.spent hw' (owned_before he hn') hn' hz (Nat.le_refl _) ?_)
      rw [List.map_cons]
      exact Nat.le_of_eq (List.count_cons_of_ne (Ne.symm hne))

theorem step (hi : Inv p s L) (h : Wg14Signals.step p s act = .ok s') :
    ∃ L', Inv p s' L' ∧ Shift p s act s' L L' ∧ Lasts s act s' L L' :=
  hi.effect (step_effect h)

end Inv

/-- The books balance in every state of every run. -/
theorem inv_run {p : Platform} {kernel : Signo → Sigaction} {ok : State → Action → Prop}
    {s : State} (hr : Run (step p) ok (State.initial kernel) s) : ∃ L, Inv p s L := by
  refine hr.invariant (I := fun s => ∃ L, Inv p s L) ⟨_, inv_initial p kernel⟩ ?_
  rintro s a s' ⟨L, hi⟩ - hs
  obtain ⟨L', hi', _⟩ := hi.step hs
  exact ⟨L', hi'⟩

end Wg14Signals
