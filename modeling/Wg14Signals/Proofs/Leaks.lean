import Wg14Signals.Proofs.Installing

namespace Wg14Signals
open Lib

/-- Every container still allocated has a reference. -/
def Lively (g : Global) : Prop := ∀ c k, g.containers c = some k → 0 < k.lifetimeRefcount

namespace Lively

variable {g g' : Global} {c n : Addr} {k : Container} {signo : Signo}

theorem congr (h : Lively g) (hc : g'.containers = g.containers) : Lively g' := by
  intro c k hk
  exact h c k (hc ▸ hk)

theorem setContainer (h : Lively g) (c : Addr) (hk : 0 < k.lifetimeRefcount) :
    Lively (g.setContainer c k) := by
  intro d kd hd
  by_cases he : d = c
  · subst he
    rw [setContainer_self] at hd
    cases hd
    exact hk
  · rw [setContainer_other _ _ he] at hd
    exact h d kd hd

theorem freeDeferred (h : Lively g) (hf : Wg14Signals.freeDeferred g k = .ok g') : Lively g' := by
  obtain ⟨⟨nodes, _⟩, _, hf⟩ := bind_ok.mp hf
  simp only [pure_ok] at hf
  exact h.congr (hf ▸ rfl)

/-- Whoever drops the last reference on a container frees it. -/
theorem release (h : Lively g) (hr : sighandlerInfoRelease g c = .ok g') : Lively g' := by
  obtain ⟨k, hk, hr⟩ := bind_ok.mp hr
  have hpos := h c k (readContainer_ok hk)
  split at hr
  · obtain ⟨g₁, hf, hr⟩ := bind_ok.mp hr
    obtain ⟨g₂, hd, hr⟩ := bind_ok.mp hr
    obtain ⟨containers', hfree, hr⟩ := bind_ok.mp hr
    obtain ⟨⟨_, _⟩, _, hd⟩ := bind_ok.mp hd
    obtain ⟨_, rfl⟩ := Heap.free_ok.mp hfree
    simp only [pure_ok] at hd hr
    subst hd hr
    intro d kd hkd
    by_cases he : d = c
    · simp [he] at hkd
    · exact h.freeDeferred hf d kd ((Heap.set_other _ _ he).symm.trans hkd)
  · simp only [pure_ok] at hr
    subst hr
    refine h.setContainer c ?_
    simp only
    omega

theorem dropEntry (h : Lively g) (hr : Wg14Signals.dropEntry g signo c k = .ok g') : Lively g' :=
  release (g := (g.setKernel signo k.oldHandler).setMap signo none) (h.congr rfl) hr

theorem countInstall (h : Lively g) {env : InstallEnv} {ok : Bool}
    (hr : Wg14Signals.countInstall g signo c env = .ok (ok, g')) : Lively g' := by
  obtain ⟨k, hk, hr⟩ := bind_ok.mp hr
  split at hr
  · split at hr
    · obtain ⟨g₁, hd, hr⟩ := bind_ok.mp hr
      simp only [pure_ok, Prod.mk.injEq] at hr
      exact hr.2 ▸ h.dropEntry hd
    · simp only [pure_ok, Prod.mk.injEq] at hr
      exact hr.2 ▸ h
  · simp only [pure_ok, Prod.mk.injEq] at hr
    rw [← hr.2]
    exact (h.setContainer c (k := { k with installCount := k.installCount + 1 })
      (h c k (readContainer_ok hk))).congr rfl

theorem install (h : Lively g) {env : InstallEnv} {ok : Bool}
    (hr : installSighandler g signo env = .ok (ok, g')) : Lively g' := by
  unfold installSighandler at hr
  split at hr
  · exact h.countInstall hr
  · split at hr
    · simp only [pure_ok, Prod.mk.injEq] at hr
      exact hr.2 ▸ h
    · split at hr
      · simp only [pure_ok, Prod.mk.injEq] at hr
        exact h.congr (hr.2 ▸ rfl)
      · refine countInstall (g := newSighandlerInfo g signo) ?_ hr
        exact (h.setContainer (k := { lifetimeRefcount := 1, oldHandler := g.kernel signo })
          g.nextContainer Int.one_pos).congr rfl

theorem uninstall (h : Lively g) (hr : uninstallSighandler g signo = .ok g') : Lively g' := by
  unfold uninstallSighandler at hr
  split at hr
  · simp only [pure_ok] at hr
    exact hr ▸ h
  · rename_i item _
    obtain ⟨k, hk, hr⟩ := bind_ok.mp hr
    obtain ⟨g₁, hf, hr⟩ := bind_ok.mp hr
    let k₁ : Container := { k with deferredFrees := {}, installCount := k.installCount - 1 }
    have h₁ : Lively { g₁.setContainer item k₁ with sighandlersCount := g₁.sighandlersCount - 1 } :=
      ((h.freeDeferred hf).setContainer item (k := k₁) (h item k (readContainer_ok hk))).congr rfl
    simp only at hr
    split at hr
    · exact h₁.dropEntry hr
    · simp only [pure_ok] at hr
      exact hr ▸ h₁

theorem create (h : Lively g) {args : CreateArgs} {calloc : Bool} {r : Created}
    (hr : createNode g signo args calloc = .ok (r, g')) : Lively g' := by
  unfold createNode at hr
  split at hr
  · simp only [pure_ok, Prod.mk.injEq] at hr
    exact hr.2 ▸ h
  · rename_i item _
    split at hr
    · simp only [pure_ok, Prod.mk.injEq] at hr
      exact hr.2 ▸ h
    · obtain ⟨k, hk, hr⟩ := bind_ok.mp hr
      obtain ⟨⟨nodes, ends⟩, _, hr⟩ := bind_ok.mp hr
      simp only [pure_ok, Prod.mk.injEq] at hr
      rw [← hr.2]
      exact (h.congr rfl).setContainer item (h item k (readContainer_ok hk))

theorem retire (h : Lively g) (hk : 0 < k.lifetimeRefcount) (hr : retireNode g c k n = .ok g') :
    Lively g' := by
  obtain ⟨linked, _, hr⟩ := bind_ok.mp hr
  obtain ⟨⟨nodes₁, ends⟩, _, hr⟩ := bind_ok.mp hr
  obtain ⟨nodes₂, _, hr⟩ := bind_ok.mp hr
  simp only [pure_ok] at hr
  subst hr
  exact (h.congr rfl).setContainer c hk

theorem destroyLocked (h : Lively g) {slot slot' : Option Addr}
    (hr : Wg14Signals.destroyLocked g signo slot = .ok (slot', g')) : Lively g' := by
  unfold Wg14Signals.destroyLocked at hr
  split at hr
  · simp only [pure_ok, Prod.mk.injEq] at hr
    exact hr.2 ▸ h
  · rename_i item _
    obtain ⟨k, hk, hr⟩ := bind_ok.mp hr
    have hpos := h item k (readContainer_ok hk)
    obtain ⟨g₁, hf, hr⟩ := bind_ok.mp hr
    have h₁ := (h.freeDeferred hf).setContainer item (k := { k with deferredFrees := {} }) hpos
    cases slot with
    | none =>
      simp only [pure_ok, Prod.mk.injEq] at hr
      exact hr.2 ▸ h₁
    | some m =>
      obtain ⟨nd, _, hr⟩ := bind_ok.mp hr
      simp only at hr
      split at hr
      · obtain ⟨g₂, hret, hr⟩ := bind_ok.mp hr
        simp only [pure_ok, Prod.mk.injEq] at hr
        rw [← hr.2]
        refine retire ?_ ?_ hret
        · exact h₁.congr rfl
        · exact hpos
      · simp only [pure_ok, Prod.mk.injEq] at hr
        rw [← hr.2]
        exact h₁.congr rfl

theorem destroyUnlocked (h : Lively g) {slot : Option Addr}
    (hr : Wg14Signals.destroyUnlocked g slot = .ok g') : Lively g' := by
  unfold Wg14Signals.destroyUnlocked at hr
  split at hr
  · simp only [pure_ok] at hr
    exact hr ▸ h
  · obtain ⟨nd, _, hr⟩ := bind_ok.mp hr
    simp only at hr
    split at hr
    · obtain ⟨nodes, _, hr⟩ := bind_ok.mp hr
      simp only [pure_ok] at hr
      exact h.congr (hr ▸ rfl)
    · simp only [pure_ok] at hr
      exact h.congr (hr ▸ rfl)

theorem pinNode (h : Lively g) {value : Int} (hr : Wg14Signals.pinNode g n = .ok (value, g')) :
    Lively g' := by
  obtain ⟨nd, _, hr⟩ := bind_ok.mp hr
  simp only [pure_ok, Prod.mk.injEq] at hr
  exact h.congr (hr.2 ▸ rfl)

theorem raiseEnter (h : Lively g) {e : Entered}
    (hr : Wg14Signals.raiseEnter g signo = .ok (e, g')) : Lively g' := by
  unfold Wg14Signals.raiseEnter at hr
  split at hr
  · simp only [pure_ok, Prod.mk.injEq] at hr
    exact hr.2 ▸ h
  · rename_i item _
    obtain ⟨k, hk, hr⟩ := bind_ok.mp hr
    have hpos := h item k (readContainer_ok hk)
    have h₁ := h.setContainer item (k := { k with lifetimeRefcount := k.lifetimeRefcount + 1 })
      (Int.lt_add_one_of_le (Int.le_of_lt hpos))
    simp only at hr
    split at hr
    · obtain ⟨⟨value, g₁⟩, hp, hr⟩ := bind_ok.mp hr
      simp only [pure_ok, Prod.mk.injEq] at hr
      exact hr.2 ▸ h₁.pinNode hp
    · obtain ⟨g₁, hrel, hr⟩ := bind_ok.mp hr
      simp only [pure_ok, Prod.mk.injEq] at hr
      exact hr.2 ▸ h₁.release hrel

theorem unpinNode (h : Lively g) {next : Option Addr}
    (hr : Wg14Signals.unpinNode g c n = .ok (next, g')) : Lively g' := by
  obtain ⟨nd, _, hr⟩ := bind_ok.mp hr
  simp only at hr
  split at hr
  · obtain ⟨k, hk, hr⟩ := bind_ok.mp hr
    obtain ⟨⟨nodes₁, _⟩, _, hr⟩ := bind_ok.mp hr
    obtain ⟨⟨nodes₂, _⟩, _, hr⟩ := bind_ok.mp hr
    simp only [pure_ok, Prod.mk.injEq] at hr
    rw [← hr.2]
    exact (h.congr rfl).setContainer c (h c k (readContainer_ok hk))
  · simp only [pure_ok, Prod.mk.injEq] at hr
    exact h.congr (hr.2 ▸ rfl)

theorem raiseLeave (h : Lively g) {claimed : Bool} {l : Left}
    (hr : Wg14Signals.raiseLeave g c n claimed = .ok (l, g')) : Lively g' := by
  obtain ⟨⟨next, g₁⟩, hu, hr⟩ := bind_ok.mp hr
  have h₁ := h.unpinNode hu
  simp only at hr
  split at hr
  · obtain ⟨g₂, hrel, hr⟩ := bind_ok.mp hr
    simp only [pure_ok, Prod.mk.injEq] at hr
    exact hr.2 ▸ h₁.release hrel
  · split at hr
    · obtain ⟨⟨value, g₂⟩, hp, hr⟩ := bind_ok.mp hr
      simp only [pure_ok, Prod.mk.injEq] at hr
      exact hr.2 ▸ h₁.pinNode hp
    · obtain ⟨g₂, hrel, hr⟩ := bind_ok.mp hr
      simp only [pure_ok, Prod.mk.injEq] at hr
      exact hr.2 ▸ h₁.release hrel

/-- Abandonment frees nothing, so the reference it drops must not be the last. -/
theorem abandon (h : Lively g) (hr : sigdeciderAbandon g c n = .ok g')
    (hc : g.containers c = some k) (hk : 1 < k.lifetimeRefcount) : Lively g' := by
  obtain ⟨k', hk', hr⟩ := bind_ok.mp hr
  obtain ⟨nd, _, hr⟩ := bind_ok.mp hr
  cases hc.symm.trans (readContainer_ok hk')
  simp only [pure_ok] at hr
  subst hr
  refine congr (g := g.setContainer c { k with lifetimeRefcount := k.lifetimeRefcount - 1 }) ?_ rfl
  refine h.setContainer c ?_
  simp only
  omega

end Lively

/-- A decider is abandoned only while others have references on its container and on its
node, and a recovery jump discards no call that has something to give back. -/
structure Thrifty (p : Platform) (s : State) (act : Action) : Prop where
  abandons : ∀ x ∈ s.abandons act, ∃ k nd, s.g.containers x.item = some k ∧
    1 < k.lifetimeRefcount ∧ s.g.nodes x.node = some nd ∧ 1 < nd.refcount
  discards : ∀ a ∈ s.discards act, a.holds = [] ∧ a.slots p = [] ∧ a.installed = []

/-- Whatever is allocated has a reference or is retired, and every reference is one that
somebody can still give back. -/
structure Clean (p : Platform) (s : State) (L : Layout) : Prop where
  lively : Lively s.g
  retired : ∀ n nd, s.g.nodes n = some nd → nd.refcount = 0 → ∃ c, n ∈ L c .deferred
  lost : ∀ a ∈ s.lost, a.holds = [] ∧ a.slots p = []

section

variable {p : Platform} {s s' : State} {act : Action} {L L' : Layout}

theorem lively_step (h : Lively s.g) (hk : Thrifty p s act) (he : Effect p s act s') :
    Lively s'.g := by
  cases he with
  | quiet hg hp hh => exact h.congr (hg ▸ rfl)
  | install signo env ok op hp hh => exact h.install op
  | uninstall signo op hp hh => exact h.uninstall op
  | create signo args calloc i ha op hp hh => exact h.create op
  | flush signo slot op hp hh => exact h.destroyLocked op
  | locked x item slot hd hm ho op hp hh => exact h.destroyLocked op
  | unlocked x hd ho op hp hh => exact h.destroyUnlocked op
  | enter signo raise item current value sa op hp hh => exact h.raiseEnter op
  | pass signo sa op hp hh => exact h.raiseEnter op
  | walk raise item current next value claimed rest op hp hx hu hh hh' => exact h.raiseLeave op
  | leave x claimed r op hr hu hp hh => exact h.raiseLeave op
  | abandon x op hu hp hh =>
    obtain ⟨k, nd, hc, hk, _⟩ := hk.abandons x hu
    exact h.abandon op hc hk

theorem Clean.step (hc : Clean p s L) (hk : Thrifty p s act) (h : step p s act = .ok s')
    (hl : Lasts s act s' L L') : Clean p s' L' := by
  refine ⟨lively_step hc.lively hk (step_effect h), fun n nd' hn' hz => ?_, fun a ha => ?_⟩
  · rcases hl.spent n nd' hn' hz with ⟨nd, hn, hz⟩ | hd | ⟨x, hx, rfl, nd, hn, hone⟩
    · obtain ⟨c, hm⟩ := hc.retired n nd hn hz
      rcases hl.retired c n hm with hd | hg
      · exact hd
      · rw [hg] at hn'
        cases hn'
    · exact hd
    · -- the abandoned node had another reference
      obtain ⟨_, nd', _, _, hn', htwo⟩ := hk.abandons x hx
      rw [hn] at hn'
      cases hn'
      omega
  · rcases lost_cases h with he | he
    · exact hc.lost a (he ▸ ha)
    · rw [he] at ha
      rcases List.mem_append.mp ha with ha | ha
      · exact ⟨(hk.discards a ha).1, (hk.discards a ha).2.1⟩
      · exact hc.lost a ha

theorem clean_run {kernel : Signo → Sigaction}
    (hr : Run (Wg14Signals.step p) (Thrifty p) (State.initial kernel) s) :
    ∃ L, Inv p s L ∧ Clean p s L := by
  refine hr.invariant (I := fun s => ∃ L, Inv p s L ∧ Clean p s L)
    ⟨_, inv_initial p kernel, ?_, ?_, ?_⟩ ?_
  · intro c k hk
    cases hk
  · intro n nd hn
    cases hn
  · intro a ha
    cases ha
  · rintro s act s' ⟨L, hi, hc⟩ hk h
    obtain ⟨L', hi', _, hl⟩ := hi.step h
    exact ⟨L', hi', hc.step hk h hl⟩

end

/-- Every handle has been given back, and no call is in progress but raises that their
deciders have abandoned. -/
structure Quiescent (s : State) : Prop where
  installs : s.installs = []
  handles : s.handles = []
  acts : ∀ a ∈ s.acts, a.abandoned = true

theorem abandoned_call {a : Act} (h : a.abandoned = true) :
    ∃ r pin, a.call = .raise r ∧ r.phase = .deciding pin ∧ pin.abandoned = true := by
  unfold Act.abandoned at h
  split at h
  · rename_i r hc
    split at h
    · rename_i pin hr
      exact ⟨r, pin, hc, hr, h⟩
    · cases h
  · cases h

/-- An abandoned raise has nothing left to give back. -/
theorem abandoned_empty {p : Platform} {a : Act} (h : a.abandoned = true) :
    a.holds = [] ∧ a.slots p = [] ∧ a.installed = [] := by
  obtain ⟨r, pin, hc, hr, hp⟩ := abandoned_call h
  simp [Act.holds, Act.slots, Act.installed, hc, hr, hp]

/-- While no abandonment drops a last reference, nothing is left allocated once everything
has been given back. -/
theorem nothing_leaks (p : Platform) (kernel : Signo → Sigaction) {s : State}
    (hr : Run (step p) (Thrifty p) (State.initial kernel) s) (hq : Quiescent s) :
    (∀ c, s.g.containers c = none) ∧ (∀ n, s.g.nodes n = none) ∧ ∀ signo, s.g.map signo = none := by
  obtain ⟨L, hi, hc⟩ := clean_run hr
  have hcount : Counting p s := counting_run (fun s act h a ha => (h.discards a ha).2.2) hr
  have hempty : ∀ a ∈ s.acts ++ s.lost, a.holds = [] ∧ a.slots p = [] := by
    intro a ha
    rcases List.mem_append.mp ha with ha | ha
    · have h := abandoned_empty (p := p) (hq.acts a ha)
      exact ⟨h.1, h.2.1⟩
    · exact hc.lost a ha
  have hinstalled : s.installed p = [] := by
    rw [State.installed, hq.installs, List.flatMap_nil, List.nil_append]
    exact List.flatMap_eq_nil_iff.mpr fun a ha => (abandoned_empty (p := p) (hq.acts a ha)).2.2
  have hholds : s.holds = [] := List.flatMap_eq_nil_iff.mpr fun a ha => (hempty a ha).1
  have hpend : s.pending p = [] := by
    rw [State.pending, hq.handles, List.flatMap_nil, List.nil_append]
    exact List.flatMap_eq_nil_iff.mpr fun a ha => (hempty a ha).2
  have hmap : ∀ signo, s.g.map signo = none := by
    intro signo
    refine Option.eq_none_iff_forall_ne_some.mpr fun c hm => ?_
    have hmem := (hcount.tallied.mapped signo).mpr ⟨c, hm⟩
    rw [hinstalled] at hmem
    cases hmem
  have hcont : ∀ c, s.g.containers c = none := by
    intro c
    refine Option.eq_none_iff_forall_ne_some.mpr fun k hk => ?_
    have hpos := hc.lively c k hk
    rw [hi.wf.lifetime c k hk, hholds, mapRefs, if_neg (by simp [hmap])] at hpos
    cases hpos
  refine ⟨hcont, fun n => ?_, hmap⟩
  refine Option.eq_none_iff_forall_ne_some.mpr fun nd hn => ?_
  have hz := hi.wf.refcount n nd hn
  rw [hpend, hholds] at hz
  obtain ⟨c, hm⟩ := hc.retired n nd hn hz
  rw [hi.wf.dead c .deferred (hcont c)] at hm
  cases hm

/-- The decider is abandoned while its handle and the install are there. -/
theorem nothing_leaks_abandoned :
    ∃ s, Run (step .tiny) (Thrifty .tiny) (State.initial fun _ => .dfl) s ∧ Quiescent s ∧
      s.g.nextNode = 1 ∧ s.g.nextContainer = 1 ∧ s.g.nodes 0 = none ∧ s.g.containers 0 = none := by
  obtain ⟨s, hr, hq⟩ := run_of_ends (f := step .tiny) (r := Thrifty .tiny)
    (s := State.initial fun _ => .dfl)
    (c := fun s act => (s.discards act).isEmpty && (s.abandons act).all fun x =>
      (s.g.containers x.item).any (fun k => decide (1 < k.lifetimeRefcount)) &&
        (s.g.nodes x.node).any fun nd => decide (1 < nd.refcount))
    (q := fun s => s.installs.isEmpty && s.handles.isEmpty && s.acts.all Act.abandoned &&
      s.g.nextNode == 1 && s.g.nextContainer == 1)
    (l := installOne ++ registerOne ++ enterOne ++ [.abandon 1] ++ giveBackOne)
    (fun s act h => by
      simp only [Bool.and_eq_true, List.isEmpty_iff, List.all_eq_true, Option.any_eq_true,
        decide_eq_true_eq] at h
      refine ⟨fun x hx => ?_, by simp [h.1]⟩
      obtain ⟨⟨k, hk, hl⟩, nd, hn, hc⟩ := h.2 x hx
      exact ⟨k, nd, hk, hl, hn, hc⟩)
    (by decide)
  simp only [Bool.and_eq_true, List.isEmpty_iff, List.all_eq_true, beq_iff_eq] at hq
  obtain ⟨⟨⟨⟨hi, hh⟩, ha⟩, hn⟩, hc⟩ := hq
  have hquiet : Quiescent s := ⟨hi, hh, ha⟩
  obtain ⟨hcont, hnode, _⟩ := nothing_leaks .tiny (fun _ => .dfl) hr hquiet
  exact ⟨s, hr, hquiet, hn, hc, hnode 0, hcont 0⟩

/-- Without the condition: the handle is destroyed and the signal uninstalled while the raise
is inside the decider, which is then abandoned. Its references were the last, and
both objects stay allocated for good. -/
theorem abandonment_leaks :
    ∃ s, Run (step .tiny) (fun _ _ => True) (State.initial fun _ => .dfl) s ∧ Quiescent s ∧
      s.acts = [] ∧ (∃ k, s.g.containers 0 = some k) ∧ ∃ nd, s.g.nodes 0 = some nd := by
  obtain ⟨s, hr, hq⟩ := run_of_ends (f := step .tiny) (r := fun _ _ => True)
    (s := State.initial fun _ => .dfl) (c := fun _ _ => true)
    (q := fun s => s.installs.isEmpty && s.handles.isEmpty && s.acts.isEmpty &&
      (s.g.containers 0).isSome && (s.g.nodes 0).isSome)
    (l := installOne ++ registerOne ++ enterOne ++ giveBackOne ++ [.abandon 1, .jump 1])
    (fun _ _ _ => trivial) (by decide)
  simp only [Bool.and_eq_true, List.isEmpty_iff, Option.isSome_iff_exists] at hq
  obtain ⟨⟨⟨⟨hi, hh⟩, ha⟩, hk⟩, hn⟩ := hq
  exact ⟨s, hr, ⟨hi, hh, by simp [ha]⟩, ha, hk, hn⟩

end Wg14Signals
