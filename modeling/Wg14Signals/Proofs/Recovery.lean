import Wg14Signals.Proofs.Refcounts
import Wg14Signals.Proofs.Mapped
import Wg14Signals.Proofs.Dispositions

namespace Wg14Signals
open Lib

section

variable {p : Platform} {s s' : State} {L : Layout} {g g' : Global} {c : Addr} {k : Container}

/-- No thread is inside `stdc_raise`. -/
def NoRaises (s : State) : Prop := ∀ a ∈ s.acts, ∀ r, a.call ≠ .raise r

theorem NoRaises.inside (hq : NoRaises s) : s.inside = [] := by
  refine List.flatMap_eq_nil_iff.mpr fun a ha => ?_
  unfold Act.holds
  split
  · rename_i r hc
    exact absurd hc (hq a ha r)
  · rfl

/-- The last uninstall frees the container if the map had its only reference. -/
theorem uninstall_frees {signo : Signo} (hm : g.map signo = some c) (hc : g.containers c = some k)
    (hlast : k.installCount = 1) (hone : k.lifetimeRefcount = 1)
    (hr : uninstallSighandler g signo = .ok g') : g'.containers c = none := by
  simp only [uninstallSighandler, hm] at hr
  obtain ⟨k', hk, hr⟩ := bind_ok.mp hr
  obtain ⟨_, he, hc'⟩ := Heap.read_ok.mp hk
  cases he
  rw [hc] at hc'
  cases hc'
  obtain ⟨g₁, hf, hr⟩ := bind_ok.mp hr
  rw [if_pos (show k.installCount - 1 = 0 by omega)] at hr
  let k₁ : Container := { k with deferredFrees := {}, installCount := k.installCount - 1 }
  refine release_frees (k := k₁) ?_ hone hr
  exact setContainer_self g₁ c k₁

/-- The handle's reference is the only one left, so giving it back frees the node. -/
theorem Inv.drop_frees (hi : Inv p s L) (hh : s.holds = []) {x : Slot} (hx : x ∈ s.pending p) :
    LastRef s.g x.node := by
  obtain ⟨nd, hn, _⟩ := hi.wf.owned x hx
  refine ⟨nd, hn, ?_⟩
  have hcount := hi.wf.refcount x.node nd hn
  have hle := List.nodup_iff_count.mp hi.wf.distinct x.node
  have hpos := List.count_pos_iff.mpr (List.mem_map_of_mem (f := Slot.node) hx)
  simp only [hh, List.map_nil, List.count_nil] at hcount
  omega

/-- With no reference left behind by a raise, a destroy frees the node it visits. -/
theorem Inv.destroy_frees (hi : Inv p s L) (hh : s.holds = []) (hs : MapSafe s L) {t : Tid}
    {env : InstallEnv} {n : Addr} {searched : Option Addr}
    (hd : s.drops (.advance t env) = some (n, searched)) :
    ∃ s', Wg14Signals.step p s (.advance t env) = .ok s' ∧ s'.g.nodes n = none := by
  obtain ⟨a, handle, guarded, retp, signo, todo, unlocked, ht, hc, hg, hwhich⟩ := drops_cases hd
  have hpend := destroy_pending (p := p) (top_mem ht) hc hg
  have hlast := hi.drop_frees hh hpend
  obtain ⟨rest, hp⟩ := perm_of_mem hpend
  have hw := hi.wf.perm hp (List.Perm.refl _) (List.Perm.refl _)
  rcases hwhich with ⟨rfl, _⟩ | ⟨rfl, item, hm, _⟩
  · obtain ⟨g', hr⟩ := hw.destroyUnlocked_run
    let call := Call.destroy handle guarded retp todo false
    refine ⟨{ s with g := g', acts := a.goto call :: s.others t }, ?_,
      (hw.destroyUnlocked hr).2.frees.mpr hlast⟩
    simp only [Wg14Signals.step, ht, callSection, hc, destroySection, hg, ↓reduceIte, hr, bind,
      Except.bind]
    rfl
  · obtain ⟨⟨slot, g'⟩, hr⟩ := hw.destroyLocked_some_run (hs.live signo)
    obtain ⟨_, L', _, hx, _⟩ := hw.destroyLocked_some hm hr
    let call := Call.destroy handle guarded (slot :: retp) (signo :: todo) true
    refine ⟨{ s with g := g', acts := a.goto call :: s.others t }, ?_, hx.frees.mpr hlast⟩
    simp only [Wg14Signals.step, ht, callSection, hc, destroySection, hg, Bool.false_eq_true,
      ↓reduceIte, hr, bind, Except.bind]
    rfl

end

/-- While no recovery discards a raise that is inside a global decider, nothing is left
behind: once no raise is in progress, every mapped container and every registered
node has its one reference, and giving that back frees it. -/
theorem recovery_releases (p : Platform) (kernel : Signo → Sigaction) {s : State}
    (hr : Run (step p) KeepsRaises (State.initial kernel) s) (hq : NoRaises s) :
    (∀ signo c k, s.g.map signo = some c → s.g.containers c = some k → k.lifetimeRefcount = 1) ∧
    (∀ n nd, s.g.nodes n = some nd → nd.owner ∈ s.intact → nd.refcount = 1) ∧
    (∀ t env n searched, s.drops (.advance t env) = some (n, searched) →
      ∃ s', step p s (.advance t env) = .ok s' ∧ s'.g.nodes n = none) ∧
    ∀ t env a signo todo c k, s.top t = some a → a.call = .siguninstall (signo :: todo) →
      s.g.map signo = some c → s.g.containers c = some k → k.installCount = 1 →
      ∃ s', step p s (.advance t env) = .ok s' ∧ s'.g.containers c = none := by
  obtain ⟨L, hi, hs⟩ := mapSafe_run hr
  have hh : s.holds = [] := (inside_run (fun _ _ h => h) hr).trans hq.inside
  have hone : ∀ signo c k, s.g.map signo = some c → s.g.containers c = some k →
      k.lifetimeRefcount = 1 := by
    intro signo c k hm hc
    rw [hi.wf.lifetime c k hc, hh, mapRefs, if_pos ⟨signo, hm⟩]
    rfl
  refine ⟨hone, ?_, fun t env n searched => hi.destroy_frees hh hs, ?_⟩
  · intro n nd hn ho
    have hcount := hi.wf.refcount n nd hn
    rw [hh] at hcount
    have href := (handleRefs_spec hi (accounted_run hr) hn).2.1 ho
    simp only [State.handleRefs] at href
    simp [hcount, href]
  · intro t env a signo todo c k ht hc hm hk hlast
    obtain ⟨g', hu⟩ := hi.wf.uninstall_run (hs.live signo)
    refine ⟨{ s with g := g', acts := a.goto (.siguninstall todo) :: s.others t }, ?_,
      uninstall_frees hm hk hlast (hone signo c k hm hk) hu⟩
    simp only [step, ht, callSection, hc, hu, bind, Except.bind]
    rfl

/-- The set of signal 2 alone. -/
def onlyTwo : SigSet := fun n => n == 2

/-- Thread 0 guards signal 2, raises signal 1 and raises signal 2 from inside the
global decider, where the guard recovers. -/
def recoverNested (inDecider : List Action) : List Action :=
  [.sigguarded 0 onlyTwo true, .raise 0 1, .advance 0 {}] ++ inDecider ++
    [.raise 0 2, .decide 0 .callRecovery]

theorem recovery_releases_abandoned :
    ∃ s k, Run (step .tiny) KeepsRaises (State.initial fun _ => .dfl) s ∧ s.lost.length = 3 ∧
      s.g.containers 0 = some k ∧ k.lifetimeRefcount = 1 := by
  obtain ⟨s, hr, hq⟩ := run_of_ends (f := step .tiny) (r := KeepsRaises)
    (s := State.initial fun _ => .dfl)
    (c := fun s act => (s.discards act).all fun a => a.holds.isEmpty)
    (q := fun s => s.acts.isEmpty && s.lost.length == 3 && s.g.map 1 == some 0 &&
      (s.g.containers 0).isSome)
    (l := installOne ++ registerOne ++ recoverNested [.abandon 0])
    (fun s act h a ha => List.isEmpty_iff.mp (List.all_eq_true.mp h a ha)) (by decide)
  simp only [Bool.and_eq_true, List.isEmpty_iff, beq_iff_eq, Option.isSome_iff_exists] at hq
  obtain ⟨⟨⟨ha, hl⟩, hm⟩, k, hk⟩ := hq
  have hidle : NoRaises s := by simp [NoRaises, ha]
  exact ⟨s, k, hr, hl, hk, (recovery_releases .tiny _ hr hidle).1 1 0 k hm hk⟩

/-- Without the condition: the recovery leaves the outer raise's references behind,
and destroying the handle and uninstalling the signal free neither. -/
theorem recovery_leaks :
    ∃ s, Run (step .tiny) (fun _ _ => True) (State.initial fun _ => .dfl) s ∧ s.acts = [] ∧
      s.g.map 1 = some 0 ∧ (∃ k, s.g.containers 0 = some k ∧ k.lifetimeRefcount = 2) ∧
      (∃ nd, s.g.nodes 0 = some nd ∧ nd.owner ∈ s.intact ∧ nd.refcount = 2) ∧
      ∃ s', Run (step .tiny) (fun _ _ => True) s s' ∧ s'.acts = [] ∧ s'.handles = [] ∧
        s'.g.map 1 = none ∧ (∃ k, s'.g.containers 0 = some k) ∧ ∃ nd, s'.g.nodes 0 = some nd := by
  obtain ⟨s, hr, hq⟩ := run_of_ends (f := step .tiny) (r := fun _ _ => True)
    (s := State.initial fun _ => .dfl) (c := fun _ _ => true)
    (q := fun s => s.acts.isEmpty && s.g.map 1 == some 0 &&
      ((s.g.containers 0).any fun k => k.lifetimeRefcount == 2) &&
      ((s.g.nodes 0).any fun nd => decide (nd.owner ∈ s.intact) && nd.refcount == 2) &&
      ends (step .tiny) (fun _ _ => true) (fun s' => s'.acts.isEmpty && s'.handles.isEmpty &&
          (s'.g.map 1).isNone && (s'.g.containers 0).isSome && (s'.g.nodes 0).isSome)
        s ([.destroy 0 1] ++ List.replicate 5 (.advance 0 {}) ++ [.siguninstall 0 0, .advance 0 {},
          .advance 0 {}]))
    (l := installOne ++ registerOne ++ recoverNested []) (fun _ _ _ => trivial) (by decide)
  simp only [Bool.and_eq_true, List.isEmpty_iff, beq_iff_eq, Option.any_eq_true,
    decide_eq_true_eq] at hq
  obtain ⟨⟨⟨⟨ha, hm⟩, k, hk, hcount⟩, nd, hn, hown, hpin⟩, hlater⟩ := hq
  obtain ⟨s', hr', hq'⟩ := run_of_ends (r := fun _ _ => True) (fun _ _ _ => trivial) hlater
  simp only [Bool.and_eq_true, List.isEmpty_iff, Option.isNone_iff_eq_none,
    Option.isSome_iff_exists] at hq'
  obtain ⟨⟨⟨⟨ha', hh'⟩, hm'⟩, hk'⟩, hn'⟩ := hq'
  exact ⟨s, hr, ha, hm, ⟨k, hk, hcount⟩, ⟨nd, hn, hown, hpin⟩, s', hr', ha', hh', hm', hk', hn'⟩

end Wg14Signals
