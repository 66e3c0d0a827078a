import Wg14Signals.Proofs.Failures

namespace Wg14Signals
open Lib

/-- A step of `signal_decider_destroy` that gives back a node's last reference, and
so frees it, has searched every unfreed container the node is linked in. It looks
at the mapped container only, so this fails for a node in one that is unmapped
but still held by a raise. -/
def SearchedAll (s : State) (act : Action) : Prop :=
  ∀ n searched, s.drops act = some (n, searched) → LastRef s.g n →
    ∀ c, LinkedIn s.g c n → searched = some c

section

variable {p : Platform} {s s' : State} {act : Action} {L L' : Layout}

theorem Inv.linkedIn_iff (hi : Inv p s L) (hs : Safe s.g L) (c n : Addr) :
    LinkedIn s.g c n ↔ n ∈ L c .global := by
  constructor
  · rintro ⟨k, hc, hr⟩
    have hl := hi.wf.lists c k .global hc
    rw [show k.globalHandler.front = (L c .global).head? from hl.front] at hr
    exact hl.seg.reaches hr
  · intro hn
    obtain ⟨k, hc⟩ : ∃ k, s.g.containers c = some k := by
      refine Option.ne_none_iff_exists'.mp fun hd => ?_
      rw [hi.wf.dead c .global hd] at hn
      cases hn
    have hl := hi.wf.lists c k .global hc
    refine ⟨k, hc, ?_⟩
    rw [show k.globalHandler.front = (L c .global).head? from hl.front]
    exact hl.seg.reached (hs c) hn

/-- Only a destroy can leave a freed node on a list. -/
theorem Inv.safe_step (hi : Inv p s L) (hs : Safe s.g L) (hok : SearchedAll s act)
    (hx : Shift p s act s' L L') : Safe s'.g L' := by
  cases hx with
  | keeps he hm hp hh => exact fun c => he.allLive (hs c) (by simp)
  | joins x item first hj ha hp hh => exact fun c => hj.allLive (hs c)
  | drops x searched hd ho hx hsearch hp hh =>
    refine fun c => hx.evolves.allLive (hs c) fun n hn hfree hc => ?_
    cases hn
    have hlast := hx.frees.mp hfree
    have hin : LinkedIn s.g c x.node :=
      (hi.linkedIn_iff hs c x.node).mpr ((hx.evolves.shrinks c).subset hc)
    exact hsearch c (hok x.node searched hd hlast c hin) hlast hc
  | enters x signo hm hf he hg hp hh => exact fun c => he.allLive (hs c) (by simp)
  | walks x next hx hn he hg hp hh => exact fun c => he.allLive (hs c) (by simp)

end

theorem safe_run {p : Platform} {kernel : Signo → Sigaction} {ok : State → Action → Prop}
    {s : State} (hok : ∀ s act, ok s act → SearchedAll s act)
    (hr : Run (step p) ok (State.initial kernel) s) : ∃ L, Inv p s L ∧ Safe s.g L := by
  refine hr.invariant (I := fun s => ∃ L, Inv p s L ∧ Safe s.g L)
    ⟨_, inv_initial p kernel, fun c n hn => by cases hn⟩ ?_
  rintro s act s' ⟨L, hi, hs⟩ ha hstep
  obtain ⟨L', hi', hx, _⟩ := hi.step hstep
  exact ⟨L', hi', hi.safe_step hs (hok s act ha) hx⟩

/-- While no destroy frees a node behind the back of an unmapped container, every
node that can be reached is live, in either list and by any raise, and no step of
the library touches a freed one or frees one twice. -/
theorem no_use_after_free (p : Platform) (kernel : Signo → Sigaction) {s : State}
    (hr : Run (step p) SearchedAll (State.initial kernel) s) :
    (∀ c k n, s.g.containers c = some k →
      DList.Reaches s.g.nodes k.globalHandler.front n ∨
        DList.Reaches s.g.nodes k.deferredFrees.front n → ∃ nd, s.g.nodes n = some nd) ∧
    (∀ x ∈ s.holds, ∃ nd, s.g.nodes x.node = some nd) ∧
    ∀ act e, step p s act = .error e → e = .disabled := by
  obtain ⟨L, hi, hs⟩ := safe_run (fun _ _ h => h) hr
  refine ⟨?_, ?_, ?_⟩
  · rintro c k n hc (hn | hn)
    · exact hs c n ((hi.linkedIn_iff hs c n).mp ⟨k, hc, hn⟩)
    · have hl := hi.wf.lists c k .deferred hc
      rw [show k.deferredFrees.front = (L c .deferred).head? from hl.front] at hn
      obtain ⟨nd, hnd, _⟩ := hi.wf.retired c n (hl.seg.reaches hn)
      exact ⟨nd, hnd⟩
  · exact fun x hx => hi.wf.pinned _ (List.mem_map_of_mem hx)
  · intro act e he
    rcases step_fails (p := p) he with hd | hf
    · exact hd
    · exact absurd hf (hi.safe (tidy_run hr) (fun _ c _ => hs c) fun x _ => hs x.item)

theorem no_use_after_free_destroyed :
    ∃ s, Run (step .tiny) SearchedAll (State.initial fun _ => .dfl) s ∧
      s.g.nextNode = 1 ∧ s.g.nodes 0 = none ∧
      ∀ act e, step .tiny s act = .error e → e = .disabled := by
  -- everything up to the step that frees the only node
  obtain ⟨s, hr, hq⟩ := run_of_ends (f := step .tiny) (r := SearchedAll)
    (s := State.initial fun _ => .dfl) (c := fun s act => (s.drops act).isNone)
    (q := fun s => s.g.nextContainer == 1 && s.drops (.advance 0 {}) == some (0, some 0) &&
      okAnd (step .tiny s (.advance 0 {})) fun s' => s'.g.nextNode == 1 && (s'.g.nodes 0).isNone)
    (l := installOne ++ registerOne ++ [.destroy 0 1])
    (fun s act h n searched hd => by simp [hd] at h) (by decide)
  simp only [Bool.and_eq_true, beq_iff_eq, okAnd_iff, Option.isNone_iff_eq_none] at hq
  obtain ⟨⟨hc, hd⟩, s', hs', hnext, hfree⟩ := hq
  have hok : SearchedAll s (.advance 0 {}) := by
    intro n searched hn _ c hlink
    obtain ⟨L, hi⟩ := inv_run hr
    obtain ⟨k, hk, _⟩ := hlink
    have hlt : c < s.g.nextContainer := Nat.lt_of_not_le fun hle => by
      rw [hi.wf.containerFresh c hle] at hk
      cases hk
    rw [hc] at hlt
    rw [hd] at hn
    rw [Nat.lt_one_iff.mp hlt]
    exact (Prod.mk.inj (Option.some.inj hn)).2.symm
  have hr' := Run.tail _ hr hok hs'
  exact ⟨s', hr', hnext, hfree, (no_use_after_free .tiny _ hr').2.2⟩

/-- Without the condition: two deciders on one signal, a raise inside the first, and
an uninstall. Destroying the second handle then frees a node that the raise's
container still links, and the raise walks into it. -/
theorem destroy_frees_linked_node :
    ∃ s, Run (step .tiny) (fun _ _ => True) (State.initial fun _ => .dfl) s ∧
      (∃ c k n, s.g.containers c = some k ∧ DList.Reaches s.g.nodes k.globalHandler.front n ∧
        s.g.nodes n = none) ∧
      step .tiny s (.decide 1 .nextDecider) = .error (.node (some 1)) := by
  obtain ⟨s, hr, hq⟩ := run_of_ends (f := step .tiny) (r := fun _ _ => True)
    (s := State.initial fun _ => .dfl) (c := fun _ _ => true)
    (q := fun s => ((s.g.containers 0).any fun k => k.globalHandler.front == some 0) &&
      ((s.g.nodes 0).any fun nd => nd.links.next == some 1) && (s.g.nodes 1).isNone &&
      failsWith (step .tiny s (.decide 1 .nextDecider)) (.node (some 1)))
    (l := installOne ++ registerOne ++ registerOne ++ [.raise 1 1, .advance 1 {},
      .siguninstall 0 0, .advance 0 {}, .advance 0 {}, .destroy 0 2, .advance 0 {}, .advance 0 {}])
    (fun _ _ _ => trivial) (by decide)
  simp only [Bool.and_eq_true, Option.isNone_iff_eq_none, Option.any_eq_true, beq_iff_eq,
    failsWith_iff] at hq
  obtain ⟨⟨⟨⟨k, hk, hfront⟩, nd, hn, hnext⟩, hfree⟩, hstep⟩ := hq
  refine ⟨s, hr, ⟨0, k, 1, hk, ?_, hfree⟩, hstep⟩
  rw [hfront]
  refine .next hn ?_
  rw [show (Linked.links nd).next = some 1 from hnext]
  exact .here 1

end Wg14Signals
