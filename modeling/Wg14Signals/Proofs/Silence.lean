import Wg14Signals.Proofs.Activations
import Wg14Signals.Proofs.Mapped

namespace Wg14Signals
open Lib

/-- A raise may still come to the node in container `c`: the map leads to its list, or
it is linked behind the node whose decider a raise is inside. -/
def Ahead (s : State) (c n : Addr) : Prop :=
  (∃ signo, s.g.map signo = some c) ∧ LinkedIn s.g c n ∨
    ∃ x ∈ s.inside, x.item = c ∧ ∃ nd, s.g.nodes x.node = some nd ∧
      DList.Reaches s.g.nodes nd.links.next n

/-- A step of `signal_decider_destroy` that gives back a reference on a node some raise
may still come to takes the node out of the way: it is the last reference, and
the container is the one the step searches. -/
def Quiet (s : State) (act : Action) : Prop :=
  ∀ n searched, s.drops act = some (n, searched) →
    ∀ c, Ahead s c n → LastRef s.g n ∧ searched = some c

/-- Every node some raise may still come to has its handle's reference. -/
structure Silent (p : Platform) (s : State) (L : Layout) : Prop where
  mapped : ∀ signo c, s.g.map signo = some c → ∀ n ∈ L c .global, ∃ x ∈ s.pending p, x.node = n
  ahead : ∀ x ∈ s.inside, ∀ n, [x.node, n].Sublist (L x.item .global) →
    ∃ x ∈ s.pending p, x.node = n

/-- The part of a sequence behind a member. -/
theorem split_of_pair {m n : Addr} {l : List Addr} (h : [m, n].Sublist l) :
    ∃ a b, l = a ++ m :: b ∧ n ∈ b := by
  obtain ⟨r₁, r₂, rfl, hm, hn⟩ := List.cons_sublist_iff.mp h
  obtain ⟨a, b, rfl⟩ := List.append_of_mem hm
  refine ⟨a, b ++ r₂, by simp, List.mem_append.mpr (Or.inr ?_)⟩
  exact hn.subset List.mem_cons_self

theorem pair_of_split {m n : Addr} {a b : List Addr} (h : n ∈ b) :
    [m, n].Sublist (a ++ m :: b) :=
  (List.Sublist.cons_cons m (List.singleton_sublist.mpr h)).trans (List.sublist_append_right _ _)

/-- What is behind the next member is behind this one. -/
theorem pair_of_next {m next n : Addr} {a b l : List Addr} (hl : l = a ++ m :: next :: b)
    (hd : l.Nodup) (h : [next, n].Sublist l) : [m, n].Sublist l := by
  obtain ⟨a', b', hl', hn⟩ := split_of_pair h
  obtain ⟨_, rfl⟩ := split_unique hd (show l = (a ++ [m]) ++ next :: b by rw [hl]; simp) hl'
  rw [hl]
  exact pair_of_split (List.mem_cons_of_mem _ hn)

section

variable {p : Platform} {s s' : State} {act : Action} {L L' : Layout}

/-- On the lists, `Ahead` is what `Silent` speaks of. -/
theorem Silent.linkedIn (hi : Inv p s L) (hs : Silent p s L) {signo : Signo} {c n : Addr}
    (hm : s.g.map signo = some c) (hn : n ∈ L c .global) : LinkedIn s.g c n := by
  obtain ⟨k, hc⟩ := hi.wf.mapped signo c hm
  have hl := hi.wf.lists c k .global hc
  refine ⟨k, hc, ?_⟩
  rw [show k.globalHandler.front = (L c .global).head? from hl.front]
  refine hl.seg.reached (fun m hmem => ?_) hn
  obtain ⟨y, hy, rfl⟩ := hs.mapped signo c hm m hmem
  obtain ⟨nd, hnd, _⟩ := hi.wf.owned y hy
  exact ⟨nd, hnd⟩

theorem Silent.reaches (hi : Inv p s L) (hs : Silent p s L) {x : Hold} (hx : x ∈ s.inside)
    {n : Addr} (hn : [x.node, n].Sublist (L x.item .global)) :
    ∃ nd, s.g.nodes x.node = some nd ∧ DList.Reaches s.g.nodes nd.links.next n := by
  have hxh := inside_holds hx
  obtain ⟨nd, hnd⟩ := hi.wf.pinned _ (List.mem_map_of_mem hxh)
  obtain ⟨k, hc⟩ := hi.wf.held _ (List.mem_map_of_mem hxh)
  obtain ⟨a, b, hl, hmem⟩ := split_of_pair hn
  have hseg := (hi.wf.lists x.item k .global hc).seg
  rw [hl, DList.seg_append] at hseg
  have hnext : nd.links.next = b.head? := by
    have hlinks := congrArg Links.next (hseg.2.1 nd hnd)
    simp only [Option.or_none] at hlinks
    exact hlinks
  refine ⟨nd, hnd, ?_⟩
  rw [hnext]
  refine hseg.2.2.reached (fun m hm => ?_) hmem
  obtain ⟨y, hy, rfl⟩ := hs.ahead x hx m (by rw [hl]; exact pair_of_split hm)
  obtain ⟨nd', hnd', _⟩ := hi.wf.owned y hy
  exact ⟨nd', hnd'⟩

/-- A step leaves a raise with a node ahead of it only if that was so before. -/
theorem Silent.step (hi : Inv p s L) (hs : Silent p s L) (hn' : Named s') (hq : Quiet s act)
    (h : Wg14Signals.step p s act = .ok s') (hx : Shift p s act s' L L') : Silent p s' L' := by
  have back : ∀ {x}, x ∈ s.holds → x ∈ s'.inside → x ∈ s.inside :=
    fun hx hx' => inside_step hn' h hx hx'
  cases hx with
  | keeps he hm hp hh =>
    constructor
    · intro signo c hmap n hn
      rcases hm signo c hmap with hmap | ⟨_, hnil⟩
      · obtain ⟨y, hy, hyn⟩ := hs.mapped signo c hmap n ((he.shrinks c).subset hn)
        exact ⟨y, hp.mem_iff.mpr hy, hyn⟩
      · rw [hnil] at hn
        cases hn
    · intro x hx n hn
      have hxs := back (hh x (inside_holds hx)) hx
      obtain ⟨y, hy, hyn⟩ := hs.ahead x hxs n (hn.trans (he.shrinks x.item))
      exact ⟨y, hp.mem_iff.mpr hy, hyn⟩
  | joins x item first hj ha hp hh =>
    have new : ∃ y ∈ s'.pending p, y.node = x.node := ⟨x, hp.mem_iff.mpr List.mem_cons_self, rfl⟩
    have old : ∀ {n}, (∃ y ∈ s.pending p, y.node = n) → ∃ y ∈ s'.pending p, y.node = n := by
      intro n h
      obtain ⟨y, hy, hyn⟩ := h
      exact ⟨y, hp.mem_iff.mpr (List.mem_cons_of_mem _ hy), hyn⟩
    constructor
    · intro signo c hmap n hn
      rcases hj.member hn with rfl | hn
      · exact new
      · exact old (hs.mapped signo c (hj.map ▸ hmap) n hn)
    · intro y hy n hn
      have hys := back (hh y (inside_holds hy)) hy
      by_cases hne : n = x.node
      · exact hne ▸ new
      · -- the node that joined is neither of the two
        obtain ⟨nd, hnd⟩ := hi.wf.pinned _ (List.mem_map_of_mem (inside_holds hys))
        have hym : y.node ≠ x.node := fun he => by
          rw [he, hj.unused] at hnd
          cases hnd
        have hfil := hn.filter fun m => decide (m ≠ x.node)
        rw [hj.others] at hfil
        exact old (hs.ahead y hys n (by simpa [hym, hne] using hfil))
  | drops x searched hd ho hx hsearch hp hh =>
    have keep : ∀ {n}, n ≠ x.node → (∃ y ∈ s.pending p, y.node = n) →
        ∃ y ∈ s'.pending p, y.node = n := by
      rintro n hne ⟨y, hy, rfl⟩
      refine ⟨y, (List.mem_cons.mp (hp.mem_iff.mp hy)).resolve_left ?_, rfl⟩
      exact fun he => hne (he ▸ rfl)
    have gone : ∀ {c}, Ahead s c x.node → x.node ∉ L' c .global := by
      intro c ha
      obtain ⟨hlast, rfl⟩ := hq x.node searched hd c ha
      exact hsearch c rfl hlast
    constructor
    · intro signo c hmap n hn
      have hmap' : s.g.map signo = some c := hx.map ▸ hmap
      have hold := (hx.evolves.shrinks c).subset hn
      refine keep ?_ (hs.mapped signo c hmap' n hold)
      rintro rfl
      exact gone (Or.inl ⟨⟨signo, hmap'⟩, hs.linkedIn hi hmap' hold⟩) hn
    · intro y hy n hn
      have hys := back (hh y (inside_holds hy)) hy
      have hold := hn.trans (hx.evolves.shrinks y.item)
      refine keep ?_ (hs.ahead y hys n hold)
      rintro rfl
      exact gone (Or.inr ⟨y, hys, rfl, hs.reaches hi hys hold⟩) (hn.subset (by simp))
  | enters x signo hm hf he hg hp hh =>
    constructor
    · intro signo' c hmap n hn
      obtain ⟨y, hy, hyn⟩ := hs.mapped signo' c (hg ▸ hmap) n ((he.shrinks c).subset hn)
      exact ⟨y, hp.mem_iff.mpr hy, hyn⟩
    · intro z hz n hn
      have hold := hn.trans (he.shrinks z.item)
      have hslot : ∃ y ∈ s.pending p, y.node = n := by
        rcases hh z (inside_holds hz) with rfl | hzs
        · exact hs.mapped signo z.item hm n (hold.subset (by simp))
        · exact hs.ahead z (back hzs hz) n hold
      obtain ⟨y, hy, hyn⟩ := hslot
      exact ⟨y, hp.mem_iff.mpr hy, hyn⟩
  | walks x next hx hn he hg hp hh =>
    constructor
    · intro signo' c hmap n hn
      obtain ⟨y, hy, hyn⟩ := hs.mapped signo' c (hg ▸ hmap) n ((he.shrinks c).subset hn)
      exact ⟨y, hp.mem_iff.mpr hy, hyn⟩
    · intro z hz n hn'
      have hold := hn'.trans (he.shrinks z.item)
      have hslot : ∃ y ∈ s.pending p, y.node = n := by
        rcases hh z (inside_holds hz) with rfl | hzs
        · obtain ⟨a, b, hl⟩ := hn
          obtain ⟨k, hc⟩ := hi.wf.held _ (List.mem_map_of_mem (inside_holds hx))
          have hnodup := (hi.wf.lists x.item k .global hc).nodup
          exact hs.ahead x hx n (pair_of_next hl hnodup hold)
        · exact hs.ahead z (back hzs hz) n hold
      obtain ⟨y, hy, hyn⟩ := hslot
      exact ⟨y, hp.mem_iff.mpr hy, hyn⟩

/-- A raise comes to a new node only while the node has its handle's reference. -/
theorem Silent.newly_inside (hs : Silent p s L) (hn' : Named s') (h : Wg14Signals.step p s act = .ok s')
    (hx : Shift p s act s' L L') {x : Hold} (hx' : x ∈ s'.inside) : x ∈ s.inside ∨ ∃ y ∈ s.pending p, y.node = x.node := by
  have back : x ∈ s.holds → x ∈ s.inside := fun hx => inside_step hn' h hx hx'
  have hxh := inside_holds hx'
  cases hx with
  | keeps he hm hp hh => exact Or.inl (back (hh x hxh))
  | joins y item first hj _ hp hh => exact Or.inl (back (hh x hxh))
  | drops y searched hd ho hx hsearch hp hh => exact Or.inl (back (hh x hxh))
  | enters y signo hm hf he hg hp hh =>
    rcases hh x hxh with rfl | hxs
    · exact Or.inr (hs.mapped signo x.item hm x.node (List.mem_of_head? hf))
    · exact Or.inl (back hxs)
  | walks y next hy hn he hg hp hh =>
    rcases hh x hxh with rfl | hxs
    · obtain ⟨a, b, hl⟩ := hn
      exact Or.inr (hs.ahead y hy next (hl ▸ pair_of_split List.mem_cons_self))
    · exact Or.inl (back hxs)

/-- No step gives a node to another handle. -/
theorem Shift.owner (hx : Shift p s act s' L L') {n : Addr} {nd nd' : Node}
    (hn : s.g.nodes n = some nd) (hn' : s'.g.nodes n = some nd') : nd.owner = nd'.owner := by
  have key : (∃ nd, s.g.nodes n = some nd ∧ nd.owner = nd'.owner) → nd.owner = nd'.owner := by
    rintro ⟨nd₀, hn₀, ho⟩
    rw [hn] at hn₀
    cases hn₀
    exact ho
  cases hx with
  | keeps he hm hp hh => exact key (he.owners n nd' hn')
  | joins x item first hj ha hp hh =>
    have hne : n ≠ x.node := fun he => by
      rw [he, hj.unused] at hn
      cases hn
    have hpay := hj.payload n hne
    rw [hn, hn'] at hpay
    exact owner_of_payload (Option.some.inj hpay)
  | drops x searched hd ho hx hs hp hh => exact key (hx.evolves.owners n nd' hn')
  | enters x signo hm hf he hg hp hh => exact key (he.owners n nd' hn')
  | walks x next hx hnext he hg hp hh => exact key (he.owners n nd' hn')

end

/-- The invariants of a run in which every destroy is quiet. -/
structure Orderly (p : Platform) (s : State) : Prop where
  lists : ∃ L, Inv p s L ∧ Silent p s L
  tidy : Tidy p s
  named : Named s

theorem Orderly.step {p : Platform} {s s' : State} {act : Action} (ho : Orderly p s)
    (hq : Quiet s act) (h : Wg14Signals.step p s act = .ok s') : Orderly p s' := by
  obtain ⟨L, hi, hs⟩ := ho.lists
  obtain ⟨L', hi', hx, _⟩ := hi.step h
  exact ⟨⟨L', hi', hs.step hi (ho.named.step h) hq h hx⟩, ho.tidy.step h, ho.named.step h⟩

theorem orderly_initial (p : Platform) (kernel : Signo → Sigaction) :
    Orderly p (State.initial kernel) :=
  ⟨⟨_, inv_initial p kernel, ⟨by simp [State.initial], by simp [State.inside, State.initial]⟩⟩, tidy_initial p kernel, named_initial kernel⟩

theorem orderly_run {p : Platform} {s s' : State} (ho : Orderly p s)
    (hr : Run (step p) Quiet s s') : Orderly p s' :=
  hr.invariant ho fun _ _ _ ho hq hs => ho.step hq hs

/-- A destroy that has visited every slot returns, and its handle is gone. -/
theorem destroy_returns {p : Platform} {s s' : State} (ht : Tidy p s) {t : Tid}
    {env : InstallEnv} {a : Act} {handle : Nat} {guarded : SigSet} {retp : List (Option Addr)}
    {unlocked : Bool} (htop : s.top t = some a)
    (hc : a.call = .destroy handle guarded retp [] unlocked)
    (h : step p s (.advance t env) = .ok s') : handle < s'.nextId ∧ handle ∉ s'.owners := by
  simp only [step, htop, callSection, hc, destroySection, pure_ok] at h
  subst h
  have hp : s.owners.Perm
      (handle :: ({ s with acts := s.others t } : State).owners) := by
    simpa [Act.owner, hc, State.owners] using
      owners_split (l := [a]) (r := s.others t) (find_perm htop)
  exact ⟨ht.fresh handle (hp.mem_iff.mpr List.mem_cons_self),
    (List.nodup_cons.mp (hp.nodup_iff.mp ht.owners)).1⟩

/-- While every destroy is quiet, a raise that is inside a decider of a handle whose
destroy has returned was inside it already. -/
theorem destroyed_decider_silent (p : Platform) (kernel : Signo → Sigaction) {s₀ s₁ s₂ : State}
    {t : Tid} {env : InstallEnv} {a : Act} {handle : Nat} {guarded : SigSet}
    {retp : List (Option Addr)} {unlocked : Bool}
    (hr₀ : Run (step p) Quiet (State.initial kernel) s₀) (ht : s₀.top t = some a)
    (hc : a.call = .destroy handle guarded retp [] unlocked)
    (hs : step p s₀ (.advance t env) = .ok s₁) (hr : Run (step p) Quiet s₁ s₂) :
    ∀ x ∈ s₂.inside, ∀ nd, s₂.g.nodes x.node = some nd → nd.owner = handle → x ∈ s₁.inside := by
  have ho₀ := orderly_run (orderly_initial p kernel) hr₀
  have hquiet : Quiet s₀ (.advance t env) := by
    intro n searched hd
    simp [State.drops, ht, Act.drops, hc] at hd
  have hall : Orderly p s₂ ∧ (handle < s₂.nextId ∧ handle ∉ s₂.owners) ∧
      ∀ x ∈ s₂.inside, ∀ nd, s₂.g.nodes x.node = some nd → nd.owner = handle → x ∈ s₁.inside := by
    refine hr.invariant (I := fun s => Orderly p s ∧ (handle < s.nextId ∧ handle ∉ s.owners) ∧
      ∀ x ∈ s.inside, ∀ nd, s.g.nodes x.node = some nd → nd.owner = handle → x ∈ s₁.inside)
      ⟨ho₀.step hquiet hs, destroy_returns ho₀.tidy ht hc hs, fun x hx _ _ _ => hx⟩ ?_
    rintro s act s' ⟨ho, hgone, hin⟩ hq h
    refine ⟨ho.step hq h, ho.tidy.gone_step h hgone.1 hgone.2, fun x hx nd' hn' hown => ?_⟩
    obtain ⟨L, hi, hsil⟩ := ho.lists
    obtain ⟨L', _, hshift, _⟩ := hi.step h
    rcases hsil.newly_inside (ho.named.step h) h hshift hx with hold | ⟨y, hy, hyn⟩
    · obtain ⟨nd, hn⟩ := hi.wf.pinned _ (List.mem_map_of_mem (inside_holds hold))
      exact hin x hold nd hn ((hshift.owner hn hn').trans hown)
    · -- the handle would still have a reference
      obtain ⟨nd, hn, hyo⟩ := hi.wf.owned y hy
      rw [hyn] at hn
      rw [← hyo.symm.trans ((hshift.owner hn hn').trans hown)] at hgone
      exact absurd (owner_of_pending hy) hgone.2
  exact hall.2.2

/-- With one container ever made, a step that searches it and frees the node is quiet. -/
theorem quiet_of_single {p : Platform} {s : State} {L : Layout} (hi : Inv p s L)
    (hone : s.g.nextContainer = 1) {act : Action} {n : Addr} {nd : Node}
    (hd : s.drops act = some (n, some 0)) (hn : s.g.nodes n = some nd) (hr : nd.refcount = 1) :
    Quiet s act := by
  intro m searched hm c ha
  rw [hd] at hm
  cases hm
  refine ⟨⟨nd, hn, hr⟩, ?_⟩
  have hlive : ∃ k, s.g.containers c = some k := by
    rcases ha with ⟨⟨signo, hmap⟩, _⟩ | ⟨x, hx, rfl, _⟩
    · exact hi.wf.mapped signo c hmap
    · exact hi.wf.held _ (List.mem_map_of_mem (inside_holds hx))
  obtain ⟨k, hk⟩ := hlive
  have hlt : c < s.g.nextContainer := Nat.lt_of_not_le fun hle => by
    rw [hi.wf.containerFresh c hle] at hk
    cases hk
  rw [hone] at hlt
  rw [Nat.lt_one_iff.mp hlt]

/-- The handle whose destroy has nothing left to visit. -/
def Act.destroyed (a : Act) : Option Nat :=
  match a.call with
  | .destroy handle _ _ [] _ => some handle
  | _ => none

theorem destroyed_call {a : Act} {handle : Nat} (h : a.destroyed = some handle) :
    ∃ guarded retp unlocked, a.call = .destroy handle guarded retp [] unlocked := by
  unfold Act.destroyed at h
  split at h
  · rename_i handle' guarded retp unlocked hc
    cases h
    exact ⟨guarded, retp, unlocked, hc⟩
  · cases h

theorem destroyed_decider_silent_behind :
    ∃ s₀ s₁ s₂, Run (step .tiny) Quiet (State.initial fun _ => .dfl) s₀ ∧
      step .tiny s₀ (.advance 0 {}) = .ok s₁ ∧ Run (step .tiny) Quiet s₁ s₂ ∧
      s₂.inside.length = 2 ∧
      ∀ x ∈ s₂.inside, ∀ nd, s₂.g.nodes x.node = some nd → nd.owner = 2 → x ∈ s₁.inside := by
  -- a raise is inside the first of two deciders when the handle of the second is destroyed
  have quiet : ∀ s act, (s.drops act).isNone = true → Quiet s act := by
    intro s act h n searched hd
    simp [hd] at h
  obtain ⟨s, hr, hq⟩ := run_of_ends (f := step .tiny) (r := Quiet)
    (s := State.initial fun _ => .dfl) (c := fun s act => (s.drops act).isNone)
    (q := fun s => s.g.nextContainer == 1 && s.drops (.advance 0 {}) == some (1, some 0) &&
      ((s.g.nodes 1).any fun nd => nd.refcount == 1) &&
      okAnd (step .tiny s (.advance 0 {})) fun s' =>
        ends (step .tiny) (fun s act => (s.drops act).isNone)
          (fun s₀ => ((s₀.top 0).any fun a => a.destroyed == some 2) &&
            okAnd (step .tiny s₀ (.advance 0 {})) fun s₁ =>
              ends (step .tiny) (fun s act => (s.drops act).isNone)
                (fun s₂ => s₂.inside.length == 2) s₁ [.raise 2 1, .advance 2 {}])
          s' (List.replicate 3 (.advance 0 {})))
    (l := installOne ++ registerOne ++ registerOne ++ [.raise 1 1, .advance 1 {}, .destroy 0 2])
    quiet (by decide)
  simp only [Bool.and_eq_true, beq_iff_eq, Option.any_eq_true, okAnd_iff] at hq
  obtain ⟨⟨⟨hone, hd⟩, nd, hn, hlast⟩, s', hs', hq⟩ := hq
  obtain ⟨L, hi⟩ := inv_run hr
  have hquiet := quiet_of_single hi hone hd hn hlast
  obtain ⟨s₀, hr₀, hq₀⟩ := run_of_ends (r := Quiet) quiet hq
  simp only [Bool.and_eq_true, beq_iff_eq, Option.any_eq_true, okAnd_iff] at hq₀
  obtain ⟨⟨a, ha, htop⟩, s₁, hs₁, hq₀⟩ := hq₀
  obtain ⟨s₂, hr₂, hlen⟩ := run_of_ends (r := Quiet) quiet hq₀
  have hr' := (Run.tail _ hr hquiet hs').trans hr₀
  obtain ⟨guarded, retp, unlocked, hc⟩ := destroyed_call htop
  exact ⟨s₀, s₁, s₂, hr', hs₁, hr₂, beq_iff_eq.mp hlen,
    destroyed_decider_silent .tiny _ hr' ha hc hs₁ hr₂⟩

/-- Without the condition: a raise is inside the decider when its handle is destroyed, the
node stays registered, and a raise that begins after that is given to it. -/
theorem destroyed_decider_called :
    ∃ s₀ s₁ s₂ a guarded retp unlocked,
      Run (step .tiny) (fun _ _ => True) (State.initial fun _ => .dfl) s₀ ∧ s₀.top 0 = some a ∧
      a.call = .destroy 1 guarded retp [] unlocked ∧ step .tiny s₀ (.advance 0 {}) = .ok s₁ ∧
      Run (step .tiny) (fun _ _ => True) s₁ s₂ ∧
      ∃ x ∈ s₂.inside, (∃ nd, s₂.g.nodes x.node = some nd ∧ nd.owner = 1) ∧
        s₁.nextId ≤ x.raise ∧ x ∉ s₁.inside := by
  obtain ⟨s₀, hr₀, hq₀⟩ := run_of_ends (f := step .tiny) (r := fun _ _ => True)
    (s := State.initial fun _ => .dfl) (c := fun _ _ => true)
    (q := fun s₀ => ((s₀.top 0).any fun a => a.destroyed == some 1) &&
      okAnd (step .tiny s₀ (.advance 0 {})) fun s₁ => ends (step .tiny) (fun _ _ => true)
        (fun s₂ => s₂.inside.any fun x => decide (s₁.nextId ≤ x.raise) &&
          decide (x ∉ s₁.inside) && (s₂.g.nodes x.node).any fun nd => nd.owner == 1)
        s₁ [.raise 2 1, .advance 2 {}])
    (l := installOne ++ registerOne ++ [.raise 1 1, .advance 1 {}, .destroy 0 1] ++
      List.replicate 4 (.advance 0 {}))
    (fun _ _ _ => trivial) (by decide)
  simp only [Bool.and_eq_true, beq_iff_eq, Option.any_eq_true, okAnd_iff] at hq₀
  obtain ⟨⟨a, ha, htop⟩, s₁, hs₁, hq₀⟩ := hq₀
  obtain ⟨s₂, hr₂, hq₂⟩ := run_of_ends (r := fun _ _ => True) (fun _ _ _ => trivial) hq₀
  obtain ⟨x, hx, hq₂⟩ := List.any_eq_true.mp hq₂
  simp only [Bool.and_eq_true, decide_eq_true_eq, Option.any_eq_true, beq_iff_eq] at hq₂
  obtain ⟨⟨hnew, hnot⟩, nd, hnd, hown⟩ := hq₂
  obtain ⟨guarded, retp, unlocked, hc⟩ := destroyed_call htop
  exact ⟨s₀, s₁, s₂, a, guarded, retp, unlocked, hr₀, ha, hc, hs₁, hr₂, x, hx, ⟨nd, hnd, hown⟩,
    hnew, hnot⟩

end Wg14Signals
