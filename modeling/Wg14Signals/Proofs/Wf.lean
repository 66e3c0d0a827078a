import Wg14Signals.Holdings

namespace Wg14Signals
open Lib

/-- The two lists of a container. -/
inductive Which where
  | global
  | deferred
  deriving DecidableEq

def Container.ends (k : Container) : Which → Ends
  | .global => k.globalHandler
  | .deferred => k.deferredFrees

/-- The members of every container's lists. -/
abbrev Layout := Addr → Which → List Addr

def Layout.set (L : Layout) (c : Addr) (l : Which → List Addr) : Layout :=
  fun d => if d = c then l else L d

@[simp] theorem Layout.set_self (L : Layout) (c : Addr) (l : Which → List Addr) :
    L.set c l c = l := by
  simp [Layout.set]

@[simp] theorem Layout.set_other (L : Layout) {c d : Addr} (l : Which → List Addr)
    (h : d ≠ c) : L.set c l d = L d := by
  simp [Layout.set, h]

open Classical in
/-- The map's own reference on a container. -/
noncomputable def mapRefs (g : Global) (c : Addr) : Nat :=
  if ∃ s, g.map s = some c then 1 else 0

/-- The library's bookkeeping is exact. `pend` are the references of decider
handles, `cs` and `ns` those raises have on containers and nodes. Nodes on a
`global_handler` list need not be live: that is a separate question. -/
structure Wf (g : Global) (L : Layout) (pend : List Slot) (cs ns : List Addr) : Prop where
  nodeFresh : ∀ n, g.nextNode ≤ n → g.nodes n = none
  containerFresh : ∀ c, g.nextContainer ≤ c → g.containers c = none
  bound : ∀ c w, ∀ n ∈ L c w, n < g.nextNode
  dead : ∀ c w, g.containers c = none → L c w = []
  mapped : ∀ s c, g.map s = some c → ∃ k, g.containers c = some k
  mapInj : ∀ s s' c, g.map s = some c → g.map s' = some c → s = s'
  lists : ∀ c k w, g.containers c = some k → DList.IsList g.nodes (k.ends w) (L c w)
  unshared : ∀ c w c' w' n, n ∈ L c w → n ∈ L c' w' → c = c' ∧ w = w'
  retired : ∀ c, ∀ n ∈ L c .deferred, ∃ nd, g.nodes n = some nd ∧ nd.refcount = 0
  lifetime : ∀ c k, g.containers c = some k →
    k.lifetimeRefcount = mapRefs g c + cs.count c
  refcount : ∀ n nd, g.nodes n = some nd →
    nd.refcount = (pend.map Slot.node).count n + ns.count n
  owned : ∀ x ∈ pend, ∃ nd, g.nodes x.node = some nd ∧ nd.owner = x.owner
  distinct : (pend.map Slot.node).Nodup
  aligned : ∀ x ∈ pend, ∀ s c, g.map s = some c → x.node ∈ L c .global → s = x.signo
  held : ∀ c ∈ cs, ∃ k, g.containers c = some k
  pinned : ∀ n ∈ ns, ∃ nd, g.nodes n = some nd

/-- No container comes back once it has been freed, one that nobody refers to is left
alone, and no address is used twice. -/
structure Outlives (g g' : Global) : Prop where
  nodes : g.nextNode ≤ g'.nextNode
  next : g.nextContainer ≤ g'.nextContainer
  gone : ∀ c, c < g.nextContainer → g.containers c = none → g'.containers c = none
  idle : ∀ c k, g.containers c = some k → k.lifetimeRefcount = 0 →
    ∃ k', g'.containers c = some k' ∧ k'.lifetimeRefcount = 0

namespace Outlives

variable {g g' g'' : Global}

theorem refl (g : Global) : Outlives g g :=
  ⟨Nat.le_refl _, Nat.le_refl _, fun _ _ h => h, fun _ k hk hz => ⟨k, hk, hz⟩⟩

theorem trans (hx : Outlives g g') (hy : Outlives g' g'') : Outlives g g'' where
  nodes := Nat.le_trans hx.nodes hy.nodes
  next := Nat.le_trans hx.next hy.next
  gone c hc h := hy.gone c (Nat.lt_of_lt_of_le hc hx.next) (hx.gone c hc h)
  idle c k hk hz := by
    obtain ⟨k', hk', hz'⟩ := hx.idle c k hk hz
    exact hy.idle c k' hk' hz'

theorem congr (h : Outlives g g') (hc : g''.containers = g'.containers)
    (hn : g'.nextContainer ≤ g''.nextContainer) (hm : g'.nextNode ≤ g''.nextNode) :
    Outlives g g'' where
  nodes := Nat.le_trans h.nodes hm
  next := Nat.le_trans h.next hn
  gone := hc ▸ h.gone
  idle := hc ▸ h.idle

end Outlives

/-- What an operation may do to lists and nodes besides counting references:
nobody joins a list, nobody but `y` leaves the `global_handler` list of a
container that is not freed, nothing still listed is freed but perhaps `x`, a
retired node stays so until it is freed, and no node appears or changes hands. -/
structure Evolves (x y : Option Addr) (g g' : Global) (L L' : Layout) : Prop where
  containers : Outlives g g'
  shrinks : ∀ c, (L' c .global).Sublist (L c .global)
  keeps : ∀ c, c < g.nextContainer → ∀ n ∈ L c .global,
    n ∈ L' c .global ∨ y = some n ∨ g'.containers c = none
  members : ∀ c w, ∀ n ∈ L' c w, ∃ w', n ∈ L c w'
  spares : ∀ c w, ∀ n ∈ L' c w, g'.nodes n = none → g.nodes n = none ∨ x = some n
  retired : ∀ c, ∀ n ∈ L c .deferred, (∃ d, n ∈ L' d .deferred) ∨ g'.nodes n = none
  owners : ∀ n nd', g'.nodes n = some nd' → ∃ nd, g.nodes n = some nd ∧ nd.owner = nd'.owner

namespace Evolves

variable {x y : Option Addr} {g g' g'' g₁ g₁' : Global} {L L' L'' : Layout}

/-- Nodes untouched, nothing to report. -/
theorem same (hc : Outlives g g') (hn : g'.nodes = g.nodes) : Evolves x y g g' L L where
  containers := hc
  shrinks _ := List.Sublist.refl _
  keeps _ _ _ hm := Or.inl hm
  members _ w _ hm := ⟨w, hm⟩
  spares _ _ _ _ hg := Or.inl (hn ▸ hg)
  retired c _ hm := Or.inl ⟨c, hm⟩
  owners _ nd hg := ⟨nd, hn ▸ hg, rfl⟩

theorem refl (g : Global) (L : Layout) : Evolves x y g g L L := same (.refl g) rfl

theorem trans (hx : Evolves none y g g' L L') (hy : Evolves x y g' g'' L' L'') :
    Evolves x y g g'' L L'' where
  containers := hx.containers.trans hy.containers
  shrinks c := (hy.shrinks c).trans (hx.shrinks c)
  keeps c hc n hn := by
    have hc' := Nat.lt_of_lt_of_le hc hx.containers.next
    rcases hx.keeps c hc n hn with hn' | he | hg
    · exact hy.keeps c hc' n hn'
    · exact Or.inr (Or.inl he)
    · exact Or.inr (Or.inr (hy.containers.gone c hc' hg))
  members c w n hn := by
    obtain ⟨w', hn'⟩ := hy.members c w n hn
    exact hx.members c w' n hn'
  spares c w n hn hg := by
    obtain ⟨w', hn'⟩ := hy.members c w n hn
    rcases hy.spares c w n hn hg with hg | hg
    · exact Or.inl ((hx.spares c w' n hn' hg).resolve_right (by simp))
    · exact Or.inr hg
  retired c n hn := by
    rcases hx.retired c n hn with ⟨d, hd⟩ | hg
    · exact hy.retired d n hd
    · refine Or.inr (Option.eq_none_iff_forall_ne_some.mpr fun nd'' hn'' => ?_)
      obtain ⟨nd', hn', _⟩ := hy.owners n nd'' hn''
      rw [hg] at hn'
      cases hn'
  owners n nd'' hn := by
    obtain ⟨nd', hn', ho'⟩ := hy.owners n nd'' hn
    obtain ⟨nd, hn, ho⟩ := hx.owners n nd' hn'
    exact ⟨nd, hn, ho.trans ho'⟩

/-- What may happen need not. -/
theorem allow (h : Evolves none none g g' L L') : Evolves x y g g' L L' where
  containers := h.containers
  shrinks := h.shrinks
  keeps c hc n hn := (h.keeps c hc n hn).imp_right fun h => Or.inr (h.resolve_left (by simp))
  members := h.members
  spares c w n hn hg := Or.inl ((h.spares c w n hn hg).resolve_right (by simp))
  retired := h.retired
  owners := h.owners

/-- The same between two states that differ in nothing this is about. -/
theorem congr (h : Evolves x y g g' L L') (hn : g₁.nodes = g.nodes) (hn' : g₁'.nodes = g'.nodes)
    (hc : Outlives g₁ g₁') (hle : g₁.nextContainer ≤ g.nextContainer)
    (hg : ∀ c, c < g₁.nextContainer → g'.containers c = none → g₁'.containers c = none) :
    Evolves x y g₁ g₁' L L' where
  containers := hc
  shrinks := h.shrinks
  keeps c hlt n hm :=
    (h.keeps c (Nat.lt_of_lt_of_le hlt hle) n hm).imp_right fun h => h.imp_right (hg c hlt)
  members := h.members
  spares c w n hm hdead := by
    rw [hn] at *
    exact h.spares c w n hm (hn' ▸ hdead)
  retired c n hm := by
    rw [hn']
    exact h.retired c n hm
  owners n nd' hm := by
    rw [hn]
    exact h.owners n nd' (hn' ▸ hm)

end Evolves

namespace Wf

variable {g g' : Global} {L L' : Layout} {pend pend' : List Slot} {cs cs' ns ns' : List Addr}

theorem node_lt (h : Wf g L pend cs ns) {n : Addr} {nd : Node} (hn : g.nodes n = some nd) :
    n < g.nextNode := by
  refine Nat.lt_of_not_le fun hle => ?_
  rw [h.nodeFresh n hle] at hn
  cases hn

theorem container_lt (h : Wf g L pend cs ns) {c : Addr} {k : Container}
    (hc : g.containers c = some k) : c < g.nextContainer := by
  refine Nat.lt_of_not_le fun hle => ?_
  rw [h.containerFresh c hle] at hc
  cases hc

theorem mapped_lt (h : Wf g L pend cs ns) {signo : Signo} {c : Addr}
    (hm : g.map signo = some c) : c < g.nextContainer := by
  obtain ⟨k, hk⟩ := h.mapped signo c hm
  exact h.container_lt hk

theorem perm (h : Wf g L pend cs ns) (hp : pend.Perm pend') (hc : cs.Perm cs')
    (hn : ns.Perm ns') : Wf g L pend' cs' ns' where
  nodeFresh := h.nodeFresh
  containerFresh := h.containerFresh
  bound := h.bound
  dead := h.dead
  mapped := h.mapped
  mapInj := h.mapInj
  lists := h.lists
  unshared := h.unshared
  retired := h.retired
  lifetime c k hk := by rw [← hc.count_eq c]; exact h.lifetime c k hk
  refcount n nd hnd := by
    rw [← (hp.map Slot.node).count_eq n, ← hn.count_eq n]
    exact h.refcount n nd hnd
  owned x hx := h.owned x (hp.mem_iff.mpr hx)
  distinct := (hp.map Slot.node).nodup_iff.mp h.distinct
  aligned x hx := h.aligned x (hp.mem_iff.mpr hx)
  held c hm := h.held c (hc.mem_iff.mpr hm)
  pinned n hm := h.pinned n (hn.mem_iff.mpr hm)

/-- A list member's liveness aside, changing reference counts and freeing nodes
that nobody refers to keeps the books. -/
theorem withNodes (h : Wf g L pend cs ns) {nodes' : Heap Node}
    (hsub : ∀ n nd', nodes' n = some nd' →
      ∃ nd, g.nodes n = some nd ∧ nd.links = nd'.links ∧ nd.owner = nd'.owner)
    (hcount : ∀ n nd', nodes' n = some nd' →
      nd'.refcount = (pend'.map Slot.node).count n + ns'.count n)
    (hret : ∀ c, ∀ n ∈ L c .deferred, ∃ nd', nodes' n = some nd' ∧ nd'.refcount = 0)
    (hpend : ∀ x ∈ pend', x ∈ pend ∧ ∃ nd', nodes' x.node = some nd')
    (hdist : (pend'.map Slot.node).Nodup)
    (hns : ∀ n ∈ ns', ∃ nd', nodes' n = some nd') :
    Wf (g.setNodes nodes') L pend' cs ns' where
  nodeFresh n hn := by
    refine Option.eq_none_iff_forall_ne_some.mpr fun nd' hnd' => ?_
    obtain ⟨nd, hnd, _⟩ := hsub n nd' hnd'
    rw [h.nodeFresh n hn] at hnd
    cases hnd
  containerFresh := h.containerFresh
  bound := h.bound
  dead := h.dead
  mapped := h.mapped
  mapInj := h.mapInj
  lists c k w hk := (h.lists c k w hk).mono fun n _ nd' hnd' => by
    obtain ⟨nd, hnd, hl, _⟩ := hsub n nd' hnd'
    exact ⟨nd, hnd, hl⟩
  unshared := h.unshared
  retired := hret
  lifetime := h.lifetime
  refcount := hcount
  owned x hx := by
    obtain ⟨hxp, nd', hnd'⟩ := hpend x hx
    obtain ⟨nd, hnd, _, ho⟩ := hsub _ nd' hnd'
    obtain ⟨nd₂, hnd₂, ho₂⟩ := h.owned x hxp
    rw [hnd] at hnd₂
    cases hnd₂
    exact ⟨nd', hnd', ho.symm.trans ho₂⟩
  distinct := hdist
  aligned x hx := h.aligned x (hpend x hx).1
  held := h.held
  pinned := hns

theorem slot_refcount (h : Wf g L pend cs ns) {x : Slot} (hx : x ∈ pend) {nd : Node}
    (hn : g.nodes x.node = some nd) : 0 < nd.refcount := by
  have hc : 0 < (pend.map Slot.node).count x.node :=
    List.count_pos_iff.mpr (List.mem_map_of_mem hx)
  have := h.refcount x.node nd hn
  omega

theorem pin_refcount (h : Wf g L pend cs ns) {n : Addr} (hp : n ∈ ns) {nd : Node}
    (hn : g.nodes n = some nd) : 0 < nd.refcount := by
  have hc : 0 < ns.count n := List.count_pos_iff.mpr hp
  have := h.refcount n nd hn
  omega

/-- A node with a reference is on no `deferred_frees` list. -/
theorem not_retired (h : Wf g L pend cs ns) {n : Addr} {nd : Node} (hn : g.nodes n = some nd)
    (hr : nd.refcount ≠ 0) (c : Addr) : n ∉ L c .deferred := by
  intro hm
  obtain ⟨nd', hn', hz⟩ := h.retired c n hm
  rw [hn] at hn'
  cases hn'
  exact hr hz

/-- Changing one node's reference count together with the references it counts. -/
theorem recount (h : Wf g L pend cs ns) {n : Addr} {nd : Node} (hn : g.nodes n = some nd)
    {r : Int} (hr : r = (pend'.map Slot.node).count n + ns'.count n)
    (hsame : ∀ m, m ≠ n → (pend'.map Slot.node).count m = (pend.map Slot.node).count m ∧
      ns'.count m = ns.count m)
    (hret : ∀ c, n ∈ L c .deferred → r = 0)
    (hpend : ∀ x ∈ pend', x ∈ pend) (hdist : (pend'.map Slot.node).Nodup)
    (hns : ∀ m ∈ ns', m ∈ ns ∨ m = n) :
    Wf (g.setNode n (some { nd with refcount := r })) L pend' cs ns' := by
  have hlive : ∀ m md, g.nodes m = some md →
      ∃ md', g.nodes.set n (some { nd with refcount := r }) m = some md' := by
    intro m md hm
    by_cases he : m = n
    · exact ⟨_, by rw [he, Heap.set_self]⟩
    · exact ⟨md, by rw [Heap.set_other _ _ he, hm]⟩
  apply h.withNodes
  · intro m md' hm
    by_cases he : m = n
    · subst he
      rw [Heap.set_self] at hm
      cases hm
      exact ⟨nd, hn, rfl, rfl⟩
    · rw [Heap.set_other _ _ he] at hm
      exact ⟨md', hm, rfl, rfl⟩
  · intro m md' hm
    by_cases he : m = n
    · subst he
      rw [Heap.set_self] at hm
      cases hm
      exact hr
    · rw [Heap.set_other _ _ he] at hm
      rw [(hsame m he).1, (hsame m he).2]
      exact h.refcount m md' hm
  · intro c m hm
    by_cases he : m = n
    · subst he
      exact ⟨_, Heap.set_self _ _ _, hret c hm⟩
    · rw [Heap.set_other _ _ he]
      exact h.retired c m hm
  · intro x hx
    obtain ⟨md, hm, _⟩ := h.owned x (hpend x hx)
    exact ⟨hpend x hx, hlive _ md hm⟩
  · exact hdist
  · intro m hm
    rcases hns m hm with hm | rfl
    · obtain ⟨md, hmd⟩ := h.pinned m hm
      exact hlive m md hmd
    · exact hlive m nd hn

theorem pin (h : Wf g L pend cs ns) {n : Addr} {nd : Node} (hn : g.nodes n = some nd)
    (hd : ∀ c, n ∉ L c .deferred) :
    Wf (g.setNode n (some { nd with refcount := nd.refcount + 1 }))
      L pend cs (n :: ns) := by
  apply h.recount hn
  · rw [h.refcount n nd hn, List.count_cons_self]
    omega
  · intro m hm
    exact ⟨rfl, List.count_cons_of_ne (Ne.symm hm)⟩
  · exact fun c hm => absurd hm (hd c)
  · exact fun x hx => hx
  · exact h.distinct
  · intro m hm
    exact (List.mem_cons.mp hm).symm

theorem unpin {n : Addr} (h : Wf g L pend cs (n :: ns)) {nd : Node}
    (hn : g.nodes n = some nd) :
    Wf (g.setNode n (some { nd with refcount := nd.refcount - 1 }))
      L pend cs ns := by
  apply h.recount hn
  · rw [h.refcount n nd hn, List.count_cons_self]
    omega
  · intro m hm
    exact ⟨rfl, (List.count_cons_of_ne (Ne.symm hm)).symm⟩
  · exact fun c hm => absurd hm
      (h.not_retired hn (Int.ne_of_gt (h.pin_refcount List.mem_cons_self hn)) c)
  · exact fun x hx => hx
  · exact h.distinct
  · exact fun m hm => Or.inl (List.mem_cons_of_mem _ hm)

theorem dropSlot {x : Slot} (h : Wf g L (x :: pend) cs ns) {nd : Node}
    (hn : g.nodes x.node = some nd) :
    Wf (g.setNode x.node (some { nd with refcount := nd.refcount - 1 }))
      L pend cs ns := by
  have hnd := List.nodup_cons.mp h.distinct
  apply h.recount hn
  · rw [h.refcount _ nd hn, List.map_cons, List.count_cons_self]
    omega
  · intro m hm
    exact ⟨by rw [List.map_cons, List.count_cons_of_ne (Ne.symm hm)], rfl⟩
  · exact fun c hm => absurd hm
      (h.not_retired hn (Int.ne_of_gt (h.slot_refcount List.mem_cons_self hn)) c)
  · exact fun y hy => List.mem_cons_of_mem _ hy
  · exact hnd.2
  · exact fun m hm => Or.inl hm

/-- Freeing a node that has no references left. -/
theorem freeNode (h : Wf g L pend cs ns) {n : Addr} {nd : Node} (hn : g.nodes n = some nd)
    (hz : nd.refcount = 0) (hd : ∀ c, n ∉ L c .deferred) :
    Wf (g.setNode n none) L pend cs ns := by
  have hkeep : ∀ m, m ≠ n → g.nodes.set n none m = g.nodes m :=
    fun m hm => Heap.set_other _ _ hm
  apply h.withNodes
  · intro m md' hm
    by_cases he : m = n
    · rw [he, Heap.set_self] at hm
      cases hm
    · rw [hkeep m he] at hm
      exact ⟨md', hm, rfl, rfl⟩
  · intro m md' hm
    by_cases he : m = n
    · rw [he, Heap.set_self] at hm
      cases hm
    · rw [hkeep m he] at hm
      exact h.refcount m md' hm
  · intro c m hm
    rw [hkeep m (fun he => hd c (he ▸ hm))]
    exact h.retired c m hm
  · intro x hx
    obtain ⟨md, hm, _⟩ := h.owned x hx
    have hne : x.node ≠ n := by
      intro he
      have hp := h.slot_refcount hx hm
      rw [he, hn] at hm
      cases hm
      omega
    exact ⟨hx, md, by rw [hkeep _ hne, hm]⟩
  · exact h.distinct
  · intro m hm
    obtain ⟨md, hmd⟩ := h.pinned m hm
    have hne : m ≠ n := by
      intro he
      have hp := h.pin_refcount hm hmd
      rw [he, hn] at hmd
      cases hmd
      omega
    exact ⟨md, by rw [hkeep _ hne, hmd]⟩

/-- A node whose one reference is that of a raise has no other. -/
theorem last_pin {n : Addr} (h : Wf g L pend cs (n :: ns)) (hl : LastRef g n) :
    (pend.map Slot.node).count n = 0 ∧ ns.count n = 0 := by
  obtain ⟨nd, hn, hone⟩ := hl
  have hr := h.refcount n nd hn
  rw [List.count_cons_self] at hr
  push_cast at hr
  omega

/-- A node without references had none before if none has been given back. -/
theorem spent (h : Wf g L pend cs ns) (h' : Wf g' L' pend' cs' ns') {n : Addr} {nd' : Node}
    (hown : ∃ nd, g.nodes n = some nd) (hn' : g'.nodes n = some nd') (hz : nd'.refcount = 0)
    (hp : (pend.map Slot.node).count n ≤ (pend'.map Slot.node).count n)
    (hc : ns.count n ≤ ns'.count n) : ∃ nd, g.nodes n = some nd ∧ nd.refcount = 0 := by
  obtain ⟨nd, hn⟩ := hown
  have hr := h.refcount n nd hn
  have hr' := h'.refcount n nd' hn'
  exact ⟨nd, hn, by omega⟩

/-- Changing one container's reference count together with what it counts. -/
theorem recountContainer (h : Wf g L pend cs ns) {c : Addr} {k : Container}
    (hc : g.containers c = some k) {r : Int} (hr : r = mapRefs g c + cs'.count c)
    (hsame : ∀ d, d ≠ c → cs'.count d = cs.count d) (hcs : ∀ d ∈ cs', d ∈ cs ∨ d = c) :
    Wf (g.setContainer c { k with lifetimeRefcount := r }) L pend cs' ns where
  nodeFresh := h.nodeFresh
  containerFresh d hd := by
    have hne : d ≠ c := fun he => by
      have := h.containerFresh d hd
      rw [he, hc] at this
      cases this
    exact (Heap.set_other _ _ hne).trans (h.containerFresh d hd)
  bound := h.bound
  dead d w hd := by
    by_cases he : d = c
    · simp [he] at hd
    · exact h.dead d w (by simpa [he] using hd)
  mapped s d hd := by
    by_cases he : d = c
    · exact ⟨_, by rw [he]; exact Heap.set_self _ _ _⟩
    · obtain ⟨kd, hkd⟩ := h.mapped s d hd
      exact ⟨kd, by simpa [he] using hkd⟩
  mapInj := h.mapInj
  lists d kd w hd := by
    by_cases he : d = c
    · subst he
      simp only [Global.setContainer_containers, Heap.set_self, Option.some.injEq] at hd
      subst hd
      cases w
      · exact h.lists d k .global hc
      · exact h.lists d k .deferred hc
    · exact h.lists d kd w (by simpa [he] using hd)
  unshared := h.unshared
  retired := h.retired
  lifetime d kd hd := by
    by_cases he : d = c
    · subst he
      simp only [Global.setContainer_containers, Heap.set_self, Option.some.injEq] at hd
      subst hd
      exact hr
    · rw [hsame d he]
      exact h.lifetime d kd (by simpa [he] using hd)
  refcount := h.refcount
  owned := h.owned
  distinct := h.distinct
  aligned := h.aligned
  held d hd := by
    by_cases he : d = c
    · exact ⟨_, by rw [he]; exact Heap.set_self _ _ _⟩
    · obtain ⟨kd, hkd⟩ := h.held d ((hcs d hd).resolve_right he)
      exact ⟨kd, by simpa [he] using hkd⟩
  pinned := h.pinned

theorem hold (h : Wf g L pend cs ns) {c : Addr} {k : Container}
    (hc : g.containers c = some k) :
    Wf (g.setContainer c { k with lifetimeRefcount := k.lifetimeRefcount + 1 })
      L pend (c :: cs) ns := by
  apply h.recountContainer hc
  · rw [h.lifetime c k hc, List.count_cons_self]
    omega
  · exact fun d hd => List.count_cons_of_ne (Ne.symm hd)
  · exact fun d hd => (List.mem_cons.mp hd).symm

theorem unhold {c : Addr} (h : Wf g L pend (c :: cs) ns) {k : Container}
    (hc : g.containers c = some k) :
    Wf (g.setContainer c { k with lifetimeRefcount := k.lifetimeRefcount - 1 })
      L pend cs ns := by
  apply h.recountContainer hc
  · rw [h.lifetime c k hc, List.count_cons_self]
    omega
  · exact fun d hd => (List.count_cons_of_ne (Ne.symm hd)).symm
  · exact fun d hd => Or.inl (List.mem_cons_of_mem _ hd)

end Wf

end Wg14Signals
