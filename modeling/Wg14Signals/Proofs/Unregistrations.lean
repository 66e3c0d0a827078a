import Wg14Signals.Unregistrations
import Wg14Signals.Proofs.Offering

namespace Wg14Signals
open Lib

/-- Every node stands in a slot of a handle. -/
def Backed (p : Platform) (s : State) : Prop :=
  ∀ n nd, s.g.nodes n = some nd → ∃ x ∈ s.pending p, x.node = n

/-- What a step does to nodes and handles. -/
inductive Trade (p : Platform) (w : Accounts) (act : Action) (w' : Accounts) (L L' : Layout) :
    Prop where
  | keeps (hp : (w'.state.pending p).Perm (w.state.pending p))
      (hm : ∀ handle, w'.visited.made handle = w.visited.made handle)
      (hf : w'.freed = w.freed)
      (hl : ∀ n nd', w'.state.g.nodes n = some nd' → ∃ nd, w.state.g.nodes n = some nd)
      (hs : ∀ c, (L' c .global).Sublist (L c .global))
  | makes (x : Slot) (item : Addr) (callfirst : Bool) (ho : w.state.worksOn act = some x.owner)
      (hj : Joins x.node item x.owner callfirst w.state.g w'.state.g L L')
      (hp : (w'.state.pending p).Perm (x :: w.state.pending p))
      (hm : ∀ handle, w'.visited.made handle =
        w.visited.made handle ++ if handle = x.owner then [x.node] else [])
      (hf : w'.freed = w.freed)
  | frees (x : Slot) (ho : w.state.destroys act = some x.owner)
      (hp : (w.state.pending p).Perm (x :: w'.state.pending p))
      (hm : ∀ handle, w'.visited.made handle = w.visited.made handle)
      (hf : w'.freed = w.freed ++ [(some x.owner, x.node)])
      (hd : w'.state.g.nodes x.node = none)
      (hl : ∀ n nd', w'.state.g.nodes n = some nd' → ∃ nd, w.state.g.nodes n = some nd)
      (hs : ∀ c, (L' c .global).Sublist (L c .global))

/-- The nodes a handle has still slots for. -/
def State.slotNodes (p : Platform) (s : State) (handle : Nat) : List Addr :=
  ((s.pending p).filter fun x => x.owner == handle).map Slot.node

/-- What has been made for each handle has been freed in its destruction, or stands in a slot. -/
structure Booked (p : Platform) (w : Accounts) : Prop where
  backed : Backed p w.state
  balance : ∀ handle,
    (w.freedBy handle ++ w.state.slotNodes p handle).Perm (w.visited.made handle)
  destroyed : ∀ x ∈ w.freed, ∃ handle, x.1 = some handle
  gone : ∀ x ∈ w.freed, x.2 < w.state.g.nextNode ∧ w.state.g.nodes x.2 = none
  once : (w.freed.map Prod.snd).Nodup

/-- These slots, of these signals, hold what has been put into them. -/
def Visited.Stocks (v : Visited) (handle : Nat) (ms : List Signo) (xs : List (Option Addr)) : Prop :=
  ∀ x ∈ ms.zip xs, x.2 = v.filled handle x.1

/-- A destroy has the slots it has still to come to as they were filled. In between its two
sections for a signal, the first may have made the slot null. -/
def Call.Matches (v : Visited) : Call → Prop
  | .destroy handle guarded retp todo false => v.Stocks handle (todo.filter guarded) retp
  | .destroy handle guarded (slot :: retp) (signo :: todo) true =>
    guarded signo = true ∧ (slot = v.filled handle signo ∨ slot = none) ∧
      v.Stocks handle (todo.filter guarded) retp
  | .destroy _ _ _ _ true => False
  | _ => True

section

variable {p : Platform} {s s' : State} {act : Action} {L L' : Layout} {w w' : Accounts}
variable {n c : Addr} {signo : Signo} {handle : Nat}

theorem mem_freed {g g' : Global} : n ∈ g.freed g' ↔
    n < g.nextNode ∧ (∃ nd, g.nodes n = some nd) ∧ g'.nodes n = none := by
  simp [Global.freed, Option.isSome_iff_exists]

theorem accountsStep_ok (h : accountsStep p w act = .ok w') :
    visitedStep p w.visited act = .ok w'.visited ∧
      w'.freed = w.freed ++ (w.state.g.freed w'.state.g).map fun n => (w.state.destroys act, n) := by
  obtain ⟨v, hv, h⟩ := bind_ok.mp h
  obtain rfl := pure_ok.mp h
  exact ⟨hv, rfl⟩

theorem accountsStep_run (h : step p w.state act = .ok s') :
    ∃ w', accountsStep p w act = .ok w' ∧ w'.state = s' :=
  ⟨_, bind_ok.mpr ⟨_, bind_ok.mpr ⟨s', h, rfl⟩, rfl⟩, rfl⟩

/-- What the list of an installed signal comes to. -/
theorem Sound.deciders_mapped (hs : Sound p s L) (hm : s.g.map signo = some c) :
    s.g.deciders signo = L c .global := by
  obtain ⟨k, hk⟩ := hs.inv.wf.mapped signo c hm
  have hl := hs.inv.wf.lists c k .global hk
  have hfuel := hs.inv.wf.fuel hk .global
  simp only [Global.deciders, hm, Option.bind_some, hk]
  rw [show k.globalHandler.front = (L c .global).head? from hl.front]
  exact DList.walk_seg hl.seg (hs.live.live signo c hm) hfuel

theorem deciders_unmapped {g : Global} (hm : g.map signo = none) : g.deciders signo = [] := by
  simp only [Global.deciders, hm, Option.bind_none]

/-- A decider on the list of an installed signal is there. -/
theorem Sound.decider_live (hs : Sound p s L) (hn : n ∈ s.g.deciders signo) :
    ∃ nd, s.g.nodes n = some nd := by
  cases hm : s.g.map signo with
  | none =>
    rw [deciders_unmapped hm] at hn
    cases hn
  | some c =>
    rw [hs.deciders_mapped hm] at hn
    exact hs.live.live signo c hm n hn

theorem made_concat (handle : Nat) (visits : List Visit) (v : Visit) (s : State) :
    (⟨s, visits ++ [v]⟩ : Visited).made handle =
      (⟨s, visits⟩ : Visited).made handle ++ if v.handle = handle then v.slot.toList else [] := by
  unfold Visited.made
  rw [List.filter_append, List.filterMap_append]
  congr 1
  by_cases hv : v.handle = handle
  · rw [List.filter_cons_of_pos (by simpa using hv), if_pos hv, List.filter_nil]
    cases hslot : v.slot with
    | none => rw [List.filterMap_cons_none hslot]; rfl
    | some n => rw [List.filterMap_cons_some hslot]; rfl
  · rw [List.filter_cons_of_neg (by simpa using hv), if_neg hv]
    rfl

/-- A step in which no node is new makes none for a handle. -/
theorem made_same {v v' : Visited} (hs : Sound p v.state L) (h : visitedStep p v act = .ok v')
    (hl : ∀ n nd', v'.state.g.nodes n = some nd' → ∃ nd, v.state.g.nodes n = some nd)
    (handle : Nat) : v'.made handle = v.made handle := by
  rcases (visitedStep_ok h).2 with ⟨hsame, -⟩ | ⟨u, hu, hd, hvisits⟩
  · unfold Visited.made
    rw [hsame]
  · have hslot : u.slot = none := by
      obtain ⟨_, _, _, _, _, _, _, _, _, _, _, _, _, hnode⟩ := visit_cases hu
      cases hc : u.container with
      | none => simp [Visit.slot, hc]
      | some c =>
        simp only [Visit.done, hc, Option.isNone_some, Bool.false_or,
          Option.isSome_iff_exists] at hd
        obtain ⟨nd', hn'⟩ := hd
        obtain ⟨nd, hn⟩ := hl _ nd' hn'
        rw [hnode, hs.inv.wf.nodeFresh _ (Nat.le_refl _)] at hn
        cases hn
    have hconcat := made_concat handle v.visits u v'.state
    rw [hslot, ← hvisits] at hconcat
    refine hconcat.trans ?_
    split <;> exact List.append_nil _

/-- While no slot is given back, no node is freed. -/
theorem freed_nothing (hb : Backed p s) (hs' : Sound p s' L')
    (hp : ∀ x ∈ s.pending p, x ∈ s'.pending p) : s.g.freed s'.g = [] := by
  refine List.filter_eq_nil_iff.mpr fun n _ hn => ?_
  simp only [Bool.and_eq_true, Option.isSome_iff_exists, Option.isNone_iff_eq_none] at hn
  obtain ⟨⟨nd, hnd⟩, hdead⟩ := hn
  obtain ⟨x, hx, rfl⟩ := hb n nd hnd
  obtain ⟨nd', hnd', -⟩ := hs'.inv.wf.owned x (hp x hx)
  cases hdead.symm.trans hnd'

/-- The handle that gives a slot back is being destroyed. -/
theorem Sound.drops_owner (hs : Sound p s L) {x : Slot} {searched : Option Addr}
    (hd : s.drops act = some (x.node, searched)) (hx : x ∈ s.pending p) :
    s.destroys act = some x.owner := by
  cases act with
  | advance t env =>
    obtain ⟨a, o, guarded, retp, signo, todo, unlocked, ht, hc, hg, -⟩ := drops_cases hd
    have hy := destroy_pending (p := p) (top_mem ht) hc hg
    have howner : x.owner = o :=
      congrArg Slot.owner (List.inj_on_of_nodup_map hs.inv.wf.distinct hx hy rfl)
    simp [State.destroys, ht, Act.destroying, hc, howner]
  | siginstall | siguninstall | create | destroy | raise | sigguarded | deliver | decide
  | abandon | jump | done => cases hd

theorem visit_works {v : Visit} (hv : s.visits p act = some v) :
    s.worksOn act = some v.handle := by
  obtain ⟨t, env, a, args, filled, _, rfl, ht, hc, -, ho, -⟩ := visit_cases hv
  simp [State.worksOn, ht, Act.owner, hc, ho]

theorem destroys_works (hd : s.destroys act = some handle) : s.worksOn act = some handle := by
  cases act with
  | advance t env =>
    obtain ⟨a, ht, ho⟩ := Option.bind_eq_some_iff.mp hd
    exact Option.bind_eq_some_iff.mpr ⟨a, ht, (owner_of_destroying ho).1⟩
  | siginstall | siguninstall | create | destroy | raise | sigguarded | deliver | decide
  | abandon | jump | done => cases hd

theorem Sound.trade (hs : Sound p w.state L) (hr : Recorded p w.visited) (hb : Backed p w.state)
    (ha : w.state.undisturbed act = true) (h : accountsStep p w act = .ok w') :
    ∃ L', Sound p w'.state L' ∧ Lasts w.state act w'.state L L' ∧ Trade p w act w' L L' := by
  obtain ⟨hv, hfreed⟩ := accountsStep_ok h
  have hstep : Wg14Signals.step p w.state act = .ok w'.state := (visitedStep_ok hv).1
  obtain ⟨L', hs', hx, hlasts⟩ := hs.step hstep
  refine ⟨L', hs', hlasts, ?_⟩
  -- steps that leave the handles alone
  have keep : (w'.state.pending p).Perm (w.state.pending p) →
      (∀ n nd', w'.state.g.nodes n = some nd' → ∃ nd, w.state.g.nodes n = some nd) →
      (∀ c, (L' c .global).Sublist (L c .global)) → Trade p w act w' L L' := by
    intro hp hl hsub
    refine .keeps hp (made_same hs hv hl) ?_ hl hsub
    rw [hfreed, freed_nothing hb hs' fun x hx => hp.mem_iff.mpr hx, List.map_nil, List.append_nil]
  have before : ∀ {x y : Option Addr}, Evolves x y w.state.g w'.state.g L L' →
      ∀ n nd', w'.state.g.nodes n = some nd' → ∃ nd, w.state.g.nodes n = some nd := by
    intro x y he n nd' hn'
    obtain ⟨nd, hn, -⟩ := he.owners n nd' hn'
    exact ⟨nd, hn⟩
  cases hx with
  | keeps he hmap hp hh => exact keep hp (before he) he.shrinks
  | enters x signo hm hf he hg hp hh => exact keep hp (before he) he.shrinks
  | walks x next hx hn he hg hp hh => exact keep hp (before he) he.shrinks
  | joins x item first hj hreg hp hh =>
    obtain ⟨nd, hn, howner⟩ := hj.live
    rw [registers_visits] at hreg
    obtain ⟨v, hvis, hv'⟩ := Option.bind_eq_some_iff.mp hreg
    obtain ⟨c, hc, -⟩ := Option.map_eq_some_iff.mp hv'
    obtain ⟨_, _, _, _, _, _, _, _, _, _, _, _, _, hnode⟩ := visit_cases hvis
    have hnode : v.node = x.node := hnode.trans hj.fresh.symm
    have hdone : v.done w'.state.g = true := by simp [Visit.done, hnode, hn]
    rcases (visitedStep_ok hv).2 with ⟨-, hnone⟩ | ⟨u, hu, -, hvisits⟩
    · cases (hnone v hvis).symm.trans hdone
    obtain rfl := Option.some.inj (hvis.symm.trans hu)
    have hmem : v ∈ w'.visited.visits := by simp [hvisits]
    have howns := ((hr.step hs hv).owned v hmem c hc).2 nd (hnode ▸ hn)
    refine .makes x item first ((visit_works hvis).trans ?_) hj hp (fun o => ?_) ?_
    · rw [← howns, howner]
    · have hconcat := made_concat o w.visited.visits v w'.state
      rw [← hvisits] at hconcat
      refine hconcat.trans ?_
      simp only [Visit.slot, hc, hnode, ← howns, howner, eq_comm (a := o), Option.map_some,
        Option.toList_some]
      rfl
    · rw [hfreed, freed_nothing hb hs' fun y hy => hp.mem_iff.mpr (List.mem_cons_of_mem _ hy),
        List.map_nil, List.append_nil]
  | drops x searched hd ho hx hsearch hp hh =>
    have hmem : x ∈ w.state.pending p := hp.mem_iff.mpr List.mem_cons_self
    have howner := hs.drops_owner hd hmem
    have hlone : w.state.holds = [] := by
      simpa [State.undisturbed, howner, List.isEmpty_iff] using ha
    have hlast : LastRef w.state.g x.node := by
      obtain ⟨nd, hn, -⟩ := hs.inv.wf.owned x hmem
      have hcount := hs.inv.wf.refcount x.node nd hn
      have hone := List.count_eq_one_of_mem hs.inv.wf.distinct (List.mem_map_of_mem hmem)
      rw [hlone, hone] at hcount
      exact ⟨nd, hn, hcount⟩
    have hdead := hx.frees.mpr hlast
    have hgone : w.state.g.freed w'.state.g = [x.node] := by
      refine List.perm_singleton.mp ((List.perm_ext_iff_of_nodup
        (List.nodup_range.filter _) (List.nodup_singleton _)).mpr fun n => ?_)
      rw [show n ∈ List.filter _ _ ↔ n ∈ w.state.g.freed w'.state.g from Iff.rfl, mem_freed,
        List.mem_singleton]
      constructor
      · rintro ⟨-, ⟨nd, hn⟩, hnone⟩
        obtain ⟨y, hy, rfl⟩ := hb n nd hn
        rcases List.mem_cons.mp (hp.mem_iff.mp hy) with rfl | hy'
        · rfl
        · obtain ⟨nd', hn', -⟩ := hs'.inv.wf.owned y hy'
          cases hnone.symm.trans hn'
      · rintro rfl
        obtain ⟨nd, hn, -⟩ := hs.inv.wf.owned x hmem
        exact ⟨hs.inv.wf.node_lt hn, ⟨nd, hn⟩, hdead⟩
    refine .frees x howner hp (made_same hs hv (before hx.evolves)) ?_ hdead (before hx.evolves)
      hx.evolves.shrinks
    rw [hfreed, hgone, howner]
    rfl

theorem slotNodes_cons {x : Slot} (hp : (s'.pending p).Perm (x :: s.pending p)) (handle : Nat) :
    (s'.slotNodes p handle).Perm
      ((if handle = x.owner then [x.node] else []) ++ s.slotNodes p handle) := by
  have hperm := (hp.filter fun y => y.owner == handle).map Slot.node
  refine hperm.trans (List.Perm.of_eq ?_)
  by_cases ho : handle = x.owner
  · rw [if_pos ho, List.filter_cons_of_pos (by simpa using ho.symm)]
    rfl
  · rw [if_neg ho, List.filter_cons_of_neg (by simpa using fun h => ho h.symm)]
    rfl

theorem slotNodes_perm (hp : (s'.pending p).Perm (s.pending p)) (handle : Nat) :
    (s'.slotNodes p handle).Perm (s.slotNodes p handle) :=
  (hp.filter fun y : Slot => y.owner == handle).map Slot.node

theorem Booked.step (hs : Sound p w.state L) (hb : Booked p w) (ht : Trade p w act w' L L')
    (hn : w.state.g.nextNode ≤ w'.state.g.nextNode) : Booked p w' := by
  have hdead : (∀ n nd', w'.state.g.nodes n = some nd' → ∃ nd, w.state.g.nodes n = some nd) →
      ∀ x ∈ w.freed, x.2 < w'.state.g.nextNode ∧ w'.state.g.nodes x.2 = none := by
    intro hl x hx
    obtain ⟨hlt, hnone⟩ := hb.gone x hx
    refine ⟨Nat.lt_of_lt_of_le hlt hn, Option.eq_none_iff_forall_ne_some.mpr fun nd' hnd' => ?_⟩
    obtain ⟨nd, hnd⟩ := hl _ nd' hnd'
    cases hnone.symm.trans hnd
  cases ht with
  | keeps hp hm hf hl hsub =>
    refine ⟨fun n nd' hnd' => ?_, fun o => ?_, hf ▸ hb.destroyed, hf ▸ hdead hl, hf ▸ hb.once⟩
    · obtain ⟨nd, hnd⟩ := hl n nd' hnd'
      obtain ⟨x, hx, rfl⟩ := hb.backed n nd hnd
      exact ⟨x, hp.mem_iff.mpr hx, rfl⟩
    · rw [hm o]
      unfold Accounts.freedBy
      rw [hf]
      exact ((slotNodes_perm hp o).append_left _).trans (hb.balance o)
  | makes x item first ho hj hp hm hf =>
    have hlive : ∀ n nd', w'.state.g.nodes n = some nd' →
        n = x.node ∨ ∃ nd, w.state.g.nodes n = some nd := by
      intro n nd' hnd'
      by_cases hne : n = x.node
      · exact .inl hne
      · have hpay := hj.payload n hne
        rw [hnd', Option.map_some, eq_comm] at hpay
        obtain ⟨nd, hnd, -⟩ := Option.map_eq_some_iff.mp hpay
        exact .inr ⟨nd, hnd⟩
    refine ⟨fun n nd' hnd' => ?_, fun o => ?_, hf ▸ hb.destroyed, fun y hy => ?_, hf ▸ hb.once⟩
    · rcases hlive n nd' hnd' with rfl | ⟨nd, hnd⟩
      · exact ⟨x, hp.mem_iff.mpr List.mem_cons_self, rfl⟩
      · obtain ⟨y, hy, rfl⟩ := hb.backed n nd hnd
        exact ⟨y, hp.mem_iff.mpr (List.mem_cons_of_mem _ hy), rfl⟩
    · rw [hm o]
      unfold Accounts.freedBy
      rw [hf]
      refine ((slotNodes_cons hp o).append_left _).trans ?_
      exact (List.perm_append_comm_assoc _ _ _).trans
        (List.perm_append_comm.trans ((hb.balance o).append_right _))
    · rw [hf] at hy
      obtain ⟨hlt, hnone⟩ := hb.gone y hy
      refine ⟨Nat.lt_of_lt_of_le hlt hn, Option.eq_none_iff_forall_ne_some.mpr fun nd' hnd' => ?_⟩
      rcases hlive _ nd' hnd' with heq | ⟨nd, hnd⟩
      · exact absurd (heq.trans hj.fresh) (Nat.ne_of_lt hlt)
      · cases hnone.symm.trans hnd
  | frees x ho hp hm hf hd hl hsub =>
    have hx : x ∈ w.state.pending p := hp.mem_iff.mpr List.mem_cons_self
    obtain ⟨nd, hnd, -⟩ := hs.inv.wf.owned x hx
    refine ⟨fun n nd' hnd' => ?_, fun o => ?_, fun y hy => ?_, fun y hy => ?_, ?_⟩
    · obtain ⟨nd, hnd⟩ := hl n nd' hnd'
      obtain ⟨y, hy, rfl⟩ := hb.backed n nd hnd
      rcases List.mem_cons.mp (hp.mem_iff.mp hy) with rfl | hy
      · cases hd.symm.trans hnd'
      · exact ⟨y, hy, rfl⟩
    · rw [hm o]
      refine List.Perm.trans ?_ (hb.balance o)
      have hslots := slotNodes_cons hp o
      unfold Accounts.freedBy
      rw [hf, List.filter_append, List.map_append, List.append_assoc]
      refine List.Perm.append_left _ (List.Perm.trans (List.Perm.of_eq ?_) hslots.symm)
      congr 1
      by_cases ho : o = x.owner
      · rw [if_pos ho, List.filter_cons_of_pos (by simp [ho])]
        rfl
      · rw [if_neg ho, List.filter_cons_of_neg (by simpa using fun h => ho h.symm)]
        rfl
    · rw [hf] at hy
      rcases List.mem_append.mp hy with hy | hy
      · exact hb.destroyed y hy
      · exact ⟨x.owner, by rw [List.mem_singleton.mp hy]⟩
    · rw [hf] at hy
      rcases List.mem_append.mp hy with hy | hy
      · exact hdead hl y hy
      · rw [List.mem_singleton.mp hy]
        exact ⟨Nat.lt_of_lt_of_le (hs.inv.wf.node_lt hnd) hn, hd⟩
    · rw [hf, List.map_append, List.nodup_append]
      refine ⟨hb.once, List.nodup_singleton _, fun n hmem m hm heq => ?_⟩
      obtain ⟨y, hy, rfl⟩ := List.mem_map.mp hmem
      obtain rfl := List.mem_singleton.mp hm
      cases (heq ▸ (hb.gone y hy).2).symm.trans hnd

theorem booked_initial (p : Platform) (kernel : Signo → Sigaction) :
    Booked p (.initial kernel) where
  backed n nd hn := by cases hn
  balance handle := List.Perm.refl _
  destroyed x hx := by cases hx
  gone x hx := by cases hx
  once := List.nodup_nil

/-- The slots of an intact handle are filled as the record has it. -/
theorem Recorded.filled_of {v : Visited} (hr : Recorded p v) {x : Record}
    (hx : x ∈ v.state.records p) :
    (∀ y ∈ x.2, v.filled x.1 y.1 = y.2) ∧
      ∀ signo, signo ∉ x.2.map Prod.fst → v.filled x.1 signo = none := by
  have hfill := hr.filled x hx
  have hfind : ∀ signo, v.filled x.1 signo =
      ((v.visits.filter fun u => u.handle == x.1).find? fun u => u.signo == signo).bind
        Visit.slot := by
    intro signo
    unfold Visited.filled
    rw [List.find?_filter]
    simp only [Bool.decide_and, Bool.decide_eq_true]
  have hnodup : ((v.visits.filter fun u => u.handle == x.1).map Visit.signo).Nodup := by
    have h := record_signos hx
    rwa [← hfill, List.map_map] at h
  refine ⟨fun y hy => ?_, fun signo hsigno => ?_⟩
  · rw [← hfill] at hy
    obtain ⟨u, hu, rfl⟩ := List.mem_map.mp hy
    rw [hfind]
    have hsome : ((v.visits.filter fun u => u.handle == x.1).find?
        fun u' => u'.signo == u.signo).isSome := by
      rw [List.find?_isSome]
      exact ⟨u, hu, beq_self_eq_true _⟩
    obtain ⟨u', hu'⟩ := Option.isSome_iff_exists.mp hsome
    have hsigno : (u'.signo == u.signo) = true :=
      List.find?_some (p := fun u' : Visit => u'.signo == u.signo) hu'
    have hsame : u' = u := List.inj_on_of_nodup_map hnodup (List.mem_of_find?_eq_some hu') hu
      (beq_iff_eq.mp hsigno)
    rw [hu', Option.bind_some, hsame]
  · rw [hfind, List.find?_eq_none.mpr, Option.bind_none]
    intro u hu heq
    refine hsigno ?_
    rw [← hfill, List.map_map]
    exact List.mem_map.mpr ⟨u, hu, beq_iff_eq.mp heq⟩

theorem mem_zip_padding {ms : List Signo} {xs : List (Option Addr)} {k : Nat}
    {y : Signo × Option Addr} (hd : ms.Nodup) (h : y ∈ ms.zip (xs ++ List.replicate k none)) :
    y ∈ ms.zip xs ∨ y.2 = none ∧ y.1 ∉ (ms.zip xs).map Prod.fst := by
  induction ms generalizing xs with
  | nil => cases h
  | cons m ms ih =>
    obtain ⟨hm, hd⟩ := List.nodup_cons.mp hd
    cases xs with
    | nil =>
      refine .inr ⟨?_, by simp⟩
      rw [List.nil_append] at h
      exact List.eq_of_mem_replicate (List.of_mem_zip (b := y.2) h).2
    | cons x xs =>
      rcases List.mem_cons.mp h with rfl | h
      · exact .inl List.mem_cons_self
      · rcases ih hd h with hy | ⟨hy, hnot⟩
        · exact .inl (List.mem_cons_of_mem _ hy)
        · refine .inr ⟨hy, fun hmem => ?_⟩
          rcases List.mem_cons.mp hmem with heq | hmem
          · have hmem : y.1 ∈ ms := (List.of_mem_zip (a := y.1) (b := y.2) h).1
            rw [heq] at hmem
            exact hm hmem
          · exact hnot hmem

/-- The slots of a handle, complete or not, are what has been put into them. -/
theorem Recorded.stocks_padded {v : Visited} (hr : Recorded p v) {o : Nat} {guarded : SigSet}
    {filled : List (Option Addr)}
    (hx : (o, (p.members guarded).zip filled) ∈ v.state.records p) :
    v.Stocks o (p.members guarded) (padded p guarded filled) := by
  intro y hy
  obtain ⟨hfilled, hnone⟩ := hr.filled_of hx
  rcases mem_zip_padding ((nodup_loop p).filter _) hy with hy | ⟨hy, hnot⟩
  · exact (hfilled y hy).symm
  · exact hy.trans (hnone y.1 hnot).symm

theorem turn_matches {v : Visited} {a : Act} {ys : List Act} {hs : List Handle} {g' : Global}
    (hr : Recorded p v) (ha : a ∈ v.state.acts) (turn : Turn p v.state a ys hs g')
    (hm : a.call.Matches v) : ∀ y ∈ ys, y.call.Matches v := by
  cases turn with
  | giveUp args filled signo env g' hc op =>
    intro y hy
    obtain rfl := List.mem_singleton.mp hy
    have hx : (args.owner, (p.members args.guarded).zip filled) ∈ v.state.records p := by
      refine List.mem_append.mpr (.inr (List.mem_filterMap.mpr
        ⟨a, List.mem_append.mpr (.inl ha), ?_⟩))
      rw [Act.record, hc]
    exact hr.stocks_padded hx
  | destroyUnlocked handle guarded slot retp signo todo g' hc hsigno op =>
    intro y hy
    obtain rfl := List.mem_singleton.mp hy
    rw [hc] at hm
    exact hm.2.2
  | destroyLocked handle guarded slot slot' retp signo todo g' hc hsigno op =>
    intro y hy
    obtain rfl := List.mem_singleton.mp hy
    rw [hc] at hm
    have hm : v.Stocks handle ((signo :: todo).filter guarded) (slot :: retp) := hm
    rw [List.filter_cons_of_pos hsigno] at hm
    refine ⟨hsigno, ?_, fun x hx => hm x (List.mem_cons_of_mem _ hx)⟩
    cases hmap : v.state.g.map signo with
    | none =>
      simp only [destroyLocked, hmap, pure_ok, Prod.mk.injEq] at op
      exact .inl (op.1 ▸ hm _ List.mem_cons_self)
    | some item => exact .inr (destroyLocked_slot hmap op)
  | destroySkip handle guarded slot retp signo todo unlocked g' hc hsigno op =>
    intro y hy
    obtain rfl := List.mem_singleton.mp hy
    rw [hc] at hm
    cases unlocked with
    | false =>
      have hm : v.Stocks handle ((signo :: todo).filter guarded) retp := hm
      rwa [List.filter_cons_of_neg (by simp [hsigno])] at hm
    | true =>
      cases retp with
      | nil => exact hm.elim
      | cons slot retp => cases hsigno.symm.trans hm.1
  | install set done signo todo env ok =>
    intro y hy
    obtain rfl := List.mem_singleton.mp hy
    cases ok <;> trivial
  | absent r =>
    intro y hy
    split at hy
    · obtain rfl := List.mem_singleton.mp hy
      trivial
    · cases hy
  | siginstalled | rolledBack | siguninstalled | created | destroyed | ignore | restore | resumed
  | claimed | jump | unguard | handled => exact fun y hy => by cases hy
  | rollback | uninstall | create | missing | enter | pass | call | default | query | reset | kill
  | nextFrame | walk | unclaimed | abandon =>
    intro y hy
    obtain rfl := List.mem_singleton.mp hy
    trivial

theorem pushRaise_matches {v : Visited} {t : Tid} {delivered : Bool} {acts : List Act}
    (hm : ∀ a ∈ acts, a.call.Matches v) :
    ∀ a ∈ (s.pushRaise p t signo delivered acts).acts, a.call.Matches v := by
  unfold State.pushRaise
  split
  · split
    · exact List.forall_mem_cons.mpr ⟨trivial, hm⟩
    · exact hm
  · exact List.forall_mem_cons.mpr ⟨trivial, hm⟩

theorem matches_acts {v : Visited} (hr : Recorded p v)
    (hm : ∀ a ∈ v.state.acts, a.call.Matches v) (h : step p v.state act = .ok s') :
    ∀ a ∈ s'.acts, a.call.Matches v := by
  have hothers : ∀ t, ∀ a ∈ v.state.others t, a.call.Matches v := fun t a ha =>
    hm a (List.mem_of_mem_eraseP ha)
  cases step_moves h with
  | idle h => exact h ▸ hm
  | begins t call installs hb h =>
    subst h
    refine List.forall_mem_cons.mpr ⟨?_, hm⟩
    cases hb <;> trivial
  | destroys t hd hf h hact =>
    subst h
    refine List.forall_mem_cons.mpr ⟨?_, hm⟩
    have hx : hd.record p ∈ v.state.records p :=
      List.mem_append.mpr (.inl (List.mem_map_of_mem (List.mem_of_find?_eq_some hf)))
    exact fun y hy => ((hr.filled_of hx).1 y hy).symm
  | raises t signo delivered h => exact h ▸ pushRaise_matches hm
  | turns t a ys hs ht turn ha hh hl hn hd =>
    intro b hb
    rw [ha] at hb
    rcases List.mem_append.mp hb with hb | hb
    · exact turn_matches hr (top_mem ht) turn (hm a (top_mem ht)) b hb
    · exact hothers t b hb
  | reenters t a r phase ht hc hp h =>
    exact h ▸ pushRaise_matches (List.forall_mem_cons.mpr ⟨trivial, hothers t⟩)
  | recovers t a r f fs ht hd hc hr hf h =>
    subst h
    exact fun b hb => hm b (List.mem_of_mem_filter hb)

/-- A visit for one handle does not matter to another. -/
theorem filled_concat (s s' : State) (visits : List Visit) {v : Visit} (hv : v.handle ≠ handle)
    (signo : Signo) :
    (⟨s', visits ++ [v]⟩ : Visited).filled handle signo =
      (⟨s, visits⟩ : Visited).filled handle signo := by
  unfold Visited.filled
  have hmiss : (v.handle == handle && v.signo == signo) = false := by simp [hv]
  rw [List.find?_append, List.find?_cons_of_neg (by simp [hmiss]), List.find?_nil, Option.or_none]

theorem matches_congr {v v' : Visited} {call : Call} (hm : call.Matches v)
    (hv : ∀ handle guarded retp todo unlocked,
      call = .destroy handle guarded retp todo unlocked →
        ∀ signo, v'.filled handle signo = v.filled handle signo) : call.Matches v' := by
  cases call with
  | destroy handle guarded retp todo unlocked =>
    have hfill := hv handle guarded retp todo unlocked rfl
    have hstocks : ∀ {ms xs}, v.Stocks handle ms xs → v'.Stocks handle ms xs :=
      fun h y hy => (h y hy).trans (hfill y.1).symm
    cases unlocked with
    | false => exact hstocks hm
    | true =>
      cases retp with
      | nil => exact hm.elim
      | cons slot retp =>
        cases todo with
        | nil => exact hm.elim
        | cons signo todo => exact ⟨hm.1, hm.2.1.imp_left fun h => h.trans (hfill signo).symm,
            hstocks hm.2.2⟩
  | siginstall | rollback | siguninstall | create | guard | raise => trivial

theorem matches_step {v v' : Visited} (hs : Sound p v.state L) (hs' : Sound p v'.state L')
    (hr : Recorded p v) (hm : ∀ a ∈ v.state.acts, a.call.Matches v)
    (h : visitedStep p v act = .ok v') : ∀ a ∈ v'.state.acts, a.call.Matches v' := by
  obtain ⟨hstep, hvisits⟩ := visitedStep_ok h
  intro a ha
  refine matches_congr (matches_acts hr hm hstep a ha) fun o guarded retp todo unlocked hc signo => ?_
  rcases hvisits with ⟨hsame, -⟩ | ⟨u, hu, hd, hnew⟩
  · unfold Visited.filled
    rw [hsame]
  · obtain ⟨⟨y, -, hy⟩, -⟩ := visit_records hs.inv hu hstep hd
    have hne : u.handle ≠ o := by
      rintro rfl
      have hdestroying : a.destroying = some u.handle := by simp [Act.destroying, hc]
      refine hs'.tidy.not_intact ha hdestroying ?_
      rw [← records_ids p]
      exact List.mem_map_of_mem (f := Prod.fst) hy
    have hconcat := filled_concat v.state v'.state v.visits hne signo
    rwa [← hnew] at hconcat

/-- Of a duplicate-free list something is left out, but nothing that is looked for. -/
theorem filter_of_left {l l' : List Addr} {q : Addr → Bool} (hs : l'.Sublist l) (hd : l.Nodup)
    (hq : ∀ n ∈ l, q n = true → n ∈ l') : l'.filter q = l.filter q := by
  conv_lhs => rw [filter_of_sublist hs hd, List.filter_filter]
  refine List.filter_congr fun n hn => ?_
  cases hqn : q n with
  | false => rfl
  | true => simpa using hq n hn hqn

theorem createNode_map {g g' : Global} {args : CreateArgs} {calloc : Bool} {r : Created}
    (h : createNode g signo args calloc = .ok (r, g')) : g'.map = g.map := by
  unfold createNode at h
  split at h
  · rw [← (Prod.mk.inj (pure_ok.mp h)).2]
  · split at h
    · rw [← (Prod.mk.inj (pure_ok.mp h)).2]
    · obtain ⟨k, -, h⟩ := bind_ok.mp h
      obtain ⟨⟨nodes, ends⟩, -, h⟩ := bind_ok.mp h
      rw [← (Prod.mk.inj (pure_ok.mp h)).2]
      rfl

theorem freeDeferred_map {g g' : Global} {k : Container} (h : freeDeferred g k = .ok g') :
    g'.map = g.map := by
  obtain ⟨⟨nodes, e⟩, -, h⟩ := bind_ok.mp h
  rw [← pure_ok.mp h]
  rfl

theorem destroyLocked_map {g g' : Global} {slot slot' : Option Addr}
    (h : destroyLocked g signo slot = .ok (slot', g')) : g'.map = g.map := by
  unfold destroyLocked at h
  split at h
  · rw [← (Prod.mk.inj (pure_ok.mp h)).2]
  · obtain ⟨k, -, h⟩ := bind_ok.mp h
    obtain ⟨g₁, hf, h⟩ := bind_ok.mp h
    have hmap := freeDeferred_map hf
    split at h
    · rw [← (Prod.mk.inj (pure_ok.mp h)).2]
      exact hmap
    · obtain ⟨nd, -, h⟩ := bind_ok.mp h
      split at h
      · obtain ⟨g₂, hret, h⟩ := bind_ok.mp h
        obtain ⟨linked, -, hret⟩ := bind_ok.mp hret
        obtain ⟨⟨nodes, ends⟩, -, hret⟩ := bind_ok.mp hret
        obtain ⟨nodes', -, hret⟩ := bind_ok.mp hret
        rw [← (Prod.mk.inj (pure_ok.mp h)).2, ← pure_ok.mp hret]
        exact hmap
      · rw [← (Prod.mk.inj (pure_ok.mp h)).2]
        exact hmap

theorem destroyUnlocked_map {g g' : Global} {slot : Option Addr}
    (h : destroyUnlocked g slot = .ok g') : g'.map = g.map := by
  unfold destroyUnlocked at h
  split at h
  · rw [← pure_ok.mp h]
  · obtain ⟨nd, -, h⟩ := bind_ok.mp h
    split at h
    · obtain ⟨nodes, -, h⟩ := bind_ok.mp h
      rw [← pure_ok.mp h]
      rfl
    · rw [← pure_ok.mp h]
      rfl

/-- Creates and destroys leave the map alone. -/
theorem worksOn_map (hw : s.worksOn act = some handle) (h : step p s act = .ok s') :
    s'.g.map = s.g.map := by
  cases act with
  | advance t env =>
    obtain ⟨a, ht, ho⟩ := Option.bind_eq_some_iff.mp hw
    simp only [step, ht] at h
    unfold callSection at h
    cases hc : a.call with
    | create args filled =>
      simp only [hc, createSection] at h
      split at h
      · rw [← pure_ok.mp h]
      · obtain ⟨⟨c, g⟩, hcreate, h⟩ := bind_ok.mp h
        have hmap := createNode_map hcreate
        cases c <;> exact pure_ok.mp h ▸ hmap
    | destroy o guarded retp todo unlocked =>
      simp only [hc, destroySection] at h
      split at h
      · rw [← pure_ok.mp h]
      · split at h
        · split at h
          · cases h
          · split at h
            · obtain ⟨g, hd, h⟩ := bind_ok.mp h
              exact pure_ok.mp h ▸ destroyUnlocked_map hd
            · obtain ⟨⟨slot, g⟩, hd, h⟩ := bind_ok.mp h
              exact pure_ok.mp h ▸ destroyLocked_map hd
        · obtain ⟨⟨slot, g⟩, hd, h⟩ := bind_ok.mp h
          exact pure_ok.mp h ▸ destroyLocked_map hd
    | siginstall | rollback | siguninstall | guard | raise => simp [Act.owner, hc] at ho
  | siginstall | siguninstall | create | destroy | raise | sigguarded | deliver | decide
  | abandon | jump | done => cases hw

/-- What holds of the accounts whenever no destroy is in the way of a raise. -/
structure Audited (p : Platform) (w : Accounts) (L : Layout) : Prop where
  sound : Sound p w.state L
  recorded : Recorded p w.visited
  booked : Booked p w
  matched : ∀ a ∈ w.state.acts, a.call.Matches w.visited

theorem audited_initial (p : Platform) (kernel : Signo → Sigaction) :
    Audited p (.initial kernel) fun _ _ => [] where
  sound := sound_initial p kernel
  recorded := by constructor <;> simp [Accounts.initial, State.records, State.initial]
  booked := booked_initial p kernel
  matched a ha := by cases ha

theorem Audited.step (hw : Audited p w L) (hu : w.state.undisturbed act = true)
    (h : accountsStep p w act = .ok w') : ∃ L', Audited p w' L' ∧
      Lasts w.state act w'.state L L' ∧ Trade p w act w' L L' := by
  obtain ⟨L', hs', hlasts, htrade⟩ := hw.sound.trade hw.recorded hw.booked.backed hu h
  obtain ⟨hv, -⟩ := accountsStep_ok h
  exact ⟨L', ⟨hs', hw.recorded.step hw.sound hv,
    hw.booked.step hw.sound htrade hlasts.containers.nodes,
    matches_step hw.sound hs' hw.recorded hw.matched hv⟩, hlasts, htrade⟩

theorem audited_run {kernel : Signo → Sigaction}
    (hr : Run (accountsStep p) (fun w act => w.state.undisturbed act = true) (.initial kernel) w) :
    ∃ L, Audited p w L := by
  refine hr.invariant (I := fun w => ∃ L, Audited p w L) ⟨_, audited_initial p kernel⟩ ?_
  rintro u act v ⟨L, hu⟩ hact h
  obtain ⟨L', hv, -⟩ := hu.step hact h
  exact ⟨L', hv⟩

/-- A destroy has the slot it comes to. -/
theorem Audited.slots (hw : Audited p w L) {a : Act} (ha : a ∈ w.state.acts) {guarded : SigSet}
    {retp : List (Option Addr)} {todo : List Signo} {unlocked : Bool}
    (hc : a.call = .destroy handle guarded retp (signo :: todo) unlocked)
    (hg : guarded signo = true) : ∃ slot rest, retp = slot :: rest ∧
      (slot = w.visited.filled handle signo ∨ unlocked = true ∧ slot = none) := by
  have hm := hw.matched a ha
  have hstock := hw.sound.tidy.stocked a ha
  simp only [Act.Stocked, hc, List.filter_cons_of_pos hg, List.length_cons] at hstock
  rw [hc] at hm
  cases retp with
  | nil => cases hstock
  | cons slot rest =>
    refine ⟨slot, rest, rfl, ?_⟩
    cases unlocked with
    | true => exact hm.2.1.imp_right fun h => ⟨rfl, h⟩
    | false =>
      have hm : w.visited.Stocks handle ((signo :: todo).filter guarded) (slot :: rest) := hm
      rw [List.filter_cons_of_pos hg] at hm
      exact .inl (hm _ List.mem_cons_self)

theorem mem_freedBy : n ∈ w.freedBy handle ↔ (some handle, n) ∈ w.freed := by
  simp [Accounts.freedBy]

theorem Booked.made_of_freed (hb : Booked p w) {x : Option Nat × Addr} (hx : x ∈ w.freed)
    (ho : x.1 = some handle) : x.2 ∈ w.visited.made handle := by
  refine (hb.balance handle).mem_iff.mp (List.mem_append.mpr (.inl (mem_freedBy.mpr ?_)))
  rwa [← ho]

theorem Booked.made_of_slot (hb : Booked p w) {x : Slot} (hx : x ∈ w.state.pending p) :
    x.node ∈ w.visited.made x.owner := by
  refine (hb.balance x.owner).mem_iff.mp (List.mem_append.mpr (.inr ?_))
  exact List.mem_map_of_mem (List.mem_filter.mpr ⟨hx, beq_self_eq_true _⟩)

/-- A handle that is gone has left nothing behind. -/
theorem Audited.gone (hw : Audited p w L) (ho : handle ∉ w.state.owners) :
    (w.freedBy handle).Perm (w.visited.made handle) ∧
      ∀ n ∈ w.visited.made handle, w.state.g.nodes n = none ∧
        ∀ signo, n ∉ w.state.g.deciders signo := by
  have hnone : w.state.slotNodes p handle = [] := by
    unfold State.slotNodes
    rw [List.map_eq_nil_iff, List.filter_eq_nil_iff]
    intro x hx heq
    exact ho (beq_iff_eq.mp heq ▸ owner_of_pending hx)
  have hbalance := hw.booked.balance handle
  rw [hnone, List.append_nil] at hbalance
  refine ⟨hbalance, fun n hn => ?_⟩
  have hdead := (hw.booked.gone _ (mem_freedBy.mp (hbalance.mem_iff.mpr hn))).2
  refine ⟨hdead, fun signo hmem => ?_⟩
  obtain ⟨nd, hnd⟩ := hw.sound.decider_live hmem
  cases hdead.symm.trans hnd

/-- A node stays on its list while there is a slot for it. -/
theorem Sound.slot_stays (hs' : Sound p s' L') (hl : Lasts s act s' L L') {k : Container}
    {x : Slot} (hn : x.node ∈ L c .global) (hc : s'.g.containers c = some k)
    (hx : x ∈ s'.pending p) : x.node ∈ L' c .global := by
  rcases hl.stays c x.node hn with hn | hgone | ⟨_, hz, _⟩
  · exact hn
  · cases hgone.symm.trans hc
  · obtain ⟨nd', hnd', -⟩ := hs'.inv.wf.owned x hx
    have hpos := hs'.inv.wf.slot_refcount hx hnd'
    rw [hz nd' hnd'] at hpos
    cases hpos

/-- A node that is not of the handle a call works for is there after the step if it was there
before. -/
theorem Audited.others_live (hw : Audited p w L) (hw' : Audited p w' L')
    (hon : w.state.worksOn act = some handle) (ht : Trade p w act w' L L')
    (hn : n ∉ w'.visited.made handle) :
    (w'.state.g.nodes n).isSome = (w.state.g.nodes n).isSome := by
  have both : ((∃ nd', w'.state.g.nodes n = some nd') ↔ ∃ nd, w.state.g.nodes n = some nd) →
      (w'.state.g.nodes n).isSome = (w.state.g.nodes n).isSome := by
    intro h
    rw [Bool.eq_iff_iff, Option.isSome_iff_exists, Option.isSome_iff_exists]
    exact h
  cases ht with
  | keeps hp hm hf hl hsub =>
    refine both ⟨fun ⟨nd', hnd'⟩ => hl n nd' hnd', fun ⟨nd, hnd⟩ => ?_⟩
    obtain ⟨x, hx, rfl⟩ := hw.booked.backed n nd hnd
    obtain ⟨nd', hnd', -⟩ := hw'.sound.inv.wf.owned x (hp.mem_iff.mpr hx)
    exact ⟨nd', hnd'⟩
  | makes x item first ho hj hp hm hf =>
    have hown : x.owner = handle := Option.some.inj (ho.symm.trans hon)
    have hne : n ≠ x.node := by
      rintro rfl
      exact hn (hown ▸ hw'.booked.made_of_slot (hp.mem_iff.mpr List.mem_cons_self))
    have hpay := congrArg Option.isSome (hj.payload n hne)
    rwa [Option.isSome_map, Option.isSome_map] at hpay
  | frees x ho hp hm hf hd hl hsub =>
    have hown : x.owner = handle := Option.some.inj ((destroys_works ho).symm.trans hon)
    refine both ⟨fun ⟨nd', hnd'⟩ => hl n nd' hnd', fun ⟨nd, hnd⟩ => ?_⟩
    obtain ⟨y, hy, rfl⟩ := hw.booked.backed n nd hnd
    rcases List.mem_cons.mp (hp.mem_iff.mp hy) with rfl | hy'
    · refine absurd ?_ hn
      rw [hm, ← hown]
      exact hw.booked.made_of_slot hy
    · obtain ⟨nd', hnd', -⟩ := hw'.sound.inv.wf.owned y hy'
      exact ⟨nd', hnd'⟩

/-- The deciders of all other handles stay where they are. -/
theorem Audited.others_stay (hw : Audited p w L) (hw' : Audited p w' L')
    (hlasts : Lasts w.state act w'.state L L') (hon : w.state.worksOn act = some handle)
    (hmap : w'.state.g.map = w.state.g.map) (ht : Trade p w act w' L L') (signo : Signo) :
    w'.visited.others handle signo = w.visited.others handle signo := by
  unfold Visited.others
  change (w'.state.g.deciders signo).filter _ = (w.state.g.deciders signo).filter _
  cases hm : w.state.g.map signo with
  | none => rw [deciders_unmapped hm, deciders_unmapped (hmap ▸ hm)]; rfl
  | some c =>
    have hm' : w'.state.g.map signo = some c := hmap ▸ hm
    obtain ⟨k', hk'⟩ := hw'.sound.inv.wf.mapped signo c hm'
    obtain ⟨k, hk⟩ := hw.sound.inv.wf.mapped signo c hm
    have hnodup := (hw.sound.inv.wf.lists c k .global hk).nodup
    rw [hw.sound.deciders_mapped hm, hw'.sound.deciders_mapped hm']
    cases ht with
    | keeps hp hmade hf hl hsub =>
      rw [hmade]
      refine filter_of_left (hsub c) hnodup fun n hn _ => ?_
      obtain ⟨nd, hnd⟩ := hw.sound.live.live signo c hm n hn
      obtain ⟨x, hx, rfl⟩ := hw.booked.backed n nd hnd
      exact hw'.sound.slot_stays hlasts hn hk' (hp.mem_iff.mpr hx)
    | makes x item first ho hj hp hmade hf =>
      have hown : handle = x.owner := Option.some.inj (hon.symm.trans ho)
      rw [hmade, if_pos hown]
      have hold : (L c .global).filter (fun n =>
          !(w.visited.made handle ++ [x.node]).contains n) =
          (L c .global).filter fun n => !(w.visited.made handle).contains n := by
        refine List.filter_congr fun n hn => ?_
        have hne : n ≠ x.node := Nat.ne_of_lt (hj.newest c .global n hn)
        simp [hne]
      by_cases hitem : c = item
      · subst hitem
        rw [hj.place, ← hold]
        cases first with
        | true => rw [if_pos rfl, List.filter_cons_of_neg (by simp)]
        | false =>
          rw [if_neg (by simp), List.filter_append, List.filter_cons_of_neg (by simp),
            List.filter_nil, List.append_nil]
      · rw [hj.rest c .global (.inl hitem), hold]
    | frees x ho hp hmade hf hd hl hsub =>
      have hown : x.owner = handle := Option.some.inj ((destroys_works ho).symm.trans hon)
      rw [hmade]
      refine filter_of_left (hsub c) hnodup fun n hn hother => ?_
      obtain ⟨nd, hnd⟩ := hw.sound.live.live signo c hm n hn
      obtain ⟨y, hy, rfl⟩ := hw.booked.backed n nd hnd
      rcases List.mem_cons.mp (hp.mem_iff.mp hy) with rfl | hy'
      · have hmem := hw.booked.made_of_slot hy
        rw [hown] at hmem
        simp [hmem] at hother
      · exact hw'.sound.slot_stays hlasts hn hk' hy'

/-- Each section of a destroy brings it nearer to its end. -/
theorem destroySection_next {a : Act} {guarded : SigSet} {retp : List (Option Addr)}
    {todo : List Signo} {unlocked : Bool} {rest : List Act}
    (h : destroySection s a handle guarded retp (signo :: todo) unlocked rest = .ok s') :
    ∃ retp' todo' unlocked',
      s'.acts = a.goto (.destroy handle guarded retp' todo' unlocked') :: rest ∧
        s'.lost = s.lost ∧ 2 * todo'.length + (!unlocked').toNat <
          2 * (signo :: todo).length + (!unlocked).toNat := by
  simp only [destroySection] at h
  split at h
  · split at h
    · cases h
    · split at h
      · obtain ⟨g, -, h⟩ := bind_ok.mp h
        obtain rfl := pure_ok.mp h
        refine ⟨_, _, _, rfl, rfl, ?_⟩
        simp only [List.length_cons, Bool.not_false, Bool.toNat_true]
        omega
      · rename_i hunlocked
        obtain ⟨⟨slot, g⟩, -, h⟩ := bind_ok.mp h
        obtain rfl := pure_ok.mp h
        refine ⟨_, _, _, rfl, rfl, ?_⟩
        rw [Bool.not_eq_true] at hunlocked
        simp [hunlocked]
  · obtain ⟨⟨slot, g⟩, -, h⟩ := bind_ok.mp h
    obtain rfl := pure_ok.mp h
    refine ⟨_, _, _, rfl, rfl, ?_⟩
    simp only [List.length_cons, Bool.not_false, Bool.toNat_true]
    omega

theorem Audited.section (hw : Audited p w L) {t : Tid} {a : Act} (ht : w.state.top t = some a)
    {guarded : SigSet} {retp : List (Option Addr)} {todo : List Signo} {unlocked : Bool}
    (hc : a.call = .destroy handle guarded retp todo unlocked) (hh : w.state.holds = []) :
    ∃ w', accountsStep p w (.advance t {}) = .ok w' ∧
      destroySection w.state a handle guarded retp todo unlocked (w.state.others t) =
        .ok w'.state := by
  have hsection : Wg14Signals.step p w.state (.advance t {}) =
      destroySection w.state a handle guarded retp todo unlocked (w.state.others t) := by
    simp only [Wg14Signals.step, ht, callSection, hc]
  cases hd : destroySection w.state a handle guarded retp todo unlocked (w.state.others t) with
  | error e =>
    refine absurd (destroySection_fails (p := p) (top_mem ht) hc hd) ?_
    refine hw.sound.inv.safe hw.sound.tidy hw.sound.live.live fun x hx => ?_
    rw [hh] at hx
    cases hx
  | ok s' =>
    obtain ⟨w', h, rfl⟩ := accountsStep_run (hsection.trans hd)
    exact ⟨w', h, rfl⟩

/-- A destroy comes to its end by itself. -/
theorem Audited.ends (k : Nat) (hw : Audited p w L) {t : Tid} {a : Act}
    (ht : w.state.top t = some a) {guarded : SigSet} {retp : List (Option Addr)}
    {todo : List Signo} {unlocked : Bool}
    (hc : a.call = .destroy handle guarded retp todo unlocked) (hh : w.state.holds = [])
    (hk : 2 * todo.length + (!unlocked).toNat ≤ k) :
    ∃ w', Run (accountsStep p) (Accounts.continues t handle) w w' ∧ handle ∉ w'.state.owners := by
  induction k using Nat.strongRecOn generalizing w L a retp todo unlocked with
  | ind k ih =>
    obtain ⟨w₁, h, hd⟩ := hw.section ht hc hh
    have hundisturbed : w.state.undisturbed (.advance t {}) = true := by
      simp [State.undisturbed, hh]
    have hworks : w.state.worksOn (.advance t {}) = some handle := by
      simp [State.worksOn, ht, Act.owner, hc]
    obtain ⟨L₁, hw₁, -⟩ := hw.step hundisturbed h
    have hrun : Run (accountsStep p) (Accounts.continues t handle) w w₁ :=
      .tail _ (.refl _) ⟨⟨_, rfl⟩, hworks, hundisturbed⟩ h
    cases todo with
    | nil =>
      refine ⟨w₁, hrun, ?_⟩
      simp only [destroySection, pure_ok] at hd
      have hsplit := owners_split (l := [a]) (find_perm ht)
      rw [List.filterMap_cons_some (b := handle) (by simp [Act.owner, hc])] at hsplit
      have hfresh := (List.nodup_cons.mp (hsplit.nodup_iff.mp hw.sound.tidy.owners)).1
      rw [← hd]
      exact hfresh
    | cons signo todo =>
      obtain ⟨retp', todo', unlocked', hacts, hlost, hless⟩ := destroySection_next hd
      have htop : w₁.state.top t =
          some (a.goto (.destroy handle guarded retp' todo' unlocked')) :=
        top_cons hacts (show a.tid = t from top_tid ht)
      have hholds : w₁.state.holds = [] := by
        unfold State.holds at hh ⊢
        rw [List.flatMap_eq_nil_iff] at hh ⊢
        intro b hb
        rw [hacts, hlost, List.cons_append] at hb
        rcases List.mem_cons.mp hb with rfl | hb
        · rfl
        · refine hh b ?_
          rcases List.mem_append.mp hb with hb | hb
          · exact List.mem_append.mpr (.inl (List.mem_of_mem_eraseP hb))
          · exact List.mem_append.mpr (.inr hb)
      obtain ⟨w', hrest, hgone⟩ := ih _ (Nat.lt_of_lt_of_le hless hk) hw₁ htop rfl hholds
        (Nat.le_refl _)
      exact ⟨w', hrun.trans hrest, hgone⟩

theorem create_global {t : Tid} {guarded : Option SigSet} {callfirst malloc : Bool}
    {decider : Option Nat} {value : Int}
    (h : step p s (.create t guarded callfirst decider value malloc) = .ok s') : s'.g = s.g := by
  simp only [step] at h
  split at h
  · split at h
    · split at h
      · rw [← pure_ok.mp h]
      · rw [← pure_ok.mp h]
        rfl
    · rw [← pure_ok.mp h]
  · cases h

/-- What a call does for a handle it does on top of what the others have on the lists, and with
the handle it goes. -/
theorem Audited.undone (hw : Audited p w L) {t : Tid}
    (hr : Run (accountsStep p) (Accounts.continues t handle) w w')
    (hmade : w.visited.made handle = []) (ho : handle ∉ w'.state.owners) (signo : Signo) :
    w'.state.g.deciders signo = w.state.g.deciders signo := by
  have hothers : (∃ L', Audited p w' L') ∧
      w'.visited.others handle signo = w.visited.others handle signo := by
    refine hr.invariant (I := fun u => (∃ L', Audited p u L') ∧
      u.visited.others handle signo = w.visited.others handle signo) ⟨⟨L, hw⟩, rfl⟩ ?_
    rintro u act v ⟨⟨L₁, hu⟩, hsame⟩ ⟨-, hworks, hundisturbed⟩ h
    obtain ⟨L₂, hv, hlasts, htrade⟩ := hu.step hundisturbed h
    have hmap := worksOn_map hworks (visitedStep_ok (accountsStep_ok h).1).1
    exact ⟨⟨L₂, hv⟩, (hu.others_stay hv hlasts hworks hmap htrade signo).trans hsame⟩
  obtain ⟨⟨L', hw'⟩, hothers⟩ := hothers
  have hbefore : w.visited.others handle signo = w.state.g.deciders signo := by
    unfold Visited.others
    rw [hmade]
    exact List.filter_eq_self.mpr fun n _ => rfl
  have hafter : w'.visited.others handle signo = w'.state.g.deciders signo := by
    refine List.filter_eq_self.mpr fun n hn => ?_
    have hnot : n ∉ w'.visited.made handle := fun hmem => ((hw'.gone ho).2 n hmem).2 signo hn
    simpa using hnot
  exact hafter.symm.trans (hothers.trans hbefore)

theorem Audited.failed (hw : Audited p w L) {t : Tid} {guarded : Option SigSet}
    {callfirst malloc : Bool} {decider : Option Nat} {value : Int} {w₁ : Accounts}
    (h : accountsStep p w (.create t guarded callfirst decider value malloc) = .ok w₁)
    (hr : Run (accountsStep p) (Accounts.continues t w.state.nextId) w₁ w')
    (ho : w.state.nextId ∉ w'.state.owners) (signo : Signo) :
    w'.state.g.deciders signo = w.state.g.deciders signo := by
  obtain ⟨L₁, hw₁, -⟩ := hw.step rfl h
  obtain ⟨hv, -⟩ := accountsStep_ok h
  obtain ⟨hstep, hvisits⟩ := visitedStep_ok hv
  have hmade : w₁.visited.made w.state.nextId = [] := by
    rcases hvisits with ⟨hsame, -⟩ | ⟨u, hu, -⟩
    · unfold Visited.made
      rw [hsame, List.filter_eq_nil_iff.mpr, List.filterMap_nil]
      exact fun v hv heq => Nat.ne_of_lt (hw.recorded.fresh v hv) (beq_iff_eq.mp heq)
    · cases hu
  rw [hw₁.undone hr hmade ho signo, show w₁.state.g = w.state.g from create_global hstep]

end

/-- While no destroy runs during a raise, each handle takes back exactly the nodes that were made
for it, also when the last of them could not be made. -/
theorem destroy_undoes_create (p : Platform) (kernel : Signo → Sigaction) {w : Accounts}
    (hr : Run (accountsStep p) (fun w act => w.state.undisturbed act = true) (.initial kernel) w) :
    Undoes p w := by
  obtain ⟨L, hw⟩ := audited_run hr
  refine ⟨fun a ha handle guarded retp signo todo unlocked hc hg => hw.slots ha hc hg,
    fun x hx => ?_, hw.booked.once, fun handle ho => hw.gone ho,
    fun act w' handle hundisturbed h hon => ?_, fun t a handle ht hd hh => ?_,
    fun t guarded callfirst decider value malloc w₁ w' h hrun ho signo => hw.failed h hrun ho signo⟩
  · obtain ⟨handle, ho⟩ := hw.booked.destroyed x hx
    exact ⟨handle, ho, hw.booked.made_of_freed hx ho⟩
  · obtain ⟨L', hw', hlasts, htrade⟩ := hw.step hundisturbed h
    have hmap := worksOn_map hon (visitedStep_ok (accountsStep_ok h).1).1
    exact ⟨hmap, fun n hn => hw.others_live hw' hon htrade hn,
      hw.others_stay hw' hlasts hon hmap htrade⟩
  · unfold Act.destroying at hd
    split at hd
    · rename_i hc
      cases hd
      exact hw.ends _ ht hc hh (Nat.le_refl _)
    · cases hd

/-- Three handles, two of them for signals 1 and 2. Only signal 2 is installed when the first is
made, the third runs out of memory at signal 2, and both are destroyed. -/
theorem destroy_undoes_create_mixed :
    ∃ w, Run (accountsStep .tiny) (fun w act => w.state.undisturbed act = true)
        (.initial fun _ => .dfl) w ∧
      w.freed = [(some 4, 2), (some 1, 0)] ∧ w.state.g.deciders 2 = [1] ∧ Undoes .tiny w := by
  obtain ⟨w, hr, hq⟩ := run_of_ends (f := accountsStep .tiny)
    (r := fun w act => w.state.undisturbed act = true) (s := .initial fun _ => .dfl)
    (c := fun w act => w.state.undisturbed act)
    (q := fun w => w.freed == [(some 4, 2), (some 1, 0)] && w.state.g.deciders 2 == [1])
    (l := [.siginstall 0 (some fun n => n == 2) true, .advance 0 {}, .advance 0 {},
        .create 0 (some fun n => n == 1 || n == 2) false (some 0) 0 true] ++
      List.replicate 3 (.advance 0 {}) ++
      [.create 0 (some fun n => n == 2) false (some 0) 0 true, .advance 0 {}, .advance 0 {}] ++
      installOne ++
      [.create 0 (some fun n => n == 1 || n == 2) false (some 0) 0 true, .advance 0 {},
        .advance 0 { calloc := false }] ++
      List.replicate 6 (.advance 0 {}) ++ [.destroy 0 1] ++ List.replicate 6 (.advance 0 {}))
    (fun _ _ h => h) (by decide)
  simp only [Bool.and_eq_true, beq_iff_eq] at hq
  exact ⟨w, hr, hq.1, hq.2, destroy_undoes_create .tiny _ hr⟩

end Wg14Signals
