import Wg14Signals.Deciders
import Wg14Signals.Raise
import Wg14Signals.Proofs.Containers

namespace Wg14Signals
open Lib

/-- What registering node `i` changes: it joins one list, at either end, and
nothing else about lists or nodes moves. -/
structure Joins (i item : Addr) (owner : Nat) (callfirst : Bool) (g g' : Global) (L L' : Layout) :
    Prop where
  unused : g.nodes i = none
  containers : Outlives g g'
  fresh : i = g.nextNode
  newest : ∀ c w, ∀ n ∈ L c w, n < i
  place : L' item .global = if callfirst then i :: L item .global else L item .global ++ [i]
  rest : ∀ c w, c ≠ item ∨ w ≠ .global → L' c w = L c w
  live : ∃ nd, g'.nodes i = some nd ∧ nd.owner = owner
  payload : ∀ n, n ≠ i → (g'.nodes n).map DList.payload = (g.nodes n).map DList.payload
  map : g'.map = g.map

section

variable {i item : Addr} {owner : Nat} {callfirst : Bool} {g g' : Global} {L L' : Layout}

theorem Joins.unlisted (hj : Joins i item owner callfirst g g' L L') (c : Addr) (w : Which) :
    i ∉ L c w :=
  fun hn => absurd (hj.newest c w i hn) (Nat.lt_irrefl i)

theorem Joins.mem_iff (hj : Joins i item owner callfirst g g' L L') {c : Addr} {w : Which} :
    L' c w = L c w ∨ w = .global ∧ ∀ n, n ∈ L' c w ↔ n = i ∨ n ∈ L c w := by
  by_cases he : c = item ∧ w = .global
  · obtain ⟨rfl, rfl⟩ := he
    refine Or.inr ⟨rfl, fun n => ?_⟩
    rw [hj.place]
    cases callfirst <;> simp [or_comm]
  · exact Or.inl (hj.rest c w (not_and_or.mp he))

theorem Joins.member (hj : Joins i item owner callfirst g g' L L') {c : Addr} {w : Which} {n : Addr}
    (hn : n ∈ L' c w) : n = i ∨ n ∈ L c w := by
  rcases hj.mem_iff (c := c) (w := w) with he | ⟨_, he⟩
  · exact Or.inr (he ▸ hn)
  · exact (he n).mp hn

theorem Joins.still (hj : Joins i item owner callfirst g g' L L') {c : Addr} {w : Which} {n : Addr}
    (hn : n ∈ L c w) : n ∈ L' c w := by
  rcases hj.mem_iff (c := c) (w := w) with he | ⟨_, he⟩
  · exact he ▸ hn
  · exact (he n).mpr (Or.inr hn)

/-- Apart from the new node the lists are the old ones. -/
theorem Joins.others (hj : Joins i item owner callfirst g g' L L') (c : Addr) (w : Which) :
    (L' c w).filter (fun n => n ≠ i) = L c w := by
  have hkeep : (L c w).filter (fun n => n ≠ i) = L c w := by
    refine List.filter_eq_self.mpr fun n hn => ?_
    have hne : n ≠ i := Nat.ne_of_lt (hj.newest c w n hn)
    simpa using hne
  by_cases he : c = item ∧ w = .global
  swap
  · rw [hj.rest c w (not_and_or.mp he), hkeep]
  · obtain ⟨rfl, rfl⟩ := he
    rw [hj.place]
    cases callfirst with
    | true => rw [if_pos rfl, List.filter_cons_of_neg (by simp), hkeep]
    | false => rw [if_neg (by simp), List.filter_append, hkeep, List.filter_cons_of_neg (by simp),
        List.filter_nil, List.append_nil]

end

/-- Whoever is on a list stays when one member is cut out, but for that one. -/
theorem mem_or_eq {l a b : List Addr} {n m : Addr} {q : Prop} (hl : l = a ++ n :: b) (hm : m ∈ l) :
    m ∈ a ++ b ∨ some n = some m ∨ q := by
  rw [hl] at hm
  simp only [List.mem_append, List.mem_cons] at hm ⊢
  rcases hm with hm | rfl | hm
  · exact Or.inl (Or.inl hm)
  · exact Or.inr (Or.inl rfl)
  · exact Or.inl (Or.inr hm)

/-- A duplicate-free list can be cut at a member in one way. -/
theorem split_unique {l a b a' b' : List Addr} {m : Addr} (hd : l.Nodup) (h : l = a ++ m :: b)
    (h' : l = a' ++ m :: b') : a = a' ∧ b = b' := by
  have heq : a ++ m :: b = a' ++ m :: b' := h.symm.trans h'
  rw [h, List.nodup_append, List.nodup_cons] at hd
  obtain ⟨ha, _, hb⟩ := (List.append_cons_inj_of_notMem
    (fun hm => hd.2.2 m hm m List.mem_cons_self rfl) hd.2.1.1).mp heq
  exact ⟨ha, hb⟩

/-- Rewriting one node, its owner excepted, leaves lists and liveness alone. -/
theorem Evolves.rewrite {y : Option Addr} {g : Global} {L : Layout} {n : Addr} {nd : Node}
    (hn : g.nodes n = some nd) (nd' : Node) (ho : nd'.owner = nd.owner) :
    Evolves none y g (g.setNode n (some nd')) L L where
  containers := (Outlives.refl g).congr rfl (Nat.le_refl _) (Nat.le_refl _)
  shrinks _ := List.Sublist.refl _
  keeps _ _ _ hm := Or.inl hm
  members _ w _ hm := ⟨w, hm⟩
  retired c _ hm := Or.inl ⟨c, hm⟩
  spares _ _ m _ hg := by
    by_cases he : m = n
    · simp [he] at hg
    · exact Or.inl ((Heap.set_other _ _ he).symm.trans hg)
  owners m md hg := by
    by_cases he : m = n
    · subst he
      simp only [Global.setNode_nodes, Heap.set_self, Option.some.injEq] at hg
      subst hg
      exact ⟨nd, hn, ho.symm⟩
    · exact ⟨md, (Heap.set_other _ _ he).symm.trans hg, rfl⟩

/-- Freeing a node is the one thing that can leave a dead one on a list. -/
theorem Evolves.kill {y : Option Addr} {g : Global} {L : Layout} (n : Addr) :
    Evolves (some n) y g (g.setNode n none) L L where
  containers := (Outlives.refl g).congr rfl (Nat.le_refl _) (Nat.le_refl _)
  shrinks _ := List.Sublist.refl _
  keeps _ _ _ hm := Or.inl hm
  members _ w _ hm := ⟨w, hm⟩
  retired c _ hm := Or.inl ⟨c, hm⟩
  spares _ _ m _ hg := by
    by_cases he : m = n
    · exact Or.inr (by rw [he])
    · exact Or.inl ((Heap.set_other _ _ he).symm.trans hg)
  owners m md hg := by
    by_cases he : m = n
    · simp [he] at hg
    · exact ⟨md, (Heap.set_other _ _ he).symm.trans hg, rfl⟩

namespace Wf

variable {g g' : Global} {L L' : Layout} {pend pend' : List Slot} {cs cs' ns ns' : List Addr}
  {c n : Addr} {k k' : Container} {nd : Node}

/-- A new node starts with the one reference of the handle slot it goes into. -/
theorem alloc (h : Wf g L pend cs ns) (args : CreateArgs) (signo : Signo) :
    Wf (({ g with nextNode := g.nextNode + 1 } : Global).setNode g.nextNode
      (some (newDecider args))) L (⟨args.owner, signo, g.nextNode⟩ :: pend) cs ns := by
  have hfresh : g.nodes g.nextNode = none := h.nodeFresh _ (Nat.le_refl _)
  have hset : ∀ m md, g.nodes m = some md →
      g.nodes.set g.nextNode (some (newDecider args)) m = some md := by
    intro m md hm
    have hne : m ≠ g.nextNode := by
      rintro rfl
      rw [hfresh] at hm
      cases hm
    rw [Heap.set_other _ _ hne, hm]
  have hpend : g.nextNode ∉ pend.map Slot.node := by
    intro hm
    obtain ⟨x, hx, he⟩ := List.mem_map.mp hm
    obtain ⟨md, hmd, _⟩ := h.owned x hx
    rw [he, hfresh] at hmd
    cases hmd
  have hns : g.nextNode ∉ ns := by
    intro hm
    obtain ⟨md, hmd⟩ := h.pinned _ hm
    rw [hfresh] at hmd
    cases hmd
  refine ⟨?_, h.containerFresh, ?_, h.dead, h.mapped, h.mapInj, ?_, h.unshared, ?_, h.lifetime,
    ?_, ?_, ?_, ?_, h.held, ?_⟩
  · intro m hm
    have hm' : g.nextNode + 1 ≤ m := hm
    exact (Heap.set_other _ _ (Nat.ne_of_gt hm')).trans (h.nodeFresh m (Nat.le_of_succ_le hm'))
  · exact fun d w m hm => Nat.lt_succ_of_lt (h.bound d w m hm)
  · intro d kd w hd
    refine (h.lists d kd w hd).mono fun m hm md' hmd' => ⟨md', ?_, rfl⟩
    have hne : m ≠ g.nextNode := Nat.ne_of_lt (h.bound d w m hm)
    exact (Heap.set_other _ _ hne).symm.trans hmd'
  · intro d m hm
    obtain ⟨md, hmd, hz⟩ := h.retired d m hm
    exact ⟨md, hset m md hmd, hz⟩
  · intro m md hm
    by_cases he : m = g.nextNode
    · subst he
      simp only [Global.setNode_nodes, Heap.set_self, Option.some.injEq] at hm
      subst hm
      rw [List.map_cons, List.count_cons_self, List.count_eq_zero.mpr hpend,
        List.count_eq_zero.mpr hns]
      rfl
    · have hm' := (Heap.set_other _ _ he).symm.trans hm
      rw [List.map_cons, List.count_cons_of_ne (Ne.symm he)]
      exact h.refcount m md hm'
  · intro x hx
    rcases List.mem_cons.mp hx with rfl | hx
    · exact ⟨newDecider args, Heap.set_self _ _ _, rfl⟩
    · obtain ⟨md, hmd, ho⟩ := h.owned x hx
      exact ⟨md, hset _ md hmd, ho⟩
  · rw [List.map_cons]
    exact List.nodup_cons.mpr ⟨hpend, h.distinct⟩
  · intro x hx s d hd hm
    rcases List.mem_cons.mp hx with rfl | hx
    · exact absurd (h.bound d .global _ hm) (Nat.lt_irrefl _)
    · exact h.aligned x hx s d hd hm
  · intro m hm
    obtain ⟨md, hmd⟩ := h.pinned m hm
    exact ⟨md, hset m md hmd⟩

theorem create (h : Wf g L pend cs ns) {signo : Signo} {args : CreateArgs} {calloc : Bool}
    {r : Created} (hr : createNode g signo args calloc = .ok (r, g')) :
    match r with
    | .linked i => ∃ item L', g.map signo = some item ∧
        Wf g' L' (⟨args.owner, signo, i⟩ :: pend) cs ns ∧
        Joins i item args.owner args.callfirst g g' L L'
    | _ => g' = g := by
  unfold createNode at hr
  split at hr
  · simp only [pure_ok, Prod.mk.injEq] at hr
    obtain ⟨rfl, rfl⟩ := hr
    rfl
  · rename_i item hm
    split at hr
    · simp only [pure_ok, Prod.mk.injEq] at hr
      obtain ⟨rfl, rfl⟩ := hr
      rfl
    · obtain ⟨k, hk, hr⟩ := bind_ok.mp hr
      obtain ⟨_, he, hc⟩ := Heap.read_ok.mp hk
      cases he
      obtain ⟨⟨nodes', ends⟩, hi, hr⟩ := bind_ok.mp hr
      simp only [pure_ok, Prod.mk.injEq] at hr
      obtain ⟨rfl, rfl⟩ := hr
      have ha := h.alloc args signo
      have hfresh : g.nodes g.nextNode = none := h.nodeFresh _ (Nat.le_refl _)
      have hun : ∀ d w, g.nextNode ∉ L d w :=
        fun d w hm => absurd (h.bound d w _ hm) (Nat.lt_irrefl _)
      have hl := ha.lists item k .global hc
      have hblank : ∀ a, g.nodes.set g.nextNode (some (newDecider args)) g.nextNode = some a →
          Linked.links a = {} := by
        intro a ha
        simp only [Heap.set_self, Option.some.injEq] at ha
        subst ha
        rfl
      -- both ends: the surgery is the same but for where the new node goes
      obtain ⟨xs, hrel, hlist, hxs⟩ : ∃ xs,
          DList.Relinked (g.nodes.set g.nextNode (some (newDecider args))) nodes'
            (g.nextNode :: L item .global) ∧ DList.IsList nodes' ends xs ∧
          xs = if args.callfirst then g.nextNode :: L item .global
            else L item .global ++ [g.nextNode] := by
        unfold linkDecider at hi
        split at hi
        · rename_i hfirst
          obtain ⟨rfl, rfl⟩ := DList.insertFront_ok hl hblank hi
          exact ⟨g.nextNode :: L item .global, DList.prepended_relinked _ _ _,
            DList.prepended_isList hl (hun item .global), (if_pos hfirst).symm⟩
        · rename_i hfirst
          obtain ⟨rfl, rfl⟩ := DList.insertBack_ok hl hblank hi
          exact ⟨L item .global ++ [g.nextNode], DList.appended_relinked _ _ _,
            DList.appended_isList hl (hun item .global), (if_neg hfirst).symm⟩
      have hmem : ∀ m ∈ xs, m = g.nextNode ∨ m ∈ L item .global := by
        intro m hm
        rw [hxs] at hm
        cases hfirst : args.callfirst <;> simpa [hfirst, or_comm] using hm
      let k' : Container := { k with globalHandler := ends }
      have hsurg := (ha.shape hc).relink [g.nextNode] k'.ends hrel
        (by simpa using hun item .deferred) rfl
        (fun m hm => (hmem m hm).symm.imp_right (by simp)) hlist
      have hw := ha.surgery k' hc rfl hsurg (by simpa using hun)
        (by simp) (by
          intro x hx hxn s hs
          rcases List.mem_cons.mp hx with rfl | hx
          · exact h.mapInj s signo item hs hm
          · obtain ⟨md, hmd, _⟩ := h.owned x hx
            rw [List.mem_singleton.mp hxn, hfresh] at hmd
            cases hmd)
      refine ⟨item, _, hm, hw, hfresh,
        (Outlives.setContainer hc k' id).congr rfl (Nat.le_refl _) (Nat.le_succ _), rfl, h.bound, ?_,
        ?_, ?_, ?_, rfl⟩
      · rw [Layout.set_self]
        exact hxs
      · intro d w hd
        by_cases he : d = item
        · subst he
          rw [Layout.set_self]
          cases w with
          | global => exact absurd hd (by simp)
          | deferred => rfl
        · rw [Layout.set_other _ _ he]
      · have hp := hrel.payload g.nextNode
        rw [Heap.set_self] at hp
        obtain ⟨md, hmd, hpay⟩ := Option.map_eq_some_iff.mp hp
        exact ⟨md, hmd, owner_of_payload hpay.symm⟩
      · intro m hm
        exact (hrel.payload m).trans (by rw [Heap.set_other _ _ hm])

/-- A node of one of the container's lists, found there and cut out. -/
theorem unlink (h : Wf g L pend cs ns) (hc : g.containers c = some k) {a b : List Addr}
    (hl : L c .global = a ++ n :: b) {nodes' : Heap Node} {ends : Ends}
    (hr : DList.remove Fault.node g.nodes k.globalHandler n = .ok (nodes', ends)) :
    Surgery [] g.nodes (L c) nodes' ({ k with globalHandler := ends } : Container).ends
      (Shape.withGlobal (L c) (a ++ b)) := by
  have hlist := h.lists c k .global hc
  rw [hl] at hlist
  obtain ⟨rfl, rfl⟩ := DList.remove_ok hlist hr
  let k' : Container := { k with globalHandler := ⟨(a ++ b).head?, (a ++ b).getLast?⟩ }
  refine (h.shape hc).relink [] k'.ends ?_ (by simp) rfl ?_
    (DList.unlinked_isList hlist)
  · rw [List.nil_append, hl]
    exact DList.unlinked_relinked _ _ _ _
  · intro m hm
    rw [hl]
    refine Or.inl ?_
    simp only [List.mem_append, List.mem_cons] at hm ⊢
    exact hm.imp_right Or.inr

/-- The mapped container gives up a node without references, linked in it or not. -/
theorem retire (h : Wf g L pend cs ns) (hc : g.containers c = some k)
    (hn : g.nodes n = some nd) (hz : nd.refcount = 0) (hd : ∀ d, n ∉ L d .deferred)
    (hr : retireNode g c k n = .ok g') :
    ∃ L', Wf g' L' pend cs ns ∧ Evolves (some n) (some n) g g' L L' ∧ g'.nodes n = none ∧
      n ∉ L' c .global := by
  obtain ⟨linked, hfind, hr⟩ := bind_ok.mp hr
  obtain ⟨⟨nodes₁, ends⟩, hrem, hr⟩ := bind_ok.mp hr
  obtain ⟨nodes₂, hfree, hr⟩ := bind_ok.mp hr
  simp only [pure_ok] at hr
  subst hr
  obtain ⟨⟨nd₁, hn₁⟩, rfl⟩ := Heap.free_ok.mp hfree
  have hlist := h.lists c k .global hc
  have hfind' : DList.find Fault.node .stuck g.nodes n g.nextNode (L c .global).head? = .ok linked := by
    rw [← hlist.front]
    exact hfind
  have hmem := DList.find_ok hlist.seg hfind'
  cases hlinked : linked with
  | true =>
    rw [hlinked] at hrem hmem
    simp only [unlinkDecider, ↓reduceIte] at hrem
    obtain ⟨a, b, hl⟩ := List.append_of_mem (hmem.mp rfl)
    have hs := h.unlink hc hl hrem
    have hw := h.cut { k with globalHandler := ends } hc rfl hs
    have hsub : (a ++ b).Sublist (L c .global) := by
      rw [hl]
      exact (List.sublist_cons_self n b).append_left a
    have he : Evolves none (some n) g _ L _ := h.cut_evolves hs rfl
      (.cut hc { k with globalHandler := ends } id) hsub
      (fun m hm => mem_or_eq hl hm) fun m hm => Or.inl hm
    obtain ⟨nd₂, hn₂, hp⟩ := hs.payload n nd₁ hn₁
    rw [hn] at hn₂
    cases hn₂
    have hz₁ : nd₁.refcount = 0 := (refcount_of_payload hp).trans hz
    have hd' : ∀ d, n ∉ (L.set c (Shape.withGlobal (L c) (a ++ b))) d .deferred := by
      intro d hm
      by_cases hdc : d = c
      · subst hdc
        rw [Layout.set_self] at hm
        exact hd d hm
      · rw [Layout.set_other _ _ hdc] at hm
        exact hd d hm
    refine ⟨_, hw.freeNode hn₁ hz₁ hd', he.trans (Evolves.kill n), Heap.set_self _ _ _, ?_⟩
    rw [Layout.set_self]
    have hnd := List.nodup_append.mp (hl ▸ hlist.nodup)
    intro hm
    rcases List.mem_append.mp hm with hm | hm
    · exact hnd.2.2 n hm n List.mem_cons_self rfl
    · exact (List.nodup_cons.mp hnd.2.1).1 hm
  | false =>
    rw [hlinked] at hrem hmem
    simp only [unlinkDecider, Bool.false_eq_true, ↓reduceIte] at hrem
    obtain ⟨nodes₃, hu, hrem⟩ := bind_ok.mp hrem
    obtain ⟨_, _, _, _, rfl⟩ := Heap.update_ok.mp hu
    simp only [pure_ok, Prod.mk.injEq] at hrem
    obtain ⟨rfl, rfl⟩ := hrem
    have hw := (h.freeNode hn hz hd).touch k (c := c) hc rfl rfl
    have hblank : (g.nodes.mapAt (some n) fun nd => { nd with links := {} }).set n none =
        g.nodes.set n none := by
      funext m
      by_cases he : m = n
      · rw [he, Heap.set_self, Heap.set_self]
      · rw [Heap.set_other _ _ he, Heap.set_other _ _ he,
          Heap.mapAt_other _ _ fun hm => he (Option.some.inj hm)]
    rw [hblank]
    have he : Evolves (some n) (some n) g _ L L := Evolves.kill n
    have hout := Outlives.setContainer hc k id
    refine ⟨L, hw, he.congr rfl rfl (hout.congr rfl (Nat.le_refl _) (Nat.le_refl _))
      (Nat.le_refl _) hout.gone,
      Heap.set_self _ _ _, fun hm => ?_⟩
    exact absurd (hmem.mpr hm) (by simp)

/-- What giving back a handle's reference on `n` does: the last one frees it. -/
structure Drops (g g' : Global) (L L' : Layout) (n : Addr) : Prop where
  evolves : Evolves (some n) (some n) g g' L L'
  stays : ¬ LastRef g n → ∀ c, L' c .global = L c .global
  frees : g'.nodes n = none ↔ LastRef g n
  map : g'.map = g.map

theorem destroyUnlocked {x : Slot} (h : Wf g L (x :: pend) cs ns)
    (hr : Wg14Signals.destroyUnlocked g (some x.node) = .ok g') :
    Wf g' L pend cs ns ∧ Drops g g' L L x.node := by
  obtain ⟨nd, hnd, hr⟩ := bind_ok.mp hr
  obtain ⟨_, he, hn⟩ := Heap.read_ok.mp hnd
  cases he
  have hd := h.not_retired hn (Int.ne_of_gt (h.slot_refcount List.mem_cons_self hn))
  have hw := h.dropSlot hn
  have he : Evolves none (some x.node) g _ L L :=
    Evolves.rewrite hn { nd with refcount := nd.refcount - 1 } rfl
  simp only at hr
  split at hr
  · rename_i hz
    obtain ⟨nodes', hf, hr⟩ := bind_ok.mp hr
    obtain ⟨_, rfl⟩ := Heap.free_ok.mp hf
    simp only [pure_ok] at hr
    subst hr
    refine ⟨hw.freeNode (Heap.set_self _ _ _) hz hd, he.trans (Evolves.kill _), fun _ _ => rfl, ?_,
      rfl⟩
    simp only [Global.setNodes_nodes, Heap.set_self, true_iff]
    exact ⟨nd, hn, by omega⟩
  · rename_i hz
    simp only [pure_ok] at hr
    subst hr
    refine ⟨hw, Evolves.allow (.rewrite hn _ rfl), fun _ _ => rfl, ?_, rfl⟩
    simp only [Global.setNode_nodes, Heap.set_self, reduceCtorEq, false_iff]
    rintro ⟨nd', hn', hone⟩
    rw [hn] at hn'
    cases hn'
    omega

/-- Without a slot to give back, the section only frees the deferred nodes. -/
theorem destroyLocked_none (h : Wf g L pend cs ns) {signo : Signo} {slot : Option Addr}
    (hr : Wg14Signals.destroyLocked g signo none = .ok (slot, g')) :
    slot = none ∧ g'.map = g.map ∧
      ∃ L', Wf g' L' pend cs ns ∧ Evolves none none g g' L L' := by
  unfold Wg14Signals.destroyLocked at hr
  split at hr
  · simp only [pure_ok, Prod.mk.injEq] at hr
    obtain ⟨rfl, rfl⟩ := hr
    exact ⟨rfl, rfl, L, h, .refl _ _⟩
  · obtain ⟨k, hk, hr⟩ := bind_ok.mp hr
    obtain ⟨_, he, hc⟩ := Heap.read_ok.mp hk
    cases he
    obtain ⟨g₁, hf, hr⟩ := bind_ok.mp hr
    simp only [pure_ok, Prod.mk.injEq] at hr
    obtain ⟨rfl, rfl⟩ := hr
    obtain ⟨hw, he⟩ := h.flush { k with deferredFrees := {} } hc hf rfl rfl rfl
    obtain ⟨nodes₁, rfl, _⟩ := freeDeferred_ok (h.shape hc) hf
    exact ⟨rfl, rfl, _, hw, he⟩

/-- With the signal in the map, the slot's reference is given back here. -/
theorem destroyLocked_some {x : Slot} (h : Wf g L (x :: pend) cs ns) {signo : Signo} {item : Addr}
    (hm : g.map signo = some item) {slot : Option Addr}
    (hr : Wg14Signals.destroyLocked g signo (some x.node) = .ok (slot, g')) :
    slot = none ∧ ∃ L', Wf g' L' pend cs ns ∧ Drops g g' L L' x.node ∧
      (LastRef g x.node → x.node ∉ L' item .global) := by
  simp only [Wg14Signals.destroyLocked, hm] at hr
  obtain ⟨k, hk, hr⟩ := bind_ok.mp hr
  obtain ⟨_, he, hc⟩ := Heap.read_ok.mp hk
  cases he
  obtain ⟨g₁, hf, hr⟩ := bind_ok.mp hr
  obtain ⟨nd, hnd, hr⟩ := bind_ok.mp hr
  obtain ⟨_, he, hn⟩ := Heap.read_ok.mp hnd
  cases he
  obtain ⟨hw, he₁⟩ := h.flush { k with deferredFrees := {} } hc hf rfl rfl rfl
  obtain ⟨nodes₁, rfl, hn₁⟩ := freeDeferred_ok (h.shape hc) hf
  have hd := hw.not_retired hn (Int.ne_of_gt (hw.slot_refcount List.mem_cons_self hn))
  -- the node was live before the deferred ones were freed, with the same count
  have hold : g.nodes x.node = some nd := by
    have hx := hn₁ x.node
    simp only [Global.setContainer_nodes, Global.setNodes_nodes] at hn
    split at hx
    · rw [hx] at hn
      cases hn
    · exact hx.symm.trans hn
  have hlast : nd.refcount - 1 = 0 ↔ LastRef g x.node := by
    constructor
    · exact fun hz => ⟨nd, hold, by omega⟩
    · rintro ⟨nd', hn', hone⟩
      rw [hold] at hn'
      cases hn'
      omega
  have hdrop := hw.dropSlot hn
  have he₂ := he₁.trans (Evolves.rewrite hn { nd with refcount := nd.refcount - 1 } rfl)
  split at hr
  · rename_i hz
    obtain ⟨g₂, hret, hr⟩ := bind_ok.mp hr
    simp only [pure_ok, Prod.mk.injEq] at hr
    obtain ⟨rfl, rfl⟩ := hr
    obtain ⟨L', hw', he', hdead, hnot⟩ :=
      hdrop.retire (setContainer_self _ item _) (Heap.set_self _ _ _) hz hd hret
    refine ⟨rfl, L', hw', ⟨he₂.allow.trans he', fun hl => absurd (hlast.mp hz) hl,
      iff_of_true hdead (hlast.mp hz), ?_⟩, fun _ => hnot⟩
    obtain ⟨_, _, hret⟩ := bind_ok.mp hret
    obtain ⟨⟨_, _⟩, _, hret⟩ := bind_ok.mp hret
    obtain ⟨_, _, hret⟩ := bind_ok.mp hret
    simp only [pure_ok] at hret
    subst hret
    rfl
  · rename_i hz
    simp only [pure_ok, Prod.mk.injEq] at hr
    obtain ⟨rfl, rfl⟩ := hr
    refine ⟨rfl, _, hdrop, ⟨he₂.allow, fun _ c => ?_, ?_, rfl⟩, fun hl => absurd (hlast.mpr hl) hz⟩
    · by_cases he : c = item
      · rw [he, Layout.set_self]
        rfl
      · rw [Layout.set_other _ _ he]
    · refine iff_of_false ?_ fun hl => hz (hlast.mpr hl)
      simp

end Wf

end Wg14Signals
