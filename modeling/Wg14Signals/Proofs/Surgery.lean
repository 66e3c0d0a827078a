import Wg14Signals.Proofs.Wf

namespace Wg14Signals
open Lib

theorem setContainer_self (g : Global) (c : Addr) (k : Container) :
    (g.setContainer c k).containers c = some k := Heap.set_self _ _ _

theorem setContainer_other (g : Global) {c d : Addr} (k : Container) (h : d ≠ c) :
    (g.setContainer c k).containers d = g.containers d := Heap.set_other _ _ h

/-- The nodes and the two lists of one container before and after an operation
that keeps every reference count. Only nodes already retired may be freed, and
only those of `new` may join the `global_handler` list. -/
structure Surgery (new : List Addr) (nodes : Heap Node) (l : Which → List Addr) (nodes' : Heap Node)
    (e' : Which → Ends) (l' : Which → List Addr) : Prop where
  payload : ∀ n nd', nodes' n = some nd' →
    ∃ nd, nodes n = some nd ∧ DList.payload nd = DList.payload nd'
  freed : ∀ n, nodes' n = none → nodes n = none ∨ n ∈ l .deferred
  outside : ∀ n, n ∉ new → (∀ w, n ∉ l w) → nodes' n = nodes n
  lists : ∀ w, DList.IsList nodes' (e' w) (l' w)
  members : ∀ n ∈ l' .global, n ∈ l .global ∨ n ∈ new
  retired : ∀ n ∈ l' .deferred, (∃ w, n ∈ l w) ∧ n ∉ l' .global ∧
    ∃ nd', nodes' n = some nd' ∧ nd'.refcount = 0

theorem refcount_of_payload {nd nd' : Node} (h : DList.payload nd = DList.payload nd') :
    nd'.refcount = nd.refcount := by
  have := congrArg Node.refcount h
  exact this.symm

theorem owner_of_payload {nd nd' : Node} (h : DList.payload nd = DList.payload nd') :
    nd'.owner = nd.owner := by
  have := congrArg Node.owner h
  exact this.symm

namespace Surgery

variable {new : List Addr} {nodes nodes' nodes'' : Heap Node} {e' e'' : Which → Ends}
  {l l' l'' : Which → List Addr}

theorem listed (hs : Surgery new nodes l nodes' e' l') {w : Which} {n : Addr}
    (hn : n ∈ l' w) : (∃ w', n ∈ l w') ∨ n ∈ new ∧ w = .global := by
  cases w with
  | global =>
    rcases hs.members n hn with hn | hn
    · exact Or.inl ⟨.global, hn⟩
    · exact Or.inr ⟨hn, rfl⟩
  | deferred => exact Or.inl (hs.retired n hn).1

theorem unshared (hs : Surgery new nodes l nodes' e' l') {w w' : Which} {n : Addr} (hn : n ∈ l' w)
    (hn' : n ∈ l' w') : w = w' := by
  cases w with
  | global =>
    cases w' with
    | global => rfl
    | deferred => exact absurd hn (hs.retired n hn').2.1
  | deferred =>
    cases w' with
    | global => exact absurd hn' (hs.retired n hn).2.1
    | deferred => rfl

theorem trans (hx : Surgery [] nodes l nodes' e' l') (hy : Surgery [] nodes' l' nodes'' e'' l'')
    (hd : ∀ n ∈ l' .deferred, n ∈ l .deferred) : Surgery [] nodes l nodes'' e'' l'' where
  payload n nd'' hn := by
    obtain ⟨nd', hn', hp'⟩ := hy.payload n nd'' hn
    obtain ⟨nd, hn, hp⟩ := hx.payload n nd' hn'
    exact ⟨nd, hn, hp.trans hp'⟩
  freed n hn := by
    rcases hy.freed n hn with hn | hn
    · exact hx.freed n hn
    · exact Or.inr (hd n hn)
  outside n hnew hn := by
    rw [hy.outside n hnew fun w hm => ?_, hx.outside n hnew hn]
    obtain ⟨w', hm'⟩ := (hx.listed hm).resolve_right (by simp)
    exact hn w' hm'
  lists := hy.lists
  members n hn := by
    exact hx.members n ((hy.members n hn).resolve_right (by simp))
  retired n hn := by
    obtain ⟨⟨w, hw⟩, hr⟩ := hy.retired n hn
    exact ⟨(hx.listed hw).resolve_right (by simp), hr⟩

end Surgery

/-- The two lists of one live container. -/
structure Shape (nodes : Heap Node) (e : Which → Ends) (l : Which → List Addr) : Prop where
  lists : ∀ w, DList.IsList nodes (e w) (l w)
  apart : ∀ n ∈ l .global, n ∉ l .deferred
  retired : ∀ n ∈ l .deferred, ∃ nd, nodes n = some nd ∧ nd.refcount = 0

theorem Wf.shape {g : Global} {L : Layout} {pend : List Slot} {cs ns : List Addr}
    (h : Wf g L pend cs ns) {c : Addr} {k : Container} (hc : g.containers c = some k) :
    Shape g.nodes k.ends (L c) where
  lists w := h.lists c k w hc
  apart n hn hd := absurd (h.unshared _ _ _ _ n hn hd).2 (by simp)
  retired := h.retired c

namespace Shape

variable {nodes nodes' : Heap Node} {e e' : Which → Ends} {l : Which → List Addr}

def flushed (l : Which → List Addr) : Which → List Addr
  | .global => l .global
  | .deferred => []

/-- Freeing every node on the `deferred_frees` list. -/
theorem flush (hs : Shape nodes e l) (e' : Which → Ends)
    (hn : ∀ n, nodes' n = if n ∈ l .deferred then none else nodes n)
    (hg : e' .global = e .global) (hd : e' .deferred = {}) :
    Surgery [] nodes l nodes' e' (flushed l) where
  payload n nd' hnd' := by
    rw [hn n] at hnd'
    split at hnd'
    · cases hnd'
    · exact ⟨nd', hnd', rfl⟩
  freed n hnd' := by
    rw [hn n] at hnd'
    split at hnd'
    · exact Or.inr ‹_›
    · exact Or.inl hnd'
  outside n _ ho := by
    rw [hn n, if_neg (ho .deferred)]
  lists w := by
    cases w with
    | global =>
      rw [hg]
      refine (hs.lists .global).mono fun n hm nd' hnd' => ⟨nd', ?_, rfl⟩
      rwa [hn n, if_neg (hs.apart n hm)] at hnd'
    | deferred =>
      rw [hd]
      exact DList.isList_nil nodes'
  members _ hm := Or.inl hm
  retired n hm := by simp [flushed] at hm

def withGlobal (l : Which → List Addr) (xs : List Addr) : Which → List Addr
  | .global => xs
  | .deferred => l .deferred

/-- Surgery that frees nothing and leaves the `deferred_frees` list alone. -/
theorem relink (hs : Shape nodes e l) (new : List Addr) (e' : Which → Ends)
    (hr : DList.Relinked nodes nodes' (new ++ l .global)) (hnew : ∀ n ∈ new, n ∉ l .deferred)
    (hd : e' .deferred = e .deferred) {xs : List Addr}
    (hx : ∀ n ∈ xs, n ∈ l .global ∨ n ∈ new) (hl : DList.IsList nodes' (e' .global) xs) :
    Surgery new nodes l nodes' e' (withGlobal l xs) := by
  have ho : ∀ n ∈ l .deferred, n ∉ new ++ l .global := by
    intro n hm hg
    rcases List.mem_append.mp hg with hg | hg
    · exact hnew n hg hm
    · exact hs.apart n hg hm
  refine ⟨?_, fun n hnd' => Or.inl ((hr.live n).mp hnd'), ?_, ?_, hx, ?_⟩
  · intro n nd' hnd'
    have hp := hr.payload n
    rw [hnd'] at hp
    obtain ⟨nd, hnd, hpay⟩ := Option.map_eq_some_iff.mp hp.symm
    exact ⟨nd, hnd, hpay⟩
  · intro n hn hout
    refine hr.outside n fun hm => ?_
    rcases List.mem_append.mp hm with hm | hm
    · exact hn hm
    · exact hout .global hm
  · intro w
    cases w with
    | global => exact hl
    | deferred =>
      rw [hd]
      exact (hs.lists .deferred).relinked hr ho
  · intro n hm
    obtain ⟨nd, hnd, hz⟩ := hs.retired n hm
    refine ⟨⟨.deferred, hm⟩, fun hm' => ?_, nd, (hr.outside n (ho n hm)).trans hnd, hz⟩
    rcases hx n hm' with hg | hg
    · exact hs.apart n hg hm
    · exact hnew n hg hm

/-- Moving a node without references from one list to the back of the other. -/
theorem defer (hs : Shape nodes e l) (e' : Which → Ends) {a b : List Addr} {x : Addr} {nd : Node}
    (hl : l .global = a ++ x :: b) (hx : nodes x = some nd) (hz : nd.refcount = 0)
    (hn : nodes' = DList.appended (DList.unlinked nodes a x b) (l .deferred) x)
    (hg : e' .global = ⟨(a ++ b).head?, (a ++ b).getLast?⟩)
    (hd : e' .deferred = ⟨(l .deferred ++ [x]).head?, some x⟩) :
    Surgery [] nodes l nodes' e' fun w =>
      match w with | .global => a ++ b | .deferred => l .deferred ++ [x] := by
  have hlist := hs.lists .global
  rw [hl] at hlist
  have hxg : x ∈ l .global := by simp [hl]
  have hxd : x ∉ l .deferred := hs.apart x hxg
  have hr₁ := DList.unlinked_relinked nodes a x b
  rw [← hl] at hr₁
  have hr₂ := DList.appended_relinked (DList.unlinked nodes a x b) (l .deferred) x
  have hnd := List.nodup_append.mp hlist.nodup
  have hxb : x ∉ b := (List.nodup_cons.mp hnd.2.1).1
  have hxa : x ∉ a := fun hm => hnd.2.2 x hm x List.mem_cons_self rfl
  have hsub : (a ++ b).Sublist (l .global) := by
    rw [hl]
    exact (List.sublist_cons_self x b).append_left a
  have hpay : ∀ n, (nodes' n).map DList.payload = (nodes n).map DList.payload := by
    intro n
    rw [hn, hr₂.payload n, hr₁.payload n]
  have hrest : ∀ n ∈ a ++ b, n ∉ x :: l .deferred := by
    intro n hm hm'
    rcases List.mem_cons.mp hm' with rfl | hm'
    · rcases List.mem_append.mp hm with hm | hm
      · exact hxa hm
      · exact hxb hm
    · exact hs.apart n (hsub.subset hm) hm'
  refine ⟨?_, ?_, ?_, ?_, fun n hm => Or.inl (hsub.subset hm), ?_⟩
  · intro n nd' hnd'
    have hp := hpay n
    rw [hnd'] at hp
    obtain ⟨nd, hnd, hpay⟩ := Option.map_eq_some_iff.mp hp.symm
    exact ⟨nd, hnd, hpay⟩
  · intro n hnd'
    have hp := hpay n
    rw [hnd'] at hp
    exact Or.inl (Option.map_eq_none_iff.mp hp.symm)
  · intro n _ ho
    have hnx : n ∉ x :: l .deferred := by
      intro hm
      rcases List.mem_cons.mp hm with rfl | hm
      · exact ho .global hxg
      · exact ho .deferred hm
    rw [hn, hr₂.outside n hnx, hr₁.outside n (ho .global)]
  · intro w
    cases w with
    | global =>
      rw [hg, hn]
      exact (DList.unlinked_isList hlist).relinked hr₂ hrest
    | deferred =>
      have hdl : DList.IsList (DList.unlinked nodes a x b) (e .deferred) (l .deferred) :=
        (hs.lists .deferred).relinked hr₁ fun n hm hm' => hs.apart n hm' hm
      rw [hd, hn]
      exact DList.appended_isList hdl hxd
  · -- the members of the longer list: those retired before, and `x`
    intro n hm
    have hcount : ∀ m md, nodes m = some md → md.refcount = 0 →
        ∃ md', nodes' m = some md' ∧ md'.refcount = 0 := by
      intro m md hmd hz
      have hp := hpay m
      rw [hmd] at hp
      obtain ⟨md', hmd', hp⟩ := Option.map_eq_some_iff.mp hp
      exact ⟨md', hmd', (refcount_of_payload hp.symm).trans hz⟩
    rcases List.mem_append.mp hm with hm | hm
    · obtain ⟨md, hmd, hz⟩ := hs.retired n hm
      exact ⟨⟨.deferred, hm⟩, fun hm' => hs.apart n (hsub.subset hm') hm, hcount n md hmd hz⟩
    · rw [List.mem_singleton.mp hm]
      exact ⟨⟨.global, hxg⟩, fun hm' => hrest x hm' List.mem_cons_self, hcount x nd hx hz⟩

end Shape

theorem Outlives.setContainer {g : Global} {c : Addr} {k : Container}
    (hc : g.containers c = some k) (k' : Container)
    (hz : k.lifetimeRefcount = 0 → k'.lifetimeRefcount = 0) : Outlives g (g.setContainer c k') := by
  refine ⟨Nat.le_refl _, Nat.le_refl _, fun d _ hd => ?_, fun d kd hd hzero => ?_⟩
  · have hne : d ≠ c := by
      rintro rfl
      rw [hc] at hd
      cases hd
    exact (setContainer_other g k' hne).trans hd
  · by_cases he : d = c
    · subst he
      rw [hc] at hd
      cases hd
      exact ⟨k', Heap.set_self _ _ _, hz hzero⟩
    · exact ⟨kd, (setContainer_other g k' he).trans hd, hzero⟩

theorem Outlives.cut {g : Global} {c : Addr} {k : Container} {nodes' : Heap Node}
    (hc : g.containers c = some k) (k' : Container)
    (hz : k.lifetimeRefcount = 0 → k'.lifetimeRefcount = 0) :
    Outlives g ((g.setNodes nodes').setContainer c k') :=
  (Outlives.setContainer hc k' hz).congr rfl (Nat.le_refl _) (Nat.le_refl _)

namespace Wf

variable {g g' : Global} {L L' : Layout} {pend pend' : List Slot} {cs cs' ns ns' : List Addr}
  {c : Addr} {k k' : Container} {nodes' : Heap Node} {e' : Which → Ends}
  {l' : Which → List Addr} {new : List Addr}

/-- A counted node survives surgery. -/
theorem survives (h : Wf g L pend cs ns) (hs : Surgery new g.nodes (L c) nodes' k'.ends l') {n : Addr} {nd : Node}
    (hn : g.nodes n = some nd) (hr : nd.refcount ≠ 0) :
    ∃ nd', nodes' n = some nd' ∧ DList.payload nd = DList.payload nd' := by
  cases hn' : nodes' n with
  | none =>
    rcases hs.freed n hn' with hg | hd
    · rw [hn] at hg
      cases hg
    · exact absurd hd (h.not_retired hn hr c)
  | some nd' =>
    obtain ⟨nd₂, hn₂, hp⟩ := hs.payload n nd' hn'
    rw [hn] at hn₂
    cases hn₂
    exact ⟨nd', rfl, hp⟩

/-- Lists of the other containers do not notice. -/
theorem surgery_outside (h : Wf g L pend cs ns)
    (hs : Surgery new g.nodes (L c) nodes' e' l') (hnew : ∀ n ∈ new, ∀ d w, n ∉ L d w)
    {d : Addr} (hd : d ≠ c) {w : Which} {n : Addr} (hn : n ∈ L d w) : nodes' n = g.nodes n :=
  hs.outside n (fun hm => hnew n hm d w hn) fun w' hm => hd (h.unshared d w c w' n hn hm).1

/-- List surgery on one container keeps the books. A node that joins must be on no
list yet, and a handle's slot for it must be one for the container's signal. -/
theorem surgery (h : Wf g L pend cs ns) (k' : Container) (hc : g.containers c = some k)
    (hlife : k'.lifetimeRefcount = k.lifetimeRefcount)
    (hs : Surgery new g.nodes (L c) nodes' k'.ends l') (hnew : ∀ n ∈ new, ∀ d w, n ∉ L d w)
    (hbound : ∀ n ∈ new, n < g.nextNode)
    (halign : ∀ x ∈ pend, x.node ∈ new → ∀ s, g.map s = some c → s = x.signo) :
    Wf ((g.setNodes nodes').setContainer c k') (L.set c l') pend cs ns where
  nodeFresh n hn := by
    refine Option.eq_none_iff_forall_ne_some.mpr fun nd' hnd' => ?_
    obtain ⟨nd, hnd, _⟩ := hs.payload n nd' hnd'
    rw [h.nodeFresh n hn] at hnd
    cases hnd
  containerFresh d hd := by
    have hne : d ≠ c := fun he => by
      have := h.containerFresh d hd
      rw [he, hc] at this
      cases this
    rw [setContainer_other _ _ hne]
    exact h.containerFresh d hd
  bound d w n hn := by
    by_cases he : d = c
    · subst he
      rw [Layout.set_self] at hn
      rcases hs.listed hn with ⟨w', hn'⟩ | ⟨hn', _⟩
      · exact h.bound d w' n hn'
      · exact hbound n hn'
    · rw [Layout.set_other _ _ he] at hn
      exact h.bound d w n hn
  dead d w hd := by
    have he : d ≠ c := fun he => by simp [he] at hd
    rw [setContainer_other _ _ he] at hd
    rw [Layout.set_other _ _ he]
    exact h.dead d w hd
  mapped s d hd := by
    by_cases he : d = c
    · exact ⟨k', by rw [he, setContainer_self]⟩
    · rw [setContainer_other _ _ he]
      exact h.mapped s d hd
  mapInj := h.mapInj
  lists d kd w hd := by
    by_cases he : d = c
    · subst he
      rw [setContainer_self] at hd
      cases hd
      rw [Layout.set_self]
      exact hs.lists w
    · rw [setContainer_other _ _ he] at hd
      rw [Layout.set_other _ _ he]
      refine (h.lists d kd w hd).mono fun n hn nd' hnd' => ⟨nd', ?_, rfl⟩
      rw [← h.surgery_outside hs hnew he hn]
      exact hnd'
  unshared d w d' w' n hn hn' := by
    -- a member of a list of `d` was on one before, or has just joined one of `c`
    have key : ∀ e v, n ∈ (L.set c l') e v → (∃ v', n ∈ L e v') ∨ n ∈ new ∧ e = c := by
      intro e v hm
      by_cases he : e = c
      · subst he
        rw [Layout.set_self] at hm
        exact (hs.listed hm).imp_right fun hx => ⟨hx.1, rfl⟩
      · rw [Layout.set_other _ _ he] at hm
        exact Or.inl ⟨v, hm⟩
    have hdd : d = d' := by
      rcases key d w hn with ⟨v, hv⟩ | ⟨hm, rfl⟩
      · rcases key d' w' hn' with ⟨v', hv'⟩ | ⟨hm, _⟩
        · exact (h.unshared d v d' v' n hv hv').1
        · exact absurd hv (hnew n hm d v)
      · rcases key d' w' hn' with ⟨v', hv'⟩ | ⟨_, rfl⟩
        · exact absurd hv' (hnew n hm d' v')
        · rfl
    subst hdd
    refine ⟨rfl, ?_⟩
    by_cases he : d = c
    · subst he
      rw [Layout.set_self] at hn hn'
      exact hs.unshared hn hn'
    · rw [Layout.set_other _ _ he] at hn hn'
      exact (h.unshared d w d w' n hn hn').2
  retired d n hn := by
    by_cases he : d = c
    · subst he
      rw [Layout.set_self] at hn
      exact (hs.retired n hn).2.2
    · rw [Layout.set_other _ _ he] at hn
      obtain ⟨nd, hnd, hz⟩ := h.retired d n hn
      exact ⟨nd, (h.surgery_outside hs hnew he hn).trans hnd, hz⟩
  lifetime d kd hd := by
    by_cases he : d = c
    · subst he
      rw [setContainer_self] at hd
      cases hd
      rw [hlife]
      exact h.lifetime d k hc
    · rw [setContainer_other _ _ he] at hd
      exact h.lifetime d kd hd
  refcount n nd' hn := by
    obtain ⟨nd, hnd, hp⟩ := hs.payload n nd' hn
    rw [refcount_of_payload hp]
    exact h.refcount n nd hnd
  owned x hx := by
    obtain ⟨nd, hnd, ho⟩ := h.owned x hx
    obtain ⟨nd', hnd', hp⟩ := h.survives hs hnd (Int.ne_of_gt (h.slot_refcount hx hnd))
    exact ⟨nd', hnd', (owner_of_payload hp).trans ho⟩
  distinct := h.distinct
  aligned x hx s d hd hn := by
    by_cases he : d = c
    · subst he
      rw [Layout.set_self] at hn
      rcases hs.members _ hn with hn | hn
      · exact h.aligned x hx s d hd hn
      · exact halign x hx hn s hd
    · rw [Layout.set_other _ _ he] at hn
      exact h.aligned x hx s d hd hn
  held d hd := by
    by_cases he : d = c
    · exact ⟨k', by rw [he, setContainer_self]⟩
    · rw [setContainer_other _ _ he]
      exact h.held d hd
  pinned n hn := by
    obtain ⟨nd, hnd⟩ := h.pinned n hn
    obtain ⟨nd', hnd', _⟩ := h.survives hs hnd (Int.ne_of_gt (h.pin_refcount hn hnd))
    exact ⟨nd', hnd'⟩

theorem cut (h : Wf g L pend cs ns) (k' : Container) (hc : g.containers c = some k)
    (hlife : k'.lifetimeRefcount = k.lifetimeRefcount)
    (hs : Surgery [] g.nodes (L c) nodes' k'.ends l') :
    Wf ((g.setNodes nodes').setContainer c k') (L.set c l') pend cs ns :=
  h.surgery k' hc hlife hs (by simp) (by simp) (by simp)

/-- Surgery nobody joins only shortens the lists, and frees nothing it leaves on them. -/
theorem cut_evolves (h : Wf g L pend cs ns) (hs : Surgery [] g.nodes (L c) nodes' e' l')
    (hn : g'.nodes = nodes') (hout : Outlives g g') (hsub : (l' .global).Sublist (L c .global))
    {y : Option Addr}
    (hk : ∀ n ∈ L c .global, n ∈ l' .global ∨ y = some n ∨ g'.containers c = none)
    (hret : ∀ n ∈ L c .deferred, n ∈ l' .deferred ∨ nodes' n = none) :
    Evolves none y g g' L (L.set c l')
    where
  containers := hout
  shrinks d := by
    by_cases he : d = c
    · subst he
      rw [Layout.set_self]
      exact hsub
    · rw [Layout.set_other _ _ he]
  keeps d _ n hm := by
    by_cases he : d = c
    · subst he
      rw [Layout.set_self]
      exact hk n hm
    · rw [Layout.set_other _ _ he]
      exact Or.inl hm
  members d w n hm := by
    by_cases he : d = c
    · subst he
      rw [Layout.set_self] at hm
      exact (hs.listed hm).resolve_right (by simp)
    · rw [Layout.set_other _ _ he] at hm
      exact ⟨w, hm⟩
  spares d w n hm hg := by
    by_cases he : d = c
    · subst he
      rw [Layout.set_self] at hm
      cases w with
      | global =>
        refine Or.inl ((hs.freed n (hn ▸ hg)).resolve_right fun hd => ?_)
        exact absurd (h.unshared _ _ _ _ n hd (hsub.subset hm)).2 (by simp)
      | deferred =>
        obtain ⟨nd', hnd', _⟩ := (hs.retired n hm).2.2
        rw [hn, hnd'] at hg
        cases hg
    · rw [Layout.set_other _ _ he] at hm
      exact Or.inl ((h.surgery_outside hs (by simp) he hm).symm.trans (hn ▸ hg))
  retired d n hm := by
    by_cases he : d = c
    · subst he
      rw [hn]
      refine (hret n hm).imp_left fun hm => ⟨d, ?_⟩
      rwa [Layout.set_self]
    · refine Or.inl ⟨d, ?_⟩
      rwa [Layout.set_other _ _ he]
  owners n nd' hm := by
    obtain ⟨nd, hnd, hp⟩ := hs.payload n nd' (hn ▸ hm)
    exact ⟨nd, hnd, (owner_of_payload hp).symm⟩

end Wf

end Wg14Signals
