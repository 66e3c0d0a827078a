import Wg14Signals.Consult
import Wg14Signals.Proofs.Mapped
import Wg14Signals.Proofs.Delivery
import Wg14Signals.Proofs.Refcounts
import Mathlib.Data.List.Nodup

namespace Wg14Signals
open Lib

/-- Everything the library's lists, counts and names have to be, whatever has happened. -/
structure Sound (p : Platform) (s : State) (L : Layout) : Prop where
  inv : Inv p s L
  live : MapSafe s L
  named : Named s
  tidy : Tidy p s
  accounted : Accounted p s

theorem sound_initial (p : Platform) (kernel : Signo → Sigaction) :
    Sound p (State.initial kernel) fun _ _ => [] :=
  ⟨inv_initial p kernel, ⟨by simp [State.initial], by simp [State.initial]⟩,
    named_initial kernel, tidy_initial p kernel, fun n nd hn => by cases hn⟩

section

variable {p : Platform} {s s' : State} {act : Action} {L L' : Layout}

theorem Sound.step (hs : Sound p s L) (h : Wg14Signals.step p s act = .ok s') :
    ∃ L', Sound p s' L' ∧ Shift p s act s' L L' ∧ Lasts s act s' L L' := by
  obtain ⟨L', hi', hx, hl⟩ := hs.inv.step h
  exact ⟨L', ⟨hi', hs.live.step hs.inv h hx, hs.named.step h, hs.tidy.step h,
    accounted_step hs.inv hi' hs.tidy hs.accounted h hx⟩, hx, hl⟩

theorem sound_run {kernel : Signo → Sigaction} {ok : State → Action → Prop}
    (hr : Run (Wg14Signals.step p) ok (State.initial kernel) s) : ∃ L, Sound p s L := by
  refine hr.invariant (I := fun s => ∃ L, Sound p s L) ⟨_, sound_initial p kernel⟩ ?_
  rintro s act s' ⟨L, hs⟩ - h
  obtain ⟨L', hs', _⟩ := hs.step h
  exact ⟨L', hs'⟩

/-- A node that is not new belongs to the handle it has always belonged to. -/
theorem Shift.owner_before (hx : Shift p s act s' L L') {n : Addr} {nd' : Node} (hlt : n < s.g.nextNode)
    (hn : s'.g.nodes n = some nd') : ∃ nd, s.g.nodes n = some nd ∧ nd.owner = nd'.owner := by
  cases hx with
  | keeps he hm hp hh => exact he.owners n nd' hn
  | joins x item first hj ha hp hh =>
    have hpay := hj.payload n (Nat.ne_of_lt (hj.fresh ▸ hlt))
    rw [hn, Option.map_some, eq_comm] at hpay
    obtain ⟨nd, hnd, hpay⟩ := Option.map_eq_some_iff.mp hpay
    exact ⟨nd, hnd, (owner_of_payload hpay).symm⟩
  | drops x searched hd ho hx hs hp hh => exact hx.evolves.owners n nd' hn
  | enters x signo hm hf he hg hp hh => exact he.owners n nd' hn
  | walks x next hx hnext he hg hp hh => exact he.owners n nd' hn

theorem intactNode_iff {n : Addr} :
    s.intactNode n = true ↔ ∃ nd, s.g.nodes n = some nd ∧ nd.owner ∈ s.intact := by
  simp [State.intactNode, Option.any_eq_true]

/-- A destroyed handle does not come back. -/
theorem Sound.intact_before (hs : Sound p s L) (h : Wg14Signals.step p s act = .ok s')
    (hx : Shift p s act s' L L') {n : Addr} (hlt : n < s.g.nextNode)
    (hin : s'.intactNode n = true) : s.intactNode n = true := by
  obtain ⟨nd', hn', ho⟩ := intactNode_iff.mp hin
  obtain ⟨nd, hn, he⟩ := hx.owner_before hlt hn'
  have hold := (hs.accounted n nd hn).1
  rw [he] at hold
  exact intactNode_iff.mpr ⟨nd, hn, he ▸ (intact_step h ho).resolve_right (Nat.ne_of_lt hold)⟩

/-- A registered node stays so while its handle is intact and its container is there. -/
theorem Sound.intact_stays (hs' : Sound p s' L') (hl : Lasts s act s' L L') {c n : Addr}
    {k : Container} (hn : n ∈ L c .global) (hc : s'.g.containers c = some k)
    (hin : s'.intactNode n = true) : n ∈ L' c .global := by
  rcases hl.stays c n hn with hn | hgone | ⟨_, hz, _⟩
  · exact hn
  · rw [hc] at hgone
    cases hgone
  · obtain ⟨nd', hn', ho⟩ := intactNode_iff.mp hin
    obtain ⟨x, hx, rfl⟩ := (hs'.accounted _ nd' hn').2 ho
    have hpos := hs'.inv.wf.slot_refcount hx hn'
    rw [hz nd' hn'] at hpos
    exact absurd hpos (by simp)

/-- Part of a duplicate-free list is what is left when the others are struck out. -/
theorem filter_of_sublist {l l' : List Addr} (hs : l'.Sublist l) (hd : l.Nodup) :
    l' = l.filter fun n => decide (n ∈ l') := by
  have hsub := hs.filter fun n => decide (n ∈ l')
  rw [List.filter_eq_self.mpr fun n hn => decide_eq_true hn] at hsub
  have hle : (l.filter fun n => decide (n ∈ l')) ⊆ l' := by
    intro n hn
    simpa using (List.mem_filter.mp hn).2
  exact hsub.eq_of_length_le (List.Nodup.subperm (hd.filter _) hle).length_le

/-- A duplicate-free list cut at a member, when others leave it. -/
theorem sublist_split {l l' a b : List Addr} {m : Addr} (hs : l'.Sublist l) (hd : l.Nodup)
    (hl : l = a ++ m :: b) (hm : m ∈ l') :
    ∃ a', l' = a' ++ m :: b.filter (fun n => decide (n ∈ l')) := by
  refine ⟨a.filter fun n => decide (n ∈ l'), ?_⟩
  conv_lhs => rw [filter_of_sublist hs hd, hl]
  rw [List.filter_append, List.filter_cons_of_pos (by simpa using hm)]

/-- What is behind a member of a list after a step: what was there before and has not
left, and perhaps a new node. -/
theorem Shift.behind (hx : Shift p s act s' L L') {c m : Addr} {a b : List Addr}
    (hd : (L c .global).Nodup) (hl : L c .global = a ++ m :: b) (hm : m ∈ L' c .global) :
    ∃ a' b', L' c .global = a' ++ m :: b' ∧
      (b' = b.filter (fun n => decide (n ∈ L' c .global)) ∨
        ∃ new, s.g.nextNode ≤ new ∧ b' = b ++ [new]) := by
  have key : (L' c .global).Sublist (L c .global) → ∃ a' b', L' c .global = a' ++ m :: b' ∧
      (b' = b.filter (fun n => decide (n ∈ L' c .global)) ∨
        ∃ new, s.g.nextNode ≤ new ∧ b' = b ++ [new]) := by
    intro hsub
    obtain ⟨a', he⟩ := sublist_split hsub hd hl hm
    exact ⟨a', _, he, Or.inl rfl⟩
  cases hx with
  | keeps he hmap hp hh => exact key (he.shrinks c)
  | joins x item first hj ha hp hh =>
    by_cases hitem : c = item
    swap
    · exact key (hj.rest c .global (Or.inl hitem) ▸ List.Sublist.refl _)
    · subst hitem
      have he := hj.place
      cases first with
      | true =>
        rw [if_pos rfl, hl] at he
        refine ⟨x.node :: a, b, he, Or.inl (List.filter_eq_self.mpr fun n hn => ?_).symm⟩
        simp [he, hn]
      | false =>
        rw [if_neg (by simp), hl] at he
        exact ⟨a, b ++ [x.node], by rw [he]; simp, Or.inr ⟨x.node, Nat.le_of_eq hj.fresh.symm, rfl⟩⟩
  | drops x searched hdr ho hx hs hp hh => exact key (hx.evolves.shrinks c)
  | enters x signo hmap hf he hg hp hh => exact key (he.shrinks c)
  | walks x next hx hnext he hg hp hh => exact key (he.shrinks c)

theorem Named.unique (hn : Named s) {a b : Act} (ha : a ∈ s.acts) (hb : b ∈ s.acts)
    (hid : a.id = b.id) : a = b :=
  List.inj_on_of_nodup_map hn.distinct (List.mem_append.mpr (Or.inl ha))
    (List.mem_append.mpr (Or.inl hb)) hid

/-- A call goes on as one call at most. -/
theorem turn_single {a b c : Act} {ys : List Act} {hs : List Handle} {g' : Global}
    (turn : Turn p s a ys hs g') (hb : b ∈ ys) (hc : c ∈ ys) : b = c := by
  have hlen := (turn_id turn).length_le
  rw [List.length_map, List.length_singleton] at hlen
  obtain ⟨y, hy⟩ := List.length_eq_one_iff.mp (Nat.le_antisymm hlen (List.length_pos_of_mem hb))
  rw [hy] at hb hc
  rw [List.mem_singleton.mp hb, List.mem_singleton.mp hc]

/-- What becomes of a raise inside a decider: it leaves the decider, stays, or will
never come back to it. -/
theorem raise_fate (hn : Named s) (h : Wg14Signals.step p s act = .ok s') {a : Act} {x : Hold}
    (ha : a ∈ s.acts) (hx : x ∈ a.holds) :
    (∃ t d, act = .decide t d ∧ s.top t = some a) ∨ a ∈ s'.acts ∨
      ∀ b ∈ s'.acts, b.id = a.id → b.abandoned = true := by
  have others : ∀ {t b}, s.top t = some b → a ≠ b → a ∈ s.others t := by
    intro t b ht hne
    exact (List.mem_cons.mp ((find_perm ht).mem_iff.mp ha)).resolve_left hne
  obtain ⟨r, pin, hcall, hr, _⟩ := hold_cases hx
  cases step_moves h with
  | idle h => exact Or.inr (Or.inl (h ▸ ha))
  | begins t call installs hb h => exact Or.inr (Or.inl (h ▸ List.mem_cons_of_mem _ ha))
  | destroys t hd hf h => exact Or.inr (Or.inl (h ▸ List.mem_cons_of_mem _ ha))
  | raises t signo delivered h =>
    refine Or.inr (Or.inl ?_)
    subst h
    obtain ⟨new, hnew, _⟩ := pushRaise_acts (p := p) (s := s) t signo delivered s.acts
    rw [hnew]
    exact List.mem_append.mpr (Or.inr ha)
  | turns t b ys hs ht turn hacts hh hl hnext hd hi hu =>
    by_cases he : a = b
    · subst he
      rcases hu x hx with ⟨d, hact, _⟩ | ⟨_, y, hy, hab⟩
      · exact Or.inl ⟨t, d, hact, ht⟩
      · refine Or.inr (Or.inr fun b hb hid => ?_)
        rw [hacts] at hb
        rcases List.mem_append.mp hb with hb | hb
        · rw [turn_single turn hb hy]
          exact hab
        · exact absurd hid (hn.others ht b hb)
    · refine Or.inr (Or.inl ?_)
      rw [hacts]
      exact List.mem_append.mpr (Or.inr (others ht he))
  | reenters t b r' phase ht hc hp h =>
    refine Or.inr (Or.inl ?_)
    have hne : a ≠ b := by
      rintro rfl
      cases Call.raise.inj (hc.symm.trans hcall)
      rcases hp with ⟨_, hp, _⟩ | ⟨_, hp, _⟩ <;> rw [hr] at hp <;> cases hp
    subst h
    obtain ⟨new, hnew, _⟩ := pushRaise_acts (p := p) (s := s) b.tid r'.signo true
      (b.phase r' phase :: s.others t)
    rw [hnew]
    exact List.mem_append.mpr (Or.inr (List.mem_cons_of_mem _ (others ht hne)))
  | recovers t b r' f fs ht hd hc hr' hf h =>
    subst h
    by_cases hdis : discarded t f a = true
    · refine Or.inr (Or.inr fun b hb hid => ?_)
      obtain ⟨hb, hkept⟩ := List.mem_filter.mp hb
      rw [hn.unique hb ha hid, hdis] at hkept
      cases hkept
    · refine Or.inr (Or.inl (List.mem_filter.mpr ⟨ha, by simpa using hdis⟩))

/-- A raise that will call no more global deciders. -/
def Act.over (a : Act) : Prop :=
  ∃ r, a.call = .raise r ∧ (∀ fs, r.phase ≠ .frames fs) ∧ a.holds = []

theorem over_phase {a : Act} {r : Raise} {phase : Phase} (hf : ∀ fs, phase ≠ .frames fs)
    (hd : ∀ pin, phase = .deciding pin → pin.abandoned = true) : (a.phase r phase).over := by
  refine ⟨_, rfl, hf, ?_⟩
  cases phase with
  | deciding pin => simp [Act.holds, hd pin rfl]
  | _ => rfl

theorem over_abandoned {a : Act} (h : a.abandoned = true) : a.over := by
  obtain ⟨tid, id, call⟩ := a
  cases call with
  | raise r =>
    obtain ⟨signo, delivered, phase⟩ := r
    cases phase with
    | deciding pin => exact ⟨_, rfl, by simp, by simp [Act.holds, show pin.abandoned = true from h]⟩
    | _ => cases h
  | _ => cases h

theorem turn_over {a b : Act} {ys : List Act} {hs : List Handle} {g' : Global}
    (turn : Turn p s a ys hs g') (ho : a.over) (hb : b ∈ ys) : b.over := by
  obtain ⟨r, hc, hf, hholds⟩ := ho
  have hraise : ∀ {r'}, a.call = .raise r' → r' = r := fun h => Call.raise.inj (h.symm.trans hc)
  -- inside a decider it has nothing to leave
  have hin : ∀ {r' pin}, a.call = .raise r' → r'.phase = .deciding pin → pin.abandoned ≠ false := by
    intro r' pin hc' hr hp
    simp [Act.holds, hc', hr, hp] at hholds
  cases turn with
  | absent r' g' hc' hr op | enter r' item current value sa g' hc' hr op | pass r' sa g' hc' hr op
  | nextFrame r' f fs hc' hr => exact absurd hr (hraise hc' ▸ hf _)
  | walk r' pin cl current value g' hc' hr hp op | unclaimed r' pin cl g' hc' hr hp op
  | abandon r' pin g' hc' hr hp op => exact absurd hp (hin hc' hr)
  | call r' sa h hc' hr hi | default r' sa hc' hr hi | query r' hc' hr | reset r' current hc' hr
  | kill r' current hc' hr =>
    rw [List.mem_singleton.mp hb]
    exact over_phase (by simp) (by simp)
  | ignore | restore | resumed | claimed | jump | handled => cases hb
  | _ => simp_all

/-- Nor does it do so later. -/
theorem over_step (hn : Named s) (h : Wg14Signals.step p s act = .ok s') {i : Nat}
    (hi : i < s.nextId) (ho : ∀ a ∈ s.acts, a.id = i → a.over) : ∀ b ∈ s'.acts, b.id = i → b.over := by
  intro b hb hid
  rcases act_step h hb with hold | hnew | ⟨t, a, ht, hab, hturn⟩
  · exact ho b hold hid
  · exact absurd (hnew.symm.trans hid) (Nat.ne_of_gt hi)
  · have ha := ho a (top_mem ht) (hab.symm.trans hid)
    rcases hturn with ⟨ys, hs, turn, hby, _⟩ | ⟨r, phase, hc, rfl, hphase, _⟩
    · exact turn_over turn ha hby
    · refine over_phase ?_ ?_ <;> rcases hphase with ⟨_, _, rfl⟩ | ⟨_, _, rfl⟩ <;> simp

/-- The nodes of a list that belong to intact handles, before and after a step. -/
theorem Sound.filter_before (hs : Sound p s L) (h : Wg14Signals.step p s act = .ok s')
    (hx : Shift p s act s' L L') {l : List Addr} (hlt : ∀ n ∈ l, n < s.g.nextNode) :
    l.filter s'.intactNode = (l.filter s.intactNode).filter s'.intactNode := by
  rw [List.filter_filter]
  refine List.filter_congr fun n hn => ?_
  cases hin : s'.intactNode n with
  | false => rfl
  | true => rw [hs.intact_before h hx (hlt n hn) hin, Bool.and_self]

/-- What a raise has called, together with what is ahead of it, accounts for every
registered node with an intact handle; a step of whatever kind leaves that so. -/
theorem Sound.ahead (hs : Sound p s L) (h : Wg14Signals.step p s act = .ok s') (hs' : Sound p s' L')
    (hx : Shift p s act s' L L') (hlasts : Lasts s act s' L L') {c m : Addr} {k k' : Container}
    {front b l called : List Addr} {N : Addr} (hc : s.g.containers c = some k)
    (hc' : s'.g.containers c = some k') (hl : L c .global = front ++ m :: b)
    (hm : m ∈ L' c .global) (hlt : ∀ n ∈ l ++ called, n < s.g.nextNode) (hN : N ≤ s.g.nextNode)
    (hd : (called ++ b).Nodup) (hsub : (l.filter s.intactNode).Sublist (called ++ b))
    (hold : ((called ++ b).filter fun n => decide (n < N)).Sublist l) :
    ∃ front' b', L' c .global = front' ++ m :: b' ∧ (called ++ b').Nodup ∧
      (l.filter s'.intactNode).Sublist (called ++ b') ∧
      ((called ++ b').filter fun n => decide (n < N)).Sublist l := by
  have hfilter := hs.filter_before h hx fun n hn => hlt n (List.mem_append.mpr (Or.inl hn))
  obtain ⟨front', b', hl', hb⟩ := hx.behind (hs.inv.wf.lists c k .global hc).nodup hl hm
  refine ⟨front', b', hl', ?_⟩
  rcases hb with rfl | ⟨new, hnew, rfl⟩
  · have hless := List.Sublist.append (List.Sublist.refl called)
      (List.filter_sublist (p := fun n => decide (n ∈ L' c .global)) (l := b))
    refine ⟨hd.sublist hless, ?_, (hless.filter _).trans hold⟩
    rw [hfilter]
    refine (hsub.filter _).trans ?_
    rw [List.filter_append]
    refine List.Sublist.append List.filter_sublist ?_
    -- an intact handle keeps its node on the list
    have hkeep : b.filter s'.intactNode =
        (b.filter fun n => decide (n ∈ L' c .global)).filter s'.intactNode := by
      rw [List.filter_filter]
      refine List.filter_congr fun n hn => ?_
      cases hin : s'.intactNode n with
      | false => rfl
      | true =>
        have hn : n ∈ L c .global := by rw [hl]; simp [hn]
        simp [hs'.intact_stays hlasts hn hc' hin]
    rw [hkeep]
    exact List.filter_sublist
  · refine ⟨?_, ?_, ?_⟩
    · have hold : ∀ n ∈ called ++ b, n < new := by
        intro n hn
        refine Nat.lt_of_lt_of_le ?_ hnew
        rcases List.mem_append.mp hn with hn | hn
        · exact hlt n (List.mem_append.mpr (Or.inr hn))
        · exact hs.inv.wf.bound c .global n (by rw [hl]; simp [hn])
      rw [← List.append_assoc]
      refine List.nodup_append.mpr ⟨hd, by simp, fun n hn n' hn' => ?_⟩
      rw [List.mem_singleton.mp hn']
      exact Nat.ne_of_lt (hold n hn)
    · rw [hfilter, ← List.append_assoc]
      exact (List.filter_sublist.trans hsub).trans (List.sublist_append_left _ _)
    · rw [← List.append_assoc, List.filter_append,
        List.filter_cons_of_neg (by simpa using Nat.le_trans hN hnew), List.filter_nil,
        List.append_nil]
      exact hold

end

/-- Where raise `i` is in its walk over the deciders of container `c`, on which the nodes
`l` were registered when it began. The nodes from `N` on are those made since. -/
inductive Stage (i : Nat) (c : Addr) (l : List Addr) (N : Addr) (w : Walk) (L : Layout) :
    Prop where
  /-- Inside the decider of `x.node`, with the nodes `b` ahead. -/
  | inside (a : Act) (x : Hold) (front b : List Addr) (ha : a ∈ w.state.acts) (hid : a.id = i)
      (hx : x ∈ a.holds) (hc : x.item = c) (hl : L c .global = front ++ x.node :: b)
      (hans : w.answers.length + 1 = w.called.length) (hd : (w.called ++ b).Nodup)
      (hsub : (l.filter w.state.intactNode).Sublist (w.called ++ b))
      (hold : ((w.called ++ b).filter fun n => decide (n < N)).Sublist l)
  /-- Done with deciders. If all of them have declined, none is left out. -/
  | past (ahead : List Addr) (ho : ∀ a ∈ w.state.acts, a.id = i → a.over)
      (hd : (w.called ++ ahead).Nodup)
      (hsub : (l.filter w.state.intactNode).Sublist (w.called ++ ahead))
      (hold : ((w.called ++ ahead).filter fun n => decide (n < N)).Sublist l)
      (hall : w.answers = w.called.map (fun _ => .nextDecider) → ahead = [])

structure Walked (p : Platform) (i : Nat) (c : Addr) (l : List Addr) (N : Addr) (w : Walk)
    (L : Layout) : Prop where
  sound : Sound p w.state L
  begun : i < w.state.nextId
  old : ∀ n ∈ l ++ w.called, n < w.state.g.nextNode
  newer : N ≤ w.state.g.nextNode
  stage : Stage i c l N w L

section

variable {p : Platform} {i : Nat} {c N : Addr} {l : List Addr} {w w' : Walk} {act : Action}
  {L L' : Layout} {s s' : State}

/-- A step of the machine, and what it adds to the record. -/
theorem walkStep_ok (h : walkStep p i w act = .ok w') : step p w.state act = .ok w'.state ∧
    ((∃ a, w.state.mover act = some a ∧ a.id = i ∧ w'.called = w.called ++ w'.state.consults i ∧
        w'.answers = w.answers ++ act.answer.toList) ∨
      (∀ a, w.state.mover act = some a → a.id ≠ i) ∧ w'.called = w.called ∧
        w'.answers = w.answers) := by
  obtain ⟨s', hs, h⟩ := bind_ok.mp h
  split at h
  · rename_i hown
    obtain ⟨a, ha, hid⟩ := (Option.any_eq_true _ _).mp hown
    simp only [pure_ok] at h
    subst h
    exact ⟨hs, Or.inl ⟨a, ha, beq_iff_eq.mp hid, rfl, rfl⟩⟩
  · rename_i hown
    simp only [pure_ok] at h
    subst h
    refine ⟨hs, Or.inr ⟨fun a ha hid => hown ?_, rfl, rfl⟩⟩
    simp [ha, hid]

/-- The record stands in the way of no step. -/
theorem walkStep_run (h : step p w.state act = .ok s') : ∃ w', walkStep p i w act = .ok w' := by
  cases hown : (w.state.mover act).any fun a => a.id == i with
  | true => exact ⟨_, bind_ok.mpr ⟨s', h, by rw [if_pos hown]; rfl⟩⟩
  | false => exact ⟨_, bind_ok.mpr ⟨s', h, by rw [if_neg (by simp [hown])]; rfl⟩⟩

/-- A raise that is done is inside no decider. -/
theorem consults_over (ho : ∀ a ∈ s.acts, a.id = i → a.over) : s.consults i = [] := by
  have hnone : (s.inside.filter fun x => x.raise == i) = [] := by
    refine List.filter_eq_nil_iff.mpr fun x hx hid => ?_
    obtain ⟨a, ha, hxa⟩ := List.mem_flatMap.mp hx
    obtain ⟨_, _, _, hholds⟩ := ho a ha ((raise_of_holds hxa).symm.trans (beq_iff_eq.mp hid))
    rw [hholds] at hxa
    cases hxa
  rw [State.consults, hnone, List.map_nil]

/-- And no decider of its can answer. -/
theorem decide_over {t : Tid} {d : Decision} {a : Act} (ht : s.top t = some a) (ho : a.over) :
    step p s (.decide t d) ≠ .ok s' := by
  obtain ⟨r, hc, hf, hholds⟩ := ho
  intro h
  simp only [step, ht, hc, decideSection] at h
  split at h
  · exact hf _ ‹_›
  · rename_i pin hr
    split at h
    · simp at h
    · rename_i hp
      simp [Act.holds, hc, hr, hp] at hholds
  · simp at h

/-- The one decider a raise is inside. -/
theorem consults_inside (hn : Named s) {a : Act} {x : Hold} (ha : a ∈ s.acts) (hx : x ∈ a.holds) :
    s.consults a.id = [x.node] := by
  obtain ⟨_, _, _, _, _, _, hholds⟩ := hold_cases hx
  obtain ⟨l, r, hacts⟩ := List.append_of_mem ha
  have none : ∀ m : List Act, (∀ b ∈ m, b.id ≠ a.id) →
      ((m.flatMap Act.holds).filter fun x => x.raise == a.id) = [] := by
    intro m hm
    refine List.filter_eq_nil_iff.mpr fun y hy hid => ?_
    obtain ⟨b, hb, hyb⟩ := List.mem_flatMap.mp hy
    exact hm b hb ((raise_of_holds hyb).symm.trans (beq_iff_eq.mp hid))
  have hd : (s.acts.map Act.id).Nodup := by
    have hd := hn.distinct
    rw [State.ids, List.map_append] at hd
    exact hd.sublist (List.sublist_append_left _ _)
  rw [hacts, List.map_append, List.map_cons, List.nodup_append, List.nodup_cons] at hd
  have hl := none l fun b hb he =>
    hd.2.2 _ (List.mem_map_of_mem hb) _ List.mem_cons_self he
  have hr := none r fun b hb he => hd.2.1.1 (he ▸ List.mem_map_of_mem hb)
  rw [State.consults, State.inside, hacts, List.flatMap_append, List.flatMap_cons,
    List.filter_append, List.filter_append, hl, hr, hholds]
  simp [raise_of_holds hx]

/-- A raise inside a decider waits for the answer. -/
theorem advance_inside {t : Tid} {env : InstallEnv} {a : Act} {x : Hold} (ht : s.top t = some a)
    (hx : x ∈ a.holds) : step p s (.advance t env) ≠ .ok s' := by
  obtain ⟨r, pin, hc, hr, _⟩ := hold_cases hx
  simp [step, ht, callSection, hc, raiseSection, hr]

/-- Where a raise goes from a decider: to the next node of the list, if it has not been
claimed and there is one. -/
theorem Wf.leave_ahead {g g' : Global} {pend : List Slot} {cs ns front b : List Addr} {n : Addr}
    {k : Container} {claimed : Bool} {r : Left} (h : Wf g L pend cs (n :: ns))
    (hc : g.containers c = some k) (hl : L c .global = front ++ n :: b)
    (hr : Wg14Signals.raiseLeave g c n claimed = .ok (r, g')) :
    r = .claimed ∧ claimed = true ∨ (∃ m value b', r = .deciding m value ∧ b = m :: b') ∨
      r = .unclaimed ∧ b = [] := by
  obtain ⟨⟨next, g₁⟩, hu, hr⟩ := bind_ok.mp hr
  obtain ⟨_, front', b', _, hl', rfl, _⟩ := h.unpinNode (by rw [hl]; simp) hu
  obtain ⟨_, rfl⟩ := split_unique (h.lists c k .global hc).nodup hl hl'
  simp only at hr
  split at hr
  · rename_i hcl
    obtain ⟨g₂, _, hr⟩ := bind_ok.mp hr
    simp only [pure_ok, Prod.mk.injEq] at hr
    exact Or.inl ⟨hr.1.symm, hcl⟩
  · split at hr
    · rename_i m hm
      obtain ⟨⟨value, g₂⟩, _, hr⟩ := bind_ok.mp hr
      simp only [pure_ok, Prod.mk.injEq] at hr
      obtain ⟨b₁, hb⟩ := List.head?_eq_some_iff.mp hm
      exact Or.inr (Or.inl ⟨m, value, b₁, hr.1.symm, hb⟩)
    · rename_i hm
      obtain ⟨g₂, _, hr⟩ := bind_ok.mp hr
      simp only [pure_ok, Prod.mk.injEq] at hr
      exact Or.inr (Or.inr ⟨hr.1.symm, List.head?_eq_none_iff.mp hm⟩)

theorem consults_old (hi : Inv p s L) {n : Addr} (hn : n ∈ s.consults i) : n < s.g.nextNode := by
  obtain ⟨x, hx, rfl⟩ := List.mem_map.mp hn
  exact hi.wf.bound x.item .global _ (hi.inside x (inside_holds (List.mem_of_mem_filter hx)))

/-- The decider a raise is inside answers. -/
theorem Stage.answered (hs : Sound p w.state L) (hs' : Sound p w'.state L') {t : Tid} {d : Decision}
    (h : step p w.state (.decide t d) = .ok w'.state)
    (hx : Shift p w.state (.decide t d) w'.state L L')
    (hlasts : Lasts w.state (.decide t d) w'.state L L')
    (hlt : ∀ n ∈ l ++ w.called, n < w.state.g.nextNode) (hN : N ≤ w.state.g.nextNode)
    (hcalled : w'.called = w.called ++ w'.state.consults i) (hanswers : w'.answers = w.answers ++ [d])
    {a : Act} {x : Hold} {front b : List Addr} (ht : w.state.top t = some a) (hid : a.id = i)
    (hxa : x ∈ a.holds) (hc : x.item = c) (hl : L c .global = front ++ x.node :: b)
    (hans : w.answers.length + 1 = w.called.length) (hd : (w.called ++ b).Nodup)
    (hsub : (l.filter w.state.intactNode).Sublist (w.called ++ b))
    (hold : ((w.called ++ b).filter fun n => decide (n < N)).Sublist l) : Stage i c l N w' L' := by
  have hsub' : (l.filter w'.state.intactNode).Sublist (w.called ++ b) := by
    rw [hs.filter_before h hx fun n hn => hlt n (List.mem_append.mpr (Or.inl hn))]
    exact List.filter_sublist.trans hsub
  have hheld := hold_mem (top_mem ht) hxa
  obtain ⟨k, hk⟩ := hs.inv.wf.held _ (List.mem_map_of_mem hheld)
  obtain ⟨r, pin, hcall, hr, hp, rfl, _⟩ := hold_cases hxa
  subst hc hid
  have hothers := hs.named.others ht
  have hstep := h
  simp only [step, ht, hcall, decideSection, hr, hp, Bool.false_eq_true, ↓reduceIte] at hstep
  obtain ⟨⟨res, g'⟩, hleave, hstep⟩ := bind_ok.mp hstep
  obtain ⟨rest, hperm⟩ := perm_of_mem hheld
  have hwf := hs.inv.wf.perm (List.Perm.refl _) (hperm.map Hold.item) (hperm.map Hold.node)
  rcases hwf.leave_ahead hk hl hleave with ⟨rfl, hclaim⟩ | ⟨m, value, b', rfl, rfl⟩ | ⟨rfl, rfl⟩
  · -- claimed: the call returns
    simp only [pure_ok] at hstep
    have ho : ∀ e ∈ w'.state.acts, e.id = a.id → e.over := by
      intro e he hid
      rw [← hstep] at he
      exact absurd hid (hothers e he)
    have hnone := consults_over ho
    rw [hnone, List.append_nil] at hcalled
    refine .past b ho (hcalled ▸ hd) (hcalled ▸ hsub') (hcalled ▸ hold) fun hall => ?_
    have hmem : d ∈ w'.answers := by rw [hanswers]; simp
    rw [hall] at hmem
    obtain ⟨_, _, hnext⟩ := List.mem_map.mp hmem
    rw [← hnext] at hclaim
    cases hclaim
  · -- the raise goes on to the next node
    simp only [pure_ok] at hstep
    let e : Act := a.phase r (.deciding { item := pin.item, current := m, value, sa := pin.sa })
    have he : e ∈ w'.state.acts := by
      rw [← hstep]
      exact List.mem_cons_self
    have hxe : ⟨a.id, pin.item, m⟩ ∈ e.holds := List.mem_singleton.mpr rfl
    have hcons : w'.state.consults a.id = [m] := consults_inside hs'.named he hxe
    rw [hcons] at hcalled
    have hheld' := hold_mem he hxe
    obtain ⟨k', hk'⟩ := hs'.inv.wf.held _ (List.mem_map_of_mem hheld')
    have hsplit : L pin.item .global = (front ++ [pin.current]) ++ m :: b' := by
      rw [hl]
      simp
    have hlt' : ∀ n ∈ l ++ w'.called, n < w.state.g.nextNode := by
      intro n hn
      rw [hcalled, ← List.append_assoc] at hn
      rcases List.mem_append.mp hn with hn | hn
      · exact hlt n hn
      · exact hs.inv.wf.bound pin.item .global n (by rw [hsplit]; simp [List.mem_singleton.mp hn])
    rw [← List.singleton_append (l := b'), ← List.append_assoc, ← hcalled] at hd hsub hold
    obtain ⟨front', b'', hl', hd', hsub'', hold'⟩ := hs.ahead h hs' hx hlasts hk hk' hsplit
      (hs'.inv.inside _ hheld') hlt' hN hd hsub hold
    exact .inside _ _ front' b'' he rfl hxe rfl hl' (by rw [hanswers, hcalled]; simp [hans]) hd'
      hsub'' hold'
  · -- nobody is ahead
    simp only [pure_ok] at hstep
    have ho : ∀ e ∈ w'.state.acts, e.id = a.id → e.over := by
      intro e he hid
      rw [← hstep] at he
      rcases List.mem_cons.mp he with rfl | he
      · exact over_phase (by simp) (by simp)
      · exact absurd hid (hothers e he)
    have hnone := consults_over ho
    rw [hnone, List.append_nil] at hcalled
    exact .past [] ho (hcalled ▸ hd) (hcalled ▸ hsub') (hcalled ▸ hold) fun _ => rfl

theorem Walked.step (hw : Walked p i c l N w L) (h : walkStep p i w act = .ok w') :
    ∃ L', Walked p i c l N w' L' ∧ Shift p w.state act w'.state L L' := by
  obtain ⟨hstep, hrec⟩ := walkStep_ok h
  have hs := hw.sound
  obtain ⟨L', hs', hx, hlasts⟩ := hs.step hstep
  have hbegun : i < w'.state.nextId :=
    Nat.lt_of_lt_of_le hw.begun (hs.tidy.owners_step hstep).2.1
  have hnodes := hlasts.containers.nodes
  have hfilter : (l.filter w'.state.intactNode).Sublist (l.filter w.state.intactNode) := by
    rw [hs.filter_before hstep hx fun n hn => hw.old n (List.mem_append.mpr (Or.inl hn))]
    exact List.filter_sublist
  have hN : N ≤ w'.state.g.nextNode := Nat.le_trans hw.newer hnodes
  have hlt : w'.called = w.called → ∀ n ∈ l ++ w'.called, n < w'.state.g.nextNode := by
    intro he n hn
    exact Nat.lt_of_lt_of_le (hw.old n (he ▸ hn)) hnodes
  refine ⟨L', ?_, hx⟩
  cases hw.stage with
  | past ahead ho hd hsub hold hall =>
    have ho' := over_step hs.named hstep hw.begun ho
    have hsame : w'.called = w.called ∧ w'.answers = w.answers := by
      rcases hrec with ⟨a, hm, hid, hcalled, hans⟩ | ⟨_, hcalled, hans⟩
      · rw [consults_over ho', List.append_nil] at hcalled
        cases act with
        | decide t d => exact absurd hstep (decide_over hm (ho a (top_mem hm) hid))
        | advance t env => exact ⟨hcalled, by rw [hans]; simp [Action.answer]⟩
        | _ => cases hm
      · exact ⟨hcalled, hans⟩
    refine ⟨hs', hbegun, hlt hsame.1, hN, .past ahead ho' (hsame.1 ▸ hd) ?_ (hsame.1 ▸ hold) ?_⟩
    · rw [hsame.1]
      exact hfilter.trans hsub
    · rw [hsame.1, hsame.2]
      exact hall
  | inside a x front b ha hid hxa hc hl hans hd hsub hold =>
    subst hid
    rcases hrec with ⟨a', hm, hid, hcalled, hanswers⟩ | ⟨hnot, hcalled, hanswers⟩
    · cases act with
      | decide t d =>
        cases hs.named.unique (top_mem hm) ha hid
        refine ⟨hs', hbegun, fun n hn => ?_, hN, .answered hs hs' hstep hx hlasts hw.old hw.newer
          hcalled hanswers hm rfl hxa hc hl hans hd hsub hold⟩
        rw [hcalled, ← List.append_assoc] at hn
        rcases List.mem_append.mp hn with hn | hn
        · exact Nat.lt_of_lt_of_le (hw.old n hn) hnodes
        · exact consults_old hs'.inv hn
      | advance t env =>
        cases hs.named.unique (top_mem hm) ha hid
        exact absurd hstep (advance_inside hm hxa)
      | _ => cases hm
    · refine ⟨hs', hbegun, hlt hcalled, hN, ?_⟩
      rcases raise_fate hs.named hstep ha hxa with ⟨t, d, rfl, ht⟩ | hstay | hgone
      · exact absurd rfl (hnot a ht)
      · have hheld := hold_mem ha hxa
        have hheld' := hold_mem hstay hxa
        obtain ⟨k, hk⟩ := hs.inv.wf.held _ (List.mem_map_of_mem hheld)
        obtain ⟨k', hk'⟩ := hs'.inv.wf.held _ (List.mem_map_of_mem hheld')
        subst hc
        obtain ⟨front', b', hl', hd', hsub', hold'⟩ := hs.ahead hstep hs' hx hlasts hk hk' hl
          (hs'.inv.inside x hheld') hw.old hw.newer hd hsub hold
        exact .inside a x front' b' hstay rfl hxa rfl hl' (by rw [hcalled, hanswers, hans])
          (hcalled ▸ hd') (hcalled ▸ hsub') (hcalled ▸ hold')
      · refine .past b (fun e he hid => over_abandoned (hgone e he hid)) (hcalled ▸ hd)
          (hcalled ▸ hfilter.trans hsub) (hcalled ▸ hold) fun hall => ?_
        have hlen := congrArg List.length hall
        rw [hcalled, hanswers, List.length_map] at hlen
        omega

theorem looks_cases {a : Act} {signo : Signo} (h : a.looks = some signo) :
    ∃ r, a.call = .raise r ∧ r.phase = .frames [] ∧ r.signo = signo := by
  unfold Act.looks at h
  split at h
  · rename_i r hc
    split at h
    · exact ⟨r, hc, ‹_›, Option.some.inj h⟩
    · cases h
  · cases h

theorem raiseEnter_first {g g' : Global} {signo : Signo} {k : Container} {e : Entered}
    (h : raiseEnter g signo = .ok (e, g')) (hm : g.map signo = some c)
    (hc : g.containers c = some k) :
    e = .unclaimed k.oldHandler ∧ k.globalHandler.front = none ∨
      ∃ current value, e = .deciding c current value k.oldHandler ∧
        k.globalHandler.front = some current := by
  simp only [raiseEnter, hm] at h
  obtain ⟨k', hk', h⟩ := bind_ok.mp h
  cases hc.symm.trans (readContainer_ok hk')
  split at h
  · rename_i current hfront
    obtain ⟨⟨value, g₁⟩, _, h⟩ := bind_ok.mp h
    simp only [pure_ok, Prod.mk.injEq] at h
    exact Or.inr ⟨current, value, h.1.symm, hfront⟩
  · rename_i hfront
    obtain ⟨g₁, _, h⟩ := bind_ok.mp h
    simp only [pure_ok, Prod.mk.injEq] at h
    exact Or.inl ⟨h.1.symm, hfront⟩

/-- The first locked section of a raise, where it looks at the list. -/
theorem walk_begins {t : Tid} {env : InstallEnv} {a : Act} {r : Raise} (hs : Sound p s L)
    (ht : s.top t = some a) (hcall : a.call = .raise r) (hr : r.phase = .frames [])
    (hm : s.g.map r.signo = some c)
    (h : walkStep p a.id { state := s } (.advance t env) = .ok w) :
    ∃ L', Walked p a.id c (L c .global) s.g.nextNode w L' ∧
      Shift p s (.advance t env) w.state L L' := by
  obtain ⟨hstep, hrec⟩ := walkStep_ok h
  obtain ⟨L', hs', hx, hlasts⟩ := hs.step hstep
  have hid : a.id < w.state.nextId := by
    refine Nat.lt_of_lt_of_le (hs.named.fresh a.id ?_) (hs.tidy.owners_step hstep).2.1
    exact List.mem_map_of_mem (List.mem_append.mpr (Or.inl (top_mem ht)))
  have hbound : ∀ n ∈ L c .global, n < s.g.nextNode := hs.inv.wf.bound c .global
  have hothers := hs.named.others ht
  obtain ⟨k, hk⟩ := hs.inv.wf.mapped _ c hm
  rcases hrec with ⟨a', _, _, hcalled, hanswers⟩ | ⟨hnot, _⟩
  · rw [List.nil_append] at hcalled hanswers
    have hacts := hstep
    simp only [step, ht, callSection, hcall, raiseSection, hr] at hacts
    obtain ⟨⟨e, g'⟩, henter, hacts⟩ := bind_ok.mp hacts
    rcases raiseEnter_first henter hm hk with ⟨rfl, hfront⟩ | ⟨current, value, rfl, hfront⟩
    · simp only [pure_ok] at hacts
      have ho : ∀ b ∈ w.state.acts, b.id = a.id → b.over := by
        intro b hb hid
        rw [← hacts] at hb
        rcases List.mem_cons.mp hb with rfl | hb
        · exact over_phase (by simp) (by simp)
        · exact absurd hid (hothers b hb)
      have hnil : L c .global = [] :=
        List.head?_eq_none_iff.mp ((hs.inv.wf.lists c k .global hk).front.symm.trans hfront)
      rw [consults_over ho] at hcalled
      refine ⟨L', ⟨hs', hid, ?_, hlasts.containers.nodes, .past [] ho ?_ ?_ ?_ fun _ => rfl⟩, hx⟩ <;>
        simp [hnil, hcalled]
    · simp only [pure_ok] at hacts
      let e : Act := a.phase r (.deciding { item := c, current, value, sa := k.oldHandler })
      have he : e ∈ w.state.acts := by
        rw [← hacts]
        exact List.mem_cons_self
      have hxe : ⟨a.id, c, current⟩ ∈ e.holds := List.mem_singleton.mpr rfl
      have hcons : w.state.consults a.id = [current] := consults_inside hs'.named he hxe
      rw [hcons] at hcalled
      have hheld' := hold_mem he hxe
      obtain ⟨k', hk'⟩ := hs'.inv.wf.held _ (List.mem_map_of_mem hheld')
      have hlist := hs.inv.wf.lists c k .global hk
      obtain ⟨b, hl⟩ := List.head?_eq_some_iff.mp (hlist.front.symm.trans hfront)
      have hold : ∀ n ∈ L c .global ++ [current], n < s.g.nextNode := by
        intro n hn
        rcases List.mem_append.mp hn with hn | hn
        · exact hbound n hn
        · exact hbound n (by rw [hl, List.mem_singleton.mp hn]; exact List.mem_cons_self)
      obtain ⟨front', b', hl', hd', hsub', hold'⟩ := hs.ahead hstep hs' hx hlasts hk hk'
        (show L c .global = [] ++ current :: b from hl) (hs'.inv.inside _ hheld') hold
        (Nat.le_refl _) (by simpa [hl] using hlist.nodup) (by rw [hl]; exact List.filter_sublist)
        (by rw [hl]; exact List.filter_sublist)
      rw [← hcalled] at hd' hsub' hold'
      refine ⟨L', ⟨hs', hid, fun n hn => ?_, hlasts.containers.nodes,
        .inside e _ front' b' he rfl hxe rfl hl' ?_ hd' hsub' hold'⟩, hx⟩
      · rw [hcalled] at hn
        exact Nat.lt_of_lt_of_le (hold n hn) hlasts.containers.nodes
      · simp [hcalled, hanswers, Action.answer]
  · exact absurd rfl (hnot a ht)

/-- While the signal stays installed, a decider that returns finds the list in order. -/
theorem Walked.goes_on {signo : Signo} (hw : Walked p i c l N w L)
    (hm : w.state.g.map signo = some c) {t : Tid} {a : Act} (ht : w.state.top t = some a)
    (hid : a.id = i) (ha : a.holds ≠ []) (d : Decision) :
    ∃ w', walkStep p i w (.decide t d) = .ok w' := by
  obtain ⟨x, hx⟩ := List.exists_mem_of_ne_nil _ ha
  have hs := hw.sound
  have hitem : x.item = c := by
    cases hw.stage with
    | past ahead ho hd hsub hold hall =>
      obtain ⟨_, _, _, hnone⟩ := ho a (top_mem ht) hid
      exact absurd hnone ha
    | inside a' x' front b ha' hid' hx' hc hl hans hd hsub hold =>
      cases hs.named.unique ha' (top_mem ht) (hid'.trans hid.symm)
      obtain ⟨_, _, _, _, _, _, hsingle⟩ := hold_cases hx'
      rw [hsingle, List.mem_singleton] at hx
      rw [hx]
      exact hc
  have hheld := hold_mem (top_mem ht) hx
  obtain ⟨rest, hperm⟩ := perm_of_mem hheld
  have hwf := hs.inv.wf.perm (List.Perm.refl _) (hperm.map Hold.item) (hperm.map Hold.node)
  obtain ⟨⟨res, g'⟩, hleave⟩ := hwf.raiseLeave_run (hitem ▸ hs.live.live signo c hm)
    (hs.inv.inside x hheld) (d != .nextDecider)
  obtain ⟨r, pin, hcall, hr, hp, rfl, _⟩ := hold_cases hx
  have hstep : ∃ s', Wg14Signals.step p w.state (.decide t d) = .ok s' := by
    simp only [Wg14Signals.step, ht, hcall, decideSection, hr, hp, Bool.false_eq_true, ↓reduceIte,
      hleave]
    cases res <;> exact ⟨_, rfl⟩
  obtain ⟨s', hstep⟩ := hstep
  exact walkStep_run hstep

theorem walked_run {ok : Walk → Action → Prop} (hw : Walked p i c l N w L)
    (hr : Run (walkStep p i) ok w w') : ∃ L', Walked p i c l N w' L' := by
  refine hr.invariant (I := fun w' => ∃ L', Walked p i c l N w' L') ⟨L, hw⟩ ?_
  rintro u act v ⟨L', hu⟩ - h
  obtain ⟨L'', hv, _⟩ := hu.step h
  exact ⟨L'', hv⟩

/-- What a raise has called and what is ahead of it, wherever it is. -/
theorem Walked.ahead (hw : Walked p i c l N w L) : ∃ ahead, (w.called ++ ahead).Nodup ∧
    (l.filter w.state.intactNode).Sublist (w.called ++ ahead) ∧
    ((w.called ++ ahead).filter fun n => decide (n < N)).Sublist l ∧
    (w.answers = w.called.map (fun _ => .nextDecider) → ahead = []) := by
  cases hw.stage with
  | past ahead ho hd hsub hold hall => exact ⟨ahead, hd, hsub, hold, hall⟩
  | inside a x front b ha hid hx hc hl hans hd hsub hold =>
    refine ⟨b, hd, hsub, hold, fun hall => ?_⟩
    rw [hall, List.length_map] at hans
    omega

end

/-- A raise calls the deciders registered when it first looks at the list, in the order of
the list and none of them twice, whatever happens meanwhile. It leaves out none whose
handle is intact unless one of those it has called does not decline. And while the
signal stays installed it can always go on. -/
theorem consulted_in_order (p : Platform) (kernel : Signo → Sigaction) {s : State} {t : Tid}
    {env : InstallEnv} {a : Act} {signo : Signo} {c : Addr} {w₁ w : Walk}
    (hr₀ : Run (step p) Anyhow (State.initial kernel) s) (ht : s.top t = some a)
    (hlook : a.looks = some signo) (hm : s.g.map signo = some c)
    (hbegin : walkStep p a.id { state := s } (.advance t env) = .ok w₁)
    (hr : Run (walkStep p a.id) (fun _ _ => True) w₁ w) :
    ∃ k l, s.g.containers c = some k ∧ DList.IsList s.g.nodes k.globalHandler l ∧
      w.called.Nodup ∧
      (∃ ahead, (w.called ++ ahead).Nodup ∧
        (l.filter w.state.intactNode).Sublist (w.called ++ ahead)) ∧
      (w.answers = w.called.map (fun _ => .nextDecider) →
        (l.filter w.state.intactNode).Sublist w.called) ∧
      (w.state.g.map signo = some c → ∀ t' b, w.state.top t' = some b → b.id = a.id →
        b.holds ≠ [] → ∀ d, ∃ w', walkStep p a.id w (.decide t' d) = .ok w') := by
  obtain ⟨L, hs⟩ := sound_run hr₀
  obtain ⟨k, hk⟩ := hs.inv.wf.mapped _ c hm
  obtain ⟨r, hcall, hp, rfl⟩ := looks_cases hlook
  obtain ⟨L₁, hw₁, _⟩ := walk_begins hs ht hcall hp hm hbegin
  obtain ⟨L', hw⟩ := walked_run hw₁ hr
  obtain ⟨ahead, hd, hsub, _, hall⟩ := hw.ahead
  refine ⟨k, L c .global, hk, hs.inv.wf.lists c k .global hk,
    hd.sublist (List.sublist_append_left _ _), ⟨ahead, hd, hsub⟩, fun hdecline => ?_, ?_⟩
  · rw [hall hdecline, List.append_nil] at hsub
    exact hsub
  · intro hm' t' b ht' hid hb d
    exact hw.goes_on hm' ht' hid hb d

/-- A decider is destroyed while it runs, and another one is registered. -/
theorem consulted_in_order_changing :
    ∃ s a w₁ w, Run (step .tiny) Anyhow (State.initial fun _ => .dfl) s ∧ s.top 1 = some a ∧
      walkStep .tiny a.id { state := s } (.advance 1 {}) = .ok w₁ ∧
      Run (walkStep .tiny a.id) (fun _ _ => True) w₁ w ∧ w.called = [0, 1, 2] ∧
      ∃ k l, s.g.containers 0 = some k ∧ DList.IsList s.g.nodes k.globalHandler l ∧
        (l.filter w.state.intactNode).Sublist w.called := by
  obtain ⟨s, hr₀, hq⟩ := run_of_ends (f := step .tiny) (r := Anyhow)
    (s := State.initial fun _ => .dfl) (c := fun _ _ => true)
    (q := fun s => s.g.map 1 == some 0 && (s.top 1).any fun a => a.looks == some 1 &&
      okAnd (walkStep .tiny a.id { state := s } (.advance 1 {})) fun w₁ =>
        ends (walkStep .tiny a.id) (fun _ _ => true)
          (fun w => w.called == [0, 1, 2] && w.answers == [.nextDecider, .nextDecider, .nextDecider])
          w₁ ([.destroy 0 1] ++ List.replicate 5 (.advance 0 {}) ++ registerOne ++
            List.replicate 3 (.decide 1 .nextDecider)))
    (l := installOne ++ registerOne ++ registerOne ++ [.raise 1 1])
    (fun _ _ _ => trivial) (by decide)
  simp only [Bool.and_eq_true, beq_iff_eq, Option.any_eq_true, okAnd_iff] at hq
  obtain ⟨hm, a, ht, hlook, w₁, hbegin, hq⟩ := hq
  obtain ⟨w, hr, hq⟩ := run_of_ends (r := fun _ _ => True) (fun _ _ _ => trivial) hq
  simp only [Bool.and_eq_true, beq_iff_eq] at hq
  obtain ⟨k, l, hk, hl, _, _, hall, _⟩ :=
    consulted_in_order .tiny (fun _ => .dfl) hr₀ ht hlook hm hbegin hr
  exact ⟨s, a, w₁, w, hr₀, ht, hbegin, hr, hq.1, k, l, hk, hl, hall (by rw [hq.1, hq.2]; rfl)⟩

end Wg14Signals
