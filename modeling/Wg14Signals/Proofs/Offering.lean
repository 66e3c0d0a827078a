import Wg14Signals.Proofs.Installing
import Wg14Signals.Proofs.Ordering

namespace Wg14Signals
open Lib

/-- The record without the visits that registered nothing. -/
def Visited.registered (w : Visited) : Registered :=
  ⟨w.state, w.visits.filterMap Visit.registration⟩

/-- A handle, and the signals of its set with what has been put into its slots. -/
abbrev Record := Nat × List (Signo × Option Addr)

def Act.record (p : Platform) (a : Act) : Option Record :=
  match a.call with
  | .create args filled => some (args.owner, (p.members args.guarded).zip filled)
  | _ => none

def Handle.record (p : Platform) (h : Handle) : Record :=
  (h.id, (p.members h.guarded).zip h.slots)

/-- The intact handles, complete or not. -/
def State.records (p : Platform) (s : State) : List Record :=
  s.handles.map (Handle.record p) ++ (s.acts ++ s.lost).filterMap (Act.record p)

section

variable {p : Platform} {s s' : State} {act : Action} {L L' : Layout} {v : Visit}

theorem record_creating (a : Act) : (a.record p).map Prod.fst = a.creating := by
  unfold Act.record Act.creating
  split <;> simp_all

theorem records_ids (p : Platform) (s : State) : (s.records p).map Prod.fst = s.intact := by
  simp only [State.records, State.intact, List.map_append, List.map_map, List.map_filterMap,
    record_creating]
  rfl

theorem filterMap_sublist {α β : Type} {f g : α → Option β} (hfg : ∀ a b, f a = some b → g a = some b)
    (l : List α) : (l.filterMap f).Sublist (l.filterMap g) := by
  induction l with
  | nil => exact List.Sublist.refl _
  | cons a l ih =>
    cases hf : f a with
    | none =>
      rw [List.filterMap_cons_none hf]
      exact ih.trans ((List.sublist_cons_self a l).filterMap g)
    | some b =>
      rw [List.filterMap_cons_some hf, List.filterMap_cons_some (hfg a b hf)]
      exact ih.cons_cons b

theorem intact_sublist (s : State) : s.intact.Sublist s.owners :=
  (List.Sublist.refl _).append (filterMap_sublist (fun _ _ => owner_of_creating) _)

theorem Tidy.record_unique (ht : Tidy p s) {x y : Record} (hx : x ∈ s.records p)
    (hy : y ∈ s.records p) (he : x.1 = y.1) : x = y :=
  List.inj_on_of_nodup_map (records_ids p s ▸ ht.owners.sublist (intact_sublist s)) hx hy he

theorem Tidy.record_fresh (ht : Tidy p s) {x : Record} (hx : x ∈ s.records p) :
    x.1 < s.nextId := by
  refine ht.fresh _ ((intact_sublist s).subset ?_)
  rw [← records_ids p s]
  exact List.mem_map_of_mem hx

/-- What a visit has put into an intact handle is a reference the handle has. -/
theorem record_pending {x : Record} (hx : x ∈ s.records p) {signo : Signo} {n : Addr}
    (hn : (signo, some n) ∈ x.2) : ⟨x.1, signo, n⟩ ∈ s.pending p := by
  have slot : ∀ {owner ms xs}, (signo, some n) ∈ List.zip ms xs →
      ⟨owner, signo, n⟩ ∈ slotsOf owner ms xs := by
    intro owner ms xs hm
    exact List.mem_filterMap.mpr ⟨_, hm, rfl⟩
  rcases List.mem_append.mp hx with hx | hx
  · obtain ⟨h, hh, rfl⟩ := List.mem_map.mp hx
    exact List.mem_append.mpr (Or.inl (List.mem_flatMap.mpr ⟨h, hh, slot hn⟩))
  · obtain ⟨a, ha, hax⟩ := List.mem_filterMap.mp hx
    refine List.mem_append.mpr (Or.inr (List.mem_flatMap.mpr ⟨a, ha, ?_⟩))
    unfold Act.record at hax
    split at hax
    · rename_i args filled hc
      cases hax
      simpa [Act.slots, hc] using slot hn
    · cases hax

theorem visit_cases (hv : s.visits p act = some v) :
    ∃ t env a args filled todo, act = .advance t env ∧ s.top t = some a ∧
      a.call = .create args filled ∧
      (p.members args.guarded).drop filled.length = v.signo :: todo ∧ v.handle = args.owner ∧
      v.callfirst = args.callfirst ∧ v.container = s.g.map v.signo ∧ v.node = s.g.nextNode := by
  cases act with
  | advance t env =>
    obtain ⟨a, ht, hv⟩ := Option.bind_eq_some_iff.mp hv
    unfold Act.visits at hv
    split at hv
    · rename_i args filled hc
      split at hv
      · rename_i signo todo hd
        cases hv
        exact ⟨t, env, a, args, filled, todo, rfl, ht, hc, hd, rfl, rfl, rfl, rfl⟩
      · cases hv
    · cases hv
  | _ => cases hv

/-- A visit registers a decider if it finds the signal installed. -/
theorem registers_visits (p : Platform) (s : State) (act : Action) : s.registers p act =
    (s.visits p act).bind fun v => v.container.map fun c => (c, v.callfirst) := by
  cases act with
  | advance t env =>
    simp only [State.registers, State.visits, Option.bind_assoc]
    congr 1
    funext a
    unfold Act.registers Act.visits
    cases a.call with
    | create args filled =>
      dsimp only
      cases (p.members args.guarded).drop filled.length <;> rfl
    | _ => rfl
  | _ => rfl

/-- What one signal's turn of the create loop does. -/
theorem Wf.createNode_cases {g g' : Global} {pend : List Slot} {cs ns : List Addr}
    (hw : Wf g L pend cs ns) {signo : Signo} {args : CreateArgs} {calloc : Bool} {r : Created}
    (h : createNode g signo args calloc = .ok (r, g')) :
    r = .missing ∧ g.map signo = none ∨ (∃ item, g.map signo = some item) ∧
      (r = .outOfMemory ∧ g'.nodes g.nextNode = none ∨
        r = .linked g.nextNode ∧ ∃ nd, g'.nodes g.nextNode = some nd ∧ nd.owner = args.owner) := by
  have hspec := hw.create h
  cases r with
  | missing =>
    refine Or.inl ⟨rfl, ?_⟩
    unfold createNode at h
    split at h
    · assumption
    · split at h
      · simp at h
      · obtain ⟨_, _, h⟩ := bind_ok.mp h
        obtain ⟨_, _, h⟩ := bind_ok.mp h
        simp at h
  | outOfMemory =>
    refine Or.inr ⟨?_, Or.inl ⟨rfl, ?_⟩⟩
    · unfold createNode at h
      split at h
      · simp at h
      · exact ⟨_, ‹_›⟩
    · rw [show g' = g from hspec]
      exact hw.nodeFresh _ (Nat.le_refl _)
  | linked i =>
    obtain ⟨item, L', hm, _, hj⟩ := hspec
    obtain ⟨nd, hn, howner⟩ := hj.live
    rw [hj.fresh] at hn ⊢
    exact Or.inr ⟨⟨item, hm⟩, Or.inr ⟨rfl, nd, hn, howner⟩⟩

theorem registered_step {w w' : Visited} (h : visitedStep p w act = .ok w') :
    registeredStep p w.registered act = .ok w'.registered := by
  obtain ⟨s', hs, h⟩ := bind_ok.mp h
  simp only [pure_ok] at h
  subst h
  refine bind_ok.mpr ⟨s', hs, ?_⟩
  simp only [Visited.registered, pure_ok, Registered.mk.injEq, true_and, List.filterMap_append,
    List.append_cancel_left_eq, registers_visits]
  cases hv : w.state.visits p act with
  | none => simp
  | some v =>
    obtain ⟨_, _, _, _, _, _, _, _, _, _, _, _, _, hnode⟩ := visit_cases hv
    cases hc : v.container with
    | none => simp [hc, Visit.registration]
    | some c =>
      cases hn : s'.g.nodes w.state.g.nextNode with
      | none => simp [hc, hnode, hn]
      | some nd => simp [hc, hnode, hn, Visit.registration, Option.filter]

/-- Did the visit leave something in the handle? -/
def Visit.done (v : Visit) (g' : Global) : Bool := v.container.isNone || (g'.nodes v.node).isSome

theorem visitedStep_ok {w w' : Visited} (h : visitedStep p w act = .ok w') :
    step p w.state act = .ok w'.state ∧
      (w'.visits = w.visits ∧ (∀ v, w.state.visits p act = some v → v.done w'.state.g = false) ∨
        ∃ v, w.state.visits p act = some v ∧ v.done w'.state.g = true ∧
          w'.visits = w.visits ++ [v]) := by
  obtain ⟨s', hs, h⟩ := bind_ok.mp h
  simp only [pure_ok] at h
  subst h
  refine ⟨hs, ?_⟩
  cases hv : w.state.visits p act with
  | none => exact Or.inl ⟨by simp, by simp⟩
  | some v =>
    cases hd : v.done s'.g with
    | false => exact Or.inl ⟨by simp [Option.filter, show (_ || _) = false from hd], by simp [hd]⟩
    | true => exact Or.inr ⟨v, rfl, hd, by simp [Option.filter, show (_ || _) = true from hd]⟩

/-- A visit adds to the handle it is for. -/
theorem visit_records (hi : Inv p s L) (hv : s.visits p act = some v)
    (h : step p s act = .ok s') (hd : v.done s'.g = true) :
    (∃ y, (v.handle, y) ∈ s.records p ∧ (v.handle, y ++ [(v.signo, v.slot)]) ∈ s'.records p) ∧
      ∀ c, v.container = some c → ∃ nd, s'.g.nodes v.node = some nd ∧ nd.owner = v.handle := by
  obtain ⟨t, env, a, args, filled, todo, rfl, ht, hc, hdrop, ho, _, hcont, hnode⟩ := visit_cases hv
  have hbefore : (v.handle, (p.members args.guarded).zip filled) ∈ s.records p := by
    refine List.mem_append.mpr (Or.inr (List.mem_filterMap.mpr ⟨a, ?_, ?_⟩))
    · exact List.mem_append.mpr (Or.inl (top_mem ht))
    · simp [Act.record, hc, ho]
  simp only [step, ht, callSection, hc, createSection, hdrop] at h
  obtain ⟨⟨r, g'⟩, op, h⟩ := bind_ok.mp h
  have hafter : ∀ g₁ x, x = v.slot →
      s' = { s with g := g₁, acts := a.goto (.create args (filled ++ [x])) :: s.others t } →
      (v.handle, (p.members args.guarded).zip filled ++ [(v.signo, v.slot)]) ∈ s'.records p := by
    rintro g₁ x rfl rfl
    refine List.mem_append.mpr (Or.inr (List.mem_filterMap.mpr
      ⟨_, List.mem_append.mpr (Or.inl List.mem_cons_self), ?_⟩))
    rw [ho, ← zip_concat v.slot hdrop]
    rfl
  rcases hi.wf.createNode_cases op with ⟨rfl, hm⟩ | ⟨⟨item, hm⟩, ⟨rfl, hn⟩ | ⟨rfl, nd, hn, howner⟩⟩
  · simp only [pure_ok] at h
    refine ⟨⟨_, hbefore, hafter g' none (by simp [Visit.slot, hcont, hm]) h.symm⟩, fun c hc => ?_⟩
    rw [hcont, hm] at hc
    cases hc
  · simp only [pure_ok] at h
    subst h
    simp [Visit.done, hcont, hm, hnode, hn] at hd
  · simp only [pure_ok] at h
    refine ⟨⟨_, hbefore, hafter g' (some s.g.nextNode) ?_ h.symm⟩, fun c hc => ?_⟩
    · simp [Visit.slot, hcont, hm, hnode]
    · subst h
      exact ⟨nd, hnode ▸ hn, howner.trans ho.symm⟩

theorem pushRaise_record (t : Tid) (signo : Signo) (delivered : Bool) (acts : List Act) :
    (s.pushRaise p t signo delivered acts).acts.filterMap (Act.record p) =
      acts.filterMap (Act.record p) := by
  unfold State.pushRaise
  split
  · split <;> rfl
  · rfl

/-- A section passes the record of its handle on, unless it makes a visit. -/
theorem turn_record {t : Tid} {a : Act} {ys : List Act} {hs : List Handle} {g' : Global}
    (hi : Inv p s L) (ht : s.top t = some a) (turn : Turn p s a ys hs g') (hd : Sections s act t a) {x : Record}
    (hx : x ∈ hs.map (Handle.record p) ++ ys.filterMap (Act.record p)) :
    a.record p = some x ∨
      ∃ v, s.visits p act = some v ∧ v.done g' = true ∧ v.handle = x.1 := by
  have visit : ∀ {args filled signo todo calloc r}, a.call = .create args filled →
      (p.members args.guarded).drop filled.length = signo :: todo →
      createNode s.g signo args calloc = .ok (r, g') → r ≠ .outOfMemory →
      ∃ v, s.visits p act = some v ∧ v.done g' = true ∧ v.handle = args.owner := by
    intro args filled signo todo calloc r hc hdrop op hr
    obtain ⟨env, rfl⟩ := hd.advances (by simp [hc, Call.runsUserCode])
    refine ⟨⟨args.owner, signo, args.callfirst, s.g.map signo, s.g.nextNode⟩, ?_, ?_, rfl⟩
    · simp [State.visits, ht, Act.visits, hc, hdrop]
    · rcases hi.wf.createNode_cases op with ⟨_, hm⟩ | ⟨_, ⟨he, _⟩ | ⟨_, nd, hn, _⟩⟩
      · simp [Visit.done, hm]
      · exact absurd he hr
      · simp [Visit.done, hn]
  cases turn with
  | created args filled hc hdrop =>
    refine Or.inl ?_
    have hlen : (p.members args.guarded).length ≤ filled.length := List.drop_eq_nil_iff.mp hdrop
    simp only [List.map_cons, List.map_nil, List.filterMap_nil, List.append_nil,
      List.mem_singleton] at hx
    rw [hx, Act.record, hc]
    simp only [Handle.record, padded, zip_past _ hlen]
  | create args filled signo todo env i g' hc hdrop op =>
    have hid : x.1 = args.owner := by simp_all [Act.record]
    rw [hid]
    exact Or.inr (visit hc hdrop op (by simp))
  | missing args filled signo todo env g' hc hdrop op =>
    have hid : x.1 = args.owner := by simp_all [Act.record]
    rw [hid]
    exact Or.inr (visit hc hdrop op (by simp))
  | install set done signo todo env ok g' hc op => cases ok <;> simp [Act.record] at hx
  | absent r g' hc hr op => cases hdel : r.delivered <;> simp [Act.record, hdel] at hx
  | _ => simp [Act.record] at hx

/-- An intact handle is a new one, was visited, or is as it was. -/
theorem records_step (hi : Inv p s L) (h : step p s act = .ok s') {x : Record}
    (hx : x ∈ s'.records p) : x ∈ s.records p ∨ x = (s.nextId, []) ∨
      ∃ v, s.visits p act = some v ∧ v.done s'.g = true ∧ v.handle = x.1 := by
  have keep : (s'.handles.map (Handle.record p)).Sublist (s.handles.map (Handle.record p)) →
      ((s'.acts ++ s'.lost).filterMap (Act.record p)) ⊆
        ((s.acts ++ s.lost).filterMap (Act.record p)) → x ∈ s.records p := by
    intro hh ha
    rcases List.mem_append.mp hx with hx | hx
    · exact List.mem_append.mpr (Or.inl (hh.subset hx))
    · exact List.mem_append.mpr (Or.inr (ha hx))
  cases step_moves h with
  | idle h => exact Or.inl (h ▸ hx)
  | begins t call installs hb h =>
    subst h
    cases hb with
    | create args ho =>
      rcases List.mem_append.mp hx with hx | hx
      · exact Or.inl (List.mem_append.mpr (Or.inl hx))
      · obtain ⟨b, hb, hbx⟩ := List.mem_filterMap.mp hx
        rcases List.mem_cons.mp hb with rfl | hb
        · simp only [Act.record, List.zip_nil_right, Option.some.injEq, ho] at hbx
          exact Or.inr (Or.inl hbx.symm)
        · exact Or.inl (List.mem_append.mpr (Or.inr (List.mem_filterMap.mpr ⟨b, hb, hbx⟩)))
    | _ => exact Or.inl (keep (List.Sublist.refl _) fun y hy => hy)
  | destroys t hd hf h =>
    subst h
    exact Or.inl (keep (List.eraseP_sublist.map _) fun y hy => hy)
  | raises t signo delivered h =>
    subst h
    obtain ⟨_, hh, hl⟩ := pushRaise_frame (p := p) (s := s) t signo delivered s.acts
    refine Or.inl (keep (hh ▸ List.Sublist.refl _) ?_)
    rw [hl, List.filterMap_append, List.filterMap_append, pushRaise_record]
    exact fun y hy => hy
  | turns t a ys hs ht turn ha hh hl hn hd hinst hu =>
    have hsplit := turn_record (x := x) hi ht turn hd
    simp only [State.records, ha, hh, hl, List.map_append, List.filterMap_append,
      List.mem_append] at hx
    have old : ∀ {b}, b ∈ s.acts ++ s.lost → b.record p = some x → x ∈ s.records p :=
      fun hb hbx => List.mem_append.mpr (Or.inr (List.mem_filterMap.mpr ⟨_, hb, hbx⟩))
    have new : x ∈ hs.map (Handle.record p) ++ ys.filterMap (Act.record p) → x ∈ s.records p ∨
        x = (s.nextId, []) ∨ ∃ v, s.visits p act = some v ∧ v.done s'.g = true ∧ v.handle = x.1 := by
      intro hx
      rcases hsplit hx with hax | hv
      · exact Or.inl (old (List.mem_append.mpr (Or.inl (top_mem ht))) hax)
      · exact Or.inr (Or.inr hv)
    rcases hx with (hx | hx) | (hx | hx) | hx
    · exact new (List.mem_append.mpr (Or.inl hx))
    · exact Or.inl (List.mem_append.mpr (Or.inl hx))
    · exact new (List.mem_append.mpr (Or.inr hx))
    · obtain ⟨b, hb, hbx⟩ := List.mem_filterMap.mp hx
      exact Or.inl (old (List.mem_append.mpr (Or.inl (List.mem_of_mem_eraseP hb))) hbx)
    · obtain ⟨b, hb, hbx⟩ := List.mem_filterMap.mp hx
      exact Or.inl (old (List.mem_append.mpr (Or.inr hb)) hbx)
  | reenters t a r phase ht hc hp h =>
    subst h
    obtain ⟨_, hh, hl⟩ := pushRaise_frame (p := p) (s := s) a.tid r.signo true
      (a.phase r phase :: s.others t)
    refine Or.inl (keep (hh ▸ List.Sublist.refl _) ?_)
    rw [hl, List.filterMap_append, pushRaise_record, List.filterMap_cons_none rfl,
      ← List.filterMap_append]
    refine List.filterMap_subset _ fun b hb => ?_
    exact List.mem_append.mpr ((List.mem_append.mp hb).imp_left List.mem_of_mem_eraseP)
  | recovers t a r f fs ht hd hc hr hf h =>
    subst h
    refine Or.inl (keep (List.Sublist.refl _) (List.filterMap_subset _ fun b hb => ?_))
    simp only [List.mem_append, List.mem_filter] at hb ⊢
    tauto

end

/-- What the record has to do with the handles. -/
structure Recorded (p : Platform) (w : Visited) : Prop where
  fresh : ∀ v ∈ w.visits, v.handle < w.state.nextId
  old : ∀ v ∈ w.visits, ∀ c, v.container = some c → c < w.state.g.nextContainer
  signos : ∀ v ∈ w.visits, ∀ c signo, v.container = some c → w.state.g.map signo = some c →
    v.signo = signo
  owned : ∀ v ∈ w.visits, ∀ c, v.container = some c → v.node < w.state.g.nextNode ∧
    ∀ nd, w.state.g.nodes v.node = some nd → nd.owner = v.handle
  filled : ∀ x ∈ w.state.records p,
    (w.visits.filter fun v => v.handle == x.1).map (fun v => (v.signo, v.slot)) = x.2

section

variable {p : Platform} {w w' : Visited} {act : Action} {L L' : Layout}

theorem Recorded.step (hs : Sound p w.state L) (hw : Recorded p w)
    (h : visitedStep p w act = .ok w') : Recorded p w' := by
  obtain ⟨hstep, hrec⟩ := visitedStep_ok h
  obtain ⟨L', hs', hx, hlasts⟩ := hs.step hstep
  have hid : w.state.nextId ≤ w'.state.nextId := (hs.tidy.owners_step hstep).2.1
  have hnext := hlasts.containers.next
  have hmap : ∀ {signo c}, c < w.state.g.nextContainer → w'.state.g.map signo = some c →
      w.state.g.map signo = some c := by
    intro signo c hlt hm
    exact (hx.map_before hm).resolve_right (Nat.not_le_of_lt hlt)
  have howned : ∀ v ∈ w.visits, ∀ c, v.container = some c → v.node < w'.state.g.nextNode ∧
      ∀ nd, w'.state.g.nodes v.node = some nd → nd.owner = v.handle := by
    intro v hv c hc
    obtain ⟨hlt, ho⟩ := hw.owned v hv c hc
    refine ⟨Nat.lt_of_lt_of_le hlt hlasts.containers.nodes, fun nd' hn' => ?_⟩
    obtain ⟨nd, hn, he⟩ := hx.owner_before hlt hn'
    exact he.symm.trans (ho nd hn)
  rcases hrec with ⟨hsame, hnone⟩ | ⟨v, hv, hd, hvisits⟩
  · refine ⟨fun v hv => ?_, fun v hv c hc => ?_, fun v hv c signo hc hm => ?_,
      hsame ▸ howned, fun x hx => ?_⟩
    · exact Nat.lt_of_lt_of_le (hw.fresh v (hsame ▸ hv)) hid
    · exact Nat.lt_of_lt_of_le (hw.old v (hsame ▸ hv) c hc) hnext
    · exact hw.signos v (hsame ▸ hv) c signo hc (hmap (hw.old v (hsame ▸ hv) c hc) hm)
    · rw [hsame]
      rcases records_step hs.inv hstep hx with hx | rfl | ⟨v, hv, hd, _⟩
      · exact hw.filled x hx
      · simp only [List.map_eq_nil_iff, List.filter_eq_nil_iff, beq_iff_eq]
        exact fun v hv => Nat.ne_of_lt (hw.fresh v hv)
      · rw [hnone v hv] at hd
        cases hd
  · obtain ⟨⟨y, hy, hy'⟩, hnode⟩ := visit_records hs.inv hv hstep hd
    obtain ⟨_, _, _, _, _, _, _, _, _, _, _, _, hcont, _⟩ := visit_cases hv
    have hfresh : v.handle < w.state.nextId := hs.tidy.record_fresh hy
    have hfill := hw.filled _ hy
    have split : ∀ {u}, u ∈ w'.visits → u ∈ w.visits ∨ u = v := by
      intro u hu
      rw [hvisits] at hu
      simpa using hu
    refine ⟨fun u hu => ?_, fun u hu c hc => ?_, fun u hu c signo hc hm => ?_,
      fun u hu c hc => ?_, fun x hx => ?_⟩
    · rcases split hu with hu | rfl
      · exact Nat.lt_of_lt_of_le (hw.fresh u hu) hid
      · exact Nat.lt_of_lt_of_le hfresh hid
    · rcases split hu with hu | rfl
      · exact Nat.lt_of_lt_of_le (hw.old u hu c hc) hnext
      · exact Nat.lt_of_lt_of_le (hs.inv.wf.mapped_lt (hcont ▸ hc)) hnext
    · rcases split hu with hu | rfl
      · exact hw.signos u hu c signo hc (hmap (hw.old u hu c hc) hm)
      · have hold : w.state.g.map u.signo = some c := hcont ▸ hc
        exact hs.inv.wf.mapInj _ _ c hold (hmap (hs.inv.wf.mapped_lt hold) hm)
    · rcases split hu with hu | rfl
      · exact howned u hu c hc
      · obtain ⟨nd, hn, ho⟩ := hnode c hc
        refine ⟨hs'.inv.wf.node_lt hn, fun nd' hn' => ?_⟩
        cases hn.symm.trans hn'
        exact ho
    · rw [hvisits, List.filter_append, List.map_append]
      by_cases hxv : v.handle = x.1
      · rw [hs'.tidy.record_unique hx hy' hxv.symm, hfill]
        simp
      · rw [List.filter_cons_of_neg (by simpa using hxv), List.filter_nil, List.map_nil,
          List.append_nil]
        rcases records_step hs.inv hstep hx with hx | rfl | ⟨u, hu, _, he⟩
        · exact hw.filled x hx
        · simp only [List.map_eq_nil_iff, List.filter_eq_nil_iff, beq_iff_eq]
          exact fun v hv => Nat.ne_of_lt (hw.fresh v hv)
        · cases hv.symm.trans hu
          exact absurd he hxv

theorem recorded_run {kernel : Signo → Sigaction}
    (hr : Run (visitedStep p) (fun _ _ => True) { state := State.initial kernel } w) :
    Looped p w.state ∧ ∃ L, Sound p w.state L ∧ Logged w.registered L ∧ Recorded p w := by
  refine hr.invariant (I := fun w => Looped p w.state ∧
      ∃ L, Sound p w.state L ∧ Logged w.registered L ∧ Recorded p w)
    ⟨looped_initial p kernel, _, sound_initial p kernel, ?_, ?_⟩ ?_
  · constructor <;> simp [State.initial, Visited.registered, callOrder]
  · constructor <;> simp [State.records, State.initial]
  · rintro u act v ⟨hloop, L, hs, hl, hu⟩ - h
    obtain ⟨L', hs', hl'⟩ := Logged.step hs hl (registered_step h)
    exact ⟨hloop.step (visitedStep_ok h).1, L', hs', hl', hu.step hs h⟩

end

section

variable {visits : List Visit} {signo : Signo} {c : Addr}

theorem documentedOrder_concat (v : Visit) : documentedOrder (visits ++ [v]) signo =
    if v.signo = signo then
      if v.callfirst then v :: documentedOrder visits signo
      else documentedOrder visits signo ++ [v]
    else documentedOrder visits signo := by
  by_cases hs : v.signo = signo
  · cases hf : v.callfirst <;> simp [documentedOrder, hs, hf]
  · simp [documentedOrder, hs]

theorem mem_documentedOrder {v : Visit} :
    v ∈ documentedOrder visits signo ↔ v ∈ visits ∧ v.signo = signo := by
  simp only [documentedOrder, List.mem_append, List.mem_reverse, List.mem_filter, beq_iff_eq,
    Bool.not_eq_true']
  cases v.callfirst <;> simp

/-- The registrations in one container, in the documented order. -/
theorem callOrder_documented (hs : ∀ v ∈ visits, v.container = some c → v.signo = signo) :
    callOrder (visits.filterMap Visit.registration) c =
      ((documentedOrder visits signo).filter fun v => v.container == some c).map Visit.node := by
  induction visits using List.reverseRecOn with
  | nil => rfl
  | append_singleton visits v ih =>
    have ih := ih fun u hu => hs u (List.mem_append.mpr (Or.inl hu))
    have hv := hs v (by simp)
    rw [List.filterMap_append, documentedOrder_concat]
    cases hc : v.container with
    | none =>
      rw [List.filterMap_cons_none (by simp [Visit.registration, hc]), List.filterMap_nil,
        List.append_nil, ih]
      split
      · split <;> simp [hc]
      · rfl
    | some d =>
      rw [List.filterMap_cons_some (b := ⟨d, v.node, v.callfirst⟩)
        (by simp [Visit.registration, hc]), List.filterMap_nil, callOrder_concat, ih]
      by_cases hd : d = c
      · rw [if_pos hd, if_pos (hv (by rw [hc, hd]))]
        split <;> simp [hc, hd]
      · rw [if_neg hd]
        split
        · split <;> simp [hc, hd]
        · rfl

end

section

variable {p : Platform} {s s' : State} {w : Visited} {L : Layout} {signo : Signo} {c n : Addr}

theorem handleOf_eq_some {o : Nat} :
    s.handleOf n = some o ↔ ∃ nd, s.g.nodes n = some nd ∧ nd.owner = o ∧ o ∈ s.intact := by
  simp only [State.handleOf, Option.filter_eq_some_iff, Option.map_eq_some_iff,
    List.contains_iff_mem]
  constructor
  · rintro ⟨⟨nd, hn, ho⟩, hi⟩
    exact ⟨nd, hn, ho, hi⟩
  · rintro ⟨nd, hn, ho, hi⟩
    exact ⟨⟨nd, hn, ho⟩, hi⟩

theorem handleOf_isSome : (s.handleOf n).isSome = s.intactNode n := by
  cases hn : s.g.nodes n with
  | none => simp [State.handleOf, State.intactNode, hn]
  | some nd =>
    simp only [State.handleOf, State.intactNode, hn, Option.map_some, Option.any_some, Option.filter]
    split <;> simp_all

/-- Only nodes of intact handles count. -/
theorem filterMap_handleOf (s : State) (l : List Addr) :
    (l.filter s.intactNode).filterMap s.handleOf = l.filterMap s.handleOf := by
  rw [List.filterMap_filter]
  refine List.filterMap_congr fun n _ => ?_
  rw [← handleOf_isSome]
  cases s.handleOf n <;> rfl

/-- A visit's node belongs to the handle visited, as long as that is intact. -/
theorem Recorded.handleOf (hs : Sound p w.state L) (hw : Recorded p w) {v : Visit}
    (hv : v ∈ w.visits) (hc : v.container = some c) :
    w.state.handleOf v.node = (some v.handle).filter w.state.intact.contains := by
  obtain ⟨_, howner⟩ := hw.owned v hv c hc
  by_cases hin : v.handle ∈ w.state.intact
  · rw [Option.filter, if_pos (by simpa using hin)]
    rw [← records_ids p, List.mem_map] at hin
    obtain ⟨x, hx, hid⟩ := hin
    have hmem : (v.signo, some v.node) ∈ x.2 := by
      rw [← hw.filled x hx]
      refine List.mem_map.mpr ⟨v, List.mem_filter.mpr ⟨hv, by simp [hid]⟩, ?_⟩
      simp [Visit.slot, hc]
    obtain ⟨nd, hn, ho⟩ := hs.inv.wf.owned _ (record_pending hx hmem)
    refine handleOf_eq_some.mpr ⟨nd, hn, ho.trans hid, ?_⟩
    rw [← records_ids p, ← hid]
    exact List.mem_map_of_mem hx
  · rw [Option.filter, if_neg (by simpa using hin)]
    refine Option.eq_none_iff_forall_ne_some.mpr fun o ho => hin ?_
    obtain ⟨nd, hn, rfl, hi⟩ := handleOf_eq_some.mp ho
    exact howner nd hn ▸ hi

/-- The intact handles registered in a container, in the documented order. -/
def Visited.reached (w : Visited) (signo : Signo) (c : Addr) : List Nat :=
  (((documentedOrder w.visits signo).filter fun v => v.container == some c).map
    Visit.handle).filter w.state.intact.contains

theorem Recorded.reached (hs : Sound p w.state L) (hl : Logged w.registered L)
    (hw : Recorded p w) (hm : w.state.g.map signo = some c) :
    (L c .global).filterMap w.state.handleOf = w.reached signo c := by
  have hlist : (L c .global).filter w.state.intactNode =
      (callOrder w.registered.log c).filter w.state.intactNode := hl.intact hm
  have horder := callOrder_documented fun v hv hc => hw.signos v hv c signo hc hm
  rw [← filterMap_handleOf, hlist, filterMap_handleOf, Visited.registered, horder,
    List.filterMap_map, Visited.reached,
    ← List.filterMap_eq_filter (p := w.state.intact.contains), List.filterMap_map]
  refine List.filterMap_congr fun v hv => ?_
  obtain ⟨hv, hc⟩ := List.mem_filter.mp hv
  exact hw.handleOf hs (mem_documentedOrder.mp hv).1 (beq_iff_eq.mp hc)

end

/-- Nothing has been installed, uninstalled, registered or destroyed between two states. -/
structure Unchanged (p : Platform) (s s' : State) : Prop where
  nextId : s.nextId ≤ s'.nextId
  intact : ∀ o < s.nextId, (o ∈ s'.intact ↔ o ∈ s.intact)
  nodes : ∀ n nd', s'.g.nodes n = some nd' → ∃ nd, s.g.nodes n = some nd ∧ nd.owner = nd'.owner
  map : s'.g.map = s.g.map
  slots : ∀ x ∈ s.pending p, x ∈ s'.pending p

section

variable {p : Platform} {s s' u u' : State} {act : Action} {L L' : Layout}

theorem mem_intact {o : Nat} : o ∈ s.intact ↔
    o ∈ s.handles.map Handle.id ∨ ∃ a ∈ s.acts ++ s.lost, a.creating = some o := by
  rw [State.intact, List.mem_append, List.mem_filterMap]

theorem creating_call {a : Act} {o : Nat} (h : a.creating = some o) :
    ∃ args filled, a.call = .create args filled := by
  unfold Act.creating at h
  split at h
  · exact ⟨_, _, ‹_›⟩
  · cases h

/-- The section of a call that changes something is such a step. -/
theorem changes_section {t : Tid} {a : Act} (ht : s.top t = some a) (hd : Sections s act t a)
    (hc : a.call.changes = true) : s.changes act = true := by
  obtain ⟨env, rfl⟩ := hd.advances (by cases h : a.call <;> simp_all [Call.changes, Call.runsUserCode])
  simp [State.changes, ht, hc]

theorem changes_registers {x : Addr × Bool} (h : s.registers p act = some x) :
    s.changes act = true := by
  rw [registers_visits] at h
  obtain ⟨v, hv, _⟩ := Option.bind_eq_some_iff.mp h
  obtain ⟨t, env, a, args, filled, _, rfl, ht, hc, _⟩ := visit_cases hv
  simp [State.changes, ht, hc, Call.changes]

theorem changes_drops {x : Addr × Option Addr} (h : s.drops act = some x) :
    s.changes act = true := by
  cases act with
  | advance t env =>
    obtain ⟨a, _, _, _, _, _, _, ht, hc, _⟩ := drops_cases h
    simp [State.changes, ht, hc, Call.changes]
  | _ => cases h

/-- Such a step apart, intact handles stay so. -/
theorem intact_kept (hc : s.changes act = false) (h : step p s act = .ok s') {o : Nat}
    (ho : o ∈ s.intact) : o ∈ s'.intact := by
  rw [mem_intact] at ho ⊢
  have stay : ∀ {l : List Act}, (∀ a ∈ s.acts, ∀ o, a.creating = some o → a ∈ l) →
      s'.handles = s.handles → s'.lost = s.lost → (∀ a ∈ l, a ∈ s'.acts) →
      o ∈ s'.handles.map Handle.id ∨ ∃ a ∈ s'.acts ++ s'.lost, a.creating = some o := by
    intro l hl hh hlost hsub
    rw [hh, hlost]
    refine ho.imp_right ?_
    rintro ⟨a, ha, hao⟩
    refine ⟨a, ?_, hao⟩
    rcases List.mem_append.mp ha with ha | ha
    · exact List.mem_append.mpr (Or.inl (hsub a (hl a ha o hao)))
    · exact List.mem_append.mpr (Or.inr ha)
  cases step_moves h with
  | idle h => exact h ▸ ho
  | begins t call installs hb h =>
    subst h
    exact stay (fun a ha _ _ => ha) rfl rfl fun a ha => List.mem_cons_of_mem _ ha
  | destroys t hd hf h hact =>
    subst hact
    cases hc
  | raises t signo delivered h =>
    subst h
    obtain ⟨_, hh, hl⟩ := pushRaise_frame (p := p) (s := s) t signo delivered s.acts
    obtain ⟨new, hnew, _⟩ := pushRaise_acts (p := p) (s := s) t signo delivered s.acts
    exact stay (fun a ha _ _ => ha) hh hl fun a ha => hnew ▸ List.mem_append.mpr (Or.inr ha)
  | turns t a ys hs ht turn ha hh hl hn hd hi hu =>
    have hnot : ∀ o, a.creating ≠ some o := by
      intro o hao
      obtain ⟨_, _, hcall⟩ := creating_call hao
      rw [changes_section ht hd (by simp [hcall, Call.changes])] at hc
      cases hc
    rw [ha, hh, hl]
    rcases ho with ho | ⟨b, hb, hbo⟩
    · exact Or.inl (by simp [ho])
    · refine Or.inr ⟨b, ?_, hbo⟩
      rcases List.mem_append.mp hb with hb | hb
      · rcases List.mem_cons.mp ((find_perm ht).mem_iff.mp hb) with rfl | hb
        · exact absurd hbo (hnot o)
        · exact List.mem_append.mpr (Or.inl (List.mem_append.mpr (Or.inr hb)))
      · exact List.mem_append.mpr (Or.inr hb)
  | reenters t a r phase ht hcall hp h =>
    subst h
    obtain ⟨_, hh, hl⟩ := pushRaise_frame (p := p) (s := s) a.tid r.signo true
      (a.phase r phase :: s.others t)
    obtain ⟨new, hnew, _⟩ := pushRaise_acts (p := p) (s := s) a.tid r.signo true
      (a.phase r phase :: s.others t)
    refine stay (l := s.others t) (fun b hb o hbo => ?_) hh hl fun b hb => ?_
    · rcases List.mem_cons.mp ((find_perm ht).mem_iff.mp hb) with rfl | hb
      · obtain ⟨_, _, hcreate⟩ := creating_call hbo
        rw [hcall] at hcreate
        cases hcreate
      · exact hb
    · rw [hnew]
      exact List.mem_append.mpr (Or.inr (List.mem_cons_of_mem _ hb))
  | recovers t a r f fs ht hd hcall hr hf h =>
    subst h
    refine ho.imp_right ?_
    rintro ⟨b, hb, hbo⟩
    refine ⟨b, ?_, hbo⟩
    simp only [List.mem_append, List.mem_filter, Bool.not_eq_true'] at hb ⊢
    cases hdis : discarded t f b <;> tauto

theorem map_kept (hc : s.changes act = false) (h : step p s act = .ok s') :
    s'.g.map = s.g.map := by
  rcases step_turns h with he | ⟨t, a, ys, hs, ht, turn, _, _, hd, _⟩
  · rw [he]
  · have hcall : a.call.changes ≠ true := by
      intro hcall
      rw [changes_section ht hd hcall] at hc
      cases hc
    rcases turn_dispositions turn with hst | ⟨_, _, _, _, _, hi, _⟩ | ⟨_, _, hu | hu, _⟩ |
      ⟨_, _, _, _, _, hg⟩
    · exact hst.map
    · exact absurd (by rw [hi]; rfl) hcall
    · exact absurd (by rw [hu]; rfl) hcall
    · exact absurd (by rw [hu]; rfl) hcall
    · rw [hg]
      rfl

theorem Unchanged.refl (p : Platform) (s : State) : Unchanged p s s :=
  ⟨Nat.le_refl _, fun _ _ => Iff.rfl, fun _ nd h => ⟨nd, h, rfl⟩, rfl, fun _ h => h⟩

theorem Unchanged.step (hs : Sound p u L) (hu : Unchanged p s u) (hc : u.changes act = false)
    (h : Wg14Signals.step p u act = .ok u') (hx : Shift p u act u' L L') : Unchanged p s u' := by
  have hkept : (∀ n nd', u'.g.nodes n = some nd' → ∃ nd, u.g.nodes n = some nd ∧
      nd.owner = nd'.owner) ∧ (u'.pending p).Perm (u.pending p) := by
    cases hx with
    | keeps he hm hp hh => exact ⟨he.owners, hp⟩
    | joins x item first hj ha hp hh =>
      rw [changes_registers ha] at hc
      cases hc
    | drops x searched hd ho hx hs hp hh =>
      rw [changes_drops hd] at hc
      cases hc
    | enters x signo hm hf he hg hp hh => exact ⟨he.owners, hp⟩
    | walks x next hx hn he hg hp hh => exact ⟨he.owners, hp⟩
  refine ⟨Nat.le_trans hu.nextId (hs.tidy.owners_step h).2.1, fun o ho => ?_, fun n nd' hn' => ?_,
    (map_kept hc h).trans hu.map, fun x hx => hkept.2.mem_iff.mpr (hu.slots x hx)⟩
  · rw [← hu.intact o ho]
    refine ⟨fun hin => ?_, intact_kept hc h⟩
    exact (intact_step h hin).resolve_right (Nat.ne_of_lt (Nat.lt_of_lt_of_le ho hu.nextId))
  · obtain ⟨nd, hn, he⟩ := hkept.1 n nd' hn'
    obtain ⟨nd₀, hn₀, he₀⟩ := hu.nodes n nd hn
    exact ⟨nd₀, hn₀, he₀.trans he⟩

/-- Then every node belongs to the same intact handle as before. -/
theorem Unchanged.handleOf (hs : Sound p s L) (hs' : Sound p s' L') (hu : Unchanged p s s')
    (n : Addr) : s'.handleOf n = s.handleOf n := by
  refine Option.ext fun o => ?_
  rw [handleOf_eq_some, handleOf_eq_some]
  constructor
  · rintro ⟨nd', hn', rfl, hi⟩
    obtain ⟨nd, hn, he⟩ := hu.nodes n nd' hn'
    refine ⟨nd, hn, he, (hu.intact _ ?_).mp hi⟩
    exact he ▸ (hs.accounted n nd hn).1
  · rintro ⟨nd, hn, rfl, hi⟩
    obtain ⟨hlt, hslot⟩ := hs.accounted n nd hn
    obtain ⟨x, hx, rfl⟩ := hslot hi
    obtain ⟨nd', hn', _⟩ := hs'.inv.wf.owned x (hu.slots x hx)
    obtain ⟨nd₀, hn₀, he⟩ := hu.nodes _ nd' hn'
    cases hn.symm.trans hn₀
    exact ⟨nd', hn', he.symm, (hu.intact _ hlt).mpr hi⟩

end

section

variable {p : Platform} {w : Visited} {u : Walk} {L L' : Layout} {i : Nat} {signo : Signo} {c : Addr}

/-- The handles a raise has offered its signal to while nothing changed. -/
theorem Recorded.offered (hs : Sound p w.state L) (hl : Logged w.registered L)
    (hw : Recorded p w) (hm : w.state.g.map signo = some c) (hu : Unchanged p w.state u.state)
    (hwalk : Walked p i c (L c .global) w.state.g.nextNode u L') :
    u.offered <+: w.reached signo c ∧
      (u.answers = u.called.map (fun _ => .nextDecider) → u.offered = w.reached signo c) := by
  obtain ⟨ahead, _, hsub, hold, hall⟩ := hwalk.ahead
  have hsame : u.state.handleOf = w.state.handleOf := funext (hu.handleOf hs hwalk.sound)
  have heq : (u.called ++ ahead).filterMap u.state.handleOf = w.reached signo c := by
    rw [← hw.reached hs hl hm, ← hsame]
    -- nodes made since then are nobody's: nothing has been registered
    have hnew : (u.called ++ ahead).filterMap u.state.handleOf =
        ((u.called ++ ahead).filter fun n =>
          decide (n < w.state.g.nextNode)).filterMap u.state.handleOf := by
      rw [List.filterMap_filter]
      refine List.filterMap_congr fun n _ => ?_
      split
      · rfl
      · rename_i hlt
        refine Option.eq_none_iff_forall_ne_some.mpr fun o ho => hlt ?_
        rw [hsame] at ho
        obtain ⟨nd, hn, _⟩ := handleOf_eq_some.mp ho
        exact decide_eq_true (hs.inv.wf.node_lt hn)
    refine List.Sublist.antisymm ?_ ?_
    · rw [hnew]
      exact hold.filterMap _
    · rw [← filterMap_handleOf]
      exact hsub.filterMap _
  rw [List.filterMap_append] at heq
  refine ⟨⟨_, heq⟩, fun hdecline => ?_⟩
  rw [hall hdecline, List.filterMap_nil, List.append_nil] at heq
  exact heq

end

section

variable {p : Platform} {s s' : State} {a b : Act} {t : Tid}

theorem top_cons {b : Act} {rest : List Act} (h : s.acts = b :: rest) (ht : b.tid = t) :
    s.top t = some b := by
  simp [State.top, h, ht]

theorem top_tid (ht : s.top t = some a) : a.tid = t := by
  simpa using List.find?_some ht

/-- A raise that goes on after a decider is still its thread's innermost call. -/
theorem decide_top (hn : Named s) {x : Hold} {d : Decision} (ht : s.top t = some a)
    (hx : x ∈ a.holds) (h : step p s (.decide t d) = .ok s') (hb : b ∈ s'.acts)
    (hid : b.id = a.id) : s'.top t = some b := by
  obtain ⟨r, pin, hcall, hr, hp, _, _⟩ := hold_cases hx
  have hothers := hn.others ht
  simp only [step, ht, hcall, decideSection, hr, hp, Bool.false_eq_true, ↓reduceIte] at h
  obtain ⟨⟨res, g'⟩, _, h⟩ := bind_ok.mp h
  cases res <;> simp only [pure_ok] at h <;> subst h
  · exact absurd hid (hothers b hb)
  all_goals
    rcases List.mem_cons.mp hb with rfl | hb
    · exact top_cons rfl (show a.tid = t from top_tid ht)
    · exact absurd hid (hothers b hb)

theorem look_top (hn : Named s) {r : Raise} {env : InstallEnv} (ht : s.top t = some a)
    (hc : a.call = .raise r) (hr : r.phase = .frames [])
    (h : step p s (.advance t env) = .ok s') (hb : b ∈ s'.acts)
    (hid : b.id = a.id) : s'.top t = some b := by
  have hothers := hn.others ht
  simp only [step, ht, callSection, hc, raiseSection, hr] at h
  obtain ⟨⟨res, g'⟩, _, h⟩ := bind_ok.mp h
  have hacts : s'.acts = s.others t ∨ ∃ phase, s'.acts = a.phase r phase :: s.others t := by
    cases res with
    | absent =>
      simp only at h
      split at h <;> simp only [pure_ok] at h <;> subst h
      · exact Or.inr ⟨_, rfl⟩
      · exact Or.inl rfl
    | _ =>
      simp only [pure_ok] at h
      subst h
      exact Or.inr ⟨_, rfl⟩
  rcases hacts with hacts | ⟨phase, hacts⟩
  · rw [hacts] at hb
    exact absurd hid (hothers b hb)
  · rw [hacts] at hb
    rcases List.mem_cons.mp hb with rfl | hb
    · exact top_cons hacts (show a.tid = t from top_tid ht)
    · exact absurd hid (hothers b hb)

end

/-- Steps that neither install nor register anything. -/
abbrev Steady (u : Walk) (act : Action) : Prop := u.state.changes act = false

section

variable {p : Platform} {i : Nat} {c N : Addr} {l : List Addr} {w w' : Walk} {act : Action}
  {L L' : Layout} {signo : Signo} {t : Tid}

theorem Shift.shrinks {s s' : State} (hx : Shift p s act s' L L') (hc : s.changes act = false)
    (d : Addr) : (L' d .global).Sublist (L d .global) := by
  cases hx with
  | keeps he hm hp hh => exact he.shrinks d
  | joins x item first hj ha hp hh =>
    rw [changes_registers ha] at hc
    cases hc
  | drops x searched hd ho hx hs hp hh => exact hx.evolves.shrinks d
  | enters x signo hm hf he hg hp hh => exact he.shrinks d
  | walks x next hx hn he hg hp hh => exact he.shrinks d

/-- The raise is done with deciders, or inside one of the list. -/
theorem Walked.consulting (hw : Walked p i c l N w L) :
    (∀ b ∈ w.state.acts, b.id = i → b.over) ∧ w.state.consults i = [] ∨
      ∃ n ∈ L c .global, w.state.consults i = [n] := by
  cases hw.stage with
  | past ahead ho hd hsub hold hall => exact Or.inl ⟨ho, consults_over ho⟩
  | inside b y front ahead hb hid hyb hc hl hans hd hsub hold =>
    refine Or.inr ⟨y.node, by rw [hl]; simp, ?_⟩
    rw [← hid]
    exact consults_inside hw.sound.named hb hyb

/-- A raise every decider of which has so far declined, with nothing going on besides. -/
structure Declined (p : Platform) (i : Nat) (c : Addr) (l : List Addr) (N : Addr) (t : Tid)
    (signo : Signo) (w : Walk) (L : Layout) : Prop where
  walked : Walked p i c l N w L
  mapped : w.state.g.map signo = some c
  top : ∀ b ∈ w.state.acts, b.id = i → w.state.top t = some b
  shrunk : (L c .global).Sublist l
  within : ∀ n ∈ w.called, n ∈ l
  answers : ∀ d ∈ w.answers, d = .nextDecider
  even : w.state.consults i = [] → w.answers.length = w.called.length

theorem Declined.over (hw : Declined p i c l N t signo w L)
    (ho : ∀ a ∈ w.state.acts, a.id = i → a.over) :
    w.answers = w.called.map (fun _ => .nextDecider) := by
  rw [List.map_const', List.eq_replicate_iff]
  exact ⟨hw.even (consults_over ho), hw.answers⟩

theorem Declined.called_le (hw : Declined p i c l N t signo w L) : w.called.length ≤ l.length := by
  obtain ⟨ahead, hd, _⟩ := hw.walked.ahead
  exact (List.Nodup.subperm (hd.sublist (List.sublist_append_left _ _)) hw.within).length_le

/-- One more decider declines. -/
theorem Declined.step (hw : Declined p i c l N t signo w L) {a : Act} {x : Hold}
    (ha : a ∈ w.state.acts) (hid : a.id = i) (hx : x ∈ a.holds) :
    ∃ w' L', walkStep p i w (.decide t .nextDecider) = .ok w' ∧ Declined p i c l N t signo w' L' ∧
      ((∀ b ∈ w'.state.acts, b.id = i → b.over) ∨ w'.called.length = w.called.length + 1) := by
  have ht := hw.top a ha hid
  obtain ⟨w', h⟩ := hw.walked.goes_on hw.mapped ht hid (List.ne_nil_of_mem hx) .nextDecider
  obtain ⟨L', hw', hshift⟩ := hw.walked.step h
  obtain ⟨hstep, hrec⟩ := walkStep_ok h
  have hmoved : w'.called = w.called ++ w'.state.consults i ∧
      w'.answers = w.answers ++ [.nextDecider] := by
    rcases hrec with ⟨_, _, _, hcalled, hans⟩ | ⟨hnot, _⟩
    · exact ⟨hcalled, hans⟩
    · exact absurd hid (hnot a ht)
  obtain ⟨hcalled, hans⟩ := hmoved
  have hshrunk := (hshift.shrinks rfl c).trans hw.shrunk
  have hlen : w.answers.length + 1 = w.called.length := by
    cases hw.walked.stage with
    | past ahead ho hd hsub hold hall =>
      obtain ⟨_, _, _, hnone⟩ := ho a ha hid
      rw [hnone] at hx
      cases hx
    | inside a x front b ha hid hxa hc hl hans hd hsub hold => exact hans
  refine ⟨w', L', h, ⟨hw', ?_, fun b hb hidb => ?_, hshrunk, fun n hn => ?_, fun d hd => ?_,
    fun hnone => ?_⟩, ?_⟩
  · rw [map_kept rfl hstep]
    exact hw.mapped
  · exact decide_top hw.walked.sound.named ht hx hstep hb (hidb.trans hid.symm)
  · rw [hcalled] at hn
    rcases List.mem_append.mp hn with hn | hn
    · exact hw.within n hn
    · rcases hw'.consulting with ⟨_, hnone⟩ | ⟨m, hm, hone⟩
      · rw [hnone] at hn
        cases hn
      · rw [hone, List.mem_singleton] at hn
        exact hshrunk.subset (hn ▸ hm)
  · rw [hans] at hd
    rcases List.mem_append.mp hd with hd | hd
    · exact hw.answers d hd
    · exact List.mem_singleton.mp hd
  · rw [hcalled, hnone, hans]
    simpa using hlen
  · rcases hw'.consulting with ⟨ho, _⟩ | ⟨m, _, hone⟩
    · exact Or.inl ho
    · exact Or.inr (by rw [hcalled, hone]; simp)

/-- If all go on declining, the raise comes to the end of the list. -/
theorem Declined.completes (k : Nat) (hw : Declined p i c l N t signo w L)
    (hk : l.length < w.called.length + k) :
    ∃ w', Run (walkStep p i) Steady w w' ∧ w'.answers = w'.called.map (fun _ => .nextDecider) := by
  induction k generalizing w L with
  | zero => exact absurd hw.called_le (Nat.not_le_of_lt hk)
  | succ k ih =>
    cases hw.walked.stage with
    | past ahead ho hd hsub hold hall => exact ⟨w, .refl w, hw.over ho⟩
    | inside a x front b ha hid hxa hc hl hans hd hsub hold =>
      obtain ⟨w₁, L₁, h, hw₁, hend⟩ := hw.step ha hid hxa
      have hone : Run (walkStep p i) Steady w w₁ := .tail _ (.refl w) rfl h
      rcases hend with ho | hlen
      · exact ⟨w₁, hone, hw₁.over ho⟩
      · obtain ⟨w', hr, hall⟩ := ih hw₁ (by omega)
        exact ⟨w', hone.trans hr, hall⟩

/-- So a raise that looks at a list can be declined by everyone. -/
theorem walk_completes {s : State} {a : Act} {r : Raise} (hs : Sound p s L)
    (ht : s.top t = some a) (hcall : a.call = .raise r) (hr : r.phase = .frames [])
    (hm : s.g.map r.signo = some c) :
    ∃ env w₁ w', walkStep p a.id { state := s } (.advance t env) = .ok w₁ ∧
      Run (walkStep p a.id) Steady w₁ w' ∧
      w'.answers = w'.called.map (fun _ => .nextDecider) := by
  obtain ⟨⟨e, g'⟩, henter⟩ := (hs.operable hm).enter
  have hstep : ∃ s', step p s (.advance t {}) = .ok s' := by
    simp only [step, ht, callSection, hcall, raiseSection, hr, henter]
    cases e <;> cases r.delivered <;> exact ⟨_, rfl⟩
  obtain ⟨s', hstep⟩ := hstep
  obtain ⟨w₁, h⟩ := walkStep_run (i := a.id) (w := { state := s }) hstep
  obtain ⟨L₁, hw₁, hshift⟩ := walk_begins hs ht hcall hr hm h
  obtain ⟨hstep, hrec⟩ := walkStep_ok h
  have hsteady : s.changes (.advance t {}) = false := by
    simp [State.changes, ht, hcall, Call.changes]
  have hmoved : w₁.called = w₁.state.consults a.id ∧ w₁.answers = [] := by
    rcases hrec with ⟨_, _, _, hcalled, hans⟩ | ⟨hnot, _⟩
    · exact ⟨hcalled, hans⟩
    · exact absurd rfl (hnot a ht)
  obtain ⟨hcalled, hans⟩ := hmoved
  have hshrunk := hshift.shrinks hsteady c
  have hdecl : Declined p a.id c (L c .global) s.g.nextNode t r.signo w₁ L₁ := by
    refine ⟨hw₁, ?_, fun b hb hid => ?_, hshrunk, fun n hn => ?_, ?_, fun hnone => ?_⟩
    · rw [map_kept hsteady hstep]
      exact hm
    · exact look_top hs.named ht hcall hr hstep hb hid
    · rw [hcalled] at hn
      rcases hw₁.consulting with ⟨_, hnone⟩ | ⟨m, hmem, hone⟩
      · rw [hnone] at hn
        cases hn
      · rw [hone, List.mem_singleton] at hn
        exact hshrunk.subset (hn ▸ hmem)
    · simp [hans]
    · simp [hans, hcalled, hnone]
  obtain ⟨w', hrun, hall⟩ := hdecl.completes ((L c .global).length + 1) (by omega)
  exact ⟨{}, w₁, w', h, hrun, hall⟩

end

/-- The handles reached are those due, unless one of these was not registered in the container. -/
theorem reached_iff {w : Visited} {signo : Signo} {c : Addr} :
    w.reached signo c = w.due signo ↔
      ∀ v ∈ w.visits, v.signo = signo → v.handle ∈ w.state.intact → v.container = some c := by
  simp only [Visited.reached, Visited.due, List.filter_map, List.filter_filter]
  have hswap : (documentedOrder w.visits signo).filter (fun v =>
        (w.state.intact.contains ∘ Visit.handle) v && v.container == some c) =
      ((documentedOrder w.visits signo).filter (w.state.intact.contains ∘ Visit.handle)).filter
        fun v => v.container == some c := by
    rw [List.filter_filter]
    exact List.filter_congr fun v _ => Bool.and_comm _ _
  rw [hswap]
  constructor
  · intro he v hv hsigno hin
    have hlen := congrArg List.length he
    rw [List.length_map, List.length_map, List.length_filter_eq_length_iff] at hlen
    refine beq_iff_eq.mp (hlen v (List.mem_filter.mpr ⟨?_, by simpa using hin⟩))
    exact mem_documentedOrder.mpr ⟨hv, hsigno⟩
  · intro hall
    rw [List.filter_eq_self.mpr fun v hv => ?_]
    obtain ⟨hv, hin⟩ := List.mem_filter.mp hv
    obtain ⟨hv, hsigno⟩ := mem_documentedOrder.mp hv
    exact beq_iff_eq.mpr (hall v hv hsigno (by simpa using hin))

theorem zip_fst_sublist {α β : Type} (xs : List α) (ys : List β) :
    ((xs.zip ys).map Prod.fst).Sublist xs := by
  induction xs generalizing ys with
  | nil => simp
  | cons x xs ih =>
    cases ys with
    | nil => simp
    | cons y ys => exact (ih ys).cons_cons x

section

variable {p : Platform} {w : Visited} {L : Layout} {signo : Signo}

theorem record_signos {s : State} {x : Record} (hx : x ∈ s.records p) :
    (x.2.map Prod.fst).Nodup := by
  have hzip : ∃ guarded xs, x.2 = (p.members guarded).zip xs := by
    rcases List.mem_append.mp hx with hx | hx
    · obtain ⟨h, _, rfl⟩ := List.mem_map.mp hx
      exact ⟨_, _, rfl⟩
    · obtain ⟨a, _, hax⟩ := List.mem_filterMap.mp hx
      unfold Act.record at hax
      split at hax
      · cases hax
        exact ⟨_, _, rfl⟩
      · cases hax
  obtain ⟨guarded, xs, he⟩ := hzip
  rw [he]
  exact ((nodup_loop p).filter _).sublist (zip_fst_sublist _ xs)

/-- Every handle with the signal in its set is due. -/
theorem Recorded.mem_due (hs : Sound p w.state L) (hw : Recorded p w) {h : Handle}
    (hh : h ∈ w.state.handles) (hsigno : signo ∈ p.members h.guarded) : h.id ∈ w.due signo := by
  have hx : h.record p ∈ w.state.records p :=
    List.mem_append.mpr (Or.inl (List.mem_map_of_mem hh))
  have hslots := List.map_fst_zip (hs.tidy.slots h hh)
  have hmem : signo ∈ ((p.members h.guarded).zip h.slots).map Prod.fst := hslots.symm ▸ hsigno
  obtain ⟨y, hy, rfl⟩ := List.mem_map.mp hmem
  have hfill := hw.filled _ hx
  rw [show y ∈ (p.members h.guarded).zip h.slots ↔ y ∈ (h.record p).2 from Iff.rfl, ← hfill] at hy
  obtain ⟨v, hv, rfl⟩ := List.mem_map.mp hy
  obtain ⟨hv, hid⟩ := List.mem_filter.mp hv
  refine List.mem_filter.mpr ⟨List.mem_map.mpr ⟨v, ?_, beq_iff_eq.mp hid⟩, ?_⟩
  · exact mem_documentedOrder.mpr ⟨hv, rfl⟩
  · simp only [List.contains_iff_mem, ← records_ids p]
    exact List.mem_map_of_mem (f := Prod.fst) hx

/-- And due once. -/
theorem Recorded.due_nodup (hw : Recorded p w) : (w.due signo).Nodup := by
  have hperm : (documentedOrder w.visits signo).Perm (w.visits.filter fun v => v.signo == signo) :=
    ((List.reverse_perm _).append_right _).trans (List.filter_append_perm _ _)
  rw [Visited.due, ((hperm.map Visit.handle).filter _).nodup_iff, List.nodup_iff_count]
  intro o
  by_cases ho : o ∈ w.state.intact
  · rw [← records_ids p, List.mem_map] at ho
    obtain ⟨x, hx, rfl⟩ := ho
    refine Nat.le_trans (List.filter_sublist.count_le _) ?_
    have hcount := List.nodup_iff_count.mp (record_signos hx) signo
    simp only [← hw.filled x hx, List.map_map, List.count, List.countP_map, List.countP_filter]
      at hcount ⊢
    refine Nat.le_trans (Nat.le_of_eq (List.countP_congr fun v _ => ?_)) hcount
    simp only [Function.comp_apply, Bool.and_comm]
  · rw [List.count_eq_zero_of_not_mem]
    · exact Nat.zero_le _
    · intro hm
      exact ho (by simpa using (List.mem_filter.mp hm).2)

end

theorem unchanged_run {p : Platform} {i : Nat} {s : State} {w w' : Walk} {L : Layout}
    (hs : Sound p w.state L) (hu : Unchanged p s w.state)
    (hr : Run (walkStep p i) Steady w w') : Unchanged p s w'.state := by
  refine (hr.invariant (I := fun w' => Unchanged p s w'.state ∧ ∃ L, Sound p w'.state L)
    ⟨hu, L, hs⟩ ?_).1
  rintro u act v ⟨hu, L, hs⟩ hc h
  obtain ⟨hstep, _⟩ := walkStep_ok h
  obtain ⟨L', hs', hx, _⟩ := hs.step hstep
  exact ⟨hu.step hs hc hstep hx, L', hs'⟩

/-- A raise offers an installed signal to every intact handle with the signal in its set,
in the documented order, exactly if each of them was created while the signal was
installed, and it has been installed without a break since. -/
theorem offered_iff_installed_since (p : Platform) (kernel : Signo → Sigaction) {w : Visited}
    {t : Tid} {a : Act} {signo : Signo} {c : Addr}
    (hr : Run (visitedStep p) (fun _ _ => True) { state := State.initial kernel } w)
    (ht : w.state.top t = some a) (hlook : a.looks = some signo)
    (hm : w.state.g.map signo = some c) :
    (∀ h ∈ w.state.handles, h.guarded signo = true → h.id ∈ w.due signo) ∧
    (w.due signo).Nodup ∧
    (Offers p w t a.id signo ↔
      ∀ v ∈ w.visits, v.signo = signo → v.handle ∈ w.state.intact → v.container = some c) := by
  obtain ⟨hloop, L, hs, hl, hw⟩ := recorded_run hr
  obtain ⟨r, hcall, hphase, rfl⟩ := looks_cases hlook
  have hoffered : ∀ {env w₁ w'},
      walkStep p a.id { state := w.state } (.advance t env) = .ok w₁ →
      Run (walkStep p a.id) Steady w₁ w' → w'.offered <+: w.reached r.signo c ∧
        (w'.answers = w'.called.map (fun _ => .nextDecider) → w'.offered = w.reached r.signo c) := by
    intro env w₁ w' h hrun
    obtain ⟨L₁, hw₁, hshift⟩ := walk_begins hs ht hcall hphase hm h
    obtain ⟨L', hw'⟩ := walked_run hw₁ hrun
    obtain ⟨hstep, _⟩ := walkStep_ok h
    have hsteady : w.state.changes (.advance t env) = false := by
      simp [State.changes, ht, hcall, Call.changes]
    have hu₁ := (Unchanged.refl p w.state).step hs hsteady hstep hshift
    exact hw.offered hs hl hm (unchanged_run hw₁.sound hu₁ hrun) hw'
  refine ⟨fun h hh hmem => hw.mem_due hs hh ?_, hw.due_nodup, ?_⟩
  · exact List.mem_filter.mpr ⟨hloop.mapped _ c hm, hmem⟩
  rw [← reached_iff]
  constructor
  · intro hoffers
    obtain ⟨env, w₁, w', h, hrun, hall⟩ := walk_completes hs ht hcall hphase hm
    exact ((hoffered h hrun).2 hall).symm.trans ((hoffers env w₁ w' h hrun).2 hall)
  · intro he env w₁ w' h hrun
    rw [← he]
    exact hoffered h hrun

/-- Two deciders, the second to be called first. -/
theorem offered_iff_installed_since_both :
    ∃ w a, Run (visitedStep .tiny) (fun _ _ => True) { state := State.initial fun _ => .dfl } w ∧
      w.state.top 1 = some a ∧ w.due 1 = [2, 1] ∧ Offers .tiny w 1 a.id 1 := by
  obtain ⟨w, hr, hq⟩ := run_of_ends (f := visitedStep .tiny) (r := fun _ _ => True)
    (s := { state := State.initial fun _ => .dfl }) (c := fun _ _ => true)
    (q := fun w => w.state.g.map 1 == some 0 && w.due 1 == [2, 1] &&
      (w.visits.all fun v => v.container == some 0) &&
      (w.state.top 1).any fun a => a.looks == some 1)
    (l := installOne ++ registerOne ++ registerFirst ++ [.raise 1 1])
    (fun _ _ _ => trivial) (by decide)
  simp only [Bool.and_eq_true, beq_iff_eq, Option.any_eq_true, List.all_eq_true] at hq
  obtain ⟨⟨⟨hm, hdue⟩, hall⟩, a, ht, hlook⟩ := hq
  refine ⟨w, a, hr, ht, hdue, ?_⟩
  exact (offered_iff_installed_since .tiny (fun _ => .dfl) hr ht hlook hm).2.2.mpr
    fun v hv _ _ => hall v hv

theorem not_offers {p : Platform} {w : Visited} {w₁ : Walk} {t : Tid} {raise : Nat} {signo : Signo}
    (h : walkStep p raise { state := w.state } (.advance t {}) = .ok w₁) (hc : w₁.called = [])
    (ha : w₁.answers = []) (hd : w.due signo ≠ []) : ¬ Offers p w t raise signo := by
  intro ho
  have he := (ho {} w₁ w₁ h (.refl _)).2 (by rw [ha, hc]; rfl)
  rw [Walk.offered, hc] at he
  exact hd he.symm

/-- Calls one after the other end in a raise that does not come to the only decider there is,
whose handle is intact. Its create has found `found` for the signal. -/
def Overlooked (found : Option Addr) : Prop :=
  ∃ w a v h, Run (visitedStep .tiny) (fun w _ => ∀ a ∈ w.state.acts, a.call.changes = true)
      { state := State.initial fun _ => .dfl } w ∧
    w.state.top 1 = some a ∧ a.looks = some 1 ∧ (w.state.g.map 1).isSome = true ∧
    w.visits = [v] ∧ v.container = found ∧ h ∈ w.state.handles ∧ h.id = v.handle ∧
    h.guarded 1 = true ∧ ¬ Offers .tiny w 1 a.id 1

theorem overlooked_of_ends {found : Option Addr} {l : List Action}
    (h : ends (visitedStep .tiny) (fun w _ => w.state.acts.all fun a => a.call.changes)
      (fun w => (w.state.g.map 1).isSome && w.visits.map Visit.container == [found] &&
        w.due 1 != [] &&
        (w.state.handles.any fun h => (w.visits.map Visit.handle == [h.id]) && h.guarded 1) &&
        (w.state.top 1).any fun a => a.looks == some 1 &&
          okAnd (walkStep .tiny a.id { state := w.state } (.advance 1 {})) fun w₁ =>
            w₁.called.isEmpty && w₁.answers.isEmpty)
      { state := State.initial fun _ => .dfl } l = true) : Overlooked found := by
  obtain ⟨w, hr, hq⟩ := run_of_ends (fun w _ h => List.all_eq_true.mp h) h
  simp only [Bool.and_eq_true, beq_iff_eq, bne_iff_ne, List.any_eq_true, Option.any_eq_true,
    okAnd_iff, List.isEmpty_iff] at hq
  obtain ⟨⟨⟨⟨hm, hc⟩, hdue⟩, h, hh, hid, hg⟩, a, ht, hlook, w₁, hstep, hcalled, hans⟩ := hq
  obtain ⟨v, hv, hvc⟩ := List.map_eq_singleton_iff.mp hc
  rw [hv, List.map_singleton, List.singleton_inj] at hid
  exact ⟨w, a, v, h, hr, ht, hlook, hm, hv, hvc, hh, hid.symm, hg,
    not_offers hstep hcalled hans hdue⟩

/-- One decider is created before its signal is installed; the signal of another is
uninstalled, and installed again. -/
theorem installation_matters : Overlooked none ∧ Overlooked (some 0) := by
  constructor
  · exact overlooked_of_ends (l := registerOne ++ installOne ++ [.raise 1 1]) (by decide)
  · exact overlooked_of_ends (l := installOne ++ registerOne ++
      [.siguninstall 0 0, .advance 0 {}, .advance 0 {}] ++ installOne ++ [.raise 1 1]) (by decide)

end Wg14Signals
