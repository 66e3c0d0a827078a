import Wg14Signals.Proofs.TssGet

namespace Wg14Signals
open Lib

section

variable {s s' : TssState} {act : TssAction} {before after : Option TssCall} {rest : List TssAct}

/-- A step mentions no new value but the one an `attr.create` has just returned. -/
theorem TssMoves.mentions (h : TssMoves s s' act before after rest)
    (hf : s.mem.instances s.mem.nextInstance = none) {v : Value} (hv : s'.mentions v) :
    s.mentions v ∨ ∃ t val mytid, act = .created t .item ∧
      before = some (.threadInit val (.create mytid)) ∧ v = ⟨s.nextValue, t, val, mytid⟩ := by
  have of_before : ∀ {c}, before = some c → c.role.value = some v → s.mentions v :=
    fun hc hv => .inr (.inl ⟨_, h.before_mem hc, hv⟩)
  have of_cell : ∀ {i k}, s.mem.cell i k = some v → s.mentions v :=
    fun hc => .inl ⟨_, _, hc⟩
  rcases hv with ⟨i, k, hc⟩ | ⟨a, ha, hv⟩ | hb
  · rcases (h.turn.cells hf).old hc with hc | hc
    · exact .inl (of_cell hc)
    · exact .inl (of_before hc rfl)
  · rcases h.mem_acts ha with ⟨ha, -⟩ | ha
    · rw [TssAct.role] at hv
      have swept : ∀ {val sweep mem mem' it}, Swept s.mem s'.mem val mem mem' it sweep →
          (Sweep.call val sweep).role.value = some v → s.mentions v := by
        intro val sweep mem mem' it hsw hv
        cases sweep with
        | cleaned => cases hv
        | callback item next =>
          obtain ⟨key, -, hi, -⟩ := hsw.taken
          cases hv
          exact of_cell hi
      obtain ⟨tid, call⟩ := a
      simp only at ha hv
      subst ha
      cases h.turn with
      | created t val mytid hm =>
        cases hv
        exact .inr ⟨t, val, mytid, rfl, rfl, rfl⟩
      | reject t env val mytid newitem hi => exact .inl (of_before rfl hv)
      | discard t env val newitem hm => exact .inl (of_before rfl hv)
      | lookup t env state val mytid item hl =>
        cases hv
        exact .inl (of_cell (deinitLookup_ok hl).2.symm)
      | callback t env state val mytid item hm => exact .inl (of_before rfl hv)
      | swept t env val item it hm => exact .inl (of_before rfl hv)
      | destroy t val sweep hd =>
        obtain ⟨_, _, -, hsw⟩ := destroyBegin_ok hd
        exact .inl (swept hsw hv)
      | sweep t env val item it sweep hd =>
        obtain ⟨_, _, -, hsw⟩ := destroySweep_ok hd
        exact .inl (swept hsw hv)
      | _ => cases hv
    · exact .inl (.inr (.inl ⟨a, h.rest_mem ha, hv⟩))
  · rw [h.begun] at hb
    cases hd : before.bind TssCall.due with
    | none =>
      rw [hd] at hb
      exact .inl (.inr (.inr hb))
    | some w =>
      rw [hd] at hb
      by_cases hvw : v = w
      · subst hvw
        obtain ⟨c, hc, hdue⟩ := Option.bind_eq_some_iff.mp hd
        refine .inl (of_before hc ?_)
        unfold TssCall.due at hdue
        split at hdue <;> first | exact hdue | cases hdue
      · have hb : s.begin w v ≠ 0 := hb
        rw [begin_apply, if_neg hvw] at hb
        exact .inl (.inr (.inr hb))

end

section

variable {m m' : TssMem} {t u : Tid}

/-- The generations drawn so far are those of finitely many threads, one for each. -/
structure Drawn (threads : Finset Tid) (m : TssMem) : Prop where
  generations : Generations m
  count : ∃ drawn : Finset Tid, drawn ⊆ threads ∧ drawn.card = m.generationCounter.toNat ∧
    ∀ t, t ∈ drawn ↔ m.generationCached t ≠ 0

theorem Drawn.initial (threads : Finset Tid) (ids : Tid → UInt64) :
    Drawn threads (.initial ids) :=
  ⟨.initial ids, ∅, by simp, rfl, by simp [TssMem.initial]⟩

theorem SameIds.drawn {threads : Finset Tid} (h : SameIds m m') (hd : Drawn threads m) :
    Drawn threads m' :=
  ⟨h.generations hd.generations, by rw [h.counter, h.cached]; exact hd.count⟩

/-- With fewer than 2^32 threads there is a generation left for one that has none. -/
theorem Drawn.draw {threads : Finset Tid} (hd : Drawn threads m) (hc : threads.card < 2 ^ 32)
    (ht : t ∈ threads) :
    Drawn threads (m.drawGeneration t) ∧ (m.drawGeneration t).generationCached t ≠ 0 := by
  by_cases h0 : m.generationCached t = 0
  · obtain ⟨drawn, hsub, hcard, hmem⟩ := hd.count
    have hnew : t ∉ drawn := fun h => (hmem t).mp h h0
    have hcard' : (insert t drawn).card = m.generationCounter.toNat + 1 := by
      rw [Finset.card_insert_of_notMem hnew, hcard]
    have hsub' : insert t drawn ⊆ threads := Finset.insert_subset ht hsub
    have hle := Finset.card_le_card hsub'
    have hlt : m.generationCounter < 0xffffffff := by
      rw [UInt64.lt_iff_toNat_lt]
      show m.generationCounter.toNat < 0xffffffff
      omega
    obtain ⟨hg, hne⟩ := hd.generations.draw hlt t
    refine ⟨⟨hg, insert t drawn, hsub', ?_, fun u => ?_⟩, hne⟩
    · rw [hcard', ← toNat_succ_counter hlt]
      simp [TssMem.drawGeneration, h0, UInt64.add_comm]
    · rw [generationCached_draw, Finset.mem_insert, hmem]
      by_cases hu : u = t
      · subst hu
        rw [generationCached_draw, if_pos ⟨rfl, h0⟩] at hne
        simp [h0, hne]
      · simp [hu]
  · rw [drawGeneration_of_drawn h0]
    exact ⟨hd, h0⟩

/-- A thread that has its key keeps it. -/
theorem MemEffect.key {before : Option TssCall} (h : MemEffect m m' t before)
    (hu : m.generationCached u ≠ 0) :
    m'.generationCached u ≠ 0 ∧ m'.key u = m.key u := by
  have same : ∀ {m m' : TssMem}, SameIds m m' → m.generationCached u ≠ 0 →
      m'.generationCached u ≠ 0 ∧ m'.key u = m.key u :=
    fun hs hu => ⟨hs.cached ▸ hu, hs.key⟩
  cases h with
  | keeps val h => exact same h.toSameIds hu
  | draws val h =>
    obtain ⟨hd, hk⟩ := key_draw hu t
    obtain ⟨hd', hk'⟩ := same h.toSameIds hd
    exact ⟨hd', hk'.trans hk⟩
  | allocates h => exact same (h ▸ tssCreate_ids m) hu
  | frees val mem hb hm h => exact same (h ▸ ⟨rfl, rfl, rfl⟩) hu

theorem MemEffect.drawn {threads : Finset Tid} {before : Option TssCall}
    (h : MemEffect m m' t before) (hd : Drawn threads m) (hc : threads.card < 2 ^ 32)
    (ht : t ∈ threads) : Drawn threads m' := by
  cases h with
  | keeps val h => exact h.toSameIds.drawn hd
  | draws val h => exact h.toSameIds.drawn (hd.draw hc ht).1
  | allocates h => exact h ▸ (tssCreate_ids m).drawn hd
  | frees val mem hb hm h =>
    subst h
    exact SameIds.drawn (m := m) ⟨rfl, rfl, rfl⟩ hd

end

/-- The key under which a call looked its instance up. -/
def TssCall.key : TssCall → Option Key
  | .threadInit _ (.create mytid) => some mytid
  | .threadInit _ (.insert mytid _) => some mytid
  | .deinit _ (.callback _ mytid _) => some mytid
  | .deinit _ (.erase _ mytid _) => some mytid
  | _ => none

/-- Calls and values go under the keys of their own threads. -/
structure Keyed (s : TssState) : Prop where
  calls : ∀ a ∈ s.acts, ∀ k, a.call.key = some k →
    s.mem.generationCached a.tid ≠ 0 ∧ k = s.mem.key a.tid
  values : ∀ v, s.mentions v → s.mem.generationCached v.tid ≠ 0 ∧ v.mytid = s.mem.key v.tid

section

variable {s s' : TssState} {act : TssAction} {before after : Option TssCall} {rest : List TssAct}

theorem Keyed.step (hk : Keyed s) (h : TssMoves s s' act before after rest)
    (hf : s.mem.instances s.mem.nextInstance = none)
    (hd : (s.mem.drawGeneration act.tid).generationCached act.tid ≠ 0) : Keyed s' := by
  have keep : ∀ {u k}, s.mem.generationCached u ≠ 0 ∧ k = s.mem.key u →
      s'.mem.generationCached u ≠ 0 ∧ k = s'.mem.key u := by
    rintro u _ ⟨hu, rfl⟩
    obtain ⟨hu', hk'⟩ := h.turn.mem.key hu
    exact ⟨hu', hk'.symm⟩
  refine ⟨fun a ha k hkey => ?_, fun v hv => ?_⟩
  · rcases h.mem_acts ha with ⟨ha, ht⟩ | ha
    · -- a section that looks the instance up leaves the thread with a generation
      have own : ∀ {c}, before = some c → c.key = some k →
          s'.mem.generationCached a.tid ≠ 0 ∧ k = s'.mem.key a.tid :=
        fun hb hc => ht ▸ keep (hk.calls _ (h.before_mem hb) k hc)
      have looked : SameIds (s.mem.drawGeneration act.tid) s'.mem → s.mem.key act.tid = k →
          s'.mem.generationCached a.tid ≠ 0 ∧ k = s'.mem.key a.tid := by
        rintro hs rfl
        rw [ht, hs.key, key_draw_self hd, hs.cached]
        exact ⟨hd, rfl⟩
      obtain ⟨tid, call⟩ := a
      simp only at ha ht hkey own looked ⊢
      subst ha
      cases h.turn with
      | init t val mytid hl =>
        cases hkey
        obtain ⟨rfl, -, hm⟩ := tssLookup_ok hl
        exact looked (hm ▸ ⟨rfl, rfl, rfl⟩) rfl
      | lookup t env state val mytid item hl =>
        cases hkey
        obtain ⟨rfl, hs⟩ := deinitLookup_keeps hl
        exact looked hs.toSameIds rfl
      | created t val mytid hm => exact own rfl hkey
      | callback t env state val mytid item hm => exact own rfl hkey
      | destroy t val sweep hd => cases sweep <;> cases hkey
      | sweep t env val item it sweep hd => cases sweep <;> cases hkey
      | _ => cases hkey
    · exact keep (hk.calls a (h.rest_mem ha) k hkey)
  · rcases h.mentions hf hv with hv | ⟨t, val, mytid, rfl, rfl, rfl⟩
    · exact keep (hk.values v hv)
    · exact keep (hk.calls _ (h.before_mem rfl) mytid rfl)

end

/-- How far a thread has come with an instance: whether it has called `thread_init`, what the
first of these calls created, and where all those in progress stand, innermost first. -/
inductive InitStage (m : TssMem) (t : Tid) (val : Addr) : Bool → Option Value → List InitPc → Prop
  | fresh (hc : ∀ k v, m.cell val k = some v → v.tid ≠ t) : InitStage m t val false none []
  | creating (inner : List InitPc) (mytid : Key) :
      InitStage m t val true none (inner ++ [.create mytid])
  | inserting (inner : List InitPc) (mytid : Key) (v : Value) :
      InitStage m t val true (some v) (inner ++ [.insert mytid v])
  | settled (pcs : List InitPc) (v : Value) (hp : ∀ pc ∈ pcs, pc = .register)
      (hd : m.generationCached t ≠ 0) (hc : m.cell val (m.key t) = some v) :
      InitStage m t val true (some v) pcs

section

variable {m m' : TssMem} {t : Tid} {val : Addr} {called : Bool} {first : Option Value}
  {pc : InitPc} {pcs : List InitPc}

/-- What the other calls in progress do to the memory does not matter. -/
theorem InitStage.frame (h : InitStage m t val called first pcs)
    (hold : ∀ k v, m'.cell val k = some v → v.tid = t → m.cell val k = some v)
    (hkey : m.generationCached t ≠ 0 → m'.generationCached t ≠ 0 ∧ m'.key t = m.key t)
    (hkeep : m.generationCached t ≠ 0 → m'.cell val (m.key t) = m.cell val (m.key t)) :
    InitStage m' t val called first pcs := by
  cases h with
  | fresh hc => exact .fresh fun k v hv ht => hc k v (hold k v hv ht) ht
  | creating inner mytid => exact .creating inner mytid
  | inserting inner mytid v => exact .inserting inner mytid v
  | settled _ v hp hd hc =>
    obtain ⟨hd', hk⟩ := hkey hd
    exact .settled _ v hp hd' (by rw [hk, hkeep hd, hc])

/-- The innermost call is the outermost too, or it stands inside the first one, or the
first one is over. -/
theorem InitStage.innermost (h : InitStage m t val called first (pc :: pcs)) : called = true ∧
    ((∃ mytid, pc = .create mytid ∧ pcs = [] ∧ first = none) ∨
      (∃ mytid v, pc = .insert mytid v ∧ pcs = [] ∧ first = some v) ∨
      (pcs ≠ [] ∧ ∀ (m' : TssMem) (l : List InitPc), InitStage m' t val true first (l ++ pcs)) ∨
      ∃ v, first = some v ∧ pc = .register ∧ (∀ p ∈ pcs, p = .register) ∧
        m.generationCached t ≠ 0 ∧ m.cell val (m.key t) = some v) := by
  generalize hl : pc :: pcs = l at h
  cases h with
  | fresh => cases hl
  | creating inner mytid =>
    rcases List.cons_eq_append_iff.mp hl with ⟨rfl, he⟩ | ⟨inner', rfl, rfl⟩
    · obtain ⟨rfl, rfl⟩ := List.cons.inj he
      exact ⟨rfl, .inl ⟨mytid, rfl, rfl, rfl⟩⟩
    · refine ⟨rfl, .inr (.inr (.inl ⟨by simp, fun m' l => ?_⟩))⟩
      rw [← List.append_assoc]
      exact .creating _ _
  | inserting inner mytid v =>
    rcases List.cons_eq_append_iff.mp hl with ⟨rfl, he⟩ | ⟨inner', rfl, rfl⟩
    · obtain ⟨rfl, rfl⟩ := List.cons.inj he
      exact ⟨rfl, .inr (.inl ⟨mytid, v, rfl, rfl, rfl⟩)⟩
    · refine ⟨rfl, .inr (.inr (.inl ⟨by simp, fun m' l => ?_⟩))⟩
      rw [← List.append_assoc]
      exact .inserting _ _ _
  | settled _ v hp hd hc =>
    subst hl
    exact ⟨rfl, .inr (.inr (.inr ⟨v, rfl, hp pc (by simp),
      fun p hm => hp p (List.mem_cons_of_mem _ hm), hd, hc⟩))⟩

end

section

variable {h h' : TssHistory} {act : TssAction}

theorem produce_state (h : TssHistory) (t : Tid) :
    (h.produce t).state = h.state ∧ (h.produce t).called = h.called := by
  unfold TssHistory.produce
  split <;> exact ⟨rfl, rfl⟩

/-- A step of a history is one of its state. -/
theorem historyStep_ok (hs : historyStep h act = .ok h') : tssStep h.state act = .ok h'.state ∧
    (∀ t val, h'.called t val = (h.called t val || act.calls t val)) ∧
    (act.produces = false → h'.first = h.first ∧ h'.produced = h.produced) := by
  simp only [historyStep, bind_ok, pure_ok] at hs
  obtain ⟨s, hs, rfl⟩ := hs
  cases hp : act.produces with
  | false => exact ⟨hs, fun t val => rfl, fun _ => ⟨rfl, rfl⟩⟩
  | true =>
    simp only [if_true]
    rw [(produce_state _ _).1, (produce_state _ _).2]
    exact ⟨hs, fun t val => rfl, by simp⟩

/-- What an `attr.create` that returns an item adds. -/
theorem historyStep_created {t : Tid} {val : Addr} {mytid : Key}
    (ht : h.state.top t = some ⟨t, .threadInit val (.create mytid)⟩)
    (hs : historyStep h (.created t .item) = .ok h') :
    h'.produced = ⟨h.state.nextValue, t, val, mytid⟩ :: h.produced ∧
    ∀ u v, h'.first u v =
      if u = t ∧ v = val ∧ h.first t v = none ∧ (h'.state.inits t v).length = 1
      then some ⟨h.state.nextValue, t, val, mytid⟩ else h.first u v := by
  simp only [historyStep, tssStep, ht, bind_ok, pure_ok] at hs
  obtain ⟨s, rfl, rfl⟩ := hs
  simp only [TssAction.produces, if_true, TssAction.tid, TssHistory.produce, TssState.newitem,
    TssState.top, List.find?_cons, beq_self_eq_true]
  exact ⟨trivial, fun u v => rfl⟩

end

/-- Whether the call can be in progress while nothing fails and no instance is destroyed. -/
def TssCall.orderly : TssCall → Bool
  | .threadInit _ (.discard _) => false
  | .threadInit _ (.discarding _) => false
  | .destroy _ _ => false
  | _ => true

/-- Where all threads are with all instances, and that nobody is in another's way. -/
structure Isolation (threads : Finset Tid) (h : TssHistory) : Prop where
  drawn : Drawn threads h.state.mem
  fresh : h.state.mem.Fresh
  values : ValuesInv h.state
  keyed : Keyed h.state
  orderly : ∀ a ∈ h.state.acts, a.call.orderly = true
  exits : ∀ a ∈ h.state.acts, ∀ state pc, a.call = .deinit state pc →
    h.state.exiting a.tid = true
  stages : ∀ t val, h.state.exiting t = false →
    InitStage h.state.mem t val (h.called t val) (h.first t val) (h.state.inits t val)

theorem Isolation.initial (threads : Finset Tid) (ids : Tid → UInt64) :
    Isolation threads (.initial ids) where
  drawn := .initial threads ids
  fresh _ _ := rfl
  values := .initial ids
  keyed := ⟨by simp [TssHistory.initial, TssState.initial],
    by simp [TssHistory.initial, TssState.initial, TssState.mentions, TssMem.initial,
      TssMem.cell, Heap.empty]⟩
  orderly := by simp [TssHistory.initial, TssState.initial]
  exits := by simp [TssHistory.initial, TssState.initial]
  stages _ _ _ := .fresh (by simp [TssHistory.initial, TssState.initial, TssMem.initial,
    TssMem.cell, Heap.empty])

section

variable {threads : Finset Tid} {h h' : TssHistory} {act : TssAction}
  {before after : Option TssCall} {rest : List TssAct} {t : Tid} {val : Addr}

/-- What a thread finds under its key is its own. -/
theorem Isolation.cell_own (hi : Isolation threads h) (hc : threads.card < 2 ^ 32)
    (ht : t ∈ threads) {v : Value}
    (hv : h.state.mem.cell val (h.state.mem.key t) = some v) : v.tid = t ∧ v.val = val := by
  obtain ⟨hd, hne⟩ := hi.drawn.draw hc ht
  obtain ⟨hval, hmytid⟩ := hi.values.home _ _ v (.inl hv)
  obtain ⟨hvd, hvk⟩ := hi.keyed.values v (.inl ⟨_, _, hv⟩)
  obtain ⟨hvd', hvk'⟩ := key_draw hvd t
  refine ⟨hd.generations.keysApart v.tid t hvd' hne ?_, hval⟩
  rw [hvk', ← hvk, hmytid, key_draw_self hne]

/-- The item a call is about to insert was created for its own thread. -/
theorem Isolation.newitem_own (hi : Isolation threads h) {a : TssAct} (ha : a ∈ h.state.acts)
    {mytid : Key} {v : Value} (hc : a.call = .threadInit val (.insert mytid v)) :
    v.tid = a.tid := by
  have hr : a.role = .pending val mytid v := by simp [TssAct.role, hc, TssCall.role]
  obtain ⟨-, hmytid⟩ := hi.values.home val mytid v (.inr ⟨a, ha, .inl hr⟩)
  obtain ⟨had, hak⟩ := hi.keyed.calls a ha mytid (by rw [hc]; rfl)
  obtain ⟨hvd, hvk⟩ := hi.keyed.values v (.inr (.inl ⟨a, ha, by rw [hr]; rfl⟩))
  exact hi.drawn.generations.keysApart _ _ hvd had (by rw [← hvk, hmytid, hak])

theorem TssMoves.sweepless (hm : TssMoves h.state h'.state act before after rest)
    (ho : ∀ a ∈ h.state.acts, a.call.orderly = true) (hk : act.destroys = false) :
    ∀ call, before = some call ∨ after = some call → ¬ call.sweeps val := by
  have hb : ∀ call, before = some call → call.orderly = true :=
    fun call hc => ho _ (hm.before_mem hc)
  rintro call (rfl | rfl) hs
  · cases call with
    | destroy v pc => simpa [TssCall.orderly] using hb _ rfl
    | _ => exact hs
  · cases call with
    | destroy v pc =>
      generalize ha : some (TssCall.destroy v pc) = after at hm
      cases hm.turn with
      | destroy => cases hk
      | swept | sweep => simpa [TssCall.orderly] using hb _ rfl
      | _ => cases ha
    | _ => exact hs

theorem Isolation.orderly_step (hi : Isolation threads h) (hok : Isolated threads h act)
    (hm : TssMoves h.state h'.state act before after rest) :
    ∀ a ∈ h'.state.acts, a.call.orderly = true := by
  intro a ha
  rcases hm.mem_acts ha with ⟨ha, -⟩ | ha
  · have hs := hok.succeeds
    obtain ⟨tid, call⟩ := a
    simp only at ha ⊢
    subst ha
    cases hm.turn with
    | reject t env val mytid newitem hins =>
      simp only [TssAction.succeeds, Bool.and_eq_true] at hs
      cases threadInitInsert_succeeds hs.1.1 hs.1.2 hins
    | discard t env val newitem =>
      simpa [TssCall.orderly] using hi.orderly _ (hm.before_mem rfl)
    | destroy t val sweep => cases hok.kept
    | swept t env val item it => simpa [TssCall.orderly] using hi.orderly _ (hm.before_mem rfl)
    | sweep t env val item it sweep =>
      simpa [TssCall.orderly] using hi.orderly _ (hm.before_mem rfl)
    | _ => rfl
  · exact hi.orderly a (hm.rest_mem ha)

theorem TssMoves.exiting_mono (hm : TssMoves h.state h'.state act before after rest)
    (hx : h.state.exiting t = true) : h'.state.exiting t = true := by
  rw [hm.exiting, hx, Bool.true_or]

theorem Isolation.exits_step (hi : Isolation threads h)
    (hm : TssMoves h.state h'.state act before after rest) :
    ∀ a ∈ h'.state.acts, ∀ state pc, a.call = .deinit state pc →
      h'.state.exiting a.tid = true := by
  intro a ha state pc hc
  refine hm.exiting_mono ?_
  rcases hm.mem_acts ha with ⟨ha, ht⟩ | ha
  · rw [hc] at ha
    rw [ht]
    have own : ∀ {state pc}, before = some (.deinit state pc) →
        h.state.exiting act.tid = true :=
      fun hb => hi.exits _ (hm.before_mem hb) _ _ rfl
    generalize hd : some (TssCall.deinit state pc) = d at ha
    subst ha
    cases hm.turn with
    | runAtexit t state items ht hx => exact hx
    | enter | orphaned | lookup | callback => exact own rfl
    | destroy t val sweep => cases sweep <;> cases hd
    | sweep t env val item it sweep => cases sweep <;> cases hd
    | _ => cases hd
  · exact hi.exits a (hm.rest_mem ha) state pc hc

/-- The thread's `thread_init` calls on an instance, before the step and after it. -/
theorem TssMoves.inits (hm : TssMoves h.state h'.state act before after rest) (val : Addr) :
    ∃ pcs, h.state.inits act.tid val = before.toList.filterMap (TssCall.initPc val) ++ pcs ∧
      h'.state.inits act.tid val = after.toList.filterMap (TssCall.initPc val) ++ pcs := by
  obtain ⟨tail, hc, hc'⟩ := hm.calls
  exact ⟨tail.filterMap (TssCall.initPc val), by simp [TssState.inits, hc],
    by simp [TssState.inits, hc']⟩

theorem key_of_cell {c : TssCall} {i : Addr} {k : Key} (h : c.cell = some (i, k)) :
    c.key = some k := by
  unfold TssCall.cell at h
  split at h <;> simp_all [TssCall.key]

theorem Isolation.stage_frame (hi : Isolation threads h) (hok : Isolated threads h act)
    (hm : TssMoves h.state h'.state act before after rest)
    {called : Bool} {first : Option Value} {pcs : List InitPc}
    (hst : InitStage h.state.mem t val called first pcs)
    (hb : h.state.mem.generationCached t ≠ 0 →
      before.bind TssCall.cell ≠ some (val, h.state.mem.key t))
    (hin : ∀ k v, before = some (.threadInit val (.insert k v)) → act.tid ≠ t) :
    InitStage h'.state.mem t val called first pcs := by
  have hcells := hm.turn.cells (hi.fresh _ (Nat.le_refl _))
  refine hst.frame (fun k v hv ht => ?_) (fun hd => hm.turn.mem.key hd) fun hd => ?_
  · refine (hcells.old hv).resolve_right fun hins => hin k v hins ?_
    exact (hi.newitem_own (hm.before_mem hins) rfl).symm.trans ht
  · exact hcells.frame (hm.sweepless hi.orderly hok.kept) (hb hd)

/-- A thread does not come any further, or lose anything, by what other threads do. -/
theorem Isolation.stage_other (hi : Isolation threads h) (hok : Isolated threads h act)
    (hm : TssMoves h.state h'.state act before after rest) (ht : t ≠ act.tid)
    {called : Bool} {first : Option Value} {pcs : List InitPc}
    (hst : InitStage h.state.mem t val called first pcs) :
    InitStage h'.state.mem t val called first pcs := by
  refine hi.stage_frame hok hm hst (fun hd hc => ht ?_) fun k v _ => Ne.symm ht
  obtain ⟨c, hbc, hcell⟩ := Option.bind_eq_some_iff.mp hc
  obtain ⟨hd', hk⟩ := hi.keyed.calls _ (hm.before_mem hbc) _ (key_of_cell hcell)
  exact hi.drawn.generations.keysApart _ _ hd hd' hk

/-- A step of the thread that is about another instance, or about nothing but itself. -/
theorem Isolation.stage_aside (hi : Isolation threads h) (hok : Isolated threads h act)
    (hm : TssMoves h.state h'.state act before after rest)
    (hcell : ∀ k, before.bind TssCall.cell ≠ some (val, k))
    (hb : before.toList.filterMap (TssCall.initPc val) = [])
    (ha : after.toList.filterMap (TssCall.initPc val) = [])
    {called : Bool} {first : Option Value}
    (hst : InitStage h.state.mem act.tid val called first (h.state.inits act.tid val)) :
    InitStage h'.state.mem act.tid val called first (h'.state.inits act.tid val) := by
  obtain ⟨pcs, hp, hp'⟩ := hm.inits val
  rw [hb] at hp
  rw [ha, ← hp] at hp'
  rw [hp']
  refine hi.stage_frame hok hm hst (fun _ => hcell _) fun k v hins => absurd ?_ (hcell k)
  rw [hins]
  rfl

end

section

variable {threads : Finset Tid} {h h' : TssHistory} {before after : Option TssCall}
  {rest : List TssAct} {t : Tid} {val : Addr} {called : Bool} {first : Option Value}

/-- A `thread_init` that finds nothing: the first one of its thread, or one within it. -/
theorem Isolation.stage_init (hi : Isolation threads h) {mytid : Key}
    (hl : tssLookup h.state.mem t val = .ok (none, mytid, h'.state.mem))
    (hst : InitStage h.state.mem t val called first (h.state.inits t val)) :
    InitStage h'.state.mem t val true first (.create mytid :: h.state.inits t val) := by
  obtain ⟨rfl, hnone, hmem⟩ := tssLookup_ok hl
  generalize h.state.inits t val = pcs at hst
  cases hst with
  | fresh => exact .creating [] _
  | creating inner k => exact .creating (_ :: inner) k
  | inserting inner k v => exact .inserting (_ :: inner) k v
  | settled pcs v hp hd hc => exact absurd (hnone.trans hc) (by simp)

/-- A `thread_init` that finds an entry is not its thread's first. -/
theorem Isolation.stage_found (hi : Isolation threads h) (hc : threads.card < 2 ^ 32)
    (ht : t ∈ threads) {mytid : Key} {v : Value}
    (hl : tssLookup h.state.mem t val = .ok (some v, mytid, h'.state.mem))
    (hst : InitStage h.state.mem t val called first (h.state.inits t val)) : called = true := by
  obtain ⟨rfl, hv, -⟩ := tssLookup_ok hl
  generalize h.state.inits t val = pcs at hst
  cases hst with
  | fresh hn => exact absurd (hi.cell_own hc ht hv.symm).1 (hn _ _ hv.symm)
  | _ => rfl

/-- The item of the outermost `thread_init` is the one the history takes down. -/
theorem stage_created {mytid : Key} {pcs : List InitPc}
    (ht : h.state.top t = some ⟨t, .threadInit val (.create mytid)⟩)
    (hs : historyStep h (.created t .item) = .ok h')
    (hp : h'.state.inits t val = .insert mytid ⟨h.state.nextValue, t, val, mytid⟩ :: pcs)
    (hst : InitStage h.state.mem t val called (h.first t val) (.create mytid :: pcs)) :
    InitStage h'.state.mem t val called (h'.first t val) (h'.state.inits t val) := by
  obtain ⟨-, hfirst⟩ := historyStep_created ht hs
  rw [hfirst, hp]
  obtain ⟨rfl, hin⟩ := hst.innermost
  rcases hin with ⟨k, hk, rfl, hf⟩ | ⟨k, v, hk, -⟩ | ⟨hne, hst⟩ | ⟨v, -, hk, -⟩
  · rw [if_pos ⟨rfl, rfl, hf, rfl⟩]
    exact .inserting [] _ _
  · cases hk
  · rw [if_neg fun hf => hne (List.length_eq_zero_iff.mp (by simpa using hf.2.2.2))]
    exact hst _ [_]
  · cases hk

theorem Isolation.stage_insert (hi : Isolation threads h) {env : TssEnv} {mytid : Key}
    {v : Value} {pcs : List InitPc}
    (hm : TssMoves h.state h'.state (.advance t env) (some (.threadInit val (.insert mytid v)))
      after rest)
    (hins : threadInitInsert env h.state.mem val mytid v = .ok (true, h'.state.mem))
    (hst : InitStage h.state.mem t val called first (.insert mytid v :: pcs)) :
    InitStage h'.state.mem t val called first (.register :: pcs) := by
  obtain ⟨rfl, hin⟩ := hst.innermost
  rcases hin with ⟨k, hk, -⟩ | ⟨k, w, hk, rfl, rfl⟩ | ⟨-, hst⟩ | ⟨w, -, hk, -⟩
  · cases hk
  · cases hk
    obtain ⟨hd, hk⟩ : h.state.mem.generationCached t ≠ 0 ∧ mytid = h.state.mem.key t :=
      hi.keyed.calls _ (hm.before_mem rfl) mytid rfl
    obtain ⟨hd', hk'⟩ := hm.turn.mem.key hd
    refine .settled _ v (by simp) hd' ?_
    rw [hk', threadInitInsert_kept hins, if_pos ⟨rfl, hk.symm⟩]
  · exact hst _ [_]
  · cases hk

theorem stage_register {env : TssEnv} {ret : Int} {pcs : List InitPc}
    (hr : threadInitRegister env h.state.mem t val = .ok (ret, h'.state.mem))
    (hst : InitStage h.state.mem t val called first (.register :: pcs)) :
    InitStage h'.state.mem t val called first pcs := by
  obtain ⟨rfl, hin⟩ := hst.innermost
  rcases hin with ⟨k, hk, -⟩ | ⟨k, w, hk, -⟩ | ⟨-, hst⟩ | ⟨w, rfl, -, hp, hd, hc⟩
  · cases hk
  · cases hk
  · exact hst _ []
  · obtain ⟨hinst, hk⟩ := threadInitRegister_keeps hr
    refine .settled _ w hp (hk.cached ▸ hd) ?_
    rw [hk.toSameIds.key, cell_congr hinst, hc]

theorem Isolation.stages_step {act : TssAction} (hi : Isolation threads h)
    (hc : threads.card < 2 ^ 32) (hok : Isolated threads h act)
    (hs : historyStep h act = .ok h') (hm : TssMoves h.state h'.state act before after rest)
    (hx : h'.state.exiting t = false) :
    InitStage h'.state.mem t val (h'.called t val) (h'.first t val) (h'.state.inits t val) := by
  have hx₀ : h.state.exiting t = false := by
    cases hx₀ : h.state.exiting t with
    | false => rfl
    | true => rw [hm.exiting_mono hx₀] at hx; exact hx
  have hst := hi.stages t val hx₀
  obtain ⟨-, hcalled, hfirst⟩ := historyStep_ok hs
  by_cases ht : t = act.tid
  · subst ht
    -- a step that adds nothing to the history of the thread and the instance
    have aside : act.calls act.tid val = false →
        h'.first act.tid val = h.first act.tid val →
        (∀ k, before.bind TssCall.cell ≠ some (val, k)) →
        before.toList.filterMap (TssCall.initPc val) = [] →
        after.toList.filterMap (TssCall.initPc val) = [] →
        InitStage h'.state.mem act.tid val (h'.called act.tid val) (h'.first act.tid val)
          (h'.state.inits act.tid val) := by
      intro hcall hf hcell hb ha
      rw [hcalled, hcall, Bool.or_false, hf]
      exact hi.stage_aside hok hm hcell hb ha hst
    have exits : ∀ {state pc}, before = some (.deinit state pc) → False := by
      intro state pc hb
      have := hi.exits _ (hm.before_mem hb) _ _ rfl
      rw [hx₀] at this
      cases this
    have orderly : ∀ {c}, before = some c → c.orderly = true :=
      fun hb => hi.orderly _ (hm.before_mem hb)
    obtain ⟨pcs, hp, hp'⟩ := hm.inits val
    cases hm.turn with
    | allocate | exhausted | get | exit =>
      exact aside rfl (by rw [(hfirst rfl).1]) (by simp) rfl rfl
    | found t v w mytid hl =>
      by_cases hv : v = val
      · subst hv
        have hst' := hi.stage_aside hok hm (by simp) rfl rfl hst
        rw [hi.stage_found hc hok.thread hl hst] at hst'
        rw [hcalled, (hfirst rfl).1]
        simpa [TssAction.calls, TssAction.tid] using hst'
      · exact aside (by simp [TssAction.calls, hv]) (by rw [(hfirst rfl).1]) (by simp)
          rfl rfl
    | init t v mytid hl =>
      by_cases hv : v = val
      · subst hv
        rw [show pcs = h.state.inits t v from hp.symm] at hp'
        rw [hcalled, (hfirst rfl).1, hp']
        simpa [TssAction.calls, TssAction.tid, TssCall.initPc] using hi.stage_init hl hst
      · exact aside (by simp [TssAction.calls, hv]) (by rw [(hfirst rfl).1]) (by simp)
          rfl (by simp [TssCall.initPc, hv])
    | created t v mytid hmem =>
      have htop := hm.beside.1
      by_cases hv : v = val
      · subst hv
        simp only [Option.toList_some, List.filterMap_cons, TssCall.initPc, if_true,
          List.filterMap_nil, List.singleton_append] at hp hp'
        rw [hp] at hst
        rw [hcalled, show TssAction.calls _ _ v = false from rfl, Bool.or_false]
        exact stage_created htop hs hp' hst
      · refine aside rfl ?_ (by simp [TssCall.cell]) (by simp [TssCall.initPc, hv])
          (by simp [TssCall.initPc, hv])
        rw [(historyStep_created htop hs).2, if_neg fun hf => hv hf.2.1.symm]
    | uncreated t r v mytid hr =>
      cases r with
      | item => exact absurd rfl hr
      | failed => cases hok.succeeds
      | null => cases hok.succeeds
    | insert t env v mytid newitem hins =>
      by_cases hv : v = val
      · subst hv
        simp only [Option.toList_some, List.filterMap_cons, TssCall.initPc, if_true,
          List.filterMap_nil, List.singleton_append] at hp hp'
        rw [hp] at hst
        rw [hcalled, show TssAction.calls _ _ v = false from rfl, Bool.or_false,
          (hfirst rfl).1, hp']
        exact hi.stage_insert hm hins hst
      · exact aside rfl (by rw [(hfirst rfl).1]) (by simp [TssCall.cell, hv])
          (by simp [TssCall.initPc, hv]) (by simp [TssCall.initPc, hv])
    | reject t env v mytid newitem hins =>
      have hs := hok.succeeds
      simp only [TssAction.succeeds, Bool.and_eq_true] at hs
      cases threadInitInsert_succeeds hs.1.1 hs.1.2 hins
    | register t env v ret hr =>
      by_cases hv : v = val
      · subst hv
        simp only [Option.toList_some, Option.toList_none, List.filterMap_cons, TssCall.initPc,
          if_true, List.filterMap_nil, List.singleton_append, List.nil_append] at hp hp'
        rw [hp] at hst
        rw [hcalled, show TssAction.calls _ _ v = false from rfl, Bool.or_false,
          (hfirst rfl).1, hp']
        exact stage_register hr hst
      · exact aside rfl (by rw [(hfirst rfl).1]) (by simp [TssCall.cell])
          (by simp [TssCall.initPc, hv]) (by simp)
    | discard | discarded | swept | sweep | free => cases orderly rfl
    | destroy => cases hok.kept
    | runAtexit t state items htop hexit =>
      rw [show h.state.exiting t = false from hx₀] at hexit
      cases hexit
    | _ => exact (exits rfl).elim
  · have hcall : act.calls t val = false := by
      cases act with
      | threadInit u v => simp [TssAction.calls, show u ≠ t from Ne.symm ht]
      | _ => rfl
    have hf : h'.first t val = h.first t val := by
      cases hpr : act.produces with
      | false => rw [(hfirst hpr).1]
      | true =>
        cases hm.turn with
        | created u v mytid hmem =>
          rw [(historyStep_created hm.beside.1 hs).2, if_neg fun hf => ht hf.1]
        | uncreated u r v mytid hr => cases r <;> first | exact absurd rfl hr | cases hpr
        | _ => cases hpr
    have hinits : h'.state.inits t val = h.state.inits t val := by
      rw [TssState.inits, hm.calls_other ht]
      rfl
    rw [hcalled, hcall, Bool.or_false, hf, hinits]
    exact hi.stage_other hok hm ht hst

theorem Isolation.step {act : TssAction} (hi : Isolation threads h) (hc : threads.card < 2 ^ 32)
    (hok : Isolated threads h act) (hs : historyStep h act = .ok h') : Isolation threads h' := by
  have hstep := (historyStep_ok hs).1
  obtain ⟨before, after, rest, hm⟩ := tssStep_moves hstep
  have hf := hi.fresh _ (Nat.le_refl _)
  obtain ⟨xs, ys, zs, hp, hq, he⟩ := tssStep_touches hi.fresh hstep
  exact {
    drawn := hm.turn.mem.drawn hi.drawn hc hok.thread
    fresh := hm.turn.mem.fresh hi.fresh
    values := valuesInv_of_effect hi.values hp hq he
    keyed := hi.keyed.step hm hf (hi.drawn.draw hc hok.thread).2
    orderly := hi.orderly_step hok hm
    exits := hi.exits_step hm
    stages := fun t val hx => hi.stages_step hc hok hs hm hx }

end

/-- Per-thread isolation: whatever the other threads of the process do, and whichever ids the
kernel gives them, a thread that has not begun to exit gets from an instance what its own
first `thread_init` on it created, once that call is over, and nothing before its first one.
It never gets what was created for another thread, and later calls of `thread_init` change
nothing. -/
theorem get_returns_own_first {threads : Finset Tid} (hc : threads.card < 2 ^ 32)
    {ids : Tid → UInt64} {h : TssHistory}
    (hr : Run historyStep (Isolated threads) (.initial ids) h) {t : Tid} {val : Addr}
    (ht : t ∈ threads) (hx : h.state.exiting t = false)
    (hv : (h.state.mem.instances val).isSome) :
    (h.called t val = false → tssAsyncSignalSafeGet h.state.mem t val = .ok none) ∧
    (h.called t val = true → h.state.inits t val = [] → ∃ v, h.first t val = some v ∧
      tssAsyncSignalSafeGet h.state.mem t val = .ok (some v) ∧
      tssStep h.state (.threadInit t val) = .ok h.state) ∧
    ∀ v, tssAsyncSignalSafeGet h.state.mem t val = .ok (some v) → v.tid = t ∧ v.val = val := by
  have hi : Isolation threads h := hr.invariant (.initial threads ids) fun _ _ _ hi hok hs =>
    hi.step hc hok hs
  have own : ∀ v, tssAsyncSignalSafeGet h.state.mem t val = .ok (some v) →
      v.tid = t ∧ v.val = val :=
    fun v hg => hi.cell_own hc ht (tssAsyncSignalSafeGet_ok hg).symm
  have hst := hi.stages t val hx
  refine ⟨fun hcall => ?_, fun hcall hin => ?_, own⟩
  · rw [get_of_live hv]
    cases hg : h.state.mem.cell val (h.state.mem.key t) with
    | none => rfl
    | some v =>
      rw [hcall] at hst
      generalize h.first t val = first, h.state.inits t val = pcs at hst
      cases hst with
      | fresh hn =>
        exact absurd (hi.cell_own hc ht hg).1 (hn _ v hg)
  · rw [hcall, hin] at hst
    generalize h.first t val = first, hl : ([] : List InitPc) = pcs at hst
    cases hst with
    | creating | inserting => simp at hl
    | settled _ v hp hd hcell =>
      refine ⟨v, rfl, get_of_cell hcell, ?_⟩
      simp only [tssStep, lookup_of_live hv, hcell, drawGeneration_of_drawn hd]
      rfl

/-- Thread 0 initialises itself and exits without running its `deinit`; then thread 1, to
which the kernel gives the same id, does so too. -/
def initReused : List TssAction :=
  [.create 0 true, .threadInit 0 0, .created 0 .item, .advance 0 {}, .advance 0 {}, .exit 0,
    .threadInit 1 0, .created 1 .item, .advance 1 {}, .advance 1 {}]

/-- The stale entry is not what thread 1 gets. -/
theorem get_returns_own_first_reused :
    ∃ h v, Run historyStep (Isolated {0, 1}) (.initial fun _ => 7) h ∧ h.first 1 0 = some v ∧
      tssAsyncSignalSafeGet h.state.mem 1 0 = .ok (some v) ∧ v.tid = 1 := by
  obtain ⟨h, hr, hq⟩ := run_of_ends (f := historyStep) (r := Isolated {0, 1})
    (s := .initial fun _ => 7)
    (c := fun _ act => decide (act.tid ∈ ({0, 1} : Finset Tid)) && act.succeeds && !act.destroys)
    (q := fun h => h.called 1 0 && (h.state.inits 1 0).isEmpty && !h.state.exiting 1 &&
      (h.state.mem.instances 0).isSome)
    (l := initReused)
    (fun _ act hc => by
      simp only [Bool.and_eq_true, decide_eq_true_eq, Bool.not_eq_true'] at hc
      exact ⟨hc.1.1, hc.1.2, hc.2⟩)
    (by decide)
  simp only [Bool.and_eq_true, List.isEmpty_iff, Bool.not_eq_true'] at hq
  obtain ⟨⟨⟨hcall, hin⟩, hx⟩, hv⟩ := hq
  obtain ⟨-, hfirst, hown⟩ := get_returns_own_first (by decide) hr (by decide) hx hv
  obtain ⟨v, hf, hg, -⟩ := hfirst hcall hin
  exact ⟨h, v, hr, hf, hg, (hown v hg).1⟩

end Wg14Signals
