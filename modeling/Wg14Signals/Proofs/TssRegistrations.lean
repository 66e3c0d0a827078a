import Wg14Signals.Lib.Tally
import Wg14Signals.Proofs.TssDisposal
import Wg14Signals.TssRegistrations

namespace Wg14Signals
open Lib

variable {s s' : TssState} {act : TssAction} {before after : Option TssCall} {rest : List TssAct}
  {m m' : TssMem} {t u : Tid} {i val st : Addr}

/-- What a call contributes to the registrations of its thread. -/
def TssCall.share (m : TssMem) (st : Addr) (c : Option TssCall) : Nat :=
  c.toList.countP fun c => c.registered m == some st

/-- The registrations that do not belong to the call a step moves. -/
def TssState.besides (s : TssState) (rest : List TssAct) (m : TssMem) (st : Addr) (u : Tid) : Nat :=
  (s.mem.atexitItems u).count (some st) +
    rest.countP fun a => a.tid == u && a.call.registered m == some st

theorem share_own (m : TssMem) (st : Addr) (c : Option TssCall) (t u : Tid) :
    (c.toList.map (TssAct.mk t)).countP (fun a => a.tid == u && a.call.registered m == some st) =
      if t = u then TssCall.share m st c else 0 := by
  rw [List.countP_map]
  by_cases hu : t = u <;> simp [hu, TssCall.share, Function.comp_def]

theorem TssMoves.registrations_before (h : TssMoves s s' act before after rest) (st : Addr)
    (u : Tid) : s.registrations st u = s.besides rest s.mem st u +
      if act.tid = u then TssCall.share s.mem st before else 0 := by
  rw [TssState.registrations, h.perm.countP_eq, List.countP_append, share_own, TssState.besides]
  omega

theorem TssMoves.registrations_after (h : TssMoves s s' act before after rest) (st : Addr)
    (u : Tid) : s'.registrations st u = s'.besides rest s'.mem st u +
      if act.tid = u then TssCall.share s'.mem st after else 0 := by
  rw [TssState.registrations, h.acts, List.countP_append, share_own, TssState.besides]
  omega

/-- The other calls keep their registrations. -/
theorem besides_kept (hr : ∀ a ∈ rest, a.call.registered s'.mem = a.call.registered s.mem)
    (st : Addr) (u : Tid) : s'.besides rest s'.mem st u + (s.mem.atexitItems u).count (some st) =
      s.besides rest s.mem st u + (s'.mem.atexitItems u).count (some st) := by
  have hrest : rest.countP (fun a => a.tid == u && a.call.registered s'.mem == some st) =
      rest.countP (fun a => a.tid == u && a.call.registered s.mem == some st) :=
    List.countP_congr fun a ha => by rw [hr a ha]
  rw [TssState.besides, TssState.besides, hrest]
  omega

theorem share_insert (m : TssMem) (st val : Addr) (mytid : Key) (newitem : Value) :
    TssCall.share m st (some (.threadInit val (.insert mytid newitem))) = 0 := rfl

theorem share_none (m : TssMem) (st : Addr) : TssCall.share m st none = 0 := rfl

theorem share_deinit (m : TssMem) (st : Addr) (state : Option Addr) (pc : DeinitPc) :
    TssCall.share m st (some (.deinit state pc)) = if state = some st then 1 else 0 := by
  simp [TssCall.share, TssCall.registered, List.countP_cons]

theorem share_register (m : TssMem) (st val : Addr) :
    TssCall.share m st (some (.threadInit val .register)) =
      if m.blockOf val = some st then 1 else 0 := by
  simp [TssCall.share, TssCall.registered, List.countP_cons]

/-- What a step does to the `deinit_state`s, to the instances' pointers to them and to the
exit callbacks. -/
inductive BlockTurn (m m' : TssMem) (act : TssAction) (t : Tid) (before after : Option TssCall) : Prop
  | quiet (hs : m'.states = m.states) (hn : m'.nextState = m.nextState)
      (ha : m'.atexitItems = m.atexitItems) (hb : ∀ i, m'.blockOf i = m.blockOf i)
      (hc : ∀ st, TssCall.share m' st after = TssCall.share m st before)
  | first (val : Addr) (mytid : Key) (newitem : Value)
      (hbefore : before = some (.threadInit val (.insert mytid newitem)))
      (hafter : after = some (.threadInit val .register)) (h0 : m.blockOf val = none)
      (hs : m'.states = m.states.set m.nextState (some ⟨1, some val⟩))
      (hn : m'.nextState = m.nextState + 1) (ha : m'.atexitItems = m.atexitItems)
      (hb : ∀ i, m'.blockOf i = if i = val then some m.nextState else m.blockOf i)
  | joins (val st : Addr) (d : DeinitState) (mytid : Key) (newitem : Value)
      (hbefore : before = some (.threadInit val (.insert mytid newitem)))
      (hafter : after = some (.threadInit val .register)) (h0 : m.blockOf val = some st)
      (hd : m.states st = some d)
      (hs : m'.states = m.states.set st (some { d with count := d.count + 1 }))
      (hn : m'.nextState = m.nextState) (ha : m'.atexitItems = m.atexitItems)
      (hb : ∀ i, m'.blockOf i = m.blockOf i)
  | registers (val : Addr) (hbefore : before = some (.threadInit val .register))
      (hafter : after = none) (hs : m'.states = m.states) (hn : m'.nextState = m.nextState)
      (ha : m'.atexitItems = fun u =>
        if u = t then m.blockOf val :: m.atexitItems t else m.atexitItems u)
      (hb : ∀ i, m'.blockOf i = m.blockOf i)
  | runs (state : Option Addr) (items : List (Option Addr)) (hbefore : before = none)
      (hafter : after = some (.deinit state .enter)) (hi : m.atexitItems t = state :: items)
      (hs : m'.states = m.states) (hn : m'.nextState = m.nextState)
      (ha : m'.atexitItems = fun u => if u = t then items else m.atexitItems u)
      (hb : ∀ i, m'.blockOf i = m.blockOf i)
  | releases (st : Addr) (pc : DeinitPc) (d : DeinitState)
      (hbefore : before = some (.deinit (some st) pc)) (hafter : after = none)
      (hpc : pc ≠ .enter) (hd : m.states st = some d)
      (hs : m'.states =
        m.states.set st (if d.count = 1 then none else some { d with count := d.count - 1 }))
      (hn : m'.nextState = m.nextState) (ha : m'.atexitItems = m.atexitItems)
      (hb : ∀ i, m'.blockOf i = m.blockOf i ∨
        (m'.blockOf i = none ∧ m.blockOf i = some st ∧ d.count = 1))
      (hl : ∀ val, (TssCall.deinit (some st) pc).on = some val → d.count = 1 →
        m'.blockOf val ≠ some st)
  | detaches (val st : Addr) (d : DeinitState) (sweep : Sweep) (hact : act = .destroy t val)
      (hbefore : before = none)
      (hafter : after = some (sweep.call val)) (h0 : m.blockOf val = some st)
      (hd : m.states st = some d) (hs : m'.states = m.states.set st (some { d with val := none }))
      (hn : m'.nextState = m.nextState) (ha : m'.atexitItems = m.atexitItems)
      (hb : ∀ i, m'.blockOf i = if i = val then none else m.blockOf i)
  | frees (val : Addr) (hbefore : before = some (.destroy val .free)) (hafter : after = none)
      (hs : m'.states = m.states) (hn : m'.nextState = m.nextState)
      (ha : m'.atexitItems = m.atexitItems)
      (hb : ∀ i, m'.blockOf i = if i = val then none else m.blockOf i)

theorem blockOf_setTss (m : TssMem) (val i : Addr) (mem : Tss) :
    (m.setTss val mem).blockOf i = if i = val then mem.state else m.blockOf i := by
  by_cases hi : i = val <;> simp [TssMem.blockOf, hi]

theorem blockOf_setStates (m : TssMem) (states : Heap DeinitState) (i : Addr) :
    (m.setStates states).blockOf i = m.blockOf i := rfl

theorem blockOf_congr (h : m'.instances = m.instances) (i : Addr) : m'.blockOf i = m.blockOf i := by
  rw [TssMem.blockOf, h, TssMem.blockOf]

theorem blockOf_of_live {mem : Tss} (h : m.instances val = some mem) :
    m.blockOf val = mem.state := by
  simp [TssMem.blockOf, h]

theorem drawGeneration_rest (m : TssMem) (t : Tid) :
    (m.drawGeneration t).nextState = m.nextState ∧
      (m.drawGeneration t).atexitItems = m.atexitItems := by
  unfold TssMem.drawGeneration
  split <;> exact ⟨rfl, rfl⟩

/-- Counting a thread out. -/
theorem releaseState_released (h : releaseState m st = .ok m') :
    ∃ d, m.states st = some d ∧ m' = m.setStates
      (m.states.set st (if d.count = 1 then none else some { d with count := d.count - 1 })) := by
  simp only [releaseState, bind_ok, Heap.read_ok] at h
  obtain ⟨d, ⟨_, ⟨rfl⟩, hd⟩, h⟩ := h
  refine ⟨d, hd, ?_⟩
  split at h <;> rw [← pure_ok.mp h] <;> simp [*]

/-- The last section of a `deinit`: the instance gives up the block if that is freed. -/
theorem deinitCount_blocks {mem mem₀ : Tss} (hm : m.instances val = some mem₀)
    (hst : mem.state = mem₀.state) (h : deinitCount m val mem st = .ok m') :
    ∃ d, m.states st = some d ∧
      m'.states = m.states.set st
        (if d.count = 1 then none else some { d with count := d.count - 1 }) ∧
      m'.nextState = m.nextState ∧ m'.atexitItems = m.atexitItems ∧
      (∀ i, m'.blockOf i = m.blockOf i ∨
        (m'.blockOf i = none ∧ m.blockOf i = some st ∧ d.count = 1)) ∧
      (d.count = 1 → m'.blockOf val ≠ some st) := by
  simp only [deinitCount, bind_ok, Heap.read_ok] at h
  obtain ⟨d, ⟨_, ⟨rfl⟩, hd⟩, h⟩ := h
  have hleft : (if d.count = 1 ∧ mem.state = some st then { mem with state := none } else mem).state
      = if d.count = 1 ∧ mem.state = some st then none else mem.state := by
    split <;> rfl
  generalize (if d.count = 1 ∧ mem.state = some st then { mem with state := none } else mem) = left
    at h hleft
  obtain ⟨d', hd', rfl⟩ := releaseState_released h
  obtain rfl : d = d' := Option.some.inj (hd.symm.trans hd')
  have hval : m.blockOf val = mem.state := (blockOf_of_live hm).trans hst.symm
  refine ⟨d, hd, rfl, rfl, rfl, fun i => ?_, fun h1 => ?_⟩
  · rw [blockOf_setStates, blockOf_setTss, hleft]
    split
    · rename_i hi
      subst hi
      split
      · rename_i hlast
        exact .inr ⟨rfl, hval.trans hlast.2, hlast.1⟩
      · exact .inl hval.symm
    · exact .inl rfl
  · rw [blockOf_setStates, blockOf_setTss, hleft, if_pos rfl]
    split
    · simp
    · rename_i hlast
      exact fun h => hlast ⟨h1, h⟩

theorem BlockTurn.released {mem mem₀ : Tss} {pc : DeinitPc} {m₀ : TssMem}
    (hm : m.instances val = some mem₀) (hst : mem.state = mem₀.state)
    (h : deinitCount m val mem st = .ok m')
    (hpc : (TssCall.deinit (some st) pc).on = some val) (hs : m.states = m₀.states)
    (hn : m.nextState = m₀.nextState) (ha : m.atexitItems = m₀.atexitItems)
    (hi : m.instances = m₀.instances) :
    BlockTurn m₀ m' act t (some (.deinit (some st) pc)) none := by
  obtain ⟨d, hd, hs', hn', ha', hb, hl⟩ := deinitCount_blocks hm hst h
  have hb' : ∀ i, m.blockOf i = m₀.blockOf i := blockOf_congr hi
  have hne : pc ≠ .enter := fun h => by
    rw [h] at hpc
    cases hpc
  refine .releases st pc d rfl rfl hne (hs ▸ hd) (hs ▸ hs') (hn'.trans hn) (ha'.trans ha)
    (fun i => hb' i ▸ hb i) fun v hv => ?_
  obtain rfl : val = v := Option.some.inj (hpc.symm.trans hv)
  exact hl

theorem threadInitInsert_blocks {env : TssEnv} {mytid : Key} {newitem : Value}
    (h : threadInitInsert env m val mytid newitem = .ok (true, m')) :
    BlockTurn m m' act t (some (.threadInit val (.insert mytid newitem)))
      (some (.threadInit val .register)) := by
  simp only [threadInitInsert, bind_ok, readTss_ok] at h
  obtain ⟨mem, hm, h⟩ := h
  have hval := blockOf_of_live hm
  split at h
  · split at h
    · rename_i hnone
      split at h
      · obtain ⟨-, rfl⟩ := Prod.mk.inj (pure_ok.mp h)
        exact .first val mytid newitem rfl rfl (hval.trans hnone) rfl rfl rfl fun i =>
          blockOf_setTss m val i _
      · cases (Prod.mk.inj (pure_ok.mp h)).1
    · rename_i st hst
      simp only [bind_ok, pure_ok, Prod.mk.injEq, Heap.update_ok] at h
      obtain ⟨states, ⟨a, d, ⟨⟩, hd, rfl⟩, -, rfl⟩ := h
      refine .joins val st d mytid newitem rfl rfl (hval.trans hst) hd ?_ rfl rfl fun i => ?_
      · funext p
        simp only [TssMem.setStates, Heap.mapAt, Heap.set_apply]
        split
        · rename_i hp
          obtain rfl := Option.some.inj hp
          simp [hd]
        · rename_i hp
          rw [if_neg fun h => hp (congrArg some h)]
      · rw [blockOf_setStates, blockOf_setTss]
        split
        · rename_i hi
          exact (hi ▸ hval).symm
        · rfl
  · cases (Prod.mk.inj (pure_ok.mp h)).1

theorem threadInitInsert_rejects {env : TssEnv} {mytid : Key} {newitem : Value}
    (h : threadInitInsert env m val mytid newitem = .ok (false, m')) :
    BlockTurn m m' act t (some (.threadInit val (.insert mytid newitem)))
      (some (.threadInit val (.discard newitem))) := by
  simp only [threadInitInsert, bind_ok, readTss_ok] at h
  obtain ⟨mem, hm, h⟩ := h
  split at h
  · split at h
    · split at h
      · cases (Prod.mk.inj (pure_ok.mp h)).1
      · obtain ⟨-, rfl⟩ := Prod.mk.inj (pure_ok.mp h)
        refine .quiet rfl rfl rfl (fun i => ?_) fun _ => rfl
        rw [blockOf_setTss]
        split
        · rename_i hi
          exact (hi ▸ blockOf_of_live hm).symm
        · rfl
    · simp only [bind_ok, pure_ok, Prod.mk.injEq] at h
      obtain ⟨_, -, hk, -⟩ := h
      cases hk
  · obtain ⟨-, rfl⟩ := Prod.mk.inj (pure_ok.mp h)
    exact .quiet rfl rfl rfl (fun _ => rfl) fun _ => rfl

theorem threadInitRegister_blocks {env : TssEnv} {ret : Int} (he : env.atexit = true)
    (h : threadInitRegister env m t val = .ok (ret, m')) :
    BlockTurn m m' act t (some (.threadInit val .register)) none := by
  simp only [threadInitRegister, bind_ok, readTss_ok, he, if_true] at h
  obtain ⟨mem, hm, h⟩ := h
  obtain ⟨-, rfl⟩ := Prod.mk.inj (pure_ok.mp h)
  exact .registers val rfl rfl rfl rfl (by rw [blockOf_of_live hm]) fun _ => rfl

theorem deinitLookup_blocks {item : Option Value} {mytid : Key}
    (h : deinitLookup m t val st = .ok (item, mytid, m')) :
    BlockTurn m m' act t (some (.deinit (some st) (.lookup val)))
      (item.map fun item => .deinit (some st) (.callback val mytid item)) := by
  have hrest := drawGeneration_rest m t
  simp only [deinitLookup, bind_ok, readTss_ok, myCurrentThreadId_mem] at h
  obtain ⟨mem, hm, h⟩ := h
  split at h
  · simp only [pure_ok, Prod.mk.injEq] at h
    obtain ⟨rfl, -, rfl⟩ := h
    exact .quiet (states_drawGeneration m t) hrest.1 hrest.2
      (blockOf_congr (instances_drawGeneration m t)) fun _ => rfl
  · simp only [bind_ok, pure_ok, Prod.mk.injEq] at h
    obtain ⟨m', hc, rfl, -, rfl⟩ := h
    exact .released hm rfl hc rfl (states_drawGeneration m t) hrest.1 hrest.2
      (instances_drawGeneration m t)

theorem deinitErase_blocks {mytid : Key} {item : Value}
    (h : deinitErase m val mytid st = .ok m') :
    BlockTurn m m' act t (some (.deinit (some st) (.erase val mytid item))) none := by
  simp only [deinitErase, bind_ok, readTss_ok] at h
  obtain ⟨mem, hm, h⟩ := h
  have hmem : (⟨mem.state, mem.map.erase mytid⟩ : Tss).state = mem.state := rfl
  exact .released hm hmem h rfl rfl rfl rfl rfl

theorem releaseState_blocks (h : releaseState m st = .ok m') :
    BlockTurn m m' act t (some (.deinit (some st) .drop)) none := by
  obtain ⟨d, hd, rfl⟩ := releaseState_released h
  exact .releases st .drop d rfl rfl (by simp) hd rfl rfl rfl (fun _ => .inl rfl) fun _ hv => by cases hv

theorem sweepNext_blocks {mem : Tss} {sweep : Sweep} {it : Option Key}
    (h : sweepNext m val mem it = .ok (sweep, m')) :
    m'.states = m.states ∧ m'.nextState = m.nextState ∧ m'.atexitItems = m.atexitItems ∧
      ∀ i, m'.blockOf i = if i = val then mem.state else m.blockOf i := by
  cases it with
  | none =>
    simp only [sweepNext, pure_ok, Prod.mk.injEq] at h
    obtain ⟨-, rfl⟩ := h
    exact ⟨rfl, rfl, rfl, fun i => blockOf_setTss m val i _⟩
  | some key =>
    simp only [sweepNext] at h
    split at h
    · simp at h
    · simp only [pure_ok, Prod.mk.injEq] at h
      obtain ⟨-, rfl⟩ := h
      exact ⟨rfl, rfl, rfl, fun i => blockOf_setTss m val i _⟩

theorem sweep_share {sweep : Sweep} : TssCall.share m st (some (sweep.call val)) = 0 := by
  cases sweep <;> rfl

theorem destroyBegin_blocks {sweep : Sweep} (h : destroyBegin m val = .ok (sweep, m')) :
    BlockTurn m m' (.destroy t val) t none (some (sweep.call val)) := by
  simp only [destroyBegin, bind_ok, readTss_ok] at h
  obtain ⟨mem, hm, h⟩ := h
  have hval := blockOf_of_live hm
  split at h
  · rename_i hnone
    obtain ⟨hs, hn, ha, hb⟩ := sweepNext_blocks h
    refine .quiet hs hn ha (fun i => ?_) fun _ => sweep_share
    rw [hb]
    split
    · rename_i hi
      exact (hi ▸ hval).symm
    · rfl
  · rename_i st hst
    simp only [bind_ok, Heap.update_ok] at h
    obtain ⟨states, ⟨_, d, ⟨⟩, hd, rfl⟩, h⟩ := h
    obtain ⟨hs, hn, ha, hb⟩ := sweepNext_blocks h
    refine .detaches val st d sweep rfl rfl rfl (hval.trans hst) hd (hs.trans ?_) hn ha hb
    funext p
    simp only [TssMem.setStates, Heap.mapAt, Heap.set_apply]
    split
    · rename_i hp
      obtain rfl := Option.some.inj hp
      simp [hd]
    · rename_i hp
      rw [if_neg fun h => hp (congrArg some h)]

theorem destroySweep_blocks {sweep : Sweep} {it : Option Key} {item : Value}
    (h : destroySweep m val it = .ok (sweep, m')) :
    BlockTurn m m' act t (some (.destroy val (.calling item it))) (some (sweep.call val)) := by
  simp only [destroySweep, bind_ok, readTss_ok] at h
  obtain ⟨mem, hm, h⟩ := h
  obtain ⟨hs, hn, ha, hb⟩ := sweepNext_blocks h
  refine .quiet hs hn ha (fun i => ?_) fun _ => sweep_share
  rw [hb]
  split
  · rename_i hi
    exact (hi ▸ blockOf_of_live hm).symm
  · rfl

theorem TssTurn.blocks (h : TssTurn s s' act before after)
    (hf : s.mem.instances s.mem.nextInstance = none)
    (hr : ∀ t env, act = .advance t env → env.atexit = true) :
    BlockTurn s.mem s'.mem act act.tid before after := by
  have still : s'.mem = s.mem → (∀ st, TssCall.share s'.mem st after = TssCall.share s.mem st before) →
      BlockTurn s.mem s'.mem act act.tid before after := fun hm hc => by
    rw [hm] at hc ⊢
    exact .quiet rfl rfl rfl (fun _ => rfl) hc
  have looked : ∀ {t val ret mytid}, tssLookup s.mem t val = .ok (ret, mytid, s'.mem) →
      (∀ st, TssCall.share s'.mem st after = TssCall.share s.mem st before) →
      BlockTurn s.mem s'.mem act act.tid before after := by
    intro t val ret mytid hl hc
    obtain ⟨-, -, hm⟩ := tssLookup_ok hl
    have hrest := drawGeneration_rest s.mem t
    rw [hm] at hc ⊢
    exact .quiet (states_drawGeneration _ t) hrest.1 hrest.2
      (blockOf_congr (instances_drawGeneration _ t)) hc
  cases h with
  | allocate t hm =>
    rw [hm]
    refine .quiet rfl rfl rfl (fun i => ?_) fun _ => rfl
    by_cases hi : i = s.mem.nextInstance
    · simp [TssMem.blockOf, tssCreate, hi, hf]
    · simp [TssMem.blockOf, tssCreate, hi]
  | get t val ret mytid hl => exact looked hl fun _ => rfl
  | found t val v mytid hl => exact looked hl fun _ => rfl
  | init t val mytid hl => exact looked hl fun _ => rfl
  | insert t env val mytid newitem hi => exact threadInitInsert_blocks hi
  | reject t env val mytid newitem hi => exact threadInitInsert_rejects hi
  | register t env val ret hreg => exact threadInitRegister_blocks (hr t env rfl) hreg
  | runAtexit t state items ht hx hi hm =>
    rw [hm]
    exact .runs state items rfl rfl hi rfl rfl rfl fun _ => rfl
  | lookup t env state val mytid item hl => exact deinitLookup_blocks hl
  | missing t env state val mytid hl => exact deinitLookup_blocks hl
  | drop t env state hd => exact releaseState_blocks hd
  | erase t env state val mytid item he => exact deinitErase_blocks he
  | destroy t val sweep hd => exact destroyBegin_blocks hd
  | sweep t env val item it sweep hd => exact destroySweep_blocks hd
  | free t env val instances hfr hm =>
    obtain ⟨-, rfl⟩ := Heap.free_ok.mp hfr
    rw [hm]
    refine .frees val rfl rfl rfl rfl rfl fun i => ?_
    by_cases hi : i = val <;> simp [TssMem.blockOf, hi]
  | _ => exact still ‹_› fun _ => rfl

/-- Every `deinit_state` counts its registrations and lives as long as it has any. An instance
and its `deinit_state` point to each other until one of them is gone. -/
structure Balanced (s : TssState) : Prop where
  fresh : s.mem.Fresh
  unborn : ∀ st, s.mem.nextState ≤ st → s.mem.states st = none
  counted : ∀ st d, s.mem.states st = some d → 0 < d.count ∧ Tally (s.registrations st) d.count
  gone : ∀ st, s.mem.states st = none → ∀ t, s.registrations st t = 0
  points : ∀ i st, s.mem.blockOf i = some st → ∃ d, s.mem.states st = some d ∧ d.val = some i
  bound : ∀ st d i, s.mem.states st = some d → d.val = some i → s.mem.blockOf i = some st
  items : ∀ t, none ∉ s.mem.atexitItems t
  registering : ∀ a ∈ s.acts, ∀ val, a.call = .threadInit val .register →
    ∃ st, s.mem.blockOf val = some st
  deinits : ∀ a ∈ s.acts, ∀ state pc, a.call = .deinit state pc → state ≠ none
  found : ∀ a ∈ s.acts, ∀ st pc val d, a.call = .deinit (some st) pc → a.call.on = some val →
    s.mem.states st = some d → d.val = some val
  dropped : ∀ a ∈ s.acts, ∀ st d, a.call = .deinit (some st) .drop → s.mem.states st = some d →
    d.val = none
  apart : s.acts.Pairwise fun a b => ∀ i,
    (a.call.sweeps i → b.call.on ≠ some i) ∧ (b.call.sweeps i → a.call.on ≠ some i)
  swept : ∀ a ∈ s.acts, ∀ i, a.call.sweeps i →
    (s.mem.instances i).isSome ∧ s.mem.blockOf i = none

theorem Balanced.initial (ids : Tid → UInt64) : Balanced (.initial ids) where
  fresh _ _ := rfl
  unborn _ _ := rfl
  counted _ _ h := by cases h
  gone _ _ t := rfl
  points i st h := by cases h
  bound _ _ _ h := by cases h
  items _ h := by cases h
  registering _ h := by cases h
  deinits _ h := by cases h
  found _ h := by cases h
  dropped _ h := by cases h
  apart := .nil
  swept _ h := by cases h

/-- A `deinit_state` that somebody is registered on is there. -/
theorem Balanced.alive (hi : Balanced s) (h : 0 < s.registrations st t) :
    ∃ d, s.mem.states st = some d := by
  refine Option.ne_none_iff_exists'.mp fun hn => ?_
  rw [hi.gone st hn t] at h
  exact Nat.lt_irrefl _ h

/-- The other calls keep their registrations. -/
theorem Balanced.kept (hi : Balanced s) (hok : DestroyAlone s act)
    (hm : TssMoves s s' act before after rest)
    (hb : BlockTurn s.mem s'.mem act act.tid before after) :
    ∀ a ∈ rest, a.call.registered s'.mem = a.call.registered s.mem := by
  intro a ha
  have has := hm.rest_mem ha
  obtain ⟨t, call⟩ := a
  cases call with
  | deinit | destroy => rfl
  | threadInit val pc =>
    cases pc with
    | register =>
      obtain ⟨st, hst⟩ := hi.registering _ has val rfl
      show s'.mem.blockOf val = s.mem.blockOf val
      cases hb with
      | quiet hs hn ha hb => exact hb val
      | joins _ _ _ _ _ _ _ _ _ _ _ _ hb => exact hb val
      | registers _ _ _ _ _ _ hb => exact hb val
      | runs _ _ _ _ _ _ _ _ hb => exact hb val
      | first v mytid newitem hbefore hafter h0 hs hn _ hb =>
        rw [hb, if_neg]
        rintro rfl
        rw [hst] at h0
        cases h0
      | releases st' pc d hbefore hafter _ hd hs hn _ hb hl =>
        refine (hb val).resolve_right fun hlast => ?_
        -- the call that is moved holds the last registration
        obtain ⟨-, hst', h1⟩ := hlast
        have htally : Tally (s.besides rest s.mem st') 0 :=
          (h1 ▸ (hi.counted st' d hd).2).sub act.tid fun u => by
            rw [hm.registrations_before, hbefore, share_deinit, if_pos rfl]
        have hzero := tally_zero.mp htally t
        have hpos : 0 < s.besides rest s.mem st' t := by
          refine Nat.add_pos_right _ (List.countP_pos_iff.mpr ⟨_, ha, ?_⟩)
          simp [TssCall.registered, hst']
        exact absurd hzero (Nat.ne_of_gt hpos)
      | detaches v st' d sweep hact hbefore hafter h0 hd hs hn _ hb =>
        rw [hb, if_neg]
        rintro rfl
        exact hok.destroy _ _ hact _ has rfl
      | frees v hbefore hafter hs hn _ hb =>
        rw [hb, if_neg]
        rintro rfl
        have hap := hm.perm.pairwise hi.apart fun {a b} h i => (h i).symm
        rw [hbefore] at hap
        exact (((List.pairwise_cons.mp hap).1 _ ha val).1 rfl) rfl
    | _ => rfl

theorem Balanced.flow (hi : Balanced s) (hok : DestroyAlone s act)
    (hm : TssMoves s s' act before after rest)
    (hb : BlockTurn s.mem s'.mem act act.tid before after) (st : Addr) (u : Tid) :
    s'.registrations st u + (if act.tid = u then TssCall.share s.mem st before else 0) +
        (s.mem.atexitItems u).count (some st) =
      s.registrations st u + (if act.tid = u then TssCall.share s'.mem st after else 0) +
        (s'.mem.atexitItems u).count (some st) := by
  have hk := besides_kept (hi.kept hok hm hb) st u
  rw [hm.registrations_before, hm.registrations_after]
  omega

/-- The registrations a step leaves as they are. -/
theorem Balanced.same (hi : Balanced s) (hok : DestroyAlone s act)
    (hm : TssMoves s s' act before after rest)
    (hb : BlockTurn s.mem s'.mem act act.tid before after) (st : Addr)
    (ha : s'.mem.atexitItems = s.mem.atexitItems)
    (hc : TssCall.share s'.mem st after = TssCall.share s.mem st before) (u : Tid) :
    s'.registrations st u = s.registrations st u := by
  have hf := hi.flow hok hm hb st u
  rw [ha, hc] at hf
  omega

/-- A `deinit_state` and its registrations. -/
def BlockCounted (state : Option DeinitState) (f : Tid → Nat) : Prop :=
  (state = none → ∀ t, f t = 0) ∧ ∀ d, state = some d → 0 < d.count ∧ Tally f d.count

theorem BlockCounted.congr {state : Option DeinitState} {f g : Tid → Nat} (h : BlockCounted state f)
    (hg : ∀ t, g t = f t) : BlockCounted state g :=
  ⟨fun hn t => (hg t).trans (h.1 hn t), fun d hd => ⟨(h.2 d hd).1, (h.2 d hd).2.congr hg⟩⟩

theorem Balanced.counted_step (hi : Balanced s) (hok : DestroyAlone s act)
    (hm : TssMoves s s' act before after rest)
    (hb : BlockTurn s.mem s'.mem act act.tid before after) (st : Addr) :
    BlockCounted (s'.mem.states st) (s'.registrations st) := by
  have hst : BlockCounted (s.mem.states st) (s.registrations st) := ⟨hi.gone st, hi.counted st⟩
  have hsame := hi.same hok hm hb st
  have hflow := hi.flow hok hm hb st
  cases hb with
  | quiet hs hn ha hb hc =>
    rw [hs]
    exact hst.congr (hsame ha (hc st))
  | first val mytid newitem hbefore hafter h0 hs hn ha hb =>
    subst hbefore hafter
    by_cases hp : st = s.mem.nextState
    · subst hp
      have hzero := tally_zero.mpr (hi.gone _ (hi.unborn _ (Nat.le_refl _)))
      rw [hs, Heap.set_self]
      refine ⟨fun hn => (by cases hn), fun d hd => ?_⟩
      obtain rfl := Option.some.inj hd
      refine ⟨Nat.one_pos, hzero.add act.tid fun u => ?_⟩
      have h := hflow u
      rw [share_insert, share_register, hb, if_pos rfl, if_pos rfl, ha] at h
      split at h <;> simp_all
    · rw [hs, Heap.set_other _ _ hp]
      refine hst.congr (hsame ha ?_)
      rw [share_insert, share_register, hb, if_pos rfl, if_neg]
      exact fun h => hp (Option.some.inj h).symm
  | joins val st' d mytid newitem hbefore hafter h0 hd hs hn ha hb =>
    subst hbefore hafter
    by_cases hp : st = st'
    · subst hp
      rw [hs, Heap.set_self]
      refine ⟨fun hn => (by cases hn), fun d' hd' => ?_⟩
      obtain rfl := Option.some.inj hd'
      refine ⟨Nat.succ_pos _, (hi.counted st d hd).2.add act.tid fun u => ?_⟩
      have h := hflow u
      rw [share_insert, share_register, hb, if_pos h0, ha] at h
      split at h <;> simp_all
    · rw [hs, Heap.set_other _ _ hp]
      refine hst.congr (hsame ha ?_)
      rw [share_insert, share_register, hb, h0, if_neg]
      exact fun h => hp (Option.some.inj h).symm
  | registers val hbefore hafter hs hn ha hb =>
    subst hbefore hafter
    rw [hs]
    refine hst.congr fun u => ?_
    have h := hflow u
    rw [share_none, share_register, ha] at h
    by_cases hu : u = act.tid
    · subst hu
      simp only [reduceIte, List.count_cons, beq_iff_eq] at h
      omega
    · simp only [if_neg hu, if_neg (Ne.symm hu)] at h
      omega
  | runs state items hbefore hafter hitems hs hn ha hb =>
    subst hbefore hafter
    rw [hs]
    refine hst.congr fun u => ?_
    have h := hflow u
    rw [share_none, share_deinit, ha] at h
    by_cases hu : u = act.tid
    · subst hu
      simp only [reduceIte, hitems, List.count_cons, beq_iff_eq] at h
      omega
    · simp only [if_neg hu, if_neg (Ne.symm hu)] at h
      omega
  | releases st' pc d hbefore hafter _ hd hs hn ha hb hl =>
    subst hbefore hafter
    by_cases hp : st = st'
    · subst hp
      obtain ⟨hpos, htally⟩ := hi.counted st d hd
      have hreg : ∀ u, s.registrations st u =
          s'.registrations st u + if act.tid = u then 1 else 0 := fun u => by
        have h := hflow u
        rw [share_none, share_deinit, if_pos rfl, ha] at h
        split at h <;> simp_all
      obtain ⟨n, hn'⟩ := Nat.exists_eq_succ_of_ne_zero (Nat.ne_of_gt hpos)
      rw [hn'] at htally
      have hleft := htally.sub act.tid hreg
      rw [hs, Heap.set_self]
      by_cases h0 : n = 0
      · subst h0
        rw [if_pos hn']
        exact ⟨fun _ => tally_zero.mp hleft, fun d hd => (by cases hd)⟩
      · rw [if_neg (by omega)]
        refine ⟨fun hn => (by cases hn), fun d' hd' => ?_⟩
        obtain rfl := Option.some.inj hd'
        have hcount : d.count - 1 = n := by omega
        rw [hcount]
        exact ⟨Nat.pos_of_ne_zero h0, hleft⟩
    · rw [hs, Heap.set_other _ _ hp]
      refine hst.congr (hsame ha ?_)
      rw [share_none, share_deinit, if_neg]
      exact fun h => hp (Option.some.inj h).symm
  | detaches val st' d sweep hact hbefore hafter h0 hd hs hn ha hb =>
    subst hbefore hafter
    have hreg := hsame ha sweep_share
    by_cases hp : st = st'
    · subst hp
      rw [hs, Heap.set_self]
      refine ⟨fun hn => (by cases hn), fun d' hd' => ?_⟩
      obtain rfl := Option.some.inj hd'
      exact ⟨(hi.counted st d hd).1, (hi.counted st d hd).2.congr hreg⟩
    · rw [hs, Heap.set_other _ _ hp]
      exact hst.congr hreg
  | frees val hbefore hafter hs hn ha hb =>
    subst hbefore hafter
    rw [hs]
    exact hst.congr (hsame ha rfl)

theorem blockOf_eq_some : m.blockOf i = some st ↔
    ∃ mem, m.instances i = some mem ∧ mem.state = some st := Option.bind_eq_some_iff

theorem Balanced.below (hi : Balanced s) {d : DeinitState} (h : s.mem.states st = some d) :
    st < s.mem.nextState := by
  refine Nat.lt_of_not_le fun hle => ?_
  rw [hi.unborn st hle] at h
  cases h

/-- A `deinit` in progress holds a registration. -/
theorem Balanced.deinit_alive (hi : Balanced s) {a : TssAct} {pc : DeinitPc} (ha : a ∈ s.acts)
    (hc : a.call = .deinit (some st) pc) : ∃ d, s.mem.states st = some d := by
  refine hi.alive (t := a.tid) (Nat.add_pos_right _ (List.countP_pos_iff.mpr ⟨a, ha, ?_⟩))
  simp [hc, TssCall.registered]

/-- Only `destroy` changes which instance a `deinit_state` leads to. -/
theorem BlockTurn.val_kept {d d' : DeinitState} (h : BlockTurn m m' act t before after)
    (hd : m.states st = some d) (hb : st < m.nextState) (hd' : m'.states st = some d') :
    d'.val = d.val ∨
      (d'.val = none ∧ ∃ val, act = .destroy t val ∧ m.blockOf val = some st) := by
  have still : m'.states = m.states → d'.val = d.val := fun hs => by
    rw [hs, hd] at hd'
    rw [Option.some.inj hd']
  have other : ∀ {p : Addr} {o : Option DeinitState}, m'.states = m.states.set p o → st ≠ p →
      d'.val = d.val := fun hs hne => by
    rw [hs, Heap.set_other _ _ hne, hd] at hd'
    rw [Option.some.inj hd']
  cases h with
  | quiet hs | registers _ _ _ hs | runs _ _ _ _ _ hs | frees _ _ _ hs => exact .inl (still hs)
  | first _ _ _ _ _ _ hs => exact .inl (other hs (Nat.ne_of_lt hb))
  | joins _ st₀ d₀ _ _ _ _ _ hd₀ hs =>
    by_cases hp : st = st₀
    · subst hp
      rw [hs, Heap.set_self] at hd'
      rw [← Option.some.inj hd', Option.some.inj (hd.symm.trans hd₀)]
      exact .inl rfl
    · exact .inl (other hs hp)
  | releases st₀ _ d₀ _ _ _ hd₀ hs =>
    by_cases hp : st = st₀
    · subst hp
      rw [hs, Heap.set_self] at hd'
      split at hd'
      · cases hd'
      · rw [← Option.some.inj hd', Option.some.inj (hd.symm.trans hd₀)]
        exact .inl rfl
    · exact .inl (other hs hp)
  | detaches val st₀ _ _ hact _ _ h0 _ hs =>
    by_cases hp : st = st₀
    · subst hp
      rw [hs, Heap.set_self] at hd'
      exact .inr ⟨by rw [← Option.some.inj hd'], val, hact, h0⟩
    · exact .inl (other hs hp)

/-- No `deinit_state` comes back. -/
theorem BlockTurn.none_kept (h : BlockTurn m m' act t before after) (hd : m.states st = none)
    (hb : st < m.nextState) : m'.states st = none ∧ st < m'.nextState := by
  have other : ∀ {p : Addr} {o : Option DeinitState}, m'.states = m.states.set p o → st ≠ p →
      m'.states st = none := fun hs hne => by rw [hs, Heap.set_other _ _ hne, hd]
  have live : ∀ {p : Addr} {d : DeinitState}, m.states p = some d → st ≠ p := by
    rintro p d hp rfl
    rw [hd] at hp
    cases hp
  cases h with
  | quiet hs hn | registers _ _ _ hs hn | runs _ _ _ _ _ hs hn | frees _ _ _ hs hn =>
    rw [hs, hn]
    exact ⟨hd, hb⟩
  | first _ _ _ _ _ _ hs hn => exact ⟨other hs (Nat.ne_of_lt hb), hn ▸ Nat.lt_succ_of_lt hb⟩
  | joins _ _ _ _ _ _ _ _ hp hs hn | releases _ _ _ _ _ _ hp hs hn
  | detaches _ _ _ _ _ _ _ _ hp hs hn => exact ⟨other hs (live hp), hn ▸ hb⟩

theorem Balanced.unborn_step (hi : Balanced s)
    (hb : BlockTurn s.mem s'.mem act act.tid before after) (st : Addr)
    (hst : s'.mem.nextState ≤ st) : s'.mem.states st = none := by
  have other : ∀ {p : Addr} {o : Option DeinitState}, s'.mem.states = s.mem.states.set p o →
      p < s'.mem.nextState → s.mem.nextState ≤ st → s'.mem.states st = none :=
    fun hs hp hle => by
      rw [hs, Heap.set_other _ _ (Nat.ne_of_gt (Nat.lt_of_lt_of_le hp hst)), hi.unborn st hle]
  cases hb with
  | quiet hs hn | registers _ _ _ hs hn | runs _ _ _ _ _ hs hn | frees _ _ _ hs hn =>
    rw [hs]
    exact hi.unborn st (hn ▸ hst)
  | first _ _ _ _ _ _ hs hn =>
    rw [hn] at hst
    exact other hs (hn ▸ Nat.lt_succ_self _) (Nat.le_of_succ_le hst)
  | joins _ _ _ _ _ _ _ _ hp hs hn | releases _ _ _ _ _ _ hp hs hn
  | detaches _ _ _ _ _ _ _ _ hp hs hn => exact other hs (hn ▸ hi.below hp) (hn ▸ hst)

theorem Balanced.bound_step (hi : Balanced s) (hm : TssMoves s s' act before after rest) (st : Addr)
    (d : DeinitState) (i : Addr) (hst : s'.mem.states st = some d) (hv : d.val = some i) :
    s'.mem.blockOf i = some st := by
  refine blockOf_eq_some.mpr (hm.turn.bound (i := i) (fun st d hst hv => ?_)
    (hi.fresh _ (Nat.le_refl _)) (fun hb st d hst hv => ?_) st d hst hv)
  · exact blockOf_eq_some.mp (hi.bound st d i hst hv)
  · -- the sweep has cut the instance off from its `deinit_state`
    have hnone := (hi.swept _ (hm.before_mem hb) i rfl).2
    rw [hi.bound st d i hst hv] at hnone
    cases hnone

theorem Balanced.points_step (hi : Balanced s) (hm : TssMoves s s' act before after rest)
    (hb : BlockTurn s.mem s'.mem act act.tid before after) (i st : Addr)
    (h : s'.mem.blockOf i = some st) : ∃ d, s'.mem.states st = some d ∧ d.val = some i := by
  have other : ∀ {p : Addr} {o : Option DeinitState}, s'.mem.states = s.mem.states.set p o →
      st ≠ p → s.mem.blockOf i = some st → ∃ d, s'.mem.states st = some d ∧ d.val = some i :=
    fun hs hne hp => by
      rw [hs, Heap.set_other _ _ hne]
      exact hi.points i st hp
  cases hb with
  | quiet hs _ _ hb | registers _ _ _ hs _ _ hb | runs _ _ _ _ _ hs _ _ hb =>
    rw [hs]
    exact hi.points i st (hb i ▸ h)
  | first val _ _ _ _ _ hs _ _ hb =>
    rw [hb] at h
    split at h
    · rename_i hv
      obtain rfl := Option.some.inj h
      exact ⟨_, hs ▸ Heap.set_self _ _ _, congrArg some hv.symm⟩
    · obtain ⟨d, hd, -⟩ := hi.points i st h
      exact other hs (Nat.ne_of_lt (hi.below hd)) h
  | joins val st₀ d₀ _ _ _ _ _ hd₀ hs _ _ hb =>
    rw [hb] at h
    by_cases hp : st = st₀
    · subst hp
      obtain ⟨d, hd, hv⟩ := hi.points i st h
      rw [hd₀] at hd
      exact ⟨_, hs ▸ Heap.set_self _ _ _, Option.some.inj hd ▸ hv⟩
    · exact other hs hp h
  | releases st₀ pc d₀ hbefore _ hpc hd₀ hs _ _ hb hl =>
    have hold := (hb i).resolve_right fun hlast => by
      rw [hlast.1] at h
      cases h
    rw [hold] at h
    by_cases hp : st = st₀
    · subst hp
      obtain ⟨d, hd, hv⟩ := hi.points i st h
      obtain rfl : d = d₀ := Option.some.inj (hd.symm.trans hd₀)
      rw [hs, Heap.set_self]
      by_cases h1 : d.count = 1
      · have hfound := hi.found _ (hm.before_mem hbefore) st pc
        have hdropped := hi.dropped _ (hm.before_mem hbefore) st d
        cases pc with
        | enter => exact absurd rfl hpc
        | drop =>
          rw [hdropped rfl hd] at hv
          cases hv
        | lookup val | callback val | erase val =>
          obtain rfl := Option.some.inj (hv.symm.trans (hfound val d rfl rfl hd))
          exact absurd (hold.trans h) (hl i rfl h1)
      · rw [if_neg h1]
        exact ⟨_, rfl, hv⟩
    · exact other hs hp h
  | detaches val st₀ d₀ _ _ _ _ h0 hd₀ hs _ _ hb =>
    rw [hb] at h
    split at h
    · cases h
    · rename_i hne
      refine other hs ?_ h
      rintro rfl
      obtain ⟨d, hd, hv⟩ := hi.points i st h
      obtain ⟨d', hd', hv'⟩ := hi.points val st h0
      rw [hd] at hd'
      obtain rfl := Option.some.inj hd'
      exact hne (Option.some.inj (hv.symm.trans hv'))
  | frees val _ _ hs _ _ hb =>
    rw [hb] at h
    split at h
    · cases h
    · rw [hs]
      exact hi.points i st h

theorem threadInitInsert_points {env : TssEnv} {mytid : Key} {newitem : Value}
    (h : threadInitInsert env m val mytid newitem = .ok (true, m')) :
    ∃ st, m'.blockOf val = some st := by
  simp only [threadInitInsert, bind_ok, readTss_ok] at h
  obtain ⟨mem, hm, h⟩ := h
  split at h
  · split at h
    · split at h
      · obtain ⟨-, rfl⟩ := Prod.mk.inj (pure_ok.mp h)
        exact ⟨m.nextState, (blockOf_setTss m val val _).trans (if_pos rfl)⟩
      · cases (Prod.mk.inj (pure_ok.mp h)).1
    · rename_i st hst
      simp only [bind_ok, pure_ok, Prod.mk.injEq] at h
      obtain ⟨states, -, -, rfl⟩ := h
      refine ⟨st, ?_⟩
      rw [blockOf_setStates, blockOf_setTss, if_pos rfl]
      exact hst
  · cases (Prod.mk.inj (pure_ok.mp h)).1

theorem Balanced.items_step (hi : Balanced s) (hm : TssMoves s s' act before after rest)
    (hb : BlockTurn s.mem s'.mem act act.tid before after) (t : Tid) :
    none ∉ s'.mem.atexitItems t := by
  cases hb with
  | quiet _ _ ha | first _ _ _ _ _ _ _ _ ha | joins _ _ _ _ _ _ _ _ _ _ _ ha
  | releases _ _ _ _ _ _ _ _ _ ha | detaches _ _ _ _ _ _ _ _ _ _ _ ha | frees _ _ _ _ _ ha =>
    rw [ha]
    exact hi.items t
  | registers val hbefore _ _ _ ha =>
    obtain ⟨st, hst⟩ := hi.registering _ (hm.before_mem hbefore) val rfl
    rw [ha]
    by_cases ht : t = act.tid
    · simpa [ht, hst] using hi.items act.tid
    · simpa [ht] using hi.items t
  | runs state items _ _ hitems _ _ ha =>
    rw [ha]
    by_cases ht : t = act.tid
    · have hrest := hi.items act.tid
      rw [hitems] at hrest
      simpa [ht] using fun h => hrest (List.mem_cons_of_mem _ h)
    · simpa [ht] using hi.items t

theorem Balanced.registering_step (hi : Balanced s) (hok : DestroyAlone s act)
    (hm : TssMoves s s' act before after rest)
    (hb : BlockTurn s.mem s'.mem act act.tid before after) (a : TssAct) (ha : a ∈ s'.acts)
    (val : Addr) (hc : a.call = .threadInit val .register) :
    ∃ st, s'.mem.blockOf val = some st := by
  rcases hm.mem_acts ha with ⟨ha, -⟩ | ha
  · rw [hc] at ha
    generalize hd : some (TssCall.threadInit val .register) = d at ha
    subst ha
    cases hm.turn with
    | insert t env v mytid newitem hins =>
      cases hd
      exact threadInitInsert_points hins
    | destroy t v sweep | sweep t env v item it sweep => cases sweep <;> cases hd
    | _ => cases hd
  · obtain ⟨st, hst⟩ := hi.registering a (hm.rest_mem ha) val hc
    have hk := hi.kept hok hm hb a ha
    rw [hc] at hk
    exact ⟨st, hk.trans hst⟩

theorem Balanced.deinits_step (hi : Balanced s) (hm : TssMoves s s' act before after rest)
    (a : TssAct) (ha : a ∈ s'.acts) (state : Option Addr) (pc : DeinitPc)
    (hc : a.call = .deinit state pc) : state ≠ none := by
  rcases hm.mem_acts ha with ⟨ha, -⟩ | ha
  · rw [hc] at ha
    have own : ∀ {pc}, before = some (.deinit state pc) → state ≠ none := fun hb =>
      hi.deinits _ (hm.before_mem hb) state _ rfl
    generalize hd : some (TssCall.deinit state pc) = d at ha
    subst ha
    cases hm.turn with
    | runAtexit t state' items _ _ hitems =>
      cases hd
      rintro rfl
      exact hi.items t (hitems ▸ List.mem_cons_self)
    | enter | orphaned | lookup | callback =>
      cases hd
      exact own rfl
    | destroy t v sweep | sweep t env v item it sweep => cases sweep <;> cases hd
    | _ => cases hd
  · exact hi.deinits a (hm.rest_mem ha) state pc hc

/-- A `deinit` that found the instance: `destroy` does not come in between. -/
theorem Balanced.found_kept (hi : Balanced s) (hok : DestroyAlone s act)
    (hb : BlockTurn s.mem s'.mem act act.tid before after) {a : TssAct} (ha : a ∈ s.acts)
    {pc : DeinitPc} {d' : DeinitState} (hc : a.call = .deinit (some st) pc)
    (hon : a.call.on = some val) (hd' : s'.mem.states st = some d') : d'.val = some val := by
  obtain ⟨d, hd⟩ := hi.deinit_alive ha hc
  have hv := hi.found a ha st pc val d hc hon hd
  rcases hb.val_kept hd (hi.below hd) hd' with hk | ⟨-, v, hact, hp⟩
  · exact hk.trans hv
  · obtain ⟨d₀, hd₀, hv₀⟩ := hi.points v st hp
    obtain rfl : d = d₀ := Option.some.inj (hd.symm.trans hd₀)
    rw [hv] at hv₀
    exact absurd (hon.trans hv₀) (hok.destroy _ v hact a ha)

theorem Balanced.found_step (hi : Balanced s) (hok : DestroyAlone s act)
    (hm : TssMoves s s' act before after rest)
    (hb : BlockTurn s.mem s'.mem act act.tid before after) (a : TssAct) (ha : a ∈ s'.acts)
    (st : Addr) (pc : DeinitPc) (val : Addr) (d : DeinitState)
    (hc : a.call = .deinit (some st) pc) (hon : a.call.on = some val)
    (hd : s'.mem.states st = some d) : d.val = some val := by
  rcases hm.mem_acts ha with ⟨ha, -⟩ | ha
  · rw [hc] at ha hon
    have own : ∀ {pc}, before = some (.deinit (some st) pc) →
        (TssCall.deinit (some st) pc).on = some val → d.val = some val := fun hb' hon =>
      hi.found_kept hok hb (hm.before_mem hb') rfl hon hd
    generalize he : some (TssCall.deinit (some st) pc) = c at ha
    subst ha
    cases hm.turn with
    | runAtexit | orphaned =>
      cases he
      cases hon
    | enter t env state d₀ v hs hv hmem =>
      cases he
      obtain ⟨_, ⟨⟩, hst⟩ := Heap.read_ok.mp hs
      rw [hmem, hst] at hd
      obtain rfl := Option.some.inj hd
      exact hv.trans hon
    | lookup | callback =>
      cases he
      exact own rfl hon
    | destroy t v sweep | sweep t env v item it sweep => cases sweep <;> cases he
    | _ => cases he
  · exact hi.found_kept hok hb (hm.rest_mem ha) hc hon hd

theorem Balanced.dropped_step (hi : Balanced s) (hm : TssMoves s s' act before after rest)
    (hb : BlockTurn s.mem s'.mem act act.tid before after) (a : TssAct) (ha : a ∈ s'.acts)
    (st : Addr) (d : DeinitState) (hc : a.call = .deinit (some st) .drop)
    (hd : s'.mem.states st = some d) : d.val = none := by
  rcases hm.mem_acts ha with ⟨ha, -⟩ | ha
  · rw [hc] at ha
    generalize he : some (TssCall.deinit (some st) .drop) = c at ha
    subst ha
    cases hm.turn with
    | orphaned t env state d₀ hs hv hmem =>
      cases he
      obtain ⟨_, ⟨⟩, hst⟩ := Heap.read_ok.mp hs
      rw [hmem, hst] at hd
      exact Option.some.inj hd ▸ hv
    | destroy t v sweep | sweep t env v item it sweep => cases sweep <;> cases he
    | _ => cases he
  · have has := hm.rest_mem ha
    obtain ⟨d₀, hd₀⟩ := hi.deinit_alive has hc
    have hv := hi.dropped a has st d₀ hc hd₀
    rcases hb.val_kept hd₀ (hi.below hd₀) hd with hk | ⟨hn, -⟩
    · exact hk.trans hv
    · exact hn

theorem Balanced.apart_step (hi : Balanced s) (hok : DestroyAlone s act)
    (hm : TssMoves s s' act before after rest) :
    s'.acts.Pairwise fun a b => ∀ i,
      (a.call.sweeps i → b.call.on ≠ some i) ∧ (b.call.sweeps i → a.call.on ≠ some i) := by
  refine hm.pairwise (fun a b h i => (h i).symm) hi.apart fun c' hc' b hb hap i => ?_
  have hbs := hm.rest_mem hb
  subst hc'
  cases before with
  | some c =>
    obtain ⟨-, -, hsweep, hon⟩ := hm.turn.goes_on i
    refine ⟨fun h => (hap c rfl i).1 (hsweep h), fun hs h => ?_⟩
    rcases hon h with h | ⟨st, d, -, hst, hv⟩
    · exact (hap c rfl i).2 hs h
    · have hnone := (hi.swept b hbs i hs).2
      rw [hi.bound st d i hst hv] at hnone
      cases hnone
  | none =>
    generalize hn : (none : Option TssCall) = before at hm
    cases hm.turn with
    | init t val mytid =>
      refine ⟨fun h => h.elim, fun hs h => ?_⟩
      obtain rfl : val = i := Option.some.inj h
      obtain ⟨btid, bcall⟩ := b
      cases bcall with
      | destroy v pc =>
        obtain rfl : v = val := hs
        exact hok.init t v rfl _ hbs pc rfl
      | _ => exact hs
    | runAtexit => exact ⟨fun h => h.elim, fun _ h => by simp [TssCall.on] at h⟩
    | destroy t val sweep =>
      refine ⟨fun h => ?_, fun hs h => ?_⟩
      · obtain rfl : val = i := by cases sweep <;> exact h
        exact hok.destroy t val rfl b hbs
      · obtain rfl : val = i := by cases sweep <;> exact Option.some.inj h
        obtain ⟨btid, bcall⟩ := b
        cases bcall with
        | destroy v pc =>
          obtain rfl : v = val := hs
          exact hok.destroy t v rfl _ hbs rfl
        | _ => exact hs
    | _ => cases hn

theorem Balanced.swept_step (hi : Balanced s) (hok : DestroyAlone s act)
    (hm : TssMoves s s' act before after rest) (a : TssAct) (ha : a ∈ s'.acts) (i : Addr)
    (hs : a.call.sweeps i) : (s'.mem.instances i).isSome ∧ s'.mem.blockOf i = none := by
  have hap := hi.apart_step hok hm
  rcases hm.mem_acts ha with ⟨ha, -⟩ | ha
  · have own : ∀ {pc}, before = some (.destroy i pc) →
        ∃ mem, s.mem.instances i = some mem ∧ mem.state = none := fun hb => by
      obtain ⟨hlive, hnone⟩ := hi.swept _ (hm.before_mem hb) i rfl
      obtain ⟨mem, hmem⟩ := Option.isSome_iff_exists.mp hlive
      exact ⟨mem, hmem, (blockOf_of_live hmem).symm.trans hnone⟩
    have round : ∀ {sweep mem mem' it}, Swept s.mem s'.mem i mem mem' it sweep →
        mem'.state = none → (s'.mem.instances i).isSome ∧ s'.mem.blockOf i = none :=
      fun hsw hnone => ⟨hsw.after ▸ rfl, (blockOf_of_live hsw.after).trans hnone⟩
    generalize a.call = call at ha hs
    subst ha
    cases hm.turn with
    | destroy t val sweep hd =>
      obtain rfl : val = i := by cases sweep <;> exact hs
      obtain ⟨mem, mem', hnone, hsw⟩ := destroyBegin_ok hd
      exact round hsw hnone
    | swept t env val item it hmem =>
      obtain rfl : val = i := hs
      obtain ⟨mem, hl, hnone⟩ := own rfl
      rw [hmem]
      exact ⟨hl ▸ rfl, (blockOf_of_live hl).trans hnone⟩
    | sweep t env val item it sweep hd =>
      obtain rfl : val = i := by cases sweep <;> exact hs
      obtain ⟨mem, mem', hst, hsw⟩ := destroySweep_ok hd
      obtain ⟨mem₀, hl, hnone⟩ := own rfl
      obtain rfl : mem = mem₀ := Option.some.inj (hsw.before.symm.trans hl)
      exact round hsw (hst.trans hnone)
    | _ => exact hs.elim
  · obtain ⟨hlive, hnone⟩ := hi.swept a (hm.rest_mem ha) i hs
    have hsame : s'.mem.instances i = s.mem.instances i := by
      refine hm.turn.instances ?_ ?_
      · rintro rfl
        rw [hi.fresh _ (Nat.le_refl _)] at hlive
        cases hlive
      · rintro call (rfl | rfl)
        · have hp := hm.perm.pairwise hi.apart fun {a b} h i => (h i).symm
          exact ((List.pairwise_cons.mp hp).1 a ha i).2 hs
        · rw [hm.acts] at hap
          exact ((List.pairwise_cons.mp hap).1 a ha i).2 hs
    rw [TssMem.blockOf, hsame]
    exact ⟨hlive, hnone⟩

theorem Balanced.step (hi : Balanced s) (hok : DestroyAlone s act) (hs : tssStep s act = .ok s') :
    Balanced s' := by
  obtain ⟨before, after, rest, hm⟩ := tssStep_moves hs
  have hb := hm.turn.blocks (hi.fresh _ (Nat.le_refl _)) hok.registers
  exact {
    fresh := hm.turn.mem.fresh hi.fresh
    unborn := hi.unborn_step hb
    counted := fun st => (hi.counted_step hok hm hb st).2
    gone := fun st => (hi.counted_step hok hm hb st).1
    points := hi.points_step hm hb
    bound := hi.bound_step hm
    items := hi.items_step hm hb
    registering := hi.registering_step hok hm hb
    deinits := hi.deinits_step hm
    found := hi.found_step hok hm hb
    dropped := hi.dropped_step hm hb
    apart := hi.apart_step hok hm
    swept := hi.swept_step hok hm }

/-- The `deinit_state` a thread counts itself out of is there, and so is the instance while
that leads to one. -/
theorem Balanced.deinit_reaches (hi : Balanced s) {a : TssAct} {state : Option Addr}
    {pc : DeinitPc} (ha : a ∈ s.acts) (hc : a.call = .deinit state pc) :
    ∃ st d, state = some st ∧ s.mem.states st = some d ∧
      ∀ val, a.call.on = some val → ∃ mem, s.mem.instances val = some mem := by
  obtain ⟨st, rfl⟩ := Option.ne_none_iff_exists'.mp (hi.deinits a ha state pc hc)
  obtain ⟨d, hd⟩ := hi.deinit_alive ha hc
  refine ⟨st, d, rfl, hd, fun val hon => ?_⟩
  have hv := hi.found a ha st pc val d hc hon hd
  obtain ⟨mem, hm, -⟩ := blockOf_eq_some.mp (hi.bound st d val hd hv)
  exact ⟨mem, hm⟩

theorem releaseState_runs {d : DeinitState} (hd : m.states st = some d) :
    ∃ m', releaseState m st = .ok m' := by
  rw [releaseState, Heap.read_some hd]
  simp only [bind, Except.bind]
  split <;> exact ⟨_, rfl⟩

theorem deinitCount_runs {d : DeinitState} (val : Addr) (mem : Tss)
    (hd : m.states st = some d) :
    ∃ m', deinitCount m val mem st = .ok m' := by
  rw [deinitCount, Heap.read_some hd]
  exact releaseState_runs hd

theorem deinitLookup_runs {d : DeinitState} {mem : Tss} (hd : m.states st = some d)
    (hm : m.instances val = some mem) : ∃ r, deinitLookup m t val st = .ok r := by
  have hread : (m.drawGeneration t).readTss val = .ok mem :=
    readTss_ok.mpr (by rw [instances_drawGeneration, hm])
  simp only [deinitLookup, myCurrentThreadId_mem, hread, bind, Except.bind]
  split
  · exact ⟨_, rfl⟩
  · obtain ⟨m', hm'⟩ := deinitCount_runs val mem
      ((congrFun (states_drawGeneration ..) st).trans hd)
    rw [hm']
    exact ⟨_, rfl⟩

theorem deinitErase_runs {d : DeinitState} {mem : Tss} (mytid : Key) (hd : m.states st = some d)
    (hm : m.instances val = some mem) : ∃ m', deinitErase m val mytid st = .ok m' := by
  rw [deinitErase, readTss_ok.mpr hm]
  exact deinitCount_runs _ _ hd

/-- No section of a `deinit` goes wrong. -/
theorem Balanced.deinit_runs (hi : Balanced s) (t : Tid) (rest : List TssAct) {a : TssAct}
    {state : Option Addr} {pc : DeinitPc} (ha : a ∈ s.acts) (hc : a.call = .deinit state pc) :
    ∃ s', deinitSection s t state pc rest = .ok s' := by
  obtain ⟨st, d, rfl, hd, hlive⟩ := hi.deinit_reaches ha hc
  rw [hc] at hlive
  cases pc with
  | enter =>
    rw [deinitSection, Heap.read_some hd]
    exact ⟨_, rfl⟩
  | lookup val =>
    obtain ⟨mem, hm⟩ := hlive val rfl
    obtain ⟨⟨item, mytid, m'⟩, hl⟩ := deinitLookup_runs (t := t) hd hm
    simp only [deinitSection, hl, bind, Except.bind]
    split <;> exact ⟨_, rfl⟩
  | drop =>
    obtain ⟨m', hr⟩ := releaseState_runs hd
    simp only [deinitSection, hr]
    exact ⟨_, rfl⟩
  | callback val mytid item =>
    obtain ⟨mem, hm⟩ := hlive val rfl
    simp only [deinitSection, readTss_ok.mpr hm]
    exact ⟨_, rfl⟩
  | erase val mytid item =>
    obtain ⟨mem, hm⟩ := hlive val rfl
    obtain ⟨m', he⟩ := deinitErase_runs mytid hd hm
    simp only [deinitSection, he]
    exact ⟨_, rfl⟩

theorem readTss_error {e : TssFault} (h : m.readTss val = .error e) : e = .tss (some val) :=
  Heap.read_error h

theorem tssLookup_error {e : TssFault} (h : tssLookup m t val = .error e) :
    e = .tss (some val) := by
  simp only [tssLookup] at h
  rcases bind_error.mp h with h | ⟨mem, -, h⟩
  · exact readTss_error h
  · cases h

theorem sweepNext_error {mem : Tss} {it : Option Key} {e : TssFault}
    (h : sweepNext m val mem it = .error e) : e = .iterator := by
  cases it with
  | none => cases h
  | some key =>
    simp only [sweepNext] at h
    split at h <;> cases h
    rfl

/-- What a step that is no part of a `deinit` can fail for. -/
def NotState (e : TssFault) : Prop := ∀ p, e ≠ .state p

theorem Balanced.insert_fails (hi : Balanced s) {env : TssEnv} {mytid : Key} {newitem : Value}
    {e : TssFault} (h : threadInitInsert env s.mem val mytid newitem = .error e) : NotState e := by
  rintro p rfl
  rcases bind_error.mp h with h | ⟨mem, hm, h⟩
  · cases readTss_error h
  · rw [readTss_ok] at hm
    split at h
    · split at h
      · split at h <;> cases h
      · rename_i st hst
        obtain ⟨d, hd, -⟩ := hi.points val st ((blockOf_of_live hm).trans hst)
        rw [Heap.update_run ⟨d, hd⟩] at h
        cases h
    · cases h

theorem Balanced.begin_fails (hi : Balanced s) {e : TssFault}
    (h : destroyBegin s.mem val = .error e) : NotState e := by
  rintro p rfl
  rcases bind_error.mp h with h | ⟨mem, hm, h⟩
  · cases readTss_error h
  · rw [readTss_ok] at hm
    split at h
    · cases sweepNext_error h
    · rename_i st hst
      obtain ⟨d, hd, -⟩ := hi.points val st ((blockOf_of_live hm).trans hst)
      rw [Heap.update_run ⟨d, hd⟩] at h
      cases sweepNext_error h

theorem destroySection_fails' {pc : DestroyPc} {e : TssFault}
    (h : tssDestroySection s t val pc rest = .error e) : NotState e := by
  rintro p rfl
  cases pc with
  | callback item it =>
    rcases bind_error.mp h with h | ⟨mem, -, h⟩
    · cases readTss_error h
    · cases h
  | calling item it =>
    rcases bind_error.mp h with h | ⟨r, -, h⟩
    · rcases bind_error.mp h with h | ⟨mem, -, h⟩
      · cases readTss_error h
      · cases sweepNext_error h
    · cases h
  | free =>
    rcases bind_error.mp h with h | ⟨r, -, h⟩
    · cases Heap.free_error h
    · cases h

theorem Balanced.init_fails (hi : Balanced s) {env : TssEnv} {pc : InitPc} {e : TssFault}
    (h : threadInitSection env s t val pc rest = .error e) : NotState e := by
  rintro p rfl
  cases pc with
  | create => cases h
  | insert mytid newitem =>
    rcases bind_error.mp h with h | ⟨r, -, h⟩
    · exact hi.insert_fails h p rfl
    · cases h
  | register =>
    rcases bind_error.mp h with h | ⟨r, -, h⟩
    · rcases bind_error.mp h with h | ⟨mem, -, h⟩
      · cases readTss_error h
      · split at h <;> cases h
    · cases h
  | discard =>
    rcases bind_error.mp h with h | ⟨mem, -, h⟩
    · cases readTss_error h
    · cases h
  | discarding => cases h

/-- No step reaches a `deinit_state` that is not there. -/
theorem Balanced.step_fails (hi : Balanced s) {e : TssFault} (h : tssStep s act = .error e) :
    NotState e := by
  have looked : ∀ {t val} {f : Option Value × Key × TssMem → Except TssFault TssState},
      (tssLookup s.mem t val >>= f) = .error e → (∀ r, ∃ s', f r = .ok s') → NotState e := by
    rintro t val f h hf p rfl
    rcases bind_error.mp h with h | ⟨r, -, h⟩
    · cases tssLookup_error h
    · obtain ⟨s', hs'⟩ := hf r
      rw [hs'] at h
      cases h
  cases act with
  | create t calloc => cases calloc <;> cases h
  | threadInit t val =>
    refine looked h fun r => ?_
    obtain ⟨ret, mytid, mem⟩ := r
    cases ret <;> exact ⟨_, rfl⟩
  | get t val => exact looked h fun r => ⟨_, rfl⟩
  | destroy t val =>
    rcases bind_error.mp h with h | ⟨r, -, h⟩
    · exact hi.begin_fails h
    · cases h
  | created t r =>
    simp only [tssStep] at h
    split at h
    · split at h <;> cases h
    · rintro p rfl
      cases h
  | advance t env =>
    simp only [tssStep] at h
    split at h
    · exact hi.init_fails h
    · rename_i htop
      obtain ⟨s', hs'⟩ := hi.deinit_runs t (s.others t)
        (List.mem_of_find?_eq_some htop) rfl
      rw [hs'] at h
      cases h
    · exact destroySection_fails' h
    · rintro p rfl
      cases h
  | exit t =>
    simp only [tssStep] at h
    rintro p rfl
    split at h <;> cases h
  | runAtexit t =>
    simp only [tssStep] at h
    rintro p rfl
    split at h
    · split at h <;> cases h
    · cases h

/-- A section of a `deinit` that is due can be taken. -/
theorem Balanced.deinit_fails (hi : Balanced s) (hd : s.deinits act = true) {e : TssFault}
    (h : tssStep s act = .error e) : e = .disabled := by
  cases act with
  | advance t env =>
    simp only [TssState.deinits] at hd
    simp only [tssStep] at h
    split at hd
    · rename_i htop
      rw [htop] at h
      obtain ⟨s', hs'⟩ := hi.deinit_runs t (s.others t)
        (List.mem_of_find?_eq_some htop) rfl
      cases hs'.symm.trans h
    · cases hd
  | runAtexit t =>
    simp only [tssStep] at h
    split at h
    · split at h
      · cases h
      · exact (throw_error.mp h).symm
    · exact (throw_error.mp h).symm
  | _ => cases hd

/-- The last registration frees the `deinit_state`. -/
theorem Balanced.freed (hi : Balanced s) (hok : DestroyAlone s act) (hs : tssStep s act = .ok s')
    {d : DeinitState} (hd : s.mem.states st = some d) (hn : s'.mem.states st = none) :
    s.deinits act = true ∧ s.registrations st act.tid = 1 ∧
      ∀ u, u ≠ act.tid → s.registrations st u = 0 := by
  obtain ⟨before, after, rest, hm⟩ := tssStep_moves hs
  have hb := hm.turn.blocks (hi.fresh _ (Nat.le_refl _)) hok.registers
  have hgone := (hi.step hok hs).gone st hn
  have hflow := hi.flow hok hm hb st
  have still : s'.mem.states = s.mem.states → False := fun h => by
    rw [h, hd] at hn
    cases hn
  have other : ∀ {p : Addr} {d : DeinitState}, s'.mem.states = s.mem.states.set p (some d) →
      False := fun {p d} h => by
    rw [h, Heap.set_apply] at hn
    split at hn
    · cases hn
    · rw [hd] at hn
      cases hn
  cases hb with
  | quiet hs | registers _ _ _ hs | runs _ _ _ _ _ hs | frees _ _ _ hs => exact (still hs).elim
  | first _ _ _ _ _ _ hs | joins _ _ _ _ _ _ _ _ _ hs | detaches _ _ _ _ _ _ _ _ _ hs =>
    exact (other hs).elim
  | releases st₀ pc d₀ hbefore hafter hpc hd₀ hs _ ha =>
    obtain rfl : st = st₀ := by
      refine by_contra fun hne => ?_
      rw [hs, Heap.set_other _ _ hne, hd] at hn
      cases hn
    have hreg : ∀ u, s.registrations st u = if act.tid = u then 1 else 0 := fun u => by
      have h := hflow u
      rw [hbefore, hafter, share_none, share_deinit, if_pos rfl, ha, hgone u] at h
      split at h <;> simp_all
    refine ⟨?_, (hreg _).trans (if_pos rfl), fun u hu => (hreg u).trans (if_neg (Ne.symm hu))⟩
    subst hbefore
    have htop := hm.beside.1
    have hturn := hm.turn
    cases act with
    | advance t env =>
      simp only [TssAction.tid] at htop
      simp only [TssState.deinits, htop]
    | _ => cases hturn

/-- Every `deinit_state` counts the registrations on it, however many threads initialise
themselves, exit and come back, and whether `destroy` runs before they exit or after. It is
freed once, by the `deinit` that takes the last registration away, and nothing reaches it
afterwards. -/
theorem deinit_states_balanced {ids : Tid → UInt64} {s : TssState}
    (hr : Run tssStep DestroyAlone (.initial ids) s) :
    (∀ st d, s.mem.states st = some d → 0 < d.count ∧ Tally (s.registrations st) d.count) ∧
    (∀ st, st < s.mem.nextState →
      (s.mem.states st = none ↔ ∀ t, s.registrations st t = 0)) ∧
    (∀ act s' st, DestroyAlone s act → tssStep s act = .ok s' → s.mem.states st ≠ none →
      s'.mem.states st = none → s.deinits act = true ∧ s.registrations st act.tid = 1 ∧
        ∀ u, u ≠ act.tid → s.registrations st u = 0) ∧
    (∀ st s', st < s.mem.nextState → s.mem.states st = none → Run tssStep DestroyAlone s s' →
      s'.mem.states st = none) ∧
    (∀ act p, tssStep s act ≠ .error (.state p)) ∧
    (∀ val st, s.mem.blockOf val = some st → s.mem.states st ≠ none) ∧
    (∀ act e, s.deinits act = true → tssStep s act = .error e → e = .disabled) := by
  have hi : Balanced s := hr.invariant (.initial ids) fun _ _ _ hi hok hs => hi.step hok hs
  refine ⟨hi.counted, fun st hst => ⟨hi.gone st, fun hz => ?_⟩, ?_, ?_, ?_, ?_, ?_⟩
  · refine Option.eq_none_iff_forall_ne_some.mpr fun d hd => ?_
    obtain ⟨hpos, htally⟩ := hi.counted st d hd
    exact absurd (htally.zero hz) (Nat.ne_of_gt hpos)
  · intro act s' st hok hs hd hn
    obtain ⟨d, hd⟩ := Option.ne_none_iff_exists'.mp hd
    exact hi.freed hok hs hd hn
  · intro st s' hst hn hr'
    have hgone := hr'.invariant
      (I := fun s => Balanced s ∧ s.mem.states st = none ∧ st < s.mem.nextState)
      ⟨hi, hn, hst⟩ fun s act s' h hok hs => by
        obtain ⟨hi, hn, hst⟩ := h
        obtain ⟨before, after, rest, hm⟩ := tssStep_moves hs
        have hb := hm.turn.blocks (hi.fresh _ (Nat.le_refl _)) hok.registers
        exact ⟨hi.step hok hs, hb.none_kept hn hst⟩
    exact hgone.2.1
  · exact fun act p h => hi.step_fails h p rfl
  · intro val st h hn
    obtain ⟨d, hd, -⟩ := hi.points val st h
    rw [hn] at hd
    cases hd
  · exact fun act e hd h => hi.deinit_fails hd h

/-- Threads 0 and 1 come and go, then threads 2 and 3 register on a new `deinit_state`; the
instance is destroyed, and thread 2 exits after that. -/
def rearmedActions : List TssAction :=
  [.create 0 true, .threadInit 0 0, .created 0 .item, .advance 0 {}, .advance 0 {},
    .threadInit 1 0, .created 1 .item, .advance 1 {}, .advance 1 {},
    .exit 0, .runAtexit 0, .advance 0 {}, .exit 1, .runAtexit 1, .advance 1 {}, .advance 0 {},
    .advance 1 {}, .advance 0 {}, .advance 1 {}, .advance 0 {}, .advance 1 {},
    .threadInit 2 0, .created 2 .item, .advance 2 {}, .advance 2 {},
    .threadInit 3 0, .created 3 .item, .advance 3 {}, .advance 3 {},
    .destroy 4 0, .advance 4 {}, .advance 4 {}, .advance 4 {}, .advance 4 {}, .advance 4 {},
    .exit 2, .runAtexit 2, .advance 2 {}, .advance 2 {}]

theorem deinit_states_balanced_rearmed :
    ∃ s, Run tssStep DestroyAlone (.initial Nat.toUInt64) s ∧ s.mem.instances 0 = none ∧
      (∀ t, s.registrations 0 t = 0) ∧ s.mem.states 1 = some ⟨1, none⟩ ∧
      Tally (s.registrations 1) 1 ∧ s.registrations 1 3 = 1 := by
  obtain ⟨s, hr, hq⟩ := run_of_ends (f := tssStep) (r := DestroyAlone)
    (s := .initial Nat.toUInt64)
    (c := fun s act => act.succeeds && (s.acts.isEmpty || !act.enters))
    (q := fun s => (s.mem.instances 0).isNone && (s.mem.states 0).isNone &&
      s.mem.nextState == 2 && s.mem.states 1 == some ⟨1, none⟩ && s.registrations 1 3 == 1)
    (l := rearmedActions)
    (fun s act hc => by
      simp only [Bool.and_eq_true, Bool.or_eq_true, List.isEmpty_iff, Bool.not_eq_true'] at hc
      obtain ⟨hsuc, hidle⟩ := hc
      have alone : act.enters = true → ∀ a, a ∉ s.acts := fun he a ha => by
        rw [hidle.resolve_right (by simp [he])] at ha
        cases ha
      refine ⟨?_, ?_, ?_⟩
      · rintro t env rfl
        simp only [TssAction.succeeds, Bool.and_eq_true] at hsuc
        exact hsuc.2
      · rintro t i rfl a ha
        exact absurd ha (alone rfl a)
      · rintro t i rfl a ha
        exact absurd ha (alone rfl a))
    (by decide)
  simp only [Bool.and_eq_true, Option.isNone_iff_eq_none, beq_iff_eq] at hq
  obtain ⟨⟨⟨⟨hgone, h0⟩, hn⟩, h1⟩, h3⟩ := hq
  obtain ⟨hcount, hfreed, -⟩ := deinit_states_balanced hr
  exact ⟨s, hr, hgone, (hfreed 0 (by rw [hn]; decide)).mp h0, h1, (hcount 1 _ h1).2, h3⟩

end Wg14Signals
