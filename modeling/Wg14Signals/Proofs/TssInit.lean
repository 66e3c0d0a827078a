import Wg14Signals.Proofs.TssKeys
import Wg14Signals.TssHistory
import Wg14Signals.TssInit

namespace Wg14Signals
open Lib

variable {env : TssEnv} {c : CreateOutcome} {m m' : TssMem} {t : Tid} {val : Addr} {mem : Tss}
  {mytid : Key} {newitem : Value} {state : Addr}

theorem myCurrentThreadId_again (h : (m.drawGeneration t).generationCached t ≠ 0) :
    (m.drawGeneration t).myCurrentThreadId t = m.myCurrentThreadId t := by
  simp only [TssMem.myCurrentThreadId, drawGeneration_of_drawn h]

/-- Once the thread has its generation, a call does not tell whether it had it before. -/
theorem threadInit_again (h : (m.drawGeneration t).generationCached t ≠ 0) :
    tssAsyncSignalSafeThreadInit env c (m.drawGeneration t) t val =
      tssAsyncSignalSafeThreadInit env c m t val := by
  simp only [tssAsyncSignalSafeThreadInit, tssLookup, myCurrentThreadId_again h]

theorem setTss_self (hm : m.instances val = some mem) : m.setTss val mem = m := by
  have hs : m.instances.set val (some mem) = m.instances := by
    funext i
    by_cases hi : i = val
    · rw [hi, Heap.set_self, hm]
    · exact Heap.set_other _ _ hi
  simp [TssMem.setTss, hs]

/-- The insertion fails, or the allocation of the first `deinit_state` does. -/
theorem insert_undone (hm : m.instances val = some mem) (hk : mem.map.get mytid = none)
    (hf : env.insert = false ∨ mem.state = none ∧ env.calloc = false) :
    threadInitInsert env m val mytid newitem = .ok (false, m) := by
  simp only [threadInitInsert, readTss_ok.mpr hm, bind, Except.bind]
  cases hi : env.insert with
  | false => rfl
  | true =>
    obtain ⟨hs, hc⟩ := hf.resolve_left (by simp [hi])
    simp only [hs, hc, reduceIte, Bool.false_eq_true, FinMap.erase_insert hk]
    rw [← hs]
    exact congrArg (fun m => Except.ok (false, m)) (setTss_self hm)

/-- What is inserted is in the map. -/
theorem insert_kept (mytid : Key) (newitem : Value) (hm : m.instances val = some mem)
    (hs : ∀ state, mem.state = some state → (m.states state).isSome)
    (hi : env.insert = true) (hc : mem.state = none → env.calloc = true) :
    ∃ m' mem', threadInitInsert env m val mytid newitem = .ok (true, m') ∧
      m'.instances val = some mem' ∧ mem'.map = mem.map.insert mytid newitem env.pos := by
  simp only [threadInitInsert, readTss_ok.mpr hm, bind, Except.bind, hi, reduceIte]
  cases hst : mem.state with
  | none =>
    simp only [hc hst, reduceIte]
    exact ⟨_, _, rfl, Heap.set_self _ _ _, rfl⟩
  | some state =>
    simp only [Heap.update_run (Option.isSome_iff_exists.mp (hs state hst)), Except.bind]
    exact ⟨_, _, rfl, Heap.set_self _ _ _, rfl⟩

theorem threadInit_failed (hm : m.instances val = some mem) (hk : mem.map.get (m.key t) = none)
    (hr : c.ret ≠ 0) :
    tssAsyncSignalSafeThreadInit env c m t val = .ok (c.ret, [], m.drawGeneration t) := by
  have hlook := lookup_of_live (Option.isSome_iff_exists.mpr ⟨mem, hm⟩) t
  rw [cell_of_live hm, hk] at hlook
  simp only [tssAsyncSignalSafeThreadInit, hlook, bind, Except.bind, if_pos hr]
  rfl

theorem threadInit_null (hm : m.instances val = some mem) (hk : mem.map.get (m.key t) = none)
    (hr : c.ret = 0) (hn : c.newitem = none) :
    tssAsyncSignalSafeThreadInit env c m t val = .ok (-1, [], m.drawGeneration t) := by
  have hlook := lookup_of_live (Option.isSome_iff_exists.mpr ⟨mem, hm⟩) t
  rw [cell_of_live hm, hk] at hlook
  simp only [tssAsyncSignalSafeThreadInit, hlook, bind, Except.bind, if_neg (not_not.mpr hr), hn]
  rfl

theorem threadInit_keeps (hm : m.instances val = some mem) (hk : mem.map.get (m.key t) = none)
    (hr : c.ret = 0) (hn : c.newitem = some newitem) :
    tssAsyncSignalSafeThreadInit env c m t val =
      threadInitKeep env (m.drawGeneration t) t val (m.key t) newitem := by
  have hlook := lookup_of_live (Option.isSome_iff_exists.mpr ⟨mem, hm⟩) t
  rw [cell_of_live hm, hk] at hlook
  simp only [tssAsyncSignalSafeThreadInit, hlook, bind, Except.bind, if_neg (not_not.mpr hr), hn]

/-- What fails, if it is none of the first two callbacks' fault. -/
theorem failure_of_item (hr : c.ret = 0) (hn : c.newitem = some newitem) :
    env.failure c mem =
      if env.insert = false then some .insert
      else if mem.state = none ∧ env.calloc = false then some .calloc
      else if env.atexit = false then some .atexit
      else none := by
  simp [TssEnv.failure, hr, hn]

/-- Where the call fails before it has registered the thread, nothing is kept. -/
theorem threadInit_fails (hm : m.instances val = some mem) (hk : mem.map.get (m.key t) = none)
    (hf : env.failure c mem ≠ none) (ha : env.failure c mem ≠ some .atexit) :
    ∃ res, res ≠ 0 ∧ tssAsyncSignalSafeThreadInit env c m t val =
      .ok (res, c.item.toList, m.drawGeneration t) := by
  by_cases hr : c.ret = 0
  · rw [CreateOutcome.item, if_pos hr]
    cases hn : c.newitem with
    | none => exact ⟨-1, by decide, threadInit_null hm hk hr hn⟩
    | some newitem =>
      have hundo : env.insert = false ∨ mem.state = none ∧ env.calloc = false := by
        rw [failure_of_item hr hn] at hf ha
        by_contra h
        obtain ⟨hi, hc⟩ := not_or.mp h
        rw [if_neg hi, if_neg hc] at hf ha
        split at ha
        · exact ha rfl
        · exact hf (if_neg ‹_›)
      have hd : (m.drawGeneration t).instances val = some mem := by
        rw [instances_drawGeneration, hm]
      refine ⟨-1, by decide, (threadInit_keeps hm hk hr hn).trans ?_⟩
      simp only [threadInitKeep, insert_undone hd hk hundo]
      rfl
  · rw [CreateOutcome.item, if_neg hr]
    exact ⟨c.ret, hr, threadInit_failed hm hk hr⟩

/-- Where only `thread_atexit` fails, the item is in the map. -/
theorem threadInit_unregistered (hm : m.instances val = some mem)
    (hs : ∀ state, mem.state = some state → (m.states state).isSome)
    (hk : mem.map.get (m.key t) = none) (ha : env.failure c mem = some .atexit) :
    ∃ res destroyed m', tssAsyncSignalSafeThreadInit env c m t val = .ok (res, destroyed, m') ∧
      m'.instances ≠ m.instances := by
  obtain ⟨hr, hn, hi, hc, hx⟩ : c.ret = 0 ∧ c.newitem ≠ none ∧ env.insert = true ∧
      (mem.state = none → env.calloc = true) ∧ env.atexit = false := by
    unfold TssEnv.failure at ha
    grind
  obtain ⟨newitem, hn⟩ := Option.ne_none_iff_exists'.mp hn
  have hd : (m.drawGeneration t).instances val = some mem := by
    rw [instances_drawGeneration, hm]
  obtain ⟨m', mem', he, hm', hmap⟩ := insert_kept (m.key t) newitem hd
    (by rwa [states_drawGeneration]) hi hc
  refine ⟨-1, [], m', (threadInit_keeps hm hk hr hn).trans ?_, fun h => ?_⟩
  · simp only [threadInitKeep, he, threadInitRegister, readTss_ok.mpr hm', hx, bind, Except.bind,
      reduceIte, Bool.false_eq_true]
    rfl
  · rw [h, hm, Option.some.injEq] at hm'
    rw [hm', hmap, FinMap.get_insert_self] at hk
    cases hk

/-- A call whose callback fails draws the thread's generation and no more. -/
theorem threadInit_draws (env : TssEnv) (hm : m.instances val = some mem) (hr : c.ret ≠ 0) :
    ∃ res, tssAsyncSignalSafeThreadInit env c m t val = .ok (res, [], m.drawGeneration t) := by
  cases hk : mem.map.get (m.key t) with
  | none => exact ⟨c.ret, threadInit_failed hm hk hr⟩
  | some v =>
    have hlook := lookup_of_live (Option.isSome_iff_exists.mpr ⟨mem, hm⟩) t
    rw [cell_of_live hm, hk] at hlook
    refine ⟨0, ?_⟩
    simp only [tssAsyncSignalSafeThreadInit, hlook]
    rfl

/-- A thread left without a generation, the counter having come round, draws another. -/
theorem draw_again (h : (m.drawGeneration t).generationCached t = 0) :
    (m.drawGeneration t).drawGeneration t ≠ m.drawGeneration t := by
  have h0 : m.generationCached t = 0 := by
    rw [generationCached_draw] at h
    split at h
    · exact (‹t = t ∧ _›).2
    · exact h
  have hc : (m.drawGeneration t).generationCounter = 0 := by
    rw [generationCached_draw, if_pos ⟨rfl, h0⟩] at h
    simp only [TssMem.drawGeneration, h0, reduceIte]
    rw [UInt64.add_comm, h]
  intro he
  have hg := congrFun (congrArg TssMem.generationCached he) t
  rw [generationCached_draw, if_pos ⟨rfl, h⟩, hc, h] at hg
  cases hg

/-- A failing `thread_init` comes back. It has left everything as it was exactly if what
failed is not `thread_atexit`, and the thread has a generation by now. -/
theorem failed_init_undone_iff (env : TssEnv) (c : CreateOutcome) {m : TssMem} {t : Tid}
    {val : Addr} {mem : Tss} (hm : m.instances val = some mem)
    (hs : ∀ state, mem.state = some state → (m.states state).isSome)
    (hk : mem.map.get (m.key t) = none) (hf : env.failure c mem ≠ none) :
    ∃ res destroyed m', tssAsyncSignalSafeThreadInit env c m t val = .ok (res, destroyed, m') ∧
      (InitUndone m t val c res destroyed m' ↔
        env.failure c mem ≠ some .atexit ∧ (m.drawGeneration t).generationCached t ≠ 0) := by
  by_cases ha : env.failure c mem = some .atexit
  · obtain ⟨res, destroyed, m', he, hne⟩ := threadInit_unregistered hm hs hk ha
    exact ⟨res, destroyed, m', he, iff_of_false (fun h => hne h.instances) fun h => h.1 ha⟩
  · obtain ⟨res, hres, he⟩ := threadInit_fails hm hk hf ha
    refine ⟨res, _, _, he, fun h => ⟨ha, fun h0 => draw_again h0 ?_⟩, fun h => ?_⟩
    · have hc : (CreateOutcome.mk 1 none).ret ≠ 0 := Int.one_ne_zero
      have hd : (m.drawGeneration t).instances val = some mem := by
        rw [instances_drawGeneration, hm]
      obtain ⟨r, hr⟩ := threadInit_draws (t := t) env hm hc
      obtain ⟨r', hr'⟩ := threadInit_draws (t := t) env hd hc
      have hsame := h.again env ⟨1, none⟩
      rw [hr, hr'] at hsame
      exact (Prod.mk.inj (Prod.mk.inj (Except.ok.inj hsame)).2).2
    · refine ⟨hres, instances_drawGeneration m t, states_drawGeneration m t, rfl, ?_,
        fun _ _ => threadInit_again h.2⟩
      rw [get_of_live (by simp [hm]), key_draw_self h.2, cell_congr (instances_drawGeneration m t),
        cell_of_live hm, hk]

/-- One instance that no thread has used yet. -/
def freshInstance : TssMem := (tssCreate (.initial fun _ => 7)).2

/-- The control block cannot be allocated: the item is destroyed, the thread has none. -/
theorem failed_init_undone_iff_calloc :
    ∃ res destroyed m', tssAsyncSignalSafeThreadInit { calloc := false } ⟨0, some ⟨3, 1, 0, 5⟩⟩
        freshInstance 1 0 = .ok (res, destroyed, m') ∧
      (InitUndone freshInstance 1 0 ⟨0, some ⟨3, 1, 0, 5⟩⟩ res destroyed m' ↔
        TssEnv.failure { calloc := false } ⟨0, some ⟨3, 1, 0, 5⟩⟩ ⟨none, .empty⟩ ≠ some .atexit ∧
          (freshInstance.drawGeneration 1).generationCached 1 ≠ 0) :=
  failed_init_undone_iff { calloc := false } ⟨0, some ⟨3, 1, 0, 5⟩⟩
    (show freshInstance.instances 0 = some ⟨none, .empty⟩ from rfl) (fun _ h => by cases h) rfl
    (by decide)

/-- `thread_atexit` fails: the call reports it, and the thread keeps the item, which nobody
has destroyed. -/
theorem unregistered_item_stays :
    ∃ res destroyed m', tssAsyncSignalSafeThreadInit { atexit := false } ⟨0, some ⟨3, 1, 0, 5⟩⟩
        freshInstance 1 0 = .ok (res, destroyed, m') ∧
      res ≠ 0 ∧ destroyed = [] ∧ tssAsyncSignalSafeGet m' 1 0 = .ok (some ⟨3, 1, 0, 5⟩) ∧
      m'.atexitItems 1 = [] ∧
      ¬ InitUndone freshInstance 1 0 ⟨0, some ⟨3, 1, 0, 5⟩⟩ res destroyed m' :=
  ⟨-1, [], _, rfl, by decide, rfl, rfl, rfl, fun h => absurd h.destroyed (by decide)⟩

theorem top_of_cons {s : TssState} {call : TssCall} {rest : List TssAct}
    (h : s.acts = ⟨t, call⟩ :: rest) : s.top t = some ⟨t, call⟩ ∧ s.others t = rest := by
  simp [TssState.top, TssState.others, h]

/-- The innermost call goes on, and out. -/
theorem keep_runs {s : TssState} {rest : List TssAct} {res : Int} {destroyed : List Value}
    (hacts : s.acts = ⟨t, .threadInit val (.insert mytid newitem)⟩ :: rest)
    (h : threadInitKeep env s.mem t val mytid newitem = .ok (res, destroyed, m')) :
    ∃ s', Run tssStep (fun _ act => act.tid = t) s s' ∧ s'.mem = m' ∧ s'.acts = rest ∧
      ∀ v, s'.begun v = s.begun v + destroyed.count v := by
  obtain ⟨htop, hrest⟩ := top_of_cons hacts
  obtain ⟨⟨kept, m⟩, hi, h⟩ := bind_ok.mp h
  let s₁ : InitPc → TssState := fun pc => { s with
    mem := m
    acts := ⟨t, .threadInit val pc⟩ :: rest }
  have hstep : tssStep s (.advance t env) =
      .ok (s₁ (if kept then .register else .discard newitem)) := by
    simp only [tssStep, htop, hrest, threadInitSection, hi]
    rfl
  have hrun : Run tssStep (fun _ act => act.tid = t) s _ := .tail _ (.refl s) rfl hstep
  cases kept with
  | true =>
    obtain ⟨⟨r, m₂⟩, hreg, h⟩ := bind_ok.mp h
    obtain ⟨-, rfl, rfl⟩ : r = res ∧ [] = destroyed ∧ m₂ = m' := by simpa using h
    obtain ⟨htop, hrest⟩ := top_of_cons (s := s₁ .register) rfl
    have hnext : tssStep (s₁ .register) (.advance t env) = .ok { s with mem := m₂, acts := rest } := by
      simp only [tssStep, htop, hrest, threadInitSection]
      exact bind_ok.mpr ⟨_, hreg, rfl⟩
    exact ⟨_, .tail _ hrun rfl hnext, rfl, rfl, by simp⟩
  | false =>
    obtain ⟨-, rfl, rfl⟩ : -1 = res ∧ [newitem] = destroyed ∧ m = m' := by simpa using h
    obtain ⟨htop, hrest⟩ := top_of_cons (s := s₁ (.discard newitem)) rfl
    obtain ⟨mem, hmem⟩ : ∃ mem, m.instances val = some mem := by
      obtain ⟨mem, hmem, -⟩ := bind_ok.mp hi
      rw [← Option.isSome_iff_exists, (threadInitInsert_keeps hi).live, readTss_ok.mp hmem]
      rfl
    let s₂ : TssState := { s with
      mem := m
      begun := s.begin newitem
      acts := ⟨t, .threadInit val (.discarding newitem)⟩ :: rest }
    have hnext : tssStep (s₁ (.discard newitem)) (.advance t env) = .ok s₂ := by
      simp only [tssStep, htop, hrest, threadInitSection]
      exact bind_ok.mpr ⟨_, readTss_ok.mpr hmem, rfl⟩
    obtain ⟨htop, hrest⟩ := top_of_cons (s := s₂) rfl
    have hlast : tssStep s₂ (.advance t env) = .ok { s₂ with acts := rest } := by
      simp only [tssStep, htop, hrest, threadInitSection]
      rfl
    refine ⟨_, .tail _ (.tail _ hrun rfl hnext) rfl hlast, rfl, rfl, fun v => ?_⟩
    by_cases hv : v = newitem
    · simp [s₂, TssState.begin, hv]
    · simp [s₂, TssState.begin, hv, Ne.symm hv]

/-- The call is what the thread does when it goes through the sections of `thread_init` one
after the other, other calls being in progress or not. -/
theorem threadInit_runs {s : TssState} {res : Int} {destroyed : List Value}
    (hn : ∀ v, c.newitem = some v → v = ⟨s.nextValue, t, val, s.mem.key t⟩)
    (h : tssAsyncSignalSafeThreadInit env c s.mem t val = .ok (res, destroyed, m')) :
    ∃ s', Run tssStep (fun _ act => act.tid = t) s s' ∧ s'.mem = m' ∧ s'.acts = s.acts ∧
      ∀ v, s'.begun v = s.begun v + destroyed.count v := by
  obtain ⟨⟨ret, mytid, m⟩, hl, h⟩ := bind_ok.mp h
  have hkey : mytid = s.mem.key t := (tssLookup_ok hl).1
  cases ret with
  | some v =>
    obtain ⟨rfl, rfl, rfl⟩ : 0 = res ∧ [] = destroyed ∧ m = m' := by simpa using h
    have hstep : tssStep s (.threadInit t val) = .ok { s with mem := m } := by
      simp only [tssStep, hl]
      rfl
    exact ⟨_, .tail _ (.refl s) rfl hstep, rfl, rfl, by simp⟩
  | none =>
    let s₁ : TssState := { s with mem := m, acts := ⟨t, .threadInit val (.create mytid)⟩ :: s.acts }
    have hstep : tssStep s (.threadInit t val) = .ok s₁ := by
      simp only [tssStep, hl]
      rfl
    have hrun : Run tssStep (fun _ act => act.tid = t) s s₁ := .tail _ (.refl s) rfl hstep
    obtain ⟨htop, hrest⟩ := top_of_cons (s := s₁) rfl
    -- a callback without an item ends the call
    have quits : ∀ r, (r = CreateReturn.failed ∨ r = .null) → [] = destroyed → m = m' →
        ∃ s', Run tssStep (fun _ act => act.tid = t) s s' ∧ s'.mem = m' ∧ s'.acts = s.acts ∧
          ∀ v, s'.begun v = s.begun v + destroyed.count v := by
      rintro r hr rfl rfl
      have hnext : tssStep s₁ (.created t r) = .ok { s₁ with acts := s.acts } := by
        rcases hr with rfl | rfl <;> simp only [tssStep, htop, hrest] <;> rfl
      exact ⟨_, .tail _ hrun rfl hnext, rfl, rfl, by simp [s₁]⟩
    by_cases hr : c.ret = 0
    · simp only [hr, ne_eq, not_true_eq_false, reduceIte] at h
      cases hc : c.newitem with
      | none =>
        rw [hc] at h
        obtain ⟨-, hd, hm⟩ : -1 = res ∧ [] = destroyed ∧ m = m' := by simpa using h
        exact quits .null (.inr rfl) hd hm
      | some newitem =>
        rw [hc] at h
        obtain rfl := hkey ▸ hn newitem hc
        let s₂ : TssState := { s₁ with
          nextValue := s.nextValue + 1
          acts := ⟨t, .threadInit val (.insert mytid ⟨s.nextValue, t, val, mytid⟩)⟩ :: s.acts }
        have hnext : tssStep s₁ (.created t .item) = .ok s₂ := by
          simp only [tssStep, htop, hrest]
          rfl
        obtain ⟨s', hlast, hend⟩ := keep_runs (s := s₂) rfl h
        exact ⟨s', (Run.tail _ hrun rfl hnext).trans hlast, hend⟩
    · simp only [hr, ne_eq, not_false_eq_true, reduceIte] at h
      obtain ⟨-, hd, hm⟩ : c.ret = res ∧ [] = destroyed ∧ m = m' := by simpa using h
      exact quits .failed (.inl rfl) hd hm

end Wg14Signals
