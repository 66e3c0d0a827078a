import Wg14Signals.TssMachine

namespace Wg14Signals
open Lib

/-- What the map of an instance holds under a key. -/
def TssMem.cell (m : TssMem) (val : Addr) (k : Key) : Option Value :=
  match m.instances val with
  | some mem => mem.map.get k
  | none => none

variable {m m' : TssMem} {t : Tid} {val i : Addr} {k mytid : Key} {v w : Value} {mem : Tss}
  {state : Addr}

theorem cell_of_live (h : m.instances i = some mem) : m.cell i k = mem.map.get k := by
  simp [TssMem.cell, h]

theorem cell_congr (h : m'.instances = m.instances) : m'.cell = m.cell := by
  funext i k
  simp [TssMem.cell, h]

/-- Writing an instance changes its own entries only. -/
theorem cell_setTss (m : TssMem) (val i : Addr) (mem : Tss) (k : Key) :
    (m.setTss val mem).cell i k = if i = val then mem.map.get k else m.cell i k := by
  by_cases h : i = val <;> simp [TssMem.cell, h]

@[simp] theorem instances_drawGeneration (m : TssMem) (t : Tid) :
    (m.drawGeneration t).instances = m.instances := by
  unfold TssMem.drawGeneration
  split <;> rfl

@[simp] theorem states_drawGeneration (m : TssMem) (t : Tid) :
    (m.drawGeneration t).states = m.states := by
  unfold TssMem.drawGeneration
  split <;> rfl

@[simp] theorem myCurrentThreadId_mem (m : TssMem) (t : Tid) :
    (m.myCurrentThreadId t).2 = m.drawGeneration t := rfl

/-- Two memories give every thread the same key. -/
structure SameIds (m m' : TssMem) : Prop where
  ids : m'.currentThreadId = m.currentThreadId
  counter : m'.generationCounter = m.generationCounter
  cached : m'.generationCached = m.generationCached

/-- What a section on one instance leaves alone: everybody's key, and all other instances.
Its own instance stays. -/
structure TssKeeps (m m' : TssMem) (val : Addr) : Prop extends SameIds m m' where
  nextInstance : m'.nextInstance = m.nextInstance
  others : ∀ i, i ≠ val → m'.instances i = m.instances i
  live : (m'.instances val).isSome = (m.instances val).isSome

theorem TssKeeps.same (h : m'.instances = m.instances) (hs : SameIds m m')
    (hn : m'.nextInstance = m.nextInstance) : TssKeeps m m' val :=
  ⟨hs, hn, fun i _ => congrFun h i, by rw [h]⟩

/-- Writing an instance that is there. -/
theorem TssKeeps.write (hm : m.instances val = some mem) (mem' : Tss)
    (h : m'.instances = m.instances.set val (some mem')) (hs : SameIds m m')
    (hn : m'.nextInstance = m.nextInstance) : TssKeeps m m' val :=
  ⟨hs, hn, fun i hi => by rw [h, Heap.set_other _ _ hi], by simp [h, hm]⟩

theorem TssKeeps.trans {m'' : TssMem} (h : TssKeeps m m' val) (h' : TssKeeps m' m'' val) :
    TssKeeps m m'' val where
  ids := h'.ids.trans h.ids
  counter := h'.counter.trans h.counter
  cached := h'.cached.trans h.cached
  nextInstance := h'.nextInstance.trans h.nextInstance
  others i hi := (h'.others i hi).trans (h.others i hi)
  live := h'.live.trans h.live

theorem readTss_ok : m.readTss val = .ok mem ↔ m.instances val = some mem := by
  simp [TssMem.readTss, Heap.read_ok]

/-- A lookup answers with what the map holds under the thread's key. -/
theorem tssLookup_ok {ret : Option Value} (h : tssLookup m t val = .ok (ret, mytid, m')) :
    mytid = (m.myCurrentThreadId t).1 ∧ ret = m.cell val mytid ∧ m' = m.drawGeneration t := by
  simp only [tssLookup, bind_ok, readTss_ok, pure_ok, Prod.mk.injEq] at h
  obtain ⟨mem, hm, rfl, rfl, rfl⟩ := h
  rw [myCurrentThreadId_mem, instances_drawGeneration] at hm
  exact ⟨rfl, (cell_of_live hm).symm, rfl⟩

theorem tssAsyncSignalSafeGet_ok {ret : Option Value}
    (h : tssAsyncSignalSafeGet m t val = .ok ret) :
    ret = m.cell val (m.myCurrentThreadId t).1 := by
  simp only [tssAsyncSignalSafeGet, bind_ok, pure_ok, Prod.exists] at h
  obtain ⟨_, mytid, m', hl, rfl⟩ := h
  obtain ⟨rfl, hr, -⟩ := tssLookup_ok hl
  exact hr

theorem cell_of_tssCreate (h : (tssCreate m).2.cell i k = some v) : m.cell i k = some v := by
  unfold TssMem.cell tssCreate at h
  by_cases hi : i = m.nextInstance
  · simp [hi, FinMap.empty] at h
  · simpa [hi, TssMem.cell] using h

/-- A new instance has no entries, as nothing was there before. -/
theorem cell_tssCreate (hf : m.instances m.nextInstance = none) :
    (tssCreate m).2.cell = m.cell := by
  funext i k
  by_cases hi : i = m.nextInstance
  · simp [TssMem.cell, tssCreate, hi, hf, FinMap.empty]
  · simp [TssMem.cell, tssCreate, hi]

/-- An item that was kept is the thread's entry; all other entries stay. -/
theorem threadInitInsert_kept {env : TssEnv} {newitem : Value}
    (h : threadInitInsert env m val mytid newitem = .ok (true, m')) (i : Addr) (k : Key) :
    m'.cell i k = if i = val ∧ k = mytid then some newitem else m.cell i k := by
  simp only [threadInitInsert, bind_ok, readTss_ok] at h
  obtain ⟨mem, hm, h⟩ := h
  have insert : ∀ mem' : Tss, mem'.map = mem.map.insert mytid newitem env.pos →
      (m.setTss val mem').cell i k = if i = val ∧ k = mytid then some newitem else m.cell i k := by
    intro mem' hmap
    rw [cell_setTss]
    by_cases hi : i = val
    · subst hi
      rw [hmap, cell_of_live hm, FinMap.get_insert]
      simp
    · simp [hi]
  split at h
  · split at h
    · split at h
      · obtain ⟨-, rfl⟩ := Prod.mk.inj (pure_ok.mp h)
        exact insert _ rfl
      · cases (Prod.mk.inj (pure_ok.mp h)).1
    · simp only [bind_ok, pure_ok, Prod.mk.injEq] at h
      obtain ⟨states, -, -, rfl⟩ := h
      exact insert _ rfl
  · cases (Prod.mk.inj (pure_ok.mp h)).1

/-- An item that was not kept is in no map, and at most the thread's old entry is gone. -/
theorem threadInitInsert_rejected {env : TssEnv} {newitem : Value}
    (h : threadInitInsert env m val mytid newitem = .ok (false, m')) (i : Addr) (k : Key) :
    m'.cell i k = m.cell i k ∨ (i = val ∧ k = mytid ∧ m'.cell i k = none) := by
  simp only [threadInitInsert, bind_ok, readTss_ok] at h
  obtain ⟨mem, hm, h⟩ := h
  split at h
  · split at h
    · split at h
      · cases (Prod.mk.inj (pure_ok.mp h)).1
      · obtain ⟨-, rfl⟩ := Prod.mk.inj (pure_ok.mp h)
        rw [cell_setTss]
        split
        · rename_i hi
          subst hi
          by_cases hk : k = mytid
          · exact .inr ⟨rfl, hk, by rw [hk, FinMap.get_erase_self]⟩
          · left
            rw [FinMap.get_erase, if_neg hk, FinMap.get_insert, if_neg hk, cell_of_live hm]
        · exact .inl rfl
    · simp only [bind_ok, pure_ok, Prod.mk.injEq] at h
      obtain ⟨_, -, hk, -⟩ := h
      cases hk
  · obtain ⟨-, rfl⟩ := Prod.mk.inj (pure_ok.mp h)
    exact .inl rfl

theorem threadInitInsert_keeps {env : TssEnv} {newitem : Value} {kept : Bool}
    (h : threadInitInsert env m val mytid newitem = .ok (kept, m')) : TssKeeps m m' val := by
  simp only [threadInitInsert, bind_ok, readTss_ok] at h
  obtain ⟨mem, hm, h⟩ := h
  split at h
  · split at h
    · split at h <;>
      · obtain ⟨-, rfl⟩ := Prod.mk.inj (pure_ok.mp h)
        exact .write hm _ rfl ⟨rfl, rfl, rfl⟩ rfl
    · simp only [bind_ok, pure_ok, Prod.mk.injEq] at h
      obtain ⟨states, -, -, rfl⟩ := h
      exact .write hm _ rfl ⟨rfl, rfl, rfl⟩ rfl
  · obtain ⟨-, rfl⟩ := Prod.mk.inj (pure_ok.mp h)
    exact .same rfl ⟨rfl, rfl, rfl⟩ rfl

/-- Without a failing allocation every item is kept. -/
theorem threadInitInsert_succeeds {env : TssEnv} {newitem : Value} {kept : Bool}
    (hi : env.insert = true) (hc : env.calloc = true)
    (h : threadInitInsert env m val mytid newitem = .ok (kept, m')) : kept = true := by
  simp only [threadInitInsert, bind_ok, hi, hc, if_true] at h
  obtain ⟨mem, -, h⟩ := h
  split at h
  · exact (Prod.mk.inj (pure_ok.mp h)).1.symm
  · simp only [bind_ok, pure_ok, Prod.mk.injEq] at h
    obtain ⟨_, -, hk, -⟩ := h
    exact hk.symm

theorem threadInitRegister_keeps {env : TssEnv} {ret : Int}
    (h : threadInitRegister env m t val = .ok (ret, m')) :
    m'.instances = m.instances ∧ TssKeeps m m' val := by
  simp only [threadInitRegister, bind_ok] at h
  obtain ⟨mem, -, h⟩ := h
  split at h <;>
  · obtain ⟨-, rfl⟩ := Prod.mk.inj (pure_ok.mp h)
    exact ⟨rfl, .same rfl ⟨rfl, rfl, rfl⟩ rfl⟩

theorem releaseState_ok (val : Addr) (h : releaseState m state = .ok m') :
    m'.instances = m.instances ∧ TssKeeps m m' val := by
  simp only [releaseState, bind_ok] at h
  obtain ⟨st, -, h⟩ := h
  split at h <;>
  · rw [← pure_ok.mp h]
    exact ⟨rfl, .same rfl ⟨rfl, rfl, rfl⟩ rfl⟩

/-- Counting a thread out leaves the entries as the caller left them. -/
theorem deinitCount_ok (h : deinitCount m val mem state = .ok m') :
    m'.cell i k = if i = val then mem.map.get k else m.cell i k := by
  simp only [deinitCount, bind_ok] at h
  obtain ⟨st, -, h⟩ := h
  rw [cell_congr (releaseState_ok val h).1, cell_setTss]
  split
  · split <;> rfl
  · rfl

theorem deinitCount_keeps {mem₀ : Tss} (hm : m.instances val = some mem₀)
    (h : deinitCount m val mem state = .ok m') : TssKeeps m m' val := by
  simp only [deinitCount, bind_ok] at h
  obtain ⟨st, -, h⟩ := h
  have write : ∀ mem', TssKeeps m (m.setTss val mem') val :=
    fun mem' => .write hm mem' rfl ⟨rfl, rfl, rfl⟩ rfl
  exact (write _).trans (releaseState_ok val h).2

theorem deinitLookup_ok {item : Option Value}
    (h : deinitLookup m t val state = .ok (item, mytid, m')) :
    m'.cell = m.cell ∧ item = m.cell val mytid := by
  simp only [deinitLookup, bind_ok, readTss_ok, myCurrentThreadId_mem,
    instances_drawGeneration] at h
  obtain ⟨mem, hm, h⟩ := h
  split at h
  · rename_i v hv
    simp only [pure_ok, Prod.mk.injEq] at h
    obtain ⟨rfl, rfl, rfl⟩ := h
    exact ⟨cell_congr (instances_drawGeneration m t), ((cell_of_live hm).trans hv).symm⟩
  · rename_i hv
    simp only [bind_ok, pure_ok, Prod.mk.injEq] at h
    obtain ⟨m', hc, rfl, rfl, rfl⟩ := h
    refine ⟨?_, ((cell_of_live hm).trans hv).symm⟩
    funext i k
    rw [deinitCount_ok hc, cell_congr (instances_drawGeneration m t)]
    split
    · rename_i hi
      rw [hi, cell_of_live hm]
    · rfl

theorem deinitLookup_keeps {item : Option Value}
    (h : deinitLookup m t val state = .ok (item, mytid, m')) :
    mytid = (m.myCurrentThreadId t).1 ∧ TssKeeps (m.drawGeneration t) m' val := by
  simp only [deinitLookup, bind_ok, readTss_ok, myCurrentThreadId_mem] at h
  obtain ⟨mem, hm, h⟩ := h
  split at h
  · simp only [pure_ok, Prod.mk.injEq] at h
    obtain ⟨-, rfl, rfl⟩ := h
    exact ⟨rfl, .same rfl ⟨rfl, rfl, rfl⟩ rfl⟩
  · simp only [bind_ok, pure_ok, Prod.mk.injEq] at h
    obtain ⟨m', hc, -, rfl, rfl⟩ := h
    exact ⟨rfl, deinitCount_keeps hm hc⟩

theorem deinitErase_ok (h : deinitErase m val mytid state = .ok m') (i : Addr) (k : Key) :
    m'.cell i k = if i = val ∧ k = mytid then none else m.cell i k := by
  simp only [deinitErase, bind_ok, readTss_ok] at h
  obtain ⟨mem, hm, h⟩ := h
  rw [deinitCount_ok h]
  by_cases hi : i = val
  · simp [hi, FinMap.get_erase, cell_of_live hm]
  · simp [hi]

theorem deinitErase_keeps (h : deinitErase m val mytid state = .ok m') : TssKeeps m m' val := by
  simp only [deinitErase, bind_ok, readTss_ok] at h
  obtain ⟨mem, hm, h⟩ := h
  exact deinitCount_keeps hm h

/-- A round of the sweep: the end, or the entry the iterator stands at is taken out. -/
inductive SweepRound (map map' : FinMap Key Value) : Option Key → Sweep → Prop
  | cleaned (hm : map' = .empty) : SweepRound map map' none .cleaned
  | callback (key : Key) (item : Value) (hi : map.get key = some item)
      (hm : map' = map.erase key) : SweepRound map map' (some key) (.callback item (map.next key))

/-- What a section of a sweep does to its instance, `mem` before it and `mem'` after it. -/
structure Swept (m m' : TssMem) (val : Addr) (mem mem' : Tss) (it : Option Key) (sweep : Sweep) :
    Prop where
  keeps : TssKeeps m m' val
  before : m.instances val = some mem
  after : m'.instances val = some mem'
  round : SweepRound mem.map mem'.map it sweep

theorem sweepNext_ok {sweep : Sweep} {it : Option Key} {mem₀ : Tss} {m₀ : TssMem}
    (hm : m₀.instances val = some mem₀) (h₀ : m.instances = m₀.instances) (hs : SameIds m₀ m)
    (hn : m.nextInstance = m₀.nextInstance) (hmap : mem.map = mem₀.map)
    (h : sweepNext m val mem it = .ok (sweep, m')) :
    ∃ mem', mem'.state = mem.state ∧ Swept m₀ m' val mem₀ mem' it sweep := by
  have keeps : ∀ mem', TssKeeps m₀ (m.setTss val mem') val :=
    fun mem' => .write hm mem' (by rw [← h₀]; rfl) ⟨hs.ids, hs.counter, hs.cached⟩ hn
  cases it with
  | none =>
    simp only [sweepNext, pure_ok, Prod.mk.injEq] at h
    obtain ⟨rfl, rfl⟩ := h
    exact ⟨{ mem with map := .empty }, rfl, keeps _, hm, Heap.set_self _ _ _, .cleaned rfl⟩
  | some key =>
    simp only [sweepNext] at h
    split at h
    · simp at h
    · rename_i item hi
      simp only [pure_ok, Prod.mk.injEq] at h
      obtain ⟨rfl, rfl⟩ := h
      refine ⟨{ mem with map := mem.map.erase key }, rfl, keeps _, hm, Heap.set_self _ _ _, ?_⟩
      rw [hmap] at hi ⊢
      exact .callback key item hi rfl

/-- The first section of a `destroy` also gives up the instance's `deinit_state`. -/
theorem destroyBegin_ok {sweep : Sweep} (h : destroyBegin m val = .ok (sweep, m')) :
    ∃ mem mem', mem'.state = none ∧ Swept m m' val mem mem' mem.map.first sweep := by
  simp only [destroyBegin, bind_ok, readTss_ok] at h
  obtain ⟨mem, hm, h⟩ := h
  split at h
  · rename_i hst
    obtain ⟨mem', hst', hsw⟩ := sweepNext_ok hm rfl ⟨rfl, rfl, rfl⟩ rfl rfl h
    exact ⟨mem, mem', hst'.trans hst, hsw⟩
  · simp only [bind_ok] at h
    obtain ⟨states, -, h⟩ := h
    have given : (⟨none, mem.map⟩ : Tss).map = mem.map := rfl
    obtain ⟨mem', hst', hsw⟩ :=
      sweepNext_ok (m := m.setStates states) hm rfl ⟨rfl, rfl, rfl⟩ rfl given h
    exact ⟨mem, mem', hst', hsw⟩

theorem destroySweep_ok {sweep : Sweep} {it : Option Key}
    (h : destroySweep m val it = .ok (sweep, m')) :
    ∃ mem mem', mem'.state = mem.state ∧ Swept m m' val mem mem' it sweep := by
  simp only [destroySweep, bind_ok, readTss_ok] at h
  obtain ⟨mem, hm, h⟩ := h
  obtain ⟨mem', hst', hsw⟩ := sweepNext_ok hm rfl ⟨rfl, rfl, rfl⟩ rfl rfl h
  exact ⟨mem, mem', hst', hsw⟩

end Wg14Signals
