import Wg14Signals.TssHistory
import Wg14Signals.Proofs.TssKeys

namespace Wg14Signals
open Lib

/-- What a step does: the call its thread was in before the section and the call it is in
after it, with what the section does to the memory. -/
inductive TssTurn (s s' : TssState) : TssAction → Option TssCall → Option TssCall → Prop
  | allocate (t : Tid) (hm : s'.mem = (tssCreate s.mem).2) : TssTurn s s' (.create t true) none none
  | exhausted (t : Tid) (hm : s'.mem = s.mem) : TssTurn s s' (.create t false) none none
  | get (t : Tid) (val : Addr) (ret : Option Value) (mytid : Key)
      (hl : tssLookup s.mem t val = .ok (ret, mytid, s'.mem)) : TssTurn s s' (.get t val) none none
  | found (t : Tid) (val : Addr) (v : Value) (mytid : Key)
      (hl : tssLookup s.mem t val = .ok (some v, mytid, s'.mem)) :
      TssTurn s s' (.threadInit t val) none none
  | init (t : Tid) (val : Addr) (mytid : Key)
      (hl : tssLookup s.mem t val = .ok (none, mytid, s'.mem)) :
      TssTurn s s' (.threadInit t val) none (some (.threadInit val (.create mytid)))
  | created (t : Tid) (val : Addr) (mytid : Key) (hm : s'.mem = s.mem) :
      TssTurn s s' (.created t .item) (some (.threadInit val (.create mytid)))
        (some (.threadInit val (.insert mytid ⟨s.nextValue, t, val, mytid⟩)))
  | uncreated (t : Tid) (r : CreateReturn) (val : Addr) (mytid : Key) (hr : r ≠ .item)
      (hm : s'.mem = s.mem) :
      TssTurn s s' (.created t r) (some (.threadInit val (.create mytid))) none
  | insert (t : Tid) (env : TssEnv) (val : Addr) (mytid : Key) (newitem : Value)
      (hi : threadInitInsert env s.mem val mytid newitem = .ok (true, s'.mem)) :
      TssTurn s s' (.advance t env) (some (.threadInit val (.insert mytid newitem)))
        (some (.threadInit val .register))
  | reject (t : Tid) (env : TssEnv) (val : Addr) (mytid : Key) (newitem : Value)
      (hi : threadInitInsert env s.mem val mytid newitem = .ok (false, s'.mem)) :
      TssTurn s s' (.advance t env) (some (.threadInit val (.insert mytid newitem)))
        (some (.threadInit val (.discard newitem)))
  | register (t : Tid) (env : TssEnv) (val : Addr) (ret : Int)
      (hr : threadInitRegister env s.mem t val = .ok (ret, s'.mem)) :
      TssTurn s s' (.advance t env) (some (.threadInit val .register)) none
  | discard (t : Tid) (env : TssEnv) (val : Addr) (newitem : Value) (hm : s'.mem = s.mem) :
      TssTurn s s' (.advance t env) (some (.threadInit val (.discard newitem)))
        (some (.threadInit val (.discarding newitem)))
  | discarded (t : Tid) (env : TssEnv) (val : Addr) (newitem : Value) (hm : s'.mem = s.mem) :
      TssTurn s s' (.advance t env) (some (.threadInit val (.discarding newitem))) none
  | exit (t : Tid) (ht : s.top t = none) (hm : s'.mem = s.mem) : TssTurn s s' (.exit t) none none
  | runAtexit (t : Tid) (state : Option Addr) (items : List (Option Addr)) (ht : s.top t = none)
      (hx : s.exiting t = true) (hi : s.mem.atexitItems t = state :: items)
      (hm : s'.mem = { s.mem with
        atexitItems := fun u => if u = t then items else s.mem.atexitItems u }) :
      TssTurn s s' (.runAtexit t) none (some (.deinit state .enter))
  | enter (t : Tid) (env : TssEnv) (state : Option Addr) (st : DeinitState) (val : Addr)
      (hs : s.mem.states.read TssFault.state state = .ok st) (hv : st.val = some val)
      (hm : s'.mem = s.mem) :
      TssTurn s s' (.advance t env) (some (.deinit state .enter))
        (some (.deinit state (.lookup val)))
  | orphaned (t : Tid) (env : TssEnv) (state : Option Addr) (st : DeinitState)
      (hs : s.mem.states.read TssFault.state state = .ok st) (hv : st.val = none)
      (hm : s'.mem = s.mem) :
      TssTurn s s' (.advance t env) (some (.deinit state .enter)) (some (.deinit state .drop))
  | lookup (t : Tid) (env : TssEnv) (state val : Addr) (mytid : Key) (item : Value)
      (hl : deinitLookup s.mem t val state = .ok (some item, mytid, s'.mem)) :
      TssTurn s s' (.advance t env) (some (.deinit (some state) (.lookup val)))
        (some (.deinit (some state) (.callback val mytid item)))
  | missing (t : Tid) (env : TssEnv) (state val : Addr) (mytid : Key)
      (hl : deinitLookup s.mem t val state = .ok (none, mytid, s'.mem)) :
      TssTurn s s' (.advance t env) (some (.deinit (some state) (.lookup val))) none
  | drop (t : Tid) (env : TssEnv) (state : Addr) (hr : releaseState s.mem state = .ok s'.mem) :
      TssTurn s s' (.advance t env) (some (.deinit (some state) .drop)) none
  | callback (t : Tid) (env : TssEnv) (state : Option Addr) (val : Addr) (mytid : Key)
      (item : Value) (hm : s'.mem = s.mem) :
      TssTurn s s' (.advance t env) (some (.deinit state (.callback val mytid item)))
        (some (.deinit state (.erase val mytid item)))
  | erase (t : Tid) (env : TssEnv) (state val : Addr) (mytid : Key) (item : Value)
      (he : deinitErase s.mem val mytid state = .ok s'.mem) :
      TssTurn s s' (.advance t env) (some (.deinit (some state) (.erase val mytid item))) none
  | destroy (t : Tid) (val : Addr) (sweep : Sweep)
      (hd : destroyBegin s.mem val = .ok (sweep, s'.mem)) :
      TssTurn s s' (.destroy t val) none (some (sweep.call val))
  | swept (t : Tid) (env : TssEnv) (val : Addr) (item : Value) (it : Option Key)
      (hm : s'.mem = s.mem) :
      TssTurn s s' (.advance t env) (some (.destroy val (.callback item it)))
        (some (.destroy val (.calling item it)))
  | sweep (t : Tid) (env : TssEnv) (val : Addr) (item : Value) (it : Option Key) (sweep : Sweep)
      (hd : destroySweep s.mem val it = .ok (sweep, s'.mem)) :
      TssTurn s s' (.advance t env) (some (.destroy val (.calling item it)))
        (some (sweep.call val))
  | free (t : Tid) (env : TssEnv) (val : Addr) (instances : Heap Tss)
      (hf : s.mem.instances.free TssFault.tss val = .ok instances)
      (hm : s'.mem = { s.mem with instances }) :
      TssTurn s s' (.advance t env) (some (.destroy val .free)) none

/-- The value whose `attr.destroy` the call is about to begin. -/
def TssCall.due : TssCall → Option Value
  | .threadInit _ (.discard newitem) => some newitem
  | .deinit _ (.callback _ _ item) => some item
  | .destroy _ (.callback item _) => some item
  | _ => none

/-- Whether the thread begins to exit. -/
def TssAction.exits (act : TssAction) (t : Tid) : Bool :=
  match act with
  | .exit u => t == u
  | _ => false

/-- The calls of all threads but the one that is moved: `before`, if it was in progress. -/
def TssState.Beside (s : TssState) (t : Tid) (before : Option TssCall) (rest : List TssAct) :
    Prop :=
  match before with
  | none => rest = s.acts
  | some call => s.top t = some ⟨t, call⟩ ∧ rest = s.others t

/-- A step moves one call of its thread, and leaves all other calls where they are. -/
structure TssMoves (s s' : TssState) (act : TssAction) (before after : Option TssCall)
    (rest : List TssAct) : Prop where
  turn : TssTurn s s' act before after
  beside : s.Beside act.tid before rest
  acts : s'.acts = after.toList.map (TssAct.mk act.tid) ++ rest
  begun : s'.begun = (before.bind TssCall.due).elim s.begun s.begin
  next : s'.nextValue = if act.produces then s.nextValue + 1 else s.nextValue
  exiting : ∀ u, s'.exiting u = (s.exiting u || act.exits u)

section

variable {s s' : TssState} {t : Tid} {val : Addr}

theorem top_tid' {a : TssAct} (h : s.top t = some a) : a.tid = t := by
  simpa using List.find?_some h

theorem threadInitSection_turns {env : TssEnv} {pc : InitPc}
    (ht : s.top t = some ⟨t, .threadInit val pc⟩)
    (h : threadInitSection env s t val pc (s.others t) = .ok s') :
    ∃ after, TssMoves s s' (.advance t env) (some (.threadInit val pc)) after (s.others t) := by
  cases pc with
  | create => simp [threadInitSection] at h
  | insert mytid newitem =>
    simp only [threadInitSection, bind_ok, pure_ok, Prod.exists] at h
    obtain ⟨kept, mem, hi, rfl⟩ := h
    cases kept with
    | true => exact ⟨_, .insert t env val mytid newitem hi, ⟨ht, rfl⟩, rfl, rfl, rfl, by simp [TssAction.exits]⟩
    | false => exact ⟨_, .reject t env val mytid newitem hi, ⟨ht, rfl⟩, rfl, rfl, rfl, by simp [TssAction.exits]⟩
  | register =>
    simp only [threadInitSection, bind_ok, pure_ok, Prod.exists] at h
    obtain ⟨ret, mem, hr, rfl⟩ := h
    exact ⟨_, .register t env val ret hr, ⟨ht, rfl⟩, rfl, rfl, rfl, by simp [TssAction.exits]⟩
  | discard newitem =>
    simp only [threadInitSection, bind_ok, pure_ok] at h
    obtain ⟨_, -, rfl⟩ := h
    exact ⟨_, .discard t env val newitem rfl, ⟨ht, rfl⟩, rfl, rfl, rfl, by simp [TssAction.exits]⟩
  | discarding newitem =>
    obtain rfl := pure_ok.mp h
    exact ⟨_, .discarded t env val newitem rfl, ⟨ht, rfl⟩, rfl, rfl, rfl, by simp [TssAction.exits]⟩

theorem deinitSection_turns {env : TssEnv} {state : Option Addr} {pc : DeinitPc}
    (ht : s.top t = some ⟨t, .deinit state pc⟩)
    (h : deinitSection s t state pc (s.others t) = .ok s') :
    ∃ after, TssMoves s s' (.advance t env) (some (.deinit state pc)) after (s.others t) := by
  cases pc with
  | enter =>
    simp only [deinitSection, bind_ok, pure_ok] at h
    obtain ⟨st, hs, rfl⟩ := h
    cases hv : st.val with
    | some val =>
      exact ⟨_, .enter t env state st val hs hv rfl, ⟨ht, rfl⟩, rfl, rfl, rfl, by simp [TssAction.exits]⟩
    | none => exact ⟨_, .orphaned t env state st hs hv rfl, ⟨ht, rfl⟩, rfl, rfl, rfl, by simp [TssAction.exits]⟩
  | lookup val =>
    cases state with
    | none => simp [deinitSection] at h
    | some state =>
      simp only [deinitSection, bind_ok, Prod.exists] at h
      obtain ⟨item, mytid, mem, hl, h⟩ := h
      cases item with
      | none =>
        obtain rfl := pure_ok.mp h
        exact ⟨_, .missing t env state val mytid hl, ⟨ht, rfl⟩, rfl, rfl, rfl, by simp [TssAction.exits]⟩
      | some item =>
        obtain rfl := pure_ok.mp h
        exact ⟨_, .lookup t env state val mytid item hl, ⟨ht, rfl⟩, rfl, rfl, rfl, by simp [TssAction.exits]⟩
  | drop =>
    cases state with
    | none => simp [deinitSection] at h
    | some state =>
      simp only [deinitSection, bind_ok, pure_ok] at h
      obtain ⟨mem, hr, rfl⟩ := h
      exact ⟨_, .drop t env state hr, ⟨ht, rfl⟩, rfl, rfl, rfl, by simp [TssAction.exits]⟩
  | callback val mytid item =>
    simp only [deinitSection, bind_ok, pure_ok] at h
    obtain ⟨_, -, rfl⟩ := h
    exact ⟨_, .callback t env state val mytid item rfl, ⟨ht, rfl⟩, rfl, rfl, rfl, by simp [TssAction.exits]⟩
  | erase val mytid item =>
    cases state with
    | none => simp [deinitSection] at h
    | some state =>
      simp only [deinitSection, bind_ok, pure_ok] at h
      obtain ⟨mem, he, rfl⟩ := h
      exact ⟨_, .erase t env state val mytid item he, ⟨ht, rfl⟩, rfl, rfl, rfl, by simp [TssAction.exits]⟩

theorem destroySection_turns {env : TssEnv} {pc : DestroyPc}
    (ht : s.top t = some ⟨t, .destroy val pc⟩)
    (h : tssDestroySection s t val pc (s.others t) = .ok s') :
    ∃ after, TssMoves s s' (.advance t env) (some (.destroy val pc)) after (s.others t) := by
  cases pc with
  | callback item it =>
    simp only [tssDestroySection, bind_ok, pure_ok] at h
    obtain ⟨_, -, rfl⟩ := h
    exact ⟨_, .swept t env val item it rfl, ⟨ht, rfl⟩, rfl, rfl, rfl, by simp [TssAction.exits]⟩
  | calling item it =>
    simp only [tssDestroySection, bind_ok, pure_ok, Prod.exists] at h
    obtain ⟨sweep, mem, hd, rfl⟩ := h
    exact ⟨_, .sweep t env val item it sweep hd, ⟨ht, rfl⟩, rfl, rfl, rfl, by simp [TssAction.exits]⟩
  | free =>
    simp only [tssDestroySection, bind_ok, pure_ok] at h
    obtain ⟨instances, hf, rfl⟩ := h
    exact ⟨_, .free t env val instances hf rfl, ⟨ht, rfl⟩, rfl, rfl, rfl, by simp [TssAction.exits]⟩

theorem tssStep_moves {act : TssAction} (h : tssStep s act = .ok s') :
    ∃ before after rest, TssMoves s s' act before after rest := by
  cases act with
  | create t calloc =>
    simp only [tssStep] at h
    split at h
    · rename_i hc
      subst hc
      obtain rfl := pure_ok.mp h
      exact ⟨_, _, _, .allocate t rfl, rfl, rfl, rfl, rfl, by simp [TssAction.exits]⟩
    · rename_i hc
      obtain rfl := Bool.eq_false_iff.mpr hc
      obtain rfl := pure_ok.mp h
      exact ⟨_, _, _, .exhausted t rfl, rfl, rfl, rfl, rfl, by simp [TssAction.exits]⟩
  | threadInit t val =>
    simp only [tssStep, bind_ok, Prod.exists] at h
    obtain ⟨ret, mytid, mem, hl, h⟩ := h
    cases ret with
    | some v =>
      obtain rfl := pure_ok.mp h
      exact ⟨_, _, _, .found t val v mytid hl, rfl, rfl, rfl, rfl, by simp [TssAction.exits]⟩
    | none =>
      obtain rfl := pure_ok.mp h
      exact ⟨_, _, _, .init t val mytid hl, rfl, rfl, rfl, rfl, by simp [TssAction.exits]⟩
  | get t val =>
    simp only [tssStep, bind_ok, pure_ok, Prod.exists] at h
    obtain ⟨ret, mytid, mem, hl, rfl⟩ := h
    exact ⟨_, _, _, .get t val ret mytid hl, rfl, rfl, rfl, rfl, by simp [TssAction.exits]⟩
  | destroy t val =>
    simp only [tssStep, bind_ok, pure_ok, Prod.exists] at h
    obtain ⟨sweep, mem, hd, rfl⟩ := h
    exact ⟨_, _, _, .destroy t val sweep hd, rfl, rfl, rfl, rfl, by simp [TssAction.exits]⟩
  | created t r =>
    simp only [tssStep] at h
    split at h
    · rename_i u val mytid ht
      obtain rfl := top_tid' ht
      cases r with
      | item =>
        obtain rfl := pure_ok.mp h
        exact ⟨_, _, _, .created _ val mytid rfl, ⟨ht, rfl⟩, rfl, rfl, rfl, by simp [TssAction.exits]⟩
      | failed =>
        obtain rfl := pure_ok.mp h
        exact ⟨_, _, _, .uncreated _ _ val mytid (by simp) rfl, ⟨ht, rfl⟩, rfl, rfl, rfl, by simp [TssAction.exits]⟩
      | null =>
        obtain rfl := pure_ok.mp h
        exact ⟨_, _, _, .uncreated _ _ val mytid (by simp) rfl, ⟨ht, rfl⟩, rfl, rfl, rfl, by simp [TssAction.exits]⟩
    · simp at h
  | advance t env =>
    simp only [tssStep] at h
    split at h
    · rename_i u val pc ht
      obtain rfl := top_tid' ht
      obtain ⟨after, hm⟩ := threadInitSection_turns ht h
      exact ⟨_, _, _, hm⟩
    · rename_i u state pc ht
      obtain rfl := top_tid' ht
      obtain ⟨after, hm⟩ := deinitSection_turns ht h
      exact ⟨_, _, _, hm⟩
    · rename_i u val pc ht
      obtain rfl := top_tid' ht
      obtain ⟨after, hm⟩ := destroySection_turns ht h
      exact ⟨_, _, _, hm⟩
    · simp at h
  | exit t =>
    simp only [tssStep] at h
    split at h
    · rename_i ht
      obtain rfl := pure_ok.mp h
      refine ⟨_, _, _, .exit t ht rfl, rfl, rfl, rfl, rfl, ?_⟩
      intro u
      by_cases hu : u = t <;> simp [hu, TssAction.exits]
    · simp at h
  | runAtexit t =>
    simp only [tssStep] at h
    split at h
    · rename_i state items ht hi
      split at h
      · rename_i hx
        obtain rfl := pure_ok.mp h
        exact ⟨_, _, _, .runAtexit t state items ht hx hi rfl, rfl, rfl, rfl, rfl, by simp [TssAction.exits]⟩
      · simp at h
    · simp at h

end

/-- What a step does to the memory but for the contents of one instance. -/
inductive MemEffect (m m' : TssMem) (t : Tid) (before : Option TssCall) : Prop
  | keeps (val : Addr) (h : TssKeeps m m' val)
  | draws (val : Addr) (h : TssKeeps (m.drawGeneration t) m' val)
  | allocates (h : m' = (tssCreate m).2)
  | frees (val : Addr) (mem : Tss) (hb : before = some (.destroy val .free))
      (hm : m.instances val = some mem)
      (h : m' = { m with instances := m.instances.set val none })

/-- What a step does to the entries of all instances. -/
inductive CellEffect (c c' : Addr → Key → Option Value) : Option TssCall → Option TssCall → Prop
  | same (before after : Option TssCall) (hc : c' = c) : CellEffect c c' before after
  | insert (val : Addr) (k : Key) (v : Value)
      (hc : ∀ i l, c' i l = if i = val ∧ l = k then some v else c i l) :
      CellEffect c c' (some (.threadInit val (.insert k v))) (some (.threadInit val .register))
  | reject (val : Addr) (k : Key) (v : Value)
      (hc : ∀ i l, c' i l = c i l ∨ (i = val ∧ l = k ∧ c' i l = none)) :
      CellEffect c c' (some (.threadInit val (.insert k v))) (some (.threadInit val (.discard v)))
  | erase (state : Option Addr) (val : Addr) (k : Key) (v : Value)
      (hc : ∀ i l, c' i l = if i = val ∧ l = k then none else c i l) :
      CellEffect c c' (some (.deinit state (.erase val k v))) none
  /-- The sweep takes an item out. -/
  | take (before : Option TssCall) (val : Addr) (k : Key) (v : Value) (it : Option Key)
      (hb : ∀ state pc, before ≠ some (.deinit state pc)) (hi : c val k = some v)
      (hc : ∀ i l, c' i l = if i = val ∧ l = k then none else c i l) :
      CellEffect c c' before (some (.destroy val (.callback v it)))
  /-- The sweep is over, or frees the instance. -/
  | clear (before after : Option TssCall) (val : Addr)
      (hb : ∀ state pc, before ≠ some (.deinit state pc))
      (hd : before = some (.destroy val .free) ∧ after = none ∨
        after = some (.destroy val .free))
      (hc : ∀ i l, c' i l = if i = val then none else c i l) : CellEffect c c' before after

/-- Entries come from the entries there were, but for the one that is inserted. -/
theorem CellEffect.old {c c' : Addr → Key → Option Value} {before after : Option TssCall}
    (h : CellEffect c c' before after) {i : Addr} {k : Key} {v : Value} (hv : c' i k = some v) :
    c i k = some v ∨ before = some (.threadInit i (.insert k v)) := by
  cases h with
  | same _ _ hc => exact .inl (hc ▸ hv)
  | insert val l w hc =>
    rw [hc] at hv
    split at hv
    · rename_i hik
      cases hv
      exact .inr (by rw [hik.1, hik.2])
    · exact .inl hv
  | reject val l w hc =>
    rcases hc i k with hc | ⟨-, -, hc⟩
    · exact .inl (hc ▸ hv)
    · simp [hc] at hv
  | erase state val l w hc
  | take _ val l w it hb hi hc
  | clear _ _ val hb hd hc =>
    rw [hc] at hv
    split at hv
    · cases hv
    · exact .inl hv

/-- The entry the next section of a call inserts or erases. -/
def TssCall.cell : TssCall → Option (Addr × Key)
  | .threadInit val (.insert mytid _) => some (val, mytid)
  | .deinit _ (.erase val mytid _) => some (val, mytid)
  | _ => none

def TssCall.sweeps (val : Addr) : TssCall → Prop
  | .destroy v _ => v = val
  | _ => False

/-- Every other entry stays, but for a sweep. -/
theorem CellEffect.frame {c c' : Addr → Key → Option Value} {before after : Option TssCall}
    (h : CellEffect c c' before after) {i : Addr} {k : Key}
    (hd : ∀ call, before = some call ∨ after = some call → ¬ call.sweeps i)
    (hb : before.bind TssCall.cell ≠ some (i, k)) : c' i k = c i k := by
  cases h with
  | same _ _ hc => rw [hc]
  | insert val l w hc
  | erase state val l w hc =>
    rw [hc, if_neg]
    rintro ⟨rfl, rfl⟩
    exact hb rfl
  | reject val l w hc =>
    refine (hc i k).resolve_right ?_
    rintro ⟨rfl, rfl, -⟩
    exact hb rfl
  | take _ val l w it hbd hi hc =>
    rw [hc, if_neg]
    rintro ⟨rfl, -⟩
    exact hd _ (.inr rfl) rfl
  | clear _ _ val hbd hda hc =>
    rw [hc, if_neg]
    rintro rfl
    rcases hda with ⟨rfl, -⟩ | rfl
    · exact hd _ (.inl rfl) rfl
    · exact hd _ (.inr rfl) rfl

section

variable {m m' : TssMem} {val : Addr} {mem mem' : Tss} {it : Option Key} {sweep : Sweep}

theorem cell_of_others (h : ∀ i, i ≠ val → m'.instances i = m.instances i) {i : Addr}
    (hi : i ≠ val) (k : Key) : m'.cell i k = m.cell i k := by
  simp [TssMem.cell, h i hi]

/-- The entry a round of the sweep takes out, and what is left. -/
theorem Swept.taken {item : Value} {next : Option Key}
    (h : Swept m m' val mem mem' it (.callback item next)) :
    ∃ key, it = some key ∧ m.cell val key = some item ∧ next = mem.map.next key ∧
      ∀ i k, m'.cell i k = if i = val ∧ k = key then none else m.cell i k := by
  obtain ⟨hk, hm, hm', hr⟩ := h
  cases hr with
  | callback key item hi hmap =>
    refine ⟨key, rfl, (cell_of_live hm).trans hi, rfl, fun i k => ?_⟩
    by_cases hiv : i = val
    · subst hiv
      rw [cell_of_live hm', hmap, FinMap.get_erase, cell_of_live hm]
      simp
    · simp [hiv, cell_of_others hk.others hiv k]

theorem Swept.cleaned (h : Swept m m' val mem mem' it .cleaned) :
    it = none ∧ ∀ i k, m'.cell i k = if i = val then none else m.cell i k := by
  obtain ⟨hk, hm, hm', hr⟩ := h
  cases hr with
  | cleaned hmap =>
    refine ⟨rfl, fun i k => ?_⟩
    split
    · rename_i hi
      rw [hi, cell_of_live hm', hmap]
      rfl
    · exact cell_of_others hk.others ‹_› k

theorem Swept.cells (h : Swept m m' val mem mem' it sweep) {before : Option TssCall}
    (hb : ∀ state pc, before ≠ some (.deinit state pc)) :
    CellEffect m.cell m'.cell before (some (sweep.call val)) := by
  cases sweep with
  | cleaned => exact .clear _ _ val hb (.inr rfl) h.cleaned.2
  | callback item next =>
    obtain ⟨key, -, hi, -, hc⟩ := h.taken
    exact .take _ val key item _ hb hi hc

end

section

variable {s s' : TssState} {act : TssAction} {before after : Option TssCall}

theorem TssTurn.mem (h : TssTurn s s' act before after) :
    MemEffect s.mem s'.mem act.tid before := by
  have still : s'.mem = s.mem → MemEffect s.mem s'.mem act.tid before :=
    fun h => .keeps 0 (.same (by rw [h]) ⟨by rw [h], by rw [h], by rw [h]⟩ (by rw [h]))
  have looked : ∀ {t val ret mytid}, tssLookup s.mem t val = .ok (ret, mytid, s'.mem) →
      MemEffect s.mem s'.mem t before := by
    intro t val ret mytid hl
    obtain ⟨-, -, hm⟩ := tssLookup_ok hl
    exact .draws 0 (hm ▸ .same rfl ⟨rfl, rfl, rfl⟩ rfl)
  cases h with
  | allocate t hm => exact .allocates hm
  | get t val ret mytid hl => exact looked hl
  | found t val v mytid hl => exact looked hl
  | init t val mytid hl => exact looked hl
  | insert t env val mytid newitem hi => exact .keeps val (threadInitInsert_keeps hi)
  | reject t env val mytid newitem hi => exact .keeps val (threadInitInsert_keeps hi)
  | register t env val ret hr => exact .keeps val (threadInitRegister_keeps hr).2
  | runAtexit t state items ht hx hi hm => exact .keeps 0 (hm ▸ .same rfl ⟨rfl, rfl, rfl⟩ rfl)
  | lookup t env state val mytid item hl => exact .draws val (deinitLookup_keeps hl).2
  | missing t env state val mytid hl => exact .draws val (deinitLookup_keeps hl).2
  | drop t env state hr => exact .keeps 0 (releaseState_ok 0 hr).2
  | erase t env state val mytid item he => exact .keeps val (deinitErase_keeps he)
  | destroy t val sweep hd =>
    obtain ⟨_, _, -, hsw⟩ := destroyBegin_ok hd
    exact .keeps val hsw.keeps
  | sweep t env val item it sweep hd =>
    obtain ⟨_, _, -, hsw⟩ := destroySweep_ok hd
    exact .keeps val hsw.keeps
  | free t env val instances hf hm =>
    obtain ⟨⟨mem, hmem⟩, rfl⟩ := Heap.free_ok.mp hf
    exact .frees val mem rfl hmem hm
  | _ => exact still ‹_›

theorem TssTurn.cells (h : TssTurn s s' act before after)
    (hf : s.mem.instances s.mem.nextInstance = none) :
    CellEffect s.mem.cell s'.mem.cell before after := by
  have still : s'.mem = s.mem → CellEffect s.mem.cell s'.mem.cell before after :=
    fun h => .same _ _ (by rw [h])
  have looked : ∀ {t val ret mytid}, tssLookup s.mem t val = .ok (ret, mytid, s'.mem) →
      CellEffect s.mem.cell s'.mem.cell before after := by
    intro t val ret mytid hl
    obtain ⟨-, -, hm⟩ := tssLookup_ok hl
    exact .same _ _ (by rw [hm, cell_congr (instances_drawGeneration _ t)])
  cases h with
  | allocate t hm => exact .same _ _ (by rw [hm, cell_tssCreate hf])
  | get t val ret mytid hl => exact looked hl
  | found t val v mytid hl => exact looked hl
  | init t val mytid hl => exact looked hl
  | insert t env val mytid newitem hi => exact .insert val mytid newitem (threadInitInsert_kept hi)
  | reject t env val mytid newitem hi =>
    exact .reject val mytid newitem (threadInitInsert_rejected hi)
  | register t env val ret hr => exact .same _ _ (cell_congr (threadInitRegister_keeps hr).1)
  | runAtexit t state items ht hx hi hm => exact .same _ _ (by rw [hm]; rfl)
  | lookup t env state val mytid item hl => exact .same _ _ (deinitLookup_ok hl).1
  | missing t env state val mytid hl => exact .same _ _ (deinitLookup_ok hl).1
  | drop t env state hr => exact .same _ _ (cell_congr (releaseState_ok 0 hr).1)
  | erase t env state val mytid item he => exact .erase _ val mytid item (deinitErase_ok he)
  | destroy t val sweep hd =>
    obtain ⟨_, _, -, hsw⟩ := destroyBegin_ok hd
    exact hsw.cells (by simp)
  | sweep t env val item it sweep hd =>
    obtain ⟨_, _, -, hsw⟩ := destroySweep_ok hd
    exact hsw.cells (by simp)
  | free t env val instances hf hm =>
    obtain ⟨-, rfl⟩ := Heap.free_ok.mp hf
    refine .clear _ _ val (by simp) (.inl ⟨rfl, rfl⟩) fun i k => ?_
    by_cases hi : i = val <;> simp [hm, TssMem.cell, hi]
  | _ => exact still ‹_›

end

/-- No instance is where the next one will be. -/
def TssMem.Fresh (m : TssMem) : Prop := ∀ i, m.nextInstance ≤ i → m.instances i = none

theorem MemEffect.fresh {m m' : TssMem} {t : Tid} {before : Option TssCall}
    (h : MemEffect m m' t before) (hf : m.Fresh) : m'.Fresh := by
  have keeps : ∀ {m m' : TssMem} {val : Addr}, m.Fresh → TssKeeps m m' val → m'.Fresh := by
    intro m m' val hf hk i hi
    rw [hk.nextInstance] at hi
    by_cases hiv : i = val
    · have := hk.live
      rw [← hiv, hf i hi] at this
      simpa using this
    · rw [hk.others i hiv]
      exact hf i hi
  cases h with
  | keeps val h => exact keeps hf h
  | draws val h =>
    refine keeps (m := m.drawGeneration t) (fun i hi => ?_) h
    rw [instances_drawGeneration]
    refine hf i ?_
    unfold TssMem.drawGeneration at hi
    split at hi <;> exact hi
  | allocates h =>
    subst h
    intro i hi
    have hn : m.nextInstance < i := hi
    simp [tssCreate, Nat.ne_of_gt hn, hf i hn.le]
  | frees val mem hb hm h =>
    subst h
    intro i hi
    by_cases hiv : i = val
    · simp [hiv]
    · simpa [hiv] using hf i hi

theorem fresh_step {s s' : TssState} {act : TssAction} (hf : s.mem.Fresh)
    (h : tssStep s act = .ok s') : s'.mem.Fresh := by
  obtain ⟨before, after, rest, hm⟩ := tssStep_moves h
  exact hm.turn.mem.fresh hf

theorem fresh_run {ids : Tid → UInt64} {ok : TssState → TssAction → Prop} {s : TssState}
    (hr : Run tssStep ok (.initial ids) s) : s.mem.Fresh :=
   hr.invariant (I := fun s => s.mem.Fresh) (fun _ _ => rfl)
    fun s act s' hf _ h => fresh_step hf h

section

variable {s s' : TssState} {act : TssAction} {before after : Option TssCall} {rest : List TssAct}

theorem top_perm {t : Tid} {a : TssAct} (h : s.top t = some a) : s.acts.Perm (a :: s.others t) :=
  find_perm h

theorem TssMoves.perm (h : TssMoves s s' act before after rest) :
    s.acts.Perm (before.toList.map (TssAct.mk act.tid) ++ rest) := by
  have hb := h.beside
  cases before with
  | none =>
    obtain rfl : rest = s.acts := hb
    exact .refl _
  | some call =>
    obtain ⟨ht, rfl⟩ : s.top act.tid = some ⟨act.tid, call⟩ ∧ rest = s.others act.tid := hb
    exact top_perm ht

/-- The thread's own calls, innermost first, before the step and after it. -/
theorem TssMoves.calls (h : TssMoves s s' act before after rest) :
    ∃ tail, s.calls act.tid = before.toList ++ tail ∧ s'.calls act.tid = after.toList ++ tail := by
  refine ⟨(rest.filter fun a => a.tid == act.tid).map TssAct.call, ?_, ?_⟩
  · have hb := h.beside
    cases before with
    | none =>
      obtain rfl : rest = s.acts := hb
      rfl
    | some call =>
      obtain ⟨ht, rfl⟩ : s.top act.tid = some ⟨act.tid, call⟩ ∧ rest = s.others act.tid := hb
      simp [TssState.calls, find_filter ht, TssState.others]
  · cases after <;> simp [TssState.calls, h.acts]

/-- The calls of all other threads stay. -/
theorem TssMoves.calls_other (h : TssMoves s s' act before after rest) {u : Tid}
    (hu : u ≠ act.tid) : s'.calls u = s.calls u := by
  have hrest : (rest.filter fun a => a.tid == u) = s.acts.filter fun a => a.tid == u := by
    have hb := h.beside
    cases before with
    | none =>
      obtain rfl : rest = s.acts := hb
      rfl
    | some call =>
      obtain ⟨-, rfl⟩ : s.top act.tid = some ⟨act.tid, call⟩ ∧ rest = s.others act.tid := hb
      refine filter_eraseP (fun a ha => ?_) s.acts
      simp only [beq_iff_eq] at ha
      simp [ha, hu]
  have hu' : ¬ act.tid = u := fun h => hu h.symm
  cases after <;> simp [TssState.calls, h.acts, hrest, hu']

theorem mem_calls {t : Tid} {c : TssCall} : c ∈ s.calls t ↔ ⟨t, c⟩ ∈ s.acts := by
  simp only [TssState.calls, List.mem_map, List.mem_filter, beq_iff_eq]
  constructor
  · rintro ⟨a, ⟨ha, rfl⟩, rfl⟩
    exact ha
  · exact fun h => ⟨_, ⟨h, rfl⟩, rfl⟩

/-- A call that is not moved was in progress before and still is. -/
theorem TssMoves.rest_mem (h : TssMoves s s' act before after rest) {a : TssAct}
    (ha : a ∈ rest) : a ∈ s.acts :=
  h.perm.mem_iff.mpr (List.mem_append_right _ ha)

theorem TssMoves.before_mem (h : TssMoves s s' act before after rest) {c : TssCall}
    (hc : before = some c) : ⟨act.tid, c⟩ ∈ s.acts :=
  h.perm.mem_iff.mpr (by simp [hc])

/-- A call in progress is one that was, or the one the step goes on with. -/
theorem TssMoves.mem_acts (h : TssMoves s s' act before after rest) {a : TssAct}
    (ha : a ∈ s'.acts) : (after = some a.call ∧ a.tid = act.tid) ∨ a ∈ rest := by
  rw [h.acts] at ha
  rcases List.mem_append.mp ha with ha | ha
  · obtain ⟨c, hc, rfl⟩ := List.mem_map.mp ha
    exact .inl ⟨by simpa using hc, rfl⟩
  · exact .inr ha

end

end Wg14Signals
