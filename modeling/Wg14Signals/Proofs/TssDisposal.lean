import Wg14Signals.Proofs.TssIsolation

namespace Wg14Signals
open Lib

section

variable {m m' : TssMem} {t u : Tid}

/-- Whichever generation it has, the low half of a thread's key is its kernel id. -/
theorem key_low (m : TssMem) (t : Tid) : (m.key t).toUInt32 = m.tid32 t := by
  have hid : (m.drawGeneration t).currentThreadId = m.currentThreadId := by
    unfold TssMem.drawGeneration
    split <;> rfl
  have hs : ((m.drawGeneration t).generationCached t <<< 32).toNat % 2 ^ 32 = 0 := by
    rw [UInt64.toNat_shiftLeft, Nat.shiftLeft_eq, show (32 : UInt64).toNat % 64 = 32 from rfl]
    omega
  apply UInt32.toNat_inj.mp
  simp only [TssMem.key, TssMem.myCurrentThreadId, TssMem.tid32, hid, UInt64.toNat_toUInt32,
    UInt64.toNat_or, UInt32.toNat_toUInt64, Nat.or_mod_two_pow, hs, Nat.zero_or, Nat.mod_mod]

theorem MemEffect.ids {before : Option TssCall} (h : MemEffect m m' t before) :
    m'.tid32 = m.tid32 := by
  have hid : (m.drawGeneration t).currentThreadId = m.currentThreadId := by
    unfold TssMem.drawGeneration
    split <;> rfl
  funext u
  cases h with
  | keeps val h => simp [TssMem.tid32, h.ids]
  | draws val h => simp [TssMem.tid32, h.ids, hid]
  | allocates h => simp [TssMem.tid32, h, tssCreate]
  | frees val mem hb hm h => simp [TssMem.tid32, h]

end

section

variable {s s' : TssState} {act : TssAction} {before after : Option TssCall} {rest : List TssAct}

/-- How many calls satisfy a test before a step and after it. -/
theorem TssMoves.count (h : TssMoves s s' act before after rest) (p : TssCall → Bool) :
    s.acts.countP (fun a => p a.call) =
        before.toList.countP p + rest.countP (fun a => p a.call) ∧
      s'.acts.countP (fun a => p a.call) =
        after.toList.countP p + rest.countP (fun a => p a.call) := by
  constructor
  · rw [h.perm.countP_eq, List.countP_append, List.countP_map]
    rfl
  · rw [h.acts, List.countP_append, List.countP_map]
    rfl

/-- A relation between any two calls in progress: only the call that is moved is new. -/
theorem TssMoves.pairwise (h : TssMoves s s' act before after rest) {R : TssAct → TssAct → Prop}
    (hs : ∀ a b, R a b → R b a) (hi : s.acts.Pairwise R)
    (hn : ∀ c, after = some c → ∀ b ∈ rest,
      (∀ c₀, before = some c₀ → R ⟨act.tid, c₀⟩ b) → R ⟨act.tid, c⟩ b) :
    s'.acts.Pairwise R := by
  have hp := h.perm.pairwise hi (fun {a b} => hs a b)
  obtain ⟨-, hrest, hcross⟩ := List.pairwise_append.mp hp
  rw [h.acts]
  cases after with
  | none => exact hrest
  | some c =>
    refine List.pairwise_cons.mpr ⟨fun b hb => hn c rfl b hb fun c₀ hc₀ => ?_, hrest⟩
    exact hcross _ (by simp [hc₀]) b hb

end

section

variable {s s' : TssState} {act : TssAction} {before after : Option TssCall} {i : Addr}

/-- An instance that no call at work on it is moved at stays as it is. -/
theorem TssTurn.instances (h : TssTurn s s' act before after) (hn : i ≠ s.mem.nextInstance)
    (hb : ∀ c, before = some c ∨ after = some c → c.on ≠ some i) :
    s'.mem.instances i = s.mem.instances i := by
  have still : s'.mem = s.mem → s'.mem.instances i = s.mem.instances i := fun h => by rw [h]
  have looked : ∀ {t val ret mytid}, tssLookup s.mem t val = .ok (ret, mytid, s'.mem) →
      s'.mem.instances i = s.mem.instances i := by
    intro t val ret mytid hl
    obtain ⟨-, -, hm⟩ := tssLookup_ok hl
    rw [hm, instances_drawGeneration]
  have kept : ∀ {val : Addr} {c : TssCall}, TssKeeps s.mem s'.mem val → c.on = some val →
      before = some c ∨ after = some c → s'.mem.instances i = s.mem.instances i := by
    intro val c hk hc hbc
    exact hk.others i fun he => hb c hbc (he ▸ hc)
  cases h with
  | allocate t hm => simp [hm, tssCreate, hn]
  | get t val ret mytid hl => exact looked hl
  | found t val v mytid hl => exact looked hl
  | init t val mytid hl => exact looked hl
  | insert t env val mytid newitem hi => exact kept (threadInitInsert_keeps hi) rfl (.inl rfl)
  | reject t env val mytid newitem hi => exact kept (threadInitInsert_keeps hi) rfl (.inl rfl)
  | register t env val ret hr => rw [(threadInitRegister_keeps hr).1]
  | runAtexit t state items ht hx hi hm => rw [hm]
  | lookup t env state val mytid item hl =>
    have hk := (deinitLookup_keeps hl).2
    rw [hk.others i fun he => hb _ (.inl rfl) (he ▸ rfl), instances_drawGeneration]
  | missing t env state val mytid hl =>
    have hk := (deinitLookup_keeps hl).2
    rw [hk.others i fun he => hb _ (.inl rfl) (he ▸ rfl), instances_drawGeneration]
  | drop t env state hr => rw [(releaseState_ok 0 hr).1]
  | erase t env state val mytid item he => exact kept (deinitErase_keeps he) rfl (.inl rfl)
  | destroy t val sweep hd =>
    obtain ⟨_, _, -, hsw⟩ := destroyBegin_ok hd
    refine kept hsw.keeps ?_ (.inr rfl)
    cases sweep <;> rfl
  | sweep t env val item it sweep hd =>
    obtain ⟨_, _, -, hsw⟩ := destroySweep_ok hd
    exact kept hsw.keeps rfl (.inl rfl)
  | free t env val instances hf hm =>
    obtain ⟨-, rfl⟩ := Heap.free_ok.mp hf
    have hi : i ≠ val := fun he => hb _ (.inl rfl) (he ▸ rfl)
    simp [hm, hi]
  | _ => exact still ‹_›

/-- A call that is at work on an instance began when the instance was there, and only a
`destroy` on it takes it away. -/
theorem MemEffect.live {m m' : TssMem} {t : Tid} {before : Option TssCall}
    (h : MemEffect m m' t before) (hl : (m.instances i).isSome)
    (hb : before ≠ some (.destroy i .free)) : (m'.instances i).isSome := by
  have keeps : ∀ {m m' : TssMem} {val : Addr}, (m.instances i).isSome → TssKeeps m m' val →
      (m'.instances i).isSome := by
    intro m m' val hl hk
    by_cases hi : i = val
    · rw [hi, hk.live, ← hi, hl]
    · rw [hk.others i hi, hl]
  cases h with
  | keeps val h => exact keeps hl h
  | draws val h => exact keeps (m := m.drawGeneration t) (by rw [instances_drawGeneration, hl]) h
  | allocates h =>
    subst h
    by_cases hi : i = m.nextInstance <;> simp [tssCreate, hi, hl]
  | frees val mem hbf hm h =>
    subst h
    have hi : i ≠ val := by
      rintro rfl
      exact hb hbf
    simp [hi, hl]

end

/-- The `deinit_state`s that lead to the instance: at most the one it points to itself. -/
def TssMem.Bound (m : TssMem) (i : Addr) : Prop :=
  ∀ state st, m.states state = some st → st.val = some i →
    ∃ mem, m.instances i = some mem ∧ mem.state = some state

section

variable {m m' : TssMem} {i val state : Addr} {mem mem₀ : Tss} {t : Tid} {mytid : Key}

theorem TssMem.Bound.still (hb : m.Bound i) (hi : m'.instances i = m.instances i)
    (hs : m'.states = m.states) : m'.Bound i := by
  intro state st hst hv
  rw [hs] at hst
  rw [hi]
  exact hb state st hst hv

/-- Writing an instance: a `deinit_state` that leads to it is the one it points to, before the
write and after it. -/
theorem TssMem.Bound.write {mem' : Tss} (hb : m.Bound i)
    (ho : ∀ j, j ≠ val → m'.instances j = m.instances j) (hm : m.instances val = some mem)
    (hm' : m'.instances val = some mem')
    (hst : ∀ state, mem.state = some state →
      mem'.state = some state ∨ ∀ st, m'.states state = some st → st.val ≠ some i)
    (hs : ∀ state st', m'.states state = some st' → st'.val = some i →
      (∃ st, m.states state = some st ∧ st.val = some i) ∨
        (i = val ∧ mem'.state = some state)) : m'.Bound i := by
  intro state st' hst' hv
  rcases hs state st' hst' hv with ⟨st, hold, hval⟩ | ⟨rfl, hnew⟩
  · obtain ⟨mem₁, hi, hp⟩ := hb state st hold hval
    by_cases hiv : i = val
    · subst hiv
      obtain rfl : mem = mem₁ := Option.some.inj (hm.symm.trans hi)
      exact ⟨mem', hm', (hst state hp).resolve_right fun h => h st' hst' hv⟩
    · exact ⟨mem₁, (ho i hiv).trans hi, hp⟩
  · exact ⟨mem', hm', hnew⟩

theorem threadInitInsert_bound {env : TssEnv} {v : Value} {kept : Bool}
    (h : threadInitInsert env m val mytid v = .ok (kept, m')) (hb : m.Bound i) : m'.Bound i := by
  have ho := (threadInitInsert_keeps h).others
  simp only [threadInitInsert, bind_ok, readTss_ok] at h
  obtain ⟨mem, hm, h⟩ := h
  split at h
  · split at h
    · rename_i hnone
      split at h
      · obtain ⟨-, rfl⟩ := Prod.mk.inj (pure_ok.mp h)
        refine hb.write ho hm (Heap.set_self _ _ _) (by simp [hnone]) fun state st hst hv => ?_
        simp only [Heap.set_apply] at hst
        split at hst
        · rename_i hstate
          cases hst
          exact .inr ⟨(Option.some.inj hv).symm, by rw [hstate, TssMem.setTss_nextState]⟩
        · exact .inl ⟨st, hst, hv⟩
      · obtain ⟨-, rfl⟩ := Prod.mk.inj (pure_ok.mp h)
        exact hb.write ho hm (Heap.set_self _ _ _) (fun state hst => .inl hst)
          fun state st hst hv => .inl ⟨st, hst, hv⟩
    · simp only [bind_ok, pure_ok, Prod.mk.injEq, Heap.update_ok] at h
      obtain ⟨states, ⟨a, st₀, ha, hst₀, rfl⟩, -, rfl⟩ := h
      refine hb.write ho hm (Heap.set_self _ _ _) (fun state hst => .inl hst)
        fun state st hst hv => .inl ?_
      simp only [TssMem.setStates, Heap.mapAt] at hst
      split at hst
      · obtain ⟨st', hst', rfl⟩ := Option.map_eq_some_iff.mp hst
        exact ⟨st', hst', hv⟩
      · exact ⟨st, hst, hv⟩
  · obtain ⟨-, rfl⟩ := Prod.mk.inj (pure_ok.mp h)
    exact hb

/-- Dropping a reference on a `deinit_state` frees it, or leaves what it leads to. -/
theorem releaseState_states (h : releaseState m state = .ok m') :
    (∀ p st', m'.states p = some st' → ∃ st, m.states p = some st ∧ st'.val = st.val) ∧
    ∀ st, m.states state = some st → st.count = 1 → m'.states state = none := by
  simp only [releaseState, bind_ok, Heap.read_ok] at h
  obtain ⟨st, ⟨_, ⟨rfl⟩, hst⟩, h⟩ := h
  split at h
  · obtain rfl := pure_ok.mp h
    refine ⟨fun p st' hp => ?_, fun _ _ _ => Heap.set_self _ _ _⟩
    simp only [TssMem.setStates, Heap.set_apply] at hp
    split at hp
    · cases hp
    · exact ⟨st', hp, rfl⟩
  · rename_i hcount
    obtain rfl := pure_ok.mp h
    refine ⟨fun p st' hp => ?_, fun st₁ hst₁ h1 => ?_⟩
    · simp only [TssMem.setStates, Heap.set_apply] at hp
      split at hp
      · rename_i hps
        cases hp
        exact ⟨st, hps ▸ hst, rfl⟩
      · exact ⟨st', hp, rfl⟩
    · rw [hst] at hst₁
      cases hst₁
      exact absurd h1 hcount

theorem releaseState_bound (h : releaseState m state = .ok m') (hb : m.Bound i) :
    m'.Bound i := by
  intro p st' hp hv
  obtain ⟨st, hst, hval⟩ := (releaseState_states h).1 p st' hp
  rw [(releaseState_ok 0 h).1]
  exact hb p st hst (hval ▸ hv)

theorem deinitCount_bound (hm : m.instances val = some mem₀)
    (hmem : mem.state = mem₀.state) (h : deinitCount m val mem state = .ok m')
    (hb : m.Bound i) : m'.Bound i := by
  have ho := (deinitCount_keeps hm h).others
  simp only [deinitCount, bind_ok, Heap.read_ok] at h
  obtain ⟨st, ⟨_, ⟨rfl⟩, hst⟩, h⟩ := h
  obtain ⟨hstates, hfreed⟩ := releaseState_states h
  have hinst := (releaseState_ok 0 h).1
  refine hb.write ho hm (by rw [hinst]; exact Heap.set_self _ _ _) (fun p hp => ?_)
    fun p st' hp hv => ?_
  · rw [← hmem] at hp
    split
    · rename_i hlast
      right
      intro st' hst'
      obtain rfl := Option.some.inj (hp.symm.trans hlast.2)
      rw [hfreed st hst hlast.1] at hst'
      cases hst'
    · exact .inl hp
  · obtain ⟨st, hst, hval⟩ := hstates p st' hp
    exact .inl ⟨st, hst, hval ▸ hv⟩

theorem deinitLookup_bound {item : Option Value}
    (h : deinitLookup m t val state = .ok (item, mytid, m')) (hb : m.Bound i) : m'.Bound i := by
  have hd : (m.drawGeneration t).Bound i := hb.still (by simp) (by simp)
  simp only [deinitLookup, bind_ok, readTss_ok, myCurrentThreadId_mem] at h
  obtain ⟨mem, hm, h⟩ := h
  split at h
  · simp only [pure_ok, Prod.mk.injEq] at h
    obtain ⟨-, -, rfl⟩ := h
    exact hd
  · simp only [bind_ok, pure_ok, Prod.mk.injEq] at h
    obtain ⟨m', hc, -, -, rfl⟩ := h
    exact deinitCount_bound hm rfl hc hd

theorem deinitErase_bound (h : deinitErase m val mytid state = .ok m') (hb : m.Bound i) :
    m'.Bound i := by
  simp only [deinitErase, bind_ok, readTss_ok] at h
  obtain ⟨mem, hm, h⟩ := h
  have hmem : (⟨mem.state, mem.map.erase mytid⟩ : Tss).state = mem.state := rfl
  exact deinitCount_bound hm hmem h hb

theorem sweepNext_states {sweep : Sweep} {it : Option Key}
    (h : sweepNext m val mem it = .ok (sweep, m')) : m'.states = m.states := by
  cases it with
  | none =>
    simp only [sweepNext, pure_ok, Prod.mk.injEq] at h
    rw [← h.2]
    rfl
  | some key =>
    simp only [sweepNext] at h
    split at h
    · simp at h
    · simp only [pure_ok, Prod.mk.injEq] at h
      rw [← h.2]
      rfl

theorem destroyBegin_bound {sweep : Sweep} (h : destroyBegin m val = .ok (sweep, m'))
    (hb : m.Bound i) : m'.Bound i := by
  obtain ⟨mem₁, mem', hnone, hsw⟩ := destroyBegin_ok h
  have hm₁ := hsw.before
  simp only [destroyBegin, bind_ok, readTss_ok] at h
  obtain ⟨mem, hm, h⟩ := h
  obtain rfl : mem = mem₁ := Option.some.inj (hm.symm.trans hm₁)
  split at h
  · rename_i hst
    refine hb.write hsw.keeps.others hm hsw.after (by simp [hst]) fun p st hp hv => ?_
    rw [sweepNext_states h] at hp
    exact .inl ⟨st, hp, hv⟩
  · rename_i state hst
    simp only [bind_ok, Heap.update_ok] at h
    obtain ⟨states, ⟨_, st₀, ⟨rfl⟩, hst₀, rfl⟩, h⟩ := h
    have hs := sweepNext_states h
    refine hb.write hsw.keeps.others hm hsw.after (fun p hp => .inr fun st hst' => ?_)
      fun p st hp hv => .inl ?_
    · obtain rfl := Option.some.inj (hst.symm.trans hp)
      rw [hs] at hst'
      simp only [TssMem.setStates, Heap.mapAt_self, hst₀, Option.map_some,
        Option.some.injEq] at hst'
      simp [← hst']
    · rw [hs] at hp
      simp only [TssMem.setStates, Heap.mapAt] at hp
      split at hp
      · obtain ⟨st', -, rfl⟩ := Option.map_eq_some_iff.mp hp
        cases hv
      · exact ⟨st, hp, hv⟩

theorem destroySweep_bound {sweep : Sweep} {it : Option Key}
    (h : destroySweep m val it = .ok (sweep, m')) (hb : m.Bound i) : m'.Bound i := by
  obtain ⟨mem₁, mem', hst, hsw⟩ := destroySweep_ok h
  simp only [destroySweep, bind_ok, readTss_ok] at h
  obtain ⟨mem, hm, h⟩ := h
  refine hb.write hsw.keeps.others hsw.before hsw.after (fun p hp => .inl (hst.trans hp))
    fun p st hp hv => .inl ?_
  rw [sweepNext_states h] at hp
  exact ⟨st, hp, hv⟩

end

section

variable {s s' : TssState} {act : TssAction} {before after : Option TssCall} {i : Addr}

/-- Every step keeps to it: `free` has nothing to lead to what it frees. -/
theorem TssTurn.bound (h : TssTurn s s' act before after) (hb : s.mem.Bound i)
    (hf : s.mem.instances s.mem.nextInstance = none)
    (hfree : before = some (.destroy i .free) →
      ∀ state st, s.mem.states state = some st → st.val ≠ some i) : s'.mem.Bound i := by
  have still : s'.mem = s.mem → s'.mem.Bound i := fun h => by rw [h]; exact hb
  have looked : ∀ {t val ret mytid}, tssLookup s.mem t val = .ok (ret, mytid, s'.mem) →
      s'.mem.Bound i := by
    intro t val ret mytid hl
    obtain ⟨-, -, hm⟩ := tssLookup_ok hl
    rw [hm]
    exact hb.still (by simp) (by simp)
  cases h with
  | allocate t hm =>
    rw [hm]
    intro p st hp hv
    obtain ⟨mem, hi, hst⟩ := hb p st hp hv
    refine ⟨mem, ?_, hst⟩
    have hne : i ≠ s.mem.nextInstance := by
      rintro rfl
      rw [hf] at hi
      cases hi
    simp [tssCreate, hne, hi]
  | get t val ret mytid hl => exact looked hl
  | found t val v mytid hl => exact looked hl
  | init t val mytid hl => exact looked hl
  | insert t env val mytid newitem hi => exact threadInitInsert_bound hi hb
  | reject t env val mytid newitem hi => exact threadInitInsert_bound hi hb
  | register t env val ret hr =>
    refine hb.still (by rw [(threadInitRegister_keeps hr).1]) ?_
    simp only [threadInitRegister, bind_ok] at hr
    obtain ⟨mem, -, hr⟩ := hr
    split at hr <;> · rw [← (Prod.mk.inj (pure_ok.mp hr)).2]
  | runAtexit t state items ht hx hi hm => exact hb.still (by rw [hm]) (by rw [hm])
  | lookup t env state val mytid item hl => exact deinitLookup_bound hl hb
  | missing t env state val mytid hl => exact deinitLookup_bound hl hb
  | drop t env state hr => exact releaseState_bound hr hb
  | erase t env state val mytid item he => exact deinitErase_bound he hb
  | destroy t val sweep hd => exact destroyBegin_bound hd hb
  | sweep t env val item it sweep hd => exact destroySweep_bound hd hb
  | free t env val instances hfr hm =>
    obtain ⟨-, rfl⟩ := Heap.free_ok.mp hfr
    rw [hm]
    intro p st hp hv
    have hne : i ≠ val := by
      rintro rfl
      exact hfree rfl p st hp hv
    obtain ⟨mem, hi, hst⟩ := hb p st hp hv
    exact ⟨mem, by simp [hne, hi], hst⟩
  | _ => exact still ‹_›

end

/-- What a call goes by: the entry it looked up, and what it found there. -/
def TssCall.sees : TssCall → Option (Addr × Key × Option Value)
  | .threadInit val (.create mytid) => some (val, mytid, none)
  | .threadInit val (.insert mytid _) => some (val, mytid, none)
  | .deinit _ (.callback val mytid item) => some (val, mytid, some item)
  | .deinit _ (.erase val mytid item) => some (val, mytid, some item)
  | _ => none

def TssCall.deinits : TssCall → Prop
  | .deinit _ _ => True
  | _ => False

/-- Where the iterator of a sweep will stand. -/
def DestroyPc.iterator : DestroyPc → Option Key
  | .callback _ it => it
  | .calling _ it => it
  | .free => none

/-- Two calls in progress do not get in each other's way. -/
structure TssAct.Apart (tid32 : Tid → UInt32) (i : Addr) (a b : TssAct) : Prop where
  ids : a.tid ≠ b.tid → tid32 a.tid ≠ tid32 b.tid
  inits : a.tid = b.tid → (a.call.initPc i).isSome → (b.call.initPc i).isSome → False
  deinits : a.tid = b.tid → a.call.deinits → b.call.deinits → False
  sweeps : a.call.sweeps i → b.call.on ≠ some i
  swept : b.call.sweeps i → a.call.on ≠ some i

theorem TssAct.Apart.symm {tid32 : Tid → UInt32} {i : Addr} {a b : TssAct}
    (h : a.Apart tid32 i b) : b.Apart tid32 i a :=
  ⟨fun he hk => h.ids (Ne.symm he) hk.symm, fun he hb ha => h.inits he.symm ha hb,
    fun he hb ha => h.deinits he.symm ha hb, h.swept, h.sweeps⟩

/-- Whether the call still has to hand the item on: to the map, or to `attr.destroy`. -/
def TssCall.owes (v : Value) : TssCall → Bool
  | .threadInit _ (.insert _ newitem) => newitem == v
  | .threadInit _ (.discard newitem) => newitem == v
  | .destroy _ (.callback item _) => item == v
  | _ => false

/-- Whether the call has passed the item to `attr.destroy` and will erase the entry next. -/
def TssCall.erases (v : Value) : TssCall → Bool
  | .deinit _ (.erase _ _ item) => item == v
  | _ => false

def TssState.owed (s : TssState) (v : Value) : Nat := s.acts.countP fun a => a.call.owes v

def TssState.erasing (s : TssState) (v : Value) : Nat := s.acts.countP fun a => a.call.erases v

def TssState.stored (s : TssState) (v : Value) : Nat :=
  if s.mem.cell v.val v.mytid = some v then 1 else 0

/-- Where the items of an instance are, as long as it is tended. -/
structure Tending (i : Addr) (h : TssHistory) : Prop where
  fresh : h.state.mem.Fresh
  values : ValuesInv h.state
  bound : h.state.mem.Bound i
  produced : ∀ v, h.state.mentions v → v ∈ h.produced
  serials : ∀ v ∈ h.produced, v.serial < h.state.nextValue
  held : ∀ a ∈ h.state.acts, ∀ v, a.call.role.value = some v → a.call.on = some v.val
  lows : ∀ a ∈ h.state.acts, ∀ k, a.call.key = some k →
    k.toUInt32 = h.state.mem.tid32 a.tid
  apart : h.state.acts.Pairwise (TssAct.Apart h.state.mem.tid32 i)
  sees : ∀ a ∈ h.state.acts, ∀ k o, a.call.sees = some (i, k, o) → h.state.mem.cell i k = o
  live : ∀ a ∈ h.state.acts, a.call.on = some i → (h.state.mem.instances i).isSome
  sweeps : ∀ a ∈ h.state.acts, ∀ pc, a.call = .destroy i pc →
    ∃ mem, h.state.mem.instances i = some mem ∧ mem.state = none ∧ mem.map.first = pc.iterator
  /-- Every item is owed, stored or gone; one whose entry is about to be erased is both. -/
  balance : ∀ v ∈ h.produced, v.val = i →
    h.state.begun v + h.state.owed v + h.state.stored v = 1 + h.state.erasing v

theorem Tending.initial (i : Addr) (ids : Tid → UInt64) : Tending i (.initial ids) where
  fresh _ _ := rfl
  values := .initial ids
  bound := by simp [TssHistory.initial, TssState.initial, TssMem.initial, TssMem.Bound, Heap.empty]
  produced := by
    simp [TssHistory.initial, TssState.initial, TssState.mentions, TssMem.initial, TssMem.cell,
      Heap.empty]
  serials := by simp [TssHistory.initial]
  held := by simp [TssHistory.initial, TssState.initial]
  lows := by simp [TssHistory.initial, TssState.initial]
  apart := by simp [TssHistory.initial, TssState.initial]
  sees := by simp [TssHistory.initial, TssState.initial]
  live := by simp [TssHistory.initial, TssState.initial]
  sweeps := by simp [TssHistory.initial, TssState.initial]
  balance := by simp [TssHistory.initial]

section

variable {h h' : TssHistory} {act : TssAction} {before after : Option TssCall}
  {rest : List TssAct} {i : Addr} {c c' : TssCall}

/-- A call goes on on the same instance, or is a `deinit` that finds out which it is on. -/
theorem TssTurn.goes_on {s s' : TssState} (h : TssTurn s s' act (some c) (some c')) (i : Addr) :
    ((c'.initPc i).isSome → (c.initPc i).isSome) ∧ (c'.deinits → c.deinits) ∧
    (c'.sweeps i → c.sweeps i) ∧
    (c'.on = some i → c.on = some i ∨
      ∃ state st, c.deinits ∧ s.mem.states state = some st ∧ st.val = some i) := by
  cases h with
  | enter t env state st val hs hv hm =>
    obtain ⟨a, rfl, hst⟩ := Heap.read_ok.mp hs
    refine ⟨id, id, id, fun hon => .inr ⟨a, st, trivial, hst, ?_⟩⟩
    rw [hv]
    exact hon
  | sweep t env val item it sweep hd =>
    cases sweep <;> exact ⟨id, id, id, .inl⟩
  | created | insert | reject | discard =>
    refine ⟨fun hi => ?_, id, id, .inl⟩
    simp only [TssCall.initPc] at hi ⊢
    split at hi
    · simp [*]
    · cases hi
  | _ => exact ⟨id, id, id, .inl⟩

theorem Tending.apart_step (hi : Tending i h) (hok : Tended i h act)
    (hm : TssMoves h.state h'.state act before after rest) :
    h'.state.acts.Pairwise (TssAct.Apart h'.state.mem.tid32 i) := by
  rw [hm.turn.mem.ids]
  refine hm.pairwise (fun _ _ => TssAct.Apart.symm) hi.apart fun c' hc' b hb hap => ?_
  have hbs := hm.rest_mem hb
  cases before with
  | some c =>
    have hap := hap c rfl
    subst hc'
    obtain ⟨hinit, hdeinit, hsweep, hon⟩ := hm.turn.goes_on i
    refine ⟨hap.ids, fun he h1 h2 => hap.inits he (hinit h1) h2,
      fun he h1 h2 => hap.deinits he (hdeinit h1) h2, fun h1 => hap.sweeps (hsweep h1),
      fun h1 h2 => ?_⟩
    rcases hon h2 with h2 | ⟨state, st, -, hst, hv⟩
    · exact hap.swept h1 h2
    · -- the sweep has cut the instance off from its `deinit_state`
      obtain ⟨mem, hmem, hp⟩ := hi.bound state st hst hv
      obtain ⟨btid, bcall⟩ := b
      cases bcall with
      | destroy val pc =>
        obtain rfl : val = i := h1
        obtain ⟨mem', hmem', hnone, -⟩ := hi.sweeps _ hbs pc rfl
        rw [hmem] at hmem'
        cases hmem'
        rw [hnone] at hp
        cases hp
      | _ => exact h1
  | none =>
    subst hc'
    have hids : act.tid ≠ b.tid → h.state.mem.tid32 act.tid ≠ h.state.mem.tid32 b.tid :=
      fun hne he => hok.ids b hbs (Ne.symm hne) he.symm
    generalize hn : (none : Option TssCall) = before at hm
    cases hm.turn with
    | init t val mytid hl =>
      refine ⟨hids, fun he h1 h2 => ?_, fun _ h1 => h1.elim, fun h1 => h1.elim, fun h1 h2 => ?_⟩
      · obtain rfl : val = i := by
          simp only [TssCall.initPc] at h1
          split at h1
          · assumption
          · cases h1
        have hnil := (hok.init t rfl).1
        obtain ⟨pc, hpc⟩ := Option.isSome_iff_exists.mp h2
        have hmem : pc ∈ h.state.inits t val := by
          refine List.mem_filterMap.mpr ⟨b.call, mem_calls.mpr ?_, hpc⟩
          rw [show t = b.tid from he]
          exact hbs
        rw [hnil] at hmem
        cases hmem
      · obtain rfl : val = i := Option.some.inj h2
        obtain ⟨btid, bcall⟩ := b
        cases bcall with
        | destroy v pc =>
          obtain rfl : v = val := h1
          exact (hok.init t rfl).2 _ hbs pc rfl
        | _ => exact h1
    | runAtexit t state items ht hx hit hmem =>
      refine ⟨hids, fun _ h1 => by simp [TssCall.initPc] at h1, fun he _ _ => ?_,
        fun h1 => h1.elim, fun _ h2 => by simp [TssCall.on] at h2⟩
      have := List.find?_eq_none.mp ht b hbs
      exact this (by simp [show b.tid = t from he.symm])
    | destroy t val sweep hd =>
      have hsw : ∀ {j}, (sweep.call val).on = some j → val = j := by
        intro j hj
        cases sweep <;> exact Option.some.inj hj
      refine ⟨hids, fun _ h1 => ?_, fun _ h1 => ?_, fun h1 => ?_, fun h1 h2 => ?_⟩
      · cases sweep <;> simp [Sweep.call, TssCall.initPc] at h1
      · cases sweep <;> exact h1.elim
      · obtain rfl : val = i := by cases sweep <;> exact h1
        exact hok.destroy t rfl b hbs
      · obtain rfl := hsw h2
        refine hok.destroy t rfl b hbs ?_
        obtain ⟨btid, bcall⟩ := b
        cases bcall with
        | destroy v pc => exact congrArg some h1
        | _ => exact h1.elim
    | _ => cases hn

theorem Tending.lows_step (hi : Tending i h)
    (hm : TssMoves h.state h'.state act before after rest) :
    ∀ a ∈ h'.state.acts, ∀ k, a.call.key = some k →
      k.toUInt32 = h'.state.mem.tid32 a.tid := by
  intro a ha k hk
  rw [hm.turn.mem.ids]
  rcases hm.mem_acts ha with ⟨ha, ht⟩ | ha
  · have own : ∀ {c}, before = some c → c.key = some k →
        k.toUInt32 = h.state.mem.tid32 act.tid :=
      fun hb hc => hi.lows _ (hm.before_mem hb) k hc
    rw [ht]
    generalize a.call = call at ha hk
    subst ha
    cases hm.turn with
    | init t val mytid hl =>
      cases hk
      obtain ⟨rfl, -⟩ := tssLookup_ok hl
      exact key_low _ _
    | lookup t env state val mytid item hl =>
      cases hk
      obtain ⟨rfl, -⟩ := deinitLookup_keeps hl
      exact key_low _ _
    | created t val mytid hmem => exact own rfl hk
    | callback t env state val mytid item hmem => exact own rfl hk
    | destroy t val sweep hd => cases sweep <;> cases hk
    | sweep t env val item it sweep hd => cases sweep <;> cases hk
    | _ => cases hk
  · exact hi.lows a (hm.rest_mem ha) k hk

theorem Tending.held_step (hi : Tending i h)
    (hm : TssMoves h.state h'.state act before after rest) :
    ∀ a ∈ h'.state.acts, ∀ v, a.call.role.value = some v → a.call.on = some v.val := by
  intro a ha v hv
  rcases hm.mem_acts ha with ⟨ha, -⟩ | ha
  · have own : ∀ {c}, before = some c → c.role.value = some v → c.on = some v.val :=
      fun hb hc => hi.held _ (hm.before_mem hb) v hc
    have of_cell : ∀ {j k}, h.state.mem.cell j k = some v → some j = some v.val :=
      fun hc => congrArg some (hi.values.home _ _ v (.inl hc)).1.symm
    have swept : ∀ {val sweep mem mem' it}, Swept h.state.mem h'.state.mem val mem mem' it sweep →
        (Sweep.call val sweep).role.value = some v →
        (Sweep.call val sweep).on = some v.val := by
      intro val sweep mem mem' it hsw hv
      cases sweep with
      | cleaned => cases hv
      | callback item next =>
        obtain ⟨key, -, hc, -⟩ := hsw.taken
        cases hv
        exact of_cell hc
    generalize a.call = call at ha hv
    subst ha
    cases hm.turn with
    | created t val mytid hmem => cases hv; rfl
    | reject t env val mytid newitem hins => exact (own rfl hv :)
    | discard t env val newitem hmem => exact (own rfl hv :)
    | lookup t env state val mytid item hl =>
      cases hv
      exact of_cell (deinitLookup_ok hl).2.symm
    | callback t env state val mytid item hmem => exact (own rfl hv :)
    | swept t env val item it hmem => exact (own rfl hv :)
    | destroy t val sweep hd =>
      obtain ⟨_, _, -, hsw⟩ := destroyBegin_ok hd
      exact swept hsw hv
    | sweep t env val item it sweep hd =>
      obtain ⟨_, _, -, hsw⟩ := destroySweep_ok hd
      exact swept hsw hv
    | _ => cases hv
  · exact hi.held a (hm.rest_mem ha) v hv

/-- While another call is at work on the instance, nobody sweeps it. -/
theorem Tending.unswept (hi : Tending i h)
    (hm : TssMoves h.state h'.state act before after rest)
    (hap : h'.state.acts.Pairwise (TssAct.Apart h'.state.mem.tid32 i)) {a : TssAct}
    (ha : a ∈ rest) (hon : a.call.on = some i) :
    ∀ call, before = some call ∨ after = some call → ¬ call.sweeps i := by
  rintro call (rfl | rfl) hs
  · have hp := hm.perm.pairwise hi.apart (fun {_ _} => TssAct.Apart.symm)
    exact ((List.pairwise_cons.mp hp).1 a ha).sweeps hs hon
  · rw [hm.acts] at hap
    exact ((List.pairwise_cons.mp hap).1 a ha).sweeps hs hon

theorem Tending.live_step (hi : Tending i h)
    (hm : TssMoves h.state h'.state act before after rest)
    (hap : h'.state.acts.Pairwise (TssAct.Apart h'.state.mem.tid32 i)) :
    ∀ a ∈ h'.state.acts, a.call.on = some i → (h'.state.mem.instances i).isSome := by
  intro a ha hon
  rcases hm.mem_acts ha with ⟨ha, -⟩ | ha
  · cases before with
    | some c =>
      have hne : some c ≠ some (.destroy i .free) := by
        intro hb
        generalize a.call = call at ha hon
        subst ha
        rw [hb] at hm
        cases hm.turn
      obtain ⟨-, -, -, hgo⟩ := (ha ▸ hm.turn).goes_on i
      refine hm.turn.mem.live ?_ hne
      rcases hgo hon with hc | ⟨state, st, -, hst, hv⟩
      · exact hi.live _ (hm.before_mem rfl) hc
      · obtain ⟨mem, hmem, -⟩ := hi.bound state st hst hv
        simp [hmem]
    | none =>
      refine hm.turn.mem.live ?_ (by simp)
      generalize a.call = call at ha hon
      generalize hn : (none : Option TssCall) = before at hm
      subst ha
      cases hm.turn with
      | init t val mytid hl =>
        obtain rfl := Option.some.inj hon
        simp only [tssLookup, bind_ok, readTss_ok, myCurrentThreadId_mem,
          instances_drawGeneration] at hl
        obtain ⟨mem, hmem, -⟩ := hl
        simp [hmem]
      | runAtexit => cases hon
      | destroy t val sweep hd =>
        obtain ⟨mem, _, -, hsw⟩ := destroyBegin_ok hd
        obtain rfl : val = i := by cases sweep <;> exact Option.some.inj hon
        simp [hsw.before]
      | _ => cases hn
  · refine hm.turn.mem.live (hi.live a (hm.rest_mem ha) hon) fun hb => ?_
    exact hi.unswept hm hap ha hon _ (.inl hb) rfl

theorem sees_key {k : Key} {o : Option Value} (hc : c.sees = some (i, k, o)) :
    c.key = some k ∧ c.on = some i ∧
      ((c.initPc i).isSome ∧ o = none ∨ c.deinits ∧ ∃ v, o = some v) := by
  unfold TssCall.sees at hc
  split at hc <;> cases hc
  · exact ⟨rfl, rfl, .inl ⟨by simp [TssCall.initPc], rfl⟩⟩
  · exact ⟨rfl, rfl, .inl ⟨by simp [TssCall.initPc], rfl⟩⟩
  · exact ⟨rfl, rfl, .inr ⟨trivial, _, rfl⟩⟩
  · exact ⟨rfl, rfl, .inr ⟨trivial, _, rfl⟩⟩

theorem sees_of_cell {k : Key} (hc : c.cell = some (i, k)) : ∃ o, c.sees = some (i, k, o) := by
  unfold TssCall.cell at hc
  split at hc <;> cases hc <;> exact ⟨_, rfl⟩

/-- What one call goes by, no other call is about to change. -/
theorem Tending.sees_apart (hi : Tending i h)
    (hm : TssMoves h.state h'.state act before after rest) {a : TssAct} (ha : a ∈ rest)
    {k : Key} {o : Option Value} (hs : a.call.sees = some (i, k, o)) :
    before.bind TssCall.cell ≠ some (i, k) := by
  intro hb
  obtain ⟨c, rfl, hcell⟩ := Option.bind_eq_some_iff.mp hb
  obtain ⟨o', hs'⟩ := sees_of_cell hcell
  have hp := hm.perm.pairwise hi.apart (fun {_ _} => TssAct.Apart.symm)
  have hap := (List.pairwise_cons.mp hp).1 a ha
  obtain ⟨hkey, -, hkind⟩ := sees_key hs
  obtain ⟨hkey', -, hkind'⟩ := sees_key hs'
  have hlow := hi.lows a (hm.rest_mem ha) k hkey
  have hlow' := hi.lows _ (hm.before_mem rfl) k hkey'
  have htid : act.tid = a.tid := by
    by_contra hne
    exact hap.ids hne (hlow'.symm.trans hlow)
  have hsee := hi.sees a (hm.rest_mem ha) k o hs
  have hsee' := hi.sees _ (hm.before_mem rfl) k o' hs'
  rcases hkind with ⟨h1, rfl⟩ | ⟨h1, v, rfl⟩ <;> rcases hkind' with ⟨h2, rfl⟩ | ⟨h2, v', rfl⟩
  · exact hap.inits htid h2 h1
  · rw [hsee] at hsee'
    cases hsee'
  · rw [hsee] at hsee'
    cases hsee'
  · exact hap.deinits htid h2 h1

theorem Tending.sees_step (hi : Tending i h)
    (hm : TssMoves h.state h'.state act before after rest)
    (hap : h'.state.acts.Pairwise (TssAct.Apart h'.state.mem.tid32 i)) :
    ∀ a ∈ h'.state.acts, ∀ k o, a.call.sees = some (i, k, o) →
      h'.state.mem.cell i k = o := by
  intro a ha k o hs
  rcases hm.mem_acts ha with ⟨ha, -⟩ | ha
  · have own : ∀ {c}, before = some c → c.sees = some (i, k, o) →
        h'.state.mem = h.state.mem → h'.state.mem.cell i k = o :=
      fun hb hc hmem => hmem ▸ hi.sees _ (hm.before_mem hb) k o hc
    generalize a.call = call at ha hs
    subst ha
    cases hm.turn with
    | init t val mytid hl =>
      cases hs
      obtain ⟨-, hnone, hmem⟩ := tssLookup_ok hl
      rw [hmem, cell_congr (instances_drawGeneration _ t), hnone]
    | created t val mytid hmem =>
      cases hs
      exact own rfl rfl hmem
    | lookup t env state val mytid item hl =>
      cases hs
      obtain ⟨hcell, hitem⟩ := deinitLookup_ok hl
      rw [hcell, hitem]
    | callback t env state val mytid item hmem =>
      cases hs
      exact own rfl rfl hmem
    | destroy t val sweep hd => cases sweep <;> cases hs
    | sweep t env val item it sweep hd => cases sweep <;> cases hs
    | _ => cases hs
  · have hcells := hm.turn.cells (hi.fresh _ (Nat.le_refl _))
    have hon := (sees_key hs).2.1
    rw [hcells.frame (hi.unswept hm hap ha hon) (hi.sees_apart hm ha hs)]
    exact hi.sees a (hm.rest_mem ha) k o hs

/-- The sweep of an instance goes on where it stands. -/
theorem Tending.sweeps_step (hi : Tending i h)
    (hm : TssMoves h.state h'.state act before after rest)
    (hap : h'.state.acts.Pairwise (TssAct.Apart h'.state.mem.tid32 i)) :
    ∀ a ∈ h'.state.acts, ∀ pc, a.call = .destroy i pc →
      ∃ mem, h'.state.mem.instances i = some mem ∧ mem.state = none ∧
        mem.map.first = pc.iterator := by
  intro a ha pc hc
  rcases hm.mem_acts ha with ⟨ha, -⟩ | ha
  · rw [hc] at ha
    have own : ∀ {pc}, before = some (.destroy i pc) →
        ∃ mem, h.state.mem.instances i = some mem ∧ mem.state = none ∧
          mem.map.first = pc.iterator :=
      fun hb => hi.sweeps _ (hm.before_mem hb) _ rfl
    have round : ∀ {sweep mem mem' it}, Swept h.state.mem h'.state.mem i mem mem' it sweep →
        mem'.state = none → mem.map.first = it → sweep.call i = .destroy i pc →
        ∃ mem, h'.state.mem.instances i = some mem ∧ mem.state = none ∧
          mem.map.first = pc.iterator := by
      intro sweep mem mem' it hsw hnone hfirst hcall
      refine ⟨mem', hsw.after, hnone, ?_⟩
      cases hsw.round with
      | cleaned hmap =>
        cases hcall
        rw [hmap]
        rfl
      | callback key item hitem hmap =>
        cases hcall
        rw [hmap]
        exact FinMap.first_erase hfirst
    generalize hd : some (TssCall.destroy i pc) = d at ha
    subst ha
    cases hm.turn with
    | destroy t val sweep hbegin =>
      obtain ⟨mem, mem', hnone, hsw⟩ := destroyBegin_ok hbegin
      have hcall := Option.some.inj hd
      obtain rfl : i = val := by cases sweep <;> cases hcall <;> rfl
      exact round hsw hnone rfl hcall.symm
    | swept t env val item it hmem =>
      cases hd
      obtain ⟨mem, h1, h2, h3⟩ := own rfl
      exact ⟨mem, by rw [hmem]; exact h1, h2, h3⟩
    | sweep t env val item it sweep hnext =>
      obtain ⟨mem, mem', hst, hsw⟩ := destroySweep_ok hnext
      have hcall := Option.some.inj hd
      obtain rfl : i = val := by cases sweep <;> cases hcall <;> rfl
      obtain ⟨mem₀, h1, h2, h3⟩ := own rfl
      obtain rfl : mem = mem₀ := Option.some.inj (hsw.before.symm.trans h1)
      exact round hsw (hst.trans h2) h3 hcall.symm
    | _ => cases hd
  · obtain ⟨mem, h1, h2, h3⟩ := hi.sweeps a (hm.rest_mem ha) pc hc
    have hon : a.call.on = some i := by rw [hc]; rfl
    have hsw : a.call.sweeps i := by rw [hc]; rfl
    refine ⟨mem, ?_, h2, h3⟩
    rw [hm.turn.instances, h1]
    · rintro rfl
      rw [hi.fresh _ (Nat.le_refl _)] at h1
      cases h1
    · rintro call (rfl | rfl) hcall
      · have hp := hm.perm.pairwise hi.apart (fun {_ _} => TssAct.Apart.symm)
        exact ((List.pairwise_cons.mp hp).1 a ha).swept hsw hcall
      · rw [hm.acts] at hap
        exact ((List.pairwise_cons.mp hap).1 a ha).swept hsw hcall

end

section

variable {s s' : TssState} {val : Addr} {k : Key} {v w : Value}

theorem stored_congr (h : s'.mem.cell v.val v.mytid = s.mem.cell v.val v.mytid) :
    s'.stored v = s.stored v := by
  rw [TssState.stored, h, TssState.stored]

theorem stored_insert (hv : w.val = val) (hk : w.mytid = k)
    (hn : v.val = val → s.mem.cell val k = none)
    (hc : ∀ i l, s'.mem.cell i l = if i = val ∧ l = k then some w else s.mem.cell i l) :
    s'.stored v = s.stored v + if w == v then 1 else 0 := by
  unfold TssState.stored
  rw [hc]
  by_cases hvw : w = v
  · subst hvw
    simp [hv, hk, hn hv]
  · have hvw' : ¬ some w = some v := fun h => hvw (Option.some.inj h)
    by_cases hcell : v.val = val ∧ v.mytid = k
    · obtain ⟨h1, h2⟩ := hcell
      simp [h1, h2, hvw, hn h1]
    · simp [hcell, hvw]

theorem stored_erase (hw : s.mem.cell val k = some w ∨ v.val ≠ val) (hv : w.val = val)
    (hk : w.mytid = k)
    (hc : ∀ i l, s'.mem.cell i l = if i = val ∧ l = k then none else s.mem.cell i l) :
    s.stored v = s'.stored v + if w == v then 1 else 0 := by
  unfold TssState.stored
  rw [hc]
  by_cases hvw : w = v
  · subst hvw
    have hw' := hw.resolve_right fun h => h hv
    rw [hv, hk]
    simp [hw']
  · have hvw' : ¬ some w = some v := fun h => hvw (Option.some.inj h)
    by_cases hcell : v.val = val ∧ v.mytid = k
    · obtain ⟨h1, h2⟩ := hcell
      have hw' := hw.resolve_right fun h => h h1
      simp [h1, h2, hvw, hw']
    · simp [hcell, hvw]

end

section

variable {h h' : TssHistory} {act : TssAction} {before after : Option TssCall}
  {rest : List TssAct} {i : Addr}

theorem Tending.produced_step (hi : Tending i h) (hs : historyStep h act = .ok h')
    (hm : TssMoves h.state h'.state act before after rest) :
    (∀ v, h'.state.mentions v → v ∈ h'.produced) ∧
    ∀ v ∈ h'.produced, v.serial < h'.state.nextValue := by
  have hold := (historyStep_ok hs).2.2
  have hf := hi.fresh _ (Nat.le_refl _)
  have same : act.produces = false → (∀ v, h'.state.mentions v → v ∈ h'.produced) ∧
      ∀ v ∈ h'.produced, v.serial < h'.state.nextValue := by
    intro hp
    rw [(hold hp).2, hm.next, hp]
    refine ⟨fun v hv => ?_, hi.serials⟩
    rcases hm.mentions hf hv with hv | ⟨t, val, mytid, rfl, -⟩
    · exact hi.produced v hv
    · cases hp
  cases hm.turn with
  | created t val mytid hmem =>
    have hnew := (historyStep_created hm.beside.1 hs).1
    have hnext : h'.state.nextValue = h.state.nextValue + 1 := hm.next
    rw [hnew, hnext]
    refine ⟨fun v hv => ?_, fun v hv => ?_⟩
    · rcases hm.mentions hf hv with hv | ⟨_, _, _, ht, hb, rfl⟩
      · exact List.mem_cons_of_mem _ (hi.produced v hv)
      · cases ht
        cases hb
        exact List.mem_cons_self
    · rcases List.mem_cons.mp hv with rfl | hv
      · exact Nat.lt_succ_self _
      · exact Nat.lt_succ_of_lt (hi.serials v hv)
  | uncreated t r val mytid hr hmem =>
    cases r with
    | item => exact absurd rfl hr
    | failed => exact same rfl
    | null => exact same rfl
  | _ => exact same rfl

theorem value_of_owes {c : TssCall} {v : Value} (h : c.owes v = true) :
    c.role.value = some v := by
  unfold TssCall.owes at h
  split at h
  · exact congrArg some (beq_iff_eq.mp h)
  · exact congrArg some (beq_iff_eq.mp h)
  · exact congrArg some (beq_iff_eq.mp h)
  · cases h

theorem value_of_erases {c : TssCall} {v : Value} (h : c.erases v = true) :
    c.role.value = some v := by
  unfold TssCall.erases at h
  split at h
  · exact congrArg some (beq_iff_eq.mp h)
  · cases h

/-- An item nothing mentions is owed and stored nowhere. -/
theorem untouched {s : TssState} {v : Value} (hv : ¬ s.mentions v) :
    s.begun v = 0 ∧ s.owed v = 0 ∧ s.stored v = 0 ∧ s.erasing v = 0 := by
  have hcalls : ∀ a ∈ s.acts, a.role.value ≠ some v :=
    fun a ha h => hv (.inr (.inl ⟨a, ha, h⟩))
  refine ⟨?_, ?_, ?_, ?_⟩
  · by_contra hb
    exact hv (.inr (.inr hb))
  · exact List.countP_eq_zero.mpr fun a ha ho => hcalls a ha (value_of_owes ho)
  · exact if_neg fun hc => hv (.inl ⟨_, _, hc⟩)
  · exact List.countP_eq_zero.mpr fun a ha he => hcalls a ha (value_of_erases he)

/-- A section moves an item from one place to the next, and only `attr.create` adds one. -/
theorem Tending.flow (hi : Tending i h) (hm : TssMoves h.state h'.state act before after rest)
    {v : Value} (hv : v.val = i) :
    h'.state.begun v + h'.state.owed v + h'.state.stored v + h.state.erasing v =
      h.state.begun v + h.state.owed v + h.state.stored v + h'.state.erasing v +
        if act.produces then after.toList.countP (TssCall.owes v) else 0 := by
  have hf := hi.fresh _ (Nat.le_refl _)
  have howed := hm.count (TssCall.owes v)
  have herase := hm.count (TssCall.erases v)
  have hbegun : h'.state.begun v =
      h.state.begun v + (before.bind TssCall.due).toList.countP (· == v) := by
    rw [hm.begun]
    cases before.bind TssCall.due with
    | none => rfl
    | some w =>
      by_cases hw : v = w
      · subst hw
        simp [begin_apply]
      · simp [begin_apply, hw, Ne.symm hw]
  -- a step that leaves the entries of the instance alone
  have still : h'.state.mem.cell v.val v.mytid = h.state.mem.cell v.val v.mytid →
      h'.state.stored v = h.state.stored v := stored_congr
  have looked : ∀ {t val ret mytid}, tssLookup h.state.mem t val = .ok (ret, mytid, h'.state.mem) →
      h'.state.stored v = h.state.stored v := by
    intro t val ret mytid hl
    obtain ⟨-, -, hmem⟩ := tssLookup_ok hl
    exact still (by rw [hmem, cell_congr (instances_drawGeneration _ t)])
  have empty : ∀ {val pc}, before = some (.destroy val pc) → pc.iterator = none → v.val = val →
      ∀ k, h.state.mem.cell val k = none := by
    intro val pc hb hp hval k
    obtain rfl : val = i := hval.symm.trans hv
    obtain ⟨mem, hmem, -, hfirst⟩ := hi.sweeps _ (hm.before_mem hb) pc rfl
    rw [cell_of_live hmem, FinMap.get_of_first_none (hfirst.trans hp)]
  -- a round of the sweep that takes an item out, or finds none
  have swept : ∀ {val sweep mem mem' it}, Swept h.state.mem h'.state.mem val mem mem' it sweep →
      (it = none → v.val = val → ∀ k, h.state.mem.cell val k = none) →
      h.state.stored v = h'.state.stored v + [Sweep.call val sweep].countP (TssCall.owes v) := by
    intro val sweep mem mem' it hsw hempty
    cases sweep with
    | cleaned =>
      obtain ⟨rfl, hc⟩ := hsw.cleaned
      refine (still ?_).symm
      rw [hc]
      split
      · rename_i hval
        rw [hval, hempty rfl hval]
      · rfl
    | callback item next =>
      obtain ⟨key, -, hitem, -, hc⟩ := hsw.taken
      obtain ⟨hval, hkey⟩ := hi.values.home _ _ item (.inl hitem)
      rw [stored_erase (.inl hitem) hval hkey hc]
      simp [Sweep.call, TssCall.owes]
  -- the counts before and after, once the two calls are known
  rw [TssState.owed, TssState.owed, TssState.erasing, TssState.erasing, howed.1, howed.2,
    herase.1, herase.2, hbegun]
  cases hm.turn with
  | allocate t hmem => simp [still (by rw [hmem, cell_tssCreate hf]), TssAction.produces]
  | get t val ret mytid hl | found t val v mytid hl =>
    simp [looked hl, TssAction.produces]
  | init t val mytid hl =>
    simp [looked hl, TssAction.produces, TssCall.owes, TssCall.erases]
  | created t val mytid hmem =>
    simp [still (by rw [hmem]), TssAction.produces, TssCall.owes, TssCall.erases, TssCall.due]
    omega
  | uncreated t r val mytid hr hmem =>
    have hp : TssAction.produces (.created t r) = false := by
      cases r with
      | item => exact absurd rfl hr
      | _ => rfl
    simp [still (by rw [hmem]), hp, TssCall.owes, TssCall.erases, TssCall.due]
  | insert t env val mytid newitem hins =>
    have hin := hm.before_mem rfl
    have hval : newitem.val = val :=
      (Option.some.inj (hi.held _ hin newitem rfl)).symm
    have hkey : newitem.mytid = mytid :=
      (hi.values.home val mytid newitem (.inr ⟨_, hin, .inl rfl⟩)).2
    have hnone : v.val = val → h.state.mem.cell val mytid = none := by
      intro he
      obtain rfl : val = i := he.symm.trans hv
      exact hi.sees _ hin mytid none rfl
    have hst := stored_insert hval hkey hnone (threadInitInsert_kept hins)
    simp [hst, TssAction.produces, TssCall.owes, TssCall.erases, TssCall.due]
    omega
  | reject t env val mytid newitem hins =>
    have hin := hm.before_mem rfl
    have hst : h'.state.stored v = h.state.stored v := by
      refine still ?_
      rcases threadInitInsert_rejected hins v.val v.mytid with hc | ⟨hval, hkey, hc⟩
      · exact hc
      · obtain rfl : val = i := hval.symm.trans hv
        rw [hc, hval, hkey, hi.sees _ hin mytid none rfl]
    simp [hst, TssAction.produces, TssCall.owes, TssCall.erases, TssCall.due]
  | register t env val ret hr =>
    simp [still (by rw [cell_congr (threadInitRegister_keeps hr).1]), TssAction.produces,
      TssCall.owes, TssCall.erases, TssCall.due]
  | runAtexit t state items ht hx hit hmem =>
    simp [still (by rw [hmem]; rfl), TssAction.produces, TssCall.owes, TssCall.erases]
  | lookup t env state val mytid item hl | missing t env state val mytid hl =>
    simp [still (by rw [(deinitLookup_ok hl).1]), TssAction.produces, TssCall.owes,
      TssCall.erases, TssCall.due]
  | drop t env state hr =>
    simp [still (by rw [cell_congr (releaseState_ok 0 hr).1]), TssAction.produces,
      TssCall.owes, TssCall.erases, TssCall.due]
  | erase t env state val mytid item he =>
    have hin := hm.before_mem rfl
    have hval : item.val = val := (Option.some.inj (hi.held _ hin item rfl)).symm
    have hst : h.state.stored v = h'.state.stored v + if item == v then 1 else 0 := by
      by_cases he' : val = i
      · subst he'
        have hcell := hi.sees _ hin mytid (some item) rfl
        exact stored_erase (.inl hcell) hval (hi.values.home _ _ item (.inl hcell)).2
          (deinitErase_ok he)
      · have hne : ¬ item = v := fun h => he' (by rw [← hval, h, hv])
        rw [still (by rw [deinitErase_ok he, if_neg fun h => he' (by rw [← h.1, hv])])]
        simp [hne]
    simp [hst, TssAction.produces, TssCall.owes, TssCall.erases, TssCall.due]
    omega
  | destroy t val sweep hd =>
    obtain ⟨mem, mem', -, hsw⟩ := destroyBegin_ok hd
    have hst := swept hsw fun hit hval k => by
      rw [cell_of_live hsw.before, FinMap.get_of_first_none hit]
    have hnot : [Sweep.call val sweep].countP (TssCall.erases v) = 0 := by cases sweep <;> rfl
    simp only [Option.toList_some, Option.toList_none, List.countP_nil, Option.bind_none, hnot,
      hst, TssAction.produces, Bool.false_eq_true, if_false]
    omega
  | sweep t env val item it sweep hd =>
    obtain ⟨mem, mem', -, hsw⟩ := destroySweep_ok hd
    have hst := swept hsw fun hit => empty rfl (by rw [← hit]; rfl)
    have hnot : [Sweep.call val sweep].countP (TssCall.erases v) = 0 := by cases sweep <;> rfl
    simp only [Option.toList_some, Option.toList_none, List.countP_nil, Option.bind_some, hnot,
      hst, TssAction.produces, Bool.false_eq_true, if_false, List.countP_cons, TssCall.owes,
      TssCall.erases, TssCall.due]
    omega
  | free t env val instances hfr hmem =>
    obtain ⟨-, rfl⟩ := Heap.free_ok.mp hfr
    have hst : h'.state.stored v = h.state.stored v := by
      refine still ?_
      by_cases hval : v.val = val
      · rw [hval, empty rfl rfl hval]
        simp [hmem, TssMem.cell]
      · simp [hmem, TssMem.cell, hval]
    simp [hst, TssAction.produces, TssCall.owes, TssCall.erases, TssCall.due]
  | _ =>
    simp [still (by rw [‹h'.state.mem = h.state.mem›]), TssAction.produces, TssCall.owes,
      TssCall.erases, TssCall.due]
    try omega

theorem Tending.balance_step (hi : Tending i h) (hs : historyStep h act = .ok h')
    (hm : TssMoves h.state h'.state act before after rest) :
    ∀ v ∈ h'.produced, v.val = i →
      h'.state.begun v + h'.state.owed v + h'.state.stored v = 1 + h'.state.erasing v := by
  intro v hv hval
  have hflow := hi.flow hm hval
  have hold := (historyStep_ok hs).2.2
  cases hp : act.produces with
  | false =>
    rw [(hold hp).2] at hv
    have := hi.balance v hv hval
    simp only [hp, Bool.false_eq_true, if_false] at hflow
    omega
  | true =>
    cases hm.turn with
    | created t val mytid hmem =>
      rw [(historyStep_created hm.beside.1 hs).1] at hv
      simp only [hp, if_true, Option.toList_some, List.countP_singleton, TssCall.owes,
        beq_iff_eq] at hflow
      rcases List.mem_cons.mp hv with rfl | hv
      · have hnot : ¬ h.state.mentions ⟨h.state.nextValue, t, val, mytid⟩ := fun hmen =>
          Nat.lt_irrefl h.state.nextValue (hi.serials _ (hi.produced _ hmen))
        obtain ⟨h1, h2, h3, h4⟩ := untouched hnot
        simp only [TssAction.tid, if_true] at hflow ⊢
        omega
      · have hne : ¬ (⟨h.state.nextValue, t, val, mytid⟩ : Value) = v := by
          rintro rfl
          exact Nat.lt_irrefl _ (hi.serials _ hv)
        have := hi.balance v hv hval
        rw [if_neg hne] at hflow
        omega
    | uncreated t r val mytid hr hmem =>
      cases r with
      | item => exact absurd rfl hr
      | _ => cases hp
    | _ => cases hp

theorem Tending.step (hi : Tending i h) (hok : Tended i h act)
    (hs : historyStep h act = .ok h') : Tending i h' := by
  have hstep := (historyStep_ok hs).1
  obtain ⟨before, after, rest, hm⟩ := tssStep_moves hstep
  obtain ⟨xs, ys, zs, hp, hq, he⟩ := tssStep_touches hi.fresh hstep
  have hap := hi.apart_step hok hm
  have hfree : before = some (.destroy i .free) →
      ∀ state st, h.state.mem.states state = some st → st.val ≠ some i := by
    intro hb state st hst hv
    obtain ⟨mem, hmem, hp⟩ := hi.bound state st hst hv
    obtain ⟨mem', hmem', hnone, -⟩ := hi.sweeps _ (hm.before_mem hb) _ rfl
    obtain rfl : mem = mem' := Option.some.inj (hmem.symm.trans hmem')
    rw [hnone] at hp
    cases hp
  obtain ⟨hproduced, hserials⟩ := hi.produced_step hs hm
  exact {
    fresh := hm.turn.mem.fresh hi.fresh
    values := valuesInv_of_effect hi.values hp hq he
    bound := hm.turn.bound hi.bound (hi.fresh _ (Nat.le_refl _)) hfree
    produced := hproduced
    serials := hserials
    held := hi.held_step hm
    lows := hi.lows_step hm
    apart := hap
    sees := hi.sees_step hm hap
    live := hi.live_step hm hap
    sweeps := hi.sweeps_step hm hap
    balance := hi.balance_step hs hm }

/-- With the instance gone, nothing holds on to an item of it. -/
theorem Tending.gone (hi : Tending i h) (hg : h.state.mem.instances i = none) {v : Value}
    (hv : v.val = i) :
    h.state.owed v = 0 ∧ h.state.stored v = 0 ∧ h.state.erasing v = 0 := by
  have away : ∀ a ∈ h.state.acts, a.call.role.value ≠ some v := by
    intro a ha hr
    have hlive := hi.live a ha (by rw [hi.held a ha v hr, hv])
    rw [hg] at hlive
    cases hlive
  refine ⟨List.countP_eq_zero.mpr fun a ha ho => away a ha ?_, if_neg ?_,
    List.countP_eq_zero.mpr fun a ha he => away a ha ?_⟩
  · exact value_of_owes ho
  · simp [TssMem.cell, hv, hg]
  · exact value_of_erases he

end

/-- Thread 0 runs its `deinit` before the instance is destroyed. Thread 1 fails to insert its
first item, is still registered when it calls `destroy`, and exits afterwards. -/
def disposedActions : List TssAction :=
  [.create 0 true, .threadInit 0 0, .created 0 .item, .advance 0 {}, .advance 0 {},
    .threadInit 1 0, .created 1 .item, .advance 1 { insert := false }, .advance 1 {},
    .advance 1 {}, .threadInit 1 0, .created 1 .item, .advance 1 {}, .advance 1 {},
    .exit 0, .runAtexit 0, .advance 0 {}, .advance 0 {}, .advance 0 {}, .advance 0 {},
    .destroy 1 0, .advance 1 {}, .advance 1 {}, .advance 1 {},
    .exit 1, .runAtexit 1, .advance 1 {}, .advance 1 {}]

end Wg14Signals
