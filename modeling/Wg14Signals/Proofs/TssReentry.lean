import Wg14Signals.Proofs.TssInit
import Wg14Signals.TssReentry

namespace Wg14Signals
open Lib

variable {m m' : TssMem} {t : Tid} {val : Addr} {item : Option Value} {v : Value}
  {st : Addr} {n : Nat} {items : List (Option Addr)} {h h' : TssHistory} {s : TssState}
  {rest : List TssAct} {blk : Option (Addr × Nat)}

/-- How a thread stands to an instance: the item it has there, the instance's `deinit_state`
with its count, and the thread's exit callbacks. -/
structure Standing (m : TssMem) (t : Tid) (val : Addr) (item : Option Value)
    (blk : Option (Addr × Nat)) (items : List (Option Addr)) : Prop where
  generation : m.generationCached t ≠ 0
  inst : ∃ mem, m.instances val = some mem ∧ mem.map.get (m.key t) = item ∧
    mem.state = blk.map Prod.fst
  block : ∀ st n, blk = some (st, n) → m.states st = some ⟨n, some val⟩ ∧ 0 < n
  items : m.atexitItems t = items

theorem Standing.count (hm : Standing m t val item blk items) :
    m.count val = (blk.map Prod.snd).getD 0 := by
  obtain ⟨mem, hm', -, hst⟩ := hm.inst
  cases blk with
  | none => simp [TssMem.count, hm', hst]
  | some x => simp [TssMem.count, hm', hst, (hm.block x.1 x.2 rfl).1]

theorem Standing.lookup (hm : Standing m t val item blk items) :
    tssLookup m t val = .ok (item, m.key t, m) := by
  obtain ⟨mem, hm', hk, -⟩ := hm.inst
  rw [lookup_of_live (Option.isSome_iff_exists.mpr ⟨mem, hm'⟩) t, cell_of_live hm', hk,
    drawGeneration_of_drawn hm.generation]

theorem Standing.get (hm : Standing m t val item blk items) :
    tssAsyncSignalSafeGet m t val = .ok item := by
  simp only [tssAsyncSignalSafeGet, hm.lookup]
  rfl

/-- The block and its count after one more registration. -/
def registered (m : TssMem) : Option (Addr × Nat) → Addr × Nat
  | none => (m.nextState, 1)
  | some (st, n) => (st, n + 1)

/-- The item of a call that goes on replaces whatever the thread has by then. -/
theorem Standing.inserts (hm : Standing m t val item blk items) (v : Value) (pos : Nat) :
    ∃ m', threadInitInsert { pos } m val (m.key t) v = .ok (true, m') ∧
      Standing m' t val (some v) (some (registered m blk)) items ∧ m'.key t = m.key t := by
  obtain ⟨hg, ⟨mem, hmem, -, hst⟩, hb, hi⟩ := hm
  have hr := readTss_ok.mpr hmem
  cases blk with
  | none =>
    let mem' : Tss := { state := some m.nextState, map := mem.map.insert (m.key t) v pos }
    have he : threadInitInsert { pos } m val (m.key t) v = .ok (true, { m.setTss val mem' with
        states := m.states.set m.nextState (some { count := 1, val := some val })
        nextState := m.nextState + 1 }) := by
      simp only [threadInitInsert, hr, bind, Except.bind, reduceIte, hst, Option.map_none]
      rfl
    have hk := (threadInitInsert_keeps he).toSameIds.key (t := t)
    refine ⟨_, he, ⟨hg, ⟨mem', Heap.set_self _ _ _, ?_, rfl⟩, ?_, hi⟩, hk⟩
    · rw [hk]
      exact FinMap.get_insert_self _ _ _ _
    · rintro _ _ ⟨⟩
      exact ⟨Heap.set_self _ _ _, Nat.one_pos⟩
  | some x =>
    obtain ⟨st, n⟩ := x
    obtain ⟨hbst, hn⟩ := hb st n rfl
    let mem' : Tss := { state := some st, map := mem.map.insert (m.key t) v pos }
    let inc : DeinitState → DeinitState := fun st => { st with count := st.count + 1 }
    have he : threadInitInsert { pos } m val (m.key t) v =
        .ok (true, (m.setTss val mem').setStates (m.states.mapAt (some st) inc)) := by
      simp only [threadInitInsert, hr, bind, Except.bind, reduceIte, hst, Option.map_some,
        Heap.update_run ⟨_, hbst⟩]
      rfl
    have hk := (threadInitInsert_keeps he).toSameIds.key (t := t)
    refine ⟨_, he, ⟨hg, ⟨mem', Heap.set_self _ _ _, ?_, rfl⟩, ?_, hi⟩, hk⟩
    · rw [hk]
      exact FinMap.get_insert_self _ _ _ _
    · rintro _ _ ⟨⟩
      refine ⟨?_, Nat.succ_pos n⟩
      simp [Heap.mapAt, hbst, inc]

theorem Standing.registers (hm : Standing m t val (some v) (some (st, n)) items) (pos : Nat) :
    ∃ m', threadInitRegister { pos } m t val = .ok (0, m') ∧
      Standing m' t val (some v) (some (st, n)) (some st :: items) ∧ m'.key t = m.key t := by
  obtain ⟨hg, ⟨mem, hmem, hc, hst⟩, hb, hi⟩ := hm
  let m' : TssMem := { m with
    atexitItems := fun u => if u = t then mem.state :: m.atexitItems t else m.atexitItems u }
  have he : threadInitRegister { pos } m t val = .ok (0, m') := by
    simp only [threadInitRegister, readTss_ok.mpr hmem, bind, Except.bind, reduceIte]
    rfl
  have hk : m'.key t = m.key t := SameIds.key ⟨rfl, rfl, rfl⟩
  have hitems : m'.atexitItems t = some st :: items := by simp [m', hi, hst]
  have hc' : mem.map.get (m'.key t) = some v := by rw [hk, hc]
  exact ⟨m', he, ⟨hg, ⟨mem, hmem, hc', hst⟩, hb, hitems⟩, hk⟩

theorem history_ok {act : TssAction} (hs : tssStep h.state act = .ok s)
    (hp : act.produces = false) :
    ∃ h', historyStep h act = .ok h' ∧ h'.state = s ∧ h'.produced = h.produced := by
  simp only [historyStep, hs, hp, bind, Except.bind]
  exact ⟨_, rfl, rfl, rfl⟩

theorem history_produces (hs : tssStep h.state (.created t .item) = .ok s)
    (hn : s.newitem t = some v) :
    ∃ h', historyStep h (.created t .item) = .ok h' ∧ h'.state = s ∧
      h'.produced = v :: h.produced := by
  simp only [historyStep, hs, bind, Except.bind, TssAction.produces, reduceIte,
    TssHistory.produce, TssAction.tid, hn]
  exact ⟨_, rfl, rfl, rfl⟩

/-- A thread that has an item keeps it. -/
theorem run_settled (p : TssUse) (hm : Standing h.state.mem t val (some v) blk items) :
    ∃ got h', p.run t val h = .ok (got, h') ∧ (∀ x ∈ got, x = some v) ∧ h'.state = h.state ∧
      h'.produced = h.produced := by
  induction p generalizing h with
  | done => exact ⟨[], h, rfl, by simp, rfl, rfl⟩
  | get rest ih =>
    have hs : tssStep h.state (.get t val) = .ok h.state := by
      simp only [tssStep, hm.lookup]
      rfl
    obtain ⟨h₁, he₁, hst₁, hp₁⟩ := history_ok hs rfl
    obtain ⟨got, h', he, hg, hst, hp⟩ := ih (h := h₁) (hst₁ ▸ hm)
    refine ⟨some v :: got, h', ?_, ?_, hst.trans hst₁, hp.trans hp₁⟩
    · simp only [TssUse.run, hm.get, he₁, he, bind, Except.bind]
      rfl
    · simpa using hg
  | threadInit pos during rest _ ih =>
    have hs : tssStep h.state (.threadInit t val) = .ok h.state := by
      simp only [tssStep, hm.lookup]
      rfl
    obtain ⟨h₁, he₁, hst₁, hp₁⟩ := history_ok hs rfl
    obtain ⟨got, h', he, hg, hst, hp⟩ := ih (h := h₁) (hst₁ ▸ hm)
    refine ⟨got, h', ?_, hg, hst.trans hst₁, hp.trans hp₁⟩
    simp only [TssUse.run, hm.get, he₁, he, bind, Except.bind]

/-- The block after `k` more registrations. -/
def Counts (blk blk' : Option (Addr × Nat)) (k : Nat) : Prop :=
  (k = 0 ∧ blk' = blk) ∨
  ∃ st, blk' = some (st, (blk.map Prod.snd).getD 0 + k) ∧ ∀ x, blk = some x → x.1 = st

theorem Counts.registered {blk' : Option (Addr × Nat)} {k : Nat} (hb : Counts blk blk' k)
    (m : TssMem) : Counts blk (some (registered m blk')) (k + 1) := by
  right
  rcases hb with ⟨rfl, rfl⟩ | ⟨st, rfl, hst⟩
  · cases blk' with
    | none => exact ⟨_, rfl, by simp⟩
    | some x => exact ⟨x.1, rfl, by simp⟩
  · exact ⟨st, rfl, hst⟩

/-- What the nested calls have done with a thread that had no item: the items they have
created, the last one first. -/
structure Nested (p : TssUse) (t : Tid) (val : Addr) (h : TssHistory)
    (blk : Option (Addr × Nat)) (items : List (Option Addr)) (got : List (Option Value))
    (vs : List Value) (h' : TssHistory) : Prop where
  produced : h'.produced = vs ++ h.produced
  length : vs.length = p.depth
  nodup : vs.Nodup
  next : h.state.nextValue ≤ h'.state.nextValue
  serials : ∀ v ∈ vs, h.state.nextValue ≤ v.serial ∧ v.serial < h'.state.nextValue
  acts : h'.state.acts = h.state.acts
  exiting : h'.state.exiting = h.state.exiting
  begun : h'.state.begun = h.state.begun
  key : h'.state.mem.key t = h.state.mem.key t
  standing : ∃ blk', Standing h'.state.mem t val vs.head? blk'
      (List.replicate vs.length (blk'.map Prod.fst) ++ items) ∧ Counts blk blk' vs.length
  quiet : vs = [] → ∀ x ∈ got, x = none
  stable : p.reenters = false → got.Pairwise fun a b => ∀ v, a = some v → b = some v

theorem Nested.of_same {p : TssUse} {h₁ : TssHistory} {got : List (Option Value)}
    {vs : List Value} (hn : Nested p t val h₁ blk items got vs h') (hs : h₁.state = h.state)
    (hp : h₁.produced = h.produced) : Nested p t val h blk items got vs h' := by
  obtain ⟨h1, h2, h3, h4, h5, h6, h7, h8, h9, h10, h11, h12⟩ := hn
  rw [hp] at h1
  rw [hs] at h4 h5 h6 h7 h8 h9
  exact ⟨h1, h2, h3, h4, h5, h6, h7, h8, h9, h10, h11, h12⟩

/-- The `attr.create` of the innermost call returns, and the call goes through its other
sections. -/
theorem creates (hm : Standing h.state.mem t val item blk items)
    (ha : h.state.acts = ⟨t, .threadInit val (.create (h.state.mem.key t))⟩ :: rest) (pos : Nat) :
    ∃ h₁ h₂ h₃ v blk', historyStep h (.created t .item) = .ok h₁ ∧
      historyStep h₁ (.advance t { pos }) = .ok h₂ ∧
      historyStep h₂ (.advance t { pos }) = .ok h₃ ∧ v.serial = h.state.nextValue ∧
      blk' = some (registered h.state.mem blk) ∧ h₃.produced = v :: h.produced ∧
      h₃.state.nextValue = h.state.nextValue + 1 ∧ h₃.state.acts = rest ∧
      h₃.state.exiting = h.state.exiting ∧ h₃.state.begun = h.state.begun ∧
      h₃.state.mem.key t = h.state.mem.key t ∧
      Standing h₃.state.mem t val (some v) blk' (blk'.map Prod.fst :: items) := by
  obtain ⟨htop, hrest⟩ := top_of_cons ha
  let v : Value := ⟨h.state.nextValue, t, val, h.state.mem.key t⟩
  let s₁ : TssState := { h.state with
    nextValue := h.state.nextValue + 1
    acts := ⟨t, .threadInit val (.insert (h.state.mem.key t) v)⟩ :: rest }
  have hs₁ : tssStep h.state (.created t .item) = .ok s₁ := by
    simp only [tssStep, htop, hrest]
    rfl
  obtain ⟨htop₁, hrest₁⟩ := top_of_cons (s := s₁) rfl
  obtain ⟨h₁, he₁, hst₁, hp₁⟩ := history_produces hs₁ (v := v) (by simp [TssState.newitem, htop₁])
  obtain ⟨m₂, hi₂, hm₂, hk₂⟩ := hm.inserts v pos
  let s₂ : TssState := { s₁ with mem := m₂, acts := ⟨t, .threadInit val .register⟩ :: rest }
  have hs₂ : tssStep h₁.state (.advance t { pos }) = .ok s₂ := by
    rw [hst₁]
    simp only [tssStep, htop₁, hrest₁, threadInitSection]
    exact bind_ok.mpr ⟨_, hi₂, rfl⟩
  obtain ⟨h₂, he₂, hst₂, hp₂⟩ := history_ok hs₂ rfl
  obtain ⟨htop₂, hrest₂⟩ := top_of_cons (s := s₂) rfl
  obtain ⟨m₃, hi₃, hm₃, hk₃⟩ := hm₂.registers pos
  have hs₃ : tssStep h₂.state (.advance t { pos }) = .ok { s₂ with mem := m₃, acts := rest } := by
    rw [hst₂]
    simp only [tssStep, htop₂, hrest₂, threadInitSection]
    exact bind_ok.mpr ⟨_, hi₃, rfl⟩
  obtain ⟨h₃, he₃, hst₃, hp₃⟩ := history_ok hs₃ rfl
  refine ⟨h₁, h₂, h₃, v, _, he₁, he₂, he₃, rfl, rfl, ?_, ?_, ?_, ?_, ?_, ?_, ?_⟩
  · rw [hp₃, hp₂, hp₁]
  all_goals rw [hst₃]
  · exact hk₃.trans hk₂
  · exact hm₃

theorem run_fresh (p : TssUse) (hm : Standing h.state.mem t val none blk items) :
    ∃ got vs h', p.run t val h = .ok (got, h') ∧ Nested p t val h blk items got vs h' := by
  induction p generalizing h with
  | done =>
    refine ⟨[], [], h, rfl, rfl, rfl, .nil, Nat.le_refl _, by simp, rfl, rfl, rfl, rfl, ?_, by simp,
      fun _ => .nil⟩
    exact ⟨blk, hm, .inl ⟨rfl, rfl⟩⟩
  | get rest ih =>
    have hs : tssStep h.state (.get t val) = .ok h.state := by
      simp only [tssStep, hm.lookup]
      rfl
    obtain ⟨h₁, he₁, hst₁, hp₁⟩ := history_ok hs rfl
    obtain ⟨got, vs, h', he, hn⟩ := ih (h := h₁) (hst₁ ▸ hm)
    replace hn := hn.of_same hst₁ hp₁
    refine ⟨none :: got, vs, h', ?_, { hn with
      quiet := fun h0 => by simpa using hn.quiet h0
      stable := fun hr => List.pairwise_cons.mpr ⟨by simp, hn.stable hr⟩ }⟩
    simp only [TssUse.run, hm.get, he₁, he, bind, Except.bind]
    rfl
  | threadInit pos during rest ihd _ =>
    let s₁ : TssState := { h.state with
      acts := ⟨t, .threadInit val (.create (h.state.mem.key t))⟩ :: h.state.acts }
    have hs : tssStep h.state (.threadInit t val) = .ok s₁ := by
      simp only [tssStep, hm.lookup]
      rfl
    obtain ⟨h₁, he₁, hst₁, hp₁⟩ := history_ok hs rfl
    have hm₁ : Standing h₁.state.mem t val none blk items := hst₁ ▸ hm
    obtain ⟨nested, vs, h₂, he₂, hn⟩ := ihd hm₁
    obtain ⟨blk', hm₂, hblk⟩ := hn.standing
    have hkey : h₂.state.mem.key t = h.state.mem.key t := hn.key.trans (by rw [hst₁])
    have hacts : h₂.state.acts =
        ⟨t, .threadInit val (.create (h₂.state.mem.key t))⟩ :: h.state.acts := by
      rw [hn.acts, hst₁, hkey]
    obtain ⟨h₃, h₄, h₅, v, blk₅, he₃, he₄, he₅, hv, hb₅, hp₅, hnext, hacts₅, hx₅, hbeg₅, hk₅,
      hm₅⟩ := creates hm₂ hacts pos
    obtain ⟨got, h₆, he₆, hgot, hst₆, hp₆⟩ := run_settled rest hm₅
    refine ⟨nested ++ got, v :: vs, h₆, ?_, ?_⟩
    · simp only [TssUse.run, hm.get, he₁, he₂, he₃, he₄, he₅, he₆, bind, Except.bind]
      rfl
    · have hnv : h₂.state.nextValue ≤ h₆.state.nextValue := by
        rw [hst₆, hnext]
        exact Nat.le_succ _
      have hfirst : h.state.nextValue ≤ h₂.state.nextValue := by
        have := hn.next
        rwa [hst₁] at this
      refine ⟨?_, congrArg (· + 1) hn.length, List.nodup_cons.mpr ⟨fun hmem => ?_, hn.nodup⟩,
        hfirst.trans hnv, fun u hu => ?_, ?_, ?_, ?_, ?_, ⟨blk₅, ?_, ?_⟩, by simp, fun hr => ?_⟩
      · rw [hp₆, hp₅, hn.produced, hp₁, List.cons_append]
      · have hlt := (hn.serials v hmem).2
        rw [hv] at hlt
        exact Nat.lt_irrefl _ hlt
      · rw [hst₆, hnext]
        rcases List.mem_cons.mp hu with rfl | hu
        · rw [hv]
          exact ⟨hfirst, Nat.lt_succ_self _⟩
        · have hlt := hn.serials u hu
          rw [hst₁] at hlt
          exact ⟨hlt.1, Nat.lt_succ_of_lt hlt.2⟩
      · rw [hst₆, hacts₅]
      · rw [hst₆, hx₅, hn.exiting, hst₁]
      · rw [hst₆, hbeg₅, hn.begun, hst₁]
      · rw [hst₆, hk₅, hkey]
      · -- the registrations made before this one are on the same block
        have hitems : blk₅.map Prod.fst :: (List.replicate vs.length (blk'.map Prod.fst) ++ items) =
            List.replicate (v :: vs).length (blk₅.map Prod.fst) ++ items := by
          rcases hblk with ⟨h0, -⟩ | ⟨st, rfl, -⟩
          · simp [List.length_eq_zero_iff.mp h0]
          · simp [hb₅, registered, List.replicate_succ]
        rw [hst₆, ← hitems]
        exact hm₅
      · rw [hb₅]
        exact hblk.registered _
      · have h0 : during.depth = 0 := by simpa [TssUse.reenters] using hr
        have hnone := hn.quiet (List.length_eq_zero_iff.mp (hn.length.trans h0))
        refine List.pairwise_append.mpr ⟨?_, ?_, fun a ha b _ u hau => ?_⟩
        · exact List.pairwise_of_forall_mem_list fun a ha b _ u hau => by
            rw [hnone a ha] at hau
            cases hau
        · exact List.pairwise_of_forall_mem_list fun a ha b hb u hau => by
            rw [hgot b hb, ← hgot a ha, hau]
        · rw [hnone a ha] at hau
          cases hau

/-- The block when a registration on it has been dropped. -/
def released (st n : Nat) : Option (Addr × Nat) := if n = 0 then none else some (st, n)

/-- The thread, exiting from `h` on, gets to `s`. -/
def Reaches (t : Tid) (h : TssHistory) (s : TssState) : Prop :=
  ∃ h', Run historyStep (fun h act => act = h.state.leaving t) h h' ∧ h'.state = s ∧
    h'.produced = h.produced

theorem leaving_produces (s : TssState) (t : Tid) : (s.leaving t).produces = false := by
  unfold TssState.leaving
  split
  · rfl
  · split <;> rfl

theorem Reaches.step {s' : TssState} (hr : Reaches t h s)
    (hs : tssStep s (s.leaving t) = .ok s') : Reaches t h s' := by
  obtain ⟨h₁, hrun, rfl, hp⟩ := hr
  obtain ⟨h₂, he, hst, hp₂⟩ := history_ok hs (leaving_produces _ _)
  exact ⟨h₂, .tail _ hrun rfl he, hst, hp₂.trans hp⟩

/-- The next section of the callback the thread is in. -/
theorem Reaches.advance {call : TssCall} {s' : TssState} (hr : Reaches t h s)
    (ha : s.acts = ⟨t, call⟩ :: rest) (hs : tssStep s (.advance t {}) = .ok s') :
    Reaches t h s' := by
  refine hr.step ?_
  rw [TssState.leaving, (top_of_cons ha).1]
  exact hs

theorem deinitCount_released {mem : Tss} (hs : m.states st = some ⟨n + 1, some val⟩)
    (hst : mem.state = some st) : deinitCount m val mem st = .ok
      ((m.setTss val { mem with state := (released st n).map Prod.fst }).setStates
        (m.states.set st (if n = 0 then none else some ⟨n, some val⟩))) := by
  obtain ⟨_, map⟩ := mem
  obtain rfl : _ = some st := hst
  by_cases h0 : n = 0 <;>
    simp [deinitCount, releaseState, Heap.read, hs, h0, released, bind, Except.bind]

/-- The last sections of a `deinit`, whatever it has found. -/
theorem Standing.drop (hm : Standing m t val item (some (st, n + 1)) items) {mem mem' : Tss}
    (hmem : m.instances val = some mem) (hstate : mem'.state = mem.state)
    (hk : mem'.map.get (m.key t) = none) :
    ∃ m', deinitCount m val mem' st = .ok m' ∧ Standing m' t val none (released st n) items := by
  obtain ⟨hg, ⟨mem₀, hmem₀, -, hst⟩, hb, hi⟩ := hm
  obtain rfl := Option.some.inj (hmem.symm.trans hmem₀)
  let m' : TssMem := (m.setTss val { mem' with state := (released st n).map Prod.fst }).setStates
    (m.states.set st (if n = 0 then none else some ⟨n, some val⟩))
  have hkey : m'.key t = m.key t := SameIds.key ⟨rfl, rfl, rfl⟩
  have hc : mem'.map.get (m'.key t) = none := by rw [hkey, hk]
  refine ⟨m', deinitCount_released (hb st (n + 1) rfl).1 (hstate.trans hst), hg,
    ⟨_, Heap.set_self _ _ _, hc, rfl⟩, fun st' n' he => ?_, hi⟩
  · unfold released at he
    split at he
    · cases he
    · obtain ⟨rfl, rfl⟩ := Prod.mk.inj (Option.some.inj he)
      refine ⟨?_, Nat.pos_of_ne_zero ‹_›⟩
      simp [m', ‹n ≠ 0›]

/-- An exit callback begins, and finds the instance. -/
theorem Reaches.begins (hr : Reaches t h s) (htop : s.top t = none) (hx : s.exiting t = true)
    (hm : Standing s.mem t val item (some (st, n + 1)) (some st :: items)) :
    ∃ m, Reaches t h { s with
        mem := m, acts := ⟨t, .deinit (some st) (.lookup val)⟩ :: s.acts } ∧
      Standing m t val item (some (st, n + 1)) items := by
  let m : TssMem := { s.mem with
    atexitItems := fun u => if u = t then items else s.mem.atexitItems u }
  have hmem : Standing m t val item (some (st, n + 1)) items := by
    obtain ⟨hg, ⟨mem, hmem, hc, hst⟩, hb, hi⟩ := hm
    have hk : m.key t = s.mem.key t := SameIds.key ⟨rfl, rfl, rfl⟩
    exact ⟨hg, ⟨mem, hmem, by rw [hk, hc], hst⟩, hb, if_pos rfl⟩
  let s₁ : TssState := { s with mem := m, acts := ⟨t, .deinit (some st) .enter⟩ :: s.acts }
  have hs₁ : tssStep s (s.leaving t) = .ok s₁ := by
    simp only [TssState.leaving, htop, hx, reduceIte, tssStep, hm.items]
    rfl
  have hread : m.states.read TssFault.state (some st) = .ok ⟨n + 1, some val⟩ :=
    Heap.read_some (hm.block st (n + 1) rfl).1
  refine ⟨m, (hr.step hs₁).advance (s := s₁) rfl ?_, hmem⟩
  obtain ⟨htop₁, hrest₁⟩ := top_of_cons (s := s₁) rfl
  simp only [tssStep, htop₁, hrest₁, deinitSection]
  exact bind_ok.mpr ⟨_, hread, rfl⟩

theorem Standing.deinitLookup (hm : Standing m t val (some v) blk items) :
    deinitLookup m t val st = .ok (some v, m.key t, m) := by
  obtain ⟨hg, ⟨mem, hmem, hc, -⟩, -⟩ := hm
  have hk : m.myCurrentThreadId t = (m.key t, m) :=
    Prod.ext rfl (drawGeneration_of_drawn hg)
  simp only [Wg14Signals.deinitLookup, hk, readTss_ok.mpr hmem, hc, bind, Except.bind]
  rfl

/-- The callback destroys the thread's item. -/
theorem Reaches.exits_item (hr : Reaches t h s) (htop : s.top t = none) (hx : s.exiting t = true)
    (hm : Standing s.mem t val (some v) (some (st, n + 1)) (some st :: items)) :
    ∃ s', Reaches t h s' ∧ s'.acts = s.acts ∧ s'.exiting = s.exiting ∧ s'.begun = s.begin v ∧
      Standing s'.mem t val none (released st n) items := by
  obtain ⟨m, hr₁, hm₁⟩ := hr.begins htop hx hm
  obtain ⟨mem, hmem, hc, hst⟩ := hm₁.inst
  let s₁ : DeinitPc → TssState := fun pc =>
    { s with mem := m, acts := ⟨t, .deinit (some st) pc⟩ :: s.acts }
  replace hr₁ : Reaches t h (s₁ (.lookup val)) := hr₁
  have hr₂ : Reaches t h (s₁ (.callback val (m.key t) v)) := by
    refine hr₁.advance rfl ?_
    obtain ⟨htop₁, hrest₁⟩ := top_of_cons (s := s₁ (.lookup val)) rfl
    simp only [tssStep, htop₁, hrest₁, deinitSection]
    exact bind_ok.mpr ⟨_, hm₁.deinitLookup, rfl⟩
  let s₃ : TssState := { s with
    mem := m
    begun := s.begin v
    acts := ⟨t, .deinit (some st) (.erase val (m.key t) v)⟩ :: s.acts }
  have hr₃ : Reaches t h s₃ := by
    refine hr₂.advance rfl ?_
    obtain ⟨htop₂, hrest₂⟩ := top_of_cons (s := s₁ (.callback val (m.key t) v)) rfl
    simp only [tssStep, htop₂, hrest₂, deinitSection]
    exact bind_ok.mpr ⟨_, readTss_ok.mpr hmem, rfl⟩
  let mem' : Tss := { mem with map := mem.map.erase (m.key t) }
  have hgone : mem'.map.get (m.key t) = none := FinMap.get_erase_self _ _
  have hsame : mem'.state = mem.state := rfl
  obtain ⟨m', he, hm'⟩ := hm₁.drop hmem hsame hgone
  refine ⟨{ s₃ with mem := m', acts := s.acts }, hr₃.advance rfl ?_, rfl, rfl, rfl,
    hm'⟩
  obtain ⟨htop₃, hrest₃⟩ := top_of_cons (s := s₃) rfl
  simp only [tssStep, htop₃, hrest₃, deinitSection, deinitErase]
  exact bind_ok.mpr ⟨m', bind_ok.mpr ⟨mem, readTss_ok.mpr hmem, he⟩, rfl⟩

/-- A thread registered again has no item by then. -/
theorem Reaches.exits_empty (hr : Reaches t h s) (htop : s.top t = none) (hx : s.exiting t = true)
    (hm : Standing s.mem t val none (some (st, n + 1)) (some st :: items)) :
    ∃ s', Reaches t h s' ∧ s'.acts = s.acts ∧ s'.exiting = s.exiting ∧ s'.begun = s.begun ∧
      Standing s'.mem t val none (released st n) items := by
  obtain ⟨m, hr₁, hm₁⟩ := hr.begins htop hx hm
  obtain ⟨mem, hmem, hc, hst⟩ := hm₁.inst
  obtain ⟨m', he, hm'⟩ := hm₁.drop hmem rfl hc
  let s₁ : TssState := { s with mem := m, acts := ⟨t, .deinit (some st) (.lookup val)⟩ :: s.acts }
  replace hr₁ : Reaches t h s₁ := hr₁
  refine ⟨{ s with mem := m' }, hr₁.advance rfl ?_, rfl, rfl, rfl, hm'⟩
  obtain ⟨htop₁, hrest₁⟩ := top_of_cons (s := s₁) rfl
  have hk : m.myCurrentThreadId t = (m.key t, m) :=
    Prod.ext rfl (drawGeneration_of_drawn hm₁.generation)
  have hl : deinitLookup m t val st = .ok (none, m.key t, m') := by
    simp only [Wg14Signals.deinitLookup, hk, readTss_ok.mpr hmem, hc, he, bind, Except.bind]
    rfl
  simp only [tssStep, htop₁, hrest₁, deinitSection]
  exact bind_ok.mpr ⟨_, hl, rfl⟩

/-- Every callback that is left for the thread finds it without an item. -/
theorem Reaches.exits_rest (k : Nat) (hr : Reaches t h s) (htop : s.top t = none)
    (hx : s.exiting t = true)
    (hm : Standing s.mem t val none (released st (n + k)) (List.replicate k (some st) ++ items)) :
    ∃ s', Reaches t h s' ∧ s'.acts = s.acts ∧ s'.exiting = s.exiting ∧ s'.begun = s.begun ∧
      Standing s'.mem t val none (released st n) items := by
  induction k generalizing s with
  | zero => exact ⟨s, hr, rfl, rfl, rfl, hm⟩
  | succ k ih =>
    have hm₁ : Standing s.mem t val none (some (st, n + k + 1))
        (some st :: (List.replicate k (some st) ++ items)) := hm
    obtain ⟨s₁, hr₁, ha₁, hx₁, hb₁, hm₁⟩ := hr.exits_empty htop hx hm₁
    have htop₁ : s₁.top t = none := by rw [← htop, TssState.top, ha₁, TssState.top]
    obtain ⟨s', hr', ha, hx', hb, hm'⟩ := ih hr₁ htop₁ (hx₁ ▸ hx) hm₁
    exact ⟨s', hr', ha.trans ha₁, hx'.trans hx₁, hb.trans hb₁, hm'⟩

theorem TssUse.reenters_iff (p : TssUse) : p.reenters = false ↔ p.depth ≤ 1 := by
  induction p with
  | done => simp [TssUse.reenters, TssUse.depth]
  | get rest ih => exact ih
  | threadInit pos during rest _ _ => simp [TssUse.reenters, TssUse.depth]

theorem Counts.count {blk' : Option (Addr × Nat)} {k : Nat} (hb : Counts blk blk' k) :
    (blk'.map Prod.snd).getD 0 = (blk.map Prod.snd).getD 0 + k := by
  rcases hb with ⟨rfl, rfl⟩ | ⟨st, rfl, -⟩ <;> rfl

theorem released_count (st n : Nat) : ((released st n).map Prod.snd).getD 0 = n := by
  unfold released
  split
  · exact (‹n = 0›).symm
  · rfl

/-- The thread leaves what the nested calls have made of it. -/
theorem Nested.leaves {p : TssUse} {got : List (Option Value)} {vs : List Value}
    {h₁ : TssHistory} (hn : Nested p t val h blk items got vs h₁)
    (hm : Standing h.state.mem t val item blk items) (htop : h.state.top t = none)
    (hx : h.state.exiting t = false) :
    ∃ h₂, Run historyStep (fun h act => act = h.state.leaving t) h₁ h₂ ∧
      h₂.state.top t = none ∧ h₂.state.exiting t = true ∧ h₂.state.mem.atexitItems t = items ∧
      (Tolerated val h got h₂ ↔ p.reenters = false) := by
  let s₁ : TssState := { h₁.state with
    exiting := fun u => if u = t then true else h₁.state.exiting u }
  have htop₁ : ∀ s : TssState, s.acts = h.state.acts → s.top t = none := fun s hs => by
    rw [← htop, TssState.top, hs, TssState.top]
  have hr₁ : Reaches t h₁ s₁ := by
    have h0 : Reaches t h₁ h₁.state := ⟨h₁, .refl _, rfl, rfl⟩
    refine h0.step ?_
    rw [TssState.leaving, htop₁ _ hn.acts, hn.exiting, hx, if_neg Bool.false_ne_true]
    simp only [tssStep, htop₁ _ hn.acts]
    rfl
  obtain ⟨blk', hm₁, hcounts⟩ := hn.standing
  cases vs with
  | nil =>
    obtain ⟨h₂, hrun, hst, hp⟩ := hr₁
    have hdepth : p.reenters = false := p.reenters_iff.mpr (hn.length ▸ Nat.zero_le 1)
    refine ⟨h₂, hrun, ?_, ?_, ?_, iff_of_true ⟨hn.stable hdepth, fun vs hvs v hv => ?_, ?_⟩ hdepth⟩
    · rw [hst]
      exact htop₁ _ hn.acts
    · rw [hst]
      exact if_pos rfl
    · rw [hst]
      exact hm₁.items
    · rw [hp, hn.produced, List.nil_append, eq_comm, List.append_left_eq_self] at hvs
      rw [hvs] at hv
      cases hv
    · rw [hst, hm.count, hm₁.count, hcounts.count]
      rfl
  | cons v vs =>
    obtain ⟨st, rfl, -⟩ := hcounts.resolve_left fun h => Nat.succ_ne_zero _ h.1
    obtain ⟨s₂, hr₂, ha₂, hx₂, hb₂, hm₂⟩ := hr₁.exits_item (htop₁ s₁ hn.acts) (if_pos rfl) hm₁
    obtain ⟨s₃, ⟨h₃, hrun, rfl, hp⟩, ha₃, hx₃, hb₃, hm₃⟩ := hr₂.exits_rest vs.length
      (htop₁ s₂ (ha₂.trans hn.acts)) (hx₂ ▸ if_pos rfl) hm₂
    have hbegun : ∀ u, h₃.state.begun u =
        if u = v then h.state.begun u + 1 else h.state.begun u := by
      intro u
      rw [hb₃, hb₂]
      exact congrFun (congrArg (fun b u => if u = v then b u + 1 else b u) hn.begun) u
    refine ⟨h₃, hrun, htop₁ _ (ha₃.trans (ha₂.trans hn.acts)), ?_, hm₃.items, fun htol => ?_,
      fun hdepth => ⟨hn.stable hdepth, fun us hus u hu => ?_, ?_⟩⟩
    · rw [hx₃, hx₂]
      exact if_pos rfl
    · -- an item that has been replaced is never destroyed
      refine p.reenters_iff.mpr (hn.length ▸ Nat.succ_le_succ (Nat.le_of_eq ?_))
      refine List.length_eq_zero_iff.mpr (List.eq_nil_iff_forall_not_mem.mpr fun u hu => ?_)
      have hne : u ≠ v := fun h => (List.nodup_cons.mp hn.nodup).1 (h ▸ hu)
      have hone := htol.destroyed (v :: vs) (hp.trans hn.produced) u (List.mem_cons_of_mem _ hu)
      rw [hbegun, if_neg hne] at hone
      exact absurd hone (Nat.ne_of_lt (Nat.lt_succ_self _))
    · have hlen : vs = [] := by
        have := hn.length ▸ p.reenters_iff.mp hdepth
        simpa using this
      rw [hp, hn.produced, hlen] at hus
      obtain rfl := List.append_cancel_right hus
      rw [hbegun, if_pos (List.mem_singleton.mp hu)]
    · rw [hm.count, hm₃.count, released_count]

/-- The state when the thread has its generation. -/
def TssHistory.draw (h : TssHistory) (t : Tid) : TssHistory :=
  { h with state := { h.state with mem := h.state.mem.drawGeneration t } }

theorem lookup_draw (hg : (m.drawGeneration t).generationCached t ≠ 0) :
    tssLookup (m.drawGeneration t) t val = tssLookup m t val := by
  simp only [tssLookup, myCurrentThreadId_again hg]

/-- Whatever is done first draws the generation. -/
theorem run_draw {p : TssUse} (hp : p ≠ .done)
    (hg : (h.state.mem.drawGeneration t).generationCached t ≠ 0) :
    p.run t val h = p.run t val (h.draw t) := by
  cases p with
  | done => exact absurd rfl hp
  | get => simp only [TssUse.run, TssHistory.draw, historyStep, tssStep, tssAsyncSignalSafeGet,
      lookup_draw hg]
  | threadInit => simp only [TssUse.run, TssHistory.draw, historyStep, tssStep,
      tssAsyncSignalSafeGet, lookup_draw hg]

theorem Standing.of_live {mem : Tss} (hm : m.instances val = some mem)
    (hs : ∀ state, mem.state = some state →
      ∃ st, m.states state = some st ∧ st.val = some val ∧ 0 < st.count)
    (hk : mem.map.get (m.key t) = none)
    (hg : (m.drawGeneration t).generationCached t ≠ 0) :
    ∃ blk, Standing (m.drawGeneration t) t val none blk (m.atexitItems t) := by
  have hc : mem.map.get ((m.drawGeneration t).key t) = none := by rw [key_draw_self hg, hk]
  have hm' : (m.drawGeneration t).instances val = some mem := by rw [instances_drawGeneration, hm]
  have hi : (m.drawGeneration t).atexitItems t = m.atexitItems t := by
    unfold TssMem.drawGeneration
    split <;> rfl
  cases hst : mem.state with
  | none => exact ⟨none, hg, ⟨mem, hm', hc, hst⟩, by simp, hi⟩
  | some state =>
    obtain ⟨st, hst', hval, hpos⟩ := hs state hst
    refine ⟨some (state, st.count), hg, ⟨mem, hm', hc, hst⟩, ?_, hi⟩
    rintro _ _ ⟨⟩
    rw [states_drawGeneration, hst', ← hval]
    exact ⟨rfl, hpos⟩

theorem Tolerated.of_draw {got : List (Option Value)} :
    Tolerated val (h.draw t) got h' ↔ Tolerated val h got h' := by
  have hcount : (h.draw t).state.mem.count val = h.state.mem.count val := by
    simp [TssHistory.draw, TssMem.count]
  constructor
  · exact fun ht => ⟨ht.stable, ht.destroyed, ht.count.trans hcount⟩
  · exact fun ht => ⟨ht.stable, ht.destroyed, ht.count.trans hcount.symm⟩

/-- A thread that uses an instance for the first time, outside of any call, and exits. Its
calls come back, and its exit callbacks end. The pointers it gets are stable, its items destroyed
once each and its registrations gone exactly if no signal handler enters the first `thread_init`
again before that has inserted its item. -/
theorem reentry_tolerated_iff (p : TssUse) {h : TssHistory} {t : Tid} {val : Addr} {mem : Tss}
    (hm : h.state.mem.instances val = some mem)
    (hs : ∀ state, mem.state = some state →
      ∃ st, h.state.mem.states state = some st ∧ st.val = some val ∧ 0 < st.count)
    (hk : mem.map.get (h.state.mem.key t) = none)
    (hg : (h.state.mem.drawGeneration t).generationCached t ≠ 0)
    (htop : h.state.top t = none) (hx : h.state.exiting t = false) :
    ∃ got h₁ h₂, p.run t val h = .ok (got, h₁) ∧
      Run historyStep (fun h act => act = h.state.leaving t) h₁ h₂ ∧
      h₂.state.top t = none ∧ h₂.state.exiting t = true ∧
      h₂.state.mem.atexitItems t = h.state.mem.atexitItems t ∧
      (Tolerated val h got h₂ ↔ p.reenters = false) := by
  obtain ⟨blk, hst⟩ := Standing.of_live hm hs hk hg
  by_cases hp : p = .done
  · subst hp
    let s : TssState := { h.state with
      exiting := fun u => if u = t then true else h.state.exiting u }
    have hstep : tssStep h.state (h.state.leaving t) = .ok s := by
      rw [TssState.leaving, htop, hx]
      simp only [Bool.false_eq_true, reduceIte, tssStep, htop]
      rfl
    obtain ⟨h₂, he, hst₂, hp₂⟩ := history_ok hstep (leaving_produces _ _)
    refine ⟨[], h, h₂, rfl, .tail _ (.refl h) rfl he, ?_, ?_, ?_, iff_of_true ⟨.nil, ?_, ?_⟩ rfl⟩
    · rw [hst₂]
      exact htop
    · rw [hst₂]
      exact if_pos rfl
    · rw [hst₂]
    · intro vs hvs v hv
      rw [hp₂, eq_comm, List.append_left_eq_self] at hvs
      rw [hvs] at hv
      cases hv
    · rw [hst₂]
  · obtain ⟨got, vs, h₁, he, hn⟩ := run_fresh p (h := h.draw t) hst
    obtain ⟨h₂, hrun, htop₂, hx₂, hitems, hiff⟩ := hn.leaves hst htop hx
    exact ⟨got, h₁, h₂, (run_draw hp hg).trans he, hrun, htop₂, hx₂, hitems,
      Tolerated.of_draw.symm.trans hiff⟩

/-- One instance has been created, and no thread has used it. -/
def freshHistory : TssHistory :=
  { TssHistory.initial fun _ => 7 with
    state := { TssState.initial fun _ => 7 with mem := freshInstance } }

/-- A handler calls `get` while the item is created. -/
theorem reentry_tolerated_iff_get :
    ∃ got h₁ h₂, (TssUse.threadInit 0 (.get .done) (.get .done)).run 1 0 freshHistory =
        .ok (got, h₁) ∧
      Run historyStep (fun h act => act = h.state.leaving 1) h₁ h₂ ∧
      h₂.state.top 1 = none ∧ h₂.state.exiting 1 = true ∧
      h₂.state.mem.atexitItems 1 = freshHistory.state.mem.atexitItems 1 ∧
      (Tolerated 0 freshHistory got h₂ ↔
        (TssUse.threadInit 0 (.get .done) (.get .done)).reenters = false) :=
  reentry_tolerated_iff _ (show freshHistory.state.mem.instances 0 = some ⟨none, .empty⟩ from rfl)
    (fun _ h => by cases h) rfl (by decide) rfl rfl

/-- A handler enters `thread_init` again, and calls `get` then. The thread gets another pointer
afterwards, and the first one is never destroyed. -/
theorem nested_init_replaces :
    ∃ v w h₁ h₂, (TssUse.threadInit 0 (.threadInit 0 .done (.get .done)) (.get .done)).run 1 0
        freshHistory = .ok ([some v, some w], h₁) ∧
      Run historyStep (fun h act => act = h.state.leaving 1) h₁ h₂ ∧
      h₂.state.top 1 = none ∧ h₂.state.mem.atexitItems 1 = [] ∧ v ≠ w ∧
      h₂.state.begun v = 0 ∧ h₂.state.begun w = 1 ∧
      ¬ Tolerated 0 freshHistory [some v, some w] h₂ := by
  refine ⟨⟨0, 1, 0, 0x100000007⟩, ⟨1, 1, 0, 0x100000007⟩, _, _, rfl, follow_run (n := 9) rfl, rfl,
    rfl, by decide, rfl, rfl, fun ht => ?_⟩
  have hsame := (List.pairwise_cons.mp ht.stable).1 _ List.mem_cons_self _ rfl
  exact absurd hsame (by decide)

end Wg14Signals
