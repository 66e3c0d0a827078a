import Wg14Signals.Lib.Lockstep
import Wg14Signals.Proofs.Dispositions
import Wg14Signals.Proofs.GuardStack
import Wg14Signals.Storages

namespace Wg14Signals
open Lib

/-- The same call with either storage. An active guard holds the object its thread has. -/
inductive SameCall (own own' : Option Addr) : GuardCall → GuardCall → Prop where
  | sigguarded (frame : Addr) (tss tss' old : Option Addr) (recovering : Bool)
      (h : recovering = false → tss = own ∧ tss' = own' ∧ own ≠ none ∧ own' ≠ none) :
      SameCall own own' (.sigguarded frame tss old recovering)
        (.sigguarded frame tss' old recovering)
  | raise (args : RaiseArgs) (delivered : Bool) (pc : GuardPc) :
      SameCall own own' (.raise args delivered pc) (.raise args delivered pc)

/-- A native thread-local storage and a fallback that show the same guard stack. -/
structure Twins (st st' : ThreadStorage) : Prop where
  native : ∃ own, st.slot = .threadLocal own
  fallback : ∃ tss, st'.slot = .fallback tss
  front : st'.front = st.front
  live : ∀ a, st.slot.own = some a → ∃ state, st.states a = some state
  live' : ∀ a, st'.slot.own = some a → ∃ state, st'.states a = some state

/-- The same state but for the storage, and the pointers into it. -/
@[simps -fullyApplied]
def GuardState.swap (s : GuardState) (store : ThreadStorage) (calls : List GuardCall) :
    GuardState :=
  { s with process := { s.process with store }, calls }

/-- Two states of one program, the first with a native thread-local. -/
inductive Agree (s : GuardState) : GuardState → Prop where
  | intro (st : ThreadStorage) (cs : List GuardCall) (h : Twins s.store st)
      (hc : List.Forall₂ (SameCall s.store.slot.own st.slot.own) s.calls cs)
      (hn : st.slot = .fallback none → s.g.sighandlersCount ≤ 0) : Agree s (s.swap st cs)

namespace SameCall

variable {own own' own₁ own₁' : Option Addr} {c c' : GuardCall}

/-- An object the thread had before stays the one it has. -/
theorem move (h : SameCall own own' c c') (hs : own = none ∨ own₁ = own)
    (ht : own' = none ∨ own₁' = own') : SameCall own₁ own₁' c c' := by
  cases h with
  | sigguarded frame tss tss' old recovering h =>
    refine .sigguarded frame tss tss' old recovering fun hr => ?_
    obtain ⟨h₁, h₂, h₃, h₄⟩ := h hr
    obtain rfl := hs.resolve_left h₃
    obtain rfl := ht.resolve_left h₄
    exact ⟨h₁, h₂, h₃, h₄⟩
  | raise args delivered pc => exact .raise args delivered pc

theorem frame (h : SameCall own own' c c') : c.frame = c'.frame := by
  cases h <;> rfl

theorem info (h : SameCall own own' c c') : c.info = c'.info := by
  cases h <;> rfl

theorem holds (h : SameCall own own' c c') (a : Addr) : c.holds a = c'.holds a := by
  cases h <;> rfl

theorem runsUserCode (h : SameCall own own' c c') : c.runsUserCode = c'.runsUserCode := by
  cases h with
  | sigguarded => rfl
  | raise => rfl

theorem idle (h : SameCall own own' c c') (hc : c.active = none) : SameCall own₁ own₁' c c' := by
  cases h with
  | sigguarded frame tss tss' old recovering h =>
    refine .sigguarded frame tss tss' old recovering ?_
    rintro rfl
    cases hc
  | raise args delivered pc => exact .raise args delivered pc

end SameCall

section

variable {own own' : Option Addr} {cs cs' : List GuardCall}

theorem same_frames (h : List.Forall₂ (SameCall own own') cs cs') :
    cs.filterMap GuardCall.frame = cs'.filterMap GuardCall.frame :=
  forall₂_filterMap h fun _ _ h => h.frame

theorem same_infos (h : List.Forall₂ (SameCall own own') cs cs') :
    cs.filterMap GuardCall.info = cs'.filterMap GuardCall.info :=
  forall₂_filterMap h fun _ _ h => h.info

/-- Where no guard is active it does not matter what the threads have. -/
theorem same_idle {own₁ own₁' : Option Addr} (h : List.Forall₂ (SameCall own own') cs cs')
    (hidle : ∀ c ∈ cs, c.active = none) : List.Forall₂ (SameCall own₁ own₁') cs cs' := by
  induction h with
  | nil => exact .nil
  | cons hcall _ ih =>
    exact .cons (hcall.idle (hidle _ List.mem_cons_self))
      (ih fun c hc => hidle c (List.mem_cons_of_mem _ hc))

/-- While a guard is active, both threads have an object. -/
theorem same_owns (h : List.Forall₂ (SameCall own own') cs cs') {a : Addr}
    (ha : a ∈ cs.filterMap GuardCall.active) : own ≠ none ∧ own' ≠ none := by
  induction h with
  | nil => cases ha
  | cons hcall _ ih =>
    cases hcall with
    | raise => exact ih ha
    | sigguarded frame tss tss' old recovering h =>
      cases recovering with
      | true => exact ih ha
      | false => exact (h rfl).2.2

/-- Locals that go out of scope are the same. -/
theorem same_discard (h : List.Forall₂ (SameCall own own') cs cs') (s : GuardState)
    (st : ThreadStorage) (rest : List GuardCall) :
    (s.swap st rest).discard cs' = (s.discard cs).swap st rest := by
  simp only [GuardState.discard, GuardState.swap, same_frames h, same_infos h]

theorem same_userCode {s : GuardState} {st : ThreadStorage}
    (h : List.Forall₂ (SameCall own own') s.calls cs) :
    (s.swap st cs).userCode = s.userCode := by
  simp only [GuardState.userCode, GuardState.swap_calls]
  generalize s.calls = calls at h ⊢
  cases h with
  | nil => rfl
  | cons h _ => simp [h.runsUserCode]

end

section

variable {st st' : ThreadStorage} {own : Option Addr}

theorem front_of_none (h : st.slot.own = none) : st.front = none := by
  rw [ThreadStorage.front, h, Option.bind_none, Option.bind_none]

theorem front_of_some {a : Addr} {state : ThreadState} (h : st.slot.own = some a)
    (hs : st.states a = some state) : st.front = state.front := by
  rw [ThreadStorage.front, h, Option.bind_some, hs, Option.bind_some]

theorem find_some {ε : Type} {trap : Option Addr → ε} {a : Addr} (h : st.slot.own = some a) :
    st.find trap = .ok (some a) := by
  unfold ThreadStorage.find
  split <;> simp_all [TssSlot.own, pure, Except.pure]

theorem setFront_ok {ε : Type} (trap : Option Addr → ε) {a : Addr} {state : ThreadState}
    (h : st.slot.own = some a) (hs : st.states a = some state) (front : Option Addr) :
    ∃ st₁, st.setFront trap (some a) front = .ok st₁ ∧ st₁.slot = st.slot ∧
      st₁.slot.own = some a ∧ st₁.states a = some { front } := by
  refine ⟨{ st with states := st.states.mapAt (some a) fun state => { state with front } }, ?_, rfl,
    h, ?_⟩
  · simp [ThreadStorage.setFront, Heap.update, Heap.read, hs, bind, Except.bind, pure, Except.pure]
  · simp [Heap.mapAt, hs]

/-- `init` with nothing failing gives the thread an object, and keeps one it has. -/
theorem init_has (st : ThreadStorage) : (st.init {}).1 = true ∧
    ∃ a, (st.init {}).2.slot.own = some a ∧
      (st.slot.own = some a ∧ (st.init {}).2 = st ∨
        st.slot.own = none ∧ (st.init {}).2.states a = some {}) := by
  unfold ThreadStorage.init ThreadStorage.create ThreadStorage.allocate
  obtain ⟨states, next, slot⟩ := st
  cases slot with
  | threadLocal own =>
    cases own with
    | none => simp [TssSlot.own]
    | some a => simp [TssSlot.own]
  | fallback tss =>
    cases tss with
    | none => simp [TssSlot.own]
    | some own =>
      cases own with
      | none => simp [TssSlot.own]
      | some a => simp [TssSlot.own]

theorem init_slot (st : ThreadStorage) :
    ((∃ own, st.slot = .threadLocal own) → ∃ own, (st.init {}).2.slot = .threadLocal own) ∧
    ((∃ tss, st.slot = .fallback tss) → ∃ tss, (st.init {}).2.slot = .fallback (some tss)) := by
  unfold ThreadStorage.init ThreadStorage.create ThreadStorage.allocate
  obtain ⟨states, next, slot⟩ := st
  cases slot with
  | threadLocal own => cases own <;> simp
  | fallback tss =>
    cases tss with
    | none => simp [TssSlot.own]
    | some own => cases own <;> simp [TssSlot.own]

end

/-- The two storages once the thread has an object in both. -/
structure Ready (st st' : ThreadStorage) (a b : Addr) (state state' : ThreadState) : Prop where
  twins : Twins st st'
  own : st.slot.own = some a
  own' : st'.slot.own = some b
  state : st.states a = some state
  state' : st'.states b = some state'

namespace Ready

variable {st st' : ThreadStorage} {a b : Addr} {state state' : ThreadState}

theorem front (h : Ready st st' a b state state') :
    state.front = st.front ∧ state'.front = st.front := by
  refine ⟨(front_of_some h.own h.state).symm, ?_⟩
  rw [← h.twins.front]
  exact (front_of_some h.own' h.state').symm

/-- The thread reads its object. -/
theorem read {α β : Type} {S : α → β → Prop} {f : ThreadState → Except ThreadFault α}
    {f' : ThreadState → Except ThreadFault β} (h : Ready st st' a b state state')
    (hf : state.front = st.front → state'.front = st.front → Both S (f state) (f' state')) :
    Both S (do
      let tss ← (pure (some a) : Except ThreadFault (Option Addr))
      let state ← st.states.read .tss tss
      f state) (do
      let tss ← (pure (some b) : Except ThreadFault (Option Addr))
      let state ← st'.states.read .tss tss
      f' state) := by
  simp only [pure_bind, Heap.read_ok.mpr ⟨a, rfl, h.state⟩, Heap.read_ok.mpr ⟨b, rfl, h.state'⟩]
  exact hf h.front.1 h.front.2

theorem slot_ne (h : Ready st st' a b state state') : st'.slot ≠ .fallback none := by
  intro hs
  have := h.own'
  rw [hs] at this
  cases this

/-- Both storages take a new front. -/
theorem setFront {ε : Type} (trap : Option Addr → ε) (h : Ready st st' a b state state')
    (front : Option Addr) :
    ∃ st₁ st₁', st.setFront trap (some a) front = .ok st₁ ∧
      st'.setFront trap (some b) front = .ok st₁' ∧ Twins st₁ st₁' ∧
      st₁.slot = st.slot ∧ st₁'.slot = st'.slot := by
  obtain ⟨st₁, hset, hslot, hown, hstate⟩ := setFront_ok trap h.own h.state front
  obtain ⟨st₁', hset', hslot', hown', hstate'⟩ := setFront_ok trap h.own' h.state' front
  refine ⟨st₁, st₁', hset, hset', ⟨?_, ?_, ?_, ?_, ?_⟩, hslot, hslot'⟩
  · rw [hslot]
    exact h.twins.native
  · rw [hslot']
    exact h.twins.fallback
  · rw [front_of_some hown' hstate', front_of_some hown hstate]
  · intro c hc
    rw [hown] at hc
    cases hc
    exact ⟨_, hstate⟩
  · intro c hc
    rw [hown'] at hc
    cases hc
    exact ⟨_, hstate'⟩

end Ready

namespace Twins

variable {st st' : ThreadStorage} {cs cs' : List GuardCall}

/-- After `init` both have an object, and the calls in progress hold what they held. -/
theorem init (h : Twins st st') :
    (st.init {}).1 = true ∧ (st'.init {}).1 = true ∧
      (∃ a b state state', Ready (st.init {}).2 (st'.init {}).2 a b state state') ∧
      (st.init {}).2.front = st.front ∧
      ∀ cs cs', List.Forall₂ (SameCall st.slot.own st'.slot.own) cs cs' →
        List.Forall₂ (SameCall (st.init {}).2.slot.own (st'.init {}).2.slot.own) cs cs' := by
  obtain ⟨hok, a, hown, hcase⟩ := init_has st
  obtain ⟨hok', b, hown', hcase'⟩ := init_has st'
  -- the object the thread finds afterwards, and what it shows
  have shown : ∀ {st : ThreadStorage} {a : Addr},
      (∀ a, st.slot.own = some a → ∃ state, st.states a = some state) →
      (st.init {}).2.slot.own = some a →
      (st.slot.own = some a ∧ (st.init {}).2 = st ∨
        st.slot.own = none ∧ (st.init {}).2.states a = some {}) →
      ∃ state, (st.init {}).2.states a = some state ∧ (st.init {}).2.front = st.front := by
    intro st a hlive hown hcase
    rcases hcase with ⟨hs, heq⟩ | ⟨hs, hstate⟩
    · obtain ⟨state, hstate⟩ := hlive a hs
      exact ⟨state, by rw [heq]; exact hstate, by rw [heq]⟩
    · exact ⟨{}, hstate, by rw [front_of_some hown hstate, front_of_none hs]⟩
  obtain ⟨state, hstate, hfront⟩ := shown h.live hown hcase
  obtain ⟨state', hstate', hfront'⟩ := shown h.live' hown' hcase'
  refine ⟨hok, hok', ⟨a, b, state, state', ⟨(init_slot st).1 h.native, ?_, ?_, ?_, ?_⟩, hown, hown',
    hstate, hstate'⟩, hfront, fun _ _ hc => hc.imp fun _ _ hcc => hcc.move ?_ ?_⟩
  · obtain ⟨tss, hs⟩ := (init_slot st').2 h.fallback
    exact ⟨some tss, hs⟩
  · rw [hfront', hfront, h.front]
  · intro c hc
    rw [hown] at hc
    cases hc
    exact ⟨state, hstate⟩
  · intro c hc
    rw [hown'] at hc
    cases hc
    exact ⟨state', hstate'⟩
  · rcases hcase with ⟨hs, heq⟩ | ⟨hs, -⟩
    · exact .inr (by rw [heq])
    · exact .inl hs
  · rcases hcase' with ⟨hs, heq⟩ | ⟨hs, -⟩
    · exact .inr (by rw [heq])
    · exact .inl hs

/-- What both storages have where a guard is active. -/
theorem ready (h : Twins st st') (hs : st.slot.own ≠ none) (ht : st'.slot.own ≠ none) :
    ∃ a b state state', Ready st st' a b state state' := by
  obtain ⟨a, ha⟩ := Option.ne_none_iff_exists'.mp hs
  obtain ⟨b, hb⟩ := Option.ne_none_iff_exists'.mp ht
  obtain ⟨state, hstate⟩ := h.live a ha
  obtain ⟨state', hstate'⟩ := h.live' b hb
  exact ⟨a, b, state, state', h, ha, hb, hstate, hstate'⟩

end Twins

section

variable {p : Platform} {s : GuardState} {st : ThreadStorage} {cs calls calls' rest rest' :
  List GuardCall} {args : RaiseArgs} {delivered : Bool}

theorem answer_agree (h : Twins s.store st)
    (hc : List.Forall₂ (SameCall s.store.slot.own st.slot.own) rest rest')
    (hn : st.slot = .fallback none → s.g.sighandlersCount ≤ 0) (result : Bool) :
    Agree (s.answer args delivered result rest)
      ((s.swap st cs).answer args delivered result rest') := by
  unfold GuardState.answer
  split
  · split
    · exact .intro st rest' h hc hn
    · exact .intro st _ h (.cons (.raise _ _ _) hc) hn
  · exact .intro st rest' h hc hn

theorem pushRaise_both (h : Twins s.store st)
    (hc : List.Forall₂ (SameCall s.store.slot.own st.slot.own) calls calls') :
    Both Agree (s.pushRaise p args delivered {} calls)
      ((s.swap st cs).pushRaise p args delivered {} calls') := by
  obtain ⟨hok, hok', ⟨a, b, state, state', hr⟩, -, hmove⟩ := h.init
  have hc := hmove _ _ hc
  simp only [GuardState.pushRaise, show (s.swap st cs).store = st from rfl]
  generalize s.store.init {} = r at hok hr hc ⊢
  generalize st.init {} = r' at hok' hr hc ⊢
  obtain ⟨ok, st₁⟩ := r
  obtain ⟨ok', st₁'⟩ := r'
  cases hok
  cases hok'
  simp only [Bool.not_true, Bool.false_eq_true, if_false, store_setStore]
  refine Both.ite Iff.rfl (fun _ => .pure ?_) fun _ => ?_
  · exact answer_agree (s := s.setStore st₁) hr.twins hc (fun hs => absurd hs hr.slot_ne) false
  · simp only [find_some hr.own, find_some hr.own']
    refine hr.read fun hf hf' => .pure ?_
    rw [hf, hf']
    exact .intro (s := (s.setStore st₁).goto (.raise args delivered (.walk st₁.front) :: calls))
      st₁' _ hr.twins (.cons (.raise _ _ _) hc) fun hs => absurd hs hr.slot_ne

theorem walkSection_both {frame : Addr} (h : Twins s.store st)
    (hc : List.Forall₂ (SameCall s.store.slot.own st.slot.own) rest rest')
    (hn : st.slot = .fallback none → s.g.sighandlersCount ≤ 0) :
    Both Agree (walkSection s args delivered frame rest)
      (walkSection (s.swap st cs) args delivered frame rest') := by
  unfold walkSection
  refine Both.bind_same fun f hf => ?_
  refine Both.ite Iff.rfl (fun _ => .pure ?_) fun _ => .pure ?_
  · exact .intro st _ h (.cons (.raise _ _ _) hc) hn
  · exact .intro st _ h (.cons (.raise _ _ _) hc) hn

theorem globalSection_both (h : Twins s.store st)
    (hc : List.Forall₂ (SameCall s.store.slot.own st.slot.own) rest rest')
    (hn : st.slot = .fallback none → s.g.sighandlersCount ≤ 0) :
    Both Agree (globalSection s args delivered rest)
      (globalSection (s.swap st cs) args delivered rest') := by
  unfold globalSection
  refine Both.bind_same fun r hr => ?_
  obtain ⟨e, g⟩ := r
  have hn' : st.slot = .fallback none → g.sighandlersCount ≤ 0 := by
    rw [(raiseEnter_still (ofLib_ok.mp hr)).count]
    exact hn
  cases e with
  | absent => exact .pure (answer_agree (s := s.setG g) h hc hn' false)
  | deciding item current value sa =>
    exact .pure (.intro st _ h (.cons (.raise _ _ _) hc) hn')
  | unclaimed sa => exact .pure (.intro st _ h (.cons (.raise _ _ _) hc) hn')

theorem guardSection_both {pc : GuardPc} (h : Twins s.store st)
    (hc : List.Forall₂ (SameCall s.store.slot.own st.slot.own) rest rest')
    (hn : st.slot = .fallback none → s.g.sighandlersCount ≤ 0) :
    Both Agree (guardSection p s args delivered pc rest)
      (guardSection p (s.swap st cs) args delivered pc rest') := by
  have same : ∀ pc, List.Forall₂ (SameCall s.store.slot.own st.slot.own)
      (.raise args delivered pc :: rest) (.raise args delivered pc :: rest') :=
    fun pc => .cons (.raise _ _ _) hc
  cases pc with
  | walk frame =>
    cases frame with
    | some frame => exact walkSection_both h hc hn
    | none => exact globalSection_both h hc hn
  | invoke sa =>
    simp only [guardSection]
    generalize invokeSigaction p sa args.signo = i
    cases i with
    | calls handler =>
      cases handler with
      | raw => exact pushRaise_both h (same _)
      | dfl | ign | user => exact .pure (.intro st _ h (same _) hn)
    | default => exact .pure (.intro st _ h (same _) hn)
    | ignores => exact .pure (answer_agree h hc hn true)
  | handoff stage =>
    cases stage with
    | query => exact .pure (.intro st _ h (same _) hn)
    | reset current =>
      exact .pure (.intro (s := (s.setG (s.g.setKernel args.signo .dfl)).goto
        (.raise args delivered (.handoff (.kill current)) :: rest)) st _ h (same _) hn)
    | kill current =>
      exact Both.ite Iff.rfl (fun _ => pushRaise_both h (same _))
        fun _ => .pure (.intro st _ h (same _) hn)
    | restore current =>
      exact .pure (answer_agree (s := s.setG (s.g.setKernel args.signo current)) h hc hn true)
  | asking | deciding | handler => exact .error _ _

/-- What the guard whose recovery function is called holds. -/
theorem longjmp_both {frame : Addr} (h : Twins s.store st)
    (hc : List.Forall₂ (SameCall s.store.slot.own st.slot.own) s.calls cs)
    (hn : st.slot = .fallback none → s.g.sighandlersCount ≤ 0) :
    Both Agree (s.longjmp frame) ((s.swap st cs).longjmp frame) := by
  have hholds : ∀ c c', SameCall s.store.slot.own st.slot.own c c' →
      (!c.holds frame) = !c'.holds frame := fun c c' h => by rw [h.holds]
  have hdrop := forall₂_dropWhile hc hholds
  have htake := forall₂_takeWhile hc hholds
  have hhead : ∀ c rest, s.calls.dropWhile (fun c => !c.holds frame) = c :: rest →
      c.holds frame = true := by
    intro c rest hcs
    have := List.head?_dropWhile_not (fun c => !c.holds frame) s.calls
    rw [hcs] at this
    simpa using this
  unfold GuardState.longjmp
  simp only [GuardState.swap_calls]
  generalize s.calls.dropWhile (fun c => !c.holds frame) = l at hdrop hhead ⊢
  generalize cs.dropWhile (fun c => !c.holds frame) = l' at hdrop ⊢
  cases hdrop with
  | nil => exact .error _ _
  | cons hcall hrest =>
    cases hcall with
    | raise => exact .error _ _
    | sigguarded f tss tss' old recovering hown =>
      obtain ⟨rfl, rfl, hs, ht⟩ := hown (by
        have := hhead _ _ rfl
        simp only [GuardCall.holds, Bool.and_eq_true, Bool.not_eq_true'] at this
        exact this.2)
      obtain ⟨a, b, state, state', hr⟩ := h.ready hs ht
      obtain ⟨st₁, st₁', hset, hset', htwins, hslot, hslot'⟩ := hr.setFront ThreadFault.tss old
      refine Both.bind_same fun f hf => ?_
      rw [show (s.swap st cs).store = st from rfl, hr.own, hr.own', hset, hset',
        same_discard htake]
      refine .pure (.intro st₁' _ htwins (.cons (.sigguarded _ _ _ _ _ fun h => by cases h) ?_)
        fun hs => absurd (hslot' ▸ hs) hr.slot_ne)
      exact hrest.imp fun _ _ hcc => hcc.move (.inr (congrArg TssSlot.own hslot))
        (.inr (congrArg TssSlot.own hslot'))

theorem frameAnswer_both {frame rsi : Addr} {d : Decision} (h : Twins s.store st)
    (hcs : List.Forall₂ (SameCall s.store.slot.own st.slot.own) s.calls cs)
    (hc : List.Forall₂ (SameCall s.store.slot.own st.slot.own) rest rest')
    (hn : st.slot = .fallback none → s.g.sighandlersCount ≤ 0) :
    Both Agree (frameAnswer s args delivered frame rsi d rest)
      (frameAnswer (s.swap st cs) args delivered frame rsi d rest') := by
  unfold frameAnswer
  refine Both.bind_same fun info hinfo => ?_
  refine Both.ite Iff.rfl (fun _ => .error _ _) fun _ => Both.bind_same fun f hf => ?_
  cases d with
  | nextDecider => exact .pure (.intro st _ h (.cons (.raise _ _ _) hc) hn)
  | resumeExecution =>
    exact .pure (answer_agree (s := s.discard [.raise args delivered (.asking frame rsi)]) h hc hn
      true)
  | callRecovery =>
    refine Both.ite Iff.rfl (fun _ => ?_) fun _ => ?_
    · exact longjmp_both (s := s.setFrame frame { f with rsi := info }) h hcs hn
    · exact .pure (.intro st _ h (.cons (.raise _ _ _) hc) hn)

theorem globalAnswer_both {item current rsi : Addr} {sa : Sigaction} {d : Decision}
    (h : Twins s.store st)
    (hc : List.Forall₂ (SameCall s.store.slot.own st.slot.own) rest rest')
    (hn : st.slot = .fallback none → s.g.sighandlersCount ≤ 0) :
    Both Agree (globalAnswer s args delivered item current rsi sa d rest)
      (globalAnswer (s.swap st cs) args delivered item current rsi sa d rest') := by
  unfold globalAnswer
  refine Both.bind_same fun info hinfo => ?_
  refine Both.ite Iff.rfl (fun _ => .error _ _) fun _ => Both.bind_same fun r hr => ?_
  obtain ⟨l, g⟩ := r
  have hn' : st.slot = .fallback none → g.sighandlersCount ≤ 0 := by
    rw [(raiseLeave_still (ofLib_ok.mp hr)).count]
    exact hn
  cases l with
  | claimed =>
    exact .pure (answer_agree
      (s := (s.setG g).discard [.raise args delivered (.deciding item current rsi sa)]) h hc hn'
      true)
  | deciding next value => exact .pure (.intro st _ h (.cons (.raise _ _ _) hc) hn')
  | unclaimed => exact .pure (.intro st _ h (.cons (.raise _ _ _) hc) hn')

/-- A decider whose frame is not on top of the guard stack cannot be abandoned. -/
theorem popFrame_fails {frame : Addr} (hf : s.store.front = none) :
    ∃ e, s.popFrame (some frame) = .error e := by
  cases h : s.popFrame (some frame) with
  | error e => exact ⟨e, rfl⟩
  | ok s' =>
    simp only [GuardState.popFrame, bind_ok, Heap.read_ok] at h
    obtain ⟨tss, hfind, state, ⟨a, rfl, ha⟩, h⟩ := h
    rw [front_of_some (find_own hfind) ha] at hf
    rw [hf, if_pos (by simp)] at h
    simp at h

theorem popFrame_both (h : Twins s.store st)
    (hc : List.Forall₂ (SameCall s.store.slot.own st.slot.own) s.calls cs)
    (hn : st.slot = .fallback none → s.g.sighandlersCount ≤ 0) (frame : Option Addr) :
    Both Agree (s.popFrame frame) ((s.swap st cs).popFrame frame) := by
  cases frame with
  | none => exact .pure (.intro st cs h hc hn)
  | some frame =>
    by_cases hf : s.store.front = none
    · obtain ⟨e, he⟩ : ∃ e, s.popFrame (some frame) = .error e := popFrame_fails hf
      obtain ⟨e', he'⟩ : ∃ e, (s.swap st cs).popFrame (some frame) = .error e :=
        popFrame_fails (h.front.trans hf)
      rw [he, he']
      exact .error _ _
    · obtain ⟨a, b, state, state', hr⟩ := h.ready (fun hs => hf (front_of_none hs))
        fun ht => hf (h.front.symm.trans (front_of_none ht))
      simp only [GuardState.popFrame, show (s.swap st cs).store = st from rfl, find_some hr.own,
        find_some hr.own']
      refine hr.read fun hfront hfront' => ?_
      rw [hfront, hfront']
      refine Both.ite Iff.rfl (fun _ => .error _ _) fun _ => Both.bind_same fun f hf => ?_
      obtain ⟨st₁, st₁', hset, hset', htwins, hslot, hslot'⟩ :=
        hr.setFront ThreadFault.tss f.prev
      rw [hset, hset']
      refine .pure (.intro st₁' _ htwins ?_ fun hs => absurd (hslot' ▸ hs) hr.slot_ne)
      exact hc.imp fun _ _ hcc => hcc.move (.inr (congrArg TssSlot.own hslot))
        (.inr (congrArg TssSlot.own hslot'))

theorem unpopFrame_both (h : Twins s.store st)
    (hc : List.Forall₂ (SameCall s.store.slot.own st.slot.own) s.calls cs)
    (hn : st.slot = .fallback none → s.g.sighandlersCount ≤ 0) (frame : Option Addr)
    (hown : frame ≠ none → s.store.slot.own ≠ none ∧ st.slot.own ≠ none) :
    Both Agree (s.unpopFrame frame) ((s.swap st cs).unpopFrame frame) := by
  cases frame with
  | none => exact .pure (.intro st cs h hc hn)
  | some frame =>
    obtain ⟨hs, ht⟩ := hown (by simp)
    obtain ⟨a, b, state, state', hr⟩ := h.ready hs ht
    simp only [GuardState.unpopFrame, show (s.swap st cs).store = st from rfl, find_some hr.own,
      find_some hr.own']
    refine hr.read fun hfront hfront' => Both.bind_same fun f hf => ?_
    rw [hfront, hfront']
    refine Both.ite Iff.rfl (fun _ => .error _ _) fun _ => ?_
    obtain ⟨st₁, st₁', hset, hset', htwins, hslot, hslot'⟩ :=
      hr.setFront ThreadFault.tss (some frame)
    rw [hset, hset']
    refine .pure (.intro st₁' _ htwins ?_ fun hs => absurd (hslot' ▸ hs) hr.slot_ne)
    exact hc.imp fun _ _ hcc => hcc.move (.inr (congrArg TssSlot.own hslot))
      (.inr (congrArg TssSlot.own hslot'))

/-- The half of the two functions that concerns the state all threads share. -/
theorem withPins_both {t : GuardState} {info : Siginfo}
    {f : Global → Addr → Addr → Except Fault Global}
    (hf : ∀ g g' item current, f g item current = .ok g' →
      g'.sighandlersCount = g.sighandlersCount) (h : Agree s t) :
    Both Agree (s.withPins info f) (t.withPins info f) := by
  obtain ⟨st, cs, h, hc, hn⟩ := h
  unfold GuardState.withPins
  split
  · refine Both.bind_same fun g hg => .pure (.intro (s := s.setG g) st cs h hc fun hs => ?_)
    rw [g_setG, hf _ _ _ _ (ofLib_ok.mp hg)]
    exact hn hs
  · exact .pure (.intro st cs h hc hn)

theorem landing_same {own own' : Option Addr}
    (h : List.Forall₂ (SameCall own own') calls calls') :
    (GuardCall.landing calls = none ∧ GuardCall.landing calls' = none) ∨
      ∃ l l', GuardCall.landing calls = some l ∧ GuardCall.landing calls' = some l' ∧
        List.Forall₂ (SameCall own own') l l' := by
  cases h with
  | nil => exact .inl ⟨rfl, rfl⟩
  | cons hcall hrest =>
    cases hcall with
    | sigguarded => exact .inl ⟨rfl, rfl⟩
    | raise args delivered pc =>
      cases pc with
      | asking frame rsi =>
        rename_i rest rest'
        have hdrop := forall₂_dropWhile hrest (p := fun c => !c.holds frame)
          (q := fun c => !c.holds frame) fun c c' h => by rw [h.holds]
        simp only [GuardCall.landing]
        generalize rest.dropWhile (fun c => !c.holds frame) = l at hdrop ⊢
        generalize rest'.dropWhile (fun c => !c.holds frame) = l' at hdrop ⊢
        cases hdrop with
        | nil => exact .inl ⟨rfl, rfl⟩
        | cons _ hl => exact .inr ⟨_, _, rfl, rfl, hl⟩
      | deciding => exact .inr ⟨_, _, rfl, rfl, hrest⟩
      | _ => exact .inl ⟨rfl, rfl⟩

theorem jumpSection_both {info : Siginfo} (h : Twins s.store st)
    (hc : List.Forall₂ (SameCall s.store.slot.own st.slot.own) s.calls cs)
    (hn : st.slot = .fallback none → s.g.sighandlersCount ≤ 0) :
    Both Agree (jumpSection s info) (jumpSection (s.swap st cs) info) := by
  unfold jumpSection
  refine Both.ite Iff.rfl (fun _ => ?_) fun _ => .error _ _
  simp only [GuardState.swap_calls]
  rcases landing_same hc with ⟨hl, hl'⟩ | ⟨l, l', hl, hl', hll⟩
  · rw [hl, hl']
    exact .error _ _
  · rw [hl, hl']
    simp only
    rw [← hc.length_eq, ← hll.length_eq,
      same_discard (List.forall₂_take (s.calls.length - l.length) hc)]
    exact .pure (.intro st l' h hll hn)

theorem pushGuard_both {signals : SigSet} {recovery : Bool} {decider : Nat} {value : Int}
    (h : Twins s.store st)
    (hc : List.Forall₂ (SameCall s.store.slot.own st.slot.own) s.calls cs) :
    Both Agree (pushGuard s signals recovery decider value {})
      (pushGuard (s.swap st cs) signals recovery decider value {}) := by
  obtain ⟨hok, hok', ⟨a, b, state, state', hr⟩, -, hmove⟩ := h.init
  have hc := hmove _ _ hc
  simp only [pushGuard, show (s.swap st cs).store = st from rfl]
  generalize s.store.init {} = r at hok hr hc ⊢
  generalize st.init {} = r' at hok' hr hc ⊢
  obtain ⟨ok, st₁⟩ := r
  obtain ⟨ok', st₁'⟩ := r'
  cases hok
  cases hok'
  dsimp only at hr hc
  simp only [Bool.not_true, Bool.false_eq_true, if_false, store_setStore, find_some hr.own,
    find_some hr.own']
  refine hr.read fun hf hf' => ?_
  obtain ⟨st₂, st₂', hset, hset', htwins, hslot, hslot'⟩ :=
    hr.setFront ThreadFault.tss (some s.nextFrame)
  rw [hf, hf']
  change Both Agree (st₁.setFront ThreadFault.tss (some a) (some s.nextFrame) >>= _)
    (st₁'.setFront ThreadFault.tss (some b) (some s.nextFrame) >>= _)
  rw [hset, hset']
  have hown : st₂.slot.own = some a := by rw [hslot, hr.own]
  have hown' : st₂'.slot.own = some b := by rw [hslot', hr.own']
  refine .pure (.intro st₂' _ htwins (.cons (.sigguarded _ _ _ _ _ fun _ => ?_) ?_)
    fun hs => absurd (hslot' ▸ hs) hr.slot_ne)
  · exact ⟨hown.symm, hown'.symm, Option.ne_none_iff_exists'.mpr ⟨a, hown⟩,
      Option.ne_none_iff_exists'.mpr ⟨b, hown'⟩⟩
  · exact hc.imp fun _ _ hcc => hcc.move (.inr (congrArg TssSlot.own hslot))
      (.inr (congrArg TssSlot.own hslot'))

theorem returnSection_both {value : Int} (h : Twins s.store st)
    (hc : List.Forall₂ (SameCall s.store.slot.own st.slot.own) s.calls cs)
    (hn : st.slot = .fallback none → s.g.sighandlersCount ≤ 0) :
    Both Agree (returnSection s value) (returnSection (s.swap st cs) value) := by
  unfold returnSection
  simp only [GuardState.swap_calls]
  generalize hcalls : s.calls = l at hc ⊢
  cases hc with
  | nil => exact .error _ _
  | cons hcall hrest =>
    cases hcall with
    | sigguarded frame tss tss' old recovering hown =>
      simp only
      cases recovering with
      | true => exact .pure (.intro st _ h hrest hn)
      | false =>
        obtain ⟨rfl, rfl, hs, ht⟩ := hown rfl
        obtain ⟨a, b, state, state', hr⟩ := h.ready hs ht
        obtain ⟨st₁, st₁', hset, hset', htwins, hslot, hslot'⟩ := hr.setFront ThreadFault.tss old
        rw [if_neg (by simp), if_neg (by simp)]
        change Both Agree (s.store.setFront ThreadFault.tss s.store.slot.own old >>= _)
          (st.setFront ThreadFault.tss st.slot.own old >>= _)
        rw [hr.own, hr.own', hset, hset']
        refine .pure (.intro st₁' _ htwins ?_ fun hs => absurd (hslot' ▸ hs) hr.slot_ne)
        exact hrest.imp fun _ _ hcc => hcc.move (.inr (congrArg TssSlot.own hslot))
          (.inr (congrArg TssSlot.own hslot'))
    | raise args delivered pc =>
      cases pc with
      | handler => exact .pure (answer_agree h hrest hn true)
      | _ => exact .error _ _

end

/-- Two processes of one program, of which the first keeps its storage. -/
inductive SameProcess (st₀ : ThreadStorage) (calls cs : List GuardCall) :
    Process → Process → Prop where
  | intro (g : Global) (errno : Int) (st : ThreadStorage) (h : Twins st₀ st)
      (hc : List.Forall₂ (SameCall st₀.slot.own st.slot.own) calls cs)
      (hn : st.slot = .fallback none → g.sighandlersCount ≤ 0) :
      SameProcess st₀ calls cs ⟨g, st₀, errno⟩ ⟨g, st, errno⟩

section

variable {st₀ st : ThreadStorage} {calls cs : List GuardCall} {m m' : Process} {signo : Signo}
  {env : SiginstallEnv}

/-- A fallback without an instance gets an empty one. -/
theorem Twins.create (h : Twins st₀ st) : st₀.create true = (true, st₀) ∧
    ∃ st₁, st.create true = (true, st₁) ∧ Twins st₀ st₁ ∧ st₁.slot.own = st.slot.own ∧
      st₁.slot ≠ .fallback none := by
  obtain ⟨own, hs⟩ := h.native
  obtain ⟨tss, hs'⟩ := h.fallback
  refine ⟨by simp [ThreadStorage.create, hs], ?_⟩
  cases tss with
  | some own' => exact ⟨st, by simp [ThreadStorage.create, hs'], h, rfl, by simp [hs']⟩
  | none =>
    have hown : st.slot.own = none := by rw [hs', TssSlot.own, Option.join_none]
    refine ⟨{ st with slot := .fallback (some none) }, by simp [ThreadStorage.create, hs'],
      ⟨h.native, ⟨_, rfl⟩, ?_, h.live, fun a ha => by cases ha⟩, hown.symm, by simp⟩
    rw [← h.front, front_of_none hown]
    exact front_of_none rfl

theorem Installs.count {g g' : Global} {ok : Bool} (h : Installs signo g ok g') :
    g'.sighandlersCount = if ok then g.sighandlersCount + 1 else g.sighandlersCount := by
  cases h with
  | refused h => exact h.count
  | counted c k hm hc h => exact h.count
  | published hm h => exact h.count
  | dropped c k hm hc hz h => exact h.count

theorem Uninstalls.count {g g' : Global} (h : Uninstalls signo g g') :
    g'.sighandlersCount =
      if (g.map signo).isSome then g.sighandlersCount - 1 else g.sighandlersCount := by
  cases h with
  | absent hm => simp [hm]
  | counted c k hm hc hn h => simp [hm, h.count]
  | erased c k hm hc hn h => simp [hm, h.count]

theorem installStored_both (henv : (env.signal signo).tssCreate = true)
    (h : SameProcess st₀ calls cs m m') :
    Both (fun r r' => r.1 = r'.1 ∧ SameProcess st₀ calls cs r.2 r'.2)
      (installStored env m signo) (installStored env m' signo) := by
  obtain ⟨g, errno, st, h, hc, hn⟩ := h
  obtain ⟨hcreate, st₁, hcreate', htwins, hown, hslot⟩ := h.create
  unfold installStored
  simp only [henv, hcreate, hcreate']
  refine Both.bind_same fun r hr => ?_
  obtain ⟨ok, g₁⟩ := r
  have hcount := (install_installs (ofLib_ok.mp hr)).count
  cases ok with
  | false =>
    refine .pure ⟨rfl, .intro g₁ _ st h hc fun hs => ?_⟩
    rw [hcount]
    exact hn hs
  | true =>
    refine .pure ⟨rfl, ?_⟩
    by_cases hz : g.sighandlersCount = 0
    · simp only [hz, if_pos]
      exact .intro g₁ errno st₁ htwins (by rw [hown]; exact hc) fun hs => absurd hs hslot
    · simp only [if_neg hz]
      refine .intro g₁ errno st h hc fun hs => ?_
      have := hn hs
      simp only [if_true] at hcount
      omega

theorem uninstallStored_both
    (hlost : m.g.lastUninstall signo = true →
      st₀.front = none ∧ ∀ c ∈ calls, c.active = none)
    (h : SameProcess st₀ calls cs m m') :
    Both (SameProcess st₀ calls cs) (uninstallStored m signo) (uninstallStored m' signo) := by
  obtain ⟨g, errno, st, h, hc, hn⟩ := h
  unfold uninstallStored
  refine Both.bind_same fun g₁ hg => ?_
  have hcount := (uninstall_uninstalls (ofLib_ok.mp hg)).count
  refine Both.ite Iff.rfl (fun hlast => ?_) fun hlast => .pure (.intro g₁ errno st h hc fun hs => ?_)
  · obtain ⟨hfront, hidle⟩ := hlost hlast
    obtain ⟨own, hs⟩ := h.native
    obtain ⟨tss, hs'⟩ := h.fallback
    simp only [Global.lastUninstall, Bool.and_eq_true, beq_iff_eq] at hlast
    rw [if_pos hlast.1] at hcount
    dsimp only at hcount
    cases tss with
    | none =>
      have := hn hs'
      have := hlast.2
      omega
    | some own' =>
      simp only [ThreadStorage.destroy, hs, hs', pure_bind]
      refine .pure (.intro g₁ errno _ ⟨h.native, ⟨none, rfl⟩, ?_, h.live, fun a ha => by cases ha⟩ ?_
        fun _ => ?_)
      · rw [hfront]
        exact front_of_none rfl
      · exact same_idle hc hidle
      · exact Int.le_of_eq (hcount.trans hlast.2)
  · have := hn hs
    dsimp only at hcount
    split at hcount <;> omega

theorem uninstallStored_g (h : uninstallStored m signo = .ok m') :
    uninstallSighandler m.g signo = .ok m'.g := by
  obtain ⟨g, hg, h⟩ := bind_ok.mp h
  split at h
  · obtain ⟨store, -, h⟩ := bind_ok.mp h
    obtain rfl := pure_ok.mp h
    exact ofLib_ok.mp hg
  · obtain rfl := pure_ok.mp h
    exact ofLib_ok.mp hg

theorem uninstallsLast_tail {g g₁ : Global} {l : List Signo}
    (h : uninstallSighandler g signo = .ok g₁) (hl : g₁.uninstallsLast l = true) :
    g.uninstallsLast (signo :: l) = true := by
  simp [Global.uninstallsLast, h, Except.toOption, hl]

theorem uninstallAll_both {l : List Signo}
    (hlost : m.g.uninstallsLast l = true → st₀.front = none ∧ ∀ c ∈ calls, c.active = none)
    (h : SameProcess st₀ calls cs m m') :
    Both (SameProcess st₀ calls cs) (l.foldlM uninstallStored m) (l.foldlM uninstallStored m') := by
  induction l generalizing m m' with
  | nil => exact .pure h
  | cons signo l ih =>
    rw [List.foldlM_cons, List.foldlM_cons]
    refine (uninstallStored_both (fun hl => hlost ?_) h).bind fun m₁ m₁' hm _ h₁ =>
      ih (fun hl => hlost ?_) h₁
    · simp [Global.uninstallsLast, hl]
    · exact uninstallsLast_tail (uninstallStored_g hm) hl

theorem rollback_both {l : List Signo}
    (hlost : m.g.uninstallsLast l = true → st₀.front = none ∧ ∀ c ∈ calls, c.active = none)
    (h : SameProcess st₀ calls cs m m') :
    Both (SameProcess st₀ calls cs) (l.foldlM (rollbackStored env) m)
      (l.foldlM (rollbackStored env) m') := by
  induction l generalizing m m' with
  | nil => exact .pure h
  | cons signo l ih =>
    rw [List.foldlM_cons, List.foldlM_cons]
    have hstep : Both (SameProcess st₀ calls cs) (rollbackStored env m signo)
        (rollbackStored env m' signo) := by
      refine (uninstallStored_both (fun hl => hlost ?_) h).bind fun m₁ m₁' _ _ h₁ => .pure ?_
      · simp [Global.uninstallsLast, hl]
      · obtain ⟨g, errno, st, h, hc, hn⟩ := h₁
        exact .intro g _ st h hc hn
    refine hstep.bind fun m₁ m₁' hm _ h₁ => ih (fun hl => hlost ?_) h₁
    obtain ⟨m₂, hu, hm⟩ := bind_ok.mp hm
    obtain rfl := pure_ok.mp hm
    exact uninstallsLast_tail (uninstallStored_g hu) hl

theorem installAll_both {done todo : List Signo}
    (henv : ∀ signo, (env.signal signo).tssCreate = true)
    (hlost : rollsBackLast env m done todo = true →
      st₀.front = none ∧ ∀ c ∈ calls, c.active = none)
    (h : SameProcess st₀ calls cs m m') :
    Both (fun r r' => r.1 = r'.1 ∧ SameProcess st₀ calls cs r.2 r'.2) (installAll env m done todo)
      (installAll env m' done todo) := by
  induction todo generalizing m m' done with
  | nil => exact .pure ⟨rfl, h⟩
  | cons signo todo ih =>
    unfold installAll
    refine (installStored_both (henv signo) h).bind fun r r' hr _ hrr => ?_
    obtain ⟨ok, m₁⟩ := r
    obtain ⟨ok', m₁'⟩ := r'
    obtain ⟨rfl, h₁⟩ := hrr
    cases ok with
    | true =>
      refine ih (fun hl => hlost ?_) h₁
      simp [rollsBackLast, hr, Except.toOption, hl]
    | false =>
      refine (rollback_both (fun hl => hlost ?_) h₁).bind fun m₂ m₂' _ _ h₂ => .pure ⟨rfl, ?_⟩
      · simp [rollsBackLast, hr, Except.toOption, hl]
      · have herrno : m₁.errno = m₁'.errno := by
          obtain ⟨g, errno, st, -⟩ := h₁
          rfl
        rw [herrno]
        obtain ⟨g, errno, st, h, hc, hn⟩ := h₂
        exact .intro g _ st h hc hn

theorem siginstall_both {p : Platform} {guarded : Option SigSet}
    (henv : ∀ signo, (env.signal signo).tssCreate = true)
    (hlost : (env.malloc && rollsBackLast env m [] (p.members (p.installSet guarded))) = true →
      st₀.front = none ∧ ∀ c ∈ calls, c.active = none)
    (h : SameProcess st₀ calls cs m m') :
    Both (fun r r' => r.1 = r'.1 ∧ SameProcess st₀ calls cs r.2 r'.2) (siginstall p env m guarded)
      (siginstall p env m' guarded) := by
  unfold siginstall
  refine Both.ite Iff.rfl (fun hmalloc => ?_) fun _ => .pure ⟨rfl, ?_⟩
  · refine (installAll_both henv (fun hl => hlost (by rw [hmalloc, hl]; rfl)) h).bind
      fun r r' _ _ hrr => .pure ⟨?_, hrr.2⟩
    rw [hrr.1]
  · obtain ⟨g, errno, st, h, hc, hn⟩ := h
    exact .intro g _ st h hc hn

end

section

variable {p : Platform} {s t : GuardState} {act : GuardAction}

theorem withInfo_both {f f' : GuardState → Addr → Siginfo → Except ThreadFault GuardState}
    (h : Agree s t)
    (hf : ∀ c rest rsi info, s.calls = c :: rest → c.info = some rsi → s.infos rsi = some info →
      Both Agree (f s rsi info) (f' t rsi info)) : Both Agree (s.withInfo f) (t.withInfo f') := by
  obtain ⟨st, cs, h, hc, hn⟩ := h
  unfold GuardState.withInfo
  simp only [GuardState.swap_calls]
  generalize hcalls : s.calls = calls at hc hf ⊢
  cases hc with
  | nil => exact .error _ _
  | @cons c c' rest rest' hcall _ =>
    simp only [List.head?_cons, Option.bind_some, ← hcall.info]
    cases hrsi : c.info with
    | none => exact .error _ _
    | some rsi =>
      refine Both.bind_same fun info hinfo => ?_
      obtain ⟨_, heq, hinfo⟩ := Heap.read_ok.mp hinfo
      cases heq
      exact hf c rest rsi info rfl hrsi hinfo

theorem setInfo_agree (h : Agree s t) (rsi : Addr) (info : Siginfo) :
    Agree (s.setInfo rsi info) (t.setInfo rsi info) := by
  obtain ⟨st, cs, h, hc, hn⟩ := h
  exact .intro st cs h hc hn

theorem abandon_count {g g' : Global} {item current : Addr}
    (h : sigdeciderAbandon g item current = .ok g') : g'.sighandlersCount = g.sighandlersCount :=
  (abandon_still h).count

theorem abandonResume_count {g g' : Global} {item current : Addr}
    (h : sigdeciderAbandonResume g item current = .ok g') :
    g'.sighandlersCount = g.sighandlersCount := by
  obtain ⟨k, -, h⟩ := bind_ok.mp h
  obtain ⟨nd, -, h⟩ := bind_ok.mp h
  obtain rfl := pure_ok.mp h
  rfl

/-- Both programs take every step alike, unless it destroys the storage under an active guard. -/
theorem guardStep_both (hi : Disciplined s) (hp : Provided s act)
    (hlost : s.losesStorage p act = true → s.activeGuards = []) (h : Agree s t) :
    Both Agree (guardStep p s act) (guardStep p t act) := by
  have whole := h
  obtain ⟨hst, own, hg⟩ := hi
  -- nothing is lost but where no guard is active
  have idle : s.losesStorage p act = true →
      s.store.front = none ∧ ∀ c ∈ s.calls, c.active = none := by
    intro hl
    have hnone := hlost hl
    exact ⟨hg.threads.front_idle hnone, List.filterMap_eq_nil_iff.mp hnone⟩
  obtain ⟨st, cs, h, hc, hn⟩ := h
  cases act with
  | sigguarded signals recovery decider value env =>
    obtain rfl : env = {} := hp
    simp only [guardStep, same_userCode hc]
    exact Both.ite Iff.rfl (fun _ => pushGuard_both h hc) fun _ => .error _ _
  | raise args env =>
    obtain rfl : env = {} := hp
    simp only [guardStep, same_userCode hc]
    exact Both.ite Iff.rfl (fun _ => pushRaise_both h hc) fun _ => .error _ _
  | deliver args env =>
    obtain rfl : env = {} := hp
    exact Both.ite Iff.rfl (fun _ => pushRaise_both h hc) fun _ => .error _ _
  | siginstall guarded env =>
    obtain ⟨-, henv⟩ := hp
    simp only [guardStep, same_userCode hc]
    refine Both.ite Iff.rfl (fun _ => ?_) fun _ => .error _ _
    have hsame : SameProcess s.store s.calls cs s.process (s.swap st cs).process :=
      .intro s.process.g s.process.errno st h hc hn
    refine (siginstall_both (fun signo => (henv signo).2) idle hsame).bind fun r r' _ _ hrr => ?_
    obtain ⟨handle, m⟩ := r
    obtain ⟨handle', m'⟩ := r'
    obtain ⟨rfl, hm⟩ := hrr
    obtain ⟨g, errno, st', h', hc', hn'⟩ := hm
    cases handle with
    | none => exact .pure (.intro st' cs h' hc' hn')
    | some set => exact .pure (.intro st' cs h' hc' hn')
  | siguninstall handle =>
    simp only [guardStep, same_userCode hc, GuardState.swap_installs]
    simp only [GuardState.losesStorage] at idle
    split
    · rename_i set _ hfind
      have hsame : SameProcess s.store s.calls cs s.process (s.swap st cs).process :=
        .intro s.process.g s.process.errno st h hc hn
      refine (uninstallAll_both (fun hl => idle ?_) hsame).bind fun m m' _ _ hm => ?_
      · rw [hfind]
        exact hl
      · obtain ⟨g, errno, st', h', hc', hn'⟩ := hm
        exact .pure (.intro st' cs h' hc' hn')
    · exact .error _ _
  | elsewhere g =>
    exact .pure (.intro (s := s.setG g) st cs h hc fun hs => hp.trans_le (hn hs))
  | advance =>
    simp only [guardStep, GuardState.swap_calls]
    generalize hcalls : s.calls = calls at hc ⊢
    cases hc with
    | nil => exact .error _ _
    | cons hcall hrest =>
      cases hcall with
      | sigguarded => exact .error _ _
      | raise args delivered pc => exact guardSection_both h hrest hn
  | decide d =>
    simp only [guardStep, GuardState.swap_calls]
    have hcs := hc
    generalize hcalls : s.calls = calls at hc ⊢
    cases hc with
    | nil => exact .error _ _
    | cons hcall hrest =>
      cases hcall with
      | sigguarded => exact .error _ _
      | raise args delivered pc =>
        cases pc with
        | asking frame rsi => exact frameAnswer_both h hcs hrest hn
        | deciding => exact globalAnswer_both h hrest hn
        | _ => exact .error _ _
  | write info =>
    simp only [guardStep]
    exact withInfo_both whole fun c rest rsi old _ _ _ => .pure (setInfo_agree whole rsi _)
  | abandon =>
    simp only [guardStep]
    refine withInfo_both whole fun c rest rsi info _ _ _ => ?_
    refine Both.ite Iff.rfl (fun _ => .pure whole) fun _ => ?_
    exact ((popFrame_both h hc hn _).bind fun _ _ _ _ h₁ =>
      withPins_both (fun _ _ _ _ => abandon_count) h₁).bind fun _ _ _ _ h₂ =>
        .pure (setInfo_agree h₂ rsi _)
  | resume =>
    simp only [guardStep]
    refine withInfo_both whole fun c rest rsi info hcalls hrsi hinfo => ?_
    refine Both.ite Iff.rfl (fun hab => ?_) fun _ => .pure whole
    -- the guard of an abandoned decider is active, so both threads have an object
    have hown : info.internalLocalDecider ≠ none →
        s.store.slot.own ≠ none ∧ st.slot.own ≠ none := by
      intro hne
      obtain ⟨info', hinfo', hnamed⟩ := hst.named c (by rw [hcalls]; exact List.mem_cons_self) rsi
        hrsi
      rw [hinfo] at hinfo'
      cases hinfo'
      rw [hnamed] at hne
      obtain ⟨args, delivered, frame, rfl⟩ := asks_of_not hrsi hne
      have hth := hg.threads
      rw [hcalls] at hth
      obtain ⟨f, -, -, -, hth'⟩ := hth.of_abandoned hinfo hab
      refine same_owns hc (a := frame) ?_
      rw [hcalls]
      exact hth'.front_active
    exact ((unpopFrame_both h hc hn _ hown).bind fun _ _ _ _ h₁ =>
      withPins_both (fun _ _ _ _ => abandonResume_count) h₁).bind fun _ _ _ _ h₂ =>
        .pure (setInfo_agree h₂ rsi _)
  | jump =>
    simp only [guardStep]
    exact withInfo_both whole fun c rest rsi info _ _ _ => jumpSection_both h hc hn
  | ret value => exact returnSection_both h hc hn

end

theorem agree_initial (kernel : Signo → Sigaction) :
    Agree (.initial true (State.initial kernel).g) (.initial false (State.initial kernel).g) :=
  .intro (.initial false) [] ⟨⟨none, rfl⟩, ⟨none, rfl⟩, rfl, fun a ha => (by cases ha),
    fun a ha => (by cases ha)⟩ .nil fun _ => Int.le_refl 0

/-- The two configurations go in step. -/
theorem storages_agree (p : Platform) (kernel : Signo → Sigaction) (acts : List GuardAction)
    (h : ∀ pre act post s, acts = pre ++ act :: post →
      pre.foldlM (guardStep p) (.initial true (State.initial kernel).g) = .ok s →
      Provided s act ∧ (s.losesStorage p act = true → s.activeGuards = [])) :
    Both (fun s t => Disciplined s ∧ Agree s t)
      (acts.foldlM (guardStep p) (.initial true (State.initial kernel).g))
      (acts.foldlM (guardStep p) (.initial false (State.initial kernel).g)) := by
  refine Both.run (fun s t act hst hok => ?_) ⟨disciplined_initial _, agree_initial kernel⟩ h
  obtain ⟨hi, ha⟩ := hst
  have hstep := guardStep_both hi hok.1 hok.2 ha
  have hnext : ∀ s', guardStep p s act = .ok s' → Disciplined s' :=
    fun s' hs => hi.step (guardStep_turns hs)
  generalize guardStep p s act = x at hstep hnext ⊢
  generalize guardStep p t act = y at hstep ⊢
  cases hstep with
  | ok hab => exact .ok ⟨hnext _ rfl, hab⟩
  | error => exact .error _ _

/-- A program sees the same whether the state of a thread is in a native thread-local or in the
fallback, if no uninstall destroys the fallback under an active guard. -/
theorem storages_alike (p : Platform) (kernel : Signo → Sigaction) (acts : List GuardAction)
    (h : ∀ pre act post s, acts = pre ++ act :: post →
      pre.foldlM (guardStep p) (.initial true (State.initial kernel).g) = .ok s →
      Provided s act ∧ (s.losesStorage p act = true → s.activeGuards = [])) :
    observed p true kernel acts = observed p false kernel acts := by
  have hboth := storages_agree p kernel acts h
  unfold observed
  generalize acts.foldlM (guardStep p) (.initial true (State.initial kernel).g) = x at hboth ⊢
  generalize acts.foldlM (guardStep p) (.initial false (State.initial kernel).g) = y at hboth ⊢
  cases hboth with
  | error => rfl
  | ok hst =>
    obtain ⟨-, ⟨⟩⟩ := hst
    rfl

/-- A guard that recovers from a raise of an installed signal, which is uninstalled afterwards. -/
def recoveringActions : List GuardAction :=
  [.siginstall (some (· == 1)) { code := 0 }, .sigguarded (· == 1) true 0 7 {},
    .raise { signo := 1 } {}, .advance, .decide .callRecovery, .ret 5, .siguninstall 0,
    .raise { signo := 0 } {}]

theorem storages_alike_recovering :
    observed .tiny true (fun _ => .dfl) recoveringActions =
      observed .tiny false (fun _ => .dfl) recoveringActions ∧
    (observed .tiny true (fun _ => .dfl) recoveringActions).map List.length = some 4 := by
  refine ⟨storages_alike .tiny _ _ fun pre act post s hl hs => ?_, by decide⟩
  have hcheck := ends_checks (c := fun s act => !s.losesStorage .tiny act || s.activeGuards == [])
    (q := fun _ => true) (show ends _ _ _ _ recoveringActions = true by decide) hl hs
  refine ⟨?_, fun hlost => by simpa [hlost] using hcheck⟩
  have hm : act ∈ recoveringActions := by rw [hl]; simp
  simp only [recoveringActions, List.mem_cons, List.not_mem_nil, or_false] at hm
  rcases hm with rfl | rfl | rfl | rfl | rfl | rfl | rfl | rfl <;> simp [Provided]

/-- Without the condition: a guarded function uninstalls the last handler, and the fallback has
forgotten the guard at the next raise. -/
theorem fallback_forgets_guard :
    ∃ acts : List GuardAction, (∀ act ∈ acts, ∀ s, Provided s act) ∧
      (∃ info, observed .tiny true (fun _ => .dfl) acts =
        some [.asked { signo := 1 } (.frame 0) info]) ∧
      observed .tiny false (fun _ => .dfl) acts = some [.raised false] := by
  refine ⟨[.siginstall (some (· == 1)) { code := 0 }, .sigguarded (· == 1) true 0 7 {},
    .siguninstall 0, .raise { signo := 1 } {}, .advance], ?_,
    ⟨{ signo := 1, value := 7, internalLocalDecider := some 0 }, by decide⟩, by decide⟩
  intro act hm s
  simp only [List.mem_cons, List.not_mem_nil, or_false] at hm
  rcases hm with rfl | rfl | rfl | rfl | rfl <;> simp [Provided]

end Wg14Signals
