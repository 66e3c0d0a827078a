import Mathlib.Data.List.TakeWhile
import Wg14Signals.Guards

namespace Wg14Signals
open Lib

/-- A raise that is not inside a decider: no object goes with it. -/
def GuardCall.light : GuardCall → Prop
  | .sigguarded _ _ _ _ => False
  | .raise _ _ (.asking _ _) => False
  | .raise _ _ (.deciding _ _ _ _) => False
  | .raise _ _ _ => True

/-- Frames and `stdc_siginfo`s stay as they are. -/
structure SameObjects (s s' : GuardState) : Prop where
  frames : s'.frames = s.frames
  nextFrame : s'.nextFrame = s.nextFrame
  infos : s'.infos = s.infos
  nextInfo : s'.nextInfo = s.nextInfo

theorem SameObjects.refl (s : GuardState) : SameObjects s s := ⟨rfl, rfl, rfl, rfl⟩

/-- A native thread-local pointer is set once, to an object that nothing but guards and
abandoned deciders writes to. -/
structure StoreKept (st st' : ThreadStorage) : Prop where
  own : ∀ a, st.slot = .threadLocal (some a) →
    st'.slot = .threadLocal (some a) ∧ st'.states a = st.states a
  unset : st.slot = .threadLocal none → st'.slot = .threadLocal none ∨
    ∃ a, st'.slot = .threadLocal (some a) ∧ st'.states a = some {}

theorem StoreKept.refl (st : ThreadStorage) : StoreKept st st :=
  ⟨fun _ h => ⟨h, rfl⟩, fun h => .inl h⟩

theorem StoreKept.trans {st st' st'' : ThreadStorage} (h : StoreKept st st')
    (h' : StoreKept st' st'') : StoreKept st st'' where
  own a ha := by
    obtain ⟨hs, hv⟩ := h.own a ha
    obtain ⟨hs', hv'⟩ := h'.own a hs
    exact ⟨hs', hv'.trans hv⟩
  unset hn := by
    rcases h.unset hn with hs | ⟨a, hs, hv⟩
    · exact h'.unset hs
    · obtain ⟨hs', hv'⟩ := h'.own a hs
      exact .inr ⟨a, hs', hv'.trans hv⟩

/-- The assignment `tss->front = front`, through a pointer to a live object. -/
structure FrontSet (st st' : ThreadStorage) (tss front : Option Addr) : Prop where
  live : ∃ a, tss = some a ∧ (∃ state, st.states a = some state) ∧
    st'.states = st.states.set a (some { front })
  slot : st'.slot = st.slot

theorem frontSet_of_ok {ε : Type} {trap : Option Addr → ε} {st st' : ThreadStorage}
    {tss front : Option Addr} (h : st.setFront trap tss front = .ok st') :
    FrontSet st st' tss front := by
  simp only [ThreadStorage.setFront, bind_ok, Heap.update_ok, pure_ok] at h
  obtain ⟨states, ⟨a, state, rfl, ha, rfl⟩, rfl⟩ := h
  refine ⟨⟨a, rfl, ⟨state, ha⟩, ?_⟩, rfl⟩
  funext b
  by_cases hb : b = a
  · subst hb
    simp [ha]
  · rw [Heap.set_other _ _ hb]
    exact Heap.mapAt_other _ _ (by simpa using hb)

/-- What an event says of deciders: nothing. -/
def GuardEvent.silent : GuardEvent → Bool
  | .asked _ _ _ => false
  | .recovered _ _ => false
  | _ => true

def Unasked (s s' : GuardState) : Prop :=
  ∃ es, s'.trace = es ++ s.trace ∧ ∀ e ∈ es, e.silent = true

theorem Unasked.same {s s' : GuardState} (h : s'.trace = s.trace) : Unasked s s' :=
  ⟨[], h, by simp⟩

theorem Unasked.one {s s' : GuardState} {e : GuardEvent} (h : s'.trace = e :: s.trace)
    (he : e.silent = true) : Unasked s s' :=
  ⟨[e], h, by simpa using he⟩

/-- What abandoning a decider, or taking that back, does to the guard stack: the frame it is
the decider of, if it is one's, goes from the top or comes back there. -/
def AbandonsFront (s s' : GuardState) (frame : Option Addr) : Prop :=
  match frame with
  | none => s'.store = s.store
  | some frame => ∃ tss a state f, s.store.slot.own = tss ∧ tss = some a ∧
      s.store.states a = some state ∧ state.front = some frame ∧ s.frames frame = some f ∧
      FrontSet s.store s'.store tss f.prev

def ResumesFront (s s' : GuardState) (frame : Option Addr) : Prop :=
  match frame with
  | none => s'.store = s.store
  | some frame => ∃ tss a state f, s.store.slot.own = tss ∧ tss = some a ∧
      s.store.states a = some state ∧ s.frames frame = some f ∧ state.front = f.prev ∧
      FrontSet s.store s'.store tss (some frame)

/-- One step of the thread, by what it does to the stack and to the objects that go with it. -/
inductive GuardTurn (s s' : GuardState) : GuardAction → Prop where
  /-- Raises begin, go on and end, all of them outside deciders. -/
  | shift (act : GuardAction) (xs ys rest : List GuardCall)
      (hx : ∀ c ∈ xs, c.light) (hy : ∀ c ∈ ys, c.light)
      (hc : s.calls = xs ++ rest) (hc' : s'.calls = ys ++ rest)
      (ho : SameObjects s s') (hs : StoreKept s.store s'.store) (ht : Unasked s s') :
      GuardTurn s s' act
  | guard (signals : SigSet) (recovery : Bool) (decider : Nat) (value : Int) (env : SetupEnv)
      (st : ThreadStorage) (tss : Addr) (state : ThreadState)
      (hk : StoreKept s.store st) (hown : st.slot.own = some tss)
      (hlive : st.states tss = some state)
      (hc' : s'.calls = .sigguarded s.nextFrame (some tss) state.front false :: s.calls)
      (hf : s'.frames = s.frames.set s.nextFrame (some
        { prev := state.front, guarded := signals, recovery, decider, rsi := { value } }))
      (hnf : s'.nextFrame = s.nextFrame + 1) (hi : s'.infos = s.infos)
      (hni : s'.nextInfo = s.nextInfo)
      (hs : FrontSet st s'.store (some tss) (some s.nextFrame)) (ht : s'.trace = s.trace) :
      GuardTurn s s' (.sigguarded signals recovery decider value env)
  | ask (args : RaiseArgs) (delivered : Bool) (frame : Addr) (f : GuardFrame)
      (rest : List GuardCall) (info : Siginfo)
      (hc : s.calls = .raise args delivered (.walk (some frame)) :: rest)
      (hc' : s'.calls = .raise args delivered (.asking frame s.nextInfo) :: rest)
      (hframe : s.frames frame = some f) (hset : f.guarded args.signo = true)
      (hinfo : info = { prepareRsi {} args with
        value := f.rsi.value
        internalLocalDecider := some frame })
      (hf : s'.frames = s.frames) (hnf : s'.nextFrame = s.nextFrame)
      (hi : s'.infos = s.infos.set s.nextInfo (some info)) (hni : s'.nextInfo = s.nextInfo + 1)
      (hs : s'.store = s.store) (ht : s'.trace = .asked args (.frame frame) info :: s.trace) :
      GuardTurn s s' .advance
  | askFirst (args : RaiseArgs) (delivered : Bool) (item current : Addr) (value : Int)
      (sa : Sigaction) (rest : List GuardCall) (info : Siginfo)
      (hc : s.calls = .raise args delivered (.walk none) :: rest)
      (hc' : s'.calls = .raise args delivered (.deciding item current s.nextInfo sa) :: rest)
      (he : raiseEnter s.g args.signo = .ok (.deciding item current value sa, s'.g))
      (hinfo : info = { prepareRsi {} args with
        value
        internalSighandler := some item
        internalGlobalDecider := some current })
      (hf : s'.frames = s.frames) (hnf : s'.nextFrame = s.nextFrame)
      (hi : s'.infos = s.infos.set s.nextInfo (some info)) (hni : s'.nextInfo = s.nextInfo + 1)
      (hs : s'.store = s.store) (ht : s'.trace = .asked args (.global current) info :: s.trace) :
      GuardTurn s s' .advance
  | askNext (args : RaiseArgs) (delivered : Bool) (item current next rsi : Addr) (value : Int)
      (sa : Sigaction) (rest : List GuardCall) (old info : Siginfo)
      (hc : s.calls = .raise args delivered (.deciding item current rsi sa) :: rest)
      (hc' : s'.calls = .raise args delivered (.deciding item next rsi sa) :: rest)
      (hold : s.infos rsi = some old) (hab : old.internalDeciderIsAbandoned = false)
      (he : raiseLeave s.g item current false = .ok (.deciding next value, s'.g))
      (hinfo : info = { old with
        value
        internalSighandler := some item
        internalGlobalDecider := some next })
      (hf : s'.frames = s.frames) (hnf : s'.nextFrame = s.nextFrame)
      (hi : s'.infos = s.infos.set rsi (some info)) (hni : s'.nextInfo = s.nextInfo)
      (hs : s'.store = s.store) (ht : s'.trace = .asked args (.global next) info :: s.trace) :
      GuardTurn s s' (.decide .nextDecider)
  /-- A decider returns, and the raise goes on without it or is over. -/
  | answer (d : Decision) (c : GuardCall) (rsi : Addr) (info : Siginfo)
      (ys rest : List GuardCall) (hrsi : c.info = some rsi) (hy : ∀ c ∈ ys, c.light)
      (hc : s.calls = c :: rest) (hc' : s'.calls = ys ++ rest)
      (hinfo : s.infos rsi = some info) (hab : info.internalDeciderIsAbandoned = false)
      (hf : s'.frames = s.frames) (hnf : s'.nextFrame = s.nextFrame)
      (hi : s'.infos = s.infos.set rsi none) (hni : s'.nextInfo = s.nextInfo)
      (hs : s'.store = s.store) (ht : Unasked s s') : GuardTurn s s' (.decide d)
  | recover (args : RaiseArgs) (delivered : Bool) (frame rsi : Addr) (f : GuardFrame)
      (info : Siginfo) (tss old : Option Addr) (mid rest : List GuardCall)
      (hmid : ∀ c ∈ mid, c.holds frame = false)
      (hc : s.calls = .raise args delivered (.asking frame rsi) ::
        (mid ++ .sigguarded frame tss old false :: rest))
      (hc' : s'.calls = .sigguarded frame tss old true :: rest)
      (hinfo : s.infos rsi = some info) (hab : info.internalDeciderIsAbandoned = false)
      (hframe : s.frames frame = some f) (hrec : f.recovery = true)
      (hf : s'.frames = fun a => if a ∈ mid.filterMap GuardCall.frame then none
        else s.frames.set frame (some { f with rsi := info }) a)
      (hnf : s'.nextFrame = s.nextFrame)
      (hi : s'.infos = fun a => if a ∈ rsi :: mid.filterMap GuardCall.info then none
        else s.infos a)
      (hni : s'.nextInfo = s.nextInfo) (hs : FrontSet s.store s'.store tss old)
      (ht : s'.trace = .recovered frame info :: s.trace) :
      GuardTurn s s' (.decide .callRecovery)
  | write (pub : PublicInfo) (c : GuardCall) (rsi : Addr) (info : Siginfo)
      (rest : List GuardCall) (hrsi : c.info = some rsi) (hc : s.calls = c :: rest)
      (hc' : s'.calls = s.calls) (hinfo : s.infos rsi = some info)
      (hf : s'.frames = s.frames) (hnf : s'.nextFrame = s.nextFrame)
      (hi : s'.infos = s.infos.set rsi (some { info with toPublicInfo := pub }))
      (hni : s'.nextInfo = s.nextInfo) (hs : s'.store = s.store) (ht : s'.trace = s.trace) :
      GuardTurn s s' (.write pub)
  | abandon (c : GuardCall) (rsi : Addr) (info : Siginfo) (rest : List GuardCall)
      (hrsi : c.info = some rsi) (hc : s.calls = c :: rest) (hc' : s'.calls = s.calls)
      (hinfo : s.infos rsi = some info) (hab : info.internalDeciderIsAbandoned = false)
      (hf : s'.frames = s.frames) (hnf : s'.nextFrame = s.nextFrame)
      (hi : s'.infos = s.infos.set rsi (some { info with internalDeciderIsAbandoned := true }))
      (hni : s'.nextInfo = s.nextInfo) (hs : AbandonsFront s s' info.internalLocalDecider)
      (ht : s'.trace = s.trace) : GuardTurn s s' .abandon
  | resume (c : GuardCall) (rsi : Addr) (info : Siginfo) (rest : List GuardCall)
      (hrsi : c.info = some rsi) (hc : s.calls = c :: rest) (hc' : s'.calls = s.calls)
      (hinfo : s.infos rsi = some info) (hab : info.internalDeciderIsAbandoned = true)
      (hf : s'.frames = s.frames) (hnf : s'.nextFrame = s.nextFrame)
      (hi : s'.infos = s.infos.set rsi (some { info with internalDeciderIsAbandoned := false }))
      (hni : s'.nextInfo = s.nextInfo) (hs : ResumesFront s s' info.internalLocalDecider)
      (ht : s'.trace = s.trace) : GuardTurn s s' .resume
  /-- An abandoned decider of a frame jumps below the frame's guard. -/
  | jump (args : RaiseArgs) (delivered : Bool) (frame rsi : Addr) (info : Siginfo)
      (tss old : Option Addr) (mid rest : List GuardCall)
      (hmid : ∀ c ∈ mid, c.holds frame = false)
      (hc : s.calls = .raise args delivered (.asking frame rsi) ::
        (mid ++ .sigguarded frame tss old false :: rest)) (hc' : s'.calls = rest)
      (hinfo : s.infos rsi = some info) (hab : info.internalDeciderIsAbandoned = true)
      (hf : s'.frames = fun a => if a ∈ mid.filterMap GuardCall.frame ++ [frame] then none
        else s.frames a) (hnf : s'.nextFrame = s.nextFrame)
      (hi : s'.infos = fun a => if a ∈ rsi :: mid.filterMap GuardCall.info then none
        else s.infos a) (hni : s'.nextInfo = s.nextInfo) (hs : s'.store = s.store)
      (ht : s'.trace = s.trace) : GuardTurn s s' .jump
  | jumpGlobal (args : RaiseArgs) (delivered : Bool) (item current rsi : Addr) (sa : Sigaction)
      (info : Siginfo) (rest : List GuardCall)
      (hc : s.calls = .raise args delivered (.deciding item current rsi sa) :: rest)
      (hc' : s'.calls = rest) (hinfo : s.infos rsi = some info)
      (hab : info.internalDeciderIsAbandoned = true)
      (hf : s'.frames = s.frames) (hnf : s'.nextFrame = s.nextFrame)
      (hi : s'.infos = s.infos.set rsi none) (hni : s'.nextInfo = s.nextInfo)
      (hs : s'.store = s.store) (ht : s'.trace = s.trace) : GuardTurn s s' .jump
  | ret (value : Int) (frame : Addr) (tss old : Option Addr) (recovering : Bool)
      (rest : List GuardCall) (hc : s.calls = .sigguarded frame tss old recovering :: rest)
      (hc' : s'.calls = rest) (hf : s'.frames = s.frames.set frame none)
      (hnf : s'.nextFrame = s.nextFrame) (hi : s'.infos = s.infos)
      (hni : s'.nextInfo = s.nextInfo)
      (hs : if recovering then s'.store = s.store else FrontSet s.store s'.store tss old)
      (ht : s'.trace = .returned value :: s.trace) : GuardTurn s s' (.ret value)

section

variable {s s' : GuardState}

@[simp] theorem store_setStore (s : GuardState) (store : ThreadStorage) :
    (s.setStore store).store = store := rfl
@[simp] theorem g_setStore (s : GuardState) (store : ThreadStorage) :
    (s.setStore store).g = s.g := rfl
@[simp] theorem store_setG (s : GuardState) (g : Global) : (s.setG g).store = s.store := rfl
@[simp] theorem g_setG (s : GuardState) (g : Global) : (s.setG g).g = g := rfl
@[simp] theorem store_goto (s : GuardState) (calls : List GuardCall) :
    (s.goto calls).store = s.store := rfl
@[simp] theorem g_goto (s : GuardState) (calls : List GuardCall) : (s.goto calls).g = s.g := rfl
@[simp] theorem store_emit (s : GuardState) (e : GuardEvent) : (s.emit e).store = s.store := rfl
@[simp] theorem g_emit (s : GuardState) (e : GuardEvent) : (s.emit e).g = s.g := rfl
@[simp] theorem store_setInfo (s : GuardState) (rsi : Addr) (info : Siginfo) :
    (s.setInfo rsi info).store = s.store := rfl
@[simp] theorem g_setInfo (s : GuardState) (rsi : Addr) (info : Siginfo) :
    (s.setInfo rsi info).g = s.g := rfl
@[simp] theorem store_setFrame (s : GuardState) (frame : Addr) (f : GuardFrame) :
    (s.setFrame frame f).store = s.store := rfl
@[simp] theorem store_discard (s : GuardState) (gone : List GuardCall) :
    (s.discard gone).store = s.store := rfl
@[simp] theorem g_discard (s : GuardState) (gone : List GuardCall) :
    (s.discard gone).g = s.g := rfl

theorem create_kept (st : ThreadStorage) (ok : Bool) : StoreKept st (st.create ok).2 := by
  unfold ThreadStorage.create
  split
  · exact .refl st
  · exact .refl st
  · rename_i hslot
    split
    · exact ⟨fun a h => by simp [hslot] at h, fun h => by simp [hslot] at h⟩
    · exact .refl st

theorem init_kept (st : ThreadStorage) (env : SetupEnv) : StoreKept st (st.init env).2 := by
  unfold ThreadStorage.init
  split
  · exact .refl st
  · rename_i hslot
    split
    · refine ⟨fun a h => by simp [hslot] at h, fun _ => .inr ⟨st.nextState, rfl, ?_⟩⟩
      simp [ThreadStorage.allocate]
    · exact .refl st
  · rename_i tss hslot
    exact ⟨fun a h => by simp [hslot] at h, fun h => by simp [hslot] at h⟩

theorem destroy_kept {ε : Type} {trap : Option Addr → ε} {st st' : ThreadStorage}
    (h : st.destroy trap = .ok st') : StoreKept st st' := by
  unfold ThreadStorage.destroy at h
  split at h
  · obtain rfl := pure_ok.mp h
    exact .refl st
  · rename_i hslot
    exact ⟨fun a h => by simp [hslot] at h, fun h => by simp [hslot] at h⟩
  · simp at h

/-- What the storage finds is what the slot names. -/
theorem find_own {ε : Type} {trap : Option Addr → ε} {st : ThreadStorage} {own : Option Addr}
    (h : st.find trap = .ok own) : st.slot.own = own := by
  unfold ThreadStorage.find at h
  split at h <;> simp_all [TssSlot.own]

theorem installStored_kept {env : SiginstallEnv} {m m' : Process} {signo : Signo} {ok : Bool}
    (h : installStored env m signo = .ok (ok, m')) : StoreKept m.store m'.store := by
  simp only [installStored, bind_ok] at h
  obtain ⟨⟨ok', g⟩, -, h⟩ := h
  split at h
  · obtain ⟨-, rfl⟩ := Prod.mk.inj (pure_ok.mp h)
    simp only
    split
    · exact create_kept _ _
    · exact .refl _
  · obtain ⟨-, rfl⟩ := Prod.mk.inj (pure_ok.mp h)
    exact .refl _

theorem uninstallStored_kept {m m' : Process} {signo : Signo}
    (h : uninstallStored m signo = .ok m') : StoreKept m.store m'.store := by
  simp only [uninstallStored, bind_ok] at h
  obtain ⟨g, -, h⟩ := h
  split at h
  · obtain ⟨store, hd, h⟩ := bind_ok.mp h
    obtain rfl := pure_ok.mp h
    exact destroy_kept hd
  · obtain rfl := pure_ok.mp h
    exact .refl _

theorem foldlM_kept {f : Process → Signo → Except ThreadFault Process}
    (hf : ∀ m signo m', f m signo = .ok m' → StoreKept m.store m'.store) {l : List Signo}
    {m m' : Process} (h : l.foldlM f m = .ok m') : StoreKept m.store m'.store := by
  induction l generalizing m with
  | nil =>
    obtain rfl := pure_ok.mp h
    exact .refl _
  | cons signo l ih =>
    rw [List.foldlM_cons] at h
    obtain ⟨m₁, hm, h⟩ := bind_ok.mp h
    exact (hf m signo m₁ hm).trans (ih h)

theorem rollbackStored_kept {env : SiginstallEnv} {m m' : Process} {signo : Signo}
    (h : rollbackStored env m signo = .ok m') : StoreKept m.store m'.store := by
  obtain ⟨m₁, hu, h⟩ := bind_ok.mp h
  have hk := uninstallStored_kept hu
  obtain rfl := pure_ok.mp h
  exact hk

theorem installAll_kept {env : SiginstallEnv} {m m' : Process} {done todo : List Signo}
    {ok : Bool} (h : installAll env m done todo = .ok (ok, m')) :
    StoreKept m.store m'.store := by
  induction todo generalizing m done with
  | nil =>
    obtain ⟨-, rfl⟩ := Prod.mk.inj (pure_ok.mp h)
    exact .refl _
  | cons signo todo ih =>
    simp only [installAll, bind_ok] at h
    obtain ⟨⟨ok', m₁⟩, hi, h⟩ := h
    refine (installStored_kept hi).trans ?_
    split at h
    · exact ih h
    · obtain ⟨m₂, hr, h⟩ := bind_ok.mp h
      have hk := foldlM_kept (fun _ _ _ h => rollbackStored_kept h) hr
      obtain ⟨-, rfl⟩ := Prod.mk.inj (pure_ok.mp h)
      exact hk

theorem siginstall_kept {p : Platform} {env : SiginstallEnv} {m m' : Process}
    {guarded : Option SigSet} {handle : Option SigSet}
    (h : siginstall p env m guarded = .ok (handle, m')) : StoreKept m.store m'.store := by
  unfold siginstall at h
  split at h
  · obtain ⟨⟨ok, m₁⟩, hi, h⟩ := bind_ok.mp h
    obtain ⟨-, rfl⟩ := Prod.mk.inj (pure_ok.mp h)
    exact installAll_kept hi
  · obtain ⟨-, rfl⟩ := Prod.mk.inj (pure_ok.mp h)
    exact .refl _

/-- `stdc_raise` returns to its caller, or to the fallback of `raw_signal_handler`. -/
theorem answer_turns (s : GuardState) (args : RaiseArgs) (delivered result : Bool)
    (rest : List GuardCall) :
    (∃ ys, (s.answer args delivered result rest).calls = ys ++ rest ∧ ∀ c ∈ ys, c.light) ∧
    SameObjects s (s.answer args delivered result rest) ∧
    (s.answer args delivered result rest).store = s.store ∧
    Unasked s (s.answer args delivered result rest) := by
  unfold GuardState.answer
  split
  · split
    · exact ⟨⟨[], rfl, by simp⟩, ⟨rfl, rfl, rfl, rfl⟩, rfl, .same rfl⟩
    · exact ⟨⟨[_], rfl, by simp [GuardCall.light]⟩, ⟨rfl, rfl, rfl, rfl⟩, rfl, .same rfl⟩
  · exact ⟨⟨[], rfl, by simp⟩, ⟨rfl, rfl, rfl, rfl⟩, rfl, .one rfl rfl⟩

theorem pushRaise_turns {p : Platform} {args : RaiseArgs} {delivered : Bool} {env : SetupEnv}
    {calls : List GuardCall} (h : s.pushRaise p args delivered env calls = .ok s') :
    (∃ ys, s'.calls = ys ++ calls ∧ ∀ c ∈ ys, c.light) ∧ SameObjects s s' ∧
      StoreKept s.store s'.store ∧ Unasked s s' := by
  have hk := init_kept s.store env
  simp only [GuardState.pushRaise] at h
  split at h
  · obtain rfl := pure_ok.mp h
    obtain ⟨h1, h2, h3, h4⟩ :=
      answer_turns (s.setStore (s.store.init env).2) args delivered false calls
    exact ⟨h1, ⟨h2.1, h2.2, h2.3, h2.4⟩, by rw [h3]; exact hk, h4⟩
  · split at h
    · obtain rfl := pure_ok.mp h
      obtain ⟨h1, h2, h3, h4⟩ :=
        answer_turns (s.setStore (s.store.init env).2) args delivered false calls
      exact ⟨h1, ⟨h2.1, h2.2, h2.3, h2.4⟩, by rw [h3]; exact hk, h4⟩
    · simp only [bind_ok, pure_ok] at h
      obtain ⟨tss, -, state, -, rfl⟩ := h
      exact ⟨⟨[_], rfl, by simp [GuardCall.light]⟩, ⟨rfl, rfl, rfl, rfl⟩, hk, .same rfl⟩

theorem walkSection_turns {args : RaiseArgs} {delivered : Bool} {frame : Addr}
    {rest : List GuardCall} (hc : s.calls = .raise args delivered (.walk (some frame)) :: rest)
    (h : walkSection s args delivered frame rest = .ok s') : GuardTurn s s' .advance := by
  simp only [walkSection, bind_ok, Heap.read_ok, Option.some.injEq] at h
  obtain ⟨f, ⟨_, rfl, hf⟩, h⟩ := h
  split at h
  · rename_i hset
    obtain rfl := pure_ok.mp h
    exact .ask args delivered _ f rest _ hc rfl hf hset rfl rfl rfl rfl rfl rfl rfl
  · obtain rfl := pure_ok.mp h
    exact .shift _ [_] [_] rest (by simp [GuardCall.light]) (by simp [GuardCall.light]) hc rfl
      ⟨rfl, rfl, rfl, rfl⟩ (.refl _) (.same rfl)

theorem globalSection_turns {args : RaiseArgs} {delivered : Bool} {rest : List GuardCall}
    (hc : s.calls = .raise args delivered (.walk none) :: rest)
    (h : globalSection s args delivered rest = .ok s') : GuardTurn s s' .advance := by
  simp only [globalSection, bind_ok, ofLib_ok] at h
  obtain ⟨⟨e, g⟩, he, h⟩ := h
  cases e with
  | absent =>
    obtain rfl := pure_ok.mp h
    obtain ⟨⟨ys, hy, hl⟩, ho, hs, ht⟩ := answer_turns (s.setG g) args delivered false rest
    exact .shift _ [_] ys rest (by simp [GuardCall.light]) hl hc hy
      ⟨ho.1, ho.2, ho.3, ho.4⟩ (by rw [hs]; exact .refl _) ht
  | deciding item current value sa =>
    obtain rfl := pure_ok.mp h
    exact .askFirst args delivered item current value sa rest _ hc rfl he rfl rfl rfl rfl rfl
      rfl rfl
  | unclaimed sa =>
    obtain rfl := pure_ok.mp h
    exact .shift _ [_] [_] rest (by simp [GuardCall.light]) (by simp [GuardCall.light]) hc rfl
      ⟨rfl, rfl, rfl, rfl⟩ (.refl _) (.same rfl)

theorem guardSection_turns {p : Platform} {args : RaiseArgs} {delivered : Bool} {pc : GuardPc}
    {rest : List GuardCall} (hc : s.calls = .raise args delivered pc :: rest)
    (h : guardSection p s args delivered pc rest = .ok s') : GuardTurn s s' .advance := by
  -- the raise goes on to another place outside deciders
  have onward : ∀ (pc' : GuardPc), (GuardCall.raise args delivered pc).light →
      (GuardCall.raise args delivered pc').light →
      s'.calls = .raise args delivered pc' :: rest → SameObjects s s' → s'.store = s.store →
      Unasked s s' → GuardTurn s s' .advance := by
    intro pc' hl hl' hc' ho hs ht
    exact .shift _ [_] [_] rest (by simpa using hl) (by simpa using hl') hc hc' ho
      (by rw [hs]; exact .refl _) ht
  have ended : ∀ (s₁ : GuardState), (GuardCall.raise args delivered pc).light →
      SameObjects s s₁ → s₁.store = s.store → s₁.trace = s.trace →
      s' = s₁.answer args delivered true rest → GuardTurn s s' .advance := by
    rintro s₁ hl ho₁ hs₁ ht₁ rfl
    obtain ⟨⟨ys, hy, hly⟩, ho, hs, ht⟩ := answer_turns s₁ args delivered true rest
    refine .shift _ [_] ys rest (by simpa using hl) hly hc hy
      ⟨ho.1.trans ho₁.1, ho.2.trans ho₁.2, ho.3.trans ho₁.3, ho.4.trans ho₁.4⟩
      (by rw [hs, hs₁]; exact .refl _) ?_
    rw [Unasked, ← ht₁]
    exact ht
  have nested : ∀ (pc' : GuardPc) {args' : RaiseArgs}, (GuardCall.raise args delivered pc).light →
      (GuardCall.raise args delivered pc').light →
      s.pushRaise p args' true {} (.raise args delivered pc' :: rest) = .ok s' →
      GuardTurn s s' .advance := by
    intro pc' args' hl hl' hp
    obtain ⟨⟨ys, hy, hly⟩, ho, hs, ht⟩ := pushRaise_turns hp
    refine .shift _ [_] (ys ++ [.raise args delivered pc']) rest (by simpa using hl) ?_ hc
      (by simpa using hy) ho hs ht
    intro c hmem
    rcases List.mem_append.mp hmem with hmem | hmem
    · exact hly c hmem
    · rw [List.mem_singleton.mp hmem]
      exact hl'
  cases pc with
  | walk frame =>
    cases frame with
    | none => exact globalSection_turns hc h
    | some frame => exact walkSection_turns hc h
  | invoke sa =>
    simp only [guardSection] at h
    split at h
    · exact nested (.handler .raw) trivial trivial h
    · obtain rfl := pure_ok.mp h
      exact onward (.handler _) trivial trivial rfl ⟨rfl, rfl, rfl, rfl⟩ rfl (.one rfl rfl)
    · obtain rfl := pure_ok.mp h
      exact onward (.handoff _) trivial trivial rfl ⟨rfl, rfl, rfl, rfl⟩ rfl (.same rfl)
    · exact ended s trivial (.refl s) rfl rfl (pure_ok.mp h).symm
  | handoff hand =>
    cases hand with
    | query =>
      obtain rfl := pure_ok.mp h
      exact onward (.handoff _) trivial trivial rfl ⟨rfl, rfl, rfl, rfl⟩ rfl (.same rfl)
    | reset current =>
      obtain rfl := pure_ok.mp h
      exact onward (.handoff _) trivial trivial rfl ⟨rfl, rfl, rfl, rfl⟩ rfl (.same rfl)
    | kill current =>
      simp only [guardSection] at h
      split at h
      · exact nested (.handoff (.restore current)) trivial trivial h
      · obtain rfl := pure_ok.mp h
        exact onward (.handoff _) trivial trivial rfl ⟨rfl, rfl, rfl, rfl⟩ rfl (.same rfl)
    | restore current =>
      exact ended (s.setG (s.g.setKernel args.signo current)) trivial ⟨rfl, rfl, rfl, rfl⟩
        rfl rfl (pure_ok.mp h).symm
  | asking | deciding | handler => simp [guardSection] at h

/-- Where only the `rsi` of a raise goes out of scope. -/
theorem discard_raise {c : GuardCall} {rsi : Addr} (hr : c.info = some rsi) :
    (s.discard [c]).frames = s.frames ∧ (s.discard [c]).infos = s.infos.set rsi none := by
  have hf : c.frame = none := by
    cases c with
    | sigguarded => cases hr
    | raise => rfl
  constructor
  · funext a
    simp [hf]
  · funext a
    simp [hr, Heap.set_apply]

/-- The stack down to the call that holds a frame's `jmp_buf`. -/
theorem split_holds {frame : Addr} {c : GuardCall} {l calls : List GuardCall}
    (h : (calls.dropWhile fun c => !c.holds frame) = c :: l) :
    ∃ tss old, c = .sigguarded frame tss old false ∧
      calls = (calls.takeWhile fun c => !c.holds frame) ++ .sigguarded frame tss old false :: l ∧
      ∀ b ∈ calls.takeWhile fun c => !c.holds frame, b.holds frame = false := by
  have hsplit := List.takeWhile_append_dropWhile (p := fun c => !GuardCall.holds frame c)
    (l := calls)
  have hgone : ∀ b ∈ calls.takeWhile fun c => !c.holds frame, b.holds frame = false := by
    intro b hb
    simpa using List.mem_takeWhile_imp hb
  have hhead := List.head?_dropWhile_not (fun c => !GuardCall.holds frame c) calls
  rw [h] at hhead hsplit
  cases c with
  | sigguarded f tss old recovering =>
    obtain ⟨rfl, rfl⟩ : f = frame ∧ recovering = false := by
      simpa [GuardCall.holds] using hhead
    exact ⟨tss, old, rfl, hsplit.symm, hgone⟩
  | raise => simp [GuardCall.holds] at hhead

theorem longjmp_turns {frame : Addr} {f : GuardFrame} (hf : s.frames frame = some f)
    (h : s.longjmp frame = .ok s') :
    ∃ tss old rest,
      s.calls = (s.calls.takeWhile fun c => !c.holds frame) ++
        .sigguarded frame tss old false :: rest ∧
      (∀ b ∈ s.calls.takeWhile fun c => !c.holds frame, b.holds frame = false) ∧
      s'.calls = .sigguarded frame tss old true :: rest ∧
      s'.frames = (s.discard (s.calls.takeWhile fun c => !c.holds frame)).frames ∧
      s'.nextFrame = s.nextFrame ∧
      s'.infos = (s.discard (s.calls.takeWhile fun c => !c.holds frame)).infos ∧
      s'.nextInfo = s.nextInfo ∧ FrontSet s.store s'.store tss old ∧
      s'.trace = .recovered frame f.rsi :: s.trace := by
  unfold GuardState.longjmp at h
  split at h
  · rename_i fr tss old recovering rest hdrop
    obtain ⟨tss', old', he, hsplit, hgone⟩ := split_holds hdrop
    cases he
    simp only [bind_ok, Heap.read_ok, Option.some.injEq, pure_ok] at h
    obtain ⟨f', ⟨_, rfl, hf'⟩, store, hs, rfl⟩ := h
    rw [hf] at hf'
    cases hf'
    exact ⟨tss, old, rest, hsplit, hgone, rfl, rfl, rfl, rfl, rfl, frontSet_of_ok hs, rfl⟩
  · simp at h

theorem frameAnswer_turns {args : RaiseArgs} {delivered : Bool} {frame rsi : Addr}
    {d : Decision} {rest : List GuardCall}
    (hc : s.calls = .raise args delivered (.asking frame rsi) :: rest)
    (h : frameAnswer s args delivered frame rsi d rest = .ok s') :
    GuardTurn s s' (.decide d) := by
  simp only [frameAnswer, bind_ok, Heap.read_ok, Option.some.injEq] at h
  obtain ⟨info, ⟨_, rfl, hinfo⟩, h⟩ := h
  split at h
  · simp at h
  · rename_i hab
    simp only [Bool.not_eq_true] at hab
    simp only [bind_ok, Heap.read_ok, Option.some.injEq] at h
    obtain ⟨f, ⟨_, rfl, hf⟩, h⟩ := h
    obtain ⟨hframes, hinfos⟩ := discard_raise (s := s)
      (c := .raise args delivered (.asking frame rsi)) rfl
    have onward : ∀ {d : Decision},
        s' = (s.discard [.raise args delivered (.asking frame rsi)]).goto
          (.raise args delivered (.walk f.prev) :: rest) → GuardTurn s s' (.decide d) := by
      rintro d rfl
      exact .answer d _ rsi info [_] rest rfl (by simp [GuardCall.light]) hc rfl hinfo hab hframes
        rfl hinfos rfl rfl (.same rfl)
    cases d with
    | nextDecider => exact onward (pure_ok.mp h).symm
    | resumeExecution =>
      obtain rfl := pure_ok.mp h
      obtain ⟨⟨ys, hy, hl⟩, ho, hs, ht⟩ := answer_turns
        (s.discard [.raise args delivered (.asking frame rsi)]) args delivered true rest
      exact .answer _ _ rsi info ys rest rfl hl hc hy hinfo hab (ho.1.trans hframes) ho.2
        (ho.3.trans hinfos) ho.4 hs ht
    | callRecovery =>
      simp only at h
      split at h
      · rename_i hrec
        obtain ⟨tss, old, rest', hsplit, hgone, hc', hf', hnf, hi', hni, hs, ht⟩ :=
          longjmp_turns (f := { f with rsi := info }) (Heap.set_self _ _ _) h
        simp only [GuardState.setFrame_calls, hc, List.takeWhile_cons, GuardCall.holds,
          Bool.not_false, if_true] at hsplit hgone hf' hi'
        refine .recover args delivered frame rsi f info tss old _ rest'
          (fun c hm => hgone c (List.mem_cons_of_mem _ hm)) (hc.trans hsplit) hc' hinfo hab hf hrec
          ?_ hnf ?_ hni hs ht
        · rw [hf']
          rfl
        · rw [hi']
          rfl
      · exact onward (pure_ok.mp h).symm

theorem globalAnswer_turns {args : RaiseArgs} {delivered : Bool} {item current rsi : Addr}
    {sa : Sigaction} {d : Decision} {rest : List GuardCall}
    (hc : s.calls = .raise args delivered (.deciding item current rsi sa) :: rest)
    (h : globalAnswer s args delivered item current rsi sa d rest = .ok s') :
    GuardTurn s s' (.decide d) := by
  simp only [globalAnswer, bind_ok, Heap.read_ok, Option.some.injEq] at h
  obtain ⟨info, ⟨_, rfl, hinfo⟩, h⟩ := h
  split at h
  · simp at h
  · rename_i hab
    simp only [Bool.not_eq_true] at hab
    simp only [bind_ok, ofLib_ok] at h
    obtain ⟨⟨l, g⟩, hl, h⟩ := h
    obtain ⟨hframes, hinfos⟩ := discard_raise (s := s.setG g)
      (c := .raise args delivered (.deciding item current rsi sa)) rfl
    cases l with
    | claimed =>
      obtain rfl := pure_ok.mp h
      obtain ⟨⟨ys, hy, hl⟩, ho, hs, ht⟩ := answer_turns
        ((s.setG g).discard [.raise args delivered (.deciding item current rsi sa)]) args
        delivered true rest
      exact .answer _ _ rsi info ys rest rfl hl hc hy hinfo hab (ho.1.trans hframes) ho.2
        (ho.3.trans hinfos) ho.4 hs ht
    | deciding next value =>
      obtain rfl := pure_ok.mp h
      obtain rfl : d = .nextDecider := by
        cases d with
        | nextDecider => rfl
        | resumeExecution | callRecovery =>
          obtain ⟨_, -, hl⟩ := bind_ok.mp hl
          obtain ⟨_, -, hl⟩ := bind_ok.mp hl
          simp at hl
      exact .askNext args delivered item current next rsi value sa rest info _ hc rfl hinfo hab hl
        rfl rfl rfl rfl rfl rfl rfl
    | unclaimed =>
      obtain rfl := pure_ok.mp h
      exact .answer _ _ rsi info [_] rest rfl (by simp [GuardCall.light]) hc rfl hinfo hab
        hframes rfl hinfos rfl rfl (.same rfl)

/-- The locked section touches nothing but what all threads share. -/
theorem withPins_turns {info : Siginfo} {f : Global → Addr → Addr → Except Fault Global}
    (h : s.withPins info f = .ok s') :
    s'.calls = s.calls ∧ SameObjects s s' ∧ s'.trace = s.trace ∧ s'.store = s.store := by
  unfold GuardState.withPins at h
  split at h
  · simp only [bind_ok, pure_ok] at h
    obtain ⟨g, -, rfl⟩ := h
    exact ⟨rfl, ⟨rfl, rfl, rfl, rfl⟩, rfl, rfl⟩
  · obtain rfl := pure_ok.mp h
    exact ⟨rfl, .refl _, rfl, rfl⟩

theorem abandon_turns {info : Siginfo} (h : s.abandon info = .ok s') :
    s'.calls = s.calls ∧ SameObjects s s' ∧ s'.trace = s.trace ∧
      AbandonsFront s s' info.internalLocalDecider := by
  obtain ⟨s₁, h₁, h₂⟩ := bind_ok.mp h
  obtain ⟨hc, ho, ht, hs⟩ := withPins_turns h₂
  cases hl : info.internalLocalDecider with
  | none =>
    rw [hl] at h₁
    obtain rfl := pure_ok.mp h₁
    exact ⟨hc, ho, ht, hs⟩
  | some frame =>
    simp only [hl, GuardState.popFrame, bind_ok, Heap.read_ok] at h₁
    obtain ⟨tss, hfind, state, ⟨a, rfl, ha⟩, h₁⟩ := h₁
    split at h₁
    · simp at h₁
    · rename_i hfront
      simp only [ne_eq, Decidable.not_not] at hfront
      simp only [bind_ok, Heap.read_ok, Option.some.injEq, pure_ok] at h₁
      obtain ⟨f, ⟨_, rfl, hf⟩, store, hset, rfl⟩ := h₁
      refine ⟨hc, ⟨ho.1, ho.2, ho.3, ho.4⟩, ht, _, a, state, f, find_own hfind, rfl, ha, hfront, hf,
        ?_⟩
      rw [hs]
      exact frontSet_of_ok hset

theorem abandonResume_turns {info : Siginfo} (h : s.abandonResume info = .ok s') :
    s'.calls = s.calls ∧ SameObjects s s' ∧ s'.trace = s.trace ∧
      ResumesFront s s' info.internalLocalDecider := by
  obtain ⟨s₁, h₁, h₂⟩ := bind_ok.mp h
  obtain ⟨hc, ho, ht, hs⟩ := withPins_turns h₂
  cases hl : info.internalLocalDecider with
  | none =>
    rw [hl] at h₁
    obtain rfl := pure_ok.mp h₁
    exact ⟨hc, ho, ht, hs⟩
  | some frame =>
    simp only [hl, GuardState.unpopFrame, bind_ok, Heap.read_ok, Option.some.injEq] at h₁
    obtain ⟨tss, hfind, state, ⟨a, rfl, ha⟩, f, ⟨_, rfl, hf⟩, h₁⟩ := h₁
    split at h₁
    · simp at h₁
    · rename_i hfront
      simp only [ne_eq, Decidable.not_not] at hfront
      simp only [bind_ok, pure_ok] at h₁
      obtain ⟨store, hset, rfl⟩ := h₁
      refine ⟨hc, ⟨ho.1, ho.2, ho.3, ho.4⟩, ht, _, a, state, f, find_own hfind, rfl, ha, hf, hfront,
        ?_⟩
      rw [hs]
      exact frontSet_of_ok hset

theorem jumpSection_turns {c : GuardCall} {rsi : Addr} {info : Siginfo} {rest : List GuardCall}
    (hrsi : c.info = some rsi) (hc : s.calls = c :: rest) (hinfo : s.infos rsi = some info)
    (h : jumpSection s info = .ok s') : GuardTurn s s' .jump := by
  unfold jumpSection at h
  split at h
  · rename_i hab
    split at h
    · rename_i landing hland
      obtain rfl := pure_ok.mp h
      have taken : ∀ (gone : List GuardCall), s.calls = gone ++ landing →
          s.calls.take (s.calls.length - landing.length) = gone := by
        intro gone hg
        rw [hg, List.length_append, Nat.add_sub_cancel, List.take_left']
        rfl
      rw [hc] at hland
      cases c with
      | sigguarded => cases hrsi
      | raise args delivered pc =>
        cases pc with
        | asking frame rsi' =>
          obtain rfl := Option.some.inj hrsi
          simp only [GuardCall.landing] at hland
          split at hland
          · rename_i x landing' hdrop
            obtain rfl := Option.some.inj hland
            obtain ⟨tss, old, rfl, hsplit, hgone⟩ := split_holds hdrop
            have hg := taken (.raise args delivered (.asking frame rsi') ::
              (rest.takeWhile (fun c => !c.holds frame) ++ [.sigguarded frame tss old false])) (by
                rw [hc]
                conv => lhs; rw [hsplit]
                simp)
            rw [hg]
            rw [hsplit] at hc
            refine .jump args delivered frame rsi' info tss old _ _ hgone hc rfl hinfo hab ?_ rfl ?_
              rfl rfl rfl
            · rw [GuardState.goto_frames, GuardState.discard_frames, List.filterMap_cons_none rfl,
                List.filterMap_append]
              rfl
            · rw [GuardState.goto_infos, GuardState.discard_infos, List.filterMap_cons_some hrsi,
                List.filterMap_append, List.filterMap_cons_none rfl, List.filterMap_nil,
                List.append_nil]
          · cases hland
        | deciding item current rsi' sa =>
          obtain rfl := Option.some.inj hrsi
          obtain rfl := Option.some.inj hland
          have hg := taken [.raise args delivered (.deciding item current rsi' sa)] hc
          rw [hg]
          obtain ⟨hframes, hinfos⟩ := discard_raise (s := s)
            (c := .raise args delivered (.deciding item current rsi' sa)) rfl
          exact .jumpGlobal args delivered item current rsi' sa info _ hc rfl hinfo hab hframes rfl
            hinfos rfl rfl rfl
        | _ => cases hrsi
    · simp at h
  · simp at h

theorem pushGuard_turns {signals : SigSet} {recovery : Bool} {decider : Nat} {value : Int}
    {env : SetupEnv} (h : pushGuard s signals recovery decider value env = .ok s') :
    GuardTurn s s' (.sigguarded signals recovery decider value env) := by
  have hk := init_kept s.store env
  simp only [pushGuard] at h
  split at h
  · obtain rfl := pure_ok.mp h
    exact .shift _ [] [] s.calls (by simp) (by simp) rfl rfl ⟨rfl, rfl, rfl, rfl⟩ hk (.one rfl rfl)
  · simp only [bind_ok, Heap.read_ok, pure_ok] at h
    obtain ⟨tss, hfind, state, ⟨a, rfl, ha⟩, store, hset, rfl⟩ := h
    exact .guard signals recovery decider value env _ a state hk (find_own hfind) ha rfl rfl rfl
      rfl rfl (frontSet_of_ok hset) rfl

theorem returnSection_turns {value : Int} (h : returnSection s value = .ok s') :
    GuardTurn s s' (.ret value) := by
  unfold returnSection at h
  split at h
  · rename_i frame tss old recovering rest hc
    have hframes : (s.discard [.sigguarded frame tss old recovering]).frames =
        s.frames.set frame none := by
      funext a
      simp [GuardCall.frame, Heap.set_apply]
    have hinfos : (s.discard [.sigguarded frame tss old recovering]).infos = s.infos := by
      funext a
      simp [GuardCall.info]
    simp only at h
    split at h
    · rename_i hr
      obtain rfl := pure_ok.mp h
      exact .ret value frame tss old recovering rest hc rfl hframes rfl hinfos rfl
        (by rw [if_pos hr]; rfl) rfl
    · rename_i hr
      simp only [bind_ok, pure_ok] at h
      obtain ⟨store, hset, rfl⟩ := h
      exact .ret value frame tss old recovering rest hc rfl hframes rfl hinfos rfl
        (by rw [if_neg hr]; exact frontSet_of_ok hset) rfl
  · rename_i args delivered hand rest hc
    obtain rfl := pure_ok.mp h
    obtain ⟨⟨ys, hy, hl⟩, ho, hs, ht⟩ := answer_turns s args delivered true rest
    exact .shift _ [_] ys rest (by simp [GuardCall.light]) hl hc hy ho (by rw [hs]; exact .refl _) ht
  · simp at h

theorem withInfo_ok {f : GuardState → Addr → Siginfo → Except ThreadFault GuardState}
    (h : s.withInfo f = .ok s') :
    ∃ c rest rsi info, s.calls = c :: rest ∧ c.info = some rsi ∧ s.infos rsi = some info ∧
      f s rsi info = .ok s' := by
  unfold GuardState.withInfo at h
  split at h
  · rename_i rsi hrsi
    simp only [bind_ok, Heap.read_ok, Option.some.injEq] at h
    obtain ⟨info, ⟨_, rfl, hinfo⟩, h⟩ := h
    obtain ⟨c, hc, hi⟩ := Option.bind_eq_some_iff.mp hrsi
    obtain ⟨rest, hrest⟩ := List.head?_eq_some_iff.mp hc
    exact ⟨c, rest, _, info, hrest, hi, hinfo, h⟩
  · simp at h

/-- Every step of the thread is one of those. -/
theorem guardStep_turns {p : Platform} {act : GuardAction} (h : guardStep p s act = .ok s') :
    GuardTurn s s' act := by
  have aside : ∀ {act : GuardAction}, s'.calls = s.calls → SameObjects s s' →
      StoreKept s.store s'.store → s'.trace = s.trace → GuardTurn s s' act :=
    fun hc ho hs ht => .shift _ [] [] s.calls (by simp) (by simp) rfl hc ho hs (.same ht)
  have raised : ∀ {act : GuardAction} {args : RaiseArgs} {delivered : Bool} {env : SetupEnv},
      s.pushRaise p args delivered env s.calls = .ok s' → GuardTurn s s' act := by
    intro act args delivered env h
    obtain ⟨⟨ys, hy, hl⟩, ho, hs, ht⟩ := pushRaise_turns h
    exact .shift _ [] ys s.calls (by simp) hl rfl hy ho hs ht
  cases act with
  | sigguarded signals recovery decider value env =>
    simp only [guardStep] at h
    split at h
    · exact pushGuard_turns h
    · simp at h
  | raise args env =>
    simp only [guardStep] at h
    split at h
    · exact raised h
    · simp at h
  | deliver args env =>
    simp only [guardStep] at h
    split at h
    · exact raised h
    · simp at h
  | siginstall guarded env =>
    simp only [guardStep] at h
    split at h
    · obtain ⟨⟨handle, process⟩, hi, h⟩ := bind_ok.mp h
      have hk := siginstall_kept hi
      cases handle with
      | some set =>
        obtain rfl := pure_ok.mp h
        exact aside rfl ⟨rfl, rfl, rfl, rfl⟩ hk rfl
      | none =>
        obtain rfl := pure_ok.mp h
        exact aside rfl ⟨rfl, rfl, rfl, rfl⟩ hk rfl
    · simp at h
  | siguninstall handle =>
    simp only [guardStep] at h
    split at h
    · obtain ⟨process, hu, h⟩ := bind_ok.mp h
      obtain rfl := pure_ok.mp h
      exact aside rfl ⟨rfl, rfl, rfl, rfl⟩ (foldlM_kept (fun _ _ _ => uninstallStored_kept) hu) rfl
    · simp at h
  | elsewhere g =>
    obtain rfl := pure_ok.mp h
    exact aside rfl ⟨rfl, rfl, rfl, rfl⟩ (.refl _) rfl
  | advance =>
    simp only [guardStep] at h
    split at h
    · exact guardSection_turns ‹_› h
    · simp at h
  | decide d =>
    simp only [guardStep] at h
    split at h
    · exact frameAnswer_turns ‹_› h
    · exact globalAnswer_turns ‹_› h
    · simp at h
  | write pub =>
    simp only [guardStep] at h
    obtain ⟨c, rest, rsi, info, hc, hrsi, hinfo, h⟩ := withInfo_ok h
    obtain rfl := pure_ok.mp h
    exact .write pub c rsi info rest hrsi hc rfl hinfo rfl rfl rfl rfl rfl rfl
  | abandon =>
    simp only [guardStep] at h
    obtain ⟨c, rest, rsi, info, hc, hrsi, hinfo, h⟩ := withInfo_ok h
    split at h
    · obtain rfl := pure_ok.mp h
      exact aside rfl (.refl _) (.refl _) rfl
    · rename_i hab
      obtain ⟨s₁, ha, h⟩ := bind_ok.mp h
      obtain ⟨hc₁, ho, ht, hs⟩ := abandon_turns ha
      obtain rfl := pure_ok.mp h
      exact .abandon c rsi info rest hrsi hc hc₁ hinfo (by simpa using hab) ho.1 ho.2
        (congrArg (Heap.set · _ _) ho.3) ho.4 hs ht
  | resume =>
    simp only [guardStep] at h
    obtain ⟨c, rest, rsi, info, hc, hrsi, hinfo, h⟩ := withInfo_ok h
    split at h
    · rename_i hab
      obtain ⟨s₁, ha, h⟩ := bind_ok.mp h
      obtain ⟨hc₁, ho, ht, hs⟩ := abandonResume_turns ha
      obtain rfl := pure_ok.mp h
      exact .resume c rsi info rest hrsi hc hc₁ hinfo hab ho.1 ho.2
        (congrArg (Heap.set · _ _) ho.3) ho.4 hs ht
    · obtain rfl := pure_ok.mp h
      exact aside rfl (.refl _) (.refl _) rfl
  | jump =>
    simp only [guardStep] at h
    obtain ⟨c, rest, rsi, info, hc, hrsi, hinfo, h⟩ := withInfo_ok h
    exact jumpSection_turns hrsi hc hinfo h
  | ret value => exact returnSection_turns h

end

end Wg14Signals
