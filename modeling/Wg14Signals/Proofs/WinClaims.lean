import Wg14Signals.Proofs.Dispatch
import Wg14Signals.Proofs.WinChains

namespace Wg14Signals
open Lib

/-- No debugger keeps the unhandled exception filter out. -/
def WinAction.undebugged : WinAction → Bool
  | .debugged => false
  | _ => true

/-- The claim of a fault is about to reach a raise in flight: a global decider claims it, and the
thread jumps to the raise; or the decider of a guard does, and the raise is taken for its cause. -/
def WinState.misleads (s : WinState) : WinAction → Bool
  | .decide d =>
    match s.calls with
    | .dispatch x (.deciding _ _ _ _) :: _ =>
      x.raise.isNone && d != .nextDecider && !s.inFlight.isEmpty
    | .dispatch x (.asking _ _) :: _ =>
      x.raise.isNone && d == .resumeExecution && s.owns x.record
    | _ => false
  | _ => false

/-- Some decider has claimed the exception of this raise. -/
def ClaimedBefore (r : Addr) (trace : List WinEvent) : Prop :=
  ∃ x who, x.raise = some r ∧ WinEvent.claimed x who ∈ trace

def WinEvent.unclaimed : WinEvent → Bool
  | .claimed _ _ => false
  | _ => true

/-- Every raise that has returned true had been claimed. -/
def Deserved (trace : List WinEvent) : Prop :=
  ∀ r pre, WinEvent.raised (some r) true :: pre <:+ trace → ClaimedBefore r pre

theorem ClaimedBefore.cons {r : Addr} {trace : List WinEvent} (h : ClaimedBefore r trace)
    (e : WinEvent) : ClaimedBefore r (e :: trace) := by
  obtain ⟨x, who, hx, hm⟩ := h
  exact ⟨x, who, hx, List.mem_cons_of_mem _ hm⟩

theorem Deserved.cons {trace : List WinEvent} (h : Deserved trace) {e : WinEvent}
    (he : ∀ r, e = .raised (some r) true → ClaimedBefore r trace) : Deserved (e :: trace) := by
  intro r pre hs
  rcases List.suffix_cons_iff.mp hs with hs | hs
  · obtain ⟨rfl, rfl⟩ := List.cons.inj hs
    exact he r rfl
  · exact h r pre hs

/-- Without a debugger, the continue handler always finds the decision of the pass. -/
structure WinSettled (s : WinState) : Prop where
  under : ∀ c ∈ s.calls.tail, c.runsUserCode = true
  filters : ∀ x hook item current rsi,
    .dispatch x (.deciding hook item current rsi) ∈ s.calls → hook = .unhandledFilter
  decided : ∀ x rest, s.calls = .dispatch x .continuing :: rest →
    win32ExceptionRecordMatches s.lastRecord x.record = true

/-- Raises are marked as claimed, go on as claimed and return true only once they have been
claimed. -/
structure WinDeserved (s : WinState) : Prop where
  marked : ∀ r l, s.raises r = some l → l.wasClaimed = true → ClaimedBefore r s.trace
  going : ∀ x rest r l, s.calls = .dispatch x .continuing :: rest → x.raise = some r →
    s.raises r = some l → l.wasUnclaimed = true ∨ ClaimedBefore r s.trace
  returned : Deserved s.trace

theorem matches_self (record : ExceptionRecord) :
    win32ExceptionRecordMatches (.of record) record = true := by
  simp [win32ExceptionRecordMatches, RecordId.of]

section

variable {w : WinPlatform} {s s' : WinState} {act : WinAction}
variable {x : Exception} {c c' : WinCall} {rest gone : List WinCall}

theorem winSettled_initial (g : Global) : WinSettled (.initial g) :=
  ⟨by simp [WinState.initial], by simp [WinState.initial], by simp [WinState.initial]⟩

theorem WinSettled.same (hi : WinSettled s) (hc : s'.calls = s.calls)
    (hl : s'.lastRecord = s.lastRecord) : WinSettled s' where
  under := hc ▸ hi.under
  filters := hc ▸ hi.filters
  decided x rest h := hl ▸ hi.decided x rest (hc ▸ h)

theorem WinSettled.turn (hi : WinSettled s) (hc : s.calls = c :: rest)
    (hc' : s'.calls = c' :: rest)
    (hd : ∀ x hook item current rsi, c' = .dispatch x (.deciding hook item current rsi) →
      hook = .unhandledFilter)
    (hg : ∀ x, c' = .dispatch x .continuing →
      win32ExceptionRecordMatches s'.lastRecord x.record = true) : WinSettled s' where
  under := by
    have := hi.under
    rw [hc] at this
    rw [hc']
    exact this
  filters x hook item current rsi hm := by
    rw [hc'] at hm
    rcases List.mem_cons.mp hm with hm | hm
    · exact hd x hook item current rsi hm.symm
    · exact hi.filters x hook item current rsi (hc ▸ List.mem_cons_of_mem _ hm)
  decided x rest h := hg x (List.cons.inj (hc'.symm.trans h)).1

theorem WinSettled.push (hi : WinSettled s) (hu : s.userCode = true) (hc' : s'.calls = c :: s.calls)
    (hd : ∀ x hook item current rsi, c ≠ .dispatch x (.deciding hook item current rsi))
    (hg : ∀ x, c ≠ .dispatch x .continuing) : WinSettled s' where
  under := by
    rw [hc', List.tail_cons]
    intro d hm
    cases hcs : s.calls with
    | nil => simp [hcs] at hm
    | cons e l =>
      have hunder := hi.under
      simp only [WinState.userCode, hcs, List.head?_cons, Option.all_some] at hu
      rw [hcs] at hm hunder
      rcases List.mem_cons.mp hm with rfl | hm
      · exact hu
      · exact hunder d hm
  filters x hook item current rsi hm := by
    rw [hc'] at hm
    rcases List.mem_cons.mp hm with hm | hm
    · exact absurd hm.symm (hd x hook item current rsi)
    · exact hi.filters x hook item current rsi hm
  decided x rest h := absurd (List.cons.inj (hc'.symm.trans h)).1 (hg x)

theorem WinSettled.below (hi : WinSettled s) (hc : s.calls = c :: (gone ++ rest)) :
    ∀ d ∈ rest, d.runsUserCode = true := by
  intro d hd
  refine hi.under d ?_
  rw [hc]
  exact List.mem_append_right _ hd

theorem WinSettled.pop (hi : WinSettled s) (gone : List WinCall)
    (hc : s.calls = c :: (gone ++ rest))
    (hc' : s'.calls = rest) : WinSettled s' where
  under d hd := hi.below hc d (List.mem_of_mem_tail (hc' ▸ hd))
  filters x hook item current rsi hm :=
    hi.filters x hook item current rsi
      (hc ▸ List.mem_cons_of_mem _ (List.mem_append_right _ (hc' ▸ hm)))
  decided x l h := by
    have := hi.below hc (.dispatch x .continuing) (hc' ▸ h ▸ List.mem_cons_self)
    simp [WinCall.runsUserCode] at this

theorem WinSettled.hooked {hook : WinHook} {last : RecordId} (hi : WinSettled s)
    (hh : Hooked s x rest hook last) :
    hook = .unhandledFilter ∧ s.calls = .dispatch x .unhandled :: rest := by
  cases hh with
  | filter hc => exact ⟨rfl, hc⟩
  | handler hc hm =>
    rw [hi.decided x rest hc] at hm
    cases hm

theorem resumes_calls (h : Resumes s x rest s') : s'.calls = rest := by
  cases h <;> rfl

theorem WinSettled.passReturns {result : Disposition} {u : WinState} (hi : WinSettled s)
    (hc : s.calls = c :: rest)
    (hg : win32ExceptionRecordMatches u.lastRecord x.record = true ∨ result = .continueSearch)
    (h : PassReturns u x rest .unhandledFilter result s') : WinSettled s' := by
  cases h with
  | continues =>
    refine hi.turn hc rfl (by simp) ?_
    rintro y hy
    obtain ⟨rfl, -⟩ := WinCall.dispatch.inj hy
    simpa using hg
  | terminates => exact hi.turn hc rfl (by simp) (by simp)

theorem WinSettled.step (hi : WinSettled s) (hu : act.undebugged = true) (h : WinTurn w s act s') :
    WinSettled s' := by
  cases h with
  | elsewhere | quits | write | writeGlobal => exact hi.same rfl rfl
  | guard _ _ _ _ _ _ _ _ huser => exact hi.push huser rfl (by simp) (by simp)
  | raise _ _ _ _ _ _ _ _ huser => exact hi.push huser rfl (by simp) (by simp)
  | fault _ _ huser => exact hi.push huser rfl (by simp) (by simp)
  | skip x guard gs todo rest hc => exact hi.turn hc rfl (by simp) (by simp)
  | exhausted x rest hc => exact hi.turn hc rfl (by simp) (by simp)
  | debugged => cases hu
  | ask x guard gs todo rest tss rsi hc => exact hi.turn hc rfl (by simp) (by simp)
  | decline x guard todo rest d hc => exact hi.turn hc rfl (by simp) (by simp)
  | claim x guard todo rest hc =>
    refine hi.turn hc rfl (by simp) ?_
    rintro y hy
    obtain ⟨rfl, -⟩ := WinCall.dispatch.inj hy
    exact matches_self _
  | recover x guard gs todo gone rest tss hgone hc =>
    have hc' : s.calls = .dispatch x (.asking guard todo) ::
        ((gone ++ [.sigguarded guard false]) ++ rest) := by rw [hc]; simp
    have hb := hi.below hc'
    have hp : WinSettled (s.goto rest) := hi.pop _ hc' rfl
    exact ⟨hb, fun y hook item current rsi hm => hp.filters y hook item current rsi (by
      simpa using hm), by simp⟩
  | unsupported hook x rest last s' hh hx hr =>
    obtain ⟨rfl, hc⟩ := hi.hooked hh
    exact hi.passReturns hc (.inr rfl) hr
  | askFirst hook x item current value sa g info last rest hh =>
    obtain ⟨rfl, hc⟩ := hi.hooked hh
    exact hi.turn hc rfl (by rintro _ _ _ _ _ ⟨⟩; rfl) (by simp)
  | nobody hook x e g last rest s' hh he hn hr =>
    obtain ⟨rfl, hc⟩ := hi.hooked hh
    exact hi.passReturns hc (.inl (matches_self _)) hr
  | askNext d hook x item current next rsi value g old info rest hc =>
    obtain rfl := hi.filters _ _ _ _ _ (hc ▸ List.mem_cons_self)
    exact hi.turn hc rfl (by rintro _ _ _ _ _ ⟨⟩; rfl) (by simp)
  | exhaust d hook x item current rsi g rest s' hc hd he hr =>
    obtain rfl := hi.filters _ _ _ _ _ (hc ▸ List.mem_cons_self)
    exact hi.passReturns hc (.inl (matches_self _)) hr
  | jump d hook x y pc item current rsi r g tss l gone rest rest' hd htop he ht hf hgone hc =>
    cases gone with
    | nil => exact hi.pop [] hc rfl
    | cons c gone =>
      refine hi.pop (c := c) (gone ++ [.dispatch y pc]) ?_ rfl
      rw [hc]
      simp
  | settle d hook x item current rsi g rest s' hd hc he hf hr =>
    obtain rfl := hi.filters _ _ _ _ _ (hc ▸ List.mem_cons_self)
    exact hi.passReturns hc (.inl (matches_self _)) hr
  | goesOn x rest s' hc hm hr => exact hi.pop [] hc (resumes_calls hr)
  | ret value guard recovering rest hc => exact hi.pop [] hc rfl

theorem winDeserved_initial (g : Global) : WinDeserved (.initial g) where
  marked _ _ h := by cases h
  going _ _ _ _ h := by cases h
  returned _ _ h := by simp [WinState.initial] at h

/-- Nothing is marked, nothing returns true and nothing is to go on. -/
theorem WinDeserved.quiet (hi : WinDeserved s)
    (hr : ∀ r l, s'.raises r = some l → l.wasClaimed = true → s.raises r = some l)
    (ht : s'.trace = s.trace ∨ ∃ e, s'.trace = e :: s.trace ∧ ∀ r, e ≠ .raised (some r) true)
    (hc : ∀ x l, s'.calls ≠ .dispatch x .continuing :: l) : WinDeserved s' where
  marked r l hl hm := by
    have := hi.marked r l (hr r l hl hm) hm
    rcases ht with ht | ⟨e, ht, -⟩
    · exact ht ▸ this
    · exact ht ▸ this.cons e
  going x l _ _ h := absurd h (hc x l)
  returned := by
    rcases ht with ht | ⟨e, ht, he⟩
    · exact ht ▸ hi.returned
    · exact ht ▸ hi.returned.cons fun r h => absurd h (he r)

/-- The raise at the head of the chain is the one whose exception is being dispatched. -/
theorem WinChained.head {pc : WinPc} {r r' : Addr} (hi : WinChained s)
    (hc : s.calls = .dispatch x pc :: rest) (hx : x.raise = some r)
    (hr : s.tss.bind WinTss.initiated = some r') : r' = r := by
  rw [hi.initiated, hc, topRaise_raise hx] at hr
  exact (Option.some.inj hr).symm

theorem owns_head {record : ExceptionRecord} (h : s.owns record = true) :
    ∃ r, s.tss.bind WinTss.initiated = some r := by
  unfold WinState.owns at h
  cases hi : s.tss.bind WinTss.initiated with
  | none => simp [hi] at h
  | some r => exact ⟨r, rfl⟩

/-- A raise goes on that nobody has claimed, unless it has been marked as claimed before. -/
theorem WinDeserved.declined {pc : WinPc} {u : WinState} (hi : WinDeserved s)
    (hch : WinChained s) (hc : s.calls = .dispatch x pc :: rest) (hut : u.tss = s.tss)
    (hur : u.raises = s.raises) (hutr : u.trace = s.trace)
    (hp : PassReturns (u.declined x.record) x rest .unhandledFilter (s.unclaimedResult x.record)
      s') : WinDeserved s' := by
  have howns : u.owns x.record = s.owns x.record := by
    unfold WinState.owns
    rw [hut, hur]
  -- what the mark has made of a raise it found in the state before
  have hmark : ∀ r l', (u.declined x.record).raises r = some l' → ∃ l, s.raises r = some l ∧
      l'.wasClaimed = l.wasClaimed ∧
      (s.tss.bind WinTss.initiated = some r → s.owns x.record = true →
        l'.wasUnclaimed = true ∨ l.wasClaimed = true) := by
    intro r l' hl'
    simp only [WinState.declined, WinState.setLast_raises, WinState.mark, hut, hur, howns] at hl'
    split at hl'
    · obtain ⟨l, hl, rfl⟩ := Option.map_eq_some_iff.mp hl'
      refine ⟨l, hl, ?_, fun _ _ => ?_⟩
      · unfold WinRaise.decline
        split <;> rfl
      · unfold WinRaise.decline
        split
        · exact .inr ‹_›
        · exact .inl rfl
    · rename_i hno
      exact ⟨l', hl', rfl, fun h ho => absurd ⟨h, ho⟩ hno⟩
  have marked : ∀ r l', (u.declined x.record).raises r = some l' → l'.wasClaimed = true →
      ClaimedBefore r s.trace := by
    intro r l' hl' hm
    obtain ⟨l, hl, hw, -⟩ := hmark r l' hl'
    exact hi.marked r l hl (hw ▸ hm)
  have htr : (u.declined x.record).trace = s.trace := hutr
  generalize hres : s.unclaimedResult x.record = result at hp
  cases hp with
  | terminates =>
    refine ⟨fun r l hl hm => ?_, by simp, ?_⟩
    · exact (htr.symm ▸ marked r l hl hm : ClaimedBefore r _).cons _
    · exact (htr.symm ▸ hi.returned : Deserved (u.declined x.record).trace).cons (by simp)
  | continues =>
    refine ⟨fun r l hl hm => htr.symm ▸ marked r l hl hm, ?_, htr.symm ▸ hi.returned⟩
    intro y rest' r l' hy hyr hl'
    obtain ⟨rfl, -⟩ := WinCall.dispatch.inj (List.cons.inj hy).1
    have ho : s.owns x.record = true := by
      unfold WinState.unclaimedResult at hres
      split at hres
      · assumption
      · cases hres
    obtain ⟨l, hl, -, hor⟩ := hmark r l' hl'
    obtain ⟨r', hr'⟩ := owns_head ho
    have hrr := hch.head hc hyr hr'
    refine (hor (hrr ▸ hr') ho).imp_right fun hm => ?_
    exact htr.symm ▸ hi.marked r l hl hm

theorem WinDeserved.step (hi : WinDeserved s) (hch : WinChained s) (hset : WinSettled s)
    (hu : act.undebugged = true) (hm : s.misleads act = false) (h : WinTurn w s act s') :
    WinDeserved s' := by
  have popped : ∀ {c : WinCall} {rest : List WinCall} (gone : List WinCall) (x : Exception)
      (l : List WinCall), s.calls = c :: (gone ++ rest) → rest ≠ .dispatch x .continuing :: l := by
    rintro c rest gone x l hc rfl
    have := hset.below hc (.dispatch x .continuing) List.mem_cons_self
    simp [WinCall.runsUserCode] at this
  have kept : ∀ (gone : List WinCall) (r : Addr) (l : WinRaise),
      (s.discard gone).raises r = some l → s.raises r = some l := by
    intro gone r l h
    simp only [WinState.discard_raises] at h
    split at h
    · cases h
    · exact h
  cases h with
  | elsewhere g => exact ⟨hi.marked, hi.going, hi.returned⟩
  | quits _ tss e ha he ht huser =>
    refine hi.quiet (fun _ _ h _ => h) (.inr ⟨e, rfl, ?_⟩) ?_
    · rintro r rfl
      cases he
    · intro x l hc
      have huser := huser
      simp [WinState.userCode, show s.calls = _ from hc, WinCall.runsUserCode] at huser
  | guard => exact hi.quiet (fun _ _ h _ => h) (.inl rfl) (by simp)
  | raise signo info context env tss x l ht huser hs hl hx =>
    refine hi.quiet (fun r l' h hcl => ?_) (.inl rfl) (by simp)
    by_cases hr : r = s.nextRaise
    · subst hr
      obtain rfl := Option.some.inj ((Heap.set_self _ _ _).symm.trans h)
      rw [hl] at hcl
      cases hcl
    · exact (Heap.set_other _ _ hr).symm.trans h
  | fault => exact hi.quiet (fun _ _ h _ => h) (.inl rfl) (by simp)
  | skip => exact hi.quiet (fun _ _ h _ => h) (.inl rfl) (by simp)
  | exhausted => exact hi.quiet (fun _ _ h _ => h) (.inl rfl) (by simp)
  | debugged => cases hu
  | ask => exact hi.quiet (fun _ _ h _ => h) (.inr ⟨_, rfl, by simp⟩) (by simp)
  | decline => exact hi.quiet (fun _ _ h _ => h) (.inl rfl) (by simp)
  | claim x guard todo rest hc =>
    refine ⟨fun r l hl hcl => ?_, fun y rest' r l hy hyr hl => ?_, hi.returned.cons (by simp)⟩
    · simp only [WinState.emit_raises, WinState.goto_raises, WinState.setLast_raises,
        WinState.mark] at hl
      split at hl
      · rename_i hmarked
        -- the record is that of the raise's own exception, for it is no fault's
        cases hx : x.raise with
        | none => simp [WinState.misleads, hc, hx, hmarked.2] at hm
        | some r' =>
          obtain rfl := hch.head hc hx hmarked.1
          exact ⟨x, _, hx, List.mem_cons_self⟩
      · exact (hi.marked r l hl hcl).cons _
    · obtain ⟨rfl, -⟩ := WinCall.dispatch.inj (List.cons.inj hy).1
      exact .inr ⟨x, _, hyr, List.mem_cons_self⟩
  | recover x guard gs todo gone rest tss hgone hc hg hr ht =>
    refine ⟨fun r l hl hcl => ?_, by simp, ?_⟩
    · exact ((hi.marked r l (kept _ r l hl) hcl).cons _).cons _
    · exact (hi.returned.cons (by simp)).cons (by simp)
  | unsupported hook x rest last s' hh hx hr =>
    obtain ⟨rfl, hc⟩ := hset.hooked hh
    cases hr with
    | terminates => exact hi.quiet (fun _ _ h _ => h) (.inr ⟨_, rfl, by simp⟩) (by simp)
  | askFirst => exact hi.quiet (fun _ _ h _ => h) (.inr ⟨_, rfl, by simp⟩) (by simp)
  | nobody hook x e g last rest s' hh he hn hr =>
    obtain ⟨rfl, hc⟩ := hset.hooked hh
    exact hi.declined (u := (s.setLast last s.lastResult).setG g) hch hc rfl rfl rfl hr
  | askNext => exact hi.quiet (fun _ _ h _ => h) (.inr ⟨_, rfl, by simp⟩) (by simp)
  | exhaust d hook x item current rsi g rest s' hc hd he hr =>
    obtain rfl := hset.filters _ _ _ _ _ (hc ▸ List.mem_cons_self)
    exact hi.declined (u := (s.setG g).dropInfo rsi) hch hc rfl rfl rfl hr
  | jump d hook x y pc item current rsi r g tss l gone rest rest' hd htop he ht hf hgone hc hy
      hl =>
    have hfront : topRaise s.calls = some r := by
      rw [← hch.front, ht]
      exact hf
    have hx : x.raise = some r := by
      cases hx : x.raise with
      | none =>
        have hfl : s.inFlight ≠ [] := by
          intro hnil
          rw [topRaise, show s.calls.filterMap WinCall.raise = [] from hnil] at hfront
          cases hfront
        simp [WinState.misleads, htop, hx, hd, hfl] at hm
      | some r' =>
        rw [htop, topRaise_raise hx] at hfront
        exact hfront
    refine ⟨fun a l hl hcl => ?_, fun z l' _ _ hz => ?_, ?_⟩
    · exact ((hi.marked a l (kept _ a l hl) hcl).cons _).cons _
    · cases gone with
      | nil => exact absurd hz (popped [] z l' hc)
      | cons c gone =>
        refine absurd hz (popped (c := c) (gone ++ [.dispatch y pc]) z l' ?_)
        rw [hc]
        simp
    · refine (hi.returned.cons (e := .claimed x (.global current)) (by simp)).cons fun a ha => ?_
      obtain ⟨ha, -⟩ := WinEvent.raised.inj ha
      exact ⟨x, _, hx.trans ha, List.mem_cons_self⟩
  | settle d hook x item current rsi g rest s' hd hc he hf hr =>
    obtain rfl := hset.filters _ _ _ _ _ (hc ▸ List.mem_cons_self)
    cases hr with
    | continues =>
      refine ⟨fun r l hl hcl => (hi.marked r l hl hcl).cons _, fun y rest' r l hy hyr hl => ?_,
        hi.returned.cons (by simp)⟩
      obtain ⟨rfl, -⟩ := WinCall.dispatch.inj (List.cons.inj hy).1
      exact .inr ⟨x, _, hyr, List.mem_cons_self⟩
  | goesOn x rest s' hc hmatch hr =>
    cases hr with
    | fault hx =>
      exact hi.quiet (fun _ _ h _ => h) (.inr ⟨_, rfl, by simp⟩)
        fun y l hy => popped [] y l hc hy
    | raise r l tss hx hl ht =>
      refine ⟨fun a l hl hcl => (hi.marked a l (kept _ a l hl) hcl).cons _,
        fun y l' _ _ hy => absurd hy (popped [] y l' hc), hi.returned.cons fun a ha => ?_⟩
      obtain ⟨ha, hw⟩ := WinEvent.raised.inj ha
      obtain rfl := Option.some.inj ha
      refine (hi.going x rest _ l hc hx hl).resolve_left fun h => ?_
      rw [h] at hw
      cases hw
  | write info x guard todo gs rest hc =>
    exact hi.quiet (fun _ _ h _ => h) (.inl rfl) (by simp [hc])
  | writeGlobal info x hook item current rsi old rest hc =>
    exact hi.quiet (fun _ _ h _ => h) (.inl rfl) (by simp [hc])
  | ret value guard recovering rest hc =>
    exact hi.quiet (fun r l h _ => kept [.sigguarded guard recovering] r l h) (.inr ⟨_, rfl, by simp⟩)
      fun y l hy => popped [] y l hc hy

/-- What `WinState.misleads` looks for when a global decider is about to claim a fault. -/
theorem misleads_fault {d : Decision} {hook : WinHook} {item current rsi : Addr}
    (hc : s.calls = .dispatch x (.deciding hook item current rsi) :: rest) (hx : x.raise = none)
    (hd : d ≠ .nextDecider) (hm : s.misleads (.decide d) = false) : s.inFlight = [] := by
  simpa [WinState.misleads, hc, hx, hd] using hm

/-- The continue handler knows the decision that was recorded. -/
theorem recorded_fault_resumes (hc : s.calls = .dispatch x .continuing :: rest)
    (hx : x.raise = none) (hl : s.lastRecord = .of x.record) : winStep w s .advance =
      .ok (((s.setLast {} s.lastResult).goto rest).emit (.resumed x)) := by
  simp only [winStep, hc, winSection, win32VectoredContinueHandler, hl, matches_self, if_true,
    WinState.resumed, hx]
  rfl

/-- The fault that a global decider has claimed goes on, if no raise is in flight. -/
theorem claimed_fault_resumes {d : Decision} {hook : WinHook} {item current rsi : Addr}
    (hch : WinChained s) (hset : WinSettled s)
    (hc : s.calls = .dispatch x (.deciding hook item current rsi) :: rest) (hx : x.raise = none)
    (hd : d ≠ .nextDecider) (hm : s.misleads (.decide d) = false)
    (h : winStep w s (.decide d) = .ok s') :
    ∃ s'', winStep w s' .advance = .ok s'' ∧ s''.calls = rest ∧ s''.inFlight = s.inFlight ∧
      s''.trace = .resumed x :: .claimed x (.global current) :: s.trace := by
  have hnone := misleads_fault hc hx hd hm
  obtain rfl := hset.filters _ _ _ _ _ (hc ▸ List.mem_cons_self)
  cases winStep_turns h with
  | quits _ _ _ ha => cases ha
  | decline _ _ _ _ _ hc' => rw [hc] at hc'; cases hc'
  | claim _ _ _ _ hc' => rw [hc] at hc'; cases hc'
  | recover _ _ _ _ _ _ _ _ hc' => rw [hc] at hc'; cases hc'
  | askNext _ _ _ _ _ _ _ _ _ _ _ _ _ hd' => exact absurd hd' hd
  | exhaust _ _ _ _ _ _ _ _ _ _ hd' => exact absurd hd' hd
  | jump _ _ _ _ _ _ _ _ r _ tss _ _ _ _ _ _ _ ht hf =>
    have hfront := hch.front
    rw [topRaise, show s.calls.filterMap WinCall.raise = [] from hnone, ht] at hfront
    exact absurd (hf.symm.trans hfront) (by simp)
  | settle _ hook' y item' current' rsi' g rest' _ _ hc' _ _ hr =>
    rw [hc] at hc'
    obtain ⟨⟨rfl, ⟨rfl, rfl, rfl, rfl⟩⟩, rfl⟩ := by simpa using hc'
    cases hr with
    | continues =>
      refine ⟨_, recorded_fault_resumes rfl hx rfl, rfl, ?_, rfl⟩
      rw [WinState.inFlight, WinState.inFlight, hc, raises_fault hx]
      rfl

end

/-- Where no fault is claimed that takes a raise in flight along, a raise returns true only after
a decider has claimed its own exception, and a fault that a global decider claims goes on. -/
theorem claims_reach_their_raise (w : WinPlatform) (g : Global) {s : WinState}
    (hr : Run (winStep w) (fun u act => act.undebugged = true ∧ u.misleads act = false)
      (.initial g) s) :
    Deserved s.trace ∧
      ∀ x hook item current rsi rest d s',
        s.calls = .dispatch x (.deciding hook item current rsi) :: rest → x.raise = none →
        d ≠ .nextDecider → s.misleads (.decide d) = false → winStep w s (.decide d) = .ok s' →
        ∃ s'', winStep w s' .advance = .ok s'' ∧ s''.calls = rest ∧ s''.inFlight = s.inFlight ∧
          s''.trace = .resumed x :: .claimed x (.global current) :: s.trace := by
  obtain ⟨hch, hset, hdes⟩ : WinChained s ∧ WinSettled s ∧ WinDeserved s := by
    refine hr.invariant (I := fun u => WinChained u ∧ WinSettled u ∧ WinDeserved u)
      ⟨winChained_initial g, winSettled_initial g, winDeserved_initial g⟩ ?_
    rintro u act u' ⟨hch, hset, hdes⟩ ⟨hu, hm⟩ h
    have turn := winStep_turns h
    exact ⟨hch.step turn, hset.step hu turn, hdes.step hch hset hu hm turn⟩
  exact ⟨hdes.returned, fun x hook item current rsi rest d s' hc hx hd hm h =>
    claimed_fault_resumes hch hset hc hx hd hm h⟩

/-- Signal 11 is installed, and has that decider. -/
def faultDecider : Global := (oneDecider.setMap 1 none).setMap 11 (some 0)

/-- An access violation. -/
def accessViolation : ExceptionRecord := { code := 0xC0000005#32, params := [0, 16] }

/-- A raise is claimed by the decider of its guard, and then a fault by the global decider. -/
theorem claims_reach_their_raise_both :
    ∃ s s' s'' x, Run (winStep .headers)
        (fun u act => act.undebugged = true ∧ u.misleads act = false) (.initial faultDecider) s ∧
      ClaimedBefore 0 s.trace ∧ winStep .headers s (.decide .resumeExecution) = .ok s' ∧
      winStep .headers s' .advance = .ok s'' ∧
      s''.trace = .resumed x :: .claimed x (.global 0) :: s.trace := by
  obtain ⟨s, hr, hq⟩ := run_of_ends (f := winStep .headers)
    (r := fun u act => act.undebugged = true ∧ u.misleads act = false)
    (s := .initial faultDecider) (c := fun u act => act.undebugged && !u.misleads act)
    (q := fun s => s.calls == [.dispatch ⟨accessViolation, 1, none⟩
        (.deciding .unhandledFilter 0 0 0), .sigguarded 0 false] &&
      s.trace.any (· == .raised (some 0) true) && !s.misleads (.decide .resumeExecution) &&
      okAnd (winStep .headers s (.decide .resumeExecution)) fun _ => true)
    (l := [.sigguarded (· == 8) true 0 3 {}, .raise 8 none none {}, .advance,
      .decide .resumeExecution, .advance, .fault accessViolation, .advance, .advance, .advance])
    (fun _ _ h => by simpa using h) (by decide +kernel)
  simp only [Bool.and_eq_true, beq_iff_eq, List.any_eq_true, Bool.not_eq_true', okAnd_iff] at hq
  obtain ⟨⟨⟨hc, e, he, rfl⟩, hm⟩, s', hs', -⟩ := hq
  obtain ⟨hdes, hres⟩ := claims_reach_their_raise .headers faultDecider hr
  obtain ⟨post, pre, hsplit⟩ := List.append_of_mem he
  have hcl := hdes 0 pre ⟨post, hsplit.symm⟩
  obtain ⟨s'', hs'', -, -, ht⟩ := hres _ _ _ _ _ _ _ s' hc rfl (by decide) hm hs'
  obtain ⟨y, who, hy, hmem⟩ := hcl
  exact ⟨s, s', s'', _, hr, ⟨y, who, hy, hsplit ▸
    List.mem_append_right _ (List.mem_cons_of_mem _ hmem)⟩, hs', hs'', ht⟩

/-- The decider of a guard, called for a raise, faults. The global decider lets the fault go on:
the raise returns true, though nobody has claimed it, and the fault does not go on. -/
theorem fault_claim_misdirected :
    ∃ s, Run (winStep .headers) (fun _ act => act.undebugged = true) (.initial faultDecider) s ∧
      ¬ Deserved s.trace ∧ WinEvent.claimed ⟨accessViolation, 1, none⟩ (.global 0) ∈ s.trace ∧
      WinEvent.resumed ⟨accessViolation, 1, none⟩ ∉ s.trace ∧ s.calls = [.sigguarded 0 false] := by
  obtain ⟨s, hr, hq⟩ := run_of_ends (f := winStep .headers)
    (r := fun _ act => act.undebugged = true) (s := .initial faultDecider)
    (c := fun _ act => act.undebugged)
    (q := fun s => s.calls == [.sigguarded 0 false] &&
      s.trace.head? == some (.raised (some 0) true) &&
      s.trace.all (fun e => e == .claimed ⟨accessViolation, 1, none⟩ (.global 0) ||
        e.unclaimed) &&
      s.trace.any (· == .claimed ⟨accessViolation, 1, none⟩ (.global 0)) &&
      !s.trace.any (· == .resumed ⟨accessViolation, 1, none⟩))
    (l := [.sigguarded (· == 8) true 0 3 {}, .raise 8 none none {}, .advance,
      .fault accessViolation, .advance, .advance, .advance, .decide .resumeExecution])
    (fun _ _ h => h) (by decide +kernel)
  simp only [Bool.and_eq_true, beq_iff_eq, List.any_eq_true, Bool.not_eq_true', List.all_eq_true,
    Bool.or_eq_true, List.any_eq_false] at hq
  obtain ⟨⟨⟨⟨hc, hhead⟩, hall⟩, e, he, rfl⟩, hres⟩ := hq
  refine ⟨s, hr, fun hdes => ?_, he, fun hm => hres _ hm rfl, hc⟩
  obtain ⟨pre, hpre⟩ := List.head?_eq_some_iff.mp hhead
  obtain ⟨x, who, hx, hmem⟩ := hdes 0 pre (hpre ▸ List.suffix_refl _)
  have hmem : WinEvent.claimed x who ∈ s.trace := by
    rw [hpre]
    exact List.mem_cons_of_mem _ hmem
  rcases hall _ hmem with h | h
  · obtain ⟨rfl, -⟩ := WinEvent.claimed.inj h
    cases hx
  · cases h

end Wg14Signals
