import Wg14Signals.Proofs.GuardTurns

namespace Wg14Signals
open Lib

/-- The frames a guard stack links, innermost first. -/
inductive Chain (frames : Heap GuardFrame) : Option Addr → List Addr → Prop where
  | nil : Chain frames none []
  | cons {a : Addr} {f : GuardFrame} {l : List Addr} (hf : frames a = some f)
      (h : Chain frames f.prev l) : Chain frames (some a) (a :: l)

/-- The frame of a `sigguarded` call that is inside its guarded function. -/
def GuardCall.active : GuardCall → Option Addr
  | .sigguarded frame _ _ recovering => if recovering then none else some frame
  | .raise _ _ _ => none

/-- The active `sigguarded` calls of the thread, innermost first, by their frames. -/
def GuardState.activeGuards (s : GuardState) : List Addr := s.calls.filterMap GuardCall.active

/-- The decider the call is inside of has been abandoned, and this not taken back. -/
def GuardCall.abandoned (infos : Heap Siginfo) (c : GuardCall) : Bool :=
  (c.info.bind infos).any Siginfo.internalDeciderIsAbandoned

/-- The frames of the active guards but those an abandoned decider has taken off. -/
def standing (infos : Heap Siginfo) : List GuardCall → List Addr
  | [] => []
  | c :: rest =>
    match c with
    | .sigguarded frame _ _ false => frame :: standing infos rest
    | .raise _ _ (.asking _ _) =>
      if c.abandoned infos then (standing infos rest).tail else standing infos rest
    | _ => standing infos rest

/-- The frame whose decider the call is inside of. -/
def GuardCall.asks : GuardCall → Option Addr
  | .raise _ _ (.asking frame _) => some frame
  | _ => none

/-- What the guard stack is, given the calls in progress. -/
inductive Threads (frames : Heap GuardFrame) (infos : Heap Siginfo) (tss : Option Addr) :
    List GuardCall → Option Addr → Prop where
  | nil : Threads frames infos tss [] none
  | light {c : GuardCall} {rest : List GuardCall} {front : Option Addr} (hl : c.light)
      (h : Threads frames infos tss rest front) : Threads frames infos tss (c :: rest) front
  | guarded {frame : Addr} {f : GuardFrame} {rest : List GuardCall}
      (h : Threads frames infos tss rest f.prev) (hf : frames frame = some f) :
      Threads frames infos tss (.sigguarded frame tss f.prev false :: rest) (some frame)
  | recovering {frame : Addr} {rest : List GuardCall} {old : Option Addr}
      (h : Threads frames infos tss rest old) :
      Threads frames infos tss (.sigguarded frame tss old true :: rest) old
  | inside {c : GuardCall} {rsi : Addr} {info : Siginfo} {rest : List GuardCall}
      {front : Option Addr} (hc : c.info = some rsi) (hi : infos rsi = some info)
      (hab : info.internalDeciderIsAbandoned = false ∨ c.asks = none)
      (h : Threads frames infos tss rest front) : Threads frames infos tss (c :: rest) front
  | abandoned {args : RaiseArgs} {delivered : Bool} {frame rsi : Addr} {info : Siginfo}
      {f : GuardFrame} {rest : List GuardCall} (hi : infos rsi = some info)
      (hab : info.internalDeciderIsAbandoned = true) (hf : frames frame = some f)
      (hm : frame ∈ rest.filterMap GuardCall.frame)
      (h : Threads frames infos tss rest (some frame)) :
      Threads frames infos tss (.raise args delivered (.asking frame rsi) :: rest) f.prev

/-- The locals of the calls in progress are distinct, and each `stdc_siginfo` names the frame
whose decider it was given to. -/
structure Stacked (s : GuardState) : Prop where
  frameBound : ∀ a ∈ s.calls.filterMap GuardCall.frame, a < s.nextFrame
  infoBound : ∀ a ∈ s.calls.filterMap GuardCall.info, a < s.nextInfo
  frames : (s.calls.filterMap GuardCall.frame).Nodup
  infos : (s.calls.filterMap GuardCall.info).Nodup
  named : ∀ c ∈ s.calls, ∀ rsi, c.info = some rsi → ∃ info, s.infos rsi = some info ∧
    info.internalLocalDecider = c.asks

@[simp] theorem frame_sigguarded (frame : Addr) (tss old : Option Addr) (recovering : Bool) :
    (GuardCall.sigguarded frame tss old recovering).frame = some frame := rfl
@[simp] theorem frame_raise (args : RaiseArgs) (delivered : Bool) (pc : GuardPc) :
    (GuardCall.raise args delivered pc).frame = none := rfl
@[simp] theorem info_sigguarded (frame : Addr) (tss old : Option Addr) (recovering : Bool) :
    (GuardCall.sigguarded frame tss old recovering).info = none := rfl
@[simp] theorem info_asking (args : RaiseArgs) (delivered : Bool) (frame rsi : Addr) :
    (GuardCall.raise args delivered (.asking frame rsi)).info = some rsi := rfl
@[simp] theorem info_deciding (args : RaiseArgs) (delivered : Bool) (item current rsi : Addr)
    (sa : Sigaction) :
    (GuardCall.raise args delivered (.deciding item current rsi sa)).info = some rsi := rfl

section

variable {c : GuardCall} {rest xs ys : List GuardCall}

theorem GuardCall.light.frame (h : c.light) : c.frame = none := by
  cases c with
  | sigguarded => exact h.elim
  | raise => rfl

theorem GuardCall.light.info (h : c.light) : c.info = none := by
  cases c with
  | sigguarded => exact h.elim
  | raise args delivered pc =>
    cases pc with
    | asking | deciding => exact h.elim
    | _ => rfl

theorem light_frames (h : ∀ c ∈ xs, c.light) :
    (xs ++ rest).filterMap GuardCall.frame = rest.filterMap GuardCall.frame := by
  rw [List.filterMap_append, List.filterMap_eq_nil_iff.mpr fun c hc => (h c hc).frame,
    List.nil_append]

theorem light_infos (h : ∀ c ∈ xs, c.light) :
    (xs ++ rest).filterMap GuardCall.info = rest.filterMap GuardCall.info := by
  rw [List.filterMap_append, List.filterMap_eq_nil_iff.mpr fun c hc => (h c hc).info,
    List.nil_append]

theorem info_frame {rsi : Addr} (h : c.info = some rsi) : c.frame = none := by
  cases c with
  | sigguarded => cases h
  | raise => rfl

end

section

variable {s s' : GuardState} {act : GuardAction}

theorem stacked_initial (b : Bool) (g : Global) : Stacked (.initial b g) := by
  constructor <;> simp [GuardState.initial]

/-- A `stdc_siginfo` that is rewritten keeps the name of its decider. -/
theorem Stacked.rename (hi : Stacked s) {c : GuardCall} {rsi : Addr} {info : Siginfo}
    {rest : List GuardCall} (hc : s.calls = c :: rest) (hrsi : c.info = some rsi)
    {c' : GuardCall} (hrsi' : c'.info = some rsi)
    (hinfos : s'.infos = s.infos.set rsi (some info))
    (hasks : info.internalLocalDecider = c'.asks) (hframes : s'.nextFrame = s.nextFrame)
    (hnext : s'.nextInfo = s.nextInfo) (hc' : s'.calls = c' :: rest) : Stacked s' := by
  have hf : s'.calls.filterMap GuardCall.frame = s.calls.filterMap GuardCall.frame := by
    rw [hc, hc', List.filterMap_cons_none (info_frame hrsi),
      List.filterMap_cons_none (info_frame hrsi')]
  have hin : s'.calls.filterMap GuardCall.info = s.calls.filterMap GuardCall.info := by
    rw [hc, hc', List.filterMap_cons_some hrsi, List.filterMap_cons_some hrsi']
  refine ⟨?_, ?_, ?_, ?_, fun b hb a ha => ?_⟩
  · rw [hf, hframes]
    exact hi.frameBound
  · rw [hin, hnext]
    exact hi.infoBound
  · rw [hf]
    exact hi.frames
  · rw [hin]
    exact hi.infos
  · rw [hc'] at hb
    rcases List.mem_cons.mp hb with rfl | hb
    · rw [hrsi'] at ha
      cases ha
      exact ⟨info, by rw [hinfos, Heap.set_self], hasks⟩
    · have hne : a ≠ rsi := by
        rintro rfl
        have hnd := hi.infos
        rw [hc, List.filterMap_cons_some hrsi] at hnd
        exact (List.nodup_cons.mp hnd).1 (List.mem_filterMap.mpr ⟨b, hb, ha⟩)
      rw [hinfos, Heap.set_other _ _ hne]
      exact hi.named b (by rw [hc]; exact List.mem_cons_of_mem _ hb) a ha

/-- Calls have ended, and nothing that goes with the others has changed. -/
theorem Stacked.shrink (hi : Stacked s)
    (hf : (s'.calls.filterMap GuardCall.frame).Sublist (s.calls.filterMap GuardCall.frame))
    (hin : (s'.calls.filterMap GuardCall.info).Sublist (s.calls.filterMap GuardCall.info))
    (hframes : s'.nextFrame = s.nextFrame) (hnext : s'.nextInfo = s.nextInfo)
    (hn : ∀ c ∈ s'.calls, ∀ rsi, c.info = some rsi → c ∈ s.calls ∧ s'.infos rsi = s.infos rsi) :
    Stacked s' where
  frameBound a ha := hframes ▸ hi.frameBound a (hf.subset ha)
  infoBound a ha := hnext ▸ hi.infoBound a (hin.subset ha)
  frames := hi.frames.sublist hf
  infos := hi.infos.sublist hin
  named c hc rsi hr := by
    obtain ⟨hm, he⟩ := hn c hc rsi hr
    rw [he]
    exact hi.named c hm rsi hr

/-- Taking a call off the top leaves the `stdc_siginfo`s of the calls below alone. -/
theorem Stacked.apart (hi : Stacked s) {gone rest : List GuardCall} (hc : s.calls = gone ++ rest)
    {c : GuardCall} (hm : c ∈ rest) {rsi : Addr} (hr : c.info = some rsi) :
    rsi ∉ gone.filterMap GuardCall.info := by
  have hnd := hi.infos
  rw [hc, List.filterMap_append] at hnd
  intro hg
  exact (List.nodup_append.mp hnd).2.2 rsi hg rsi (List.mem_filterMap.mpr ⟨c, hm, hr⟩) rfl

theorem Stacked.apartFrame (hi : Stacked s) {gone rest : List GuardCall}
    (hc : s.calls = gone ++ rest) {a : Addr} (hm : a ∈ rest.filterMap GuardCall.frame) :
    a ∉ gone.filterMap GuardCall.frame := by
  have hnd := hi.frames
  rw [hc, List.filterMap_append] at hnd
  intro hg
  exact (List.nodup_append.mp hnd).2.2 a hg a hm rfl

/-- The calls on top are gone, with the `stdc_siginfo`s that go with them at most. -/
theorem Stacked.unwind (hi : Stacked s) {gone rest : List GuardCall} (hc : s.calls = gone ++ rest)
    (hc' : s'.calls = rest) (hframes : s'.nextFrame = s.nextFrame)
    (hnext : s'.nextInfo = s.nextInfo)
    (hn : ∀ a, a ∉ gone.filterMap GuardCall.info → s'.infos a = s.infos a) : Stacked s' := by
  refine hi.shrink ?_ ?_ hframes hnext fun c hm rsi hr => ?_
  · rw [hc, hc', List.filterMap_append]
    exact List.sublist_append_right _ _
  · rw [hc, hc', List.filterMap_append]
    exact List.sublist_append_right _ _
  · rw [hc'] at hm
    exact ⟨by rw [hc]; exact List.mem_append.mpr (.inr hm), hn rsi (hi.apart hc hm hr)⟩

theorem Stacked.step (hi : Stacked s) (h : GuardTurn s s' act) : Stacked s' := by
  -- a decider is called with a new `stdc_siginfo`
  have asked : ∀ {c c' : GuardCall} {rest : List GuardCall} {info : Siginfo}, c.light →
      s.calls = c :: rest → s'.calls = c' :: rest → c'.info = some s.nextInfo →
      info.internalLocalDecider = c'.asks → s'.infos = s.infos.set s.nextInfo (some info) →
      s'.nextFrame = s.nextFrame → s'.nextInfo = s.nextInfo + 1 → Stacked s' := by
    intro c c' rest info hl hc hc' hr ha hin hnf hni
    have hf : s'.calls.filterMap GuardCall.frame = s.calls.filterMap GuardCall.frame := by
      rw [hc, hc', List.filterMap_cons_none hl.frame, List.filterMap_cons_none (info_frame hr)]
    have hinfo : s'.calls.filterMap GuardCall.info =
        s.nextInfo :: s.calls.filterMap GuardCall.info := by
      rw [hc, hc', List.filterMap_cons_none hl.info, List.filterMap_cons_some hr]
    have hfresh : ∀ {a}, a ∈ s.calls.filterMap GuardCall.info → a ≠ s.nextInfo := by
      rintro a ha rfl
      exact Nat.lt_irrefl _ (hi.infoBound _ ha)
    refine ⟨by rw [hf, hnf]; exact hi.frameBound, fun a hm => ?_, by rw [hf]; exact hi.frames, ?_,
      fun b hb a hba => ?_⟩
    · rw [hinfo] at hm
      rw [hni]
      rcases List.mem_cons.mp hm with rfl | hm
      · exact Nat.lt_succ_self _
      · exact Nat.lt_succ_of_lt (hi.infoBound a hm)
    · rw [hinfo]
      exact List.nodup_cons.mpr ⟨fun hm => hfresh hm rfl, hi.infos⟩
    · rw [hc'] at hb
      rcases List.mem_cons.mp hb with rfl | hb
      · rw [hr] at hba
        cases hba
        exact ⟨info, by rw [hin, Heap.set_self], ha⟩
      · have hb' : b ∈ s.calls := by rw [hc]; exact List.mem_cons_of_mem _ hb
        rw [hin, Heap.set_other _ _ (hfresh (List.mem_filterMap.mpr ⟨b, hb', hba⟩))]
        exact hi.named b hb' a hba
  cases h with
  | shift act xs ys rest hx hy hc hc' ho hs ht =>
    refine hi.shrink ?_ ?_ ho.nextFrame ho.nextInfo fun c hm rsi hr => ?_
    · rw [hc, hc', light_frames hx, light_frames hy]
    · rw [hc, hc', light_infos hx, light_infos hy]
    · rw [hc'] at hm
      rcases List.mem_append.mp hm with hm | hm
      · rw [(hy c hm).info] at hr
        cases hr
      · exact ⟨by rw [hc]; exact List.mem_append.mpr (.inr hm), by rw [ho.infos]⟩
  | guard signals recovery decider value env st tss state hk hown hlive hc' hf hnf hin hni hs ht =>
    refine ⟨fun a ha => ?_, ?_, ?_, ?_, fun c hm rsi hr => ?_⟩
    · rw [hc'] at ha
      rw [hnf]
      rcases List.mem_cons.mp ha with rfl | ha
      · exact Nat.lt_succ_self _
      · exact Nat.lt_succ_of_lt (hi.frameBound a ha)
    · rw [hc', hni]
      exact hi.infoBound
    · rw [hc']
      exact List.nodup_cons.mpr ⟨fun ha => Nat.lt_irrefl _ (hi.frameBound _ ha), hi.frames⟩
    · rw [hc']
      exact hi.infos
    · rw [hc'] at hm
      rcases List.mem_cons.mp hm with rfl | hm
      · cases hr
      · rw [hin]
        exact hi.named c hm rsi hr
  | ask args delivered frame f rest info hc hc' hframe hset hinfo hf hnf hin hni hs ht =>
    exact asked (by exact trivial) hc hc' rfl (by rw [hinfo]; rfl) hin hnf hni
  | askFirst args delivered item current value sa rest info hc hc' he hinfo hf hnf hin hni hs ht =>
    refine asked (by exact trivial) hc hc' rfl ?_ hin hnf hni
    rw [hinfo]
    unfold prepareRsi
    split <;> rfl
  | askNext args delivered item current next rsi value sa rest old info hc hc' hold hab he hinfo hf
      hnf hin hni hs ht =>
    obtain ⟨old', hold', hl⟩ := hi.named _ (by rw [hc]; exact List.mem_cons_self) rsi rfl
    rw [hold] at hold'
    cases hold'
    exact hi.rename hc rfl rfl hin (by rw [hinfo]; exact hl) hnf hni hc'
  | answer d c rsi info ys rest hrsi hy hc hc' hinfo hab hf hnf hin hni hs ht =>
    refine hi.shrink ?_ ?_ hnf hni fun b hm a hr => ?_
    · rw [hc, hc', light_frames hy, List.filterMap_cons_none (info_frame hrsi)]
    · rw [hc, hc', light_infos hy, List.filterMap_cons_some hrsi]
      exact List.sublist_cons_self _ _
    · rw [hc'] at hm
      rcases List.mem_append.mp hm with hm | hm
      · rw [(hy b hm).info] at hr
        cases hr
      · have hne := hi.apart (show s.calls = [c] ++ rest from hc) hm hr
        rw [List.filterMap_cons_some hrsi, List.filterMap_nil, List.mem_singleton] at hne
        exact ⟨by rw [hc]; exact List.mem_cons_of_mem _ hm, by rw [hin, Heap.set_other _ _ hne]⟩
  | recover args delivered frame rsi f info tss old mid rest hmid hc hc' hinfo hab hframe hrec hf
      hnf hin hni hs ht =>
    have hgone : s.calls = (.raise args delivered (.asking frame rsi) :: mid) ++
        (.sigguarded frame tss old false :: rest) := by simpa using hc
    refine hi.shrink ?_ ?_ hnf hni fun b hm a hr => ?_
    · rw [hgone, hc', List.filterMap_append]
      exact List.sublist_append_right _ _
    · rw [hgone, hc', List.filterMap_append]
      exact List.sublist_append_right _ _
    · rw [hc'] at hm
      rcases List.mem_cons.mp hm with rfl | hm
      · cases hr
      · refine ⟨by rw [hc]; simp [hm], ?_⟩
        have hne := hi.apart hgone (List.mem_cons_of_mem _ hm) hr
        rw [hin]
        exact if_neg hne
  | write pub c rsi info rest hrsi hc hc' hinfo hf hnf hin hni hs ht =>
    obtain ⟨info', hinfo', hl⟩ := hi.named c (by rw [hc]; exact List.mem_cons_self) rsi hrsi
    rw [hinfo] at hinfo'
    cases hinfo'
    exact hi.rename hc hrsi hrsi hin hl hnf hni (hc'.trans hc)
  | abandon c rsi info rest hrsi hc hc' hinfo hab hf hnf hin hni hs ht =>
    obtain ⟨info', hinfo', hl⟩ := hi.named c (by rw [hc]; exact List.mem_cons_self) rsi hrsi
    rw [hinfo] at hinfo'
    cases hinfo'
    exact hi.rename hc hrsi hrsi hin hl hnf hni (hc'.trans hc)
  | resume c rsi info rest hrsi hc hc' hinfo hab hf hnf hin hni hs ht =>
    obtain ⟨info', hinfo', hl⟩ := hi.named c (by rw [hc]; exact List.mem_cons_self) rsi hrsi
    rw [hinfo] at hinfo'
    cases hinfo'
    exact hi.rename hc hrsi hrsi hin hl hnf hni (hc'.trans hc)
  | jump args delivered frame rsi info tss old mid rest hmid hc hc' hinfo hab hf hnf hin hni hs ht =>
    have hgone : s.calls = (.raise args delivered (.asking frame rsi) :: mid ++
        [.sigguarded frame tss old false]) ++ rest := by simpa using hc
    refine hi.unwind hgone hc' hnf hni fun a ha => ?_
    rw [hin]
    refine if_neg ?_
    simpa using ha
  | jumpGlobal args delivered item current rsi sa info rest hc hc' hinfo hab hf hnf hin hni hs ht =>
    refine hi.unwind (show s.calls = [_] ++ rest from hc) hc' hnf hni fun a ha => ?_
    rw [hin, Heap.set_other _ _ (by simpa using ha)]
  | ret value frame tss old recovering rest hc hc' hf hnf hin hni hs ht =>
    exact hi.unwind (show s.calls = [_] ++ rest from hc) hc' hnf hni fun a _ => by rw [hin]

end

section

variable {frames frames' : Heap GuardFrame} {infos infos' : Heap Siginfo} {tss tss' : Option Addr}
  {calls rest xs ys mid : List GuardCall} {c : GuardCall} {front : Option Addr}

/-- Only what goes with the calls in progress matters. -/
theorem Threads.congr (h : Threads frames infos tss calls front)
    (hf : ∀ a ∈ calls.filterMap GuardCall.frame, frames' a = frames a)
    (hi : ∀ a ∈ calls.filterMap GuardCall.info, infos' a = infos a) :
    Threads frames' infos' tss calls front := by
  induction h with
  | nil => exact .nil
  | light hl h ih =>
    rw [List.filterMap_cons_none hl.frame] at hf
    rw [List.filterMap_cons_none hl.info] at hi
    exact .light hl (ih hf hi)
  | guarded h hframe ih =>
    refine .guarded (ih (fun a ha => hf a (List.mem_cons_of_mem _ ha)) hi) ?_
    rw [hf _ List.mem_cons_self]
    exact hframe
  | recovering h ih =>
    exact .recovering (ih (fun a ha => hf a (List.mem_cons_of_mem _ ha)) hi)
  | inside hc hinfo hab h ih =>
    rw [List.filterMap_cons_none (info_frame hc)] at hf
    rw [List.filterMap_cons_some hc] at hi
    refine .inside hc ?_ hab (ih hf fun a ha => hi a (List.mem_cons_of_mem _ ha))
    rw [hi _ List.mem_cons_self]
    exact hinfo
  | abandoned hinfo hab hframe hm h ih =>
    refine .abandoned (by rw [hi _ List.mem_cons_self]; exact hinfo) hab ?_ hm
      (ih hf fun a ha => hi a (List.mem_cons_of_mem _ ha))
    rw [hf _ hm]
    exact hframe

/-- The guard stack below a call. -/
theorem Threads.tail (h : Threads frames infos tss (c :: rest) front) :
    ∃ front', Threads frames infos tss rest front' := by
  cases h with
  | light _ h => exact ⟨_, h⟩
  | guarded h _ => exact ⟨_, h⟩
  | recovering h => exact ⟨_, h⟩
  | inside _ _ _ h => exact ⟨_, h⟩
  | abandoned _ _ _ _ h => exact ⟨_, h⟩

theorem Threads.drop (h : Threads frames infos tss (xs ++ rest) front) :
    ∃ front', Threads frames infos tss rest front' := by
  induction xs generalizing front with
  | nil => exact ⟨front, h⟩
  | cons c xs ih =>
    obtain ⟨front', h'⟩ := h.tail
    exact ih h'

theorem Threads.of_light (h : Threads frames infos tss (c :: rest) front) (hl : c.light) :
    Threads frames infos tss rest front := by
  cases h with
  | light _ h => exact h
  | guarded | recovering | abandoned => exact hl.elim
  | inside hc => rw [hl.info] at hc; cases hc

theorem Threads.drop_light (h : Threads frames infos tss (xs ++ rest) front)
    (hx : ∀ c ∈ xs, c.light) : Threads frames infos tss rest front := by
  induction xs with
  | nil => exact h
  | cons c xs ih =>
    exact ih (h.of_light (hx c List.mem_cons_self)) fun b hb => hx b (List.mem_cons_of_mem _ hb)

theorem Threads.add_light (h : Threads frames infos tss rest front) (hy : ∀ c ∈ ys, c.light) :
    Threads frames infos tss (ys ++ rest) front := by
  induction ys with
  | nil => exact h
  | cons c ys ih =>
    exact .light (hy c List.mem_cons_self) (ih fun b hb => hy b (List.mem_cons_of_mem _ hb))

/-- Below a decider that is not abandoned, and below a global one. -/
theorem Threads.of_inside {rsi : Addr} {info : Siginfo}
    (h : Threads frames infos tss (c :: rest) front) (hc : c.info = some rsi)
    (hi : infos rsi = some info)
    (hab : info.internalDeciderIsAbandoned = false ∨ c.asks = none) :
    Threads frames infos tss rest front := by
  cases h with
  | light hl => rw [hl.info] at hc; cases hc
  | guarded | recovering => cases hc
  | inside _ _ _ h => exact h
  | abandoned hi' hab' =>
    cases hc
    rw [hi] at hi'
    cases hi'
    rcases hab with hab | hab
    · rw [hab] at hab'
      cases hab'
    · cases hab

/-- Below an abandoned decider of a frame. -/
theorem Threads.of_abandoned {args : RaiseArgs} {delivered : Bool} {rsi frame : Addr}
    {info : Siginfo}
    (h : Threads frames infos tss (.raise args delivered (.asking frame rsi) :: rest) front)
    (hi : infos rsi = some info) (hab : info.internalDeciderIsAbandoned = true) :
    ∃ f, frames frame = some f ∧ front = f.prev ∧ frame ∈ rest.filterMap GuardCall.frame ∧
      Threads frames infos tss rest (some frame) := by
  cases h with
  | light hl => exact hl.elim
  | inside hc hi' hab' h =>
    cases hc
    rw [hi] at hi'
    cases hi'
    rcases hab' with hab' | hab'
    · rw [hab] at hab'
      cases hab'
    · cases hab'
  | abandoned hi' hab' hf hm h => exact ⟨_, hf, rfl, hm, h⟩

/-- Where there is no guard, the object the front is kept in does not matter. -/
theorem Threads.move (h : Threads frames infos tss calls front)
    (hn : calls.filterMap GuardCall.frame = []) : Threads frames infos tss' calls front := by
  induction h with
  | nil => exact .nil
  | light hl h ih =>
    rw [List.filterMap_cons_none hl.frame] at hn
    exact .light hl (ih hn)
  | guarded | recovering => simp at hn
  | inside hc hi hab h ih =>
    rw [List.filterMap_cons_none (info_frame hc)] at hn
    exact .inside hc hi hab (ih hn)
  | abandoned _ _ _ hm =>
    rw [List.filterMap_cons_none (frame_raise _ _ _)] at hn
    rw [hn] at hm
    cases hm

theorem Chain.unique {a : Option Addr} {l l' : List Addr} (h : Chain frames a l)
    (h' : Chain frames a l') : l = l' := by
  induction h generalizing l' with
  | nil => cases h'; rfl
  | cons hf h ih =>
    cases h' with
    | cons hf' h' =>
      rw [hf] at hf'
      cases hf'
      rw [ih h']

theorem standing_light (hl : c.light) : standing infos (c :: rest) = standing infos rest := by
  cases c with
  | sigguarded => exact hl.elim
  | raise args delivered pc =>
    cases pc with
    | asking | deciding => exact hl.elim
    | _ => rfl

theorem standing_inside {rsi : Addr} {info : Siginfo} (hc : c.info = some rsi)
    (hi : infos rsi = some info) (hab : info.internalDeciderIsAbandoned = false ∨ c.asks = none) :
    standing infos (c :: rest) = standing infos rest := by
  cases c with
  | sigguarded => cases hc
  | raise args delivered pc =>
    cases pc with
    | asking frame rsi' =>
      cases hc
      have hab' : (GuardCall.raise args delivered (.asking frame rsi)).abandoned infos = false := by
        simp [GuardCall.abandoned, hi, hab.resolve_right (by simp [GuardCall.asks])]
      simp only [standing, hab', Bool.false_eq_true, if_false]
    | deciding => rfl
    | _ => cases hc

theorem standing_abandoned {args : RaiseArgs} {delivered : Bool} {frame rsi : Addr}
    {info : Siginfo} (hi : infos rsi = some info) (hab : info.internalDeciderIsAbandoned = true) :
    standing infos (.raise args delivered (.asking frame rsi) :: rest) =
      (standing infos rest).tail := by
  have hab' : (GuardCall.raise args delivered (.asking frame rsi)).abandoned infos = true := by
    simp [GuardCall.abandoned, hi, hab]
  simp only [standing, hab', if_true]

/-- The guard stack links the frames of the active guards, but those an abandoned decider has
taken off. -/
theorem Threads.chain (h : Threads frames infos tss calls front) :
    Chain frames front (standing infos calls) := by
  induction h with
  | nil => exact .nil
  | light hl h ih =>
    rw [standing_light hl]
    exact ih
  | guarded h hf ih => exact .cons hf ih
  | recovering h ih => exact ih
  | inside hc hi hab h ih =>
    rw [standing_inside hc hi hab]
    exact ih
  | @abandoned args delivered frame rsi info f rest hi hab hf hm h ih =>
    rw [standing_abandoned hi hab]
    cases h' : standing infos rest with
    | nil => rw [h'] at ih; cases ih
    | cons a l =>
      rw [h'] at ih
      cases ih with
      | cons hf' hl' =>
        rw [hf] at hf'
        cases hf'
        exact hl'

theorem active_frame {a : Addr} (h : c.active = some a) : c.frame = some a := by
  cases c with
  | raise => cases h
  | sigguarded frame tss old recovering =>
    cases recovering with
    | true => cases h
    | false => exact h

theorem standing_subset : standing infos calls ⊆ calls.filterMap GuardCall.active := by
  induction calls with
  | nil => simp [standing]
  | cons c rest ih =>
    have tail : standing infos rest ⊆ (c :: rest).filterMap GuardCall.active := by
      intro a ha
      rw [List.filterMap_cons]
      split
      · exact ih ha
      · exact List.mem_cons_of_mem _ (ih ha)
    cases c with
    | sigguarded frame tss old recovering =>
      cases recovering with
      | true => exact tail
      | false =>
        intro a ha
        rcases List.mem_cons.mp ha with rfl | ha
        · exact List.mem_cons_self
        · exact tail ha
    | raise args delivered pc =>
      cases pc with
      | asking =>
        simp only [standing]
        split
        · exact fun a ha => tail (List.mem_of_mem_tail ha)
        · exact tail
      | _ => exact tail

/-- The front of the stack is the frame of an active guard. -/
theorem Threads.front_active {frame : Addr} (h : Threads frames infos tss calls (some frame)) :
    frame ∈ calls.filterMap GuardCall.active := by
  have hc := h.chain
  refine (standing_subset : standing infos calls ⊆ _) ?_
  generalize standing infos calls = l at hc ⊢
  cases hc with
  | cons => exact List.mem_cons_self

theorem Threads.front_mem {frame : Addr} (h : Threads frames infos tss calls (some frame)) :
    frame ∈ calls.filterMap GuardCall.frame := by
  obtain ⟨c, hm, hc⟩ := List.mem_filterMap.mp h.front_active
  exact List.mem_filterMap.mpr ⟨c, hm, active_frame hc⟩

/-- Without active guards the stack is empty. -/
theorem Threads.front_idle (h : Threads frames infos tss calls front)
    (hn : calls.filterMap GuardCall.active = []) : front = none := by
  cases front with
  | none => rfl
  | some frame =>
    have := h.front_active
    rw [hn] at this
    cases this

end

theorem front_threadLocal {st : ThreadStorage} {own : Option Addr} (hs : st.slot = .threadLocal own) :
    st.front = (own.bind st.states).bind ThreadState.front := by
  rw [ThreadStorage.front, hs, TssSlot.own]

theorem StoreKept.front {st st' : ThreadStorage} {own : Option Addr} (h : StoreKept st st')
    (hs : st.slot = .threadLocal own) : ∃ own', st'.slot = .threadLocal own' ∧
      st'.front = st.front ∧ (own = none ∨ own' = own) := by
  cases own with
  | some a =>
    obtain ⟨hs', hv⟩ := h.own a hs
    refine ⟨some a, hs', ?_, .inr rfl⟩
    rw [front_threadLocal hs', front_threadLocal hs, Option.bind_some, Option.bind_some, hv]
  | none =>
    rcases h.unset hs with hs' | ⟨a, hs', hv⟩
    · exact ⟨none, hs', by rw [front_threadLocal hs', front_threadLocal hs]; rfl, .inl rfl⟩
    · refine ⟨some a, hs', ?_, .inl rfl⟩
      rw [front_threadLocal hs', front_threadLocal hs, Option.bind_some, hv]
      rfl

theorem FrontSet.front {st st' : ThreadStorage} {tss front : Option Addr}
    (h : FrontSet st st' tss front) (hs : st.slot = .threadLocal tss) :
    st'.slot = .threadLocal tss ∧ st'.front = front := by
  obtain ⟨a, rfl, -, hstates⟩ := h.live
  have hs' := h.slot.trans hs
  refine ⟨hs', ?_⟩
  rw [front_threadLocal hs', Option.bind_some, hstates, Heap.set_self]
  rfl

/-- The guard stack is the one the calls in progress make. -/
structure Guarded (s : GuardState) (own : Option Addr) : Prop where
  slot : s.store.slot = .threadLocal own
  threads : Threads s.frames s.infos own s.calls s.store.front
  bare : own = none → s.calls.filterMap GuardCall.frame = []

section

variable {s s' : GuardState} {act : GuardAction} {own : Option Addr}

theorem guarded_initial (g : Global) : Guarded (.initial true g) none :=
  ⟨rfl, .nil, fun _ => rfl⟩

/-- The calls below the top, while what goes with them does not change. -/
theorem Guarded.below (hst : Stacked s) {gone rest : List GuardCall} {front : Option Addr}
    (hc : s.calls = gone ++ rest) (h : Threads s.frames s.infos own rest front)
    (hf : ∀ a ∈ rest.filterMap GuardCall.frame, a ∉ gone.filterMap GuardCall.frame →
      s'.frames a = s.frames a)
    (hi : ∀ a ∈ rest.filterMap GuardCall.info, a ∉ gone.filterMap GuardCall.info →
      s'.infos a = s.infos a) : Threads s'.frames s'.infos own rest front := by
  refine h.congr (fun a ha => hf a ha (hst.apartFrame hc ha)) fun a ha => hi a ha ?_
  obtain ⟨c, hm, hr⟩ := List.mem_filterMap.mp ha
  exact hst.apart hc hm hr

/-- A call that is inside a decider, of a frame. -/
theorem asks_of_not {c : GuardCall} {rsi : Addr} (hr : c.info = some rsi) (hn : c.asks ≠ none) :
    ∃ args delivered frame, c = .raise args delivered (.asking frame rsi) := by
  cases c with
  | sigguarded => cases hr
  | raise args delivered pc =>
    cases pc with
    | asking frame rsi' =>
      cases hr
      exact ⟨args, delivered, frame, rfl⟩
    | _ => exact absurd rfl hn

theorem Guarded.step (hi : Guarded s own) (hst : Stacked s) (h : GuardTurn s s' act) :
    ∃ own', Guarded s' own' ∧ (own = none ∨ own' = own) := by
  obtain ⟨hslot, hth, hbare⟩ := hi
  have kept : ∀ {rest : List GuardCall}, s'.store = s.store → s'.calls = rest →
      Threads s'.frames s'.infos own rest s.store.front →
      (own = none → rest.filterMap GuardCall.frame = []) →
      ∃ own', Guarded s' own' ∧ (own = none ∨ own' = own) := by
    intro rest hs hc ht hn
    exact ⟨own, ⟨hs ▸ hslot, by rw [hs, hc]; exact ht, by rw [hc]; exact hn⟩, .inr rfl⟩
  have set : ∀ {rest : List GuardCall} {tss front : Option Addr}, tss = own →
      FrontSet s.store s'.store tss front → s'.calls = rest →
      Threads s'.frames s'.infos own rest front →
      ∃ own', Guarded s' own' ∧ (own = none ∨ own' = own) := by
    rintro rest tss front rfl hs hc ht
    obtain ⟨hslot', hfront⟩ := hs.front hslot
    obtain ⟨a, rfl, -⟩ := hs.live
    exact ⟨_, ⟨hslot', by rw [hfront, hc]; exact ht, fun h => by cases h⟩, .inr rfl⟩
  -- a decider is called, or its `stdc_siginfo` is written
  have inside : ∀ {gone : List GuardCall} {c c' : GuardCall} {rest : List GuardCall} {rsi : Addr}
      {info : Siginfo}, gone = [c] → s.calls = gone ++ rest → s'.calls = c' :: rest →
      c'.info = some rsi → s'.infos = s.infos.set rsi (some info) →
      (info.internalDeciderIsAbandoned = false ∨ c'.asks = none) →
      (∀ a ∈ rest.filterMap GuardCall.info, a ∉ gone.filterMap GuardCall.info → a ≠ rsi) →
      s'.frames = s.frames → s'.store = s.store → c.frame = none →
      Threads s.frames s.infos own rest s.store.front →
      ∃ own', Guarded s' own' ∧ (own = none ∨ own' = own) := by
    intro gone c c' rest rsi info hg hc hc' hr hin hab hne hf hs hcf ht
    refine kept hs hc' (.inside hr (by rw [hin, Heap.set_self]) hab ?_) fun hn => ?_
    · refine Guarded.below hst hc ht (fun a _ _ => by rw [hf]) fun a ha hga => ?_
      rw [hin, Heap.set_other _ _ (hne a ha hga)]
    · have := hbare hn
      rw [hc, hg, List.singleton_append, List.filterMap_cons_none hcf] at this
      rw [List.filterMap_cons_none (info_frame hr)]
      exact this
  have below_top : ∀ {c : GuardCall} {rest : List GuardCall} {rsi : Addr} {info : Option Siginfo}
      {front : Option Addr}, s.calls = c :: rest → c.info = some rsi → s'.frames = s.frames →
      s'.infos = s.infos.set rsi info → Threads s.frames s.infos own rest front →
      Threads s'.frames s'.infos own rest front := by
    intro c rest rsi info front hc hr hf hin ht
    refine Guarded.below hst (show s.calls = [c] ++ rest from hc) ht (fun a _ _ => by rw [hf])
      fun a _ hna => ?_
    rw [hin, Heap.set_other]
    rintro rfl
    exact hna (by simp [hr])
  have fresh : ∀ {c : GuardCall} {rest : List GuardCall}, s.calls = [c] ++ rest →
      ∀ a ∈ rest.filterMap GuardCall.info, a ∉ [c].filterMap GuardCall.info → a ≠ s.nextInfo := by
    rintro c rest hc a ha - rfl
    refine Nat.lt_irrefl _ (hst.infoBound s.nextInfo ?_)
    rw [hc, List.filterMap_append]
    exact List.mem_append.mpr (.inr ha)
  have own_info : ∀ {c : GuardCall} {rest : List GuardCall} {rsi : Addr}, c.info = some rsi →
      ∀ a ∈ rest.filterMap GuardCall.info, a ∉ [c].filterMap GuardCall.info → a ≠ rsi := by
    rintro c rest rsi hr a - hna rfl
    exact hna (by simp [hr])
  have named : ∀ {c : GuardCall} {rest : List GuardCall} {rsi : Addr} {info : Siginfo},
      s.calls = c :: rest → c.info = some rsi → s.infos rsi = some info →
      info.internalLocalDecider = c.asks := by
    intro c rest rsi info hc hr hinfo
    obtain ⟨info', hinfo', hl⟩ := hst.named c (by rw [hc]; exact List.mem_cons_self) rsi hr
    rw [hinfo] at hinfo'
    cases hinfo'
    exact hl
  cases h with
  | shift act xs ys rest hx hy hc hc' ho hs ht =>
    rw [hc] at hth
    obtain ⟨own', hslot', hfront, hown⟩ := hs.front hslot
    have hth' : Threads s'.frames s'.infos own rest s'.store.front := by
      rw [ho.frames, ho.infos, hfront]
      exact hth.drop_light hx
    have hn : own = none → rest.filterMap GuardCall.frame = [] := by
      intro h
      rw [← light_frames hx, ← hc]
      exact hbare h
    refine ⟨own', ⟨hslot', ?_, fun h => ?_⟩, hown⟩
    · rw [hc']
      refine Threads.add_light ?_ hy
      rcases hown with h | rfl
      · exact hth'.move (hn h)
      · exact hth'
    · rw [hc', light_frames hy]
      rcases hown with h' | rfl
      · exact hn h'
      · exact hn h
  | guard signals recovery decider value env st tss state hk hown hlive hc' hf hnf hin hni hs ht =>
    obtain ⟨own', hslot', hfront, hown'⟩ := hk.front hslot
    obtain rfl : own' = some tss := by rw [← hown, hslot', TssSlot.own]
    obtain ⟨hslot₂, hfront₂⟩ := hs.front hslot'
    have hstate : state.front = s.store.front := by
      rw [← hfront, front_threadLocal hslot', Option.bind_some, hlive, Option.bind_some]
    refine ⟨some tss, ⟨hslot₂, ?_, fun h => by cases h⟩, hown'⟩
    rw [hc', hfront₂]
    have hth' : Threads s'.frames s'.infos (some tss) s.calls state.front := by
      rw [hstate]
      have hmoved : Threads s.frames s.infos (some tss) s.calls s.store.front := by
        rcases hown' with h | h
        · exact hth.move (hbare h)
        · rw [h]
          exact hth
      refine hmoved.congr (fun a ha => ?_) fun a _ => by rw [hin]
      rw [hf, Heap.set_other]
      rintro rfl
      exact Nat.lt_irrefl _ (hst.frameBound _ ha)
    exact .guarded (f := ⟨state.front, signals, recovery, decider, { value }⟩) hth'
      (by rw [hf, Heap.set_self])
  | ask args delivered frame f rest info hc hc' hframe hset hinfo hf hnf hin hni hs ht =>
    have hl : (GuardCall.raise args delivered (.walk (some frame))).light := trivial
    rw [hc] at hth
    refine inside rfl hc hc' rfl hin (.inl ?_) (fresh hc) hf hs rfl (hth.of_light hl)
    rw [hinfo]
    unfold prepareRsi
    split <;> rfl
  | askFirst args delivered item current value sa rest info hc hc' he hinfo hf hnf hin hni hs ht =>
    have hl : (GuardCall.raise args delivered (.walk none)).light := trivial
    rw [hc] at hth
    exact inside rfl hc hc' rfl hin (.inr rfl) (fresh hc) hf hs rfl (hth.of_light hl)
  | askNext args delivered item current next rsi value sa rest old info hc hc' hold hab he hinfo hf
      hnf hin hni hs ht =>
    rw [hc] at hth
    exact inside rfl hc hc' rfl hin (.inr rfl) (own_info rfl) hf hs rfl
      (hth.of_inside rfl hold (.inr rfl))
  | answer d c rsi info ys rest hrsi hy hc hc' hinfo hab hf hnf hin hni hs ht =>
    rw [hc] at hth
    refine kept hs hc' (Threads.add_light ?_ hy) fun hn => ?_
    · exact below_top hc hrsi hf hin (hth.of_inside hrsi hinfo (.inl hab))
    · rw [light_frames hy]
      have := hbare hn
      rw [hc, List.filterMap_cons_none (info_frame hrsi)] at this
      exact this
  | recover args delivered frame rsi f info tss old mid rest hmid hc hc' hinfo hab hframe hrec hf
      hnf hin hni hs ht =>
    have hgone : s.calls = (.raise args delivered (.asking frame rsi) :: mid ++
        [.sigguarded frame tss old false]) ++ rest := by simpa using hc
    rw [hc] at hth
    obtain ⟨front', hth'⟩ := hth.tail.choose_spec.drop
    cases hth' with
    | guarded hth' hf' =>
      refine set rfl hs hc' (.recovering (Guarded.below hst hgone hth' (fun a _ hna => ?_)
        fun a _ hna => ?_))
      · rw [hf]
        simp only [List.cons_append, frame_raise, List.filterMap_cons, List.filterMap_append,
          frame_sigguarded, List.filterMap_nil, List.mem_append, List.mem_singleton,
          not_or] at hna
        exact (if_neg hna.1).trans (Heap.set_other _ _ hna.2)
      · rw [hin]
        refine if_neg ?_
        simpa using hna
    | light hl => exact hl.elim
    | inside hr => cases hr
  | write pub c rsi info rest hrsi hc hc' hinfo hf hnf hin hni hs ht =>
    rw [hc] at hth
    by_cases hab : info.internalDeciderIsAbandoned = false ∨ c.asks = none
    · exact inside rfl hc (hc'.trans hc) hrsi hin hab (own_info hrsi) hf hs (info_frame hrsi)
        (hth.of_inside hrsi hinfo hab)
    · obtain ⟨args, delivered, frame, rfl⟩ := asks_of_not hrsi fun h => hab (.inr h)
      obtain ⟨f, hframe, hfront, hm, hth'⟩ :=
        hth.of_abandoned hinfo (by simpa using fun h => hab (.inl h))
      refine kept hs (hc'.trans hc) ?_ fun hn => by rw [← hc]; exact hbare hn
      rw [hfront]
      exact .abandoned (by rw [hin, Heap.set_self]) (by simpa using fun h => hab (.inl h))
        (by rw [hf]; exact hframe) hm (below_top hc rfl hf hin hth')
  | abandon c rsi info rest hrsi hc hc' hinfo hab hf hnf hin hni hs ht =>
    rw [hc] at hth
    have hth' := hth.of_inside hrsi hinfo (.inl hab)
    rw [named hc hrsi hinfo] at hs
    by_cases hasks : c.asks = none
    · rw [hasks] at hs
      exact inside rfl hc (hc'.trans hc) hrsi hin (.inr hasks) (own_info hrsi) hf hs
        (info_frame hrsi) hth'
    · obtain ⟨args, delivered, frame, rfl⟩ := asks_of_not hrsi hasks
      obtain ⟨tss, a, state, f, hown, rfl, hstate, hfront, hframe, hset⟩ := hs
      obtain rfl : own = some a := by rw [← hown, hslot, TssSlot.own]
      rw [front_threadLocal hslot, Option.bind_some, hstate, Option.bind_some, hfront] at hth'
      refine set rfl hset (hc'.trans hc) (.abandoned (by rw [hin, Heap.set_self]) rfl
        (by rw [hf]; exact hframe) hth'.front_mem (below_top hc rfl hf hin hth'))
  | resume c rsi info rest hrsi hc hc' hinfo hab hf hnf hin hni hs ht =>
    rw [hc] at hth
    rw [named hc hrsi hinfo] at hs
    by_cases hasks : c.asks = none
    · rw [hasks] at hs
      exact inside rfl hc (hc'.trans hc) hrsi hin (.inr hasks) (own_info hrsi) hf hs
        (info_frame hrsi) (hth.of_inside hrsi hinfo (.inr hasks))
    · obtain ⟨args, delivered, frame, rfl⟩ := asks_of_not hrsi hasks
      obtain ⟨f, -, -, -, hth'⟩ := hth.of_abandoned hinfo hab
      obtain ⟨tss, a, state, f, hown, rfl, -, -, -, hset⟩ := hs
      obtain rfl : own = some a := by rw [← hown, hslot, TssSlot.own]
      exact set rfl hset (hc'.trans hc) (.inside rfl (by rw [hin, Heap.set_self]) (.inl rfl)
        (below_top hc rfl hf hin hth'))
  | jump args delivered frame rsi info tss old mid rest hmid hc hc' hinfo hab hf hnf hin hni hs ht =>
    have hgone : s.calls = (.raise args delivered (.asking frame rsi) :: mid ++
        [.sigguarded frame tss old false]) ++ rest := by simpa using hc
    have hn : own ≠ none := by
      intro hn
      have hnone := List.filterMap_eq_nil_iff.mp (hbare hn) (.sigguarded frame tss old false)
        (by rw [hc]; simp)
      cases hnone
    rw [hc] at hth
    obtain ⟨f, hframe, hfront, -, hth'⟩ := hth.of_abandoned hinfo hab
    obtain ⟨front', hth'⟩ := hth'.drop
    cases hth' with
    | guarded hth' hf' =>
      obtain rfl := Option.some.inj (hframe.symm.trans hf')
      refine kept hs hc' ?_ fun h => absurd h hn
      rw [hfront]
      refine Guarded.below hst hgone hth' (fun a _ hna => ?_) fun a _ hna => ?_
      · rw [hf]
        refine if_neg ?_
        simpa [eq_comm (a := a)] using hna
      · rw [hin]
        refine if_neg ?_
        simpa using hna
    | light hl => exact hl.elim
    | inside hr => cases hr
  | jumpGlobal args delivered item current rsi sa info rest hc hc' hinfo hab hf hnf hin hni hs ht =>
    rw [hc] at hth
    exact kept hs hc' (below_top hc rfl hf hin (hth.of_inside rfl hinfo (.inr rfl))) fun hn => by
      simpa [hc] using hbare hn
  | ret value frame tss old recovering rest hc hc' hf hnf hin hni hs ht =>
    have hn : own ≠ none := fun hn => by simpa [hc] using hbare hn
    have below : ∀ {front : Option Addr}, Threads s.frames s.infos own rest front →
        Threads s'.frames s'.infos own rest front := by
      intro front ht
      refine Guarded.below hst
        (show s.calls = [.sigguarded frame tss old recovering] ++ rest from hc) ht
        (fun a _ hna => ?_) fun a _ _ => by rw [hin]
      rw [hf, Heap.set_other]
      rintro rfl
      exact hna (by simp)
    rw [hc] at hth
    generalize hfront : s.store.front = front at hth
    cases hth with
    | guarded h hframe => exact set rfl hs hc' (below h)
    | recovering h => exact kept hs hc' (below (hfront ▸ h)) fun h => absurd h hn
    | light hl => exact hl.elim
    | inside hr => cases hr

end

/-- Without an abandoned decider every active guard is on the stack. -/
theorem standing_active {infos : Heap Siginfo} {calls : List GuardCall}
    (h : ∀ c ∈ calls, c.abandoned infos = false) :
    standing infos calls = calls.filterMap GuardCall.active := by
  induction calls with
  | nil => rfl
  | cons c rest ih =>
    have hrest := ih fun b hb => h b (List.mem_cons_of_mem _ hb)
    cases c with
    | sigguarded frame tss old recovering =>
      cases recovering with
      | true => exact hrest
      | false => simp [standing, GuardCall.active, hrest]
    | raise args delivered pc =>
      have habs := h _ List.mem_cons_self
      rw [List.filterMap_cons_none rfl, ← hrest]
      cases pc with
      | asking => simp [standing, habs]
      | _ => rfl

/-- A `sigguarded` call, from the state it is made in to the one it has returned in. -/
inductive GuardReturns (p : Platform) (s : GuardState) : GuardState → Prop where
  /-- The storage of the thread could not be set up. -/
  | failed (signals : SigSet) (recovery : Bool) (decider : Nat) (value : Int) (env : SetupEnv)
      {s' : GuardState} (h : guardStep p s (.sigguarded signals recovery decider value env) = .ok s')
      (hl : s'.calls.length = s.calls.length) : GuardReturns p s s'
  | ran (signals : SigSet) (recovery : Bool) (decider : Nat) (value result : Int) (env : SetupEnv)
      {inner last s' : GuardState}
      (h : guardStep p s (.sigguarded signals recovery decider value env) = .ok inner)
      (hl : inner.calls.length = s.calls.length + 1)
      (hr : Run (guardStep p) (fun u _ => s.calls.length < u.calls.length) inner last)
      (hlast : last.calls.length = s.calls.length + 1)
      (hret : guardStep p last (.ret result) = .ok s') : GuardReturns p s s'

section

variable {s s' : GuardState} {act : GuardAction} {frame : Addr} {tss old : Option Addr}
  {base calls rest xs : List GuardCall}

/-- The call is in progress on top of `base`. -/
def Underway (frame : Addr) (tss old : Option Addr) (base calls : List GuardCall) : Prop :=
  ∃ recovering, (.sigguarded frame tss old recovering :: base) <:+ calls

theorem Underway.cons (h : Underway frame tss old base rest) (c : GuardCall) :
    Underway frame tss old base (c :: rest) := by
  obtain ⟨recovering, h⟩ := h
  exact ⟨recovering, h.trans (List.suffix_cons c rest)⟩

theorem Underway.append (h : Underway frame tss old base rest) (xs : List GuardCall) :
    Underway frame tss old base (xs ++ rest) := by
  obtain ⟨recovering, h⟩ := h
  exact ⟨recovering, h.trans (List.suffix_append xs rest)⟩

/-- Calls on top that have ended did not hold it. -/
theorem Underway.drop (h : Underway frame tss old base (xs ++ rest))
    (hl : base.length < rest.length) : Underway frame tss old base rest := by
  obtain ⟨recovering, h⟩ := h
  exact ⟨recovering, List.suffix_of_suffix_length_le h (List.suffix_append xs rest) hl⟩

theorem Underway.of_raise {c : GuardCall} (h : Underway frame tss old base (c :: rest))
    (hc : c.frame = none) : Underway frame tss old base rest := by
  obtain ⟨recovering, h⟩ := h
  rcases List.suffix_cons_iff.mp h with h | h
  · obtain ⟨rfl, -⟩ := List.cons.inj h
    cases hc
  · exact ⟨recovering, h⟩

theorem Underway.drop_light (h : Underway frame tss old base (xs ++ rest))
    (hx : ∀ c ∈ xs, c.light) : Underway frame tss old base rest := by
  induction xs with
  | nil => exact h
  | cons c xs ih =>
    exact ih (h.of_raise (hx c List.mem_cons_self).frame) fun b hb => hx b (List.mem_cons_of_mem _ hb)

/-- As long as the stack is higher than where the call was made, the call is in progress, and
its locals are what they were. -/
theorem Underway.step (he : Underway frame tss old base s.calls) (h : GuardTurn s s' act)
    (hl : base.length < s'.calls.length) : Underway frame tss old base s'.calls := by
  -- the innermost call, a raise, is replaced by another one
  have top : ∀ {c c' : GuardCall} {rest : List GuardCall}, s.calls = c :: rest →
      c.frame = none → s'.calls = c' :: rest → Underway frame tss old base s'.calls := by
    intro c c' rest hc hcf hc'
    rw [hc] at he
    rw [hc']
    exact (he.of_raise hcf).cons c'
  -- the calls on top are gone
  have popped : ∀ {gone rest : List GuardCall}, s.calls = gone ++ rest → s'.calls = rest →
      Underway frame tss old base s'.calls := by
    intro gone rest hc hc'
    rw [hc] at he
    rw [hc'] at hl ⊢
    exact he.drop hl
  cases h with
  | shift act xs ys rest hx hy hc hc' ho hs ht =>
    rw [hc] at he
    rw [hc']
    exact (he.drop_light hx).append ys
  | guard signals recovery decider value env st tss state hk hown hlive hc' =>
    rw [hc']
    exact he.cons _
  | ask args delivered frame f rest info hc hc' => exact top hc rfl hc'
  | askFirst args delivered item current value sa rest info hc hc' => exact top hc rfl hc'
  | askNext args delivered item current next rsi value sa rest old info hc hc' =>
    exact top hc rfl hc'
  | answer d c rsi info ys rest hrsi hy hc hc' =>
    rw [hc] at he
    rw [hc']
    exact (he.of_raise (info_frame hrsi)).append ys
  | recover args delivered frame' rsi f info tss' old' mid rest hmid hc hc' =>
    obtain ⟨recovering, he⟩ := he
    rw [hc'] at hl
    have hguard : (.sigguarded frame' tss' old' false :: rest) <:+ s.calls := by
      rw [hc]
      exact (List.suffix_append mid _).trans (List.suffix_cons _ _)
    have hsuffix := List.suffix_of_suffix_length_le he hguard
      (by simpa only [List.length_cons, Nat.succ_le_succ_iff] using Nat.lt_succ_iff.mp hl)
    rw [hc']
    rcases List.suffix_cons_iff.mp hsuffix with h | h
    · -- it is the guard whose recovery function is called
      obtain ⟨heq, rfl⟩ := List.cons.inj h
      cases heq
      exact ⟨true, List.suffix_refl _⟩
    · exact ⟨recovering, h.trans (List.suffix_cons _ _)⟩
  | write pub c rsi info rest hrsi hc hc' | abandon c rsi info rest hrsi hc hc'
  | resume c rsi info rest hrsi hc hc' =>
    rw [hc']
    exact he
  | jump args delivered frame' rsi info tss' old' mid rest hmid hc hc' =>
    have hgone : s.calls = (.raise args delivered (.asking frame' rsi) ::
      (mid ++ [.sigguarded frame' tss' old' false])) ++ rest := by simpa using hc
    exact popped hgone hc'
  | jumpGlobal args delivered item current rsi sa info rest hc hc' =>
    exact popped (show s.calls = [_] ++ rest from hc) hc'
  | ret value frame' tss' old' recovering rest hc hc' =>
    exact popped (show s.calls = [_] ++ rest from hc) hc'

/-- What every reachable state of the thread satisfies. -/
def Disciplined (s : GuardState) : Prop := Stacked s ∧ ∃ own, Guarded s own

theorem Disciplined.step (hi : Disciplined s) (h : GuardTurn s s' act) : Disciplined s' := by
  obtain ⟨hst, own, hg⟩ := hi
  obtain ⟨own', hg', -⟩ := hg.step hst h
  exact ⟨hst.step h, own', hg'⟩

theorem disciplined_initial (g : Global) : Disciplined (.initial true g) :=
  ⟨stacked_initial true g, none, guarded_initial g⟩

theorem Disciplined.run {p : Platform} {ok : GuardState → GuardAction → Prop}
    (hi : Disciplined s) (hr : Run (guardStep p) ok s s') : Disciplined s' :=
  hr.invariant hi fun _ _ _ hi _ h => hi.step (guardStep_turns h)

end

section

variable {p : Platform} {s s' : GuardState}

/-- A `sigguarded` call either fails to set the storage up, or keeps the front of the guard
stack in its `old`. -/
theorem sigguarded_pushes {signals : SigSet} {recovery : Bool} {decider : Nat} {value : Int}
    {env : SetupEnv} (hi : Disciplined s)
    (h : guardStep p s (.sigguarded signals recovery decider value env) = .ok s') :
    (s'.calls = s.calls ∧ s'.store.front = s.store.front) ∨
      ∃ tss, s'.calls = .sigguarded s.nextFrame tss s.store.front false :: s.calls := by
  obtain ⟨-, own, hg⟩ := hi
  obtain ⟨own', hslot', hfront, -⟩ := (init_kept s.store env).front hg.slot
  simp only [guardStep] at h
  split at h
  · simp only [pushGuard] at h
    split at h
    · obtain rfl := pure_ok.mp h
      exact .inl ⟨rfl, hfront⟩
    · simp only [bind_ok, Heap.read_ok, pure_ok] at h
      obtain ⟨tss, hfind, state, ⟨a, rfl, ha⟩, store, hset, rfl⟩ := h
      refine .inr ⟨some a, ?_⟩
      have hown := find_own hfind
      rw [store_setStore, hslot', TssSlot.own] at hown
      have hstate : state.front = s.store.front := by
        rw [← hfront, front_threadLocal hslot', hown, Option.bind_some]
        exact (congrArg (Option.bind · ThreadState.front) ha).symm
      rw [← hstate]
      rfl
  · simp at h

/-- The return of a `sigguarded` call puts its `old` back. -/
theorem ret_restores {frame : Addr} {tss old : Option Addr} {recovering : Bool}
    {rest : List GuardCall} {value : Int} (hi : Disciplined s)
    (hc : s.calls = .sigguarded frame tss old recovering :: rest)
    (h : guardStep p s (.ret value) = .ok s') :
    s'.calls = rest ∧ s'.store.front = old := by
  obtain ⟨-, own, hg⟩ := hi
  have hth := hg.threads
  rw [hc] at hth
  simp only [guardStep, returnSection, hc] at h
  split at h
  · rename_i hr
    obtain rfl := pure_ok.mp h
    refine ⟨rfl, ?_⟩
    generalize hfront : s.store.front = front at hth
    cases hth with
    | recovering => exact hfront
    | guarded => cases hr
    | light hl => exact hl.elim
    | inside hrsi => cases hrsi
  · obtain ⟨store, hset, h⟩ := bind_ok.mp h
    obtain rfl := pure_ok.mp h
    have hown : tss = own := by
      generalize s.store.front = front at hth
      cases hth with
      | guarded | recovering => rfl
      | light hl => exact hl.elim
      | inside hrsi => cases hrsi
    exact ⟨rfl, ((frontSet_of_ok hset).front (hown ▸ hg.slot)).2⟩

theorem GuardReturns.restores (hi : Disciplined s) (h : GuardReturns p s s') :
    s'.calls = s.calls ∧ s'.store.front = s.store.front := by
  cases h with
  | failed signals recovery decider value env h hl =>
    rcases sigguarded_pushes hi h with h | ⟨tss, hc⟩
    · exact h
    · rw [hc, List.length_cons] at hl
      exact absurd hl (Nat.succ_ne_self _)
  | @ran signals recovery decider value result env inner last _ h hl hr hlast hret =>
    rcases sigguarded_pushes hi h with ⟨hc, -⟩ | ⟨tss, hc⟩
    · rw [hc] at hl
      exact absurd hl.symm (Nat.succ_ne_self _)
    · have hinner : Disciplined inner := hi.step (guardStep_turns h)
      have hunder : Underway s.nextFrame tss s.store.front s.calls inner.calls :=
        ⟨false, hc ▸ List.suffix_refl _⟩
      -- while the call runs, the stack stays higher than it was before
      have hwhile : s.calls.length < last.calls.length →
          Underway s.nextFrame tss s.store.front s.calls last.calls := by
        clear hret hlast
        induction hr with
        | refl => exact fun _ => hunder
        | tail a _ hu hs ih => exact fun hv => (ih hu).step (guardStep_turns hs) hv
      obtain ⟨recovering, hsuffix⟩ := hwhile (by rw [hlast]; exact Nat.lt_succ_self _)
      have htop := hsuffix.eq_of_length (by rw [hlast, List.length_cons])
      exact ret_restores (hinner.run hr) htop.symm hret

end

/-- The front of the guard stack links the frames of exactly the active guards, innermost first,
whenever no decider has been abandoned; a recovery function runs with those outside its own; and
every `sigguarded` call leaves the front as it found it. -/
theorem guard_stack_discipline (p : Platform) (g : Global) {s : GuardState}
    (hr : Run (guardStep p) (fun _ _ => True) (.initial true g) s) :
    ((∀ c ∈ s.calls, c.abandoned s.infos = false) →
      Chain s.frames s.store.front s.activeGuards) ∧
    (∀ frame tss old rest, s.calls = .sigguarded frame tss old true :: rest →
      (∀ c ∈ rest, c.abandoned s.infos = false) →
      Chain s.frames s.store.front (rest.filterMap GuardCall.active)) ∧
    ∀ s', GuardReturns p s s' → s'.calls = s.calls ∧ s'.store.front = s.store.front := by
  have hi : Disciplined s := (disciplined_initial g).run hr
  obtain ⟨-, own, hg⟩ := id hi
  have hchain := hg.threads.chain
  refine ⟨fun h => ?_, fun frame tss old rest hc h => ?_, fun s' h => h.restores hi⟩
  · rw [standing_active h] at hchain
    exact hchain
  · rw [hc] at hchain
    rw [← standing_active h]
    exact hchain

/-- Two guards for signal 1, of which the inner one recovers from a raise. -/
theorem guard_stack_discipline_recovered :
    ∃ s s', Run (guardStep .tiny) (fun _ _ => True)
        (.initial true (State.initial fun _ => .dfl).g) s ∧
      GuardReturns .tiny s s' ∧ s.store.front = some 0 ∧ Chain s.frames (some 0) [0] ∧
      s'.store.front = some 0 := by
  obtain ⟨s, hr, hq⟩ := run_of_ends (f := guardStep .tiny) (r := fun _ _ => True)
    (s := .initial true (State.initial fun _ => .dfl).g) (c := fun _ _ => true)
    (q := fun s => s.store.front == some 0 && s.activeGuards == [0] &&
      (s.calls.all fun c => !c.abandoned s.infos) &&
      okAnd (guardStep .tiny s (.sigguarded (· == 1) true 1 7 {})) fun inner =>
        inner.calls.length == s.calls.length + 1 &&
        ends (guardStep .tiny) (fun u _ => decide (s.calls.length < u.calls.length))
          (fun last => last.calls.length == s.calls.length + 1 &&
            okAnd (guardStep .tiny last (.ret 5)) fun _ => true)
          inner [.raise { signo := 1 } {}, .advance, .decide .callRecovery])
    (l := [.sigguarded (· == 1) true 0 3 {}]) (fun _ _ _ => trivial) (by decide)
  simp only [Bool.and_eq_true, beq_iff_eq, okAnd_iff, List.all_eq_true, Bool.not_eq_true'] at hq
  obtain ⟨⟨⟨hfront, hactive⟩, hab⟩, inner, hinner, hl, hends⟩ := hq
  obtain ⟨last, hrun, hlast⟩ := run_of_ends
    (r := fun (u : GuardState) _ => s.calls.length < u.calls.length)
    (fun _ _ h => of_decide_eq_true h) hends
  simp only [Bool.and_eq_true, beq_iff_eq, okAnd_iff, and_true] at hlast
  obtain ⟨hlast, s', hret⟩ := hlast
  have hreturns : GuardReturns .tiny s s' :=
    .ran (· == 1) true 1 7 5 {} hinner hl hrun hlast hret
  obtain ⟨hchain, -, hrestores⟩ := guard_stack_discipline .tiny _ hr
  have hchain := hchain hab
  rw [hfront, hactive] at hchain
  exact ⟨s, s', hr, hreturns, hfront, hchain, (hrestores s' hreturns).2.trans hfront⟩

end Wg14Signals
