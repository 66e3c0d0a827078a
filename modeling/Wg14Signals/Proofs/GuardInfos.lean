import Wg14Signals.Proofs.GuardStack

namespace Wg14Signals
open Lib

/-- Does the decider that takes the step return, or change its `stdc_siginfo`? -/
def GuardAction.owns : GuardAction → Bool
  | .write _ => true
  | .abandon => true
  | .resume => true
  | .decide _ => true
  | _ => false

/-- Does the decider that takes the step return, or write to its `stdc_siginfo`? -/
def GuardAction.writes : GuardAction → Bool
  | .write _ => true
  | .decide _ => true
  | _ => false

/-- The calls of `s` are all in progress still, and their own code takes none of the steps. -/
def Amid (own : GuardAction → Bool) (s u : GuardState) (act : GuardAction) : Prop :=
  s.calls <:+ u.calls ∧ (u.calls = s.calls → own act = false)

section

variable {s s' : GuardState} {act : GuardAction} {base : List GuardCall} {rsi : Addr}

theorem Stacked.info_lt (hi : Stacked s) (hb : base <:+ s.calls)
    (hm : rsi ∈ base.filterMap GuardCall.info) : rsi < s.nextInfo :=
  hi.infoBound rsi ((hb.sublist.filterMap GuardCall.info).subset hm)

theorem Stacked.info_ne (hi : Stacked s) {gone rest : List GuardCall} (hc : s.calls = gone ++ rest)
    (hb : base <:+ rest) (hm : rsi ∈ base.filterMap GuardCall.info) :
    rsi ∉ gone.filterMap GuardCall.info := by
  obtain ⟨c, hcm, hr⟩ := List.mem_filterMap.mp hm
  exact hi.apart hc (hb.subset hcm) hr

/-- A step changes no `stdc_siginfo` of a call that stays in progress, but that of the
innermost one, whose decider takes the step. -/
theorem GuardTurn.infos_kept (hi : Stacked s) (h : GuardTurn s s' act) (hb : base <:+ s.calls)
    (hb' : base <:+ s'.calls) (hm : rsi ∈ base.filterMap GuardCall.info)
    (hown : s.calls = base → act.owns = false) : s'.infos rsi = s.infos rsi := by
  -- the decider of the innermost call takes the step
  have top : ∀ {c : GuardCall} {rest : List GuardCall} {rsi' : Addr} {info : Option Siginfo},
      s.calls = c :: rest → c.info = some rsi' → act.owns = true →
      s'.infos = s.infos.set rsi' info → s'.infos rsi = s.infos rsi := by
    intro c rest rsi' info hc hr ho hin
    rw [hc] at hb
    rcases List.suffix_cons_iff.mp hb with heq | hb
    · rw [hown (hc.trans heq.symm)] at ho
      cases ho
    · have hne := hi.info_ne (show s.calls = [c] ++ rest from hc) hb hm
      rw [List.filterMap_cons_some hr, List.filterMap_nil, List.mem_singleton] at hne
      rw [hin, Heap.set_other _ _ hne]
  -- a new decider is called
  have fresh : ∀ {info : Option Siginfo}, s'.infos = s.infos.set s.nextInfo info →
      s'.infos rsi = s.infos rsi := by
    intro info hin
    rw [hin, Heap.set_other _ _ (Nat.ne_of_lt (hi.info_lt hb hm))]
  -- the calls on top are gone
  have popped : ∀ {gone rest : List GuardCall}, s.calls = gone ++ rest → base <:+ rest →
      (∀ a, a ∉ gone.filterMap GuardCall.info → s'.infos a = s.infos a) →
      s'.infos rsi = s.infos rsi := by
    intro gone rest hc hbr hn
    exact hn rsi (hi.info_ne hc hbr hm)
  cases h with
  | shift act xs ys rest hx hy hc hc' ho => rw [ho.infos]
  | guard signals recovery decider value env st tss state hk hown' hlive hc' hf hnf hin => rw [hin]
  | ask args delivered frame f rest info hc hc' hframe hset hinfo hf hnf hin => exact fresh hin
  | askFirst args delivered item current value sa rest info hc hc' he hinfo hf hnf hin =>
    exact fresh hin
  | askNext args delivered item current next rsi' value sa rest old info hc hc' hold hab he hinfo
      hf hnf hin => exact top hc rfl rfl hin
  | answer d c rsi' info ys rest hrsi hy hc hc' hinfo hab hf hnf hin => exact top hc hrsi rfl hin
  | recover args delivered frame rsi' f info tss old mid rest hmid hc hc' hinfo hab hframe hrec hf
      hnf hin =>
    have hgone : s.calls = (.raise args delivered (.asking frame rsi') :: mid) ++
        (.sigguarded frame tss old false :: rest) := by simpa using hc
    -- the guard has no `stdc_siginfo` of its own, so those below it are all that matters
    have hb'' : base <:+ .sigguarded frame tss old true :: rest := hc' ▸ hb'
    have hm' : rsi ∈ rest.filterMap GuardCall.info :=
      (hb''.sublist.filterMap GuardCall.info).subset hm
    obtain ⟨c, hcm, hr⟩ := List.mem_filterMap.mp hm'
    rw [hin]
    exact if_neg (hi.apart hgone (List.mem_cons_of_mem _ hcm) hr)
  | write pub c rsi' info rest hrsi hc hc' hinfo hf hnf hin => exact top hc hrsi rfl hin
  | abandon c rsi' info rest hrsi hc hc' hinfo hab hf hnf hin => exact top hc hrsi rfl hin
  | resume c rsi' info rest hrsi hc hc' hinfo hab hf hnf hin => exact top hc hrsi rfl hin
  | jump args delivered frame rsi' info tss old mid rest hmid hc hc' hinfo hab hf hnf hin =>
    have hgone : s.calls = (.raise args delivered (.asking frame rsi') ::
      (mid ++ [.sigguarded frame tss old false])) ++ rest := by simpa using hc
    refine popped hgone (hc' ▸ hb') fun a ha => ?_
    rw [hin]
    refine if_neg ?_
    simpa using ha
  | jumpGlobal args delivered item current rsi' sa info rest hc hc' hinfo hab hf hnf hin =>
    refine popped (show s.calls = [_] ++ rest from hc) (hc' ▸ hb') fun a ha => ?_
    rw [hin, Heap.set_other _ _ (by simpa using ha)]
  | ret value frame tss old recovering rest hc hc' hf hnf hin => rw [hin]

/-- Over such steps the `stdc_siginfo`s of the calls stay as they are. -/
theorem infos_kept_run {p : Platform} (hi : Stacked s)
    (hr : Run (guardStep p) (Amid GuardAction.owns s) s s') (hb : s.calls <:+ s'.calls)
    (hm : rsi ∈ s.calls.filterMap GuardCall.info) :
    Stacked s' ∧ s'.infos rsi = s.infos rsi := by
  induction hr with
  | refl => exact ⟨hi, rfl⟩
  | tail act _ hu hs ih =>
    obtain ⟨hiu, hkept⟩ := ih hu.1
    have ht := guardStep_turns hs
    exact ⟨hiu.step ht, (ht.infos_kept hiu hu.1 hb hm hu.2).trans hkept⟩

/-- What abandoning and resuming leave of the `stdc_siginfo` of the innermost decider. -/
theorem GuardTurn.public_kept (hi : Stacked s) (h : GuardTurn s s' act) (hb : base <:+ s.calls)
    (hb' : base <:+ s'.calls) (hm : rsi ∈ base.filterMap GuardCall.info)
    (hown : s.calls = base → act.writes = false) :
    (s'.infos rsi).map Siginfo.toPublicInfo = (s.infos rsi).map Siginfo.toPublicInfo := by
  by_cases hc : s.calls = base
  · by_cases ho : act.owns = true
    · -- only the flag is written
      have flag : ∀ {rsi' : Addr} {info info' : Siginfo}, s.infos rsi' = some info →
          s'.infos = s.infos.set rsi' (some info') → info'.toPublicInfo = info.toPublicInfo →
          (s'.infos rsi).map Siginfo.toPublicInfo = (s.infos rsi).map Siginfo.toPublicInfo := by
        intro rsi' info info' hinfo hin heq
        by_cases hr : rsi = rsi'
        · subst hr
          rw [hin, Heap.set_self, hinfo, Option.map_some, Option.map_some, heq]
        · rw [hin, Heap.set_other _ _ hr]
      have hw := hown hc
      cases h with
      | abandon c rsi' info rest hrsi hc hc' hinfo hab hf hnf hin => exact flag hinfo hin rfl
      | resume c rsi' info rest hrsi hc hc' hinfo hab hf hnf hin => exact flag hinfo hin rfl
      | shift act xs ys rest hx hy hc hc' ho => rw [ho.infos]
      | write | askNext | answer | recover => cases hw
      | _ => cases ho
    · rw [h.infos_kept hi hb hb' hm fun _ => by simpa using ho]
  · rw [h.infos_kept hi hb hb' hm fun h => absurd h hc]

theorem public_kept_run {p : Platform} (hi : Stacked s)
    (hr : Run (guardStep p) (Amid GuardAction.writes s) s s') (hb : s.calls <:+ s'.calls)
    (hm : rsi ∈ s.calls.filterMap GuardCall.info) :
    Stacked s' ∧
      (s'.infos rsi).map Siginfo.toPublicInfo = (s.infos rsi).map Siginfo.toPublicInfo := by
  induction hr with
  | refl => exact ⟨hi, rfl⟩
  | tail act _ hu hs ih =>
    obtain ⟨hiu, hkept⟩ := ih hu.1
    have ht := guardStep_turns hs
    exact ⟨hiu.step ht, (ht.public_kept hiu hu.1 hb hm hu.2).trans hkept⟩

end

section

variable {s s' : GuardState} {act : GuardAction} {frame : Addr} {tss old : Option Addr}

/-- A guard that is active after a step, and was there before, was active before, and its frame
is as it was. -/
theorem GuardTurn.frames_kept (hi : Stacked s) (h : GuardTurn s s' act) (hlt : frame < s.nextFrame)
    (hm' : .sigguarded frame tss old false ∈ s'.calls) :
    .sigguarded frame tss old false ∈ s.calls ∧ s'.frames frame = s.frames frame := by
  -- the innermost call, a raise, gives way to others
  have raised : ∀ {c : GuardCall} {ys rest : List GuardCall}, s.calls = c :: rest →
      s'.calls = ys ++ rest → (∀ c ∈ ys, c.frame = none) → s'.frames = s.frames →
      .sigguarded frame tss old false ∈ s.calls ∧ s'.frames frame = s.frames frame := by
    intro c ys rest hc hc' hy hf
    rw [hc'] at hm'
    rcases List.mem_append.mp hm' with hm' | hm'
    · cases hy _ hm'
    · exact ⟨by rw [hc]; exact List.mem_cons_of_mem _ hm', by rw [hf]⟩
  have same : s'.calls = s.calls → s'.frames = s.frames →
      .sigguarded frame tss old false ∈ s.calls ∧ s'.frames frame = s.frames frame :=
    fun hc' hf => ⟨hc' ▸ hm', by rw [hf]⟩
  have inside : ∀ {rest : List GuardCall}, .sigguarded frame tss old false ∈ rest →
      frame ∈ rest.filterMap GuardCall.frame :=
    fun hm => List.mem_filterMap.mpr ⟨_, hm, rfl⟩
  cases h with
  | shift act xs ys rest hx hy hc hc' ho =>
    rw [hc'] at hm'
    rcases List.mem_append.mp hm' with hm' | hm'
    · exact (hy _ hm').elim
    · exact ⟨by rw [hc]; exact List.mem_append.mpr (.inr hm'), by rw [ho.frames]⟩
  | guard signals recovery decider value env st tss' state hk hown hlive hc' hf =>
    rw [hc'] at hm'
    rcases List.mem_cons.mp hm' with heq | hm'
    · cases heq
      exact absurd hlt (Nat.lt_irrefl _)
    · exact ⟨hm', by rw [hf, Heap.set_other _ _ (Nat.ne_of_lt hlt)]⟩
  | ask args delivered frame' f rest info hc hc' hframe hset hinfo hf =>
    exact raised hc (show s'.calls = [_] ++ rest from hc') (by simp) hf
  | askFirst args delivered item current value sa rest info hc hc' he hinfo hf =>
    exact raised hc (show s'.calls = [_] ++ rest from hc') (by simp) hf
  | askNext args delivered item current next rsi value sa rest old' info hc hc' hold hab he hinfo
      hf => exact raised hc (show s'.calls = [_] ++ rest from hc') (by simp) hf
  | answer d c rsi info ys rest hrsi hy hc hc' hinfo hab hf =>
    exact raised hc hc' (fun c hc => (hy c hc).frame) hf
  | recover args delivered frame' rsi f info tss' old' mid rest hmid hc hc' hinfo hab hframe hrec
      hf =>
    have hgone : s.calls = (.raise args delivered (.asking frame' rsi) :: mid ++
        [.sigguarded frame' tss' old' false]) ++ rest := by simpa using hc
    rw [hc'] at hm'
    rcases List.mem_cons.mp hm' with heq | hm'
    · cases heq
    · refine ⟨by rw [hgone]; exact List.mem_append.mpr (.inr hm'), ?_⟩
      have hna := hi.apartFrame hgone (inside hm')
      simp only [List.cons_append, frame_raise, List.filterMap_cons, List.filterMap_append,
        frame_sigguarded, List.filterMap_nil, List.mem_append, List.mem_singleton,
        not_or] at hna
      rw [hf]
      exact (if_neg hna.1).trans (Heap.set_other _ _ hna.2)
  | write pub c rsi info rest hrsi hc hc' hinfo hf => exact same hc' hf
  | abandon c rsi info rest hrsi hc hc' hinfo hab hf => exact same hc' hf
  | resume c rsi info rest hrsi hc hc' hinfo hab hf => exact same hc' hf
  | jump args delivered frame' rsi info tss' old' mid rest hmid hc hc' hinfo hab hf =>
    have hgone : s.calls = (.raise args delivered (.asking frame' rsi) :: mid ++
        [.sigguarded frame' tss' old' false]) ++ rest := by simpa using hc
    rw [hc'] at hm'
    refine ⟨by rw [hgone]; exact List.mem_append.mpr (.inr hm'), ?_⟩
    have hna := hi.apartFrame hgone (inside hm')
    rw [hf]
    refine if_neg ?_
    simpa [eq_comm (a := frame)] using hna
  | jumpGlobal args delivered item current rsi sa info rest hc hc' hinfo hab hf =>
    exact raised hc (show s'.calls = [] ++ rest from hc') (by simp) hf
  | ret value frame' tss' old' recovering rest hc hc' hf =>
    rw [hc'] at hm'
    refine ⟨by rw [hc]; exact List.mem_cons_of_mem _ hm', ?_⟩
    have hna := hi.apartFrame (show s.calls = [_] ++ rest from hc) (inside hm')
    rw [hf, Heap.set_other _ _ (by simpa using hna)]

theorem GuardTurn.nextFrame_le (h : GuardTurn s s' act) : s.nextFrame ≤ s'.nextFrame := by
  cases h with
  | shift act xs ys rest hx hy hc hc' ho => rw [ho.nextFrame]
  | guard signals recovery decider value env st tss' state hk hown hlive hc' hf hnf =>
    rw [hnf]
    exact Nat.le_succ _
  | _ => simp only [*, Nat.le_refl]

theorem Unasked.silent (h : Unasked s s') {e : GuardEvent} (ht : s'.trace = e :: s.trace) :
    e.silent = true := by
  obtain ⟨es, hes, hs⟩ := h
  rw [ht, ← List.singleton_append] at hes
  rw [← List.append_cancel_right hes] at hs
  exact hs e List.mem_cons_self

theorem trace_ne_cons {e : GuardEvent} {P : Prop} (h : s'.trace = s.trace)
    (ht : s'.trace = e :: s.trace) : P :=
  absurd (ht.symm.trans h) (List.cons_ne_self _ _)

/-- A recovery function is called with the `stdc_siginfo` of the decider that asked for it. -/
theorem GuardTurn.of_recovered (hi : Stacked s) (h : GuardTurn s s' act) {info : Siginfo}
    (ht : s'.trace = .recovered frame info :: s.trace) :
    ∃ args delivered rsi f tss old mid rest,
      s.calls = .raise args delivered (.asking frame rsi) ::
        (mid ++ .sigguarded frame tss old false :: rest) ∧
      s'.calls = .sigguarded frame tss old true :: rest ∧
      s.infos rsi = some info ∧ s'.frames frame = some f ∧ f.rsi = info := by
  cases h with
  | shift act xs ys rest hx hy hc hc' ho hs hu => cases hu.silent ht
  | answer d c rsi info ys rest hrsi hy hc hc' hinfo hab hf hnf hin hni hs hu => cases hu.silent ht
  | recover args delivered frame' rsi f info' tss old mid rest hmid hc hc' hinfo hab hframe hrec hf
      hnf hin hni hs hu =>
    obtain ⟨heq, -⟩ := List.cons.inj (hu.symm.trans ht)
    cases heq
    have hgone : s.calls = (.raise args delivered (.asking frame rsi) :: mid) ++
        (.sigguarded frame tss old false :: rest) := by simpa using hc
    have hna : frame ∉ mid.filterMap GuardCall.frame := by
      have := hi.apartFrame hgone (a := frame) List.mem_cons_self
      rwa [List.filterMap_cons_none (frame_raise _ _ _)] at this
    refine ⟨args, delivered, rsi, { f with rsi := info }, tss, old, mid, rest, hc, hc', hinfo, ?_,
      rfl⟩
    rw [hf]
    exact (if_neg hna).trans (Heap.set_self _ _ _)
  | guard | write | abandon | resume | jump | jumpGlobal => exact trace_ne_cons ‹_› ht
  | ask args delivered frame' f rest info hc hc' hframe hset hinfo hf hnf hin hni hs hu =>
    cases (List.cons.inj (hu.symm.trans ht)).1
  | askFirst args delivered item current value sa rest info hc hc' he hinfo hf hnf hin hni hs hu =>
    cases (List.cons.inj (hu.symm.trans ht)).1
  | askNext args delivered item current next rsi value sa rest old info hc hc' hold hab he hinfo hf
      hnf hin hni hs hu => cases (List.cons.inj (hu.symm.trans ht)).1
  | ret value frame' tss old recovering rest hc hc' hf hnf hin hni hs hu =>
    cases (List.cons.inj (hu.symm.trans ht)).1

/-- The decider of a frame is called with the value of the frame. -/
theorem GuardTurn.of_asked (h : GuardTurn s s' act) {args : RaiseArgs} {info : Siginfo}
    (ht : s'.trace = .asked args (.frame frame) info :: s.trace) :
    ∃ delivered f rest, s.calls = .raise args delivered (.walk (some frame)) :: rest ∧
      s'.calls = .raise args delivered (.asking frame s.nextInfo) :: rest ∧
      s.frames frame = some f ∧ s'.infos = s.infos.set s.nextInfo (some info) ∧
      info.toPublicInfo = args.presents f.rsi.value := by
  cases h with
  | shift act xs ys rest hx hy hc hc' ho hs hu => cases hu.silent ht
  | answer d c rsi info ys rest hrsi hy hc hc' hinfo hab hf hnf hin hni hs hu => cases hu.silent ht
  | ask args' delivered frame' f rest info' hc hc' hframe hset hinfo hf hnf hin hni hs hu =>
    obtain ⟨heq, -⟩ := List.cons.inj (hu.symm.trans ht)
    cases heq
    refine ⟨delivered, f, rest, hc, hc', hframe, hin, ?_⟩
    rw [hinfo]
    exact congrArg (fun pub : PublicInfo => { pub with value := f.rsi.value })
      (prepareRsi_public {} args)
  | guard | write | abandon | resume | jump | jumpGlobal => exact trace_ne_cons ‹_› ht
  | askFirst args delivered item current value sa rest info hc hc' he hinfo hf hnf hin hni hs hu =>
    cases (List.cons.inj (hu.symm.trans ht)).1
  | askNext args delivered item current next rsi value sa rest old info hc hc' hold hab he hinfo hf
      hnf hin hni hs hu => cases (List.cons.inj (hu.symm.trans ht)).1
  | recover args delivered frame' rsi f info' tss old mid rest hmid hc hc' hinfo hab hframe hrec hf
      hnf hin hni hs hu => cases (List.cons.inj (hu.symm.trans ht)).1
  | ret value frame' tss old recovering rest hc hc' hf hnf hin hni hs hu =>
    cases (List.cons.inj (hu.symm.trans ht)).1

/-- A guard that has been entered has a new frame, which holds its value. -/
theorem GuardTurn.of_guard {signals : SigSet} {recovery : Bool} {decider : Nat} {value : Int}
    {env : SetupEnv} (h : GuardTurn s s' (.sigguarded signals recovery decider value env))
    (hc : s'.calls = .sigguarded frame tss old false :: s.calls) :
    frame < s'.nextFrame ∧ ∃ f, s'.frames frame = some f ∧ f.rsi.value = value := by
  cases h with
  | shift act xs ys rest hx hy hc₀ hc' =>
    rw [hc₀, hc'] at hc
    cases ys with
    | nil =>
      have hl := congrArg List.length hc
      simp at hl
      omega
    | cons y ys =>
      obtain ⟨rfl, -⟩ := List.cons.inj hc
      exact (hy _ List.mem_cons_self).elim
  | guard signals recovery decider value env st tss' state hk hown hlive hc' hf hnf =>
    obtain ⟨heq, -⟩ := List.cons.inj (hc'.symm.trans hc)
    cases heq
    refine ⟨by rw [hnf]; exact Nat.lt_succ_self _, _, by rw [hf, Heap.set_self], rfl⟩

/-- As long as the guard is active, its frame holds the value. -/
theorem value_kept_run {p : Platform} {ok : GuardState → GuardAction → Prop} {f : GuardFrame}
    (hi : Stacked s) (hlt : frame < s.nextFrame) (hf : s.frames frame = some f)
    (hr : Run (guardStep p) ok s s') :
    Stacked s' ∧ frame < s'.nextFrame ∧
      ∀ tss old, .sigguarded frame tss old false ∈ s'.calls → s'.frames frame = some f := by
  refine hr.invariant (I := fun s' => Stacked s' ∧ frame < s'.nextFrame ∧
    ∀ tss old, .sigguarded frame tss old false ∈ s'.calls → s'.frames frame = some f)
    ⟨hi, hlt, fun _ _ _ => hf⟩ fun u act v hu _ hs => ?_
  obtain ⟨hiu, hltu, hfu⟩ := hu
  have ht := guardStep_turns hs
  refine ⟨hiu.step ht, Nat.lt_of_lt_of_le hltu ht.nextFrame_le, fun tss old hm => ?_⟩
  obtain ⟨hm, hkept⟩ := ht.frames_kept hiu hltu hm
  rw [hkept]
  exact hfu tss old hm

end

/-- Whatever the calls made inside deciders do, nested raises on the same frames included, the
`stdc_siginfo`s given to the deciders in progress stay as they are; a recovery function gets the
`stdc_siginfo` of the decider that asked for it, with the value given to `sigguarded` unless
that decider has written to it. -/
theorem nested_raises_apart (p : Platform) (asyncSafeThreadLocal : Bool) (g : Global)
    {s : GuardState}
    (hr : Run (guardStep p) (fun _ _ => True) (.initial asyncSafeThreadLocal g) s) :
    (∀ s', Run (guardStep p) (Amid GuardAction.owns s) s s' → s.calls <:+ s'.calls →
      ∀ rsi ∈ s.calls.filterMap GuardCall.info, s'.infos rsi = s.infos rsi) ∧
    (∀ act s' frame info, guardStep p s act = .ok s' →
      s'.trace = .recovered frame info :: s.trace →
      ∃ args delivered rsi rest f tss old rest',
        s.calls = .raise args delivered (.asking frame rsi) :: rest ∧ s.infos rsi = some info ∧
        s'.calls = .sigguarded frame tss old true :: rest' ∧ s'.frames frame = some f ∧
        f.rsi = info) ∧
    ∀ signals recovery decider value env inner frame tss old,
      guardStep p s (.sigguarded signals recovery decider value env) = .ok inner →
      inner.calls = .sigguarded frame tss old false :: s.calls →
      ∀ u, Run (guardStep p) (fun _ _ => True) inner u →
      ∀ act asked args given, guardStep p u act = .ok asked →
      asked.trace = .asked args (.frame frame) given :: u.trace →
      ∀ w, Run (guardStep p) (Amid GuardAction.writes asked) asked w → w.calls = asked.calls →
      ∀ act' s' info, guardStep p w act' = .ok s' →
      s'.trace = .recovered frame info :: w.trace →
      info.toPublicInfo = args.presents value := by
  have hi : Stacked s := hr.invariant (stacked_initial asyncSafeThreadLocal g)
    fun _ _ _ hi _ h => hi.step (guardStep_turns h)
  refine ⟨fun s' hr' hb rsi hm => (infos_kept_run hi hr' hb hm).2, ?_, ?_⟩
  · intro act s' frame info hs ht
    obtain ⟨args, delivered, rsi, f, tss, old, mid, rest, hc, hc', hinfo, hf, hrsi⟩ :=
      (guardStep_turns hs).of_recovered hi ht
    exact ⟨args, delivered, rsi, _, f, tss, old, rest, hc, hinfo, hc', hf, hrsi⟩
  · intro signals recovery decider value env inner frame tss old hpush hcinner u hru act asked args
      given hask htask w hrw hcw act' s' info hrec htrec
    obtain ⟨hlt, f, hf, hvalue⟩ := (guardStep_turns hpush).of_guard hcinner
    obtain ⟨hiu, hltu, hfu⟩ :=
      value_kept_run (hi.step (guardStep_turns hpush)) hlt hf hru
    obtain ⟨delivered, f', rest, hcu, hcasked, hf', hinfos, hpub⟩ :=
      (guardStep_turns hask).of_asked htask
    have hiasked := hiu.step (guardStep_turns hask)
    have hmem : u.nextInfo ∈ asked.calls.filterMap GuardCall.info := by
      rw [hcasked]
      exact List.mem_cons_self
    obtain ⟨hiw, hkept⟩ := public_kept_run hiasked hrw (hcw ▸ List.suffix_refl _) hmem
    obtain ⟨args', delivered', rsi, f'', tss', old', mid, rest', hcrec, -, hinfo, -⟩ :=
      (guardStep_turns hrec).of_recovered hiw htrec
    -- the raise that recovers is the one whose decider was called
    obtain ⟨heq, hrest⟩ := List.cons.inj ((hcw.trans hcasked).symm.trans hcrec)
    cases heq
    have hactive : f' = f := by
      have := hfu tss' old' (by rw [hcu, hrest]; simp)
      rw [hf'] at this
      exact Option.some.inj this
    rw [hinfo, hinfos, Heap.set_self, Option.map_some, Option.map_some] at hkept
    rw [Option.some.inj hkept, hpub, hactive, hvalue]

/-- A decider of a guard that was given 7 raises the same signal, which its guard declines, and
then asks for recovery. -/
theorem nested_raises_apart_recovered :
    ∃ asked w, ∃ s' : GuardState, ∃ info, Run (guardStep .tiny) (fun _ _ => True)
        (.initial true (State.initial fun _ => .dfl).g) asked ∧
      asked.calls.filterMap GuardCall.info = [0] ∧
      Run (guardStep .tiny) (Amid GuardAction.owns asked) asked w ∧
      asked.nextInfo < w.nextInfo ∧ s'.trace = .recovered 0 info :: w.trace ∧
      w.infos 0 = asked.infos 0 ∧ w.infos 0 = some info ∧
      info.toPublicInfo = (RaiseArgs.mk 1 (some ⟨4, 5, some 6⟩) (some 8)).presents 7 := by
  obtain ⟨inner, hpush, hq⟩ := okAnd_iff.mp (show okAnd
    (guardStep .tiny (.initial true (State.initial fun _ => .dfl).g)
      (.sigguarded (· == 1) true 0 7 {}))
    (fun inner => inner.calls == [.sigguarded 0 (some 0) none false] &&
      ends (guardStep .tiny) (fun _ _ => true) (fun u =>
        okAnd (guardStep .tiny u .advance) fun asked =>
          asked.trace == .asked ⟨1, some ⟨4, 5, some 6⟩, some 8⟩ (.frame 0)
            { signo := 1, errorCode := 5, addr := some 6, value := 7, rawInfo := some 4,
              rawContext := some 8, internalLocalDecider := some 0 } :: u.trace &&
          asked.calls.filterMap GuardCall.info == [0] &&
          ends (guardStep .tiny) (fun u act => asked.calls.isSuffixOf u.calls &&
              (u.calls != asked.calls || !act.owns))
            (fun w => w.calls == asked.calls && decide (asked.nextInfo < w.nextInfo) &&
              okAnd (guardStep .tiny w (.decide .callRecovery)) fun (s' : GuardState) =>
                (w.infos 0).any fun info => s'.trace == .recovered 0 info :: w.trace)
            asked [.raise ⟨1, none, none⟩ {}, .advance, .decide .nextDecider, .advance])
        inner [.raise ⟨1, some ⟨4, 5, some 6⟩, some 8⟩ {}]) = true by decide)
  simp only [Bool.and_eq_true, beq_iff_eq] at hq
  obtain ⟨hcinner, hends⟩ := hq
  obtain ⟨u, hru, hq⟩ := run_of_ends (r := fun _ _ => True) (fun _ _ _ => trivial) hends
  simp only [okAnd_iff, Bool.and_eq_true, beq_iff_eq] at hq
  obtain ⟨asked, hask, ⟨htask, hinfos⟩, hends⟩ := hq
  obtain ⟨w, hrw, hq⟩ := run_of_ends (r := Amid GuardAction.owns asked)
    (fun u act h => by
      simp only [Bool.and_eq_true, List.isSuffixOf_iff_suffix, Bool.or_eq_true, bne_iff_ne,
        Bool.not_eq_true'] at h
      exact ⟨h.1, fun hc => h.2.resolve_left (by simpa using hc)⟩) hends
  simp only [okAnd_iff, Bool.and_eq_true, beq_iff_eq, decide_eq_true_eq, Option.any_eq_true] at hq
  obtain ⟨⟨hcw, hlt⟩, s', hrec, info, hinfo, htrec⟩ := hq
  have hinit : Run (guardStep .tiny) (fun _ _ => True)
    (.initial true (State.initial fun _ => .dfl).g)
    (.initial true (State.initial fun _ => .dfl).g) := .refl _
  have hrasked := ((Run.tail _ hinit trivial hpush).trans hru).tail _ trivial hask
  have hrwrites : Run (guardStep .tiny) (Amid GuardAction.writes asked) asked w :=
    hrw.mono fun u act h => ⟨h.1, fun hc => by
      have := h.2 hc
      cases act <;> simp_all [GuardAction.owns, GuardAction.writes]⟩
  have hkept := (nested_raises_apart .tiny true _ hrasked).1 w hrw
    (hcw ▸ List.suffix_refl _) 0 (by rw [hinfos]; exact List.mem_cons_self)
  have hvalue := (nested_raises_apart .tiny true _ hinit).2.2 _ _ _ _ _ inner 0 _ _ hpush hcinner u
    hru _ asked _ _ hask htask w hrwrites hcw _ s' info hrec htrec
  exact ⟨asked, w, s', info, hrasked, hinfos, hrw, hlt, htrec, hkept, hinfo, hvalue⟩

end Wg14Signals
