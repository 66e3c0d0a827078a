import Wg14Signals.Informing
import Wg14Signals.Proofs.Dispatch
import Wg14Signals.Proofs.GuardInfos
import Wg14Signals.Proofs.WinInfos

namespace Wg14Signals
open Lib

section

variable {g g' : Global} {signo : Signo} {item current next n : Addr} {value : Int}
  {sa : Sigaction}

/-- What is handed to a decider is what its node holds. -/
theorem pinNode_value (h : pinNode g n = .ok (value, g')) :
    ∃ nd, g'.nodes n = some nd ∧ nd.value = value := by
  obtain ⟨nd, -, h⟩ := bind_ok.mp h
  obtain ⟨rfl, rfl⟩ := Prod.mk.inj (pure_ok.mp h)
  exact ⟨_, Heap.set_self _ _ _, rfl⟩

theorem raiseEnter_value (h : raiseEnter g signo = .ok (.deciding item current value sa, g')) :
    ∃ nd, g'.nodes current = some nd ∧ nd.value = value := by
  unfold raiseEnter at h
  split at h
  · cases (Prod.mk.inj (pure_ok.mp h)).1
  · obtain ⟨k, -, h⟩ := bind_ok.mp h
    split at h
    · obtain ⟨⟨v, g₁⟩, hp, h⟩ := bind_ok.mp h
      obtain ⟨heq, rfl⟩ := Prod.mk.inj (pure_ok.mp h)
      cases heq
      exact pinNode_value hp
    · obtain ⟨g₁, -, h⟩ := bind_ok.mp h
      cases (Prod.mk.inj (pure_ok.mp h)).1

theorem raiseLeave_value (h : raiseLeave g item current false = .ok (.deciding next value, g')) :
    ∃ nd, g'.nodes next = some nd ∧ nd.value = value := by
  obtain ⟨⟨after, g₁⟩, -, h⟩ := bind_ok.mp h
  simp only [Bool.false_eq_true, if_false] at h
  split at h
  · obtain ⟨⟨v, g₂⟩, hp, h⟩ := bind_ok.mp h
    obtain ⟨heq, rfl⟩ := Prod.mk.inj (pure_ok.mp h)
    cases heq
    exact pinNode_value hp
  · obtain ⟨g₂, -, h⟩ := bind_ok.mp h
    cases (Prod.mk.inj (pure_ok.mp h)).1

end

section

variable {s s' : GuardState} {act : GuardAction} {args : RaiseArgs} {who : Consulted}
  {rsi : Siginfo}

/-- A decider is given what the raise has to tell, if those before it have left it alone. -/
theorem GuardTurn.informs (h : GuardTurn s s' act) (hl : s.leavesInfo act = true)
    (ht : s'.trace = .asked args who rsi :: s.trace) :
    ∃ value, s'.valueOf who = some value ∧ rsi.toPublicInfo = args.presents value := by
  cases h with
  | shift act xs ys rest hx hy hc hc' ho hs hu => cases hu.silent ht
  | answer d c a info ys rest hrsi hy hc hc' hinfo hab hf hnf hin hni hs hu => cases hu.silent ht
  | ask args' delivered frame f rest info hc hc' hframe hset hinfo hf hnf hin hni hs hu =>
    cases (List.cons.inj (hu.symm.trans ht)).1
    refine ⟨f.rsi.value, by rw [GuardState.valueOf, hf, hframe]; rfl, ?_⟩
    rw [hinfo]
    exact congrArg (fun pub : PublicInfo => { pub with value := f.rsi.value })
      (prepareRsi_public {} args)
  | askFirst args' delivered item current value sa rest info hc hc' he hinfo hf hnf hin hni hs hu =>
    cases (List.cons.inj (hu.symm.trans ht)).1
    obtain ⟨nd, hnd, hv⟩ := raiseEnter_value he
    refine ⟨value, by rw [GuardState.valueOf, hnd, Option.map_some, hv], ?_⟩
    rw [hinfo]
    exact congrArg (fun pub : PublicInfo => { pub with value }) (prepareRsi_public {} args)
  | askNext args' delivered item current next a value sa rest old info hc hc' hold hab he hinfo hf
      hnf hin hni hs hu =>
    cases (List.cons.inj (hu.symm.trans ht)).1
    obtain ⟨nd, hnd, hv⟩ := raiseLeave_value he
    refine ⟨value, by rw [GuardState.valueOf, hnd, Option.map_some, hv], ?_⟩
    have hleft : old.toPublicInfo = args.presents old.value := by
      simpa [GuardState.leavesInfo, hc, hold] using hl
    rw [hinfo]
    exact congrArg (fun pub : PublicInfo => { pub with value }) hleft
  | guard | write | abandon | resume | jump | jumpGlobal => exact trace_ne_cons ‹_› ht
  | recover args' delivered frame a f info tss old mid rest hmid hc hc' hinfo hab hframe hrec hf
      hnf hin hni hs hu => cases (List.cons.inj (hu.symm.trans ht)).1
  | ret value frame tss old recovering rest hc hc' hf hnf hin hni hs hu =>
    cases (List.cons.inj (hu.symm.trans ht)).1

end

section

variable {w : WinPlatform} {s s' : WinState} {act : WinAction} {x : Exception} {who : Consulted}
  {rsi : Siginfo} {guard : Addr}

theorem WinTurn.informs (h : WinTurn w s act s') (hl : s.leavesInfo w act = true)
    (ht : s'.trace = .asked x who rsi :: s.trace) :
    (∃ value, s'.valueOf who = some value ∧ rsi.toPublicInfo = x.presents w value) ∧
      ∃ pc rest, s'.calls = .dispatch x pc :: rest := by
  have heard : ∀ {P : Prop}, Unheard s s' → P := fun hu => (hu.not_called (l := []) ht rfl).elim
  cases h with
  | elsewhere | guard | raise | fault | skip | exhausted | debugged | decline | write |
      writeGlobal => exact heard (.none rfl)
  | quits _ tss e ha he => 
    refine heard (.one rfl ?_)
    cases e <;> first | rfl | cases he
  | ask y guard gs todo rest tss info hc hg hset htss hrsi =>
    cases (List.cons.inj ht).1
    refine ⟨⟨gs.value, ?_, by rw [hrsi]; rfl⟩, _, _, rfl⟩
    exact congrArg (Option.map WinGuard.value) (Heap.set_self _ _ _)
  | askFirst hook y item current value sa g info last rest hh he hinfo =>
    cases (List.cons.inj ht).1
    obtain ⟨nd, hnd, hv⟩ := raiseEnter_value he
    refine ⟨⟨value, ?_, by rw [hinfo]; rfl⟩, _, _, rfl⟩
    exact (congrArg (Option.map Node.value) hnd).trans (congrArg some hv)
  | askNext d hook y item current next a value g old info rest hc hd hold he hinfo =>
    cases (List.cons.inj ht).1
    obtain ⟨nd, hnd, hv⟩ := raiseLeave_value he
    refine ⟨⟨value, ?_, ?_⟩, _, _, rfl⟩
    · exact (congrArg (Option.map Node.value) hnd).trans (congrArg some hv)
    · have hleft : old.toPublicInfo = x.presents w old.value := by
        simpa [WinState.leavesInfo, hd, hc, hold] using hl
      rw [hinfo]
      exact congrArg (fun pub : PublicInfo => { pub with value }) hleft
  | claim => exact heard (.one rfl rfl)
  | recover => cases (List.cons.inj ht).1
  | unsupported hook y rest last s' hh hx hr =>
    exact heard (passReturns_unheard (s := s.setLast last s.lastResult) hr)
  | nobody hook y e g last rest s' hh he hn hr =>
    exact heard (passReturns_unheard
      (s := ((s.setLast last s.lastResult).setG g).declined y.record) hr)
  | exhaust d hook y item current a g rest s' hc hd he hr =>
    exact heard (passReturns_unheard (s := ((s.setG g).dropInfo a).declined y.record) hr)
  | jump => exact heard (.trans (.one rfl rfl) (.one rfl rfl))
  | settle d hook y item current a g rest s' hd hc he hf hr =>
    exact heard (.trans (.one rfl rfl) (passReturns_unheard hr))
  | goesOn y rest s' hc hm hr =>
    exact heard (resumes_unheard (s := s.setLast {} s.lastResult) hr)
  | ret => exact heard (.one rfl rfl)

theorem resumes_nextGuard {rest : List WinCall} (h : Resumes s x rest s') :
    s'.nextGuard = s.nextGuard := by
  cases h <;> rfl

theorem passReturns_nextGuard {rest : List WinCall} {hook : WinHook} {result : Disposition}
    (h : PassReturns s x rest hook result s') : s'.nextGuard = s.nextGuard := by
  cases h with
  | continues | terminates => rfl
  | resumes result s' hr => exact resumes_nextGuard (s := s.setLast {} s.lastResult) hr

/-- Guards are numbered in the order they are entered, and keep their values. -/
theorem WinTurn.guard_value (h : WinTurn w s act s') :
    s.nextGuard ≤ s'.nextGuard ∧ ∀ gs', guard < s.nextGuard → s'.guards guard = some gs' →
      ∃ gs, s.guards guard = some gs ∧ gs.value = gs'.value := by
  have still : s'.nextGuard = s.nextGuard → (∀ a, s'.guards a = s.guards a) →
      s.nextGuard ≤ s'.nextGuard ∧ ∀ gs', guard < s.nextGuard → s'.guards guard = some gs' →
        ∃ gs, s.guards guard = some gs ∧ gs.value = gs'.value := fun hn hg =>
    ⟨hn ▸ Nat.le_refl _, fun gs' _ h => ⟨gs', hg guard ▸ h, rfl⟩⟩
  have discarded : ∀ {gone : List Addr}, s'.nextGuard = s.nextGuard →
      (∀ a, s'.guards a = if a ∈ gone then none else s.guards a) →
      s.nextGuard ≤ s'.nextGuard ∧ ∀ gs', guard < s.nextGuard → s'.guards guard = some gs' →
        ∃ gs, s.guards guard = some gs ∧ gs.value = gs'.value := fun hn hg =>
    ⟨hn ▸ Nat.le_refl _, fun gs' _ h => by
      rw [hg] at h
      split at h
      · cases h
      · exact ⟨gs', h, rfl⟩⟩
  have wrote : ∀ {a : Addr} {gs : WinGuard} (gs₁ : WinGuard), s'.nextGuard = s.nextGuard →
      s.guards a = some gs → gs.value = gs₁.value → s'.guards = s.guards.set a (some gs₁) →
      s.nextGuard ≤ s'.nextGuard ∧ ∀ gs', guard < s.nextGuard → s'.guards guard = some gs' →
        ∃ gs, s.guards guard = some gs ∧ gs.value = gs'.value := fun gs₁ hn ha hv hg =>
    ⟨hn ▸ Nat.le_refl _, fun gs' _ h => by
      rw [hg, Heap.set_apply] at h
      split at h
      · rename_i he
        exact ⟨_, he ▸ ha, Option.some.inj h ▸ hv⟩
      · exact ⟨gs', h, rfl⟩⟩
  have passed : ∀ {u : WinState} {y : Exception} {rest : List WinCall} {hook : WinHook}
      {result : Disposition}, PassReturns u y rest hook result s' → u.nextGuard = s.nextGuard →
      u.guards = s.guards → s.nextGuard ≤ s'.nextGuard ∧ ∀ gs', guard < s.nextGuard →
        s'.guards guard = some gs' → ∃ gs, s.guards guard = some gs ∧ gs.value = gs'.value :=
    fun hr hn hu => still ((passReturns_nextGuard hr).trans hn) fun a => by
      rw [(passReturns_below hr).2, hu]
  cases h with
  | elsewhere | quits | raise | fault | skip | exhausted | debugged | decline | claim | askFirst |
      askNext | writeGlobal => exact still rfl fun _ => rfl
  | guard =>
    refine ⟨Nat.le_succ _, fun gs' hlt h => ⟨gs', ?_, rfl⟩⟩
    exact (Heap.set_other _ _ (Nat.ne_of_lt hlt)).symm.trans h
  | ask y a gs todo rest tss info hc hg => exact wrote { gs with rsi := info } rfl hg rfl rfl
  | write info y a todo gs rest hc hg =>
    exact wrote { gs with rsi := { gs.rsi with toPublicInfo := info } } rfl hg rfl rfl
  | recover | jump | ret => exact discarded rfl fun _ => rfl
  | unsupported hook y rest last s' hh hx hr => exact passed hr rfl rfl
  | nobody hook y e g last rest s' hh he hn hr => exact passed hr rfl rfl
  | exhaust d hook y item current a g rest s' hc hd he hr => exact passed hr rfl rfl
  | settle d hook y item current a g rest s' hd hc he hf hr => exact passed hr rfl rfl
  | goesOn y rest s' hc hm hr =>
    exact still (resumes_nextGuard (s := s.setLast {} s.lastResult) hr) (resumes_below hr).2

/-- A guard that has been entered holds its value. -/
theorem WinTurn.of_entered {signals : SigSet} {recovery : Bool} {decider : Nat} {value : Int}
    {env : SetupEnv} (h : WinTurn w s (.sigguarded signals recovery decider value env) s')
    (hc : s'.calls = .sigguarded guard false :: s.calls) :
    guard < s'.nextGuard ∧ ∃ gs, s'.guards guard = some gs ∧ gs.value = value := by
  cases h with
  | quits => exact absurd hc (List.cons_ne_self _ _).symm
  | guard signals recovery decider value env tss gs ht hu hgs =>
    obtain ⟨heq, -⟩ := List.cons.inj hc
    cases heq
    exact ⟨Nat.lt_succ_self _, gs, Heap.set_self _ _ _, by rw [hgs]⟩

theorem win_value_kept_run {ok : WinState → WinAction → Prop} {gs : WinGuard}
    (hlt : guard < s.nextGuard) (hg : s.guards guard = some gs) (hr : Run (winStep w) ok s s') :
    ∀ gs', s'.guards guard = some gs' → gs'.value = gs.value := by
  have hall := hr.invariant (I := fun u => guard < u.nextGuard ∧
    ∀ gs', u.guards guard = some gs' → gs'.value = gs.value)
    ⟨hlt, fun gs' h => by rw [Option.some.inj (h.symm.trans hg)]⟩ fun u act v hu _ hs => by
      obtain ⟨hlt, hval⟩ := hu
      obtain ⟨hle, hfrom⟩ := (winStep_turns hs).guard_value
      refine ⟨Nat.lt_of_lt_of_le hlt hle, fun gs' h => ?_⟩
      obtain ⟨gs₁, hg₁, hv⟩ := hfrom gs' hlt h
      exact hv.symm.trans (hval gs₁ hg₁)
  exact hall.2

end

/-- Two deciders, in the list of the container of signal 1. -/
def twoDeciders : Global where
  nodes := (Heap.empty.set 0 (some { oneNode with links := ⟨none, some 1⟩ })).set 1
    (some { oneNode with links := ⟨some 0, none⟩, decider := 6, value := 4 })
  nextNode := 2
  containers := Heap.empty.set 0 (some { oneContainer with globalHandler := ⟨some 0, some 1⟩ })
  nextContainer := 1
  map signo := if signo = 1 then some 0 else none
  sighandlersCount := 1
  kernel signo := if signo = 1 then .raw else .dfl

end Wg14Signals
