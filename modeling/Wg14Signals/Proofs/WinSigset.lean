import Wg14Signals.WinSigset

namespace Wg14Signals.Sigset
open Lib

variable {s s' : State} {ss : SigsetT} {signo n : Int} {call : Call}

theorem index_lt (hn : 1 ≤ n ∧ n ≤ 32) : (n - 1).toNat < 32 := by
  omega

theorem members_bit (hs : 1 ≤ signo ∧ signo ≤ 32) (hn : 1 ≤ n ∧ n ≤ 32) :
    (bit signo).getLsbD (n - 1).toNat = decide (n = signo) := by
  have hsame : (signo - 1).toNat = (n - 1).toNat ↔ n = signo := by omega
  change (BitVec.twoPow 32 (signo - 1).toNat).getLsbD (n - 1).toNat = _
  rw [BitVec.getLsbD_twoPow, decide_eq_true (index_lt hs), Bool.true_and]
  exact decide_eq_decide.mpr hsame

theorem members_zero : members 0 = fun _ => false := by
  funext n
  rw [members, show (0 : SigsetT) = 0#32 from rfl, BitVec.getLsbD_zero, Bool.and_false]

theorem members_allOnes : members (BitVec.allOnes 32) = fun n => decide (1 ≤ n ∧ n ≤ 32) := by
  funext n
  rw [members, BitVec.getLsbD_allOnes, ← Bool.decide_and]
  exact decide_eq_decide.mpr (and_iff_left_of_imp index_lt)

theorem members_add (hs : 1 ≤ signo ∧ signo ≤ 32) :
    members (ss ||| bit signo) = Function.update (members ss) signo true := by
  funext n
  by_cases hn : 1 ≤ n ∧ n ≤ 32
  · rw [members, BitVec.getLsbD_or, members_bit hs hn, Function.update_apply]
    by_cases h : n = signo
    · simp [h, hs]
    · simp [members, h]
  · have hne : n ≠ signo := fun h => hn (h ▸ hs)
    simp [members, hn, hne]

theorem members_del (hs : 1 ≤ signo ∧ signo ≤ 32) :
    members (ss &&& ~~~bit signo) = Function.update (members ss) signo false := by
  funext n
  by_cases hn : 1 ≤ n ∧ n ≤ 32
  · rw [members, BitVec.getLsbD_and, BitVec.getLsbD_not, members_bit hs hn, Function.update_apply,
      decide_eq_true (index_lt hn)]
    by_cases h : n = signo
    · simp [h]
    · simp [members, h]
  · have hne : n ≠ signo := fun h => hn (h ▸ hs)
    simp [members, hn, hne]

theorem members_has (hs : 1 ≤ signo ∧ signo ≤ 32) : ss &&& bit signo ≠ 0 ↔ members ss signo = true := by
  have hand : ss &&& bit signo = if ss.getLsbD (signo - 1).toNat then bit signo else 0 :=
    BitVec.and_twoPow ss (signo - 1).toNat
  have hbit : bit signo ≠ 0 := fun h0 => by
    have hself := members_bit hs hs
    rw [h0] at hself
    simp at hself
  rw [hand, members, decide_eq_true hs, Bool.true_and]
  cases ss.getLsbD (signo - 1).toNat with
  | true => exact iff_of_true hbit rfl
  | false => exact iff_of_false (fun h => h rfl) Bool.false_ne_true

/-- A call of the shim does what it is for. -/
theorem perform_means (s : State) (call : Call) :
    ((call.perform s).1, (call.perform s).2.abstract) = call.means s.abstract := by
  have hrange : ∀ signo : Int, signo < 1 ∨ signo > 32 ↔ ¬(1 ≤ signo ∧ signo ≤ 32) := by
    intro signo
    omega
  cases call with
  | empty => exact congrArg (Prod.mk 0) (congrArg (Abstract.mk · s.errno) members_zero)
  | fill => exact congrArg (Prod.mk 0) (congrArg (Abstract.mk · s.errno) members_allOnes)
  | add signo =>
    by_cases hs : 1 ≤ signo ∧ signo ≤ 32
    · simp only [Call.perform, sigaddset, hrange, Call.means, if_neg (not_not.mpr hs), if_pos hs]
      exact congrArg (Prod.mk 0) (congrArg (Abstract.mk · s.errno) (members_add hs))
    · simp only [Call.perform, sigaddset, hrange, Call.means, if_pos hs, if_neg hs]
      rfl
  | del signo =>
    by_cases hs : 1 ≤ signo ∧ signo ≤ 32
    · simp only [Call.perform, sigdelset, hrange, Call.means, if_neg (not_not.mpr hs), if_pos hs]
      exact congrArg (Prod.mk 0) (congrArg (Abstract.mk · s.errno) (members_del hs))
    · simp only [Call.perform, sigdelset, hrange, Call.means, if_pos hs, if_neg hs]
      rfl
  | isMember signo =>
    by_cases hs : 1 ≤ signo ∧ signo ≤ 32
    · simp only [Call.perform, Sigset.sigismember, hrange, Call.means, if_neg (not_not.mpr hs),
        if_pos hs, members_has hs]
      rfl
    · simp only [Call.perform, Sigset.sigismember, hrange, Call.means, if_pos hs, if_neg hs]
      rfl

theorem runCalls_means (s : State) (calls : List Call) :
    (runCalls Call.perform s calls).1 = (runCalls Call.means s.abstract calls).1 ∧
      (runCalls Call.perform s calls).2.abstract = (runCalls Call.means s.abstract calls).2 := by
  induction calls generalizing s with
  | nil => exact ⟨rfl, rfl⟩
  | cons call calls ih =>
    obtain ⟨hret, hstate⟩ := Prod.mk.inj (perform_means s call)
    obtain ⟨hrets, hend⟩ := ih (call.perform s).2
    rw [hstate] at hrets hend
    exact ⟨congrArg₂ List.cons hret hrets, hend⟩

theorem sigismember_one :
    (sigismember s signo).1 = 1 ↔ Wg14Signals.sigismember (members s.ss) signo = true := by
  have hmeans := congrArg Prod.fst (perform_means s (.isMember signo))
  change (sigismember s signo).1 = (Call.means s.abstract (.isMember signo)).1 at hmeans
  rw [hmeans, Wg14Signals.sigismember, ← Bool.decide_and]
  by_cases hs : 1 ≤ signo ∧ signo ≤ 32
  · simp only [Call.means, if_pos hs, decide_eq_true hs, Bool.true_and]
    cases h : members s.ss signo <;> simp [State.abstract, h]
  · simp [Call.means, hs]

/-- The `sigset_t` of the Windows build is a set of the signals 1 to 32, whatever is done with
it: every call returns what it would for the set, and `errno` is as it would be. Comparing
`sigismember` with 1 is the test of the Windows dispatch. -/
theorem shim_refines_set (s : State) (calls : List Call) :
    (runCalls Call.perform s calls).1 = (runCalls Call.means s.abstract calls).1 ∧
      (runCalls Call.perform s calls).2.abstract = (runCalls Call.means s.abstract calls).2 ∧
      ∀ signo, (sigismember (runCalls Call.perform s calls).2 signo).1 = 1 ↔
        Wg14Signals.sigismember (runCalls Call.means s.abstract calls).2.set signo = true := by
  obtain ⟨hrets, hend⟩ := runCalls_means s calls
  refine ⟨hrets, hend, fun signo => ?_⟩
  rw [← hend]
  exact sigismember_one

/-- Signals are added one after the other. -/
theorem members_addAll {signos : List Signo} (hv : ∀ signo ∈ signos, 1 ≤ signo ∧ signo ≤ 32)
    (s : State) (n : Signo) :
    members (signos.foldl (fun s signo => (sigaddset s signo).2) s).ss n =
      (members s.ss n || decide (n ∈ signos)) := by
  induction signos generalizing s with
  | nil => simp
  | cons signo signos ih =>
    have hs := hv signo List.mem_cons_self
    have hadd := congrArg (fun x => x.2.set n) (perform_means s (.add signo))
    simp only [Call.means, if_pos hs, Function.update_apply] at hadd
    rw [List.foldl_cons, ih fun n hn => hv n (List.mem_cons_of_mem signo hn)]
    change (members (sigaddset s signo).2.ss n || _) = _
    rw [show members (sigaddset s signo).2.ss n = _ from hadd, State.abstract]
    by_cases h : n = signo
    · simp [h]
    · simp [h]

theorem members_filled {signos : List Signo} (hv : ∀ signo ∈ signos, 1 ≤ signo ∧ signo ≤ 32) :
    members (filled signos) = fun n => decide (n ∈ signos) := by
  funext n
  rw [filled, members_addAll hv, members_zero, Bool.false_or]

theorem Kind.signos_valid (w : WinPlatform) (kind : Kind) :
    ∀ signo ∈ kind.signos w, 1 ≤ signo ∧ signo ≤ 32 := by
  cases kind with
  | synchronous =>
    have hnarrow := w.narrow
    intro signo hs
    have hperm : signo ∈ [w.sigabrt, w.sigbus, w.sigill, w.sigsegv, w.sigfpe] := by
      simp only [Kind.signos, List.mem_cons] at hs ⊢
      grind
    obtain ⟨h1, h2⟩ := w.valid signo hperm
    have hn : ∀ n : Int, n < w.nsig → n ≤ 32 := fun n => by omega
    exact ⟨h1, hn signo h2⟩
  | asynchronousNondebug => simp [Kind.signos]
  | asynchronousDebug => simp [Kind.signos]

namespace Filling

variable {τ : Type} [DecidableEq τ] {signos : List Signo} {f f' : Filling τ} {act : FillAct τ}
  {acts : List (FillAct τ)}

/-- The static is empty or full, and full for whoever is about to copy it. -/
structure Inv (signos : List Signo) (f : Filling τ) : Prop where
  v : f.v = 0 ∨ f.v = filled signos
  copy : ∀ t, f.pc t = .copy → f.v = filled signos
  copied : ∀ x ∈ f.copied, x.2 = filled signos

theorem Inv.goTo (hi : Inv signos f) {t : τ} {pc : FillPc}
    (hpc : pc = .copy → f.v = filled signos) : Inv signos (f.goTo t pc) := by
  refine ⟨hi.v, fun u hu => ?_, hi.copied⟩
  simp only [Filling.goTo, Function.update_apply] at hu
  split at hu
  · exact hpc hu
  · exact hi.copy u hu

theorem Inv.step (hv : ∀ signo ∈ signos, 1 ≤ signo ∧ signo ≤ 32) (hi : Inv signos f)
    (hstep : f.step signos act = some f') : Inv signos f' := by
  cases act with
  | check t =>
    simp only [Filling.step] at hstep
    split at hstep
    · obtain rfl := Option.some.inj hstep
      exact hi.goTo fun h => by cases h
    · rename_i signo rest _
      split at hstep
      · rename_i hmem
        obtain rfl := Option.some.inj hstep
        refine hi.goTo fun _ => hi.v.resolve_left fun h0 => hmem ?_
        -- nothing is a member of the empty set
        have hmeans := congrArg Prod.fst (perform_means ⟨f.v, 0⟩ (.isMember signo))
        simp only [Call.means, if_pos (hv signo List.mem_cons_self), State.abstract, h0, members_zero,
          Bool.false_eq_true, if_false] at hmeans
        exact h0 ▸ hmeans
      · obtain rfl := Option.some.inj hstep
        exact hi.goTo fun h => by cases h
    · cases hstep
  | store t =>
    simp only [Filling.step] at hstep
    split at hstep
    · obtain rfl := Option.some.inj hstep
      have hfull : Inv signos { f with v := filled signos } :=
        ⟨.inr rfl, fun _ _ => rfl, hi.copied⟩
      exact hfull.goTo fun _ => rfl
    · cases hstep
  | copy t =>
    simp only [Filling.step] at hstep
    split at hstep
    · obtain rfl := Option.some.inj hstep
      have hcopied : Inv signos { f with copied := (t, f.v) :: f.copied } := by
        refine ⟨hi.v, hi.copy, fun x hx => ?_⟩
        rcases List.mem_cons.mp hx with rfl | hx
        · exact hi.copy t ‹_›
        · exact hi.copied x hx
      exact hcopied.goTo fun h => by cases h
    · cases hstep

theorem Inv.run (hv : ∀ signo ∈ signos, 1 ≤ signo ∧ signo ≤ 32) (hi : Inv signos f)
    (hrun : acts.foldlM (Filling.step signos) f = some f') : Inv signos f' := by
  induction acts generalizing f with
  | nil => exact Option.some.inj hrun ▸ hi
  | cons act acts ih =>
    rw [List.foldlM_cons] at hrun
    obtain ⟨u, hu, hrest⟩ := Option.bind_eq_some_iff.mp hrun
    exact ih (hi.step hv hu) hrest

omit [DecidableEq τ] in
theorem initial_inv : Inv signos (initial : Filling τ) := by
  refine ⟨.inl rfl, fun t h => ?_, fun x h => ?_⟩
  · cases h
  · cases h

/-- Threads may ask for a set of signals for the first time at once: each is given all of its
signals, and no other. -/
theorem copies_are_full {w : WinPlatform} {kind : Kind}
    (hrun : acts.foldlM (step (kind.signos w)) initial = some f) :
    ∀ x ∈ f.copied, ∀ signo,
      (sigismember ⟨x.2, 0⟩ signo).1 = 1 ↔ signo ∈ kind.signos w := by
  intro x hx signo
  have hv := kind.signos_valid w
  rw [(initial_inv.run hv hrun).copied x hx, sigismember_one, members_filled hv,
    Wg14Signals.sigismember, ← Bool.decide_and, Bool.and_eq_true, decide_eq_true_iff,
    decide_eq_true_iff]
  exact and_iff_right_of_imp (hv signo)

/-- Both have found the set empty before either fills it. -/
theorem copies_are_full_two :
    ∃ f : Filling Bool, List.foldlM (step (Kind.asynchronousNondebug.signos .headers)) initial
        [.check true, .check false, .store true, .copy true, .store false, .copy false] = some f ∧
      f.copied.map Prod.fst = [false, true] ∧ ∀ x ∈ f.copied, ∀ signo,
        (sigismember ⟨x.2, 0⟩ signo).1 = 1 ↔ signo ∈ Kind.asynchronousNondebug.signos .headers := by
  have hrun : ∃ f : Filling Bool,
      List.foldlM (step (Kind.asynchronousNondebug.signos .headers)) initial
        [.check true, .check false, .store true, .copy true, .store false, .copy false] = some f ∧
      f.copied.map Prod.fst = [false, true] := ⟨_, rfl, rfl⟩
  obtain ⟨f, hf, hcopied⟩ := hrun
  exact ⟨f, hf, hcopied, copies_are_full hf⟩

end Filling

end Wg14Signals.Sigset
