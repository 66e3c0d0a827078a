import Wg14Signals.Parameters
import Wg14Signals.Proofs.Informing
import Wg14Signals.Proofs.SignalCodes

namespace Wg14Signals
open Lib

section

variable {w : WinPlatform} {s s' : WinState} {signo : Signo} {info : ExceptionRecord}
  {c : Addr} {x : Exception} {env : SetupEnv} {todo : List Addr}

theorem pointer_eq_some {v : Nat} {a : Addr} : pointer v = some a ↔ v = a ∧ a ≠ 0 := by
  unfold pointer
  split
  · rename_i hv
    simp only [reduceCtorEq, false_iff, not_and, not_not]
    exact fun h => h.symm.trans hv
  · rename_i hv
    rw [Option.some.injEq]
    exact ⟨fun h => ⟨h, h ▸ hv⟩, And.left⟩

/-- The marker and the context are put into a record that is not full. -/
theorem addContext_eq_self :
    addContext info (some c) = info ↔ exceptionMaximumParameters - 2 ≤ info.params.length := by
  simp only [addContext]
  split
  · rename_i h
    refine ⟨fun h' => ?_, fun h' => absurd h (Nat.not_lt.mpr h')⟩
    have := congrArg (fun r : ExceptionRecord => r.params.length) h'
    simp at this
  · rename_i h
    exact ⟨fun _ => Nat.not_lt.mp h, fun _ => rfl⟩

/-- The exception a raise has raised carries its parameters. -/
theorem raised_params (h : winStep w s (.raise signo (some info) (some c) env) = .ok s')
    (hc : s'.calls = .dispatch x (.filters todo) :: s.calls) :
    x.record.params = (addContext info (some c)).params ∧ x.ptr = s.nextException ∧
      x.record.code = win32ExceptionCodeFromSignal w signo ∧ todo = s.tries := by
  cases winStep_turns h with
  | quits => exact absurd hc (List.cons_ne_self _ _).symm
  | raise _ _ _ _ tss y l ht hu hs hl hx =>
    obtain ⟨heq, -⟩ := List.cons.inj hc
    obtain ⟨rfl, hpc⟩ := WinCall.dispatch.inj heq
    refine ⟨?_, by rw [hx], ?_, (WinPc.filters.inj hpc).symm⟩
    · rw [hx]
      unfold deliveredRecord
      split <;> rfl
    · rw [hx]
      exact delivered_code signo (some info) (some c)

/-- What the deciders are told of such an exception, where its record is that of the caller. -/
theorem tells_presents (hp : x.record.params = info.params)
    (hm : info.params.getD 11 0 = contextMarker) (hv : info.params.getD 12 0 = c) (hc : c ≠ 0)
    (hn : info.params.length = 13) (value : Int) : Tells info c (x.presents w value) where
  rawContext := by
    simp only [Exception.presents, win32PrepareRsi, hp, hn]
    rw [if_pos ⟨by decide, hm⟩]
    exact pointer_eq_some.mpr ⟨hv, hc⟩
  addr := by
    simp only [Exception.presents, win32PrepareRsi, hp, ExceptionRecord.faultAddr]
  errorCode := by
    simp only [Exception.presents, win32PrepareRsi, hp, ExceptionRecord.errorCode]

/-- A guard that wants every signal has its decider called. -/
theorem guard_asked (hs : w.IsSignal signo) (info : ExceptionRecord) (c : Addr) :
    ∃ s' x u rsi, winStep w guardedByAll (.raise signo (some info) (some c) {}) = .ok s' ∧
      s'.calls = .dispatch x (.filters [0]) :: guardedByAll.calls ∧
      winStep w s' .advance = .ok u ∧ u.trace = .asked x (.frame 0) rsi :: s'.trace := by
  have hcode := receives_signal hs
  have hle : (w.nsig : Int) ≤ 32 := Int.ofNat_le.mpr w.narrow
  have h32 : signo ≤ 32 := Int.le_of_lt (Int.lt_of_lt_of_le hs.2 hle)
  obtain ⟨s', x, hstep, hx, hxcode, h⟩ := winRaise_starts (w := w) (s := guardedByAll) {}
    (some info) (some c) rfl rfl (Int.ne_of_gt hs.1)
  have hset : sigismember (fun _ => true) (signalFromWin32ExceptionCode w x.record.code) = true := by
    rw [hxcode, show signalFromWin32ExceptionCode w (win32ExceptionCodeFromSignal w signo) = signo
      from hcode]
    simp [sigismember, hs.1, h32]
  obtain ⟨u, rsi, hask, -, ht⟩ := h.asks (w := w) (fun _ => .nextDecider) rfl hset
  rw [h.quietly] at hask
  exact ⟨s', x, u, rsi, hstep, h.calls, hask, ht⟩

end

/-- A context and the parameters survive the way through the exception record exactly where the
record has room for the two words, and the caller has put them there. -/
theorem parameters_survive_iff (w : WinPlatform) {signo : Signo} {info : ExceptionRecord}
    {c : Addr} (hs : w.IsSignal signo)
    (hn : info.params.length ≤ exceptionMaximumParameters - 2) (hc : c ≠ 0) :
    Survives w signo info c ↔ info.params.length = exceptionMaximumParameters - 2 ∧
      info.params.getD 11 0 = contextMarker ∧ info.params.getD 12 0 = c := by
  constructor
  · rintro ⟨htells, hkept⟩
    have hsame : addContext info (some c) = info := hkept 1
    have hlen := Nat.le_antisymm hn (addContext_eq_self.mp hsame)
    obtain ⟨s', x, u, rsi, hraise, hcalls, hask, ht⟩ := guard_asked hs info c
    obtain ⟨hp, hptr, -⟩ := raised_params hraise hcalls
    rw [hsame] at hp
    have hleaves : s'.leavesInfo w .advance = true := rfl
    have hgiven := htells _ _ _ _ _ _ (guardedByAll_run w) hraise hcalls s' .advance u _ rsi (.refl _)
      hleaves hask ht
    obtain ⟨⟨value, -, hpub⟩, -⟩ := (winStep_turns hask).informs hleaves ht
    have hraw := hgiven.rawContext
    rw [hpub] at hraw
    simp only [Exception.presents, win32PrepareRsi, hp] at hraw
    split at hraw
    · rename_i hm
      rw [hlen] at hm hraw
      exact ⟨hlen, hm.2, (pointer_eq_some.mp hraw).1⟩
    · rw [hptr] at hraw
      exact absurd (Option.some.inj hraw).symm hc
  · rintro ⟨hlen, hm, hv⟩
    have hsame : addContext info (some c) = info := addContext_eq_self.mpr hlen.ge
    refine ⟨fun g s env s' x todo hr hraise hcalls u act v who rsi hrun hleaves hstep ht => ?_,
      fun k => ?_⟩
    · obtain ⟨hp, -⟩ := raised_params hraise hcalls
      obtain ⟨⟨value, -, hpub⟩, -⟩ := (winStep_turns hstep).informs hleaves ht
      rw [hpub]
      exact tells_presents (hsame ▸ hp) hm hv hc hlen value
    · induction k with
      | zero => rfl
      | succ k ih => rw [Nat.repeat, ih, hsame]

/-- Two words of the record hold the marker and the context. -/
def markedRecord : ExceptionRecord where
  code := 0#32
  params := [0, 16, 5, 0, 0, 0, 0, 0, 0, 0, 0, contextMarker, 8]

theorem parameters_survive_iff_marked : Survives .headers 2 markedRecord 8 :=
  (parameters_survive_iff .headers ⟨by decide, by decide⟩ (by decide) (by decide)).mpr
    ⟨by decide, by decide, by decide⟩

/-- A record without parameters has two after the raise, and the second of them is the context: a
decider takes that for the address of the fault. -/
theorem context_left_behind : ¬ Survives .headers 2 { code := 0#32 } 8 := by
  rintro ⟨-, hkept⟩
  have hsame := hkept 1
  exact absurd (congrArg (fun r : ExceptionRecord => r.params.length) hsame) (by decide)

end Wg14Signals
