import Mathlib.Algebra.Group.Int.Defs
import Mathlib.Algebra.Group.Nat.Defs
import Wg14Signals.WinDispatch

namespace Wg14Signals
open Lib

def WinPlatform.IsSignal (w : WinPlatform) (signo : Signo) : Prop := 1 ≤ signo ∧ signo < w.nsig

/-- The bits of a signal number that a user-defined exception code has room for. -/
def lowBits (signo : Signo) : Nat := (signo % 2 ^ 30).toNat

/-- `siginstall` gives no other signals a container. -/
def WinPlatform.Installs (w : WinPlatform) (g : Global) : Prop :=
  ∀ signo, g.map signo ≠ none → w.IsSignal signo

/-- Whatever is guarded and installed, a raise of this number calls no decider, and returns
false. -/
def WinPlatform.Rejects (w : WinPlatform) (signo : Signo) : Prop :=
  ∀ g s env s' dec, Run (winStep w) (fun _ _ => True) (.initial g) s → w.Installs s.g →
    winStep w s (.raise signo none none env) = .ok s' →
    ∃ u r, Run (winStep w) (fun s act => act = s.quietly dec) s' u ∧ u.calls = s.calls ∧
      u.consulted = s.consulted ∧ u.outcomes = s.outcomes ++ [.raised r false]

/-- The number is what a decider is called for, if it is that of a signal. Otherwise it is that
of no signal either, and of some exception. -/
def WinPlatform.Carries (w : WinPlatform) (signo : Signo) : Prop :=
  (w.IsSignal signo → w.receives signo = signo) ∧
  (¬ w.IsSignal signo → w.receives signo ≠ 0 ∧ ¬ w.IsSignal (w.receives signo) ∧ w.Rejects signo)

end Wg14Signals
