import Wg14Signals.WinDispatch

namespace Wg14Signals
open Lib

/-- The same program, run on POSIX and on Windows, is inside these guards, innermost first, on
the one and on the other. -/
structure SameStack (s : GuardState) (u : WinState) (guards : List (Addr × Addr)) : Prop where
  posix : s.Stands (guards.map Prod.fst)
  windows : u.tries = guards.map Prod.snd
  same : ∀ a b, (a, b) ∈ guards → ∃ f gs, s.frames a = some f ∧ u.guards b = some gs ∧
    f.decider = gs.decider ∧ f.recovery = gs.recovery ∧
    ∀ signo, 1 ≤ signo → signo ≤ 32 → f.guarded signo = gs.guarded signo

/-- It has installed the signal on both, and these global deciders for it. -/
structure SameDeciders (g g' : Global) (signo : Signo) (sa sa' : Sigaction)
    (nodes : List (Addr × Addr)) : Prop where
  posix : Listed g signo (some sa) (nodes.map Prod.fst)
  windows : Listed g' signo (some sa') (nodes.map Prod.snd)
  same : ∀ n n', (n, n') ∈ nodes →
    (g.nodes n).map Node.decider = (g'.nodes n').map Node.decider

def SameConsulted (guards nodes : List (Addr × Addr)) : Consulted → Consulted → Prop
  | .frame a, .frame b => (a, b) ∈ guards
  | .global n, .global n' => (n, n') ∈ nodes
  | _, _ => False

def SameVerdict (guards : List (Addr × Addr)) : Verdict → Verdict → Prop
  | .recovered a, .recovered b => (a, b) ∈ guards
  | .claimed, .claimed => True
  | .unclaimed, .unclaimed => True
  | _, _ => False

end Wg14Signals
