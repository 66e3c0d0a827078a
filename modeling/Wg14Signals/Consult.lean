import Wg14Signals.Holdings

namespace Wg14Signals
open Lib

/-- The thread's innermost call, where the step is one of its locked sections. -/
def State.mover (s : State) : Action → Option Act
  | .advance t _ => s.top t
  | .decide t _ => s.top t
  | _ => none

def Action.answer : Action → Option Decision
  | .decide _ d => some d
  | _ => none

/-- The node whose decider the raise is inside. -/
def State.consults (s : State) (raise : Nat) : List Addr :=
  (s.inside.filter fun x => x.raise == raise).map Hold.node

/-- The signal a raise is about to look up in its first locked section. -/
def Act.looks (a : Act) : Option Signo :=
  match a.call with
  | .raise r => if r.phase = .frames [] then some r.signo else none
  | _ => none

/-- The library together with a record of one raise: the nodes whose deciders it has
called, and what these have answered. -/
structure Walk where
  state : State
  called : List Addr := []
  answers : List Decision := []

def walkStep (p : Platform) (raise : Nat) (w : Walk) (act : Action) : Except Fault Walk := do
  let s ← step p w.state act
  if (w.state.mover act).any fun a => a.id == raise then
    pure { state := s, called := w.called ++ s.consults raise,
           answers := w.answers ++ act.answer.toList }
  else
    pure { w with state := s }

/-- Does the node belong to a decider handle whose destruction has not begun? -/
def State.intactNode (s : State) (n : Addr) : Bool :=
  (s.g.nodes n).any fun nd => s.intact.contains nd.owner

end Wg14Signals
