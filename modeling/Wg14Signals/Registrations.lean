import Wg14Signals.Consult

namespace Wg14Signals
open Lib

/-- A decider put on the list of a container. -/
structure Registration where
  container : Addr
  node : Addr
  callfirst : Bool

/-- The library together with a record of all registrations, in the order they were made. -/
structure Registered where
  state : State
  log : List Registration := []

def registeredStep (p : Platform) (w : Registered) (act : Action) : Except Fault Registered := do
  let s ← step p w.state act
  let new :=
    if (s.g.nodes w.state.g.nextNode).isSome then
      (w.state.registers p act).toList.map fun x => ⟨x.1, w.state.g.nextNode, x.2⟩
    else []
  pure { state := s, log := w.log ++ new }

/-- Those registered with `callfirst`, the latest first, and then the others in the order
they were registered. -/
def callOrder (log : List Registration) (c : Addr) : List Addr :=
  let regs := log.filter fun x => x.container == c
  ((regs.filter fun x => x.callfirst).reverse ++ regs.filter fun x => !x.callfirst).map
    Registration.node

/-- What `signal_decider_create` found when it came to a signal of the handle's set: the
signal's container, if it was installed then. -/
structure Visit where
  handle : Nat
  signo : Signo
  callfirst : Bool
  container : Option Addr
  /-- The node made, if there was a container. -/
  node : Addr

/-- What the visit leaves in the handle. -/
def Visit.slot (v : Visit) : Option Addr := v.container.map fun _ => v.node

def Visit.registration (v : Visit) : Option Registration :=
  v.container.map fun c => ⟨c, v.node, v.callfirst⟩

/-- The visit a call makes in its next section. -/
def Act.visits (p : Platform) (g : Global) (a : Act) : Option Visit :=
  match a.call with
  | .create args filled =>
    match (p.members args.guarded).drop filled.length with
    | signo :: _ => some ⟨args.owner, signo, args.callfirst, g.map signo, g.nextNode⟩
    | [] => none
  | _ => none

def State.visits (p : Platform) (s : State) : Action → Option Visit
  | .advance t _ => (s.top t).bind (Act.visits p s.g)
  | _ => none

/-- The library together with a record of all visits, also of those that found the signal not
installed. One for which there was no memory leaves nothing behind. -/
structure Visited where
  state : State
  visits : List Visit := []

def visitedStep (p : Platform) (w : Visited) (act : Action) : Except Fault Visited := do
  let s ← step p w.state act
  let new := (w.state.visits p act).filter fun v =>
    v.container.isNone || (s.g.nodes v.node).isSome
  pure { state := s, visits := w.visits ++ new.toList }

/-- The visits for a signal in the order the documentation has the deciders called: those with
`callfirst`, the latest first, and then the others. -/
def documentedOrder (visits : List Visit) (signo : Signo) : List Visit :=
  let vs := visits.filter fun v => v.signo == signo
  (vs.filter fun v => v.callfirst).reverse ++ vs.filter fun v => !v.callfirst

/-- The handles to which the documentation has the signal offered. -/
def Visited.due (w : Visited) (signo : Signo) : List Nat :=
  ((documentedOrder w.visits signo).map Visit.handle).filter w.state.intact.contains

/-- The handle a node belongs to, if it is intact. -/
def State.handleOf (s : State) (n : Addr) : Option Nat :=
  ((s.g.nodes n).map Node.owner).filter s.intact.contains

/-- The intact handles whose deciders the raise has called. -/
def Walk.offered (w : Walk) : List Nat := w.called.filterMap w.state.handleOf

/-- Is it a call that changes what is installed or registered? -/
def Call.changes : Call → Bool
  | .guard _ _ => false
  | .raise _ => false
  | _ => true

/-- Does such a call begin, or go on? -/
def State.changes (s : State) : Action → Bool
  | .siginstall _ _ _ => true
  | .siguninstall _ _ => true
  | .create _ _ _ _ _ _ => true
  | .destroy _ _ => true
  | .advance t _ => (s.top t).any fun a => a.call.changes
  | _ => false

/-- A raise that is about to look at the list of its signal offers the signal to all handles
that are due, in their order, until one does not decline. Meanwhile nothing changes. -/
def Offers (p : Platform) (w : Visited) (t : Tid) (raise : Nat) (signo : Signo) : Prop :=
  ∀ env w₁ w', walkStep p raise { state := w.state } (.advance t env) = .ok w₁ →
    Run (walkStep p raise) (fun u act => u.state.changes act = false) w₁ w' →
    w'.offered <+: w.due signo ∧
      (w'.answers = w'.called.map (fun _ => .nextDecider) → w'.offered = w.due signo)

end Wg14Signals
