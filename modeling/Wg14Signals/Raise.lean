import Wg14Signals.Registry

namespace Wg14Signals
open Lib

/-- Take a reference on a node before its decider is called without the lock. -/
def pinNode (g : Global) (n : Addr) : Except Fault (Int × Global) := do
  let nd ← g.readNode (some n)
  pure (nd.value, g.setNode n (some { nd with refcount := nd.refcount + 1 }))

/-- How the first critical section of `stdc_raise` ends. -/
inductive Entered where
  /-- No container for the signal: the call returns false. -/
  | absent
  /-- Unlocked, inside the decider of `current`. -/
  | deciding (item current : Addr) (value : Int) (sa : Sigaction)
  /-- No decider at all: the saved action is next. -/
  | unclaimed (sa : Sigaction)
  deriving DecidableEq

/-- The first critical section of `stdc_raise`. -/
def raiseEnter (g : Global) (signo : Signo) : Except Fault (Entered × Global) :=
  match g.map signo with
  | none => pure (.absent, g)
  | some item => do
    let k ← g.readContainer item
    let g := g.setContainer item { k with lifetimeRefcount := k.lifetimeRefcount + 1 }
    match k.globalHandler.front with
    | some current => do
      let (value, g) ← pinNode g current
      pure (.deciding item current value k.oldHandler, g)
    | none => do
      let g ← sighandlerInfoRelease g item
      pure (.unclaimed k.oldHandler, g)

/-- How a later critical section of `stdc_raise` ends. -/
inductive Left where
  | claimed
  | deciding (current : Addr) (value : Int)
  | unclaimed
  deriving DecidableEq

/-- Drop the reference on the node whose decider has returned. The last one moves
the node to `deferred_frees`. The result is the node after it. -/
def unpinNode (g : Global) (item current : Addr) : Except Fault (Option Addr × Global) := do
  let nd ← g.readNode (some current)
  let g := g.setNode current (some { nd with refcount := nd.refcount - 1 })
  if nd.refcount - 1 = 0 then do
    let k ← g.readContainer item
    let (nodes, global) ← DList.remove .node g.nodes k.globalHandler current
    let (nodes, deferred) ← DList.insertBack .node .assertion nodes k.deferredFrees current
    pure (nd.links.next, (g.setNodes nodes).setContainer item
      { k with globalHandler := global, deferredFrees := deferred })
  else
    pure (nd.links.next, g)

/-- The critical section of `stdc_raise` after a decider has returned. -/
def raiseLeave (g : Global) (item current : Addr) (claimed : Bool) :
    Except Fault (Left × Global) := do
  let (next, g) ← unpinNode g item current
  if claimed then do
    let g ← sighandlerInfoRelease g item
    pure (.claimed, g)
  else
    match next with
    | some current => do
      let (value, g) ← pinNode g current
      pure (.deciding current value, g)
    | none => do
      let g ← sighandlerInfoRelease g item
      pure (.unclaimed, g)

/-- The critical section of `sigdecider_abandon` in a global decider. Neither
reference is looked at again, not even when it was the last. -/
def sigdeciderAbandon (g : Global) (item current : Addr) : Except Fault Global := do
  let k ← g.readContainer item
  let g := g.setContainer item { k with lifetimeRefcount := k.lifetimeRefcount - 1 }
  let nd ← g.readNode (some current)
  pure (g.setNode current (some { nd with refcount := nd.refcount - 1 }))

/-- What `invoke_sigaction` does with an action. -/
inductive Invoked where
  /-- Calls the handler, which for `raw` is the library's own. -/
  | calls (h : Handler)
  /-- Resets the disposition, signals itself, and puts the disposition back. -/
  | default
  | ignores
  deriving DecidableEq, Repr

def invokeSigaction (p : Platform) (sa : Sigaction) (signo : Signo) : Invoked :=
  if sa.siginfo then .calls sa.handler
  else
    match sa.handler with
    | .dfl => if p.defaultIgnored signo then .ignores else .default
    | .ign => .ignores
    | h => .calls h

end Wg14Signals
