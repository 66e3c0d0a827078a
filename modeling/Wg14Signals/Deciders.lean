import Wg14Signals.Registry

namespace Wg14Signals
open Lib

/-- The arguments of `signal_decider_create`, once checked, and the handle it fills. -/
structure CreateArgs where
  guarded : SigSet
  callfirst : Bool
  decider : Nat
  value : Int
  owner : Nat

/-- What one signal's turn of the create loop puts into the handle. -/
inductive Created where
  /-- No container for the signal: a null slot. -/
  | missing
  | linked (node : Addr)
  | outOfMemory
  deriving DecidableEq

/-- A node as `calloc` and the three assignments after it leave it. -/
def newDecider (args : CreateArgs) : Node where
  refcount := 1
  decider := args.decider
  value := args.value
  owner := args.owner

/-- Link a new node at the end of `global_handler` that `callfirst` asks for. -/
def linkDecider (nodes : Heap Node) (ends : Ends) (callfirst : Bool) (i : Addr) :
    Except Fault (Heap Node × Ends) :=
  if callfirst then DList.insertFront .node .assertion nodes ends i
  else DList.insertBack .node .assertion nodes ends i

/-- The critical section of `signal_decider_create` for one signal. -/
def createNode (g : Global) (signo : Signo) (args : CreateArgs) (calloc : Bool) :
    Except Fault (Created × Global) :=
  match g.map signo with
  | none => pure (.missing, g)
  | some item =>
    if calloc = false then
      pure (.outOfMemory, g)
    else do
      let k ← g.readContainer item
      let i := g.nextNode
      let nodes := g.nodes.set i (some (newDecider args))
      let (nodes, ends) ← linkDecider nodes k.globalHandler args.callfirst i
      pure (.linked i, (({ g with nextNode := i + 1 } : Global).setNodes nodes).setContainer item
        { k with globalHandler := ends })

/-- Take a node out of the list if it is linked there; else only clear its pointers. -/
def unlinkDecider (nodes : Heap Node) (ends : Ends) (linked : Bool) (n : Addr) :
    Except Fault (Heap Node × Ends) :=
  if linked then DList.remove .node nodes ends n
  else do
    let nodes ← nodes.update .node (some n) fun nd => { nd with links := {} }
    pure (nodes, ends)

/-- Take a node whose last reference is gone out of the mapped container, if it is
linked there, and free it. -/
def retireNode (g : Global) (item : Addr) (k : Container) (n : Addr) : Except Fault Global := do
  let linked ← sighandlerInfoHasDecider g k n
  let (nodes, ends) ← unlinkDecider g.nodes k.globalHandler linked n
  let nodes ← nodes.free .node n
  pure ((g.setNodes nodes).setContainer item { k with globalHandler := ends })

/-- The critical section of `signal_decider_destroy` for one signal. The slot is
`*retp` when the signal is in the handle's set; the result is what it then holds. -/
def destroyLocked (g : Global) (signo : Signo) (slot : Option Addr) :
    Except Fault (Option Addr × Global) :=
  match g.map signo with
  | none => pure (slot, g)
  | some item => do
    let k ← g.readContainer item
    let g ← freeDeferred g k
    let k := { k with deferredFrees := {} }
    let g := g.setContainer item k
    match slot with
    | none => pure (none, g)
    | some n => do
      let nd ← g.readNode (some n)
      let g := g.setNode n (some { nd with refcount := nd.refcount - 1 })
      if nd.refcount - 1 = 0 then do
        let g ← retireNode g item k n
        pure (none, g)
      else
        -- a raise is inside the decider; it frees the node when it leaves
        pure (none, g)

/-- What `signal_decider_destroy` does for one signal after it has unlocked. -/
def destroyUnlocked (g : Global) (slot : Option Addr) : Except Fault Global :=
  match slot with
  | none => pure g
  | some n => do
    let nd ← g.readNode (some n)
    let g := g.setNode n (some { nd with refcount := nd.refcount - 1 })
    if nd.refcount - 1 = 0 then do
      let nodes ← g.nodes.free .node n
      pure (g.setNodes nodes)
    else
      pure g

end Wg14Signals
