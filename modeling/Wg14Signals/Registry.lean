import Wg14Signals.Lib.DList
import Wg14Signals.Signals

namespace Wg14Signals
open Lib

/-- Why a step of the library could not be taken. Only `disabled` is no error of
the code: the step is not possible in this state. -/
inductive Fault where
  | disabled
  /-- A decider node was reached through a null or dangling pointer. -/
  | node (p : Option Addr)
  /-- A container was reached through a null or dangling pointer. -/
  | container (p : Option Addr)
  /-- An `assert` of the list macros failed. -/
  | assertion
  /-- A decider handle was read past its last slot. -/
  | slot
  /-- A loop outran the number of nodes ever allocated. -/
  | stuck
  deriving DecidableEq, Repr

/-- A `global_signal_decider_t`. -/
structure Node where
  links : Links := {}
  refcount : Int
  decider : Nat
  value : Int
  /-- Which handle's `signal_decider_create` allocated the node. The C structure
  has no such member; nothing the library does depends on it. -/
  owner : Nat
  deriving DecidableEq

instance : Linked Node where
  links := Node.links
  setLinks n l := { n with links := l }
  links_set _ _ := rfl
  set_set _ _ _ := rfl
  set_links _ := rfl

/-- A `sighandler_info`. -/
structure Container where
  installCount : Int := 0
  lifetimeRefcount : Int
  oldHandler : Sigaction
  globalHandler : Ends := {}
  deferredFrees : Ends := {}
  deriving DecidableEq

/-- The `sig_global_state_t` together with the two heaps it points into and the
kernel's table of dispositions. -/
structure Global where
  nodes : Heap Node
  nextNode : Addr
  containers : Heap Container
  nextContainer : Addr
  map : Signo → Option Addr
  sighandlersCount : Int
  kernel : Signo → Sigaction

def Global.readNode (g : Global) (p : Option Addr) : Except Fault Node :=
  g.nodes.read .node p

def Global.readContainer (g : Global) (item : Addr) : Except Fault Container :=
  g.containers.read .container (some item)

@[simps -fullyApplied]
def Global.setNodes (g : Global) (nodes : Heap Node) : Global := { g with nodes }

@[simps! -fullyApplied]
def Global.setNode (g : Global) (n : Addr) (nd : Option Node) : Global :=
  g.setNodes (g.nodes.set n nd)

@[simps -fullyApplied]
def Global.setContainers (g : Global) (containers : Heap Container) : Global :=
  { g with containers }

@[simps! -fullyApplied]
def Global.setContainer (g : Global) (item : Addr) (k : Container) : Global :=
  g.setContainers (g.containers.set item (some k))

@[simps -fullyApplied]
def Global.setMap (g : Global) (signo : Signo) (item : Option Addr) : Global :=
  { g with map := fun s => if s = signo then item else g.map s }

/-- A `sigaction` call that changes the disposition. -/
@[simps -fullyApplied]
def Global.setKernel (g : Global) (signo : Signo) (sa : Sigaction) : Global :=
  { g with kernel := fun s => if s = signo then sa else g.kernel s }

/-- The loops that free every node on a `deferred_frees` list. -/
def freeDeferred (g : Global) (k : Container) : Except Fault Global := do
  let (nodes, _) ← DList.drain .node .stuck (Heap.free .node) g.nextNode g.nodes k.deferredFrees
  pure (g.setNodes nodes)

/-- The loop that detaches every node still registered, without freeing it. -/
def detachDeciders (g : Global) (k : Container) : Except Fault Global := do
  let (nodes, _) ← DList.drain .node .stuck (fun h _ => pure h) g.nextNode g.nodes k.globalHandler
  pure (g.setNodes nodes)

/-- Drop one reference on a container. The last one retires the deferred nodes,
detaches the registered ones and frees the container. -/
def sighandlerInfoRelease (g : Global) (item : Addr) : Except Fault Global := do
  let k ← g.readContainer item
  if k.lifetimeRefcount - 1 = 0 then do
    let g ← freeDeferred g k
    let g ← detachDeciders g k
    let containers ← g.containers.free .container item
    pure (g.setContainers containers)
  else
    pure (g.setContainer item { k with lifetimeRefcount := k.lifetimeRefcount - 1 })

/-- Is the node linked in the container's `global_handler` list? -/
def sighandlerInfoHasDecider (g : Global) (k : Container) (node : Addr) : Except Fault Bool :=
  DList.find .node .stuck g.nodes node g.nextNode k.globalHandler.front

end Wg14Signals
