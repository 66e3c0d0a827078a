import Wg14Signals.Machine

namespace Wg14Signals
open Lib

/-- A slot of a decider handle that still stands for a reference on its node. -/
structure Slot where
  owner : Nat
  signo : Signo
  node : Addr

/-- The filled slots among those belonging, in order, to the given signals. -/
def slotsOf (owner : Nat) (signos : List Signo) (slots : List (Option Addr)) : List Slot :=
  (signos.zip slots).filterMap fun x => x.2.map fun n => ⟨owner, x.1, n⟩

/-- The slots of a handle under construction, or those a destroy has still to visit. -/
def Act.slots (p : Platform) (a : Act) : List Slot :=
  match a.call with
  | .create args filled => slotsOf args.owner (p.members args.guarded) filled
  | .destroy handle guarded retp todo _ => slotsOf handle (todo.filter guarded) retp
  | _ => []

def Handle.pending (p : Platform) (h : Handle) : List Slot :=
  slotsOf h.id (p.members h.guarded) h.slots

/-- Every reference that decider handles hold on nodes. -/
def State.pending (p : Platform) (s : State) : List Slot :=
  s.handles.flatMap (Handle.pending p) ++ (s.acts ++ s.lost).flatMap (Act.slots p)

/-- How many of them are on one node. -/
def State.handleRefs (p : Platform) (s : State) (n : Addr) : Nat :=
  ((s.pending p).map Slot.node).count n

/-- The references a raise inside a global decider has on a container and on the
node whose decider it is calling. -/
structure Hold where
  raise : Nat
  item : Addr
  node : Addr
  deriving DecidableEq

/-- An abandoned raise has given both back. -/
def Act.holds (a : Act) : List Hold :=
  match a.call with
  | .raise r =>
    match r.phase with
    | .deciding pin => if pin.abandoned then [] else [⟨a.id, pin.item, pin.current⟩]
    | _ => []
  | _ => []

/-- Has the decider the call is inside declared that it may never return? -/
def Act.abandoned (a : Act) : Bool :=
  match a.call with
  | .raise r =>
    match r.phase with
    | .deciding pin => pin.abandoned
    | _ => false
  | _ => false

/-- The references of the raises in progress. -/
def State.inside (s : State) : List Hold := s.acts.flatMap Act.holds

/-- Every reference that raises hold, those discarded by a recovery jump included. -/
def State.holds (s : State) : List Hold := (s.acts ++ s.lost).flatMap Act.holds

/-- The handle a call is destroying. -/
def Act.destroying (a : Act) : Option Nat :=
  match a.call with
  | .destroy handle _ _ _ _ => some handle
  | _ => none

/-- The handle a call is filling. -/
def Act.creating (a : Act) : Option Nat :=
  match a.call with
  | .create args _ => some args.owner
  | _ => none

/-- The handle a call is filling or destroying. -/
def Act.owner (a : Act) : Option Nat :=
  match a.call with
  | .create args _ => some args.owner
  | .destroy handle _ _ _ _ => some handle
  | _ => none

/-- The handles not yet destroyed to the end, complete or not. -/
def State.owners (s : State) : List Nat :=
  s.handles.map Handle.id ++ (s.acts ++ s.lost).filterMap Act.owner

/-- The handles whose destruction has not begun, complete or not. -/
def State.intact (s : State) : List Nat :=
  s.handles.map Handle.id ++ (s.acts ++ s.lost).filterMap Act.creating

/-- The node whose handle gives back its reference in the next section of a call,
and the container `signal_decider_destroy` searches for it: the mapped one, or
none once it has unlocked. -/
def Act.drops (g : Global) (a : Act) : Option (Addr × Option Addr) :=
  match a.call with
  | .destroy _ guarded (some n :: _) (signo :: _) unlocked =>
    if guarded signo then
      if unlocked then some (n, none) else (g.map signo).map fun item => (n, some item)
    else none
  | _ => none

/-- The calls whose stack frames the step's recovery jump discards. -/
def State.discards (s : State) : Action → List Act
  | .decide t .callRecovery =>
    match (s.top t).map Act.call with
    | some (.raise r) =>
      match r.phase with
      | .frames (f :: _) => if f.recovery then s.acts.filter (discarded t f) else []
      | _ => []
    | _ => []
  | _ => []

def State.drops (s : State) : Action → Option (Addr × Option Addr)
  | .advance t _ => (s.top t).bind (Act.drops s.g)
  | _ => none

/-- The container in which the next section of a call registers a node, and whether the
node goes to the front of the list. -/
def Act.registers (p : Platform) (g : Global) (a : Act) : Option (Addr × Bool) :=
  match a.call with
  | .create args filled =>
    match (p.members args.guarded).drop filled.length with
    | signo :: _ => (g.map signo).map fun item => (item, args.callfirst)
    | [] => none
  | _ => none

def State.registers (p : Platform) (s : State) : Action → Option (Addr × Bool)
  | .advance t _ => (s.top t).bind (Act.registers p s.g)
  | _ => none

/-- The references of a thread's innermost raise. -/
def State.topHolds (s : State) (t : Tid) : List Hold := ((s.top t).map Act.holds).getD []

/-- The references given back because a decider returns. The raise may go on to another
node, and then it keeps the one on the container. -/
def State.unpins (s : State) : Action → List Hold
  | .decide t _ => s.topHolds t
  | _ => []

/-- The references given back because a decider is abandoned. -/
def State.abandons (s : State) : Action → List Hold
  | .abandon t => s.topHolds t
  | _ => []

/-- Exactly one reference is left on the node. -/
def LastRef (g : Global) (n : Addr) : Prop := ∃ nd, g.nodes n = some nd ∧ nd.refcount = 1

/-- The node is linked in the `global_handler` list of an unfreed container. -/
def LinkedIn (g : Global) (c n : Addr) : Prop :=
  ∃ k, g.containers c = some k ∧ DList.Reaches g.nodes k.globalHandler.front n

end Wg14Signals
