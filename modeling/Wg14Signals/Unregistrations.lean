import Wg14Signals.Registrations

namespace Wg14Signals
open Lib

/-- What `signal_decider_create` has put into the handle's slot for the signal, if it has come to
the signal. -/
def Visited.filled (w : Visited) (handle : Nat) (signo : Signo) : Option Addr :=
  (w.visits.find? fun v => v.handle == handle && v.signo == signo).bind Visit.slot

/-- The nodes made for a handle. -/
def Visited.made (w : Visited) (handle : Nat) : List Addr :=
  (w.visits.filter fun v => v.handle == handle).filterMap Visit.slot

/-- The deciders of a signal, in their order. -/
def Global.deciders (g : Global) (signo : Signo) : List Addr :=
  match (g.map signo).bind g.containers with
  | none => []
  | some k => DList.walk g.nodes g.nextNode k.globalHandler.front

/-- Those not registered for the handle. -/
def Visited.others (w : Visited) (handle : Nat) (signo : Signo) : List Addr :=
  (w.state.g.deciders signo).filter fun n => !(w.made handle).contains n

/-- The nodes that are there no longer in `g'`. -/
def Global.freed (g g' : Global) : List Addr :=
  (List.range g.nextNode).filter fun n => (g.nodes n).isSome && (g'.nodes n).isNone

/-- The handle whose `signal_decider_destroy` has its next section in the step. -/
def State.destroys (s : State) : Action → Option Nat
  | .advance t _ => (s.top t).bind Act.destroying
  | _ => none

/-- The handle for which a call makes nodes, or gives them back, in the step. -/
def State.worksOn (s : State) : Action → Option Nat
  | .advance t _ => (s.top t).bind Act.owner
  | _ => none

/-- No section of `signal_decider_destroy` runs while a raise is inside a global decider. -/
def State.undisturbed (s : State) (act : Action) : Bool :=
  (s.destroys act).isNone || s.holds.isEmpty

/-- The library together with a record of all visits, and of the nodes freed, with the handle that
was being destroyed each time. -/
structure Accounts where
  visited : Visited
  freed : List (Option Nat × Addr) := []

def accountsStep (p : Platform) (w : Accounts) (act : Action) : Except Fault Accounts := do
  let v ← visitedStep p w.visited act
  let new := w.visited.state.g.freed v.state.g
  pure { visited := v
         freed := w.freed ++ new.map fun n => (w.visited.state.destroys act, n) }

def Accounts.initial (kernel : Signo → Sigaction) : Accounts where
  visited := { state := State.initial kernel }

def Accounts.state (w : Accounts) : State := w.visited.state

/-- What has been freed in the destruction of a handle. -/
def Accounts.freedBy (w : Accounts) (handle : Nat) : List Addr :=
  (w.freed.filter fun x => x.1 == some handle).map Prod.snd

/-- One thread goes on with a call for this handle. -/
def Accounts.continues (t : Tid) (handle : Nat) (w : Accounts) (act : Action) : Prop :=
  (∃ env, act = .advance t env) ∧ w.state.worksOn act = some handle ∧
    w.state.undisturbed act = true

/-- Every destruction of a handle has undone, or is undoing, what its creation has done, and
nothing else. -/
structure Undoes (p : Platform) (w : Accounts) : Prop where
  /-- The slot `signal_decider_destroy` comes to for a signal is there, and holds what
  `signal_decider_create` has put into it for the signal, until it is made null. -/
  slots : ∀ a ∈ w.state.acts, ∀ handle guarded retp signo todo unlocked,
    a.call = .destroy handle guarded retp (signo :: todo) unlocked → guarded signo = true →
    ∃ slot rest, retp = slot :: rest ∧
      (slot = w.visited.filled handle signo ∨ unlocked = true ∧ slot = none)
  /-- Nodes are freed in the destruction of their own handles only, and once. -/
  owned : ∀ x ∈ w.freed, ∃ handle, x.1 = some handle ∧ x.2 ∈ w.visited.made handle
  once : (w.freed.map Prod.snd).Nodup
  /-- Of a handle that is gone all nodes have been freed, and none of them is on a list. -/
  all : ∀ handle, handle ∉ w.state.owners →
    (w.freedBy handle).Perm (w.visited.made handle) ∧
      ∀ n ∈ w.visited.made handle, w.state.g.nodes n = none ∧
        ∀ signo, n ∉ w.state.g.deciders signo
  /-- The others stay where they are, and in their order. -/
  others : ∀ act w' handle, w.state.undisturbed act = true → accountsStep p w act = .ok w' →
    w.state.worksOn act = some handle → w'.state.g.map = w.state.g.map ∧
      (∀ n, n ∉ w'.visited.made handle →
        (w'.state.g.nodes n).isSome = (w.state.g.nodes n).isSome) ∧
      ∀ signo, w'.visited.others handle signo = w.visited.others handle signo
  /-- A destruction comes to its end. -/
  ends : ∀ t a handle, w.state.top t = some a → a.destroying = some handle →
    w.state.holds = [] →
    ∃ w', Run (accountsStep p) (Accounts.continues t handle) w w' ∧ handle ∉ w'.state.owners
  /-- A `signal_decider_create` that returns null leaves the lists as they were. -/
  failed : ∀ t guarded callfirst decider value malloc w₁ w',
    accountsStep p w (.create t guarded callfirst decider value malloc) = .ok w₁ →
    Run (accountsStep p) (Accounts.continues t w.state.nextId) w₁ w' →
    w.state.nextId ∉ w'.state.owners → ∀ signo,
      w'.state.g.deciders signo = w.state.g.deciders signo

end Wg14Signals
