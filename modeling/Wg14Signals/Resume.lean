import Wg14Signals.Holdings

namespace Wg14Signals
open Lib

/-- The critical section of `sigdecider_abandon_resume` in a global decider. It goes
by the pointers in the `stdc_siginfo`, to which nothing refers any more. -/
def sigdeciderAbandonResume (g : Global) (item current : Addr) : Except Fault Global := do
  let k ← g.readContainer item
  let g := g.setContainer item { k with lifetimeRefcount := k.lifetimeRefcount + 1 }
  let nd ← g.readNode (some current)
  pure (g.setNode current (some { nd with refcount := nd.refcount + 1 }))

/-- What happens where deciders may also take an abandonment back. -/
inductive ResumeAction where
  | lib (act : Action)
  /-- The decider running in the thread's innermost raise calls
  `sigdecider_abandon_resume`. -/
  | resume (t : Tid)

def resumeStep (p : Platform) (s : State) : ResumeAction → Except Fault State
  | .lib act => step p s act
  | .resume t =>
    match s.top t with
    | some a =>
      match a.call with
      | .raise r =>
        match r.phase with
        | .deciding pin =>
          if pin.abandoned then do
            let g ← sigdeciderAbandonResume s.g pin.item pin.current
            let a := a.phase r (.deciding { pin with abandoned := false })
            pure { s with g, acts := a :: s.others t }
          else pure s
        | _ => throw .disabled
      | _ => throw .disabled
    | none => throw .disabled

/-- What an abandoned decider has given back and may yet ask for again. -/
def Act.parks (a : Act) : List Hold :=
  match a.call with
  | .raise r =>
    match r.phase with
    | .deciding pin => if pin.abandoned then [⟨a.id, pin.item, pin.current⟩] else []
    | _ => []
  | _ => []

def State.parked (s : State) : List Hold := s.acts.flatMap Act.parks

/-- The container an uninstall of the signal takes out of the map. -/
def Global.unmaps (g : Global) (signo : Signo) : List Addr :=
  (g.map signo).toList.filter fun c =>
    ((g.containers c).map Container.installCount) == some 1

/-- The containers on which a step gives back a reference: that of the map with the
last uninstall of a signal, and that of a raise that is done with its deciders. -/
def State.releases (s : State) : Action → List Addr
  | .advance t _ =>
    match (s.top t).map Act.call with
    | some (.rollback (signo :: _)) => s.g.unmaps signo
    | some (.siguninstall (signo :: _)) => s.g.unmaps signo
    | _ => []
  | .decide t d =>
    ((s.topHolds t).filter fun x =>
      d != .nextDecider || ((s.g.nodes x.node).bind fun nd => nd.links.next).isNone).map Hold.item
  | _ => []

end Wg14Signals
