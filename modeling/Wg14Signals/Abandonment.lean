import Wg14Signals.Lib.Lockstep
import Wg14Signals.Dispatch

namespace Wg14Signals
open Lib

/-- What a decider does on top of the calls `base`, and what runs inside the calls it makes, where
the deciders that are asked only return decisions. -/
def GuardState.goesOn (base : List GuardCall) (s : GuardState) (act : GuardAction) : Bool :=
  base.isSuffixOf s.calls &&
    match act with
    | .abandon => s.calls == base
    | .resume => s.calls == base
    | .sigguarded _ _ _ _ _ => s.calls == base || (s.calls.head?.bind GuardCall.info).isNone
    | .raise _ _ => s.calls == base || (s.calls.head?.bind GuardCall.info).isNone
    | .decide _ => s.calls != base
    | .advance => true
    | .ret _ => true
    | _ => false

def GuardAction.abandons : GuardAction → Bool
  | .abandon => true
  | .resume => true
  | _ => false

/-- The global decider the innermost raise is inside of. -/
def GuardState.inNode (s : GuardState) : Option Addr :=
  match s.calls with
  | .raise _ _ (.deciding _ current _ _) :: _ => some current
  | _ => none

/-- No decision gives back the last reference on the node whose decider has been called with the
`rsi` and is abandoned. -/
def GuardState.spares (rsi : Addr) (s : GuardState) : GuardAction → Bool
  | .decide _ =>
    match (s.infos rsi).filter Siginfo.internalDeciderIsAbandoned, s.inNode with
    | some info, some current =>
      info.internalGlobalDecider != some current ||
        !(s.g.nodes current).any fun nd => nd.refcount == 1
    | _, _ => true
  | _ => true

def Siginfo.marked (info : Siginfo) (abandoned : Bool) : Siginfo :=
  { info with internalDeciderIsAbandoned := abandoned }

/-- One decision comes to the same in two states. -/
structure SameDecided (s t s' t' : GuardState) : Prop where
  calls : t.calls = t'.calls
  front : t.store.front = t'.store.front
  g : t.g = t'.g
  events : ∃ es, t.trace = es ++ s.trace ∧ t'.trace = es ++ s'.trace

/-- The state `u` is that of the entry `s` again, but for what the calls made in between have done
to what all threads share. -/
structure GuardState.Restores (p : Platform) (s u : GuardState) (who : Consulted) (info : Siginfo) :
    Prop where
  front : u.store.front = s.store.front
  container : ∀ item, info.internalSighandler = some item →
    (u.g.containers item).map Container.lifetimeRefcount =
      (s.g.containers item).map Container.lifetimeRefcount
  node : ∀ n, who = .global n →
    (u.g.nodes n).map Node.refcount = (s.g.nodes n).map Node.refcount
  /-- The decision is processed as at the entry. -/
  decides : ∀ d, Both (fun t t' => SameDecided u t (s.setG u.g) t') (guardStep p u (.decide d))
    (guardStep p (s.setG u.g) (.decide d))
  /-- The state is one without abandonments. -/
  plain : ∀ n, who = .global n →
    Run (guardStep p) (fun v act => v.goesOn s.calls act = true ∧ act.abandons = false) s u

/-- What `sigdecider_abandon` and `sigdecider_abandon_resume` come to in the decider entered
in `s`. -/
structure GuardState.Inverts (p : Platform) (s u : GuardState) (who : Consulted) (info : Siginfo)
    (rsi : Addr) : Prop where
  safe : ∀ act e, u.goesOn s.calls act = true → u.spares rsi act = true →
    guardStep p u act = .error e → e = .disabled
  /-- The flag alternates. -/
  flag : u.calls = s.calls → ∃ abandoned, u.infos rsi = some (info.marked abandoned) ∧
    (∃ t, guardStep p u .abandon = .ok t ∧ t.infos rsi = some (info.marked true) ∧
      (abandoned = true → t = u)) ∧
    ∃ t, guardStep p u .resume = .ok t ∧ t.infos rsi = some (info.marked false) ∧
      (abandoned = false → t = u)
  restores : u.calls = s.calls → u.infos rsi = some (info.marked false) → s.Restores p u who info

end Wg14Signals
