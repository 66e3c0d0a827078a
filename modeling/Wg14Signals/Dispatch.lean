import Wg14Signals.Guards

namespace Wg14Signals
open Lib

/-- The shortest prefix that ends in a hit, or the whole list where there is none. -/
def upTo {α : Type} (q : α → Bool) : List α → List α
  | [] => []
  | a :: l => if q a then [a] else a :: upTo q l

/-- Does the decision of a decider end the search? A guard that cannot recover does not claim a
raise by asking for it. -/
def claims (recovery : Addr → Bool) (dec : Consulted → Decision) (who : Consulted) : Bool :=
  match dec who, who with
  | .nextDecider, _ => false
  | .resumeExecution, _ => true
  | .callRecovery, .frame a => recovery a
  | .callRecovery, .global _ => true

/-- How the consultation of the deciders ends. -/
inductive Verdict where
  | recovered (frame : Addr)
  | claimed
  | unclaimed
  deriving DecidableEq, Repr

/-- What the decision of the one that claims comes to. -/
def verdictBy (dec : Consulted → Decision) : Consulted → Verdict
  | .frame a => if dec (.frame a) = .callRecovery then .recovered a else .claimed
  | .global _ => .claimed

/-- The first that claims decides. -/
def verdict (recovery : Addr → Bool) (dec : Consulted → Decision) (l : List Consulted) : Verdict :=
  ((l.find? (claims recovery dec)).map (verdictBy dec)).getD .unclaimed

/-- The deciders for a signal in the order of their installation being looked at: those of the
guards, innermost first, and the global ones. -/
def candidates (guarded : Addr → Option SigSet) (signo : Signo) (guards ns : List Addr) :
    List Consulted :=
  (guards.filter fun a => (guarded a).any fun set => set signo).map .frame ++ ns.map .global

/-- What the library knows of a signal: the action from before it was installed, unless it is
not, and the nodes of its deciders, front to back, each of which a handle still refers to. -/
inductive Listed (g : Global) (signo : Signo) : Option Sigaction → List Addr → Prop where
  | absent (hm : g.map signo = none) : Listed g signo none []
  | present (item : Addr) (k : Container) {ns : List Addr} (hm : g.map signo = some item)
      (hc : g.containers item = some k) (hl : 0 < k.lifetimeRefcount)
      (hs : DList.IsList g.nodes k.globalHandler ns)
      (hn : ∀ n ∈ ns, ∃ nd, g.nodes n = some nd ∧ 0 < nd.refcount) :
      Listed g signo (some k.oldHandler) ns

/-- The guard stack of the thread links these frames, innermost first. Each is that of a
`sigguarded` call inside its guarded function. -/
structure GuardState.Stands (s : GuardState) (guards : List Addr) : Prop where
  live : ∀ a, s.store.slot.own = some a → ∃ state, s.store.states a = some state
  front : s.store.front = guards.head?
  active : ∀ pre a post, guards = pre ++ a :: post → ∃ f xs rest, s.frames a = some f ∧
    f.prev = post.head? ∧ s.calls = xs ++ .sigguarded a s.store.slot.own f.prev false :: rest ∧
    ∀ c ∈ xs, c.holds a = false

def GuardState.recovers (s : GuardState) (a : Addr) : Bool :=
  (s.frames a).any GuardFrame.recovery

def GuardState.guardSet (s : GuardState) (a : Addr) : Option SigSet :=
  (s.frames a).map GuardFrame.guarded

/-- What a raise does next where deciders only return decisions and handlers return. -/
def GuardPc.quietly (dec : Consulted → Decision) : GuardPc → GuardAction
  | .asking frame _ => .decide (dec (.frame frame))
  | .deciding _ n _ _ => .decide (dec (.global n))
  | .handler _ => .ret 0
  | _ => .advance

def GuardState.quietly (dec : Consulted → Decision) (s : GuardState) : GuardAction :=
  match s.calls with
  | .raise _ _ pc :: _ => pc.quietly dec
  | _ => .advance

def GuardEvent.who : GuardEvent → Option Consulted
  | .asked _ who _ => some who
  | _ => none

/-- The deciders called so far, in their order. -/
def GuardState.consulted (s : GuardState) : List Consulted :=
  s.trace.reverse.filterMap GuardEvent.who

/-- Everything else that has been seen so far. -/
def GuardState.outcomes (s : GuardState) : List GuardEvent :=
  s.trace.reverse.filter fun e => e.who.isNone

/-- What becomes of a raise nobody claims: it fails where the signal is not installed, and has
the action from before the install otherwise. -/
def unclaimedOutcome (p : Platform) (signo : Signo) : Option Sigaction → List GuardEvent
  | none => [.raised false]
  | some sa =>
    match invokeSigaction p sa signo with
    | .calls h => [.handled h, .raised true]
    | _ => [.raised true]

/-- How `stdc_raise` ends: by its return, or in the recovery function of a guard, whose result
is what the `sigguarded` call returns. -/
def GuardState.Ended (p : Platform) (args : RaiseArgs) (entry : Option Sigaction)
    (s s' : GuardState) : Verdict → Prop
  | .recovered a => ∃ f info xs rest, s.frames a = some f ∧
    s.calls = xs ++ .sigguarded a s.store.slot.own f.prev false :: rest ∧
    s'.calls = .sigguarded a s.store.slot.own f.prev true :: rest ∧ s'.store.front = f.prev ∧
    s'.outcomes = s.outcomes ++ [.recovered a info] ∧
    info.toPublicInfo = args.presents f.rsi.value ∧
    ∀ value, ∃ t, guardStep p s' (.ret value) = .ok t ∧ t.calls = rest ∧
      t.store.front = f.prev ∧ t.outcomes = s'.outcomes ++ [.returned value]
  | .claimed => s'.calls = s.calls ∧ s'.store.front = s.store.front ∧
    s'.outcomes = s.outcomes ++ [.raised true]
  | .unclaimed => s'.calls = s.calls ∧ s'.store.front = s.store.front ∧
    s'.outcomes = s.outcomes ++ unclaimedOutcome p args.signo entry

end Wg14Signals
