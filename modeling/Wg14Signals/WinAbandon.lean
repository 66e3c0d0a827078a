import Mathlib.Data.List.Infix
import Wg14Signals.Lib.Stacks
import Wg14Signals.Windows

namespace Wg14Signals
open Lib

/-- A `stdc_siginfo` with its member for the Windows state. -/
structure WinSiginfo extends Siginfo where
  internalWinState : Option Addr := none
  deriving DecidableEq, Repr

/-- The references an abandoned decider's raise holds are given back, or taken again. -/
def shiftLifetime (g : Global) (item : Option Addr) (delta : Int) : Except Fault Global :=
  match item with
  | none => pure g
  | some item => do
    let k ← g.readContainer item
    pure (g.setContainer item { k with lifetimeRefcount := k.lifetimeRefcount + delta })

def shiftRefcount (g : Global) (current : Option Addr) (delta : Int) : Except Fault Global :=
  match current with
  | none => pure g
  | some current => do
    let nd ← g.readNode (some current)
    pure (g.setNode current (some { nd with refcount := nd.refcount + delta }))

def shiftReferences (g : Global) (rsi : WinSiginfo) (delta : Int) : Except Fault Global := do
  let g ← shiftLifetime g rsi.internalSighandler delta
  shiftRefcount g rsi.internalGlobalDecider delta

/-- The frame that `internal_local_decider` points to is popped. -/
def WinState.popLocal (s : WinState) (tss : WinTss) (r : Option Addr) :
    Except ThreadFault WinTss :=
  match r with
  | none => pure tss
  | some r =>
    if tss.front ≠ some r then throw .aborted
    else do
      let l ← s.raises.read .frame (some r)
      pure { tss with front := l.prev }

def WinState.popInitiated (s : WinState) (tss : WinTss) (rsi : WinSiginfo) :
    Except ThreadFault (WinTss × WinSiginfo) :=
  match tss.initiated with
  | none => pure (tss, rsi)
  | some r => do
    let l ← s.raises.read .frame (some r)
    pure ({ tss with initiated := l.winPrev }, { rsi with internalWinState := some r })

/-- The topmost frame is popped, and `internal_local_decider` is pointed to it. -/
def WinState.popTop (s : WinState) (tss : WinTss) (rsi : WinSiginfo) :
    Except ThreadFault (WinTss × WinSiginfo) :=
  match tss.front with
  | none => pure (tss, rsi)
  | some r => do
    let l ← s.raises.read .frame (some r)
    pure ({ tss with front := l.prev }, { rsi with internalLocalDecider := some r })

/-- `sigdecider_abandon` on Windows. -/
def winSigdeciderAbandon (s : WinState) (rsi : WinSiginfo) :
    Except ThreadFault (WinState × WinSiginfo) :=
  if rsi.internalDeciderIsAbandoned then pure (s, rsi)
  else do
    let tss ← s.readTss
    let tss ← s.popLocal tss rsi.internalLocalDecider
    let (tss, rsi) ← s.popInitiated tss rsi
    if rsi.internalSighandler.isSome || rsi.internalGlobalDecider.isSome then do
      let g ← ofLib (shiftReferences s.g rsi (-1))
      let (tss, rsi) ← s.popTop tss rsi
      pure ((s.setG g).setTss tss, { rsi with internalDeciderIsAbandoned := true })
    else
      pure (s.setTss tss, { rsi with internalDeciderIsAbandoned := true })

def WinState.unpopInitiated (s : WinState) (tss : WinTss) (r : Option Addr) :
    Except ThreadFault WinTss :=
  match r with
  | none => pure tss
  | some r => do
    let l ← s.raises.read .frame (some r)
    if l.winPrev ≠ tss.initiated then throw .aborted else pure { tss with initiated := some r }

def WinState.unpopLocal (s : WinState) (tss : WinTss) (r : Option Addr) :
    Except ThreadFault WinTss :=
  match r with
  | none => pure tss
  | some r => do
    let l ← s.raises.read .frame (some r)
    if tss.front ≠ l.prev then throw .aborted else pure { tss with front := some r }

/-- `sigdecider_abandon_resume` on Windows. -/
def winSigdeciderAbandonResume (s : WinState) (rsi : WinSiginfo) :
    Except ThreadFault (WinState × WinSiginfo) :=
  if rsi.internalDeciderIsAbandoned then do
    let tss ← s.readTss
    let tss ← s.unpopInitiated tss rsi.internalWinState
    let tss ← s.unpopLocal tss rsi.internalLocalDecider
    let g ← ofLib (shiftReferences s.g rsi 1)
    pure ((s.setG g).setTss tss, { rsi with internalDeciderIsAbandoned := false })
  else pure (s, rsi)

/-- What a decider may call in between. -/
inductive AbandonCall where
  | abandon
  | resume
  deriving DecidableEq, Repr

def AbandonCall.run (r : WinState × WinSiginfo) : AbandonCall → Except ThreadFault (WinState × WinSiginfo)
  | .abandon => winSigdeciderAbandon r.1 r.2
  | .resume => winSigdeciderAbandonResume r.1 r.2

/-- None of these calls aborts, and wherever the last that has had an effect was that of
`sigdecider_abandon_resume`, both chains and all references are as they were. -/
def TakenBack (s : WinState) (r : WinState × WinSiginfo) (ops : List AbandonCall) : Prop :=
  ∀ pre, pre <+: ops → ∃ r', pre.foldlM AbandonCall.run r = .ok r' ∧
    (r'.2.internalDeciderIsAbandoned = false → r'.1.tss = s.tss ∧ r'.1.g = s.g)

/-- How often an abandonment is taken back. -/
def rounds : Bool → List AbandonCall → Nat
  | _, [] => 0
  | false, .abandon :: ops => rounds true ops
  | true, .resume :: ops => rounds false ops + 1
  | abandoned, _ :: ops => rounds abandoned ops

/-- Whose decider has been called with the `rsi`. A global decider gets that of those before it in
the pass, which may have abandoned the raise and taken that back. -/
inductive CalledWith (s : WinState) (rsi : WinSiginfo) : Prop where
  | frame (tss : WinTss) (ht : s.tss = some tss) (hs : rsi.internalSighandler = none)
      (hg : rsi.internalGlobalDecider = none) (hl : rsi.internalLocalDecider = tss.front)
      (hw : rsi.internalWinState = none)
  | global (item current : Addr) (k : Container) (nd : Node)
      (hs : rsi.internalSighandler = some item) (hg : rsi.internalGlobalDecider = some current)
      (hk : s.g.containers item = some k) (hn : s.g.nodes current = some nd)
      (hl : rsi.internalLocalDecider = none ∧ rsi.internalWinState = none ∨
        rsi.internalLocalDecider = s.tss.bind WinTss.front ∧
          rsi.internalWinState = s.tss.bind WinTss.initiated)

/-- A decider is running, and its raise is not abandoned. Both chains of the thread link these
raises, innermost first. -/
structure WinDeciding (s : WinState) (chain : List Addr) (rsi : WinSiginfo) : Prop where
  front : Path s.raises WinRaise.prev (s.tss.bind WinTss.front) chain
  initiated : Path s.raises WinRaise.winPrev (s.tss.bind WinTss.initiated) chain
  called : CalledWith s rsi
  ready : rsi.internalDeciderIsAbandoned = false

end Wg14Signals
