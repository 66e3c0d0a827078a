import Mathlib.Data.Finset.Card
import Wg14Signals.TssMachine

namespace Wg14Signals
open Lib

def TssAction.tid : TssAction → Tid
  | .create t _ => t
  | .threadInit t _ => t
  | .get t _ => t
  | .destroy t _ => t
  | .created t _ => t
  | .advance t _ => t
  | .exit t => t
  | .runAtexit t => t

/-- The calls one thread is in, innermost first. -/
def TssState.calls (s : TssState) (t : Tid) : List TssCall :=
  (s.acts.filter fun a => a.tid == t).map TssAct.call

/-- Where a call stands, if it is a `thread_init` on the instance. -/
def TssCall.initPc (val : Addr) : TssCall → Option InitPc
  | .threadInit v pc => if v = val then some pc else none
  | _ => none

/-- The `thread_init` calls on the instance one thread is in, innermost first. -/
def TssState.inits (s : TssState) (t : Tid) (val : Addr) : List InitPc :=
  (s.calls t).filterMap (TssCall.initPc val)

/-- The item with which the thread's innermost `attr.create` has returned. -/
def TssState.newitem (s : TssState) (t : Tid) : Option Value :=
  match s.top t with
  | some ⟨_, .threadInit _ (.insert _ newitem)⟩ => some newitem
  | _ => none

/-- A state, and what the program has done to reach it. -/
structure TssHistory where
  state : TssState
  /-- The items all `attr.create` callbacks returned, the last one first. -/
  produced : List Value
  /-- Whether the thread has called `thread_init` on the instance. -/
  called : Tid → Addr → Bool
  /-- The item the first of these calls created. Those made from within it come after it. -/
  first : Tid → Addr → Option Value

def TssHistory.initial (currentThreadId : Tid → UInt64) : TssHistory where
  state := .initial currentThreadId
  produced := []
  called := fun _ _ => false
  first := fun _ _ => none

/-- Whether the step is a call of `thread_init`. -/
def TssAction.calls (act : TssAction) (t : Tid) (val : Addr) : Bool :=
  match act with
  | .threadInit u v => u == t && v == val
  | _ => false

/-- Whether the step is an `attr.create` that returns an item. -/
def TssAction.produces : TssAction → Bool
  | .created _ .item => true
  | _ => false

/-- The thread's innermost `attr.create` has returned an item. -/
def TssHistory.produce (h : TssHistory) (t : Tid) : TssHistory :=
  match h.state.newitem t with
  | none => h
  | some item =>
    { h with
      produced := item :: h.produced
      first := fun u val =>
        if u = t ∧ val = item.val ∧ h.first t val = none ∧ (h.state.inits t val).length = 1
        then some item else h.first u val }

def historyStep (h : TssHistory) (act : TssAction) : Except TssFault TssHistory := do
  let state ← tssStep h.state act
  let h := { h with state, called := fun t val => h.called t val || act.calls t val }
  pure (if act.produces then h.produce act.tid else h)

/-- No callback and no allocation fails in the step. -/
def TssAction.succeeds : TssAction → Bool
  | .created _ .item => true
  | .created _ _ => false
  | .advance _ env => env.insert && env.calloc && env.atexit
  | _ => true

def TssAction.destroys : TssAction → Bool
  | .destroy _ _ => true
  | _ => false

/-- The threads of the process use their instances, nothing fails, and none is destroyed. -/
structure Isolated (threads : Finset Tid) (h : TssHistory) (act : TssAction) : Prop where
  thread : act.tid ∈ threads
  succeeds : act.succeeds = true
  kept : act.destroys = false

/-- The instance a call is at work on. A `deinit` is once it has read its `deinit_state`. -/
def TssCall.on : TssCall → Option Addr
  | .threadInit val _ => some val
  | .deinit _ (.lookup val) => some val
  | .deinit _ (.callback val _ _) => some val
  | .deinit _ (.erase val _ _) => some val
  | .deinit _ _ => none
  | .destroy val _ => some val

/-- The low half of a thread's keys, which is what the kernel tells threads apart by. -/
def TssMem.tid32 (m : TssMem) (t : Tid) : UInt32 := (m.currentThreadId t).toUInt32

/-- Threads that live at the same time have different ids; `thread_init` on the instance is
not entered again by a thread that is inside it, nor while `destroy` runs; and `destroy` begins
when no call is at work on the instance. -/
structure Tended (i : Addr) (h : TssHistory) (act : TssAction) : Prop where
  ids : ∀ a ∈ h.state.acts, a.tid ≠ act.tid →
    h.state.mem.tid32 a.tid ≠ h.state.mem.tid32 act.tid
  init : ∀ t, act = .threadInit t i →
    h.state.inits t i = [] ∧ ∀ a ∈ h.state.acts, ∀ pc, a.call ≠ .destroy i pc
  destroy : ∀ t, act = .destroy t i → ∀ a ∈ h.state.acts, a.call.on ≠ some i

end Wg14Signals
