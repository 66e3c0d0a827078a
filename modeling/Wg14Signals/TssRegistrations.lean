import Wg14Signals.TssHistory

namespace Wg14Signals
open Lib

/-- The `deinit_state` an instance has by now. -/
def TssMem.blockOf (m : TssMem) (val : Addr) : Option Addr := (m.instances val).bind Tss.state

/-- The `deinit_state` a call holds a registration on: `thread_init` has counted its thread and
has yet to call `thread_atexit`, or `thread_deinit` has yet to count it out. -/
def TssCall.registered (m : TssMem) : TssCall → Option Addr
  | .threadInit val .register => m.blockOf val
  | .deinit state _ => state
  | _ => none

/-- How often a thread is registered on a `deinit_state`: more than once if a signal handler
has entered `thread_init` again. -/
def TssState.registrations (s : TssState) (state : Addr) (t : Tid) : Nat :=
  (s.mem.atexitItems t).count (some state) +
    s.acts.countP fun a => a.tid == t && a.call.registered s.mem == some state

/-- `thread_atexit` succeeds; `thread_init` is not called on an instance while `destroy` runs
on it, and `destroy` begins when no call is at work on the instance. -/
structure DestroyAlone (s : TssState) (act : TssAction) : Prop where
  registers : ∀ t env, act = .advance t env → env.atexit = true
  init : ∀ t i, act = .threadInit t i → ∀ a ∈ s.acts, ∀ pc, a.call ≠ .destroy i pc
  destroy : ∀ t i, act = .destroy t i → ∀ a ∈ s.acts, a.call.on ≠ some i

/-- Whether the step is one of a `thread_deinit`. -/
def TssState.deinits (s : TssState) : TssAction → Bool
  | .advance t _ =>
    match s.top t with
    | some ⟨_, .deinit _ _⟩ => true
    | _ => false
  | .runAtexit _ => true
  | _ => false

/-- Whether the step begins a `thread_init` or a `destroy`. -/
def TssAction.enters : TssAction → Bool
  | .threadInit _ _ => true
  | .destroy _ _ => true
  | _ => false

end Wg14Signals
