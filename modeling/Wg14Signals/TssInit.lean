import Wg14Signals.TssMachine

namespace Wg14Signals
open Lib

/-- How one call of `attr.create` goes: what it returns, and what it leaves in `*dest`. -/
structure CreateOutcome where
  ret : Int
  newitem : Option Value

/-- The item of the call. A callback that reports failure has made none. -/
def CreateOutcome.item (c : CreateOutcome) : Option Value := if c.ret = 0 then c.newitem else none

/-- `thread_init` from its second critical section on: what it returns, and the items it
passes to `attr.destroy`. -/
def threadInitKeep (env : TssEnv) (m : TssMem) (t : Tid) (val : Addr) (mytid : Key)
    (newitem : Value) : Except TssFault (Int × List Value × TssMem) := do
  let (kept, m) ← threadInitInsert env m val mytid newitem
  if kept then
    let (res, m) ← threadInitRegister env m t val
    pure (res, [], m)
  else pure (-1, [newitem], m)

/-- `tss_async_signal_safe_thread_init`, with nothing between its critical sections but its
own callbacks. -/
def tssAsyncSignalSafeThreadInit (env : TssEnv) (c : CreateOutcome) (m : TssMem) (t : Tid)
    (val : Addr) : Except TssFault (Int × List Value × TssMem) := do
  let (ret, mytid, m) ← tssLookup m t val
  match ret with
  | some _ => pure (0, [], m)
  | none =>
    if c.ret ≠ 0 then pure (c.ret, [], m)
    else
      match c.newitem with
      | none => pure (-1, [], m)
      | some newitem => threadInitKeep env m t val mytid newitem

/-- What a `thread_init` fails in. -/
inductive InitFailure where
  | create
  | null
  | insert
  | calloc
  | atexit
  deriving DecidableEq

/-- What the call fails in, on a thread that has no entry. -/
def TssEnv.failure (env : TssEnv) (c : CreateOutcome) (mem : Tss) : Option InitFailure :=
  if c.ret ≠ 0 then some .create
  else if c.newitem = none then some .null
  else if env.insert = false then some .insert
  else if mem.state = none ∧ env.calloc = false then some .calloc
  else if env.atexit = false then some .atexit
  else none

/-- A call has failed and left everything as it was: the item is destroyed, nothing is kept
of it, and the thread may begin again. -/
structure InitUndone (m : TssMem) (t : Tid) (val : Addr) (c : CreateOutcome) (res : Int)
    (destroyed : List Value) (m' : TssMem) : Prop where
  fails : res ≠ 0
  instances : m'.instances = m.instances
  states : m'.states = m.states
  destroyed : destroyed = c.item.toList
  get : tssAsyncSignalSafeGet m' t val = .ok none
  again : ∀ env c, tssAsyncSignalSafeThreadInit env c m' t val =
    tssAsyncSignalSafeThreadInit env c m t val

end Wg14Signals
