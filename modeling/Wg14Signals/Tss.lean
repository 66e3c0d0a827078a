import Wg14Signals.Lib.Heap
import Wg14Signals.Lib.FinMap
import Wg14Signals.Signals

namespace Wg14Signals
open Lib

/-- The keys of `thread_id_to_tls_map_t`. -/
abbrev Key := UInt64

/-- A pointer an `attr.create` callback returned: the how-manieth it was, and for which
thread, instance and key the callback ran. The C pointer says none of this; nothing the
library does depends on it. -/
structure Value where
  serial : Nat
  tid : Tid
  val : Addr
  mytid : Key
  deriving DecidableEq

/-- Why a step could not be taken. Only `disabled` is no error of the code. -/
inductive TssFault where
  | disabled
  /-- An instance was reached through a null or dangling handle. -/
  | tss (p : Option Addr)
  /-- A `deinit_state` was reached through a null or dangling pointer. -/
  | state (p : Option Addr)
  /-- The sweep came back to an iterator whose entry is gone. -/
  | iterator
  deriving DecidableEq, Repr

structure DeinitState where
  count : Nat
  val : Option Addr
  deriving DecidableEq

/-- A `tss_async_signal_safe_s`. -/
structure Tss where
  state : Option Addr
  map : FinMap Key Value

structure TssMem where
  instances : Heap Tss
  nextInstance : Addr
  states : Heap DeinitState
  nextState : Addr
  /-- The kernel's ids. Only of threads that live at the same time are they distinct. -/
  currentThreadId : Tid → UInt64
  generationCounter : UInt64
  generationCached : Tid → UInt64
  /-- The arguments with which `tss_async_signal_safe_thread_deinit` is registered to run
  when the thread exits, last registered first. -/
  atexitItems : Tid → List (Option Addr)

def TssMem.initial (currentThreadId : Tid → UInt64) : TssMem where
  instances := Heap.empty
  nextInstance := 0
  states := Heap.empty
  nextState := 0
  currentThreadId
  generationCounter := 0
  generationCached := fun _ => 0
  atexitItems := fun _ => []

def TssMem.readTss (m : TssMem) (val : Addr) : Except TssFault Tss :=
  m.instances.read .tss (some val)

@[simps -fullyApplied]
def TssMem.setTss (m : TssMem) (val : Addr) (mem : Tss) : TssMem :=
  { m with instances := m.instances.set val (some mem) }

@[simps -fullyApplied]
def TssMem.setStates (m : TssMem) (states : Heap DeinitState) : TssMem := { m with states }

/-- The thread's generation, the first use drawing it from the shared counter. -/
def TssMem.drawGeneration (m : TssMem) (t : Tid) : TssMem :=
  if m.generationCached t = 0 then
    { m with
      generationCounter := m.generationCounter + 1
      generationCached := fun u =>
        if u = t then 1 + m.generationCounter else m.generationCached u }
  else m

/-- The composite key, and what computing it leaves behind. -/
def TssMem.myCurrentThreadId (m : TssMem) (t : Tid) : Key × TssMem :=
  let m := m.drawGeneration t
  ((m.generationCached t <<< 32) ||| (m.currentThreadId t).toUInt32.toUInt64, m)

/-- The key of a thread. -/
def TssMem.key (m : TssMem) (t : Tid) : Key := (m.myCurrentThreadId t).1

/-- The thread has a key, and it is that of no other thread. -/
def TssMem.KeyApart (m : TssMem) (t : Tid) : Prop :=
  m.generationCached t ≠ 0 ∧ ∀ u, m.generationCached u ≠ 0 → m.key u = m.key t → u = t

/-- `tss_async_signal_safe_create`, the allocation having succeeded. -/
def tssCreate (m : TssMem) : Addr × TssMem :=
  (m.nextInstance,
    { m with
      instances := m.instances.set m.nextInstance (some { state := none, map := .empty })
      nextInstance := m.nextInstance + 1 })

/-- The critical section of `tss_async_signal_safe_get`, which is also the first one of
`thread_init`: the thread's key, and what the map holds under it. -/
def tssLookup (m : TssMem) (t : Tid) (val : Addr) :
    Except TssFault (Option Value × Key × TssMem) := do
  let (mytid, m) := m.myCurrentThreadId t
  let mem ← m.readTss val
  pure (mem.map.get mytid, mytid, m)

def tssAsyncSignalSafeGet (m : TssMem) (t : Tid) (val : Addr) :
    Except TssFault (Option Value) := do
  let (ret, _, _) ← tssLookup m t val
  pure ret

/-- What the allocator and the hash table decide. -/
structure TssEnv where
  insert : Bool := true
  calloc : Bool := true
  atexit : Bool := true
  /-- Where the table puts a new key among those it has. -/
  pos : Nat := 0

/-- The second critical section of `thread_init`. False: the new item was not kept. -/
def threadInitInsert (env : TssEnv) (m : TssMem) (val : Addr) (mytid : Key) (newitem : Value) :
    Except TssFault (Bool × TssMem) := do
  let mem ← m.readTss val
  if env.insert then
    let map := mem.map.insert mytid newitem env.pos
    match mem.state with
    | none =>
      if env.calloc then
        let m := m.setTss val { state := some m.nextState, map }
        pure (true, { m with
          states := m.states.set m.nextState (some { count := 1, val := some val })
          nextState := m.nextState + 1 })
      else pure (false, m.setTss val { mem with map := map.erase mytid })
    | some state =>
      let states ← m.states.update .state (some state) fun st => { st with count := st.count + 1 }
      pure (true, (m.setTss val { mem with map }).setStates states)
  else pure (false, m)

/-- The end of `thread_init`: `thread_atexit` with the state the instance has by now. -/
def threadInitRegister (env : TssEnv) (m : TssMem) (t : Tid) (val : Addr) :
    Except TssFault (Int × TssMem) := do
  let mem ← m.readTss val
  if env.atexit then
    pure (0, { m with
      atexitItems := fun u => if u = t then mem.state :: m.atexitItems t else m.atexitItems u })
  else pure (-1, m)

/-- Drop a thread's reference on its `deinit_state`, the last one freeing it. -/
def releaseState (m : TssMem) (state : Addr) : Except TssFault TssMem := do
  let st ← m.states.read .state (some state)
  if st.count = 1 then pure (m.setStates (m.states.set state none))
  else pure (m.setStates (m.states.set state (some { st with count := st.count - 1 })))

/-- The end of the critical section of `thread_deinit`, `mem` being what the instance
holds by then. The last reference also clears the instance's own pointer. -/
def deinitCount (m : TssMem) (val : Addr) (mem : Tss) (state : Addr) :
    Except TssFault TssMem := do
  let st ← m.states.read .state (some state)
  let mem := if st.count = 1 ∧ mem.state = some state then { mem with state := none } else mem
  releaseState (m.setTss val mem) state

/-- The first critical section of `thread_deinit`. A thread without an entry is done. -/
def deinitLookup (m : TssMem) (t : Tid) (val state : Addr) :
    Except TssFault (Option Value × Key × TssMem) := do
  let (mytid, m) := m.myCurrentThreadId t
  let mem ← m.readTss val
  match mem.map.get mytid with
  | some item => pure (some item, mytid, m)
  | none => do
    let m ← deinitCount m val mem state
    pure (none, mytid, m)

/-- The critical section that follows the callback in `thread_deinit`. -/
def deinitErase (m : TssMem) (val : Addr) (mytid : Key) (state : Addr) :
    Except TssFault TssMem := do
  let mem ← m.readTss val
  deinitCount m val { mem with map := mem.map.erase mytid } state

/-- Where the loop of `tss_async_signal_safe_destroy` stands when it gives up the lock. -/
inductive Sweep where
  | callback (item : Value) (it : Option Key)
  | cleaned

/-- One round of that loop, or its end, with the lock held. -/
def sweepNext (m : TssMem) (val : Addr) (mem : Tss) :
    Option Key → Except TssFault (Sweep × TssMem)
  | none => pure (.cleaned, m.setTss val { mem with map := .empty })
  | some key =>
    match mem.map.get key with
    | none => throw .iterator
    | some item =>
      pure (.callback item (mem.map.next key),
        m.setTss val { mem with map := mem.map.erase key })

/-- The first critical section of `tss_async_signal_safe_destroy`. -/
def destroyBegin (m : TssMem) (val : Addr) : Except TssFault (Sweep × TssMem) := do
  let mem ← m.readTss val
  match mem.state with
  | none => sweepNext m val mem mem.map.first
  | some state =>
    let states ← m.states.update .state (some state) fun st => { st with val := none }
    sweepNext (m.setStates states) val { mem with state := none } mem.map.first

/-- The critical section after a callback of the sweep. -/
def destroySweep (m : TssMem) (val : Addr) (it : Option Key) :
    Except TssFault (Sweep × TssMem) := do
  let mem ← m.readTss val
  sweepNext m val mem it

end Wg14Signals
