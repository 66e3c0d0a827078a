import Wg14Signals.Lib.Heap

namespace Wg14Signals
open Lib

/-- A `sig_global_state_tss_state_t`. -/
structure ThreadState where
  front : Option Addr := none
  deriving DecidableEq, Repr

/-- Where a thread finds its `sig_global_state_tss_state_t`. -/
inductive TssSlot where
  /-- Through a native thread-local pointer. -/
  | threadLocal (own : Option Addr)
  /-- Through the instance `*sig_tss_state_raw()` points to, if any, by what that holds for
  the thread. -/
  | fallback (tss : Option (Option Addr))
  deriving DecidableEq, Repr

/-- The per-thread state of the library as one thread sees it. -/
structure ThreadStorage where
  states : Heap ThreadState
  nextState : Addr
  slot : TssSlot

/-- Which of the fallible calls made by one `sig_global_tss_state_init` succeed. -/
structure SetupEnv where
  create : Bool := true
  calloc : Bool := true
  atexit : Bool := true
  deriving DecidableEq, Repr

/-- The object the thread has, if it has one. -/
def TssSlot.own : TssSlot → Option Addr
  | .threadLocal own => own
  | .fallback tss => tss.join

/-- A new object, zeroed, which the thread finds from now on. -/
def ThreadStorage.allocate (st : ThreadStorage) (slot : Option Addr → TssSlot) : ThreadStorage where
  states := st.states.set st.nextState (some {})
  nextState := st.nextState + 1
  slot := slot (some st.nextState)

/-- `sig_global_tss_state_create`. -/
def ThreadStorage.create (st : ThreadStorage) (ok : Bool) : Bool × ThreadStorage :=
  match st.slot with
  | .threadLocal _ => (true, st)
  | .fallback (some _) => (true, st)
  | .fallback none => if ok then (true, { st with slot := .fallback (some none) }) else (false, st)

/-- `sig_global_tss_state_init`. -/
def ThreadStorage.init (st : ThreadStorage) (env : SetupEnv) : Bool × ThreadStorage :=
  match st.slot with
  | .threadLocal (some _) => (true, st)
  | .threadLocal none =>
    -- the pointer stays set when `thread_atexit` fails
    if env.calloc then (env.atexit, st.allocate .threadLocal) else (false, st)
  | .fallback _ =>
    let (ok, st) := st.create env.create
    if ok then
      match st.slot.own with
      | some _ => (true, st)
      | none =>
        if env.calloc && env.atexit then (true, st.allocate fun own => .fallback (some own))
        else (false, st)
    else (false, st)

/-- `sig_global_tss_state`. The fallback looks the thread up in the instance, which is read
through a null pointer where there is none. -/
def ThreadStorage.find {ε : Type} (trap : Option Addr → ε) (st : ThreadStorage) :
    Except ε (Option Addr) :=
  match st.slot with
  | .threadLocal own => pure own
  | .fallback (some own) => pure own
  | .fallback none => throw (trap none)

/-- `sig_global_tss_state_destroy`. The fallback destroys the instance together with the
objects it holds. -/
def ThreadStorage.destroy {ε : Type} (trap : Option Addr → ε) (st : ThreadStorage) :
    Except ε ThreadStorage :=
  match st.slot with
  | .threadLocal _ => pure st
  | .fallback (some own) =>
    pure { st with
      states := fun a => if some a = own then none else st.states a
      slot := .fallback none }
  | .fallback none => throw (trap none)

/-- The guard stack the next raise will see. -/
def ThreadStorage.front (st : ThreadStorage) : Option Addr :=
  (st.slot.own.bind st.states).bind ThreadState.front

/-- The assignment `tss->front = front`. -/
def ThreadStorage.setFront {ε : Type} (trap : Option Addr → ε) (st : ThreadStorage)
    (tss front : Option Addr) : Except ε ThreadStorage := do
  let states ← st.states.update trap tss fun state => { state with front }
  pure { st with states }

/-- No object yet, and in the fallback no instance either. -/
def ThreadStorage.initial (asyncSafeThreadLocal : Bool) : ThreadStorage where
  states := Heap.empty
  nextState := 0
  slot := if asyncSafeThreadLocal then .threadLocal none else .fallback none

end Wg14Signals
