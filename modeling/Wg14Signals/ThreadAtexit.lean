import Wg14Signals.Lib.Heap

namespace Wg14Signals
open Lib

/-- What the functions that `thread_atexit` calls do: whether they succeed. -/
structure AtexitEnv where
  malloc : Bool := true
  once : Bool := true
  keyCreate : Bool := true
  setSpecific : Bool := true
  deriving DecidableEq, Repr

/-- A call of `thread_atexit` for a callback, and the calls of it the callback makes in its turn
when it is run. -/
inductive ExitCall where
  | mk (func obj : Nat) (env : AtexitEnv) (within : List ExitCall)

namespace ExitCall

def func : ExitCall → Nat
  | mk func _ _ _ => func

def obj : ExitCall → Nat
  | mk _ obj _ _ => obj

def env : ExitCall → AtexitEnv
  | mk _ _ env _ => env

def within : ExitCall → List ExitCall
  | mk _ _ _ within => within

mutual

/-- How deep such calls are nested. -/
def depth : ExitCall → Nat
  | mk _ _ _ within => depthAll within + 1

def depthAll : List ExitCall → Nat
  | [] => 0
  | c :: cs => max (depth c) (depthAll cs)

end

mutual

/-- None of the calls fails. -/
def unfailing : ExitCall → Bool
  | mk _ _ env within => env == {} && unfailingAll within

def unfailingAll : List ExitCall → Bool
  | [] => true
  | c :: cs => unfailing c && unfailingAll cs

end

/-- What is called when the callback is run. -/
def target (c : ExitCall) : Nat × Nat := (c.func, c.obj)

end ExitCall

/-- A `thread_atexit_item_t`. -/
structure AtexitItem where
  /-- `func` and `obj`, with what `func` does. -/
  call : ExitCall
  next : Option Addr

/-- The items that are allocated. No address has been given out before its time. -/
structure AtexitItems where
  heap : Heap AtexitItem
  next : Addr
  fresh : ∀ a, next ≤ a → heap a = none

namespace AtexitItems

def empty : AtexitItems where
  heap := Heap.empty
  next := 0
  fresh := fun _ _ => rfl

/-- An allocation that fails uses up its address as well, so that every call of `thread_atexit`
has one. -/
def malloc (m : AtexitItems) (item : Option AtexitItem) : AtexitItems where
  heap := m.heap.set m.next item
  next := m.next + 1
  fresh a ha := by
    rw [Heap.set_other _ _ (Nat.ne_of_gt ha)]
    exact m.fresh a (Nat.le_of_succ_le ha)

/-- An item's `next` is set. -/
def link (m : AtexitItems) (a : Addr) (next : Option Addr) : AtexitItems where
  heap := m.heap.mapAt (some a) fun item => { item with next }
  next := m.next
  fresh b hb := (Heap.mapAt_eq_none ..).mpr (m.fresh b hb)

def free (m : AtexitItems) (a : Addr) : AtexitItems where
  heap := m.heap.set a none
  next := m.next
  fresh b hb := by
    rw [Heap.set_apply]
    split
    · rfl
    · exact m.fresh b hb

end AtexitItems

/-- An access to an item that is not there, or a list without an end. -/
inductive AtexitFault where
  | item (a : Option Addr)
  | endless
  deriving DecidableEq, Repr

inductive AtexitEvent where
  /-- `thread_atexit` returns 0, or -1. -/
  | registered (item : Addr)
  | rejected (item : Addr)
  /-- A list is detached, to be walked. -/
  | detached
  | ran (item : Addr) (target : Nat × Nat)
  deriving DecidableEq, Repr

/-- What `thread_atexit` keeps for a thread, on either path. -/
structure AtexitThread where
  items : AtexitItems
  /-- `thread_atexit_items`. -/
  list : Option Addr
  /-- Whether `thread_atexit_key` is a key, once `pthread_once` has tried to make it one. -/
  key : Option Bool
  /-- The thread's value of the key. -/
  value : Option Addr
  /-- The last event comes first. -/
  trace : List AtexitEvent

/-- A thread begins. The key may have been created for another. -/
def AtexitThread.initial (key : Option Bool) : AtexitThread where
  items := .empty
  list := none
  key := key
  value := none
  trace := []

namespace AtexitThread

def emit (s : AtexitThread) (e : AtexitEvent) : AtexitThread := { s with trace := e :: s.trace }

/-- The calls of `thread_atexit` that running code makes, in their order. -/
def performs (thread_atexit : AtexitThread → ExitCall → Int × AtexitThread) (s : AtexitThread)
    (calls : List ExitCall) : AtexitThread :=
  calls.foldl (fun s c => (thread_atexit s c).2) s

/-- `thread_atexit` returns -1, its item freed if there was one. -/
def rejects (s : AtexitThread) (item : Addr) : Int × AtexitThread :=
  (-1, { s with items := s.items.free item }.emit (.rejected item))

/-- The loop with which both paths run the callbacks of a detached list. Each of its items is one
of those ever allocated, whose number is the bound on its turns. -/
def walk (thread_atexit : AtexitThread → ExitCall → Int × AtexitThread) :
    Nat → AtexitThread → Option Addr → Except AtexitFault AtexitThread
  | _, s, none => pure s
  | 0, _, some _ => throw .endless
  | n + 1, s, some a => do
    let item ← s.items.heap.read .item (some a)
    let s := (s.emit (.ran a item.call.target)).performs thread_atexit item.call.within
    -- `WG14_SIGNALS_FREE(items)`
    let _ ← s.items.heap.read .item (some a)
    walk thread_atexit n { s with items := s.items.free a } item.next

/-- A list is taken over as a whole, and walked. -/
def drain (thread_atexit : AtexitThread → ExitCall → Int × AtexitThread) (s : AtexitThread) :
    Except AtexitFault AtexitThread :=
  walk thread_atexit s.items.next ({ s with list := none }.emit .detached) s.list

end AtexitThread

namespace Pthread

/-- `pthread_once` of `thread_atexit_key_init`. -/
def threadAtexitKeyInit (s : AtexitThread) (env : AtexitEnv) : AtexitThread :=
  match env.once, s.key with
  | true, none => { s with key := some env.keyCreate }
  | _, _ => s

/-- `thread_atexit` on the pthread-key path. -/
def threadAtexit (s : AtexitThread) (c : ExitCall) : Int × AtexitThread :=
  let item := s.items.next
  if !c.env.malloc then ({ s with items := s.items.malloc none } : AtexitThread).rejects item
  else
    let s := { s with items := s.items.malloc (some { call := c, next := none }) }
    let s := threadAtexitKeyInit s c.env
    if !c.env.once || s.key != some true then s.rejects item
    else
      let old := s.list
      let s := { s with items := s.items.link item old, list := some item }
      if !c.env.setSpecific then ({ s with list := old } : AtexitThread).rejects item
      else (0, { s with value := some item }.emit (.registered item))

def threadAtexitRun (s : AtexitThread) : Except AtexitFault AtexitThread :=
  AtexitThread.drain threadAtexit { s with value := none }

/-- What the system does with the key's value at the thread's exit, for up to
`PTHREAD_DESTRUCTOR_ITERATIONS` rounds. -/
def threadExit : Nat → AtexitThread → Except AtexitFault AtexitThread
  | 0, s => pure s
  | rounds + 1, s =>
    match s.value with
    | none => pure s
    | some _ => do
      let s ← threadAtexitRun { s with value := none }
      threadExit rounds s

/-- A thread that makes these calls of `thread_atexit`, and exits. -/
def thread (rounds : Nat) (key : Option Bool) (program : List ExitCall) :
    Except AtexitFault AtexitThread :=
  threadExit rounds ((AtexitThread.initial key).performs threadAtexit program)

end Pthread

namespace Msvc

/-- What the system calls a TLS callback for. -/
inductive Reason where
  | processAttach
  | threadAttach
  | threadDetach
  | processDetach
  deriving DecidableEq, Repr

/-- `thread_atexit` on the MSVC path. -/
def threadAtexit (s : AtexitThread) (c : ExitCall) : Int × AtexitThread :=
  let item := s.items.next
  if !c.env.malloc then ({ s with items := s.items.malloc none } : AtexitThread).rejects item
  else
    (0, { s with
      items := s.items.malloc (some { call := c, next := s.list })
      list := some item }.emit (.registered item))

def threadAtexitTlsCallback (s : AtexitThread) (reason : Reason) :
    Except AtexitFault AtexitThread :=
  if reason = .threadDetach ∨ reason = .processDetach then AtexitThread.drain threadAtexit s
  else pure s

/-- A thread that makes these calls, and detaches. -/
def thread (program : List ExitCall) : Except AtexitFault AtexitThread :=
  threadAtexitTlsCallback ((AtexitThread.initial none).performs threadAtexit program) .threadDetach

end Msvc

def AtexitEvent.registration : AtexitEvent → Option Addr
  | .registered item => some item
  | _ => none

def AtexitEvent.rejection : AtexitEvent → Option Addr
  | .rejected item => some item
  | _ => none

def AtexitEvent.run : AtexitEvent → Option Addr
  | .ran item _ => some item
  | _ => none

def AtexitEvent.call : AtexitEvent → Option (Nat × Nat)
  | .ran _ target => some target
  | _ => none

namespace AtexitThread

/-- What has happened, in its order. -/
def events (s : AtexitThread) : List AtexitEvent := s.trace.reverse

def registrations (s : AtexitThread) : List Addr := s.events.filterMap AtexitEvent.registration

def rejections (s : AtexitThread) : List Addr := s.events.filterMap AtexitEvent.rejection

def runs (s : AtexitThread) : List Addr := s.events.filterMap AtexitEvent.run

/-- The items of each list that has been detached, as far as their callbacks have been run, in
their order. -/
def roundsOf : List AtexitEvent → List (List Addr)
  | [] => []
  | .detached :: trace => [] :: roundsOf trace
  | .ran item _ :: trace =>
    match roundsOf trace with
    | [] => [[item]]
    | round :: rounds => (round ++ [item]) :: rounds
  | _ :: trace => roundsOf trace

def rounds (s : AtexitThread) : List (List Addr) := roundsOf s.trace

/-- The callbacks that have been run, in their order. -/
def called (s : AtexitThread) : List (Nat × Nat) := s.events.filterMap AtexitEvent.call

end AtexitThread

end Wg14Signals
