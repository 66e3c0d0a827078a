import Wg14Signals.Lib.Runs
import Wg14Signals.Tss

namespace Wg14Signals
open Lib

/-- Where a `thread_init` that found no entry stands. -/
inductive InitPc where
  /-- Inside `attr.create`. -/
  | create (mytid : Key)
  | insert (mytid : Key) (newitem : Value)
  | register
  /-- About to call `attr.destroy` on an item that was not kept. -/
  | discard (newitem : Value)
  /-- Inside that call. -/
  | discarding (newitem : Value)

/-- Where a `thread_deinit` stands. -/
inductive DeinitPc where
  | enter
  | lookup (val : Addr)
  /-- The instance was destroyed before the thread exited. -/
  | drop
  /-- Unlocked, about to call `attr.destroy`. -/
  | callback (val : Addr) (mytid : Key) (item : Value)
  /-- Inside that call, the entry still to be erased. -/
  | erase (val : Addr) (mytid : Key) (item : Value)

/-- Where a `tss_async_signal_safe_destroy` stands. -/
inductive DestroyPc where
  /-- Unlocked, about to call `attr.destroy` on an item already erased. -/
  | callback (item : Value) (it : Option Key)
  /-- Inside that call. -/
  | calling (item : Value) (it : Option Key)
  | free

/-- A call in progress, between two of its critical sections. -/
inductive TssCall where
  | threadInit (val : Addr) (pc : InitPc)
  | deinit (state : Option Addr) (pc : DeinitPc)
  | destroy (val : Addr) (pc : DestroyPc)

structure TssAct where
  tid : Tid
  call : TssCall

structure TssState where
  mem : TssMem
  /-- The calls in progress. Those of one thread stand innermost first. -/
  acts : List TssAct
  exiting : Tid → Bool
  nextValue : Nat
  /-- How many calls of `attr.destroy` have begun on each value. -/
  begun : Value → Nat

def TssState.initial (currentThreadId : Tid → UInt64) : TssState where
  mem := .initial currentThreadId
  acts := []
  exiting := fun _ => false
  nextValue := 0
  begun := fun _ => 0

/-- How an `attr.create` callback returns. -/
inductive CreateReturn where
  /-- With an error code. -/
  | failed
  /-- With 0, but without an item. -/
  | null
  | item

/-- What one thread does next. Any of the first four may be done by a signal handler, or
by a callback of the thread's innermost call. -/
inductive TssAction where
  | create (t : Tid) (calloc : Bool)
  | threadInit (t : Tid) (val : Addr)
  | get (t : Tid) (val : Addr)
  | destroy (t : Tid) (val : Addr)
  /-- The `attr.create` the thread's innermost call is inside of returns. -/
  | created (t : Tid) (r : CreateReturn)
  /-- The thread's innermost call begins its callback, or goes through the critical
  section that follows. -/
  | advance (t : Tid) (env : TssEnv)
  /-- The thread begins to exit, and runs the next of its exit callbacks. -/
  | exit (t : Tid)
  | runAtexit (t : Tid)

def TssState.top (s : TssState) (t : Tid) : Option TssAct := s.acts.find? fun a => a.tid == t

def TssState.others (s : TssState) (t : Tid) : List TssAct := s.acts.eraseP fun a => a.tid == t

/-- A call of `attr.destroy` on `v` begins. Finding the callback reads the instance. -/
def TssState.begin (s : TssState) (v : Value) : Value → Nat :=
  fun w => if w = v then s.begun w + 1 else s.begun w

/-- The call a sweep goes on as. -/
def Sweep.call (val : Addr) : Sweep → TssCall
  | .callback item it => .destroy val (.callback item it)
  | .cleaned => .destroy val .free

/-- The next section of a `thread_init`, `rest` being all other calls in progress. -/
def threadInitSection (env : TssEnv) (s : TssState) (t : Tid) (val : Addr) (pc : InitPc)
    (rest : List TssAct) : Except TssFault TssState :=
  match pc with
  | .create _ => throw .disabled
  | .insert mytid newitem => do
    let (kept, mem) ← threadInitInsert env s.mem val mytid newitem
    let pc := if kept then .register else .discard newitem
    pure { s with mem, acts := ⟨t, .threadInit val pc⟩ :: rest }
  | .register => do
    let (_, mem) ← threadInitRegister env s.mem t val
    pure { s with mem, acts := rest }
  | .discard newitem => do
    let _ ← s.mem.readTss val
    pure { s with
      begun := s.begin newitem
      acts := ⟨t, .threadInit val (.discarding newitem)⟩ :: rest }
  | .discarding _ => pure { s with acts := rest }

/-- The next section of a `thread_deinit`. -/
def deinitSection (s : TssState) (t : Tid) (state : Option Addr) (pc : DeinitPc)
    (rest : List TssAct) : Except TssFault TssState := do
  match pc with
  | .enter =>
    let st ← s.mem.states.read .state state
    let pc := match st.val with
      | some val => .lookup val
      | none => .drop
    pure { s with acts := ⟨t, .deinit state pc⟩ :: rest }
  | .lookup val =>
    match state with
    | none => throw (.state none)
    | some state => do
      let (item, mytid, mem) ← deinitLookup s.mem t val state
      match item with
      | none => pure { s with mem, acts := rest }
      | some item =>
        pure { s with mem, acts := ⟨t, .deinit (some state) (.callback val mytid item)⟩ :: rest }
  | .drop =>
    match state with
    | none => throw (.state none)
    | some state => do
      let mem ← releaseState s.mem state
      pure { s with mem, acts := rest }
  | .callback val mytid item =>
    let _ ← s.mem.readTss val
    pure { s with
      begun := s.begin item
      acts := ⟨t, .deinit state (.erase val mytid item)⟩ :: rest }
  | .erase val mytid _ =>
    match state with
    | none => throw (.state none)
    | some state => do
      let mem ← deinitErase s.mem val mytid state
      pure { s with mem, acts := rest }

/-- The next section of a `tss_async_signal_safe_destroy`. -/
def tssDestroySection (s : TssState) (t : Tid) (val : Addr) (pc : DestroyPc)
    (rest : List TssAct) : Except TssFault TssState :=
  match pc with
  | .callback item it => do
    let _ ← s.mem.readTss val
    pure { s with
      begun := s.begin item
      acts := ⟨t, .destroy val (.calling item it)⟩ :: rest }
  | .calling _ it => do
    let (sweep, mem) ← destroySweep s.mem val it
    pure { s with mem, acts := ⟨t, sweep.call val⟩ :: rest }
  | .free => do
    let instances ← s.mem.instances.free .tss val
    pure { s with mem := { s.mem with instances }, acts := rest }

def tssStep (s : TssState) : TssAction → Except TssFault TssState
  | .create _ calloc =>
    if calloc then pure { s with mem := (tssCreate s.mem).2 } else pure s
  | .threadInit t val => do
    let (ret, mytid, mem) ← tssLookup s.mem t val
    match ret with
    | some _ => pure { s with mem }
    | none => pure { s with mem, acts := ⟨t, .threadInit val (.create mytid)⟩ :: s.acts }
  | .get t val => do
    let (_, _, mem) ← tssLookup s.mem t val
    pure { s with mem }
  | .destroy t val => do
    let (sweep, mem) ← destroyBegin s.mem val
    pure { s with mem, acts := ⟨t, sweep.call val⟩ :: s.acts }
  | .created t r =>
    match s.top t with
    | some ⟨_, .threadInit val (.create mytid)⟩ =>
      match r with
      | .item =>
        pure { s with
          nextValue := s.nextValue + 1
          acts := ⟨t, .threadInit val (.insert mytid ⟨s.nextValue, t, val, mytid⟩)⟩ :: s.others t }
      | _ => pure { s with acts := s.others t }
    | _ => throw .disabled
  | .advance t env =>
    match s.top t with
    | some ⟨_, .threadInit val pc⟩ => threadInitSection env s t val pc (s.others t)
    | some ⟨_, .deinit state pc⟩ => deinitSection s t state pc (s.others t)
    | some ⟨_, .destroy val pc⟩ => tssDestroySection s t val pc (s.others t)
    | none => throw .disabled
  | .exit t =>
    match s.top t with
    | none => pure { s with exiting := fun u => if u = t then true else s.exiting u }
    | some _ => throw .disabled
  | .runAtexit t =>
    match s.top t, s.mem.atexitItems t with
    | none, state :: items =>
      if s.exiting t then
        pure { s with
          mem := { s.mem with
            atexitItems := fun u => if u = t then items else s.mem.atexitItems u }
          acts := ⟨t, .deinit state .enter⟩ :: s.acts }
      else throw .disabled
    | _, _ => throw .disabled

end Wg14Signals
