import Mathlib.Algebra.Group.Nat.Defs
import Wg14Signals.Lib.Simulation
import Wg14Signals.TssMachine
import Wg14Signals.VerstableRuns

/-! Thread-specific storage with the hash table in the place of the finite map. -/

namespace Wg14Signals.VtTable

/-- A loop that erases what it visits goes through these keys, from an iterator to the end. -/
inductive Visits {κ ν : Type} [DecidableEq κ] (hashFn : κ → BitVec 64) :
    VtTable κ ν → VtItr → List κ → Prop where
  | nil {t : VtTable κ ν} {itr : VtItr} (at_end : itr.isEnd = true) : Visits hashFn t itr []
  | cons {t u : VtTable κ ν} {itr itr' : VtItr} {key : κ} {val : ν} {keys : List κ}
    (before_end : itr.isEnd = false) (entry : t.readBucket itr.metadatum = .ok (key, val))
    (erased : t.eraseItr hashFn itr = .ok (itr', u)) (rest : Visits hashFn u itr' keys) :
    Visits hashFn t itr (key :: keys)

end Wg14Signals.VtTable

namespace Wg14Signals.Tabled
open Lib

/-- Why a step could not be taken. -/
inductive Fault where
  | tss (f : TssFault)
  | table (f : VtFault)
  deriving DecidableEq, Repr

def ofTss {α : Type} (x : Except TssFault α) : Except Fault α := x.mapError .tss

def ofTable {α : Type} (x : Except VtFault α) : Except Fault α := x.mapError .table

/-- `vt_hash_integer` on the keys. -/
def hash (key : Key) : BitVec 64 := vtHashInteger key.toBitVec

/-- The memory, with a table for each instance. The maps the instances have in `tss` stay
empty. -/
structure Mem where
  tss : TssMem
  table : Addr → VtTable Key Value

def Mem.initial (currentThreadId : Tid → UInt64) : Mem where
  tss := .initial currentThreadId
  table := fun _ => .init

def Mem.setTable (m : Mem) (val : Addr) (t : VtTable Key Value) : Mem :=
  { m with table := Function.update m.table val t }

/-- What the allocator and `thread_atexit` decide, `mallocs` being for the table. -/
structure Env where
  mallocs : List Bool := [true]
  calloc : Bool := true
  atexit : Bool := true

/-- The value of a key, if the table has it. -/
def Mem.find (m : Mem) (val : Addr) (mytid : Key) : Except Fault (Option Value) :=
  ofTable do
    let it ← (m.table val).get hash mytid
    let entry ← (m.table val).entryAt it
    pure (entry.map Prod.snd)

def tssCreate (m : Mem) : Addr × Mem :=
  let (val, tss) := Wg14Signals.tssCreate m.tss
  (val, { tss, table := Function.update m.table val .init })

def tssLookup (m : Mem) (t : Tid) (val : Addr) : Except Fault (Option Value × Key × Mem) := do
  let (mytid, tss) := m.tss.myCurrentThreadId t
  let m := { m with tss }
  let _ ← ofTss (m.tss.readTss val)
  let ret ← m.find val mytid
  pure (ret, mytid, m)

def tssAsyncSignalSafeGet (m : Mem) (t : Tid) (val : Addr) : Except Fault (Option Value) := do
  let (ret, _, _) ← tssLookup m t val
  pure ret

def threadInitInsert (env : Env) (m : Mem) (val : Addr) (mytid : Key) (newitem : Value) :
    Except Fault (Bool × Mem) := do
  let mem ← ofTss (m.tss.readTss val)
  let (it, table, _) ← ofTable ((m.table val).insert hash mytid newitem env.mallocs)
  let m := m.setTable val table
  if it.isEnd then pure (false, m)
  else
    match mem.state with
    | none =>
      if env.calloc then
        let tss := m.tss.setTss val { mem with state := some m.tss.nextState }
        pure (true, { m with
          tss := { tss with
            states := tss.states.set tss.nextState (some { count := 1, val := some val })
            nextState := tss.nextState + 1 } })
      else do
        let (_, table) ← ofTable (table.erase hash mytid)
        pure (false, m.setTable val table)
    | some state => do
      let states ← ofTss (m.tss.states.update .state (some state) fun st =>
        { st with count := st.count + 1 })
      pure (true, { m with tss := m.tss.setStates states })

def threadInitRegister (env : Env) (m : Mem) (t : Tid) (val : Addr) : Except Fault (Int × Mem) := do
  let (ret, tss) ← ofTss (Wg14Signals.threadInitRegister { atexit := env.atexit } m.tss t val)
  pure (ret, { m with tss })

def releaseState (m : Mem) (state : Addr) : Except Fault Mem := do
  let tss ← ofTss (Wg14Signals.releaseState m.tss state)
  pure { m with tss }

/-- `deinitCount`, which does not look at the table. -/
def deinitCount (m : Mem) (val : Addr) (mem : Tss) (state : Addr) : Except Fault Mem := do
  let tss ← ofTss (Wg14Signals.deinitCount m.tss val mem state)
  pure { m with tss }

def deinitLookup (m : Mem) (t : Tid) (val state : Addr) :
    Except Fault (Option Value × Key × Mem) := do
  let (mytid, tss) := m.tss.myCurrentThreadId t
  let m := { m with tss }
  let mem ← ofTss (m.tss.readTss val)
  match ← m.find val mytid with
  | some item => pure (some item, mytid, m)
  | none => do
    let m ← deinitCount m val mem state
    pure (none, mytid, m)

def deinitErase (m : Mem) (val : Addr) (mytid : Key) (state : Addr) : Except Fault Mem := do
  let mem ← ofTss (m.tss.readTss val)
  let (_, table) ← ofTable ((m.table val).erase hash mytid)
  deinitCount (m.setTable val table) val mem state

/-- Where the loop of `tss_async_signal_safe_destroy` stands when it gives up the lock. -/
inductive Sweep where
  | callback (item : Value) (it : VtItr)
  | cleaned

/-- One round of that loop, or its end. -/
def sweepNext (m : Mem) (val : Addr) (it : VtItr) : Except Fault (Sweep × Mem) :=
  if it.isEnd then pure (.cleaned, m.setTable val (m.table val).cleanup)
  else do
    let (_, item) ← ofTable ((m.table val).readBucket it.metadatum)
    let (it, table) ← ofTable ((m.table val).eraseItr hash it)
    pure (.callback item it, m.setTable val table)

def destroyBegin (m : Mem) (val : Addr) : Except Fault (Sweep × Mem) := do
  let mem ← ofTss (m.tss.readTss val)
  let m ← match mem.state with
    | none => pure m
    | some state => do
      let states ← ofTss (m.tss.states.update .state (some state) fun st => { st with val := none })
      pure { m with tss := (m.tss.setStates states).setTss val { mem with state := none } }
  let it ← ofTable (m.table val).first
  sweepNext m val it

def destroySweep (m : Mem) (val : Addr) (it : VtItr) : Except Fault (Sweep × Mem) := do
  let _ ← ofTss (m.tss.readTss val)
  sweepNext m val it

/-- Where a `tss_async_signal_safe_destroy` stands. -/
inductive DestroyPc where
  | callback (item : Value) (it : VtItr)
  | calling (item : Value) (it : VtItr)
  | free

inductive Call where
  | threadInit (val : Addr) (pc : InitPc)
  | deinit (state : Option Addr) (pc : DeinitPc)
  | destroy (val : Addr) (pc : DestroyPc)

structure Act where
  tid : Tid
  call : Call

structure State where
  mem : Mem
  acts : List Act
  exiting : Tid → Bool
  nextValue : Nat
  begun : Value → Nat

def State.initial (currentThreadId : Tid → UInt64) : State where
  mem := .initial currentThreadId
  acts := []
  exiting := fun _ => false
  nextValue := 0
  begun := fun _ => 0

inductive Action where
  | create (t : Tid) (calloc : Bool)
  | threadInit (t : Tid) (val : Addr)
  | get (t : Tid) (val : Addr)
  | destroy (t : Tid) (val : Addr)
  | created (t : Tid) (r : CreateReturn)
  | advance (t : Tid) (env : Env)
  | exit (t : Tid)
  | runAtexit (t : Tid)

def State.top (s : State) (t : Tid) : Option Act := s.acts.find? fun a => a.tid == t

def State.others (s : State) (t : Tid) : List Act := s.acts.eraseP fun a => a.tid == t

def State.begin (s : State) (v : Value) : Value → Nat :=
  fun w => if w = v then s.begun w + 1 else s.begun w

def Sweep.call (val : Addr) : Sweep → Call
  | .callback item it => .destroy val (.callback item it)
  | .cleaned => .destroy val .free

def threadInitSection (env : Env) (s : State) (t : Tid) (val : Addr) (pc : InitPc)
    (rest : List Act) : Except Fault State :=
  match pc with
  | .create _ => throw (.tss .disabled)
  | .insert mytid newitem => do
    let (kept, mem) ← threadInitInsert env s.mem val mytid newitem
    let pc := if kept then .register else .discard newitem
    pure { s with mem, acts := ⟨t, .threadInit val pc⟩ :: rest }
  | .register => do
    let (_, mem) ← threadInitRegister env s.mem t val
    pure { s with mem, acts := rest }
  | .discard newitem => do
    let _ ← ofTss (s.mem.tss.readTss val)
    pure { s with
      begun := s.begin newitem
      acts := ⟨t, .threadInit val (.discarding newitem)⟩ :: rest }
  | .discarding _ => pure { s with acts := rest }

def deinitSection (s : State) (t : Tid) (state : Option Addr) (pc : DeinitPc)
    (rest : List Act) : Except Fault State := do
  match pc with
  | .enter =>
    let st ← ofTss (s.mem.tss.states.read .state state)
    let pc := match st.val with
      | some val => .lookup val
      | none => .drop
    pure { s with acts := ⟨t, .deinit state pc⟩ :: rest }
  | .lookup val =>
    match state with
    | none => throw (.tss (.state none))
    | some state => do
      let (item, mytid, mem) ← deinitLookup s.mem t val state
      match item with
      | none => pure { s with mem, acts := rest }
      | some item =>
        pure { s with mem, acts := ⟨t, .deinit (some state) (.callback val mytid item)⟩ :: rest }
  | .drop =>
    match state with
    | none => throw (.tss (.state none))
    | some state => do
      let mem ← releaseState s.mem state
      pure { s with mem, acts := rest }
  | .callback val mytid item =>
    let _ ← ofTss (s.mem.tss.readTss val)
    pure { s with
      begun := s.begin item
      acts := ⟨t, .deinit state (.erase val mytid item)⟩ :: rest }
  | .erase val mytid _ =>
    match state with
    | none => throw (.tss (.state none))
    | some state => do
      let mem ← deinitErase s.mem val mytid state
      pure { s with mem, acts := rest }

def tssDestroySection (s : State) (t : Tid) (val : Addr) (pc : DestroyPc)
    (rest : List Act) : Except Fault State :=
  match pc with
  | .callback item it => do
    let _ ← ofTss (s.mem.tss.readTss val)
    pure { s with
      begun := s.begin item
      acts := ⟨t, .destroy val (.calling item it)⟩ :: rest }
  | .calling _ it => do
    let (sweep, mem) ← destroySweep s.mem val it
    pure { s with mem, acts := ⟨t, sweep.call val⟩ :: rest }
  | .free => do
    let instances ← ofTss (s.mem.tss.instances.free .tss val)
    pure { s with mem := { s.mem with tss := { s.mem.tss with instances } }, acts := rest }

def step (s : State) : Action → Except Fault State
  | .create _ calloc =>
    if calloc then pure { s with mem := (tssCreate s.mem).2 } else pure s
  | .threadInit t val => do
    let (ret, mytid, mem) ← tssLookup s.mem t val
    match ret with
    | some _ => pure { s with mem }
    | none => pure { s with mem, acts := ⟨t, .threadInit val (.create mytid)⟩ :: s.acts }
  | .get t val => do
    let (_, _, mem) ← tssLookup s.mem t val
    pure { s with mem }
  | .destroy t val => do
    let (sweep, mem) ← destroyBegin s.mem val
    pure { s with mem, acts := ⟨t, sweep.call val⟩ :: s.acts }
  | .created t r =>
    match s.top t with
    | some ⟨_, .threadInit val (.create mytid)⟩ =>
      match r with
      | .item =>
        pure { s with
          nextValue := s.nextValue + 1
          acts := ⟨t, .threadInit val (.insert mytid ⟨s.nextValue, t, val, mytid⟩)⟩ :: s.others t }
      | _ => pure { s with acts := s.others t }
    | _ => throw (.tss .disabled)
  | .advance t env =>
    match s.top t with
    | some ⟨_, .threadInit val pc⟩ => threadInitSection env s t val pc (s.others t)
    | some ⟨_, .deinit state pc⟩ => deinitSection s t state pc (s.others t)
    | some ⟨_, .destroy val pc⟩ => tssDestroySection s t val pc (s.others t)
    | none => throw (.tss .disabled)
  | .exit t =>
    match s.top t with
    | none => pure { s with exiting := fun u => if u = t then true else s.exiting u }
    | some _ => throw (.tss .disabled)
  | .runAtexit t =>
    match s.top t, s.mem.tss.atexitItems t with
    | none, state :: items =>
      if s.exiting t then
        pure { s with
          mem := { s.mem with
            tss := { s.mem.tss with
              atexitItems := fun u => if u = t then items else s.mem.tss.atexitItems u } }
          acts := ⟨t, .deinit state .enter⟩ :: s.acts }
      else throw (.tss .disabled)
    | _, _ => throw (.tss .disabled)

end Wg14Signals.Tabled
