import Wg14Signals.Lib.Runs
import Wg14Signals.Tss

namespace Wg14Signals
open Lib

/-- Where a thread's library call stands, on the fallback thread-storage path: the access
to the static slot, or the critical section, that comes next. -/
inductive UsePc where
  /-- The test in `sig_global_tss_state_init`. -/
  | initCheck
  /-- The test in `sig_global_tss_state_create`, called by `install_sighandler` (which
  holds `state->lock`) or by `sig_global_tss_state_init`. -/
  | createCheck (install : Bool)
  /-- Past that test, about to allocate an instance and write it to the slot. -/
  | publish (install : Bool)
  /-- The read of the slot for the call of `tss_async_signal_safe_thread_init`. -/
  | initRead
  | lookup (val : Addr)
  /-- Inside `attr.create`. -/
  | create (val : Addr) (mytid : Key)
  | insert (val : Addr) (mytid : Key) (newitem : Value)
  | register (val : Addr)
  /-- The read of the slot in `sig_global_tss_state`. -/
  | stateRead
  | stateGet (val : Addr)
  deriving DecidableEq

structure UseAct where
  tid : Tid
  pc : UsePc
  deriving DecidableEq

structure FirstUse where
  mem : TssMem
  /-- What `*sig_tss_state_raw()` holds. -/
  slot : Option Addr
  /-- The instances that have been written to the slot. -/
  published : List Addr
  /-- Is `state->lock` of the registry held? -/
  locked : Bool
  sighandlersCount : Nat
  /-- The calls in progress, one for each thread that is in the library. -/
  acts : List UseAct
  /-- Has `sig_global_tss_state_init` returned 0 on the thread? -/
  returned : Tid → Bool
  nextValue : Nat

def FirstUse.initial (currentThreadId : Tid → UInt64) : FirstUse where
  mem := .initial currentThreadId
  slot := none
  published := []
  locked := false
  sighandlersCount := 0
  acts := []
  returned := fun _ => false
  nextValue := 0

inductive UseAction where
  /-- `sigguarded` or `stdc_raise` calls `sig_global_tss_state_init`. -/
  | init (t : Tid)
  /-- `siginstall` calls `install_sighandler`. -/
  | install (t : Tid)
  /-- `sigguarded` or `stdc_raise` calls `sig_global_tss_state`. -/
  | state (t : Tid)
  /-- The thread's call goes on. -/
  | advance (t : Tid)

def FirstUse.top (s : FirstUse) (t : Tid) : Option UseAct := s.acts.find? fun a => a.tid == t

def FirstUse.others (s : FirstUse) (t : Tid) : List UseAct := s.acts.eraseP fun a => a.tid == t

def FirstUse.push (s : FirstUse) (t : Tid) (pc : UsePc) : FirstUse :=
  { s with acts := ⟨t, pc⟩ :: s.acts }

/-- What a call of `sig_global_tss_state_create` returns to: `install_sighandler`, which
gives up the lock, or `sig_global_tss_state_init`. -/
def FirstUse.created (s : FirstUse) (t : Tid) (install : Bool) (rest : List UseAct) : FirstUse :=
  if install then { s with locked := false, acts := rest }
  else { s with acts := ⟨t, .initRead⟩ :: rest }

/-- `sig_global_tss_state_init` returns 0. -/
def FirstUse.initReturns (s : FirstUse) (t : Tid) (rest : List UseAct) : FirstUse :=
  { s with returned := fun u => if u = t then true else s.returned u, acts := rest }

/-- The next access or section of a thread's call, `rest` being the calls of all others.
Allocations, insertions and registrations succeed. -/
def useSection (s : FirstUse) (t : Tid) (rest : List UseAct) : UsePc → Except TssFault FirstUse
  | .initCheck =>
    let pc := if s.slot = none then .createCheck false else .initRead
    pure { s with acts := ⟨t, pc⟩ :: rest }
  | .createCheck install =>
    if s.slot = none then pure { s with acts := ⟨t, .publish install⟩ :: rest }
    else pure (s.created t install rest)
  | .publish install =>
    let (val, mem) := tssCreate s.mem
    pure ({ s with mem, slot := some val, published := val :: s.published }.created t install rest)
  | .initRead =>
    match s.slot with
    | none => throw (.tss none)
    | some val => pure { s with acts := ⟨t, .lookup val⟩ :: rest }
  | .lookup val => do
    let (ret, mytid, mem) ← tssLookup s.mem t val
    match ret with
    | some _ => pure ({ s with mem }.initReturns t rest)
    | none => pure { s with mem, acts := ⟨t, .create val mytid⟩ :: rest }
  | .create val mytid =>
    pure { s with
      nextValue := s.nextValue + 1
      acts := ⟨t, .insert val mytid ⟨s.nextValue, t, val, mytid⟩⟩ :: rest }
  | .insert val mytid newitem => do
    let (_, mem) ← threadInitInsert {} s.mem val mytid newitem
    pure { s with mem, acts := ⟨t, .register val⟩ :: rest }
  | .register val => do
    let (_, mem) ← threadInitRegister {} s.mem t val
    pure ({ s with mem }.initReturns t rest)
  | .stateRead =>
    match s.slot with
    | none => throw (.tss none)
    | some val => pure { s with acts := ⟨t, .stateGet val⟩ :: rest }
  | .stateGet val => do
    let (_, _, mem) ← tssLookup s.mem t val
    pure { s with mem, acts := rest }

def useStep (s : FirstUse) : UseAction → Except TssFault FirstUse
  | .init t =>
    match s.top t with
    | none => pure (s.push t .initCheck)
    | some _ => throw .disabled
  | .install t =>
    match s.top t with
    | none =>
      if s.locked then throw .disabled
      else
        -- the handler of the signal is installed; the first one also makes the storage
        let s' := { s with sighandlersCount := s.sighandlersCount + 1 }
        if s.sighandlersCount = 0 then pure ({ s' with locked := true }.push t (.createCheck true))
        else pure s'
    | some _ => throw .disabled
  | .state t =>
    match s.top t with
    | none => if s.returned t then pure (s.push t .stateRead) else throw .disabled
    | some _ => throw .disabled
  | .advance t =>
    match s.top t with
    | none => throw .disabled
    | some a => useSection s t (s.others t) a.pc

/-- What `sig_global_tss_state` returns on a thread that runs it now without
interruption. -/
def sigGlobalTssState (s : FirstUse) (t : Tid) : Except TssFault (Option Value) :=
  match s.slot with
  | none => throw (.tss none)
  | some val => tssAsyncSignalSafeGet s.mem t val

def UsePc.publishing : UsePc → Bool
  | .publish _ => true
  | _ => false

def UsePc.creating : UsePc → Bool
  | .createCheck _ => true
  | _ => false

/-- No call of `sig_global_tss_state_create` finds the slot null while another one is
between finding it so and writing it; and the key with which a thread first looks itself
up is that of no other thread (the generations, which are half of a key, have not come
round). -/
def CreatesAlone (s : FirstUse) : UseAction → Prop
  | .advance t => ∀ a ∈ s.acts, a.tid = t →
      (a.pc.creating = true → s.slot = none → ∀ b ∈ s.acts, b.pc.publishing = false) ∧
        ∀ val, a.pc = .lookup val → (s.mem.drawGeneration t).KeyApart t
  | _ => True

end Wg14Signals
