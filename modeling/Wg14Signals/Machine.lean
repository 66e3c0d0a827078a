import Wg14Signals.Lib.Runs
import Wg14Signals.Install
import Wg14Signals.Deciders
import Wg14Signals.Raise

namespace Wg14Signals
open Lib

/-- A `sigguarded` call as a raise meets it on the thread's frame chain. -/
structure Frame where
  /-- The activation of the `sigguarded` call. -/
  act : Nat
  recovery : Bool
  deriving DecidableEq

/-- A raise inside the decider of a global node: the locals of `stdc_raise` and the
internal members of the `stdc_siginfo` the decider was given. -/
structure Pin where
  item : Addr
  current : Addr
  value : Int
  sa : Sigaction
  abandoned : Bool := false
  deriving DecidableEq

/-- The four calls of the `SIG_DFL` branch of `invoke_sigaction`, each with the
disposition the first one read. -/
inductive Handoff where
  | query
  | reset (current : Sigaction)
  | kill (current : Sigaction)
  | restore (current : Sigaction)
  deriving DecidableEq

inductive Phase where
  /-- The guarding frames still to be asked; the decider of the first is running. -/
  | frames (fs : List Frame)
  | deciding (p : Pin)
  /-- Unlocked and unclaimed, about to call `invoke_sigaction`. -/
  | invoke (sa : Sigaction)
  | handoff (h : Handoff)
  /-- Inside the handler that was there before the library. -/
  | handler (h : Handler)
  deriving DecidableEq

structure Raise where
  signo : Signo
  /-- Called by `raw_signal_handler` and not by the program. -/
  delivered : Bool
  phase : Phase
  deriving DecidableEq

/-- A library call in progress, between two of its critical sections. -/
inductive Call where
  | siginstall (set : SigSet) (done todo : List Signo)
  | rollback (todo : List Signo)
  | siguninstall (todo : List Signo)
  | create (args : CreateArgs) (filled : List (Option Addr))
  /-- The slots are those from `retp` on. -/
  | destroy (handle : Nat) (guarded : SigSet) (retp : List (Option Addr)) (todo : List Signo)
      (unlocked : Bool)
  | guard (signals : SigSet) (recovery : Bool)
  | raise (r : Raise)

structure Act where
  tid : Tid
  id : Nat
  call : Call

/-- A handle returned by `signal_decider_create`. -/
structure Handle where
  id : Nat
  guarded : SigSet
  slots : List (Option Addr)

structure State where
  g : Global
  /-- The calls in progress. Those of one thread stand innermost first. -/
  acts : List Act
  /-- Calls whose stack frames a recovery jump has discarded. They never move
  again; the list only remembers what they held. -/
  lost : List Act
  handles : List Handle
  installs : List (Nat × SigSet)
  nextId : Nat

def State.initial (kernel : Signo → Sigaction) : State where
  g :=
    { nodes := Heap.empty, nextNode := 0, containers := Heap.empty, nextContainer := 0,
      map := fun _ => none, sighandlersCount := 0, kernel }
  acts := []
  lost := []
  handles := []
  installs := []
  nextId := 0

/-- What one thread, or the kernel, does next. -/
inductive Action where
  | siginstall (t : Tid) (guarded : Option SigSet) (malloc : Bool)
  | siguninstall (t : Tid) (handle : Nat)
  | create (t : Tid) (guarded : Option SigSet) (callfirst : Bool) (decider : Option Nat)
      (value : Int) (malloc : Bool)
  | destroy (t : Tid) (handle : Nat)
  | raise (t : Tid) (signo : Signo)
  | sigguarded (t : Tid) (signals : SigSet) (recovery : Bool)
  /-- The kernel enters `raw_signal_handler`. -/
  | deliver (t : Tid) (signo : Signo)
  /-- The thread's innermost call goes through its next section. -/
  | advance (t : Tid) (env : InstallEnv)
  /-- The decider running in the thread's innermost raise returns. -/
  | decide (t : Tid) (d : Decision)
  | abandon (t : Tid)
  /-- An abandoned decider leaves its raise for good. -/
  | jump (t : Tid)
  /-- A guarded function, or a previous handler, returns. -/
  | done (t : Tid)

/-- The innermost call of a thread, and all other calls in progress. -/
def State.top (s : State) (t : Tid) : Option Act := s.acts.find? fun a => a.tid == t

def State.others (s : State) (t : Tid) : List Act := s.acts.eraseP fun a => a.tid == t

/-- Can the program's own code be running while this is the innermost call? -/
def Call.runsUserCode : Call → Bool
  | .guard _ _ => true
  | .raise r =>
    match r.phase with
    | .frames (_ :: _) => true
    | .deciding _ => true
    | .handler _ => true
    -- the signal the raise has just sent itself may have run any handler
    | .handoff (.restore _) => true
    | _ => false
  | _ => false

def State.userCode (s : State) (t : Tid) : Bool :=
  match s.top t with
  | none => true
  | some a => a.call.runsUserCode

/-- Put a call of thread `t` on top of the given ones. -/
def State.push (s : State) (t : Tid) (call : Call) (acts : List Act) : State :=
  { s with acts := ⟨t, s.nextId, call⟩ :: acts, nextId := s.nextId + 1 }

/-- The frames of the thread that guard the signal, innermost first. -/
def framesFor (acts : List Act) (t : Tid) (signo : Signo) : List Frame :=
  acts.filterMap fun a =>
    match a.call with
    | .guard signals recovery =>
      if a.tid == t && signals signo then some ⟨a.id, recovery⟩ else none
    | _ => none

/-- Begin `stdc_raise` on top of the given calls. A signal number out of range is
answered with false at once. -/
def State.pushRaise (p : Platform) (s : State) (t : Tid) (signo : Signo) (delivered : Bool)
    (acts : List Act) : State :=
  if signo < 1 ∨ p.nsig ≤ signo then
    if delivered then s.push t (.raise ⟨signo, true, .invoke .dfl⟩) acts
    else { s with acts }
  else s.push t (.raise ⟨signo, delivered, .frames (framesFor acts t signo)⟩) acts

/-- The slots `signal_decider_create` leaves in a handle, the unused ones zeroed. -/
def padded (p : Platform) (guarded : SigSet) (filled : List (Option Addr)) : List (Option Addr) :=
  filled ++ List.replicate ((p.members guarded).length + 1 - filled.length) none

def Act.goto (a : Act) (call : Call) : Act := { a with call }

def Act.phase (a : Act) (r : Raise) (phase : Phase) : Act := a.goto (.raise { r with phase })

/-- The next section of a raise, `rest` being all other calls in progress. -/
def raiseSection (p : Platform) (s : State) (a : Act) (r : Raise) (rest : List Act) :
    Except Fault State :=
  match r.phase with
  | .frames [] => do
    let (e, g) ← raiseEnter s.g r.signo
    match e with
    | .absent =>
      if r.delivered then pure { s with g, acts := a.phase r (.invoke .dfl) :: rest }
      else pure { s with g, acts := rest }
    | .deciding item current value sa =>
      pure { s with g, acts := a.phase r (.deciding { item, current, value, sa }) :: rest }
    | .unclaimed sa => pure { s with g, acts := a.phase r (.invoke sa) :: rest }
  | .invoke sa =>
    match invokeSigaction p sa r.signo with
    | .calls .raw =>
      pure (s.pushRaise p a.tid r.signo true (a.phase r (.handler .raw) :: rest))
    | .calls h => pure { s with acts := a.phase r (.handler h) :: rest }
    | .default => pure { s with acts := a.phase r (.handoff .query) :: rest }
    | .ignores => pure { s with acts := rest }
  | .handoff .query =>
    pure { s with acts := a.phase r (.handoff (.reset (s.g.kernel r.signo))) :: rest }
  | .handoff (.reset current) =>
    pure { s with
      g := s.g.setKernel r.signo .dfl
      acts := a.phase r (.handoff (.kill current)) :: rest }
  | .handoff (.kill current) =>
    let acts := a.phase r (.handoff (.restore current)) :: rest
    if s.g.kernel r.signo = .raw then pure (s.pushRaise p a.tid r.signo true acts)
    else pure { s with acts }
  | .handoff (.restore current) =>
    pure { s with g := s.g.setKernel r.signo current, acts := rest }
  | _ => throw .disabled

/-- The next section of `signal_decider_destroy`. -/
def destroySection (s : State) (a : Act) (handle : Nat) (guarded : SigSet)
    (retp : List (Option Addr)) (todo : List Signo) (unlocked : Bool) (rest : List Act) :
    Except Fault State :=
  match todo with
  | [] => pure { s with acts := rest }
  | signo :: todo =>
    if guarded signo then
      match retp with
      | [] => throw .slot
      | slot :: retp =>
        if unlocked then do
          let g ← destroyUnlocked s.g slot
          pure { s with g, acts := a.goto (.destroy handle guarded retp todo false) :: rest }
        else do
          let (slot, g) ← destroyLocked s.g signo slot
          let call := .destroy handle guarded (slot :: retp) (signo :: todo) true
          pure { s with g, acts := a.goto call :: rest }
    else do
      let (_, g) ← destroyLocked s.g signo none
      pure { s with g, acts := a.goto (.destroy handle guarded retp todo false) :: rest }

/-- The next section of `signal_decider_create`. -/
def createSection (p : Platform) (env : InstallEnv) (s : State) (a : Act) (args : CreateArgs)
    (filled : List (Option Addr)) (rest : List Act) : Except Fault State :=
  match (p.members args.guarded).drop filled.length with
  | [] =>
    let handle := { id := args.owner, guarded := args.guarded, slots := padded p args.guarded filled }
    pure { s with handles := handle :: s.handles, acts := rest }
  | signo :: _ => do
    let (c, g) ← createNode s.g signo args env.calloc
    match c with
    | .missing => pure { s with g, acts := a.goto (.create args (filled ++ [none])) :: rest }
    | .linked i => pure { s with g, acts := a.goto (.create args (filled ++ [some i])) :: rest }
    | .outOfMemory =>
      -- the partial handle is handed to `signal_decider_destroy`
      let call := .destroy args.owner args.guarded (padded p args.guarded filled) p.loop false
      pure { s with g, acts := a.goto call :: rest }

/-- The next section of a thread's innermost call. -/
def callSection (p : Platform) (env : InstallEnv) (s : State) (a : Act) (rest : List Act) :
    Except Fault State :=
  match a.call with
  | .siginstall set done [] =>
    let _ := done
    pure { s with installs := (a.id, set) :: s.installs, acts := rest }
  | .siginstall set done (signo :: todo) => do
    let (ok, g) ← installSighandler s.g signo env
    let call := if ok then .siginstall set (done ++ [signo]) todo else .rollback done
    pure { s with g, acts := a.goto call :: rest }
  | .rollback [] => pure { s with acts := rest }
  | .rollback (signo :: todo) => do
    let g ← uninstallSighandler s.g signo
    pure { s with g, acts := a.goto (.rollback todo) :: rest }
  | .siguninstall [] => pure { s with acts := rest }
  | .siguninstall (signo :: todo) => do
    let g ← uninstallSighandler s.g signo
    pure { s with g, acts := a.goto (.siguninstall todo) :: rest }
  | .create args filled => createSection p env s a args filled rest
  | .destroy handle guarded retp todo unlocked =>
    destroySection s a handle guarded retp todo unlocked rest
  | .guard _ _ => throw .disabled
  | .raise r => raiseSection p s a r rest

/-- The calls a recovery jump to the frame `f` of thread `t` discards. -/
def discarded (t : Tid) (f : Frame) (a : Act) : Bool := a.tid == t && f.act ≤ a.id

/-- A decider's answer, acted on. -/
def decideSection (s : State) (t : Tid) (a : Act) (r : Raise) (d : Decision) (rest : List Act) :
    Except Fault State :=
  match r.phase with
  | .frames (f :: fs) =>
    match d with
    | .nextDecider => pure { s with acts := a.phase r (.frames fs) :: rest }
    | .resumeExecution => pure { s with acts := rest }
    | .callRecovery =>
      if f.recovery then
        pure { s with
          acts := s.acts.filter fun b => !discarded t f b
          lost := s.acts.filter (discarded t f) ++ s.lost }
      else pure { s with acts := a.phase r (.frames fs) :: rest }
  | .deciding pin =>
    if pin.abandoned then throw .disabled
    else do
      let (l, g) ← raiseLeave s.g pin.item pin.current (d != .nextDecider)
      match l with
      | .claimed => pure { s with g, acts := rest }
      | .deciding current value =>
        pure { s with g, acts := a.phase r (.deciding { pin with current, value }) :: rest }
      | .unclaimed => pure { s with g, acts := a.phase r (.invoke pin.sa) :: rest }
  | _ => throw .disabled

def step (p : Platform) (s : State) : Action → Except Fault State
  | .siginstall t guarded malloc =>
    if s.userCode t then
      if malloc then
        let set := p.installSet guarded
        pure (s.push t (.siginstall set [] (p.members set)) s.acts)
      else pure s
    else throw .disabled
  | .siguninstall t handle =>
    match s.userCode t, s.installs.find? fun h => h.1 == handle with
    | true, some (_, set) =>
      let s' := { s with installs := s.installs.eraseP fun h => h.1 == handle }
      pure (s'.push t (.siguninstall (p.members set)) s.acts)
    | _, _ => throw .disabled
  | .create t guarded callfirst decider value malloc =>
    if s.userCode t then
      match guarded, decider with
      | some guarded, some decider =>
        if p.members guarded = [] ∨ malloc = false then pure s
        else
          let args := { guarded, callfirst, decider, value, owner := s.nextId }
          pure (s.push t (.create args []) s.acts)
      | _, _ => pure s
    else throw .disabled
  | .destroy t handle =>
    match s.userCode t, s.handles.find? fun h => h.id == handle with
    | true, some h =>
      let s' := { s with handles := s.handles.eraseP fun h => h.id == handle }
      pure (s'.push t (.destroy handle h.guarded h.slots p.loop false) s.acts)
    | _, _ => throw .disabled
  | .raise t signo =>
    if s.userCode t then pure (s.pushRaise p t signo false s.acts) else throw .disabled
  | .sigguarded t signals recovery =>
    if s.userCode t then pure (s.push t (.guard signals recovery) s.acts) else throw .disabled
  | .deliver t signo =>
    if s.g.kernel signo = .raw then pure (s.pushRaise p t signo true s.acts)
    else throw .disabled
  | .advance t env =>
    match s.top t with
    | some a => callSection p env s a (s.others t)
    | none => throw .disabled
  | .decide t d =>
    match s.top t with
    | some a =>
      match a.call with
      | .raise r => decideSection s t a r d (s.others t)
      | _ => throw .disabled
    | none => throw .disabled
  | .abandon t =>
    match s.top t with
    | some a =>
      match a.call with
      | .raise r =>
        match r.phase with
        | .deciding pin =>
          if pin.abandoned then pure s
          else do
            let g ← sigdeciderAbandon s.g pin.item pin.current
            let a := a.phase r (.deciding { pin with abandoned := true })
            pure { s with g, acts := a :: s.others t }
        | _ => throw .disabled
      | _ => throw .disabled
    | none => throw .disabled
  | .jump t =>
    match s.top t with
    | some a =>
      match a.call with
      | .raise r =>
        match r.phase with
        | .deciding pin =>
          if pin.abandoned then pure { s with acts := s.others t } else throw .disabled
        | _ => throw .disabled
      | _ => throw .disabled
    | none => throw .disabled
  | .done t =>
    match s.top t with
    | some a =>
      match a.call with
      | .guard _ _ => pure { s with acts := s.others t }
      | .raise r =>
        match r.phase with
        | .handler _ => pure { s with acts := s.others t }
        | _ => throw .disabled
      | _ => throw .disabled
    | none => throw .disabled

/-- The set of signal 1 alone. -/
def onlyOne : SigSet := fun n => n == 1

/-- Thread 0 installs signal 1. -/
def installOne : List Action :=
  [.siginstall 0 (some onlyOne) true, .advance 0 {}, .advance 0 {}]

/-- Thread 0 registers a decider for signal 1. -/
def registerOne : List Action :=
  [.create 0 (some onlyOne) false (some 0) 0 true, .advance 0 {}, .advance 0 {}]

/-- Thread 0 registers one that is to be called first. -/
def registerFirst : List Action :=
  [.create 0 (some onlyOne) true (some 0) 0 true, .advance 0 {}, .advance 0 {}]

/-- Thread 1 raises signal 1, and is inside the decider. -/
def enterOne : List Action := [.raise 1 1, .advance 1 {}]

/-- Thread 0 destroys the decider handle and uninstalls the signal. -/
def giveBackOne : List Action :=
  [.destroy 0 1] ++ List.replicate 5 (.advance 0 {}) ++ [.siguninstall 0 0, .advance 0 {},
    .advance 0 {}]

end Wg14Signals
