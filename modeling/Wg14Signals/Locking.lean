import Wg14Signals.Lib.LockFlow

/-! What the functions of the library do with its locks on POSIX. A test stands for a condition of
the source. A branch is left out where neither side takes or gives back a lock, calls code of the
user or leaves the function. -/

namespace Wg14Signals.Locking
open Lib.LockFlow

/-- A `tss_async_signal_safe_t`: the one the library keeps its own per-thread state in, or one of
the user. -/
inductive Instance where
  | own
  | user (i : Nat)
  deriving DecidableEq

inductive Lock where
  | state
  | tss (i : Instance)
  deriving DecidableEq

inductive Test where
  | isEnd
  | callocFails
  | mallocFails
  | sigactionFails
  /-- The insert into the hash table of the signals finds no memory. -/
  | insertFails
  | insertIsEnd
  /-- A call of another function of the library, or of the user's `create`, has failed. -/
  | callFails
  | keyFails
  | setspecificFails
  | slotIsNull
  | newItemIsNull
  | stateIsNull
  | valIsNull
  | firstInstall
  | lastInstall
  | lastInstallOfAll
  | lastReference
  | moreSignos
  | moreValues
  | isMember
  | argumentIsNull
  | setIsEmpty
  | frameNotNull
  | resumeExecution
  | callRecovery
  | recoveryNotNull
  | hasDeciders
  | currentNotNull
  | decided
  | isSiginfoHandler
  | isDefault
  | isIgnored
  | isIgnoredByDefault
  | signoIsZero
  | signoOutOfRange
  | isAbandoned
  | isLocal
  | notTopmost
  | isGlobal
  deriving DecidableEq

/-- How the library was built. -/
structure Build where
  asyncSafeThreadLocal : Bool
  /-- `NSIG >= 1024`. Otherwise the map of the signals is an array, and its insert cannot fail. -/
  hashTable : Bool

abbrev Code := Stmt Lock Test

/-- `abort()` raises `SIGABRT` first. -/
def abort : Code := .block [.user, .halt]

/-- An access through a null pointer raises `SIGSEGV`, again and again should its handler come
back. -/
def nullAccess : Code := .block [.user, .halt]

/-- The `create` and `destroy` callbacks. Those of the library only allocate and free. -/
def callback : Instance → Code
  | .own => .skip
  | .user _ => .user

def threadAtexit : Code := .block [
  .when .mallocFails .ret,
  .when .keyFails .ret,
  .when .setspecificFails .ret,
  .ret]

def tssCreate : Code := .block [
  .when .callocFails .ret,
  .ret]

def tssDestroy (i : Instance) : Code := .block [
  .lock (.tss i),
  .loop .moreValues (.block [
    .unlock (.tss i),
    callback i,
    .lock (.tss i)]),
  .unlock (.tss i),
  .ret]

def threadDeinit (i : Instance) : Code := .block [
  .branch .valIsNull .skip (.block [
    .lock (.tss i),
    .branch .isEnd .skip (.block [
      .unlock (.tss i),
      callback i,
      .lock (.tss i)]),
    .unlock (.tss i)]),
  .ret]

def threadInit (i : Instance) : Code := .block [
  .lock (.tss i),
  .when .isEnd (.block [
    .unlock (.tss i),
    callback i,
    .when .callFails .ret,
    .when .newItemIsNull .ret,
    .lock (.tss i),
    .when .insertIsEnd (.block [
      .unlock (.tss i),
      callback i,
      .ret]),
    .when .stateIsNull (.when .callocFails (.block [
      .unlock (.tss i),
      callback i,
      .ret])),
    .unlock (.tss i),
    .call threadAtexit,
    .ret]),
  .unlock (.tss i),
  .ret]

def tssGet (i : Instance) : Code := .block [
  .lock (.tss i),
  .unlock (.tss i),
  .ret]

def sigGlobalTssStateCreate (b : Build) : Code :=
  if b.asyncSafeThreadLocal then .ret
  else .block [
    .branch .slotIsNull .skip .ret,
    .call tssCreate,
    .ret]

def sigGlobalTssStateInit (b : Build) : Code :=
  if b.asyncSafeThreadLocal then .block [
    .branch .slotIsNull .skip .ret,
    .when .callocFails .ret,
    .call threadAtexit,
    .ret]
  else .block [
    .when .slotIsNull (.block [
      .call (sigGlobalTssStateCreate b),
      .when .callFails .ret]),
    .call (threadInit .own),
    .ret]

def sigGlobalTssState (b : Build) : Code :=
  if b.asyncSafeThreadLocal then .ret else .block [.call (tssGet .own), .ret]

def sigGlobalTssStateDestroy (b : Build) : Code :=
  if b.asyncSafeThreadLocal then .ret else .block [.call (tssDestroy .own), .ret]

/-- `signo_to_sighandler_map_t_insert`, and the first access to what it returns. -/
def mapInsert (b : Build) : Code :=
  if b.hashTable then .when .insertFails nullAccess else .skip

def installSighandler (b : Build) : Code := .block [
  .lock .state,
  .when .isEnd (.block [
    .when .callocFails (.block [
      .unlock .state,
      .ret]),
    .when .sigactionFails (.block [
      .unlock .state,
      .ret]),
    mapInsert b]),
  .when .firstInstall (.block [
    .call (sigGlobalTssStateCreate b),
    .when .callFails (.block [
      .unlock .state,
      .ret])]),
  .unlock .state,
  .ret]

def uninstallSighandler (b : Build) : Code := .block [
  .lock .state,
  .branch .isEnd .skip
    (.when .lastInstallOfAll (.call (sigGlobalTssStateDestroy b))),
  .unlock .state,
  .ret]

def siginstall (b : Build) : Code := .block [
  .when .mallocFails .ret,
  .loop .moreSignos (.when .isMember (.block [
    .call (installSighandler b),
    .when .callFails (.block [
      .loop .moreSignos (.when .isMember (.call (uninstallSighandler b))),
      .ret])])),
  .ret]

def siguninstall (b : Build) : Code := .block [
  .when .argumentIsNull .ret,
  .loop .moreSignos (.when .isMember (.block [
    .call (uninstallSighandler b),
    .when .callFails .ret])),
  .ret]

def signalDeciderDestroy : Code := .block [
  .when .argumentIsNull .ret,
  .loop .moreSignos (.block [
    .lock .state,
    .unlock .state]),
  .ret]

def signalDeciderCreate : Code := .block [
  .when .argumentIsNull .ret,
  .when .setIsEmpty .ret,
  .when .mallocFails .ret,
  .loop .moreSignos (.when .isMember (.block [
    .lock .state,
    .branch .isEnd
      (.unlock .state)
      (.block [
        .when .callocFails (.block [
          .unlock .state,
          .call signalDeciderDestroy,
          .ret]),
        .unlock .state])])),
  .ret]

/-- A handler from before the library runs code of the user, and so does the signal that the
`SIG_DFL` branch sends. -/
def invokeSigaction : Code := .block [
  .when .isSiginfoHandler (.block [
    .user,
    .ret]),
  .when .isDefault (.block [
    .when .isIgnoredByDefault .ret,
    .user,
    .ret]),
  .when .isIgnored .ret,
  .user,
  .ret]

def stdcRaise (b : Build) : Code := .block [
  .call (sigGlobalTssStateInit b),
  .when .callFails .ret,
  .when .signoIsZero .ret,
  .when .signoOutOfRange .ret,
  .call (sigGlobalTssState b),
  .loop .frameNotNull (.when .isMember (.block [
    .user,
    .when .resumeExecution .ret,
    .when .callRecovery (.when .recoveryNotNull .longjmp)])),
  .lock .state,
  .when .isEnd (.block [
    .unlock .state,
    .ret]),
  .when .hasDeciders (.doWhile (.block [
      .unlock .state,
      .user,
      .lock .state,
      .when .decided (.block [
        .unlock .state,
        .ret])])
    .currentNotNull),
  .unlock .state,
  .call invokeSigaction,
  .ret]

def rawSignalHandler (b : Build) : Code := .block [
  .call (stdcRaise b),
  .when .callFails (.call invokeSigaction)]

/-- The guarded function runs, and after a `longjmp` back the recovery function. -/
def sigguarded (b : Build) : Code := .block [
  .when .argumentIsNull abort,
  .call (sigGlobalTssStateInit b),
  .when .callFails .ret,
  .call (sigGlobalTssState b),
  .setjmp (.block [.user, .ret]) (.block [.user, .ret])]

def sigdeciderAbandon (b : Build) : Code :=
  .branch .isAbandoned .skip (.block [
    .when .isLocal (.block [
      .call (sigGlobalTssState b),
      .when .notTopmost abort]),
    .when .isGlobal (.block [
      .lock .state,
      .unlock .state])])

def sigdeciderAbandonResume (b : Build) : Code :=
  .when .isAbandoned (.block [
    .when .isLocal (.block [
      .call (sigGlobalTssState b),
      .when .notTopmost abort]),
    .when .isGlobal (.block [
      .lock .state,
      .unlock .state])])

/-- What code of the user, the kernel or the end of the thread calls. -/
inductive LibraryCall where
  | siginstall
  | siguninstall
  | create
  | destroy
  | raise
  | deliver
  | sigguarded
  | abandon
  | resume
  | tssCreate
  | threadInit (i : Nat)
  | tssGet (i : Nat)
  | tssDestroy (i : Nat)
  | threadDeinit (i : Instance)
  deriving DecidableEq

def LibraryCall.code (b : Build) : LibraryCall → Code
  | .siginstall => Locking.siginstall b
  | .siguninstall => Locking.siguninstall b
  | .create => signalDeciderCreate
  | .destroy => signalDeciderDestroy
  | .raise => stdcRaise b
  | .deliver => rawSignalHandler b
  | .sigguarded => Locking.sigguarded b
  | .abandon => sigdeciderAbandon b
  | .resume => sigdeciderAbandonResume b
  | .tssCreate => Locking.tssCreate
  | .threadInit i => Locking.threadInit (.user i)
  | .tssGet i => Locking.tssGet (.user i)
  | .tssDestroy i => Locking.tssDestroy (.user i)
  | .threadDeinit i => Locking.threadDeinit i

/-- No insert into the hash table fails. -/
def InsertsWork (b : Build) (th : Thread Lock Test) (act : Act LibraryCall) : Prop :=
  b.hashTable = true → Respects (· == .insertFails) th act

end Wg14Signals.Locking
