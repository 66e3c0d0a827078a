import Wg14Signals.Locking

namespace Wg14Signals.Locking
open Lib Lib.LockFlow

section

variable {never : Test → Bool} {R H : List Lock} {Q : List Lock → Prop} {b : Build} {i : Instance}

/-- The callbacks of the user are called without a lock. -/
@[simp]
theorem callback_wp : (callback i).wp never R Q H ↔ (i = .own ∨ H = []) ∧ Q H := by
  cases i with
  | own => simp [callback]
  | user n => simp [callback]

@[simp]
theorem abort_wp : abort.wp never R Q H ↔ H = [] := by simp [abort]

@[simp]
theorem threadAtexit_keeps : threadAtexit.Keeps never H := by
  unfold Stmt.Keeps threadAtexit
  simp

@[simp]
theorem tssCreate_keeps : tssCreate.Keeps never H := by
  unfold Stmt.Keeps tssCreate
  simp

theorem tssDestroy_keeps (hi : i = .own ∨ H = []) (hh : .tss i ∉ H) :
    (tssDestroy i).Keeps never H := by
  unfold Stmt.Keeps tssDestroy
  simp [hi, hh]

theorem threadDeinit_keeps : (threadDeinit i).Keeps never [] := by
  unfold Stmt.Keeps threadDeinit
  simp

@[simp]
theorem threadInit_keeps : (threadInit i).Keeps never [] := by
  unfold Stmt.Keeps threadInit
  simp

@[simp]
theorem tssGet_keeps : (tssGet i).Keeps never [] := by
  unfold Stmt.Keeps tssGet
  simp

@[simp]
theorem sigGlobalTssStateCreate_keeps : (sigGlobalTssStateCreate b).Keeps never H := by
  unfold Stmt.Keeps sigGlobalTssStateCreate
  split
  · rfl
  · simp

@[simp]
theorem sigGlobalTssStateInit_keeps : (sigGlobalTssStateInit b).Keeps never [] := by
  unfold Stmt.Keeps sigGlobalTssStateInit
  split
  · simp
  · simp

@[simp]
theorem sigGlobalTssState_keeps : (sigGlobalTssState b).Keeps never [] := by
  unfold Stmt.Keeps sigGlobalTssState
  split
  · rfl
  · simp

/-- The instance of the library is destroyed under the other lock, its callback with it. -/
@[simp]
theorem sigGlobalTssStateDestroy_keeps : (sigGlobalTssStateDestroy b).Keeps never [.state] := by
  unfold Stmt.Keeps sigGlobalTssStateDestroy
  split
  · rfl
  · simp [tssDestroy_keeps]

theorem mapInsert_wp (hn : b.hashTable = true → never .insertFails = true) : (mapInsert b).wp never R Q H ↔ Q H := by
  unfold mapInsert
  split
  · rename_i hb
    simp [hn hb]
  · rfl

theorem installSighandler_keeps (hn : b.hashTable = true → never .insertFails = true) :
    (installSighandler b).Keeps never [] := by
  unfold Stmt.Keeps installSighandler
  simp [mapInsert_wp hn]

@[simp]
theorem uninstallSighandler_keeps : (uninstallSighandler b).Keeps never [] := by
  unfold Stmt.Keeps uninstallSighandler
  simp

theorem siginstall_keeps (hn : b.hashTable = true → never .insertFails = true) : (siginstall b).Keeps never [] := by
  unfold Stmt.Keeps siginstall
  simp [installSighandler_keeps hn]

theorem siguninstall_keeps : (siguninstall b).Keeps never [] := by
  unfold Stmt.Keeps siguninstall
  simp

@[simp]
theorem signalDeciderDestroy_keeps : signalDeciderDestroy.Keeps never [] := by
  unfold Stmt.Keeps signalDeciderDestroy
  simp

theorem signalDeciderCreate_keeps : signalDeciderCreate.Keeps never [] := by
  unfold Stmt.Keeps signalDeciderCreate
  simp

@[simp]
theorem invokeSigaction_keeps : invokeSigaction.Keeps never [] := by
  unfold Stmt.Keeps invokeSigaction
  simp

@[simp]
theorem stdcRaise_keeps : (stdcRaise b).Keeps never [] := by
  unfold Stmt.Keeps stdcRaise
  simp

theorem rawSignalHandler_keeps : (rawSignalHandler b).Keeps never [] := by
  unfold Stmt.Keeps rawSignalHandler
  simp

theorem sigguarded_keeps : (sigguarded b).Keeps never [] := by
  unfold Stmt.Keeps sigguarded
  simp

theorem sigdeciderAbandon_keeps : (sigdeciderAbandon b).Keeps never [] := by
  unfold Stmt.Keeps sigdeciderAbandon
  simp

theorem sigdeciderAbandonResume_keeps : (sigdeciderAbandonResume b).Keeps never [] := by
  unfold Stmt.Keeps sigdeciderAbandonResume
  simp

theorem code_keeps (hn : b.hashTable = true → never .insertFails = true) (c : LibraryCall) :
    (c.code b).Keeps never [] := by
  cases c with
  | siginstall => exact siginstall_keeps hn
  | siguninstall => exact siguninstall_keeps
  | create => exact signalDeciderCreate_keeps
  | destroy => exact signalDeciderDestroy_keeps
  | raise => exact stdcRaise_keeps
  | deliver => exact rawSignalHandler_keeps
  | sigguarded => exact sigguarded_keeps
  | abandon => exact sigdeciderAbandon_keeps
  | resume => exact sigdeciderAbandonResume_keeps
  | tssCreate => exact tssCreate_keeps
  | threadInit i => exact threadInit_keeps
  | tssGet i => exact tssGet_keeps
  | tssDestroy i => exact tssDestroy_keeps (.inr rfl) (List.not_mem_nil)
  | threadDeinit i => exact threadDeinit_keeps

end

end Wg14Signals.Locking
