import Wg14Signals.Lib.Heap
import Wg14Signals.Lib.Beside
import Wg14Signals.Lib.DList
import Wg14Signals.Lib.Runs
import Wg14Signals.Lib.LockFlow
import Wg14Signals.Lib.Lockstep
import Wg14Signals.Lib.FinMap
import Wg14Signals.Lib.Tally
import Wg14Signals.Lib.Probing
import Wg14Signals.Lib.Chaining
import Wg14Signals.Lib.Sections
import Wg14Signals.Signals
import Wg14Signals.Registry
import Wg14Signals.Install
import Wg14Signals.Deciders
import Wg14Signals.Raise
import Wg14Signals.Machine
import Wg14Signals.Holdings
import Wg14Signals.Resume
import Wg14Signals.Consult
import Wg14Signals.Registrations
import Wg14Signals.MapGate
import Wg14Signals.Tss
import Wg14Signals.TssMachine
import Wg14Signals.TssHistory
import Wg14Signals.TssInit
import Wg14Signals.TssReentry
import Wg14Signals.TssRegistrations
import Wg14Signals.ThreadKeys
import Wg14Signals.FirstUse
import Wg14Signals.ThreadAtexit
import Wg14Signals.ThreadExit
import Wg14Signals.Siginfo
import Wg14Signals.ThreadStorage
import Wg14Signals.Siginstall
import Wg14Signals.Guards
import Wg14Signals.Storages
import Wg14Signals.Rollback
import Wg14Signals.Dispatch
import Wg14Signals.Exceptions
import Wg14Signals.DecisionCache
import Wg14Signals.WinHooks
import Wg14Signals.Windows
import Wg14Signals.WinDispatch
import Wg14Signals.SignalCodes
import Wg14Signals.Backends
import Wg14Signals.Parameters
import Wg14Signals.Unregistrations
import Wg14Signals.Abandonment
import Wg14Signals.WinAbandon
import Wg14Signals.Locking
import Wg14Signals.Verstable
import Wg14Signals.VerstableMap
import Wg14Signals.VerstableRuns
import Wg14Signals.SignoMaps
import Wg14Signals.LockUnlock
import Wg14Signals.LockedTable
import Wg14Signals.WinSigset
import Wg14Signals.ThreadAtexitCpp
import Wg14Signals.Proofs.Wf
import Wg14Signals.Proofs.Surgery
import Wg14Signals.Proofs.Containers
import Wg14Signals.Proofs.Nodes
import Wg14Signals.Proofs.Raises
import Wg14Signals.Proofs.Progress
import Wg14Signals.Proofs.Moves
import Wg14Signals.Proofs.Effects
import Wg14Signals.Proofs.Activations
import Wg14Signals.Proofs.Handles
import Wg14Signals.Proofs.Invariant
import Wg14Signals.Proofs.Failures
import Wg14Signals.Proofs.Unregistrations
import Wg14Signals.Proofs.Pins
import Wg14Signals.Proofs.Nesting
import Wg14Signals.Proofs.NestedCalls
import Wg14Signals.Proofs.UseAfterFree
import Wg14Signals.Proofs.Refcounts
import Wg14Signals.Proofs.Mapped
import Wg14Signals.Proofs.Dispositions
import Wg14Signals.Proofs.Recovery
import Wg14Signals.Proofs.Silence
import Wg14Signals.Proofs.DecisionCache
import Wg14Signals.Proofs.Delivery
import Wg14Signals.Proofs.Handoff
import Wg14Signals.Proofs.MapGate
import Wg14Signals.Proofs.MapInsert
import Wg14Signals.Proofs.TssSections
import Wg14Signals.Proofs.TssKeys
import Wg14Signals.Proofs.ThreadKeys
import Wg14Signals.Proofs.TssTurns
import Wg14Signals.Proofs.TssValues
import Wg14Signals.Proofs.TssGet
import Wg14Signals.Proofs.TssIsolation
import Wg14Signals.Proofs.TssDisposal
import Wg14Signals.Proofs.TssInit
import Wg14Signals.Proofs.TssReentry
import Wg14Signals.Proofs.TssRegistrations
import Wg14Signals.Proofs.GuardTurns
import Wg14Signals.Proofs.GuardStack
import Wg14Signals.Proofs.GuardInfos
import Wg14Signals.Proofs.Storages
import Wg14Signals.Proofs.FirstUse
import Wg14Signals.Proofs.ThreadAtexit
import Wg14Signals.Proofs.ThreadExit
import Wg14Signals.Proofs.Informing
import Wg14Signals.Proofs.Installing
import Wg14Signals.Proofs.Rollback
import Wg14Signals.Proofs.Dispatch
import Wg14Signals.Proofs.RaiseResult
import Wg14Signals.Proofs.WinTurns
import Wg14Signals.Proofs.WinChains
import Wg14Signals.Proofs.WinClaims
import Wg14Signals.Proofs.WinDispatch
import Wg14Signals.Proofs.Shelved
import Wg14Signals.Proofs.SignalCodes
import Wg14Signals.Proofs.Backends
import Wg14Signals.Proofs.Parameters
import Wg14Signals.Proofs.WinAbandon
import Wg14Signals.Proofs.Locking
import Wg14Signals.Proofs.WinHooks
import Wg14Signals.Proofs.WinInfos
import Wg14Signals.Proofs.Leaks
import Wg14Signals.Proofs.Retraction
import Wg14Signals.Proofs.Consulting
import Wg14Signals.Proofs.Ordering
import Wg14Signals.Proofs.Offering
import Wg14Signals.Proofs.Abandonment
import Wg14Signals.Proofs.Metadata
import Wg14Signals.Proofs.Traversals
import Wg14Signals.Proofs.Linking
import Wg14Signals.Proofs.TableInserts
import Wg14Signals.Proofs.TableSearch
import Wg14Signals.Proofs.TableRehash
import Wg14Signals.Proofs.TableGrowth
import Wg14Signals.Proofs.TableErase
import Wg14Signals.Proofs.TableSizes
import Wg14Signals.Proofs.TableSweep
import Wg14Signals.Proofs.TableRuns
import Wg14Signals.Proofs.SignoMaps
import Wg14Signals.Proofs.LockUnlock
import Wg14Signals.Proofs.LockedTable
import Wg14Signals.Proofs.WinSigset
import Wg14Signals.Proofs.ThreadAtexitCpp
import Wg14Signals.Lib.Simulation
import Wg14Signals.TssTable
