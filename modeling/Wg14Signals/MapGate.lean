import Wg14Signals.Registry
import Wg14Signals.Lib.Runs

namespace Wg14Signals
open Lib

/-- What the `metadata` pointer of a hash table points at: the shared placeholder
of an empty table, or an allocation. -/
inductive Metadata where
  | emptyPlaceholder
  | allocated (p : Addr)
  deriving DecidableEq

/-- The `signo_to_sighandler_map_t` of a platform with `NSIG >= 1024`. The defaults are
those of static storage. -/
structure MapTable where
  keyCount : Nat := 0
  bucketsMask : Nat := 0
  buckets : Option Addr := none
  metadata : Option Metadata := none
  deriving DecidableEq

/-- The `signo_to_sighandler_map_t_init` of the hash table. -/
def MapTable.init : MapTable where
  keyCount := 0
  bucketsMask := 0
  buckets := none
  metadata := some .emptyPlaceholder

/-- Where a call of `sig_global_state` stands: the operation it performs next. -/
inductive GatePc where
  | load
  | compareExchange
  | spin
  | init
  | store
  | returned
  deriving DecidableEq

structure Gate where
  mapInited : Nat
  table : MapTable
  /-- How often the table has been initialised. -/
  inits : Nat
  /-- Every call any thread, or a handler on it, ever makes. One that has not begun
  stands before its first load. -/
  calls : Nat → GatePc

def Gate.initial : Gate where
  mapInited := 0
  table := {}
  inits := 0
  calls := fun _ => .load

@[simps]
def Gate.goto (s : Gate) (c : Nat) (pc : GatePc) : Gate :=
  { s with calls := fun d => if d = c then pc else s.calls d }

/-- The next operation of call `c` of `sig_global_state`. -/
def sigGlobalState (s : Gate) (c : Nat) : Except Fault Gate :=
  match s.calls c with
  | .load => pure (s.goto c (if s.mapInited = 0 then .compareExchange else .returned))
  | .compareExchange =>
    if s.mapInited = 0 then pure ({ s with mapInited := 1 }.goto c .init)
    else pure (s.goto c .spin)
  | .spin => pure (if s.mapInited = 2 then s.goto c .returned else s)
  | .init => pure ({ s with table := .init, inits := s.inits + 1 }.goto c .store)
  | .store => pure ({ s with mapInited := 2 }.goto c .returned)
  | .returned => throw .disabled

/-- No call makes its first load between the exchange that some call won and the end of
the initialisation that call performs. -/
def LoadsOutsideInit (s : Gate) (c : Nat) : Prop :=
  s.calls c = .load → s.mapInited = 1 → 0 < s.inits

instance (s : Gate) (c : Nat) : Decidable (LoadsOutsideInit s c) :=
  inferInstanceAs (Decidable (_ → _ → _))

end Wg14Signals
