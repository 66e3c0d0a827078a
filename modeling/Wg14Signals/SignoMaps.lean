import Wg14Signals.MapInsert
import Wg14Signals.VerstableMap
import Wg14Signals.Lib.Runs

namespace Wg14Signals
open Lib

/-- Why a critical section over a real `signo_to_sighandler_map_t` could not go on. -/
inductive MapFault where
  /-- An `assert` of the array's functions failed. -/
  | assertion
  /-- The end iterator was dereferenced. -/
  | endIterator
  | table (f : VtFault)
  | lib (f : Fault)
  deriving DecidableEq, Repr

def liftLib {α : Type} : Except Fault α → Except MapFault α
  | .ok a => .ok a
  | .error f => .error (.lib f)

def liftVt {α : Type} : Except VtFault α → Except MapFault α
  | .ok a => .ok a
  | .error f => .error (.table f)

/-- The functions of a `signo_to_sighandler_map_t`, by the names the library calls them. -/
structure SignoMap (σ ι : Type) where
  /-- The map in static storage, once it is initialised. -/
  init : σ
  get : σ → Signo → Except MapFault ι
  isEnd : ι → Bool
  value : σ → ι → Except MapFault Addr
  /-- What `malloc` will say is only asked by the hash table. -/
  insert : σ → Signo → Addr → List Bool → Except MapFault (ι × σ)
  eraseItr : σ → ι → Except MapFault σ

/-- A `signo_to_sighandler_map_t_itr` of the array. `SIZE_MAX` is `none`. -/
structure ArrayItr where
  val : Option Addr
  idx : Option Nat
  deriving DecidableEq, Repr

def ArrayItr.endItr : ArrayItr where
  val := none
  idx := none

/-- The array of platforms with `NSIG < 1024`. -/
def arrayMap (nsig : Nat) : SignoMap (Nat → Option Addr) ArrayItr where
  init := fun _ => none
  get arr idx :=
    if idx < 0 ∨ (nsig : Int) ≤ idx ∨ arr idx.toNat = none then pure .endItr
    else pure { val := arr idx.toNat, idx := some idx.toNat }
  isEnd it := it.val == none
  value _ it :=
    match it.val with
    | some item => pure item
    | none => throw .endIterator
  insert arr idx val _ :=
    if idx < 0 ∨ (nsig : Int) ≤ idx then pure (.endItr, arr)
    else if arr idx.toNat ≠ none then throw .assertion
    else
      let arr := fun i => if i = idx.toNat then some val else arr i
      pure ({ val := arr idx.toNat, idx := some idx.toNat }, arr)
  eraseItr arr it :=
    match it.idx with
    | some idx =>
      if idx < nsig then pure fun i => if i = idx then none else arr i
      else throw .assertion
    | none => throw .assertion

/-- `vt_hash_integer` of an `int`, which is converted to a `uint64_t`. -/
def signoHash (signo : Signo) : BitVec 64 := vtHashInteger (.ofInt 64 signo)

/-- The hash table of the other platforms. -/
def tableMap : SignoMap (VtTable Signo Addr) VtItr where
  init := .init
  get t signo := liftVt (t.get signoHash signo)
  isEnd itr := itr.isEnd
  value t itr :=
    if itr.isEnd then throw .endIterator
    else do
      let entry ← liftVt (t.readBucket itr.metadatum)
      pure entry.2
  insert t signo val mallocs := do
    let (itr, t, _) ← liftVt (t.insert signoHash signo val mallocs)
    pure (itr, t)
  eraseItr t itr := do
    let (_, t) ← liftVt (t.eraseItr signoHash itr)
    pure t

/-- The library's state over a real map: `g` without its `map`, and the map. -/
structure Mapped (σ : Type) where
  g : Global
  map : σ

namespace SignoMap

variable {σ ι : Type} (M : SignoMap σ ι)

/-- Restore the saved disposition, erase the entry at the iterator and drop its reference. -/
def dropEntry (s : Mapped σ) (signo : Signo) (it : ι) (item : Addr) (k : Container) :
    Except MapFault (Mapped σ) := do
  let map ← M.eraseItr s.map it
  let g ← liftLib (sighandlerInfoRelease (s.g.setKernel signo k.oldHandler) item)
  pure { g, map }

/-- `install_sighandler` from the increment of `install_count` on. -/
def countInstall (s : Mapped σ) (signo : Signo) (it : ι) (env : InstallEnv) :
    Except MapFault (Bool × Mapped σ) := do
  let item ← M.value s.map it
  let k ← liftLib (s.g.readContainer item)
  if s.g.sighandlersCount = 0 ∧ env.tssCreate = false then
    if k.installCount + 1 - 1 = 0 then do
      let s ← M.dropEntry s signo it item k
      pure (false, s)
    else pure (false, s)
  else
    pure (true, { s with
      g := { s.g.setContainer item { k with installCount := k.installCount + 1 } with
        sighandlersCount := s.g.sighandlersCount + 1 } })

/-- The critical section of `install_sighandler`. -/
def installSighandler (s : Mapped σ) (signo : Signo) (env : InstallEnv) (mallocs : List Bool) :
    Except MapFault (Bool × Mapped σ) := do
  let it ← M.get s.map signo
  if M.isEnd it then
    if env.calloc = false then pure (false, s)
    else if env.sigaction = false then
      -- the new container is freed again before anything could point to it
      pure (false, { s with g := { s.g with nextContainer := s.g.nextContainer + 1 } })
    else do
      let (it, map) ← M.insert s.map signo s.g.nextContainer mallocs
      M.countInstall { g := armSighandler s.g signo, map } signo it env
  else M.countInstall s signo it env

/-- The critical section of `uninstall_sighandler`. -/
def uninstallSighandler (s : Mapped σ) (signo : Signo) : Except MapFault (Mapped σ) := do
  let it ← M.get s.map signo
  if M.isEnd it then pure s
  else do
    let item ← M.value s.map it
    let k ← liftLib (s.g.readContainer item)
    let g ← liftLib (freeDeferred s.g k)
    let k := { k with deferredFrees := {}, installCount := k.installCount - 1 }
    let s := { s with
      g := { g.setContainer item k with sighandlersCount := g.sighandlersCount - 1 } }
    if k.installCount = 0 then M.dropEntry s signo it item k else pure s

/-- The lookup with which `signal_decider_create`, `signal_decider_destroy` and a raise begin. -/
def lookup (s : Mapped σ) (signo : Signo) : Except MapFault (Option Addr) := do
  let it ← M.get s.map signo
  if M.isEnd it then pure none
  else do
    let item ← M.value s.map it
    pure (some item)

end SignoMap

/-- `Global` without its map. -/
def Global.unmapped (g : Global) : Global := { g with map := fun _ => none }

/-- The critical sections that use the map, and any that do not. -/
inductive MapCall where
  | install (signo : Signo) (env : InstallEnv) (mallocs : List Bool)
  | uninstall (signo : Signo)
  | lookup (signo : Signo)
  /-- Whatever another section does to the rest of the state. -/
  | other (f : Global → Global)

/-- What they return. -/
inductive MapResult where
  | installed (ok : Bool)
  | uninstalled
  | found (item : Option Addr)
  | none
  deriving DecidableEq, Repr

/-- The signals an array of `NSIG` has an element for. -/
def InRange (nsig : Nat) (signo : Int) : Prop := 0 ≤ signo ∧ signo < nsig

instance (nsig : Nat) (signo : Int) : Decidable (InRange nsig signo) :=
  inferInstanceAs (Decidable (_ ∧ _))

/-- What is installed is in range, and an insert finds memory. -/
def MapCall.Usual (nsig : Nat) : MapCall → Prop
  | install signo _ mallocs => InRange nsig signo ∧ mallocs.head? = some true
  | _ => True

/-- A critical section over a real map. -/
def SignoMap.perform {σ ι : Type} (M : SignoMap σ ι) (s : Mapped σ) :
    MapCall → Except MapFault (MapResult × Mapped σ)
  | .install signo env mallocs => do
    let (ok, s) ← M.installSighandler s signo env mallocs
    pure (.installed ok, s)
  | .uninstall signo => do
    let s ← M.uninstallSighandler s signo
    pure (.uninstalled, s)
  | .lookup signo => do
    let item ← M.lookup s signo
    pure (.found item, s)
  | .other f => pure (.none, { s with g := (f s.g).unmapped })

/-- The same section over the finite map of `Global`. -/
def performMapped (g : Global) : MapCall → Except Fault (MapResult × Global)
  | .install signo env _ => do
    let (ok, g) ← installSighandler g signo env
    pure (.installed ok, g)
  | .uninstall signo => do
    let g ← uninstallSighandler g signo
    pure (.uninstalled, g)
  | .lookup signo => pure (.found (g.map signo), g)
  | .other f => pure (.none, { f g.unmapped with map := g.map })

/-- One section after the other, with what they return. -/
def performAll {ε σ : Type} (perform : σ → MapCall → Except ε (MapResult × σ)) (s : σ) :
    List MapCall → Except ε (List MapResult × σ)
  | [] => pure ([], s)
  | call :: calls => do
    let (r, s) ← perform s call
    let (rs, s) ← performAll perform s calls
    pure (r :: rs, s)

/-- Sections over a real map and over the finite map end alike, also in what the library does
wrong there. -/
inductive EndsAlike {σ α : Type} (Rep : σ → (Signo → Option Addr) → Prop) :
    Except MapFault (α × Mapped σ) → Except Fault (α × Global) → Prop where
  | ok (a : α) {map : σ} {g : Global} (rep : Rep map g.map) :
    EndsAlike Rep (.ok (a, ⟨g.unmapped, map⟩)) (.ok (a, g))
  | error (f : Fault) : EndsAlike Rep (.error (.lib f)) (.error f)

/-- The array holds the finite map. -/
def ArrayHolds (nsig : Nat) (arr : Nat → Option Addr) (m : Signo → Option Addr) : Prop :=
  ∀ signo, m signo = if InRange nsig signo then arr signo.toNat else none

/-- The hash table does. -/
structure TableHolds (nsig : Nat) (t : VtTable Signo Addr) (m : Signo → Option Addr) : Prop where
  wf : t.Wf signoHash
  maps : t.Maps m
  range : ∀ signo item, m signo = some item → InRange nsig signo

end Wg14Signals
