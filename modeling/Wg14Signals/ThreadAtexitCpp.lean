import Wg14Signals.ThreadAtexit

/-! `thread_atexit` in C++, for platforms without `__cxa_thread_atexit`. -/

namespace Wg14Signals.Cpp

/-- An `item`. Its `func` is null once it has been moved from. -/
structure Item where
  func : Option Nat
  obj : Nat
  deriving DecidableEq

/-- What the standard leaves to the library that `std::vector` comes from. -/
structure Library where
  /-- The capacity that follows a full one. -/
  grow : Nat → Nat
  /-- The elements are destroyed from the last to the first. -/
  backward : Bool
  grows : ∀ n, n < grow n

/-- The `items` of a thread. -/
structure Items where
  vector : List Item
  capacity : Nat
  /-- The callbacks that have been called, the last one first. -/
  called : List (Nat × Nat)

def Items.initial : Items where
  vector := []
  capacity := 0
  called := []

namespace Item

/-- `item(item &&o)`: the new item, and what is left of `o`. -/
def move (o : Item) : Item × Item := (o, { func := none, obj := 0 })

/-- `~item()` -/
def destroy (called : List (Nat × Nat)) (x : Item) : List (Nat × Nat) :=
  match x.func with
  | some func => (func, x.obj) :: called
  | none => called

/-- What the destructor calls. -/
def target (x : Item) : Option (Nat × Nat) := x.func.map (·, x.obj)

end Item

/-- The elements of a vector are destroyed. -/
def Library.destroyAll (lib : Library) (items : List Item) (called : List (Nat × Nat)) :
    List (Nat × Nat) :=
  (if lib.backward then items.reverse else items).foldl Item.destroy called

/-- `emplace_back`. A full vector moves to a larger allocation, its old elements being destroyed.
`none`: it throws, and the vector is as before. -/
def Items.emplaceBack (lib : Library) (s : Items) (x : Item) (alloc : Bool) : Option Items :=
  if s.vector.length < s.capacity then some { s with vector := s.vector ++ [x] }
  else if alloc then
    let moved := s.vector.map Item.move
    some {
      vector := moved.map Prod.fst ++ [x]
      capacity := lib.grow s.capacity
      called := lib.destroyAll (moved.map Prod.snd) s.called }
  else none

/-- A call of `thread_atexit`: its arguments, and whether memory can be allocated. -/
structure Call where
  func : Option Nat
  obj : Nat
  alloc : Bool

def Call.item (c : Call) : Item := { func := c.func, obj := c.obj }

def threadAtexit (lib : Library) (s : Items) (c : Call) : Int × Items :=
  match s.emplaceBack lib c.item c.alloc with
  | some s => (0, s)
  | none => (-1, s)

/-- The calls of a thread, with what they return. -/
def threadRuns (lib : Library) (s : Items) : List Call → List Int × Items
  | [] => ([], s)
  | c :: cs =>
    let (ret, s) := threadAtexit lib s c
    let (rets, s) := threadRuns lib s cs
    (ret :: rets, s)

/-- The thread exits. -/
def threadExit (lib : Library) (s : Items) : Items :=
  { s with vector := [], called := lib.destroyAll s.vector s.called }

/-- The callbacks that have been called, in their order. -/
def Items.events (s : Items) : List (Nat × Nat) := s.called.reverse

/-- Those whose registration has returned 0. -/
def accepted (program : List Call) (rets : List Int) : List Item :=
  ((program.zip rets).filter fun x => x.2 = 0).map fun x => x.1.item

/-- The same registration with either path, memory being available. Its callback makes none. -/
def cppCall (x : Nat × Nat) : Call := { func := some x.1, obj := x.2, alloc := true }

def plainCall (x : Nat × Nat) : ExitCall := .mk x.1 x.2 {} []

end Wg14Signals.Cpp
