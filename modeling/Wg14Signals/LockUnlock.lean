import Mathlib.Algebra.BigOperators.Group.Finset.Basic
import Mathlib.Data.Fintype.Card
import Wg14Signals.Lib.Sections

/-! The spinlock of `lock_unlock.h`, one access of the atomic word after the other. What the
threads do between `LOCK` and `UNLOCK` is not said here: any list of steps stands for it. -/

namespace Wg14Signals
open Lib

/-- `atomic_compare_exchange_weak_explicit`: whether it stored, and the word after it. -/
def compareExchangeWeak (word expected desired : Nat) (spurious : Bool) : Bool × Nat :=
  if word = expected ∧ spurious = false then (true, desired) else (false, word)

/-- `atomic_exchange_explicit`: the former word, and the word after it. -/
def atomicExchange (word desired : Nat) : Nat × Nat := (word, desired)

/-- Where a thread is in `LOCK`, its section and `UNLOCK`, and what it has still to do. -/
inductive SpinPc (σ ω : Type) where
  | idle
  /-- About to read the word. -/
  | load (steps : List (SectionStep σ ω))
  /-- It has read a zero. -/
  | swap (steps : List (SectionStep σ ω))
  | within (rest : List (SectionStep σ ω))

namespace SpinPc

variable {σ ω : Type}

def isLoad : SpinPc σ ω → Bool
  | load _ => true
  | _ => false

/-- In `LOCK`, with this section to come. -/
def awaited : SpinPc σ ω → Option (List (SectionStep σ ω))
  | load steps => some steps
  | swap steps => some steps
  | _ => none

end SpinPc

/-- Threads that share data under a lock. -/
structure Spin (τ σ ω : Type) extends Whole τ σ ω where
  word : Nat
  pc : τ → SpinPc σ ω

inductive SpinFault where
  /-- The thread is not where it could do this. -/
  | disabled
  /-- `assert(former == 1)` -/
  | assertion
  deriving DecidableEq

inductive SpinAct (τ σ ω : Type) where
  /-- A thread comes to a `LOCK`. -/
  | begin (t : τ) (steps : List (SectionStep σ ω))
  | load (t : τ)
  | swap (t : τ) (spurious : Bool)
  /-- The next step of its section. -/
  | work (t : τ)
  | unlock (t : τ)
  | outside (t : τ) (f : ω → ω)

namespace SpinAct

variable {τ σ ω : Type}

def thread : SpinAct τ σ ω → τ
  | begin t _ => t
  | load t => t
  | swap t _ => t
  | work t => t
  | unlock t => t
  | outside t _ => t

/-- What the thread's own program has come to. -/
def program : SpinAct τ σ ω → Option (WholeAct τ σ ω)
  | begin t steps => some (.within t steps)
  | outside t f => some (.outside t f)
  | _ => none

def isBegin : SpinAct τ σ ω → Bool
  | begin _ _ => true
  | _ => false

/-- An access in the loop of `LOCK`. -/
def isSpin : SpinAct τ σ ω → Bool
  | load _ => true
  | swap _ _ => true
  | _ => false

def isSpurious : SpinAct τ σ ω → Bool
  | swap _ spurious => spurious
  | _ => false

end SpinAct

namespace Spin

variable {τ σ ω : Type} [DecidableEq τ]

omit [DecidableEq τ] in
/-- Nobody has come to a `LOCK` yet. -/
def initial (shared : σ) (own : τ → ω) : Spin τ σ ω :=
  { shared, own, word := 0, pc := fun _ => .idle }

def goTo (s : Spin τ σ ω) (t : τ) (pc : SpinPc σ ω) : Spin τ σ ω :=
  { s with pc := Function.update s.pc t pc }

/-- `ndebug`: the build that checks no assertions. -/
def step (ndebug : Bool) (s : Spin τ σ ω) : SpinAct τ σ ω → Except SpinFault (Spin τ σ ω)
  | .begin t steps =>
    match s.pc t with
    | .idle => .ok (s.goTo t (.load steps))
    | _ => .error .disabled
  | .load t =>
    match s.pc t with
    | .load steps => .ok (if s.word ≠ 0 then s else s.goTo t (.swap steps))
    | _ => .error .disabled
  | .swap t spurious =>
    match s.pc t with
    | .swap steps =>
      let (stored, word) := compareExchangeWeak s.word 0 1 spurious
      .ok ({ s with word }.goTo t (if stored then .within steps else .load steps))
    | _ => .error .disabled
  | .work t =>
    match s.pc t with
    | .within (f :: rest) =>
      let x := f (s.shared, s.own t)
      .ok ({ s with shared := x.1, own := Function.update s.own t x.2 }.goTo t (.within rest))
    | _ => .error .disabled
  | .unlock t =>
    match s.pc t with
    | .within [] =>
      if ndebug then .ok ({ s with word := 0 }.goTo t .idle)
      else
        let (former, word) := atomicExchange s.word 0
        if former = 1 then .ok ({ s with word }.goTo t .idle) else .error .assertion
    | _ => .error .disabled
  | .outside t f =>
    match s.pc t with
    | .idle => .ok { s with own := Function.update s.own t (f (s.own t)) }
    | _ => .error .disabled

/-- What is done with a step: a section where it gets the lock. -/
def counts (s : Spin τ σ ω) : SpinAct τ σ ω → Option (WholeAct τ σ ω)
  | .swap t spurious =>
    match s.pc t with
    | .swap steps => if (compareExchangeWeak s.word 0 1 spurious).1 then some (.within t steps) else none
    | _ => none
  | .outside t f => some (.outside t f)
  | _ => none

/-- The sections of a run in the order in which they got the lock, and what was done outside
of them. -/
def order (ndebug : Bool) (s : Spin τ σ ω) : List (SpinAct τ σ ω) → List (WholeAct τ σ ω)
  | [] => []
  | act :: acts =>
    match s.step ndebug act with
    | .ok s' => (s.counts act).toList ++ order ndebug s' acts
    | .error _ => []

omit [DecidableEq τ] in
/-- The section a thread is waiting to begin. -/
def pending (s : Spin τ σ ω) (t : τ) : List (WholeAct τ σ ω) :=
  ((s.pc t).awaited.map (.within t)).toList

omit [DecidableEq τ] in
/-- How many threads are about to read the word. -/
def loading [Fintype τ] (s : Spin τ σ ω) : Nat :=
  (Finset.univ.filter fun t => (s.pc t).isLoad = true).card

def Reached (ndebug : Bool) (s : Spin τ σ ω) : Prop :=
  ∃ shared own acts, List.foldlM (step ndebug) (initial shared own) acts = .ok s

end Spin

end Wg14Signals
