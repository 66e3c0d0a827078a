import Mathlib.Data.List.TakeWhile
import Wg14Signals.Lib.Heap

namespace Lib

/-- The objects a chain through one of their fields leads to, in its order. -/
inductive Path {α : Type} (h : Heap α) (next : α → Option Addr) : Option Addr → List Addr → Prop where
  | nil : Path h next none []
  | cons {a : Addr} {v : α} {l : List Addr} (ha : h a = some v) (hp : Path h next (next v) l) :
      Path h next (some a) (a :: l)

theorem Path.start {α : Type} {h : Heap α} {next : α → Option Addr} {p : Option Addr}
    {l : List Addr} (hp : Path h next p l) : p = l.head? := by
  cases hp <;> rfl

/-- Where a chain begins, it is one chain. -/
theorem Path.unique {α : Type} {h : Heap α} {next : α → Option Addr} {p : Option Addr}
    {l l' : List Addr} (hp : Path h next p l) (hp' : Path h next p l') : l = l' := by
  induction hp generalizing l' with
  | nil =>
    cases hp'
    rfl
  | cons ha _ ih =>
    cases hp' with
    | cons ha' hp' =>
      obtain rfl := Option.some.inj (ha.symm.trans ha')
      rw [ih hp']

/-- It does not come back to its first object. -/
theorem Path.moves_on {α : Type} {h : Heap α} {next : α → Option Addr} {a b : Addr}
    {l : List Addr} (hp : Path h next (some a) (a :: b :: l)) : a ≠ b := by
  rintro rfl
  cases hp with
  | cons ha hrest =>
    have hsame := hrest.unique (by rw [hrest.start]; exact .cons ha hrest)
    simpa using congrArg List.length hsame

/-- Addresses that have been given out in order are all different. -/
structure Allotted (next : Addr) (l : List Addr) : Prop where
  distinct : l.Nodup
  old : ∀ a ∈ l, a < next

theorem Allotted.nil (next : Addr) : Allotted next [] := ⟨List.nodup_nil, by simp⟩

theorem Allotted.sublist {next : Addr} {l l' : List Addr} (h : Allotted next l)
    (hs : l'.Sublist l) : Allotted next l' :=
  ⟨h.distinct.sublist hs, fun a ha => h.old a (hs.subset ha)⟩

theorem Allotted.push {next : Addr} {l : List Addr} (h : Allotted next l) :
    Allotted (next + 1) (next :: l) where
  distinct := List.nodup_cons.mpr ⟨fun hm => Nat.lt_irrefl _ (h.old _ hm), h.distinct⟩
  old a ha := by
    rcases List.mem_cons.mp ha with rfl | ha
    · exact Nat.lt_succ_self _
    · exact Nat.lt_succ_of_lt (h.old a ha)

/-- The next one is none of those given out. -/
theorem Allotted.fresh {next a : Addr} {l : List Addr} (h : Allotted next l) (ha : a ∈ l) :
    a ≠ next :=
  Nat.ne_of_lt (h.old a ha)

/-- What goes and what stays have nothing in common. -/
theorem Allotted.apart {next a : Addr} {gone rest : List Addr} (h : Allotted next (gone ++ rest))
    (ha : a ∈ rest) : a ∉ gone :=
  fun hg => (List.nodup_append.mp h.distinct).2.2 a hg a ha rfl

end Lib
