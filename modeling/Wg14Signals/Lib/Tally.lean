import Mathlib.Data.List.Basic
import Mathlib.Data.List.Count

namespace Lib

variable {α : Type} [DecidableEq α] {f g : α → Nat} {n : Nat} {a : α}

/-- The numbers of a family add up to `n`: there is a list of that length in which each
index stands as often as its number says. -/
def Tally (f : α → Nat) (n : Nat) : Prop := ∃ l : List α, l.length = n ∧ ∀ a, l.count a = f a

theorem Tally.congr (h : Tally f n) (hg : ∀ a, g a = f a) : Tally g n := by
  obtain ⟨l, hl, hc⟩ := h
  exact ⟨l, hl, fun a => (hc a).trans (hg a).symm⟩

theorem tally_zero : Tally f 0 ↔ ∀ a, f a = 0 := by
  constructor
  · rintro ⟨l, hl, hc⟩ a
    rw [← hc, List.length_eq_zero_iff.mp hl, List.count_nil]
  · exact fun h => ⟨[], rfl, fun a => (h a).symm⟩

theorem Tally.add (h : Tally f n) (a : α) (hg : ∀ b, g b = f b + if a = b then 1 else 0) :
    Tally g (n + 1) := by
  obtain ⟨l, hl, hc⟩ := h
  refine ⟨a :: l, congrArg (· + 1) hl, fun b => ?_⟩
  rw [List.count_cons, hc, hg]
  by_cases hb : a = b <;> simp [hb]

theorem Tally.zero (h : Tally f n) (hz : ∀ a, f a = 0) : n = 0 := by
  obtain ⟨l, hl, hc⟩ := h
  have hnil : l = [] := List.eq_nil_iff_forall_not_mem.mpr fun a ha =>
    Nat.ne_of_gt (List.count_pos_iff.mpr ha) ((hc a).trans (hz a))
  exact hl ▸ hnil ▸ rfl

theorem Tally.sub (h : Tally f (n + 1)) (a : α) (hg : ∀ b, f b = g b + if a = b then 1 else 0) :
    Tally g n := by
  obtain ⟨l, hl, hc⟩ := h
  have hm : a ∈ l := List.count_pos_iff.mp (by rw [hc, hg]; simp)
  refine ⟨l.erase a, ?_, fun b => ?_⟩
  · rw [List.length_erase_of_mem hm, hl, Nat.add_sub_cancel]
  · rw [List.count_erase, hc, hg]
    by_cases hb : a = b <;> simp [hb]

end Lib
