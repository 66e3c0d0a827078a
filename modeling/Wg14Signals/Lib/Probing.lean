import Mathlib.Data.Finset.Card
import Mathlib.Algebra.Ring.Parity
import Mathlib.Data.Nat.ModEq
import Mathlib.Data.Nat.Prime.Basic
import Mathlib.Tactic.Ring
import Mathlib.Tactic.Linarith

namespace Lib

/-- How far from where it began a triangular probing stands after `d` steps, each one
longer by one than the step before. -/
def triangle (d : Nat) : Nat := (d * d + d) / 2

theorem two_mul_triangle (d : Nat) : 2 * triangle d = d * d + d :=
  Nat.mul_div_cancel' (Nat.mul_succ d d ▸ (Nat.even_mul_succ_self d).two_dvd)

@[simp] theorem triangle_zero : triangle 0 = 0 := rfl

theorem triangle_succ (d : Nat) : triangle (d + 1) = triangle d + (d + 1) := by
  have hd := two_mul_triangle d
  have hs := two_mul_triangle (d + 1)
  have hsq : (d + 1) * (d + 1) = d * d + 2 * d + 1 := by ring
  omega

/-- Between two distances lies a product of which one factor is odd. -/
theorem two_mul_triangle_sub (d e : Nat) :
    2 * (triangle (d + e) - triangle d) = e * (2 * d + e + 1) := by
  have hd := two_mul_triangle d
  have hs := two_mul_triangle (d + e)
  have hsq : (d + e) * (d + e) + (d + e) = d * d + d + e * (2 * d + e + 1) := by ring
  omega

/-- Fewer than `2 ^ k` steps never lead to one place twice, modulo `2 ^ k`. -/
theorem triangle_mod_ne {k d e : Nat} (he : 0 < e) (hk : d + e < 2 ^ k) :
    triangle d % 2 ^ k ≠ triangle (d + e) % 2 ^ k := by
  intro h
  have hle : triangle d ≤ triangle (d + e) := by
    unfold triangle
    exact Nat.div_le_div_right (by nlinarith)
  have hdvd : 2 ^ k ∣ triangle (d + e) - triangle d := (Nat.modEq_iff_dvd' hle).mp h
  have hprod : 2 ^ (k + 1) ∣ e * (2 * d + e + 1) := by
    rw [← two_mul_triangle_sub, pow_succ, Nat.mul_comm]
    exact Nat.mul_dvd_mul_left 2 hdvd
  rcases Nat.even_or_odd e with hev | hodd
  · -- the other factor is odd
    have hodd : Odd (2 * d + e + 1) := ((even_two_mul d).add hev).add_one
    have hcop := hodd.coprime_two_left.pow_left (k + 1)
    have := Nat.le_of_dvd he (hcop.dvd_of_dvd_mul_right hprod)
    rw [pow_succ] at this
    omega
  · have hcop := hodd.coprime_two_left.pow_left (k + 1)
    have := Nat.le_of_dvd (by omega) (hcop.dvd_of_dvd_mul_left hprod)
    rw [pow_succ] at this
    omega

theorem probe_inj {k d e home : Nat} (hd : d < 2 ^ k) (he : e < 2 ^ k)
    (h : (home + triangle d) % 2 ^ k = (home + triangle e) % 2 ^ k) : d = e := by
  have hmod : triangle d % 2 ^ k = triangle e % 2 ^ k := Nat.ModEq.add_left_cancel' home h
  rcases Nat.lt_trichotomy d e with hlt | rfl | hlt
  · obtain ⟨c, rfl⟩ := Nat.exists_eq_add_of_lt hlt
    exact absurd hmod (triangle_mod_ne (Nat.succ_pos c) he)
  · rfl
  · obtain ⟨c, rfl⟩ := Nat.exists_eq_add_of_lt hlt
    exact absurd hmod.symm (triangle_mod_ne (Nat.succ_pos c) hd)

/-- More probes than there are places in use find one that is free. -/
theorem exists_free_probe {k n : Nat} (home : Nat) (used : Finset Nat) (hn : n ≤ 2 ^ k)
    (hc : used.card < n) : ∃ d < n, (home + triangle d) % 2 ^ k ∉ used := by
  by_contra hall
  push Not at hall
  have himage : (Finset.range n).image (fun d => (home + triangle d) % 2 ^ k) ⊆ used := by
    intro b hb
    obtain ⟨d, hd, rfl⟩ := Finset.mem_image.mp hb
    exact hall d (Finset.mem_range.mp hd)
  have hinj : Set.InjOn (fun d => (home + triangle d) % 2 ^ k) (Finset.range n) :=
    fun d hd e he h => probe_inj (by have := Finset.mem_range.mp hd; omega)
      (by have := Finset.mem_range.mp he; omega) h
  have hcard := Finset.card_le_card himage
  rw [Finset.card_image_of_injOn hinj, Finset.card_range] at hcard
  omega

end Lib
