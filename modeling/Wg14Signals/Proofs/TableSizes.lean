import Wg14Signals.Proofs.TableGrowth

namespace Wg14Signals.VtTable
open Lib

variable {κ ν : Type} {hashFn : κ → BitVec 64} {t u : VtTable κ ν} {size n : Nat}
  {mallocs : List Bool}

/-- The loop doubles no more than it must. -/
theorem growFor_ok (fuel : Nat) : ∀ n, exceedsMaxLoad size (2 ^ (n + fuel)) = false →
    ∃ n', n ≤ n' ∧ growFor size fuel (2 ^ n) = 2 ^ n' ∧ exceedsMaxLoad size (2 ^ n') = false ∧
      ∀ n'', n ≤ n'' → exceedsMaxLoad size (2 ^ n'') = false → n' ≤ n'' := by
  induction fuel with
  | zero => exact fun n hfit => ⟨n, Nat.le_refl n, rfl, hfit, fun _ hle _ => hle⟩
  | succ fuel ih =>
    intro n hfit
    unfold growFor
    cases hover : exceedsMaxLoad size (2 ^ n) with
    | false => exact ⟨n, Nat.le_refl n, rfl, hover, fun _ hle _ => hle⟩
    | true =>
      have hsum : n + (fuel + 1) = n + 1 + fuel := by omega
      obtain ⟨n', hle, hgrow, hfit', hleast⟩ := ih (n + 1) (hsum ▸ hfit)
      refine ⟨n', by omega, hgrow, hfit', fun n'' hn hf => hleast n'' ?_ hf⟩
      refine Nat.lt_of_le_of_ne hn fun heq => ?_
      rw [← heq, hover] at hf
      cases hf

/-- `min_bucket_count_for_size` is the least power of two, from eight on, that is not
overloaded. -/
theorem minBucketCountForSize_ok (hsize : size ≠ 0) :
    ∃ n, 3 ≤ n ∧ minBucketCountForSize size = 2 ^ n ∧ exceedsMaxLoad size (2 ^ n) = false ∧
      ∀ n', 3 ≤ n' → exceedsMaxLoad size (2 ^ n') = false → n ≤ n' := by
  have hfit : exceedsMaxLoad size (2 ^ (3 + size)) = false := by
    simp only [exceedsMaxLoad, decide_eq_false_iff_not, Nat.not_lt]
    calc size * 2 ^ 53 ≤ 2 ^ size * (8 * 8106479329266893) :=
          Nat.mul_le_mul Nat.lt_two_pow_self.le (by decide)
      _ = 2 ^ (3 + size) * 8106479329266893 := by
        rw [← Nat.mul_assoc, Nat.pow_add, Nat.mul_comm (2 ^ size)]
  obtain ⟨n, hle, hgrow, hrest⟩ := growFor_ok size 3 hfit
  exact ⟨n, hle, (if_neg hsize).trans hgrow, hrest⟩

theorem minBucketCountForSize_eq_zero : minBucketCountForSize size = 0 ↔ size = 0 := by
  constructor
  · intro h0
    by_contra hsize
    obtain ⟨n, -, hn, -⟩ := minBucketCountForSize_ok hsize
    have := Nat.two_pow_pos n
    omega
  · rintro rfl
    rfl

/-- The same keys and values, perhaps elsewhere. -/
structure Resized (hashFn : κ → BitVec 64) (t u : VtTable κ ν) : Prop where
  wf : u.Wf hashFn
  count : u.keyCount = t.keyCount
  contents : ∀ k w, u.Has k w ↔ t.Has k w

theorem Wf.resized (hw : t.Wf hashFn) : Resized hashFn t t := ⟨hw, rfl, fun _ _ => Iff.rfl⟩

theorem Rehashed.resized (hr : Rehashed hashFn t u n) : Resized hashFn t u :=
  ⟨hr.wf, hr.count, hr.contents⟩

theorem Maps.none (hw : t.Wf hashFn) (h0 : t.keyCount = 0) : t.Maps fun _ => Option.none :=
  fun _ _ => iff_of_false (Option.some_ne_none _).symm (hw.not_has h0)

theorem init_maps : (init : VtTable κ ν).Maps fun _ => Option.none := .none (init_wf fun _ => 0) rfl

theorem clear_ok (hw : t.Wf hashFn) :
    t.clear.Wf hashFn ∧ t.clear.Maps (fun _ => Option.none) ∧ t.clear.bucketsMask = t.bucketsMask := by
  unfold clear
  split
  · rename_i h0
    exact ⟨hw, .none hw h0, rfl⟩
  · rename_i hne
    have hmask : t.bucketsMask ≠ 0 := fun h0 => hne (hw.keyCount_zero h0)
    have hcleared : ({ t with
        keyCount := 0
        metadata := fun b => if b < t.bucketCount then vtEmpty else t.metadata b } :
        VtTable κ ν).Wf hashFn := by
      rw [bucketCount_of_mask hmask]
      refine wf_of_empty hw.size (fun b hb => if_pos (Nat.lt_succ_of_le hb)) rfl fun h0 => ?_
      dsimp only
      rw [if_neg (Nat.lt_irrefl _)]
      exact hw.stopper h0
    exact ⟨hcleared, .none hcleared rfl, rfl⟩

theorem cleanup_ok (hw : t.Wf hashFn) :
    t.cleanup.Wf hashFn ∧ t.cleanup.Maps (fun _ => Option.none) := by
  unfold cleanup
  split
  · rename_i h0
    exact ⟨hw, .none hw (hw.keyCount_zero h0)⟩
  · exact ⟨init_wf hashFn, init_maps⟩

variable [DecidableEq κ]

variable (size mallocs) in
/-- Where memory has been reserved for so many keys, they are no overload. -/
theorem reserve_ok (hw : t.Wf hashFn) :
    ∃ ok u rest, t.reserve hashFn size mallocs = .ok (ok, u, rest) ∧ Resized hashFn t u ∧
      (ok = true → exceedsMaxLoad size u.bucketCount = false) ∧ (ok = false → u = t) ∧
      t.bucketCount ≤ u.bucketCount := by
  unfold reserve
  dsimp only
  by_cases hle : minBucketCountForSize size ≤ t.bucketCount
  · refine ⟨true, t, mallocs, if_pos hle, hw.resized, fun _ => ?_, fun _ => rfl, Nat.le_refl _⟩
    by_cases hsize : size = 0
    · rw [hsize]
      exact exceedsMaxLoad_zero
    · obtain ⟨n, -, hn, hfit, -⟩ := minBucketCountForSize_ok hsize
      exact exceedsMaxLoad_anti hfit (hn ▸ hle)
  · have hsize : size ≠ 0 := by
      rintro rfl
      exact hle (Nat.zero_le _)
    obtain ⟨n, hn3, hn, hfit, -⟩ := minBucketCountForSize_ok hsize
    obtain ⟨grown, u, rest, hrun, hcase⟩ := rehash_ok hashFn hw.toStored mallocs n hn3
    refine ⟨grown, u, rest, (if_neg hle).trans (hn ▸ hrun), ?_⟩
    rcases hcase with ⟨rfl, rfl⟩ | ⟨rfl, hu, -⟩
    · exact ⟨hw.resized, fun h => absurd h Bool.false_ne_true, fun _ => rfl, Nat.le_refl _⟩
    · have hbuckets := hu.buckets hn3
      exact ⟨hu.resized, fun _ => exceedsMaxLoad_anti hfit hbuckets,
        fun h => absurd h.symm Bool.false_ne_true, by omega⟩

variable (mallocs) in
/-- Shrinking keeps the keys, and gives back what they do not need while the displacement
limit is out of reach. -/
theorem shrink_ok (hw : t.Wf hashFn) :
    ∃ ok u rest, t.shrink hashFn mallocs = .ok (ok, u, rest) ∧ Resized hashFn t u ∧
      (ok = true → t.keyCount ≤ vtDisplacementLimit →
        u.bucketCount = minBucketCountForSize t.keyCount) ∧ (ok = false → u = t) := by
  unfold shrink
  dsimp only
  by_cases heq : minBucketCountForSize t.keyCount = t.bucketCount
  · exact ⟨true, t, mallocs, if_pos heq, hw.resized, fun _ _ => heq.symm, fun _ => rfl⟩
  by_cases hzero : minBucketCountForSize t.keyCount = 0
  · have h0 : t.keyCount = 0 := minBucketCountForSize_eq_zero.mp hzero
    have hempty : ({ t with bucketsMask := 0, metadata := fun _ => vtEmpty } :
        VtTable κ ν).Wf hashFn :=
      wf_of_empty ⟨0, rfl, .inl rfl⟩ (fun _ _ => rfl) h0 fun h => absurd rfl h
    refine ⟨true, _, mallocs, (if_neg heq).trans (if_pos hzero), ⟨hempty, rfl, fun k w => ?_⟩,
      fun _ _ => hzero.symm, fun h => absurd h.symm Bool.false_ne_true⟩
    exact iff_of_false (hempty.not_has h0) (hw.not_has h0)
  · obtain ⟨n, hn3, hn, hfit, -⟩ := minBucketCountForSize_ok
      fun h0 => hzero (minBucketCountForSize_eq_zero.mpr h0)
    obtain ⟨grown, u, rest, hrun, hcase⟩ := rehash_ok hashFn hw.toStored mallocs n hn3
    refine ⟨grown, u, rest, (if_neg heq).trans ((if_neg hzero).trans (hn ▸ hrun)), ?_⟩
    rcases hcase with ⟨rfl, rfl⟩ | ⟨rfl, hu, -⟩
    · exact ⟨hw.resized, fun h => absurd h Bool.false_ne_true, fun _ => rfl⟩
    · refine ⟨hu.resized, fun _ hfew => ?_, fun h => absurd h.symm Bool.false_ne_true⟩
      have hsize := hu.least hfit hfew
      have h8 : 2 ^ 3 ≤ 2 ^ n := Nat.pow_le_pow_right (by decide) hn3
      rw [bucketCount_of_mask (by omega), hsize, hn]

end Wg14Signals.VtTable
