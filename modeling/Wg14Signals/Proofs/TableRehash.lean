import Wg14Signals.Proofs.TableSearch

namespace Wg14Signals.VtTable
open Lib

variable {κ ν : Type} {hashFn : κ → BitVec 64} {t t' new u : VtTable κ ν} {b n : Nat} {key : κ}
  {val w : ν} {m : κ → Option ν} {itr : VtItr} {l : List Nat} {mallocs rest : List Bool}
  {bucketCount : Nat}

theorem Inserted.not_end (hi : Inserted hashFn t t' itr key val) : itr.isEnd = false := by
  rw [hi.at_itr]
  exact itr_not_end hi.holds.1.1

theorem exceedsMaxLoad_zero : exceedsMaxLoad 0 bucketCount = false := by
  simp [exceedsMaxLoad]

/-- A table without keys. -/
theorem wf_of_empty (hsize : ∃ n, t.bucketsMask + 1 = 2 ^ n ∧ (n = 0 ∨ 3 ≤ n))
    (hempty : ∀ b, b ≤ t.bucketsMask → t.metadata b = vtEmpty) (hcount : t.keyCount = 0)
    (hstop : t.bucketsMask ≠ 0 → t.metadata (t.bucketsMask + 1) ≠ vtEmpty) : t.Wf hashFn := by
  have hunused : ∀ b, ¬t.cells.used b := fun b hb => hb.2.1 (hempty b hb.1)
  refine Wf.of_chained rfl hsize ⟨fun _ => ∅, ?_⟩ (fun b k w hb => absurd hb.1 (hunused b)) ?_
    (hcount ▸ exceedsMaxLoad_zero) hstop
  · constructor
    case head =>
      intro b
      refine iff_of_false (fun hb => hb.2 ?_) (Set.notMem_empty 0)
      rw [hempty b hb.1]
      rfl
    case used =>
      refine fun b => iff_of_false (hunused b) ?_
      rintro ⟨h, d, hd, -⟩
      exact hd
    case keys => exact fun b _ _ _ _ hb => absurd hb.1 (hunused b)
    all_goals exact fun h d hd => absurd hd (Set.notMem_empty d)
  · rw [hcount]
    refine (Finset.card_eq_zero.mpr (Finset.eq_empty_of_forall_notMem fun b hb => ?_)).symm
    exact (mem_inUse.mp hb).2 (hempty b (mem_inUse.mp hb).1)

theorem Stored.not_has (ht : Stored t) (h0 : t.keyCount = 0) {k : κ} {v : ν} : ¬t.Has k v := by
  rintro ⟨b, hb⟩
  have hmem := mem_inUse.mpr ⟨hb.1.1, hb.1.2.1⟩
  rw [Finset.card_eq_zero.mp (ht.count.symm.trans h0)] at hmem
  exact absurd hmem (Finset.notMem_empty b)

variable (hashFn) in
theorem init_wf : (init : VtTable κ ν).Wf hashFn :=
  wf_of_empty ⟨0, rfl, .inl rfl⟩ (fun _ _ => rfl) rfl fun h0 => absurd rfl h0

variable (hashFn) in
/-- A new allocation is a table without keys. -/
theorem allocated_wf (hn : 3 ≤ n) : (allocated (2 ^ n) : VtTable κ ν).Wf hashFn := by
  have hmask : (allocated (2 ^ n) : VtTable κ ν).bucketsMask + 1 = 2 ^ n :=
    Nat.sub_add_cancel (Nat.two_pow_pos n)
  refine wf_of_empty ⟨n, hmask, .inr hn⟩ (fun b hb => if_neg (by omega)) rfl fun _ => ?_
  rw [hmask]
  simp [allocated, vtEmpty]

theorem allocated_absent (hn : 3 ≤ n) {k : κ} {v : ν} :
    ¬(allocated (2 ^ n) : VtTable κ ν).Has k v :=
  (allocated_wf (fun _ => 0) hn).not_has rfl

/-- All keys in the buckets of a list have been moved. -/
structure Moved (hashFn : κ → BitVec 64) (t : VtTable κ ν) (l : List Nat) (new u : VtTable κ ν) :
    Prop where
  wf : u.Wf hashFn
  mask : u.bucketsMask = new.bucketsMask
  count : u.keyCount = new.keyCount + l.countP fun b => t.metadata b ≠ vtEmpty
  contents : ∀ k w, u.Has k w ↔ new.Has k w ∨ ∃ b ∈ l, t.Holds b k w

/-- Not all of them have been, for there is no room. -/
structure CutShort (t : VtTable κ ν) (l : List Nat) (new u : VtTable κ ν) : Prop where
  count : u.keyCount < new.keyCount + l.countP fun b => t.metadata b ≠ vtEmpty
  cause : exceedsMaxLoad (new.keyCount + l.countP fun b => t.metadata b ≠ vtEmpty)
      new.bucketCount = true ∨
    vtDisplacementLimit < new.keyCount + l.countP fun b => t.metadata b ≠ vtEmpty

variable [DecidableEq κ]

variable (hashFn) in
/-- The keys in the buckets of a list, which the new table does not hold, are moved to it. -/
theorem reinsert_ok (ht : Stored t) :
    ∀ (l : List Nat) (new : VtTable κ ν), new.Wf hashFn → l.Nodup → (∀ b ∈ l, b ≤ t.bucketsMask) →
      (∀ b ∈ l, ∀ k w, t.Holds b k w → ∀ v, ¬new.Has k v) →
      ∃ u, t.reinsert hashFn l new = .ok u ∧ (Moved hashFn t l new u ∨ CutShort t l new u) := by
  intro l
  induction l with
  | nil =>
    intro new hnew _ _ _
    exact ⟨new, rfl, .inl ⟨hnew, rfl, rfl, fun k w => by simp⟩⟩
  | cons b l ih =>
    intro new hnew hnodup hle habsent
    obtain ⟨hbl, hnodup⟩ := List.nodup_cons.mp hnodup
    have hle' := fun i hi => hle i (List.mem_cons_of_mem b hi)
    unfold reinsert
    by_cases hempty : t.metadata b = vtEmpty
    · obtain ⟨u, hrun, hu⟩ := ih new hnew hnodup hle' fun i hi =>
        habsent i (List.mem_cons_of_mem b hi)
      have hcount : (b :: l).countP (fun b => t.metadata b ≠ vtEmpty) =
          l.countP fun b => t.metadata b ≠ vtEmpty := by simp [hempty]
      refine ⟨u, by rw [if_pos hempty, hrun], hu.imp (fun hm => ⟨hm.wf, hm.mask, ?_, fun k w => ?_⟩)
        fun hc => ⟨?_, ?_⟩⟩
      · rw [hcount, hm.count]
      · rw [hm.contents]
        refine or_congr_right ⟨?_, ?_⟩
        · rintro ⟨i, hi, hh⟩
          exact ⟨i, List.mem_cons_of_mem b hi, hh⟩
        · rintro ⟨i, hi, hh⟩
          rcases List.mem_cons.mp hi with rfl | hi
          · exact absurd hempty hh.1.2.1
          · exact ⟨i, hi, hh⟩
      · rw [hcount]
        exact hc.count
      · rw [hcount]
        exact hc.cause
    · have hused : t.cells.used b :=
        ⟨hle b List.mem_cons_self, hempty, Option.some_ne_none b⟩
      obtain ⟨key, val, hk⟩ := ht.entry b hused
      have hb : t.Holds b key val := ⟨hused, hk⟩
      have hfresh := habsent b List.mem_cons_self key val hb
      have hcount : (b :: l).countP (fun b => t.metadata b ≠ vtEmpty) =
          l.countP (fun b => t.metadata b ≠ vtEmpty) + 1 := by simp [hempty]
      obtain ⟨itr, new', hins, hout⟩ := insertRaw_ok key val hnew true false
        fun _ => hfresh
      rcases hout with ⟨-, hi | ⟨rfl, hr⟩⟩ | ⟨i, w, hi, -, -⟩
      · -- on with the rest
        obtain ⟨u, hrun, hu⟩ := ih new' hi.wf hnodup hle' fun i hi' k w hh v hv => by
          rcases (hi.contents k v).mp hv with ⟨rfl, -⟩ | hv
          · exact hbl (ht.keys i b k w val hh hb ▸ hi')
          · exact habsent i (List.mem_cons_of_mem b hi') k w hh v hv
        have hsum : new'.keyCount + l.countP (fun b => t.metadata b ≠ vtEmpty) =
            new.keyCount + (b :: l).countP (fun b => t.metadata b ≠ vtEmpty) := by
          rw [hcount, hi.count]
          omega
        have hbuckets : new'.bucketCount = new.bucketCount := by
          simp only [VtTable.bucketCount, hi.mask]
        refine ⟨u, ?_, hu.imp (fun hm => ⟨hm.wf, hm.mask.trans hi.mask, hsum ▸ hm.count,
          fun k w => ?_⟩) fun hc => ⟨hsum ▸ hc.count, ?_⟩⟩
        · rw [if_neg hempty, readBucket_ok hk]
          refine bind_ok.mpr ⟨(key, val), rfl, bind_ok.mpr ⟨(itr, new'), hins, ?_⟩⟩
          exact (if_neg (by rw [hi.not_end]; exact Bool.false_ne_true)).trans hrun
        · rw [hm.contents, hi.contents]
          constructor
          · rintro ((⟨rfl, rfl⟩ | hh) | ⟨i, hi, hh⟩)
            · exact .inr ⟨b, List.mem_cons_self, hb⟩
            · exact .inl hh
            · exact .inr ⟨i, List.mem_cons_of_mem b hi, hh⟩
          · rintro (hh | ⟨i, hi, hh⟩)
            · exact .inl (.inr hh)
            · rcases List.mem_cons.mp hi with rfl | hi
              · obtain ⟨rfl, rfl⟩ := Prod.mk.inj (Option.some.inj (hh.2.symm.trans hk))
                exact .inl (.inl ⟨rfl, rfl⟩)
              · exact .inr ⟨i, hi, hh⟩
        · rw [← hsum, ← hbuckets]
          exact hc.cause
      · refine ⟨new', ?_, .inr ⟨?_, ?_⟩⟩
        · rw [if_neg hempty, readBucket_ok hk]
          exact bind_ok.mpr ⟨(key, val), rfl, bind_ok.mpr ⟨_, hins, rfl⟩⟩
        · rw [hr.same.count, hcount]
          omega
        · rw [hcount]
          rcases hr.cause with ⟨-, hload⟩ | hfull
          · exact .inl (exceedsMaxLoad_mono hload (by omega))
          · exact .inr (by omega)
      · exact absurd ⟨i, hi⟩ (hfresh w)

omit [DecidableEq κ]

theorem exceedsMaxLoad_anti {keys bucketCount' : Nat} (h : exceedsMaxLoad keys bucketCount = false)
    (hle : bucketCount ≤ bucketCount') : exceedsMaxLoad keys bucketCount' = false := by
  simp only [exceedsMaxLoad, decide_eq_false_iff_not, Nat.not_lt] at h ⊢
  exact h.trans (Nat.mul_le_mul_right _ hle)

/-- Twice the buckets hold one key more, and so do the first eight. -/
theorem exceedsMaxLoad_double {keys : Nat} (h : exceedsMaxLoad keys bucketCount = false)
    (hb : 8 ≤ bucketCount) : exceedsMaxLoad (keys + 1) (bucketCount * 2) = false := by
  simp only [exceedsMaxLoad, decide_eq_false_iff_not, Nat.not_lt] at h ⊢
  have hone : 2 ^ 53 ≤ bucketCount * 8106479329266893 :=
    Nat.le_trans (by decide) (Nat.mul_le_mul_right 8106479329266893 hb)
  calc (keys + 1) * 2 ^ 53 = keys * 2 ^ 53 + 2 ^ 53 := Nat.succ_mul _ _
    _ ≤ bucketCount * 8106479329266893 + bucketCount * 8106479329266893 := Nat.add_le_add h hone
    _ = bucketCount * 2 * 8106479329266893 := by rw [Nat.mul_right_comm, Nat.mul_two]

theorem le_of_mem_range (hb : b ∈ List.range t.bucketCount) : b ≤ t.bucketsMask := by
  have hlt := List.mem_range.mp hb
  unfold VtTable.bucketCount at hlt
  split at hlt <;> omega

theorem bucketCount_of_mask (h0 : t.bucketsMask ≠ 0) : t.bucketCount = t.bucketsMask + 1 := by
  simp [VtTable.bucketCount, h0]

theorem Stored.keyCount_zero (ht : Stored t) (h0 : t.bucketsMask = 0) : t.keyCount = 0 := by
  have hl := ht.load
  simp only [VtTable.bucketCount, h0, if_true, exceedsMaxLoad, decide_eq_false_iff_not] at hl
  omega

theorem Stored.holds_lt (ht : Stored t) (hb : t.Holds b key val) : b < t.bucketCount := by
  by_cases h0 : t.bucketsMask = 0
  · exact absurd ⟨b, hb⟩ (ht.not_has (ht.keyCount_zero h0))
  · rw [bucketCount_of_mask h0]
    exact Nat.lt_succ_of_le hb.1.1

theorem Stored.countP_range (ht : Stored t) :
    ((List.range t.bucketCount).countP fun b => t.metadata b ≠ vtEmpty) = t.keyCount := by
  by_cases h0 : t.bucketsMask = 0
  · rw [ht.keyCount_zero h0]
    simp [VtTable.bucketCount, h0]
  · rw [bucketCount_of_mask h0, ht.count, List.countP_eq_length_filter]
    rfl

/-- The table has been moved to an allocation of at least this size. -/
structure Rehashed (hashFn : κ → BitVec 64) (t u : VtTable κ ν) (n : Nat) : Prop where
  wf : u.Wf hashFn
  count : u.keyCount = t.keyCount
  contents : ∀ k w, u.Has k w ↔ t.Has k w
  size : ∃ n', n ≤ n' ∧ u.bucketsMask + 1 = 2 ^ n'
  /-- It is of this size if the keys fit, and are few enough never to meet the limit. -/
  least : exceedsMaxLoad t.keyCount (2 ^ n) = false → t.keyCount ≤ vtDisplacementLimit →
    u.bucketsMask + 1 = 2 ^ n

theorem Rehashed.buckets (hr : Rehashed hashFn t u n) (hn : 3 ≤ n) : 2 ^ n ≤ u.bucketCount := by
  obtain ⟨n', hle, hsize⟩ := hr.size
  have h8 : 2 ^ 3 ≤ 2 ^ n' := Nat.pow_le_pow_right (by decide) (hn.trans hle)
  rw [bucketCount_of_mask (by omega), hsize]
  exact Nat.pow_le_pow_right (by decide) hle

variable [DecidableEq κ]

variable (hashFn) in
/-- One round of `rehash` moves all keys, or shows that there is no room for them. -/
theorem reinsert_all (ht : Stored t) (hn : 3 ≤ n) :
    ∃ u, t.reinsert hashFn (List.range t.bucketCount) (allocated (2 ^ n)) = .ok u ∧
      (Rehashed hashFn t u n ∨ u.keyCount < t.keyCount ∧
        (exceedsMaxLoad t.keyCount (2 ^ n) = true ∨ vtDisplacementLimit < t.keyCount)) := by
  have hpos : 0 < 2 ^ n := Nat.two_pow_pos n
  have hmask : (allocated (2 ^ n) : VtTable κ ν).bucketsMask + 1 = 2 ^ n :=
    Nat.sub_add_cancel hpos
  have hsum : (allocated (2 ^ n) : VtTable κ ν).keyCount +
      (List.range t.bucketCount).countP (fun b => t.metadata b ≠ vtEmpty) = t.keyCount := by
    rw [ht.countP_range]
    exact Nat.zero_add _
  obtain ⟨u, hrun, hu⟩ := reinsert_ok hashFn ht (List.range t.bucketCount)
    (allocated (2 ^ n)) (allocated_wf hashFn hn) List.nodup_range (fun b => le_of_mem_range)
    fun _ _ _ _ _ _ => allocated_absent hn
  refine ⟨u, hrun, hu.imp (fun hm => ?_) fun hc => ⟨hsum ▸ hc.count, ?_⟩⟩
  · have hsize : u.bucketsMask + 1 = 2 ^ n := by rw [hm.mask, hmask]
    refine ⟨hm.wf, hm.count.trans hsum, fun k w => ?_, ⟨n, Nat.le_refl n, hsize⟩, fun _ _ => hsize⟩
    rw [hm.contents]
    constructor
    · rintro (hh | ⟨b, -, hb⟩)
      · exact absurd hh (allocated_absent hn)
      · exact ⟨b, hb⟩
    · rintro ⟨b, hb⟩
      exact .inr ⟨b, List.mem_range.mpr (ht.holds_lt hb), hb⟩
  · have hcause := hc.cause
    have hbuckets : (allocated (2 ^ n) : VtTable κ ν).bucketCount = 2 ^ n := by
      have hmask0 : (allocated (2 ^ n) : VtTable κ ν).bucketsMask ≠ 0 := by
        have h8 : 2 ^ 3 ≤ 2 ^ n := Nat.pow_le_pow_right (by decide) hn
        omega
      rw [bucketCount_of_mask hmask0, hmask]
    rwa [hsum, hbuckets] at hcause

variable (hashFn) in
/-- `rehash` leaves the table alone, or moves all its keys. -/
theorem rehash_ok (ht : Stored t) (mallocs : List Bool) :
    ∀ n, 3 ≤ n → ∃ grown u rest, t.rehash hashFn (2 ^ n) mallocs = .ok (grown, u, rest) ∧
      (grown = false ∧ u = t ∨
        grown = true ∧ Rehashed hashFn t u n ∧ rest.length < mallocs.length) := by
  induction mallocs with
  | nil => exact fun n _ => ⟨false, t, [], rfl, .inl ⟨rfl, rfl⟩⟩
  | cons ok mallocs ih =>
    intro n hn
    cases ok with
    | false => exact ⟨false, t, mallocs, rfl, .inl ⟨rfl, rfl⟩⟩
    | true =>
      obtain ⟨u, hrun, hu⟩ := reinsert_all hashFn ht hn
      unfold rehash
      rcases hu with hu | ⟨hlt, hcause⟩
      · refine ⟨true, u, mallocs, bind_ok.mpr ⟨u, hrun, ?_⟩,
          .inr ⟨rfl, hu, Nat.lt_succ_self _⟩⟩
        rw [if_neg (by rw [hu.count]; exact Nat.lt_irrefl _)]
        rfl
      · obtain ⟨grown, u', rest, hrun', hu'⟩ := ih (n + 1) (by omega)
        refine ⟨grown, u', rest, bind_ok.mpr ⟨u, hrun, ?_⟩, hu'.imp_right ?_⟩
        · rw [if_pos hlt, ← Nat.pow_succ]
          exact hrun'
        · rintro ⟨hg, hre, hlen⟩
          obtain ⟨n', hn', hsize⟩ := hre.size
          refine ⟨hg, ⟨hre.wf, hre.count, hre.contents, ⟨n', by omega, hsize⟩, fun hfit hfew => ?_⟩,
            hlen.trans (Nat.lt_succ_self _)⟩
          rcases hcause with hfull | hfull
          · exact absurd (hfit.symm.trans hfull) Bool.false_ne_true
          · omega

variable (hashFn mallocs) in
/-- Where the keys fit, and are few enough never to meet the displacement limit, one
allocation suffices. -/
theorem rehash_once (ht : Stored t) (hn : 3 ≤ n) (hfit : exceedsMaxLoad t.keyCount (2 ^ n) = false)
    (hfew : t.keyCount ≤ vtDisplacementLimit) :
    ∃ u, t.rehash hashFn (2 ^ n) (true :: mallocs) = .ok (true, u, mallocs) ∧
      Rehashed hashFn t u n := by
  obtain ⟨u, hrun, hu⟩ := reinsert_all hashFn ht hn
  rcases hu with hu | ⟨-, hfull | hfull⟩
  · refine ⟨u, ?_, hu⟩
    unfold rehash
    refine bind_ok.mpr ⟨u, hrun, ?_⟩
    rw [if_neg (by rw [hu.count]; exact Nat.lt_irrefl _)]
    rfl
  · exact absurd (hfit.symm.trans hfull) Bool.false_ne_true
  · omega

end Wg14Signals.VtTable
