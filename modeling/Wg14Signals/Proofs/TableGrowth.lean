import Wg14Signals.Proofs.TableRehash

namespace Wg14Signals.VtTable
open Lib

variable {κ ν : Type} {hashFn : κ → BitVec 64} {t t' u : VtTable κ ν} {key : κ} {val w : ν}
  {m : κ → Option ν} {itr : VtItr} {mallocs : List Bool} {replace : Bool}

theorem Maps.of_iff (hm : t.Maps m) (h : ∀ k v, u.Has k v ↔ t.Has k v) : u.Maps m :=
  fun k v => (hm k v).trans (h k v).symm

theorem bucketCount_congr (hmask : u.bucketsMask = t.bucketsMask) : u.bucketCount = t.bucketCount := by
  simp only [VtTable.bucketCount, hmask]

theorem SameEntries.has (hs : SameEntries t t') (k : κ) (v : ν) : t'.Has k v ↔ t.Has k v :=
  exists_congr fun _ => hs.holds

variable [DecidableEq κ]

/-- What an insertion stores for a key. -/
def stored (m : κ → Option ν) (key : κ) (val : ν) (replace : Bool) : ν :=
  if replace then val else (m key).getD val

/-- The iterator stands at the key, which the map now holds. -/
structure Put (hashFn : κ → BitVec 64) (m : κ → Option ν) (key : κ) (v : ν) (itr : VtItr)
    (u : VtTable κ ν) : Prop where
  wf : u.Wf hashFn
  not_end : itr.isEnd = false
  at_itr : itr = u.itr itr.metadatum (u.homeBucket hashFn key)
  holds : u.Holds itr.metadatum key v
  maps : u.Maps (put m key v)

theorem put_self (h : m key = some val) : put m key val = m := by
  funext k
  unfold put
  split
  · rename_i hk
    rw [hk, h]
  · rfl

/-- One round of an insertion stores the key, or has been refused. -/
theorem Outcome.settle (ho : Outcome hashFn t key val replace itr t') (hw : t.Wf hashFn)
    (hm : t.Maps m) :
    t'.bucketsMask = t.bucketsMask ∧ (¬Full m t key ∧ Put hashFn m key (stored m key val replace) itr t' ∨
      itr = .endItr ∧ m key = none ∧ Refused t t') := by
  cases ho with
  | new absent stores =>
    have hnone := hm.none_iff.mpr absent
    refine ⟨stores.elim Inserted.mask fun hr => hr.2.same.mask,
      stores.imp (fun hi => ⟨fun hfull => ?_, ?_⟩) fun hr => ⟨hr.1, hnone, hr.2⟩⟩
    · have hfits := hi.wf.load
      rw [hi.count, VtTable.bucketCount, hi.mask] at hfits
      exact absurd (hfits.symm.trans hfull.2) Bool.false_ne_true
    have hv : stored m key val replace = val := by
      unfold stored
      rw [hnone]
      exact ite_self val
    rw [hv]
    refine ⟨hi.wf, hi.not_end, hi.at_itr, hi.holds, fun k w => ?_⟩
    rw [hi.contents, put]
    by_cases hk : k = key
    · subst hk
      rw [if_pos rfl, Option.some.injEq, or_iff_left (absent w)]
      exact ⟨fun h => ⟨rfl, h.symm⟩, fun h => h.2.symm⟩
    · rw [if_neg hk, hm, or_iff_right fun h => hk h.1]
  | found b w holds at_itr kept =>
    have hsome : m key = some w := (hm key w).mpr ⟨b, holds⟩
    have hmask : t'.bucketsMask = t.bucketsMask := by
      rw [kept]
      split <;> rfl
    refine ⟨hmask, .inl ⟨fun hfull => Option.some_ne_none w (hsome.symm.trans hfull.1), ?_⟩⟩
    subst at_itr
    have hend : (t.itr b (t.homeBucket hashFn key)).isEnd = false := itr_not_end holds.1.1
    cases replace with
    | false =>
      obtain rfl : t' = t := kept
      have hv : stored m key val false = w := by simp [stored, hsome]
      rw [hv]
      exact ⟨hw, hend, rfl, holds, (put_self hsome).symm ▸ hm⟩
    | true =>
      obtain rfl : t' = t.setBucket b key val := kept
      obtain ⟨hw', hh', hc'⟩ := hw.replace val holds
      refine ⟨hw', hend, rfl, hh', fun k v => ?_⟩
      rw [hc', stored, if_pos rfl, put]
      by_cases hk : k = key
      · subst hk
        rw [if_pos rfl, Option.some.injEq, or_iff_left fun h => h.1 rfl]
        exact ⟨fun h => ⟨rfl, h.symm⟩, fun h => h.2.symm⟩
      · rw [if_neg hk, hm, or_iff_right fun h => hk h.1]
        exact ⟨fun h => ⟨hk, h⟩, And.right⟩

/-- The key has not been stored for want of memory. Nothing is lost, but a chain may be
interrupted that has met the displacement limit. -/
structure Unstored (m : κ → Option ν) (key : κ) (itr : VtItr) (t u : VtTable κ ν) : Prop where
  at_end : itr = .endItr
  absent : m key = none
  stored : Stored u
  maps : u.Maps m
  few : t.keyCount < vtDisplacementLimit →
    u = t ∧ exceedsMaxLoad (t.keyCount + 1) t.bucketCount = true

omit [DecidableEq κ] in
/-- The size `insert` grows the table to. -/
theorem Stored.doubled (ht : Stored t) :
    ∃ n, 3 ≤ n ∧ (if t.bucketsMask = 0 then vtMinNonzeroBucketCount else t.bucketCount * 2) = 2 ^ n ∧
      exceedsMaxLoad (t.keyCount + 1) (2 ^ n) = false ∧ t.bucketCount ≤ 2 ^ n := by
  obtain ⟨n, hn, hsize⟩ := ht.size
  by_cases h0 : t.bucketsMask = 0
  · refine ⟨3, Nat.le_refl 3, by rw [if_pos h0]; rfl, ?_⟩
    rw [ht.keyCount_zero h0, bucketCount, h0]
    decide
  · have hn3 : 3 ≤ n := by
      refine hsize.resolve_left fun hn0 => h0 ?_
      subst hn0
      exact Nat.succ_injective hn
    have hcount : t.bucketCount = 2 ^ n := (bucketCount_of_mask h0).trans hn
    have h8 : 2 ^ 3 ≤ 2 ^ n := Nat.pow_le_pow_right (by decide) hn3
    refine ⟨n + 1, by omega, by rw [if_neg h0, hcount, Nat.pow_succ], ?_, ?_⟩
    · rw [Nat.pow_succ]
      exact exceedsMaxLoad_double (hcount ▸ ht.load) h8
    · rw [hcount]
      exact Nat.pow_le_pow_right (by decide) (Nat.le_succ n)

variable (key val replace) in
/-- An insertion stores the key, or does not for want of memory. It needs no more rounds
than there are allocations, and one. -/
theorem insertGrowing_ok (rounds : Nat) :
    ∀ (t : VtTable κ ν) (mallocs : List Bool), t.Wf hashFn → t.Maps m → mallocs.length < rounds →
      ∃ itr u rest, insertGrowing hashFn key val replace rounds t mallocs = .ok (itr, u, rest) ∧
        t.bucketCount ≤ u.bucketCount ∧
        (Put hashFn m key (stored m key val replace) itr u ∨ Unstored m key itr t u) := by
  induction rounds with
  | zero => intro t mallocs _ _ hr; omega
  | succ rounds ih =>
    intro t mallocs hw hm hr
    obtain ⟨itr, t', hins, hout⟩ := insertRaw_ok key val hw false replace
      fun h => absurd h Bool.false_ne_true
    unfold insertGrowing
    obtain ⟨hmask, hput | ⟨rfl, habsent, hrefused⟩⟩ := hout.settle hw hm
    · exact ⟨itr, t', mallocs, bind_ok.mpr ⟨_, hins, if_pos hput.2.not_end⟩,
        (bucketCount_congr hmask).ge, .inl hput.2⟩
    · have hstored := hrefused.same.stored hw.toStored
      have hm' : t'.Maps m := hm.of_iff hrefused.same.has
      obtain ⟨n, hn, hdouble, hfit, hlarger⟩ := hstored.doubled
      obtain ⟨grown, u, rest, hre, hcase⟩ := rehash_ok hashFn hstored mallocs n hn
      have hloaded : t.keyCount < vtDisplacementLimit →
          t' = t ∧ exceedsMaxLoad (t.keyCount + 1) t.bucketCount = true := fun hfew =>
        hrefused.cause.resolve_right (Nat.not_le.mpr hfew)
      rcases hcase with ⟨rfl, rfl⟩ | ⟨rfl, hu, hlen⟩
      · refine ⟨.endItr, u, rest, bind_ok.mpr ⟨_, hins, ?_⟩, (bucketCount_congr hmask).ge,
          .inr ⟨rfl, habsent, hstored, hm', hloaded⟩⟩
        refine (if_neg (by decide)).trans (bind_ok.mpr ⟨(false, u, rest), ?_, rfl⟩)
        rw [hdouble]
        exact hre
      · obtain ⟨itr', u', rest', hrun, hle, hres⟩ :=
          ih u rest hu.wf (hm'.of_iff hu.contents) (by omega)
        have hbuckets : t.bucketCount ≤ u'.bucketCount := by
          have := hu.buckets hn
          have := bucketCount_congr hmask
          omega
        refine ⟨itr', u', rest', bind_ok.mpr ⟨_, hins, ?_⟩, hbuckets, hres.imp_right fun hun =>
          ⟨hun.at_end, habsent, hun.stored, hun.maps, fun hfew => ?_⟩⟩
        · refine (if_neg (by decide)).trans (bind_ok.mpr ⟨(true, u, rest), ?_, hrun⟩)
          rw [hdouble]
          exact hre
        · -- there is room in the larger table
          obtain ⟨rfl, -⟩ := hloaded hfew
          obtain ⟨-, hover⟩ := hun.few (hu.count ▸ hfew)
          rw [hu.count, exceedsMaxLoad_anti hfit (hu.buckets hn)] at hover
          exact absurd hover Bool.false_ne_true

variable (key val mallocs replace) in
/-- With few keys, an insertion that finds the table full needs one allocation, and any other
needs none. It fails where the allocation does, and nothing has changed then. -/
theorem insertGrowing_few (hw : t.Wf hashFn) (hm : t.Maps m)
    (hfew : t.keyCount < vtDisplacementLimit) (rounds : Nat) :
    (¬Full m t key → ∃ itr u, insertGrowing hashFn key val replace (rounds + 1) t mallocs =
        .ok (itr, u, mallocs) ∧ Put hashFn m key (stored m key val replace) itr u) ∧
      (Full m t key → insertGrowing hashFn key val replace (rounds + 1) t [] = .ok (.endItr, t, []) ∧
        insertGrowing hashFn key val replace (rounds + 1) t (false :: mallocs) =
          .ok (.endItr, t, mallocs) ∧
        ∃ itr u, insertGrowing hashFn key val replace (rounds + 2) t (true :: mallocs) =
          .ok (itr, u, mallocs) ∧ Put hashFn m key (stored m key val replace) itr u) := by
  obtain ⟨itr, t', hins, hout⟩ := insertRaw_ok key val hw false replace
    fun h => absurd h Bool.false_ne_true
  obtain ⟨-, ⟨hroom, hput⟩ | ⟨rfl, habsent, hrefused⟩⟩ := hout.settle hw hm
  · refine ⟨fun _ => ⟨itr, t', bind_ok.mpr ⟨_, hins, if_pos hput.not_end⟩, hput⟩,
      fun hfull => absurd hfull hroom⟩
  · obtain ⟨rfl, hover⟩ := hrefused.cause.resolve_right (Nat.not_le.mpr hfew)
    refine ⟨fun hroom => absurd ⟨habsent, hover⟩ hroom, fun _ => ?_⟩
    obtain ⟨n, hn, hdouble, hfit, -⟩ := hw.toStored.doubled
    have hstuck : ∀ mallocs rest, t'.rehash hashFn (2 ^ n) mallocs = .ok (false, t', rest) →
        insertGrowing hashFn key val replace (rounds + 1) t' mallocs = .ok (.endItr, t', rest) := by
      intro mallocs rest hre
      refine bind_ok.mpr ⟨_, hins, (if_neg (by decide)).trans (bind_ok.mpr
        ⟨(false, t', rest), ?_, rfl⟩)⟩
      rw [hdouble]
      exact hre
    refine ⟨hstuck [] [] rfl, hstuck (false :: mallocs) mallocs rfl, ?_⟩
    obtain ⟨u, hre, hu⟩ := rehash_once hashFn mallocs hw.toStored hn
      (fits_of_le hfit (Nat.le_succ _)) hfew.le
    obtain ⟨itr, u', hins', hout'⟩ := insertRaw_ok key val hu.wf false replace
      fun h => absurd h Bool.false_ne_true
    obtain ⟨-, ⟨-, hput⟩ | ⟨-, -, hrefused⟩⟩ := hout'.settle hu.wf (hm.of_iff hu.contents)
    · refine ⟨itr, u', bind_ok.mpr ⟨_, hins, (if_neg (by decide)).trans (bind_ok.mpr
        ⟨(true, u, mallocs), ?_, bind_ok.mpr ⟨_, hins', if_pos hput.not_end⟩⟩)⟩, hput⟩
      rw [hdouble]
      exact hre
    · have hover' := (hrefused.cause.resolve_right
        (Nat.not_le.mpr (hu.count.symm ▸ hfew))).2
      rw [hu.count, exceedsMaxLoad_anti hfit (hu.buckets hn)] at hover'
      exact absurd hover' Bool.false_ne_true

end Wg14Signals.VtTable
