import Wg14Signals.Proofs.TableSearch

namespace Wg14Signals.VtTable
open Lib

variable {κ ν : Type} {hashFn : κ → BitVec 64} {t u : VtTable κ ν} {chains : Nat → Set Nat}
  {h b i d p x prev last : Nat} {key k' : κ} {val w v' : ν} {itr : VtItr} {advance : Bool}
  {m : κ → Option ν}

/-- The end of a chain moves from one bucket, which is emptied, to the one before it. -/
def cut (t : VtTable κ ν) (prev last : Nat) : VtTable κ ν :=
  (t.setMetadatum prev (t.metadata prev ||| vtDisplacementMask)).setMetadatum last vtEmpty

/-- The key of the last bucket of a chain replaces another one of the chain. -/
def refill (t : VtTable κ ν) (b last : Nat) (key : κ) (val : ν) : VtTable κ ν :=
  (t.setBucket b key val).setMetadatum b ((t.metadata b &&& ~~~vtHashFragMask) |||
    (t.metadata last &&& vtHashFragMask))

section Refill

theorem refill_displacement : (t.refill b last key val).displacement i = t.displacement i := by
  simp only [displacement, refill, setMetadatum_metadata, setBucket_metadata]
  split
  · rename_i hi
    rw [refrag_displacement (isHashfrag_and _), hi]
  · rfl

theorem refill_inHome : (t.refill b last key val).metadata i &&& vtInHomeBucketMask =
    t.metadata i &&& vtInHomeBucketMask := by
  simp only [refill, setMetadatum_metadata, setBucket_metadata]
  split
  · rename_i hi
    rw [refrag_inHome (isHashfrag_and _), hi]
  · rfl

theorem refill_hashfrag : (t.refill b last key val).metadata i &&& vtHashFragMask =
    t.metadata (if i = b then last else i) &&& vtHashFragMask := by
  simp only [refill, setMetadatum_metadata, setBucket_metadata]
  split
  · exact refrag_hashfrag (isHashfrag_and _)
  · rfl

theorem refill_ne_empty (hb : t.displacement b ≠ 0) :
    (t.refill b last key val).metadata i ≠ vtEmpty ↔ t.metadata i ≠ vtEmpty := by
  by_cases hi : i = b
  · subst hi
    refine iff_of_true (ne_empty_of_displacement ?_) (ne_empty_of_displacement hb)
    rwa [refill_displacement]
  · simp only [refill, setMetadatum_metadata, setBucket_metadata, if_neg hi]

end Refill

section Cut

theorem cut_displacement (hi : i ≠ last) : (t.cut prev last).displacement i =
    if i = prev then vtDisplacementLimit else t.displacement i := by
  simp only [displacement, cut, setMetadatum_metadata, if_neg hi]
  split
  · rw [or_displacementMask, link_displacement isDisplacement_mask]
    rfl
  · rfl

theorem cut_hashfrag (hi : i ≠ last) : (t.cut prev last).metadata i &&& vtHashFragMask =
    t.metadata i &&& vtHashFragMask := by
  simp only [cut, setMetadatum_metadata, if_neg hi]
  split
  · rename_i hi
    rw [or_displacementMask, link_hashfrag isDisplacement_mask, hi]
  · rfl

theorem cut_inHome (hlast : t.metadata last &&& vtInHomeBucketMask = 0) :
    (t.cut prev last).metadata i &&& vtInHomeBucketMask =
      t.metadata i &&& vtInHomeBucketMask := by
  simp only [cut, setMetadatum_metadata]
  split
  · rename_i hi
    rw [hi, hlast]
    rfl
  · split
    · rename_i hi
      rw [or_displacementMask, link_inHome isDisplacement_mask, hi]
    · rfl

theorem cut_ne_empty (hprev : t.displacement prev ≠ 0) :
    (t.cut prev last).metadata i ≠ vtEmpty ↔ i ≠ last ∧ t.metadata i ≠ vtEmpty := by
  by_cases hi : i = last
  · simp [cut, hi]
  · rw [and_iff_right hi]
    by_cases hip : i = prev
    · subst hip
      refine iff_of_true (ne_empty_of_displacement ?_) (ne_empty_of_displacement hprev)
      rw [cut_displacement hi, if_pos rfl]
      decide
    · simp only [cut, setMetadatum_metadata, if_neg hi, if_neg hip]

end Cut

/-- The key of a bucket is gone. Its bucket is empty, or holds the last key of its chain;
the iterator is to be advanced unless that is a key the iteration has yet to reach. -/
structure Erased (hashFn : κ → BitVec 64) (t u : VtTable κ ν) (b : Nat) (key : κ)
    (advance : Bool) : Prop where
  wf : u.Wf hashFn
  mask : u.bucketsMask = t.bucketsMask
  count : u.keyCount + 1 = t.keyCount
  contents : ∀ k w, u.Has k w ↔ k ≠ key ∧ t.Has k w
  ahead : ∀ k w, (∃ i, (if advance then b + 1 else b) ≤ i ∧ u.Holds i k w) ↔
    k ≠ key ∧ ∃ i, b ≤ i ∧ t.Holds i k w
  refilled : advance = false → ∃ k w, u.Holds b k w ∧
    t.homeBucket hashFn k = t.homeBucket hashFn key

/-- What a table that has one key fewer must be shown to keep. -/
theorem Wf.erased (hw : t.Wf hashFn) (hmask : u.bucketsMask = t.bucketsMask)
    (hcount : u.keyCount = t.keyCount - 1)
    (hc : ∃ chains, u.cells.Wf (scheme hashFn t.bucketsMask) chains)
    (hfrag : ∀ b k w, u.Holds b k w → u.metadata b &&& vtHashFragMask = vtHashfrag (hashFn k))
    (hlast : last ∈ t.inUse) (hin : ∀ i, i ∈ u.inUse ↔ i ≠ last ∧ i ∈ t.inUse)
    (habove : ∀ i, t.bucketsMask < i → u.metadata i = t.metadata i) :
    u.Wf hashFn ∧ u.keyCount + 1 = t.keyCount := by
  have hcard : u.inUse.card = t.inUse.card - 1 := by
    rw [← Finset.card_erase_of_mem hlast]
    refine congrArg Finset.card (Finset.ext fun i => ?_)
    rw [hin, Finset.mem_erase]
  have hpos : 0 < t.keyCount := hw.count ▸ Finset.card_pos.mpr ⟨last, hlast⟩
  refine ⟨Wf.of_chained hmask (hmask ▸ hw.size) hc hfrag ?_ ?_ fun h0 => ?_, by omega⟩
  · rw [hcount, hcard, hw.count]
  · simp only [VtTable.bucketCount, hmask]
    exact fits_of_le hw.load (by omega)
  · rw [hmask, habove _ (Nat.lt_succ_self _)]
    exact hw.stopper (hmask ▸ h0)

/-- The bucket is empty now. -/
theorem Erased.of_emptied (hw : t.Wf hashFn) (hb : t.Holds b key w)
    (hu : u.Wf hashFn ∧ u.keyCount + 1 = t.keyCount) (hmask : u.bucketsMask = t.bucketsMask)
    (hh : ∀ i k w, u.Holds i k w ↔ i ≠ b ∧ t.Holds i k w) : Erased hashFn t u b key true := by
  have hkey : ∀ {i k v}, t.Holds i k v → (i ≠ b ↔ k ≠ key) := by
    intro i k v hi
    refine not_congr ⟨?_, ?_⟩
    · rintro rfl
      exact (Prod.mk.inj (Option.some.inj (hi.2.symm.trans hb.2))).1
    · rintro rfl
      exact hw.keys i b k v w hi hb
  refine ⟨hu.1, hmask, hu.2, fun k v => ?_, fun k v => ?_, fun h => absurd h.symm Bool.false_ne_true⟩
  · constructor
    · rintro ⟨i, hi⟩
      obtain ⟨hne, hi⟩ := (hh i k v).mp hi
      exact ⟨(hkey hi).mp hne, i, hi⟩
    · rintro ⟨hne, i, hi⟩
      exact ⟨i, (hh i k v).mpr ⟨(hkey hi).mpr hne, hi⟩⟩
  · rw [if_pos rfl]
    constructor
    · rintro ⟨i, hle, hi⟩
      obtain ⟨hne, hi⟩ := (hh i k v).mp hi
      exact ⟨(hkey hi).mp hne, i, by omega, hi⟩
    · rintro ⟨hne, i, hle, hi⟩
      have hib := (hkey hi).mpr hne
      exact ⟨i, by omega, (hh i k v).mpr ⟨hib, hi⟩⟩

/-- The bucket holds the last key of the chain now. -/
theorem Erased.of_refilled (hw : t.Wf hashFn) (hb : t.Holds b key w) (hl : t.Holds last k' v')
    (hne : last ≠ b) (hhome : t.homeBucket hashFn k' = t.homeBucket hashFn key)
    (hu : u.Wf hashFn ∧ u.keyCount + 1 = t.keyCount) (hmask : u.bucketsMask = t.bucketsMask)
    (hh : ∀ i k w, u.Holds i k w ↔
      (i = b ∧ k = k' ∧ w = v') ∨ (i ≠ b ∧ i ≠ last ∧ t.Holds i k w)) :
    Erased hashFn t u b key (decide (last ≤ b)) := by
  have hkey : ∀ {i k v}, t.Holds i k v → (i = b ↔ k = key) := by
    intro i k v hi
    constructor
    · rintro rfl
      exact (Prod.mk.inj (Option.some.inj (hi.2.symm.trans hb.2))).1
    · rintro rfl
      exact hw.keys i b k v w hi hb
  have hk' : k' ≠ key := fun heq => hne ((hkey hl).mpr heq)
  have hmoved : ∀ {i k v}, t.Holds i k v → i = last → k = k' ∧ v = v' := by
    rintro i k v hi rfl
    exact Prod.mk.inj (Option.some.inj (hi.2.symm.trans hl.2))
  refine ⟨hu.1, hmask, hu.2, fun k v => ?_, fun k v => ?_, fun _ =>
    ⟨k', v', (hh _ _ _).mpr (.inl ⟨rfl, rfl, rfl⟩), hhome⟩⟩
  · constructor
    · rintro ⟨i, hi⟩
      rcases (hh i k v).mp hi with ⟨-, rfl, rfl⟩ | ⟨hib, -, hi⟩
      · exact ⟨hk', last, hl⟩
      · exact ⟨fun heq => hib ((hkey hi).mpr heq), i, hi⟩
    · rintro ⟨hkne, i, hi⟩
      by_cases hil : i = last
      · obtain ⟨rfl, rfl⟩ := hmoved hi hil
        exact ⟨b, (hh _ _ _).mpr (.inl ⟨rfl, rfl, rfl⟩)⟩
      · exact ⟨i, (hh i k v).mpr (.inr ⟨fun hib => hkne ((hkey hi).mp hib), hil, hi⟩)⟩
  · by_cases hle : last ≤ b
    · rw [if_pos (decide_eq_true hle)]
      constructor
      · rintro ⟨i, hbi, hi⟩
        rcases (hh i k v).mp hi with ⟨rfl, -, -⟩ | ⟨hib, -, hi⟩
        · omega
        · exact ⟨fun heq => hib ((hkey hi).mpr heq), i, by omega, hi⟩
      · rintro ⟨hkne, i, hbi, hi⟩
        have hib : i ≠ b := fun hib => hkne ((hkey hi).mp hib)
        exact ⟨i, by omega, (hh i k v).mpr (.inr ⟨hib, by omega, hi⟩)⟩
    · rw [if_neg (by rw [decide_eq_true_eq]; exact hle)]
      constructor
      · rintro ⟨i, hbi, hi⟩
        rcases (hh i k v).mp hi with ⟨-, rfl, rfl⟩ | ⟨hib, -, hi⟩
        · exact ⟨hk', last, by omega, hl⟩
        · exact ⟨fun heq => hib ((hkey hi).mpr heq), i, hbi, hi⟩
      · rintro ⟨hkne, i, hbi, hi⟩
        by_cases hil : i = last
        · obtain ⟨rfl, rfl⟩ := hmoved hi hil
          exact ⟨b, Nat.le_refl b, (hh _ _ _).mpr (.inl ⟨rfl, rfl, rfl⟩)⟩
        · exact ⟨i, hbi, (hh i k v).mpr (.inr ⟨fun hib => hkne ((hkey hi).mp hib), hil, hi⟩)⟩

section Cells

variable (hc : t.cells.Wf (scheme hashFn t.bucketsMask) chains)
  (hp : p ∈ chains h) (hx : x ∈ chains h) (hlink : t.displacement (t.slot h p) = x)
  (hstop : t.displacement (t.slot h x) = vtDisplacementLimit)
include hc hp hx hlink hstop

/-- The last key of a chain is taken off it. -/
theorem cut_cells : (t.cut (t.slot h p) (t.slot h x)).cells.Wf (scheme hashFn t.bucketsMask)
      (fun h' => {d | d ∈ chains h' ∧ ¬(h' = h ∧ d = x)}) ∧
    (∀ i, (t.cut (t.slot h p) (t.slot h x)).cells.used i ↔ i ≠ t.slot h x ∧ t.cells.used i) ∧
    t.metadata (t.slot h x) &&& vtInHomeBucketMask = 0 := by
  have hpx : p < x := hlink ▸ (nextIn hc rfl hp).lt
  have hhome : t.metadata (t.slot h x) &&& vtInHomeBucketMask = 0 := by
    by_contra hne
    have := (hc.head_iff hx).mp ⟨slot_le t h x, hne⟩
    omega
  have hused : ∀ i, (t.cut (t.slot h p) (t.slot h x)).cells.used i ↔
      i ≠ t.slot h x ∧ t.cells.used i := by
    intro i
    have hprev := used_displacement hc (hc.slot_used hp)
    constructor
    · rintro ⟨hi, hm, ho⟩
      obtain ⟨hne, hm⟩ := (cut_ne_empty hprev).mp hm
      exact ⟨hne, hi, hm, ho⟩
    · rintro ⟨hne, hi, hm, ho⟩
      exact ⟨hi, (cut_ne_empty hprev).mpr ⟨hne, hm⟩, ho⟩
  refine ⟨(hc.unlink hp hx hlink).congr hused (fun i => ?_) (fun i hi => ?_) fun _ _ => rfl, hused,
    hhome⟩
  · exact and_congr_right' (not_congr (iff_of_eq (congrArg (· = 0) (cut_inHome hhome))))
  · refine (cut_displacement hi.1).trans ?_
    rw [← hstop]
    rfl

end Cells

theorem cut_above (hprev : prev ≤ t.bucketsMask) (hlast : last ≤ t.bucketsMask)
    (hi : t.bucketsMask < i) : (t.cut prev last).metadata i = t.metadata i := by
  simp only [cut, setMetadatum_metadata]
  rw [if_neg (by omega), if_neg (by omega)]

/-- The only key of a chain. -/
theorem erase_only (hw : t.Wf hashFn) (hb : t.Holds b key w)
    (hhome : t.metadata b &&& vtInHomeBucketMask ≠ 0)
    (hstop : t.displacement b = vtDisplacementLimit) :
    Erased hashFn t ({ t with keyCount := t.keyCount - 1 }.setMetadatum b vtEmpty) b key true := by
  obtain ⟨chains, hc⟩ := hw.chained
  let u := { t with keyCount := t.keyCount - 1 }.setMetadatum b vtEmpty
  have hne : ∀ i, u.metadata i ≠ vtEmpty ↔ i ≠ b ∧ t.metadata i ≠ vtEmpty := by
    intro i
    by_cases hi : i = b
    · simp [u, hi]
    · simp [u, hi]
  have hused : ∀ i, u.cells.used i ↔ i ≠ b ∧ t.cells.used i := by
    intro i
    constructor
    · rintro ⟨hi, hm, ho⟩
      exact ⟨((hne i).mp hm).1, hi, ((hne i).mp hm).2, ho⟩
    · rintro ⟨hib, hi, hm, ho⟩
      exact ⟨hi, (hne i).mpr ⟨hib, hm⟩, ho⟩
  have hholds : ∀ i k v, u.Holds i k v ↔ i ≠ b ∧ t.Holds i k v := fun i k v =>
    (and_congr_left' (hused i)).trans and_assoc
  have hkept : ∀ {i}, i ≠ b → u.metadata i = t.metadata i := fun hi => if_neg hi
  have hc' : u.cells.Wf (scheme hashFn t.bucketsMask) fun h' => {d | d ∈ chains h' ∧ h' ≠ b} := by
    refine (hc.unlinkHome ((hc.head b).mp ⟨hb.1.1, hhome⟩) hstop).congr hused (fun i => ?_)
      (fun i hi => ?_) fun _ _ => rfl
    · by_cases hi : i = b
      · subst hi
        refine iff_of_false (fun hh => hh.2 ?_) fun hh => hh.1 rfl
        rw [show u.metadata i = vtEmpty from if_pos rfl]
        rfl
      · simp only [cells, Cells.unlinkHome, hkept hi]
        exact (and_iff_right hi).symm
    · simp only [cells, Cells.unlinkHome, displacement, hkept hi.1]
  refine Erased.of_emptied hw hb (hw.erased rfl rfl ⟨_, hc'⟩ (fun i k v hi => ?_)
    (mem_inUse.mpr ⟨hb.1.1, hb.1.2.1⟩) (fun i => ?_) fun i hi => ?_) rfl hholds
  · obtain ⟨hib, hi⟩ := (hholds i k v).mp hi
    rw [hkept hib]
    exact hw.hashfrag i k v hi
  · rw [mem_inUse, mem_inUse, hne]
    exact and_left_comm
  · exact hkept (by have := hb.1.1; omega)

/-- The last key of a chain. -/
theorem erase_last (hw : t.Wf hashFn) (hc : t.cells.Wf (scheme hashFn t.bucketsMask) chains)
    (hp : p ∈ chains h) (hx : x ∈ chains h) (hlink : t.displacement (t.slot h p) = x)
    (hstop : t.displacement (t.slot h x) = vtDisplacementLimit)
    (hb : t.Holds (t.slot h x) key w) :
    Erased hashFn t ({ t with keyCount := t.keyCount - 1 }.cut (t.slot h p) (t.slot h x))
      (t.slot h x) key true := by
  obtain ⟨hc', hused, -⟩ := cut_cells hc hp hx hlink hstop
  let u := { t with keyCount := t.keyCount - 1 }.cut (t.slot h p) (t.slot h x)
  have hholds : ∀ i k v, u.Holds i k v ↔ i ≠ t.slot h x ∧ t.Holds i k v := fun i k v =>
    (and_congr_left' (hused i)).trans and_assoc
  have hprev := used_displacement hc (hc.slot_used hp)
  refine Erased.of_emptied hw hb (hw.erased rfl rfl ⟨_, hc'⟩ (fun i k v hi => ?_)
    (mem_inUse.mpr ⟨hb.1.1, hb.1.2.1⟩) (fun i => ?_) fun i hi => ?_) rfl hholds
  · obtain ⟨hib, hi⟩ := (hholds i k v).mp hi
    exact (cut_hashfrag hib).trans (hw.hashfrag i k v hi)
  · rw [mem_inUse, mem_inUse]
    exact (and_congr_right' (cut_ne_empty hprev)).trans and_left_comm
  · exact cut_above (t := { t with keyCount := t.keyCount - 1 }) (slot_le t h p) (slot_le t h x) hi

/-- Any other key of a chain, which the last one replaces. -/
theorem erase_inner (hw : t.Wf hashFn) (hc : t.cells.Wf (scheme hashFn t.bucketsMask) chains)
    (hd : d ∈ chains h) (hdx : d ≠ x) (hp : p ∈ chains h) (hx : x ∈ chains h)
    (hlink : t.displacement (t.slot h p) = x)
    (hstop : t.displacement (t.slot h x) = vtDisplacementLimit)
    (hb : t.Holds (t.slot h d) key w) (hl : t.Holds (t.slot h x) k' v') :
    Erased hashFn t
      (({ t with keyCount := t.keyCount - 1 }.refill (t.slot h d) (t.slot h x) k' v').cut
        (t.slot h p) (t.slot h x))
      (t.slot h d) key (decide (t.slot h x ≤ t.slot h d)) := by
  obtain ⟨hc₁, hused₁, hhome⟩ := cut_cells hc hp hx hlink hstop
  let t₁ := { t with keyCount := t.keyCount - 1 }.refill (t.slot h d) (t.slot h x) k' v'
  let u := t₁.cut (t.slot h p) (t.slot h x)
  have hne : t.slot h x ≠ t.slot h d := fun heq => hdx (hc.slot_inj hd hx heq.symm).2
  have hd0 : t.displacement (t.slot h d) ≠ 0 := used_displacement hc (hc.slot_used hd)
  have hprev : t₁.displacement (t.slot h p) ≠ 0 := by
    rw [refill_displacement]
    exact used_displacement hc (hc.slot_used hp)
  have hmeta : ∀ i, u.metadata i ≠ vtEmpty ↔ i ≠ t.slot h x ∧ t.metadata i ≠ vtEmpty := fun i =>
    (cut_ne_empty hprev).trans (and_congr_right' (refill_ne_empty hd0))
  have hused : ∀ i, u.cells.used i ↔ (t.cut (t.slot h p) (t.slot h x)).cells.used i := by
    intro i
    rw [hused₁]
    constructor
    · rintro ⟨hi, hm, ho⟩
      exact ⟨((hmeta i).mp hm).1, hi, ((hmeta i).mp hm).2, ho⟩
    · rintro ⟨hix, hi, hm, ho⟩
      exact ⟨hi, (hmeta i).mpr ⟨hix, hm⟩, ho⟩
  have hud : (t.cut (t.slot h p) (t.slot h x)).cells.used (t.slot h d) :=
    (hused₁ _).mpr ⟨hne.symm, hc.slot_used hd⟩
  have hhome₁ : t₁.metadata (t.slot h x) &&& vtInHomeBucketMask = 0 :=
    refill_inHome.trans hhome
  have hentry : ∀ i, u.cells.entry i =
      ((t.cut (t.slot h p) (t.slot h x)).cells.refill (t.slot h d) k' v').entry i := fun _ => rfl
  -- the last key is on the same chain
  obtain ⟨k, v, hk, hkh⟩ := stored_at hc rfl hx
  obtain ⟨rfl, rfl⟩ := Prod.mk.inj (Option.some.inj (hk.symm.trans hl.2))
  have hkey : t.homeBucket hashFn key = h := by
    obtain ⟨j, v, hj, hjh⟩ := stored_at hc rfl hd
    obtain ⟨rfl, -⟩ := Prod.mk.inj (Option.some.inj (hj.symm.trans hb.2))
    exact hjh
  subst hkh
  have hc₂ := hc₁.refill (k := k) (v := v) (x := d)
    (show d ∈ chains _ ∧ ¬(_ ∧ d = x) from ⟨hd, fun heq => hdx heq.2⟩) fun i v' hi => by
      have hi' := (hused₁ i).mp hi.1
      exact absurd (hw.keys i _ k v' v ⟨hi'.2, hi.2⟩ hl) hi'.1
  have hholds : ∀ i j v', u.Holds i j v' ↔
      (i = t.slot (t.homeBucket hashFn k) d ∧ j = k ∧ v' = v) ∨
        (i ≠ t.slot (t.homeBucket hashFn k) d ∧ i ≠ t.slot (t.homeBucket hashFn k) x ∧
          t.Holds i j v') := by
    intro i j v'
    refine (and_congr_left' (hused i)).trans ((Cells.holds_refill hud).trans (or_congr_right ?_))
    exact and_congr_right' ((and_congr_left' (hused₁ i)).trans and_assoc)
  refine Erased.of_refilled hw hb hl hne hkey.symm (hw.erased rfl rfl ⟨_, hc₂.congr hused
    (fun i => ?_) (fun i hi => ?_) fun i _ => hentry i⟩ (fun i j v' hi => ?_)
    (mem_inUse.mpr ⟨hl.1.1, hl.1.2.1⟩) (fun i => ?_) fun i hi => ?_) rfl hholds
  · refine and_congr_right' (not_congr (iff_of_eq (congrArg (· = 0) ?_)))
    exact ((cut_inHome hhome₁).trans refill_inHome).trans (cut_inHome hhome).symm
  · have hix := ((hused₁ i).mp hi).1
    refine (cut_displacement hix).trans (Eq.trans ?_ (cut_displacement hix).symm)
    rw [refill_displacement]
    rfl
  · rcases (hholds i j v').mp hi with ⟨rfl, rfl, rfl⟩ | ⟨hid, hix, hi⟩
    · refine (cut_hashfrag hne.symm).trans (refill_hashfrag.trans ?_)
      rw [if_pos rfl]
      exact hw.hashfrag _ j v' hl
    · refine (cut_hashfrag hix).trans (refill_hashfrag.trans ?_)
      rw [if_neg hid]
      exact hw.hashfrag i j v' hi
  · rw [mem_inUse, mem_inUse]
    exact (and_congr_right' (hmeta i)).trans and_left_comm
  · refine (cut_above (t := t₁) (slot_le t _ p) (slot_le t _ x) hi).trans ?_
    have hid : i ≠ t.slot (t.homeBucket hashFn k) d := fun heq => by
      have := slot_le t (t.homeBucket hashFn k) d
      omega
    simp only [t₁, refill, setMetadatum_metadata, setBucket_metadata, if_neg hid]

/-- An iterator that stands at a key, and may know its home bucket. -/
structure StandsAt (hashFn : κ → BitVec 64) (t : VtTable κ ν) (itr : VtItr) (key : κ) (w : ν) :
    Prop where
  holds : t.Holds itr.metadatum key w
  home : ∀ h, itr.homeBucket = some h → h = t.homeBucket hashFn key

theorem itrHomeBucket_ok (hw : t.Wf hashFn) (hs : StandsAt hashFn t itr key w) :
    t.itrHomeBucket hashFn itr = .ok (t.homeBucket hashFn key) := by
  unfold itrHomeBucket
  cases hh : itr.homeBucket with
  | some h => exact congrArg Except.ok (hs.home h hh)
  | none =>
    dsimp only
    split
    · rename_i hin
      -- the first key of its chain
      obtain ⟨chains, hc, x, hx, hslot⟩ := hw.on_chain hs.holds
      have hhead : t.cells.head (t.slot (t.homeBucket hashFn key) x) :=
        ⟨slot_le t _ x, hslot.symm ▸ hin⟩
      obtain rfl := (hc.head_iff hx).mp hhead
      exact congrArg Except.ok (hslot.symm.trans (hc.slot_zero hx))
    · exact bind_ok.mpr ⟨_, readBucket_ok hs.holds.2, rfl⟩

variable [DecidableEq κ]

theorem eraseItrRaw_ok (hw : t.Wf hashFn) (hs : StandsAt hashFn t itr key w) :
    ∃ advance u, t.eraseItrRaw hashFn itr = .ok (advance, u) ∧
      Erased hashFn t u itr.metadatum key advance := by
  have hhome := itrHomeBucket_ok hw hs
  have hb := hs.holds
  obtain ⟨chains, hc, d, hd, hslot⟩ := hw.on_chain hb
  unfold eraseItrRaw
  by_cases honly : t.metadata itr.metadatum &&& vtInHomeBucketMask ≠ 0 ∧
      t.displacement itr.metadatum = vtDisplacementLimit
  · exact ⟨true, _, if_pos honly, erase_only hw hb honly.1 honly.2⟩
  · obtain ⟨b, metadataEnd, home⟩ := itr
    dsimp only at *
    subst hslot
    by_cases hlast : t.displacement (t.slot (t.homeBucket hashFn key) d) = vtDisplacementLimit
    · have hd0 : d ≠ 0 := fun h0 =>
        honly ⟨((hc.head_iff hd).mpr h0).2, hlast⟩
      obtain ⟨p, hp, -, hlink⟩ := hc.exists_prev hd (hc.first _ d hd) (Nat.pos_of_ne_zero hd0)
      have hlink : t.displacement (t.slot (t.homeBucket hashFn key) p) = d := hlink
      have hprev := findPrev_ok (t := { t with keyCount := t.keyCount - 1 }) hc rfl hp hd hlink
      exact ⟨true, _, (if_neg honly).trans (bind_ok.mpr ⟨_, hhome,
        (if_pos hlast).trans (bind_ok.mpr ⟨_, hprev, rfl⟩)⟩), erase_last hw hc hp hd hlink hlast hb⟩
    · obtain ⟨p, hp, x, hx, -, hlink, hstop, htraverse⟩ :=
        findLast_ok (t := { t with keyCount := t.keyCount - 1 }) hc rfl hd hlast
      obtain ⟨k, v, hk, -⟩ := stored_at hc rfl hx
      have hdx : d ≠ x := fun heq => hlast (heq ▸ hstop)
      exact ⟨_, _, (if_neg honly).trans (bind_ok.mpr ⟨_, hhome, (if_neg hlast).trans
        (bind_ok.mpr ⟨_, htraverse, bind_ok.mpr ⟨(k, v), readBucket_ok hk, rfl⟩⟩)⟩),
        erase_inner hw hc hd hdx hp hx hlink hstop hb ⟨hc.slot_used hx, hk⟩⟩

variable (key) in
/-- Erasing a key erases that key, if it is there, and no other. -/
theorem erase_ok (hw : t.Wf hashFn) (hm : t.Maps m) :
    ∃ u, t.erase hashFn key = .ok ((m key).isSome, u) ∧ u.Wf hashFn ∧ u.Maps (drop m key) ∧
      u.bucketsMask = t.bucketsMask := by
  unfold erase
  cases hk : m key with
  | none =>
    have hdrop : drop m key = m := by
      funext k
      unfold drop
      split
      · rename_i heq
        rw [heq, hk]
      · rfl
    rw [hdrop]
    exact ⟨t, bind_ok.mpr ⟨_, hw.get_absent (hm.none_iff.mp hk), rfl⟩, hw, hm, rfl⟩
  | some v =>
    obtain ⟨b, hb⟩ := (hm key v).mp hk
    have hs : StandsAt hashFn t (t.itr b (t.homeBucket hashFn key)) key v :=
      ⟨hb, fun h hh => (Option.some.inj hh).symm⟩
    obtain ⟨advance, u, hrun, hu⟩ := eraseItrRaw_ok hw hs
    refine ⟨u, bind_ok.mpr ⟨_, hw.get_found hb, ?_⟩, hu.wf, fun k w => ?_, hu.mask⟩
    · exact (if_neg (by rw [itr_not_end hb.1.1]; exact Bool.false_ne_true)).trans
        (bind_ok.mpr ⟨_, hrun, rfl⟩)
    · rw [hu.contents, ← hm, drop]
      by_cases heq : k = key
      · simp [heq]
      · simp [heq]

end Wg14Signals.VtTable
