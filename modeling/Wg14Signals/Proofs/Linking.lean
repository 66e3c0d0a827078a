import Wg14Signals.Proofs.Traversals

namespace Wg14Signals.VtTable
open Lib

variable {κ ν : Type} {hashFn : κ → BitVec 64} {t : VtTable κ ν} {out : Option Nat}
  {chains : Nat → Set Nat} {h b i d e p x prev : Nat} {key : κ} {val : ν} {f m : Metadatum}

theorem ne_empty_of_displacement (hd : t.displacement b ≠ 0) : t.metadata b ≠ vtEmpty := by
  intro hempty
  apply hd
  unfold displacement
  rw [hempty]
  rfl

theorem displacement_setMetadatum (t : VtTable κ ν) (b i : Nat) (m : Metadatum) :
    (t.setMetadatum b m).displacement i =
      if i = b then (m &&& vtDisplacementMask).toNat else t.displacement i := by
  simp only [displacement, setMetadatum_metadata]
  split <;> rfl

/-- A key on a chain has a displacement to go on with, if only the limit. -/
theorem used_displacement (hw : (t.cells out).Wf (scheme hashFn t.bucketsMask) chains)
    (hb : (t.cells out).used b) : t.displacement b ≠ 0 := by
  obtain ⟨h, d, hd, rfl⟩ := (hw.used b).mp hb
  exact Nat.ne_of_gt ((Nat.zero_le d).trans_lt (nextIn hw rfl hd).lt)

theorem home_le (t : VtTable κ ν) (key : κ) : t.homeBucket hashFn key ≤ t.bucketsMask :=
  Nat.and_le_right

section LinkKey

variable (hne : prev ≠ e)
include hne

theorem linkKey_metadata : (t.linkKey prev e d f key val).metadata i =
    if i = prev then t.withDisplacement prev (.ofNat 16 d)
    else if i = e then f ||| (t.metadata prev &&& vtDisplacementMask)
    else t.metadata i := by
  simp only [linkKey, setMetadatum_metadata, setBucket_metadata, withDisplacement, if_neg hne]

theorem linkKey_displacement (hf : IsHashfrag f) (hd : d ≤ vtDisplacementLimit) :
    (t.linkKey prev e d f key val).displacement i =
      if i = e then t.displacement prev else if i = prev then d else t.displacement i := by
  simp only [displacement, linkKey_metadata hne]
  by_cases hi : i = prev
  · rw [if_pos hi, if_neg (hi ▸ hne), if_pos hi, withDisplacement,
      link_displacement (isDisplacement_ofNat hd), toNat_ofNat hd]
  · rw [if_neg hi, if_neg hi]
    split
    · rw [chained_displacement hf (isDisplacement_and _)]
    · rfl

theorem linkKey_hashfrag (hf : IsHashfrag f) (hd : d ≤ vtDisplacementLimit) :
    (t.linkKey prev e d f key val).metadata i &&& vtHashFragMask =
      if i = e then f else t.metadata i &&& vtHashFragMask := by
  rw [linkKey_metadata hne]
  by_cases hi : i = prev
  · rw [if_pos hi, if_neg (hi ▸ hne), withDisplacement, link_hashfrag (isDisplacement_ofNat hd), hi]
  · rw [if_neg hi]
    split
    · exact chained_hashfrag hf (isDisplacement_and _)
    · rfl

theorem linkKey_inHome (hf : IsHashfrag f) (hd : d ≤ vtDisplacementLimit)
    (hempty : t.metadata e = vtEmpty) :
    (t.linkKey prev e d f key val).metadata i &&& vtInHomeBucketMask =
      t.metadata i &&& vtInHomeBucketMask := by
  rw [linkKey_metadata hne]
  by_cases hi : i = prev
  · rw [if_pos hi, withDisplacement, link_inHome (isDisplacement_ofNat hd), hi]
  · rw [if_neg hi]
    split
    · rename_i he
      rw [chained_inHome hf (isDisplacement_and _), he, hempty]
      rfl
    · rfl

theorem linkKey_ne_empty (hf : IsHashfrag f) (hd : d ≤ vtDisplacementLimit) (hd0 : d ≠ 0)
    (hprev : t.displacement prev ≠ 0) :
    (t.linkKey prev e d f key val).metadata i ≠ vtEmpty ↔ i = e ∨ t.metadata i ≠ vtEmpty := by
  by_cases hi : i = e ∨ i = prev
  · have hnonzero : (t.linkKey prev e d f key val).displacement i ≠ 0 := by
      rw [linkKey_displacement hne hf hd]
      rcases hi with rfl | rfl
      · rwa [if_pos rfl]
      · rwa [if_neg hne, if_pos rfl]
    refine iff_of_true (ne_empty_of_displacement hnonzero) (hi.imp_right ?_)
    rintro rfl
    exact ne_empty_of_displacement hprev
  · obtain ⟨hie, hip⟩ := not_or.mp hi
    rw [linkKey_metadata hne, if_neg hip, if_neg hie]
    exact (or_iff_right hie).symm

end LinkKey

variable (val) in
/-- Storing a key in an empty bucket and linking it where it belongs. -/
theorem linkKey_cells (hw : (t.cells out).Wf (scheme hashFn t.bucketsMask) chains)
    (hout : ∀ b, out = some b → t.metadata b ≠ vtEmpty) (hh : h = t.homeBucket hashFn key)
    (hp : p ∈ chains h) (hpx : p < x) (hxl : x < t.displacement (t.slot h p))
    (hx : x < vtDisplacementLimit) (hempty : t.metadata (t.slot h x) = vtEmpty)
    (hnew : ∀ b w, ¬(t.cells out).Holds b key w) (hf : IsHashfrag f) :
    (∃ chains', ((t.linkKey (t.slot h p) (t.slot h x) x f key val).cells out).Wf
      (scheme hashFn t.bucketsMask) chains') ∧
      ∀ b k w, ((t.linkKey (t.slot h p) (t.slot h x) x f key val).cells out).Holds b k w ↔
        (b = t.slot h x ∧ k = key ∧ w = val) ∨ (t.cells out).Holds b k w := by
  subst hh
  let h := t.homeBucket hashFn key
  let c := (t.cells out).insertAfter (scheme hashFn t.bucketsMask) key val p x
  let t' := t.linkKey (t.slot h p) (t.slot h x) x f key val
  have hfree : ¬(t.cells out).used (t.slot h x) := fun hu => hu.2.1 hempty
  have hprev := hw.slot_used hp
  have hne : t.slot h p ≠ t.slot h x := fun heq => hfree (heq ▸ hprev)
  have hprev0 : t.displacement (t.slot h p) ≠ 0 := used_displacement hw hprev
  have hx0 : x ≠ 0 := by omega
  have hmeta : ∀ i, t'.metadata i ≠ vtEmpty ↔ i = t.slot h x ∨ t.metadata i ≠ vtEmpty :=
    fun i => linkKey_ne_empty hne hf hx.le hx0 hprev0
  have hused : ∀ i, (t'.cells out).used i ↔ c.used i := by
    intro i
    constructor
    · rintro ⟨hi, hm, ho⟩
      exact ((hmeta i).mp hm).imp_right fun hm => ⟨hi, hm, ho⟩
    · rintro (rfl | ⟨hi, hm, ho⟩)
      · exact ⟨slot_le t h x, (hmeta _).mpr (.inl rfl), fun ho => hout _ ho.symm hempty⟩
      · exact ⟨hi, (hmeta i).mpr (.inr hm), ho⟩
  have hlink : (t'.cells out).link = c.link :=
    funext fun i => linkKey_displacement hne hf hx.le
  have hentry : (t'.cells out).entry = c.entry := rfl
  have hhead : ∀ i, (t'.cells out).head i ↔ c.head i := fun i =>
    and_congr_right' (not_congr (iff_of_eq (congrArg (· = 0) (linkKey_inHome hne hf hx.le hempty))))
  refine ⟨⟨_, (hw.insertAfter hp hpx hxl hx hfree hnew).congr hused hhead (fun i _ => by rw [hlink])
    fun i _ => rfl⟩, fun b k w => ?_⟩
  exact (and_congr_left' (hused b)).trans (Cells.holds_insertAfter hfree)

section StoreHome

theorem storeHome_metadata : (t.storeHome h f key val).metadata i =
    if i = h then f ||| vtInHomeBucketMask ||| vtDisplacementMask else t.metadata i := rfl

theorem storeHome_displacement : (t.storeHome h f key val).displacement i =
    if i = h then vtDisplacementLimit else t.displacement i := by
  simp only [displacement, storeHome_metadata]
  split
  · rw [atHome_displacement]
    rfl
  · rfl

theorem storeHome_hashfrag (hf : IsHashfrag f) :
    (t.storeHome h f key val).metadata i &&& vtHashFragMask =
      if i = h then f else t.metadata i &&& vtHashFragMask := by
  rw [storeHome_metadata]
  split
  · exact atHome_hashfrag hf
  · rfl

theorem storeHome_ne_empty :
    (t.storeHome h f key val).metadata i ≠ vtEmpty ↔ i = h ∨ t.metadata i ≠ vtEmpty := by
  by_cases hi : i = h
  · refine iff_of_true (ne_empty_of_displacement ?_) (.inl hi)
    rw [storeHome_displacement, if_pos hi]
    decide
  · rw [storeHome_metadata, if_neg hi, or_iff_right hi]

variable (val f) in
/-- Storing a key in its home bucket. -/
theorem storeHome_cells (hw : (t.cells out).Wf (scheme hashFn t.bucketsMask) chains)
    (hout : ∀ i, i ≠ h → some i ≠ out) (hh : h = t.homeBucket hashFn key)
    (hfree : ¬(t.cells out).used h) (hnew : ∀ b w, ¬(t.cells out).Holds b key w) :
    (∃ chains', (t.storeHome h f key val).cells.Wf (scheme hashFn t.bucketsMask) chains') ∧
      ∀ b k w, (t.storeHome h f key val).Holds b k w ↔
        (b = h ∧ k = key ∧ w = val) ∨ (t.cells out).Holds b k w := by
  subst hh
  let h := t.homeBucket hashFn key
  let c := (t.cells out).insertHome (scheme hashFn t.bucketsMask) key val
  let t' := t.storeHome h f key val
  have hused : ∀ i, t'.cells.used i ↔ c.used i := by
    intro i
    by_cases hi : i = h
    · subst hi
      exact iff_of_true ⟨home_le t key, storeHome_ne_empty.mpr (.inl rfl), Option.some_ne_none _⟩
        (.inl rfl)
    · constructor
      · rintro ⟨hib, hm, -⟩
        exact .inr ⟨hib, (storeHome_ne_empty.mp hm).resolve_left hi, hout i hi⟩
      · intro hu
        obtain ⟨hib, hm, -⟩ := hu.resolve_left hi
        exact ⟨hib, storeHome_ne_empty.mpr (.inr hm), Option.some_ne_none i⟩
  have hhead : ∀ i, t'.cells.head i ↔ c.head i := by
    intro i
    by_cases hi : i = h
    · subst hi
      refine iff_of_true ⟨home_le t key, ?_⟩ (.inl rfl)
      rw [storeHome_metadata, if_pos rfl, atHome_inHome]
      decide
    · refine Iff.trans ?_ (or_iff_right hi).symm
      simp only [t', cells, storeHome_metadata, if_neg hi]
      rfl
  have hlink : t'.cells.link = c.link := funext fun i => storeHome_displacement
  refine ⟨⟨_, (hw.insertHome hfree hnew).congr hused hhead (fun i _ => by rw [hlink])
    fun i _ => rfl⟩, fun b k w => ?_⟩
  exact (and_congr_left' (hused b)).trans (Cells.holds_insertHome hfree)

end StoreHome

end Wg14Signals.VtTable
