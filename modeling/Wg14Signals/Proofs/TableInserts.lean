import Wg14Signals.Proofs.Linking

namespace Wg14Signals.VtTable
open Lib

variable {κ ν : Type} {hashFn : κ → BitVec 64} {t t' : VtTable κ ν} {out : Option Nat}
  {chains : Nat → Set Nat} {h b i d e p x prev : Nat} {key : κ} {val : ν} {f m : Metadatum}

/-- The table but for the chains: the same keys in the same buckets. -/
structure SameEntries (t t' : VtTable κ ν) : Prop where
  mask : t'.bucketsMask = t.bucketsMask
  count : t'.keyCount = t.keyCount
  buckets : t'.buckets = t.buckets
  empty : ∀ i, t'.metadata i = vtEmpty ↔ t.metadata i = vtEmpty

theorem SameEntries.used (hs : SameEntries t t') : t'.cells.used b ↔ t.cells.used b := by
  simp only [cells, hs.mask, ne_eq, hs.empty]

theorem SameEntries.holds (hs : SameEntries t t') : t'.Holds b key val ↔ t.Holds b key val := by
  have hentry : t'.cells.entry = t.cells.entry := hs.buckets
  simp only [Holds, Cells.Holds, hs.used, hentry]

theorem SameEntries.inUse (hs : SameEntries t t') : t'.inUse = t.inUse := by
  ext i
  simp only [mem_inUse, hs.mask, ne_eq, hs.empty]

theorem SameEntries.bucketCount (hs : SameEntries t t') : t'.bucketCount = t.bucketCount := by
  simp only [VtTable.bucketCount, hs.mask]

theorem SameEntries.stored (hs : SameEntries t t') (ht : Stored t) : Stored t' where
  size := hs.mask ▸ ht.size
  entry b hb := hs.buckets ▸ ht.entry b (hs.used.mp hb)
  keys b b' key val val' hb hb' := ht.keys b b' key val val' (hs.holds.mp hb) (hs.holds.mp hb')
  count := by rw [hs.count, hs.inUse, ht.count]
  load := by rw [hs.count, hs.bucketCount, ht.load]
  stopper := by
    rw [hs.mask]
    exact fun h0 hm => ht.stopper h0 ((hs.empty _).mp hm)

/-- The key of bucket `b` has been moved away, if there was one. -/
structure Vacated (hashFn : κ → BitVec 64) (t t' : VtTable κ ν) (b : Nat) : Prop where
  chained : ∃ chains, (t'.cells (some b)).Wf (scheme hashFn t.bucketsMask) chains
  mask : t'.bucketsMask = t.bucketsMask
  count : t'.keyCount = t.keyCount
  hashfrag : ∀ i k w, (t'.cells (some b)).Holds i k w →
    t'.metadata i &&& vtHashFragMask = vtHashfrag (hashFn k)
  contents : ∀ k w, (∃ i, (t'.cells (some b)).Holds i k w) ↔ ∃ i, t.Holds i k w
  card : (Insert.insert b t'.inUse).card = t.inUse.card + 1
  above : ∀ i, t.bucketsMask < i → (t'.metadata i = vtEmpty ↔ t.metadata i = vtEmpty)

theorem cells_some (hb : t.metadata b = vtEmpty) : (t.cells (some b)).used i ↔ t.cells.used i := by
  simp only [cells, ne_eq, Option.some.injEq, reduceCtorEq, not_false_eq_true, and_true,
    and_congr_right_iff, and_iff_left_iff_imp]
  rintro - hm rfl
  exact hm hb

theorem Wf.vacated (hw : t.Wf hashFn) (hb : t.metadata b = vtEmpty) : Vacated hashFn t t b where
  chained := by
    obtain ⟨chains, hc⟩ := hw.chained
    exact ⟨chains, hc.congr (fun _ => cells_some hb) (fun _ => Iff.rfl) (fun _ _ => rfl)
      fun _ _ => rfl⟩
  mask := rfl
  count := rfl
  hashfrag i k w hi := hw.hashfrag i k w ⟨(cells_some hb).mp hi.1, hi.2⟩
  contents k w := exists_congr fun i => and_congr_left' (cells_some hb)
  card := Finset.card_insert_of_notMem fun hm => (mem_inUse.mp hm).2 hb
  above _ _ := Iff.rfl

theorem disconnect_displacement : (t.disconnect prev b).displacement i =
    if i = prev then t.displacement b else t.displacement i := by
  simp only [disconnect, displacement_setMetadatum, withDisplacement,
    link_displacement (isDisplacement_and _)]
  rfl

theorem disconnect_hashfrag : (t.disconnect prev b).metadata i &&& vtHashFragMask =
    t.metadata i &&& vtHashFragMask := by
  simp only [disconnect, setMetadatum_metadata]
  split
  · rename_i hi
    rw [withDisplacement, link_hashfrag (isDisplacement_and _), hi]
  · rfl

theorem disconnect_inHome : (t.disconnect prev b).metadata i &&& vtInHomeBucketMask =
    t.metadata i &&& vtInHomeBucketMask := by
  simp only [disconnect, setMetadatum_metadata]
  split
  · rename_i hi
    rw [withDisplacement, link_inHome (isDisplacement_and _), hi]
  · rfl

theorem disconnect_same (hprev : t.displacement prev ≠ 0) (hb : t.displacement b ≠ 0) :
    SameEntries t (t.disconnect prev b) := by
  refine ⟨rfl, rfl, rfl, fun i => ?_⟩
  by_cases hi : i = prev
  · subst hi
    refine iff_of_false (ne_empty_of_displacement ?_) (ne_empty_of_displacement hprev)
    rwa [disconnect_displacement, if_pos rfl]
  · simp only [disconnect, setMetadatum_metadata, if_neg hi]

/-- Taking a key off its chain. -/
theorem disconnect_cells (hw : t.cells.Wf (scheme hashFn t.bucketsMask) chains)
    (hp : p ∈ chains h) (hx : x ∈ chains h) (hlink : t.displacement (t.slot h p) = x) :
    ((t.disconnect (t.slot h p) (t.slot h x)).cells (some (t.slot h x))).Wf
      (scheme hashFn t.bucketsMask) fun h' => {d | d ∈ chains h' ∧ ¬(h' = h ∧ d = x)} := by
  have hsame := disconnect_same (used_displacement hw (hw.slot_used hp))
    (used_displacement hw (hw.slot_used hx))
  refine (hw.unlink hp hx hlink).congr (fun i => ?_) (fun i => ?_)
    (fun i _ => disconnect_displacement) fun _ _ => rfl
  · constructor
    · rintro ⟨hi, hm, ho⟩
      exact ⟨fun hb => ho (hb ▸ rfl), hi, (hsame.empty i).not.mp hm, Option.some_ne_none i⟩
    · rintro ⟨hb, hi, hm, -⟩
      exact ⟨hi, (hsame.empty i).not.mpr hm, fun ho => hb (Option.some.inj ho)⟩
  · exact and_congr_right' (not_congr (iff_of_eq (congrArg (· = 0) disconnect_inHome)))

/-- Where a new key goes that is not at home: an empty bucket, after a key of its chain. -/
theorem placeKey_ok (hw : (t.cells out).Wf (scheme hashFn t.bucketsMask) chains)
    (h0 : 0 ∈ chains h) (hs : t.findFirstEmpty h = some (e, x)) :
    x < vtDisplacementLimit ∧ e = t.slot h x ∧ t.metadata (t.slot h x) = vtEmpty ∧
      ∃ p ∈ chains h, p < x ∧ x < t.displacement (t.slot h p) ∧
        t.findInsertLocationInChain h x = .ok (t.slot h p) := by
  obtain ⟨hx0, hx, rfl, hempty⟩ := findFirstEmpty_some hs
  exact ⟨hx, rfl, hempty, findInsertLocation_ok hw rfl h0 hx0 hx fun hmem =>
    (hw.slot_used hmem).2.1 hempty⟩

theorem linkKey_inUse (hne : prev ≠ e) (hf : IsHashfrag f) (hd : d ≤ vtDisplacementLimit)
    (hd0 : d ≠ 0) (hprev : t.displacement prev ≠ 0) (he : e ≤ t.bucketsMask) :
    (t.linkKey prev e d f key val).inUse = Insert.insert e t.inUse := by
  ext i
  rw [Finset.mem_insert, mem_inUse, mem_inUse, linkKey_ne_empty hne hf hd hd0 hprev]
  change i ≤ t.bucketsMask ∧ _ ↔ _
  constructor
  · rintro ⟨hi, rfl | hm⟩
    · exact .inl rfl
    · exact .inr ⟨hi, hm⟩
  · rintro (rfl | ⟨hi, hm⟩)
    · exact ⟨he, .inl rfl⟩
    · exact ⟨hi, .inr hm⟩

theorem linkKey_above (hne : prev ≠ e) (hprev : prev ≤ t.bucketsMask) (he : e ≤ t.bucketsMask)
    (hi : t.bucketsMask < i) : (t.linkKey prev e d f key val).metadata i = t.metadata i := by
  rw [linkKey_metadata hne, if_neg (by omega), if_neg (by omega)]

theorem holds_but {k : κ} {w : ν} :
    (t.cells (some b)).Holds i k w ↔ t.Holds i k w ∧ i ≠ b := by
  constructor
  · rintro ⟨⟨hi, hm, ho⟩, he⟩
    exact ⟨⟨⟨hi, hm, Option.some_ne_none i⟩, he⟩, fun hib => ho (hib ▸ rfl)⟩
  · rintro ⟨⟨⟨hi, hm, -⟩, he⟩, hne⟩
    exact ⟨⟨hi, hm, fun ho => hne (Option.some.inj ho)⟩, he⟩

/-- The key in `b`, which is on no chain, finds another bucket, unless none within the
displacement limit is empty. -/
theorem moveKey_ok (hc : (t.cells (some b)).Wf (scheme hashFn t.bucketsMask) chains)
    (hsize : ∃ n, t.bucketsMask + 1 = 2 ^ n ∧ (n = 0 ∨ 3 ≤ n)) (h0 : 0 ∈ chains h)
    (hb : t.Holds b key val) (hh : t.homeBucket hashFn key = h)
    (hkeys : ∀ i w, t.Holds i key w → i = b)
    (hfrag : ∀ i k w, t.Holds i k w → t.metadata i &&& vtHashFragMask = vtHashfrag (hashFn k)) :
    ∃ moved t', t.moveKey h b key val = .ok (moved, t') ∧
      (moved = true → Vacated hashFn t t' b) ∧
      (moved = false → t' = t ∧
        (t.inUse.card < t.bucketsMask + 1 → vtDisplacementLimit ≤ t.inUse.card)) := by
  unfold moveKey
  cases hempty : t.findFirstEmpty h with
  | none =>
    refine ⟨false, t, rfl, fun hm => absurd hm Bool.false_ne_true,
      fun _ => ⟨rfl, fun hroom => ?_⟩⟩
    obtain ⟨n, hn, -⟩ := hsize
    by_contra hfew
    exact findFirstEmpty_ne_none hn hroom (Nat.not_le.mp hfew) (hc.slot_used h0).2.1 hempty
  | some place =>
    obtain ⟨e, y⟩ := place
    obtain ⟨hy, rfl, hye, q, hq, hqy, hyl, hloc⟩ := placeKey_ok hc h0 hempty
    have hqu := hc.slot_used hq
    have hq0 : t.displacement (t.slot h q) ≠ 0 := used_displacement hc hqu
    have hne : t.slot h q ≠ t.slot h y := fun heq => by
      have hqm : t.metadata (t.slot h q) ≠ vtEmpty := hqu.2.1
      exact hqm (heq ▸ hye)
    have hnew : ∀ i w, ¬(t.cells (some b)).Holds i key w := fun i w hi =>
      (holds_but.mp hi).2 (hkeys i w (holds_but.mp hi).1)
    have hout : ∀ i, some b = some i → t.metadata i ≠ vtEmpty := fun i hi =>
      Option.some.inj hi ▸ hb.1.2.1
    obtain ⟨hc', hcontents⟩ := linkKey_cells val hc hout hh.symm hq hqy hyl hy hye hnew
      (isHashfrag_and (t.metadata b))
    refine ⟨true, _, bind_ok.mpr ⟨_, hloc, rfl⟩, fun _ => ?_,
      fun hm => absurd hm.symm Bool.false_ne_true⟩
    refine ⟨hc', rfl, rfl, fun i j w hi => ?_, fun j w => ?_, ?_, fun i hi => ?_⟩
    · rw [linkKey_hashfrag hne (isHashfrag_and _) hy.le]
      rcases (hcontents i j w).mp hi with ⟨rfl, rfl, rfl⟩ | hi
      · rw [if_pos rfl]
        exact hfrag b j w hb
      · have hi := (holds_but.mp hi).1
        have hie : i ≠ t.slot h y := fun heq => hi.1.2.1 (heq ▸ hye)
        rw [if_neg hie]
        exact hfrag i j w hi
    · constructor
      · rintro ⟨i, hi⟩
        rcases (hcontents i j w).mp hi with ⟨-, rfl, rfl⟩ | hi
        · exact ⟨b, hb⟩
        · exact ⟨i, (holds_but.mp hi).1⟩
      · rintro ⟨i, hi⟩
        by_cases hib : i = b
        · subst hib
          obtain ⟨rfl, rfl⟩ := Prod.mk.inj (Option.some.inj (hi.2.symm.trans hb.2))
          exact ⟨_, (hcontents _ _ _).mpr (.inl ⟨rfl, rfl, rfl⟩)⟩
        · exact ⟨i, (hcontents i j w).mpr (.inr (holds_but.mpr ⟨hi, hib⟩))⟩
    · have hbu : b ∈ t.inUse := mem_inUse.mpr ⟨hb.1.1, hb.1.2.1⟩
      rw [linkKey_inUse hne (isHashfrag_and _) hy.le (by omega) hq0 (slot_le t h y),
        Finset.insert_eq_of_mem (Finset.mem_insert_of_mem hbu),
        Finset.card_insert_of_notMem fun hm => (mem_inUse.mp hm).2 hye]
    · rw [linkKey_above hne (slot_le t h q) (slot_le t h y) hi]

theorem SameEntries.vacated {t₁ : VtTable κ ν} (hs : SameEntries t t₁)
    (hv : Vacated hashFn t₁ t' b) : Vacated hashFn t t' b where
  chained := hs.mask ▸ hv.chained
  mask := hv.mask.trans hs.mask
  count := hv.count.trans hs.count
  hashfrag := hv.hashfrag
  contents k w := (hv.contents k w).trans (exists_congr fun _ => hs.holds)
  card := hs.inUse ▸ hv.card
  above i hi := (hv.above i (hs.mask ▸ hi)).trans (hs.empty i)

/-- A bucket is vacated, unless no bucket within the displacement limit is empty. The keys
are all there even then. -/
theorem evict_ok (hw : t.Wf hashFn) (hb : b ≤ t.bucketsMask) (hused : t.metadata b ≠ vtEmpty)
    (hhome : t.metadata b &&& vtInHomeBucketMask = 0) :
    ∃ moved t', t.evict hashFn b = .ok (moved, t') ∧
      (moved = true → Vacated hashFn t t' b) ∧
      (moved = false → SameEntries t t' ∧
        (t.inUse.card < t.bucketsMask + 1 → vtDisplacementLimit ≤ t.inUse.card)) := by
  obtain ⟨chains, hc⟩ := hw.chained
  have hub : t.cells.used b := ⟨hb, hused, Option.some_ne_none b⟩
  obtain ⟨h, x, hx, rfl⟩ := (hc.used b).mp hub
  change t.metadata (t.slot h x) &&& vtInHomeBucketMask = 0 at hhome
  obtain ⟨k, v, hk, hh⟩ := stored_at hc rfl hx
  have hx0 : x ≠ 0 := fun h0 => ((hc.head_iff hx).mpr h0).2 hhome
  have h0 := hc.first h x hx
  obtain ⟨p, hp, -, hlink⟩ := hc.exists_prev hx h0 (Nat.pos_of_ne_zero hx0)
  have hc₁ := disconnect_cells hc hp hx hlink
  have hsame := disconnect_same (used_displacement hc (hc.slot_used hp))
    (used_displacement hc hub)
  have hholds : (t.disconnect (t.slot h p) (t.slot h x)).Holds (t.slot h x) k v :=
    hsame.holds.mpr ⟨hub, hk⟩
  obtain ⟨moved, t', hmove, hmoved, hstuck⟩ := moveKey_ok
    (t := t.disconnect (t.slot h p) (t.slot h x)) hc₁ hw.size ⟨h0, fun heq => hx0 heq.2.symm⟩ hholds hh
    (fun i w hi => hw.keys i _ k w v (hsame.holds.mp hi) ⟨hub, hk⟩)
    fun i j w hi => disconnect_hashfrag.trans (hw.hashfrag i j w (hsame.holds.mp hi))
  refine ⟨moved, t', ?_, fun hm => hsame.vacated (hmoved hm), fun hm => ?_⟩
  · subst hh
    exact bind_ok.mpr ⟨(k, v), readBucket_ok hk,
      bind_ok.mpr ⟨_, findPrev_ok hc rfl hp hx hlink, hmove⟩⟩
  · obtain ⟨rfl, hfull⟩ := hstuck hm
    have hin : (t.disconnect (t.slot h p) (t.slot h x)).inUse = t.inUse := hsame.inUse
    exact ⟨hsame, hin ▸ hfull⟩

/-- What the chains say of the entries need not be said again. -/
theorem Wf.of_chained {mask : Nat} (hmask : t.bucketsMask = mask)
    (hsize : ∃ n, t.bucketsMask + 1 = 2 ^ n ∧ (n = 0 ∨ 3 ≤ n))
    (hc : ∃ chains, t.cells.Wf (scheme hashFn mask) chains)
    (hfrag : ∀ b k w, t.Holds b k w → t.metadata b &&& vtHashFragMask = vtHashfrag (hashFn k))
    (hcount : t.keyCount = t.inUse.card) (hload : exceedsMaxLoad t.keyCount t.bucketCount = false)
    (hstop : t.bucketsMask ≠ 0 → t.metadata (t.bucketsMask + 1) ≠ vtEmpty) : t.Wf hashFn where
  size := hsize
  entry b hb := by
    subst hmask
    obtain ⟨chains, hc⟩ := hc
    obtain ⟨h, d, hd, rfl⟩ := (hc.used b).mp hb
    obtain ⟨k, v, hk, -⟩ := stored_at hc rfl hd
    exact ⟨k, v, hk⟩
  keys := by
    obtain ⟨chains, hc⟩ := hc
    exact hc.keys
  count := hcount
  load := hload
  stopper := hstop
  chained := hmask ▸ hc
  hashfrag := hfrag

/-- A new key has been stored, at the iterator. -/
structure Inserted (hashFn : κ → BitVec 64) (t t' : VtTable κ ν) (itr : VtItr) (key : κ)
    (val : ν) : Prop where
  wf : t'.Wf hashFn
  mask : t'.bucketsMask = t.bucketsMask
  count : t'.keyCount = t.keyCount + 1
  at_itr : itr = t'.itr itr.metadatum (t'.homeBucket hashFn key)
  holds : t'.Holds itr.metadatum key val
  contents : ∀ k w, t'.Has k w ↔ (k = key ∧ w = val) ∨ t.Has k w

/-- An iterator to a bucket in use is not at the end. -/
theorem itr_not_end (hb : b ≤ t.bucketsMask) : (t.itr b h).isEnd = false :=
  beq_false_of_ne (Nat.lt_succ_of_le hb).ne

theorem storeHome_inUse (hh : h ≤ t.bucketsMask) :
    (t.storeHome h f key val).inUse = Insert.insert h t.inUse := by
  ext i
  rw [Finset.mem_insert, mem_inUse, mem_inUse, storeHome_ne_empty]
  change i ≤ t.bucketsMask ∧ _ ↔ _
  constructor
  · rintro ⟨hi, rfl | hm⟩
    · exact .inl rfl
    · exact .inr ⟨hi, hm⟩
  · rintro (rfl | ⟨hi, hm⟩)
    · exact ⟨hh, .inl rfl⟩
    · exact ⟨hi, .inr hm⟩

/-- What a table that has one more key must be shown to keep. -/
theorem Inserted.of_cells {u : VtTable κ ν} {itrBucket : Nat} (hw : t.Wf hashFn)
    (hmask : u.bucketsMask = t.bucketsMask)
    (hc : ∃ chains, u.cells.Wf (scheme hashFn t.bucketsMask) chains)
    (hfrag : ∀ b k w, u.Holds b k w → u.metadata b &&& vtHashFragMask = vtHashfrag (hashFn k))
    (hcard : u.inUse.card = t.inUse.card + 1)
    (hload : exceedsMaxLoad (t.keyCount + 1) t.bucketCount = false)
    (habove : ∀ i, t.bucketsMask < i → (u.metadata i = vtEmpty ↔ t.metadata i = vtEmpty))
    (hholds : u.Holds itrBucket key val)
    (hcontents : ∀ k w, u.Has k w ↔ (k = key ∧ w = val) ∨ t.Has k w) :
    Inserted hashFn t { u with keyCount := t.keyCount + 1 }
      (u.itr itrBucket (t.homeBucket hashFn key)) key val where
  wf := by
    refine Wf.of_chained hmask (hmask ▸ hw.size) hc hfrag ?_ ?_ fun h0 => ?_
    · exact (congrArg (· + 1) hw.count).trans hcard.symm
    · simp only [VtTable.bucketCount, hmask]
      exact hload
    · rw [hmask]
      exact (habove _ (Nat.lt_succ_self _)).not.mpr (hw.stopper (hmask ▸ h0))
  mask := hmask
  count := rfl
  at_itr := by simp only [itr, homeBucket, hmask]
  holds := hholds
  contents := hcontents

/-- Into the home bucket, once that is vacated. -/
theorem Vacated.insert (hw : t.Wf hashFn) (hv : Vacated hashFn t t' (t.homeBucket hashFn key))
    (hnew : ∀ w, ¬t.Has key w) (hload : exceedsMaxLoad (t.keyCount + 1) t.bucketCount = false) :
    Inserted hashFn t { t'.storeHome (t.homeBucket hashFn key) (vtHashfrag (hashFn key)) key val with
        keyCount := t'.keyCount + 1 }
      (t'.itr (t.homeBucket hashFn key) (t.homeBucket hashFn key)) key val := by
  obtain ⟨chains, hc⟩ := hv.chained
  have hmask := hv.mask
  have hb : t.homeBucket hashFn key ≤ t'.bucketsMask := hmask.symm ▸ home_le t key
  have hfree : ¬(t'.cells (some (t.homeBucket hashFn key))).used (t.homeBucket hashFn key) :=
    fun hu => hu.2.2 rfl
  obtain ⟨hc', hholds⟩ := storeHome_cells val (vtHashfrag (hashFn key))
    (t := t') (hmask.symm ▸ hc) (fun i hi ho => hi (Option.some.inj ho))
    (by simp only [homeBucket, hmask]) hfree
    fun i w hi => hnew w ((hv.contents key w).mp ⟨i, hi⟩)
  rw [hv.count]
  refine .of_cells hw hmask (hmask ▸ hc') (fun i k w hi => ?_) ?_ hload (fun i hi => ?_)
    ((hholds _ _ _).mpr (.inl ⟨rfl, rfl, rfl⟩)) fun k w => ?_
  · rw [storeHome_hashfrag (isHashfrag_vtHashfrag _)]
    rcases (hholds i k w).mp hi with ⟨rfl, rfl, -⟩ | hi
    · rw [if_pos rfl]
    · have hib : i ≠ t.homeBucket hashFn key := fun heq => hfree (heq ▸ hi.1)
      rw [if_neg hib]
      exact hv.hashfrag i k w hi
  · rw [storeHome_inUse hb, hv.card]
  · rw [storeHome_metadata, if_neg (by omega)]
    exact hv.above i hi
  · constructor
    · rintro ⟨i, hi⟩
      exact ((hholds i k w).mp hi).imp And.right fun hi => (hv.contents k w).mp ⟨i, hi⟩
    · rintro (⟨rfl, rfl⟩ | hh)
      · exact ⟨_, (hholds _ _ _).mpr (.inl ⟨rfl, rfl, rfl⟩)⟩
      · obtain ⟨i, hi⟩ := (hv.contents k w).mpr hh
        exact ⟨i, (hholds i k w).mpr (.inr hi)⟩

theorem exceedsMaxLoad_mono {keys keys' bucketCount : Nat}
    (h : exceedsMaxLoad keys bucketCount = true) (hle : keys ≤ keys') :
    exceedsMaxLoad keys' bucketCount = true := by
  simp only [exceedsMaxLoad, decide_eq_true_eq] at h ⊢
  exact h.trans_le (Nat.mul_le_mul_right _ hle)

theorem fits_of_le {keys keys' bucketCount : Nat} (h : exceedsMaxLoad keys' bucketCount = false)
    (hle : keys ≤ keys') : exceedsMaxLoad keys bucketCount = false :=
  Bool.eq_false_iff.mpr fun hover => Bool.eq_false_iff.mp h (exceedsMaxLoad_mono hover hle)

/-- Fewer keys than buckets, where the load is within its maximum. -/
theorem load_lt {keys bucketCount : Nat} (hl : exceedsMaxLoad (keys + 1) bucketCount = false) :
    keys + 1 < bucketCount := by
  unfold exceedsMaxLoad at hl
  have := of_decide_eq_false hl
  omega

theorem room (hw : t.Wf hashFn) (hload : exceedsMaxLoad (t.keyCount + 1) t.bucketCount = false) :
    t.inUse.card < t.bucketsMask + 1 := by
  have hlt := load_lt hload
  rw [← hw.count]
  unfold VtTable.bucketCount at hlt
  split at hlt <;> omega

/-- A new key has not been stored: the table is loaded to its maximum, or has more keys than
the displacement limit allows to rule out that every bucket below it is taken. -/
structure Refused (t t' : VtTable κ ν) : Prop where
  same : SameEntries t t'
  cause : t' = t ∧ exceedsMaxLoad (t.keyCount + 1) t.bucketCount = true ∨
    vtDisplacementLimit ≤ t.keyCount

/-- What the outcome of storing a new key may be. -/
def Stores (hashFn : κ → BitVec 64) (t : VtTable κ ν) (key : κ) (val : ν) (itr : VtItr)
    (t' : VtTable κ ν) : Prop :=
  Inserted hashFn t t' itr key val ∨ itr = .endItr ∧ Refused t t'

variable (val) in
theorem insertAtHome_ok (hw : t.Wf hashFn)
    (hhome : t.metadata (t.homeBucket hashFn key) &&& vtInHomeBucketMask = 0)
    (hnew : ∀ w, ¬t.Has key w) :
    ∃ itr t', t.insertAtHome hashFn key val = .ok (itr, t') ∧ Stores hashFn t key val itr t' := by
  unfold insertAtHome
  cases hload : exceedsMaxLoad (t.keyCount + 1) t.bucketCount with
  | true => exact ⟨_, _, rfl, .inr ⟨rfl, ⟨⟨rfl, rfl, rfl, fun _ => Iff.rfl⟩, .inl ⟨rfl, hload⟩⟩⟩⟩
  | false =>
    by_cases hempty : t.metadata (t.homeBucket hashFn key) = vtEmpty
    · refine ⟨_, _, ?_, .inl ((hw.vacated hempty).insert hw hnew hload)⟩
      simp only [Bool.false_eq_true, if_false, if_pos hempty]
      rfl
    · obtain ⟨moved, t', hev, hmoved, hstuck⟩ := evict_ok hw (home_le t key) hempty hhome
      cases moved with
      | true =>
        refine ⟨_, _, ?_, .inl ((hmoved rfl).insert hw hnew hload)⟩
        simp only [Bool.false_eq_true, if_false, if_neg hempty, hev]
        rfl
      | false =>
        obtain ⟨hsame, hfull⟩ := hstuck rfl
        refine ⟨.endItr, t', ?_, .inr ⟨rfl, hsame, .inr (hw.count ▸ hfull (room hw hload))⟩⟩
        simp only [Bool.false_eq_true, if_false, if_neg hempty, hev]
        rfl

variable (val) in
theorem insertInChain_ok (hw : t.Wf hashFn)
    (hhome : t.metadata (t.homeBucket hashFn key) &&& vtInHomeBucketMask ≠ 0)
    (hnew : ∀ w, ¬t.Has key w) :
    ∃ itr t', t.insertInChain hashFn key val = .ok (itr, t') ∧ Stores hashFn t key val itr t' := by
  obtain ⟨chains, hc⟩ := hw.chained
  have h0 := (hc.head _).mp ⟨home_le t key, hhome⟩
  unfold insertInChain
  dsimp only
  cases hload : exceedsMaxLoad (t.keyCount + 1) t.bucketCount with
  | true => exact ⟨_, _, rfl, .inr ⟨rfl, ⟨⟨rfl, rfl, rfl, fun _ => Iff.rfl⟩, .inl ⟨rfl, hload⟩⟩⟩⟩
  | false =>
    cases hempty : t.findFirstEmpty (t.homeBucket hashFn key) with
    | none =>
      refine ⟨_, _, rfl, .inr ⟨rfl, ⟨⟨rfl, rfl, rfl, fun _ => Iff.rfl⟩, .inr ?_⟩⟩⟩
      obtain ⟨n, hn, -⟩ := hw.size
      by_contra hfew
      exact findFirstEmpty_ne_none hn (room hw hload) (hw.count ▸ Nat.not_le.mp hfew)
        (hc.slot_used h0).2.1 hempty
    | some place =>
      obtain ⟨e, y⟩ := place
      obtain ⟨hy, rfl, hye, q, hq, hqy, hyl, hloc⟩ := placeKey_ok hc h0 hempty
      have hqu := hc.slot_used hq
      have hq0 := used_displacement hc hqu
      have hne : t.slot (t.homeBucket hashFn key) q ≠ t.slot (t.homeBucket hashFn key) y :=
        fun heq => by
          have hqm : t.metadata (t.slot (t.homeBucket hashFn key) q) ≠ vtEmpty := hqu.2.1
          exact hqm (heq ▸ hye)
      have hf := isHashfrag_vtHashfrag (hashFn key)
      obtain ⟨hc', hholds⟩ := linkKey_cells val hc (fun i hi => by cases hi) rfl hq hqy hyl
        hy hye (fun i w hi => hnew w ⟨i, hi⟩) hf
      refine ⟨_, _, bind_ok.mpr ⟨_, hloc, rfl⟩, .inl ?_⟩
      refine Inserted.of_cells (u := t.linkKey _ _ y (vtHashfrag (hashFn key)) key val) hw rfl hc'
        (fun i k w hi => ?_) ?_ hload (fun i hi => ?_) ((hholds _ _ _).mpr (.inl ⟨rfl, rfl, rfl⟩))
        fun k w => ?_
      · rw [linkKey_hashfrag hne hf hy.le]
        rcases (hholds i k w).mp hi with ⟨rfl, rfl, -⟩ | hi
        · rw [if_pos rfl]
        · have hie : i ≠ t.slot (t.homeBucket hashFn key) y := fun heq => hi.1.2.1 (heq ▸ hye)
          rw [if_neg hie]
          exact hw.hashfrag i k w hi
      · rw [linkKey_inUse hne hf hy.le (by omega) hq0 (slot_le _ _ _),
          Finset.card_insert_of_notMem fun hm => (mem_inUse.mp hm).2 hye]
      · rw [linkKey_above hne (slot_le _ _ _) (slot_le _ _ _) hi]
      · constructor
        · rintro ⟨i, hi⟩
          exact ((hholds i k w).mp hi).imp And.right fun hi => ⟨i, hi⟩
        · rintro (⟨rfl, rfl⟩ | ⟨i, hi⟩)
          · exact ⟨_, (hholds _ _ _).mpr (.inl ⟨rfl, rfl, rfl⟩)⟩
          · exact ⟨i, (hholds i k w).mpr (.inr hi)⟩

end Wg14Signals.VtTable
