import Wg14Signals.Proofs.TableInserts

namespace Wg14Signals.VtTable
open Lib

variable {κ ν : Type} {hashFn : κ → BitVec 64} {t t' : VtTable κ ν} {b : Nat} {key : κ}
  {val w : ν} {m : κ → Option ν}

/-- A key the table holds stands on the chain of its home bucket. -/
theorem Wf.on_chain (hw : t.Wf hashFn) (hb : t.Holds b key w) :
    ∃ chains, t.cells.Wf (scheme hashFn t.bucketsMask) chains ∧
      ∃ x ∈ chains (t.homeBucket hashFn key), t.slot (t.homeBucket hashFn key) x = b := by
  obtain ⟨chains, hc⟩ := hw.chained
  exact ⟨chains, hc, hc.find hb⟩

theorem Wf.home_of_has (hw : t.Wf hashFn) (hk : t.Has key w) :
    t.metadata (t.homeBucket hashFn key) &&& vtInHomeBucketMask ≠ 0 := by
  obtain ⟨b, hb⟩ := hk
  obtain ⟨chains, hc, x, hx, -⟩ := hw.on_chain hb
  exact ((hc.head _).mpr (hc.first _ x hx)).2

theorem Wf.has_inj (hw : t.Wf hashFn) (hv : t.Has key val) (hv' : t.Has key w) : val = w := by
  obtain ⟨b, hb⟩ := hv
  obtain ⟨b', hb'⟩ := hv'
  obtain rfl := hw.keys b b' key val w hb hb'
  exact (Prod.mk.inj (Option.some.inj (hb.2.symm.trans hb'.2))).2

/-- The table holds one finite map. -/
theorem Wf.maps (hw : t.Wf hashFn) : ∃ m, t.Maps m := by
  classical
  refine ⟨fun key => if hk : ∃ val, t.Has key val then some hk.choose else none, fun key val => ?_⟩
  dsimp only
  constructor
  · intro hm
    split at hm
    · rename_i hk
      exact Option.some.inj hm ▸ hk.choose_spec
    · cases hm
  · intro hv
    have hk : ∃ val, t.Has key val := ⟨val, hv⟩
    rw [dif_pos hk, hw.has_inj hk.choose_spec hv]

theorem Maps.none_iff (hm : t.Maps m) : m key = none ↔ ∀ w, ¬t.Has key w := by
  rw [Option.eq_none_iff_forall_not_mem]
  exact forall_congr' fun w => not_congr (hm key w)

variable (val) in
/-- Another value for a key that is there. -/
theorem Wf.replace (hw : t.Wf hashFn) (hb : t.Holds b key w) :
    (t.setBucket b key val).Wf hashFn ∧ (t.setBucket b key val).Holds b key val ∧
      ∀ k v, (t.setBucket b key val).Has k v ↔ (k = key ∧ v = val) ∨ k ≠ key ∧ t.Has k v := by
  obtain ⟨chains, hc, x, hx, rfl⟩ := hw.on_chain hb
  have hholds : ∀ i k v, (t.setBucket (t.slot (t.homeBucket hashFn key) x) key val).Holds i k v ↔
      (i = t.slot (t.homeBucket hashFn key) x ∧ k = key ∧ v = val) ∨
        (i ≠ t.slot (t.homeBucket hashFn key) x ∧ t.Holds i k v) :=
    fun i k v => Cells.holds_refill hb.1
  refine ⟨Wf.of_chained rfl hw.size ⟨_, hc.refill (k := key) (v := val) hx fun i u hi =>
    hw.keys i _ key u w hi hb⟩ (fun i k v hi => ?_) hw.count hw.load hw.stopper,
    (hholds _ _ _).mpr (.inl ⟨rfl, rfl, rfl⟩), fun k v => ?_⟩
  · rcases (hholds i k v).mp hi with ⟨rfl, rfl, -⟩ | ⟨-, hi⟩
    · exact hw.hashfrag _ _ w hb
    · exact hw.hashfrag i k v hi
  · constructor
    · rintro ⟨i, hi⟩
      rcases (hholds i k v).mp hi with ⟨-, hk⟩ | ⟨hne, hi⟩
      · exact .inl hk
      · exact .inr ⟨fun hk => hne (hw.keys i _ key v w (hk ▸ hi) hb), i, hi⟩
    · rintro (⟨rfl, rfl⟩ | ⟨hne, i, hi⟩)
      · exact ⟨_, (hholds _ _ _).mpr (.inl ⟨rfl, rfl, rfl⟩)⟩
      · refine ⟨i, (hholds i k v).mpr (.inr ⟨fun heq => hne ?_, hi⟩)⟩
        subst heq
        exact (Prod.mk.inj (Option.some.inj (hi.2.symm.trans hb.2))).1

variable [DecidableEq κ]

theorem Wf.findInChain_found (hw : t.Wf hashFn) (hb : t.Holds b key w) :
    t.findInChain (t.homeBucket hashFn key) (vtHashfrag (hashFn key)) key = .ok (some b) := by
  obtain ⟨chains, hc, x, hx, rfl⟩ := hw.on_chain hb
  refine VtTable.findInChain_found hc rfl rfl hx hb.2 (hw.hashfrag _ key w hb) fun y hy hyx v hv => ?_
  have heq := hw.keys _ _ key v w ⟨hc.slot_used hy, hv⟩ hb
  exact hyx (hc.slot_inj hy hx heq).2

theorem Wf.findInChain_absent (hw : t.Wf hashFn)
    (hhome : t.metadata (t.homeBucket hashFn key) &&& vtInHomeBucketMask ≠ 0)
    (hnew : ∀ w, ¬t.Has key w) :
    t.findInChain (t.homeBucket hashFn key) (vtHashfrag (hashFn key)) key = .ok none := by
  obtain ⟨chains, hc⟩ := hw.chained
  exact VtTable.findInChain_absent hc rfl rfl ((hc.head _).mp ⟨home_le t key, hhome⟩)
    fun y hy v hv => hnew v ⟨_, hc.slot_used hy, hv⟩

/-- A lookup leads to the bucket that holds the key. -/
theorem Wf.get_found (hw : t.Wf hashFn) (hb : t.Holds b key w) :
    t.get hashFn key = .ok (t.itr b (t.homeBucket hashFn key)) := by
  unfold get
  dsimp only
  rw [if_neg (hw.home_of_has ⟨b, hb⟩), hw.findInChain_found hb]
  rfl

theorem Wf.get_absent (hw : t.Wf hashFn) (hnew : ∀ w, ¬t.Has key w) :
    t.get hashFn key = .ok .endItr := by
  unfold get
  dsimp only
  split
  · rfl
  · rename_i hhome
    rw [hw.findInChain_absent hhome hnew]
    rfl

/-- What an insertion does to a key that may be there already. -/
inductive Outcome (hashFn : κ → BitVec 64) (t : VtTable κ ν) (key : κ) (val : ν) (replace : Bool)
    (itr : VtItr) (t' : VtTable κ ν) : Prop where
  | new (absent : ∀ w, ¬t.Has key w) (stores : Stores hashFn t key val itr t')
  | found (b : Nat) (w : ν) (holds : t.Holds b key w)
      (at_itr : itr = t.itr b (t.homeBucket hashFn key))
      (kept : t' = if replace then t.setBucket b key val else t)

variable (key val) in
theorem insertRaw_ok (hw : t.Wf hashFn) (unique replace : Bool)
    (hunique : unique = true → ∀ w, ¬t.Has key w) :
    ∃ itr t', t.insertRaw hashFn key val unique replace = .ok (itr, t') ∧
      Outcome hashFn t key val replace itr t' := by
  by_cases hk : ∃ w, t.Has key w
  · obtain ⟨w, b, hb⟩ := hk
    have hu : unique = false := Bool.eq_false_iff.mpr fun hu => hunique hu w ⟨b, hb⟩
    subst hu
    refine ⟨_, _, ?_, .found b w hb rfl rfl⟩
    unfold insertRaw
    dsimp only
    rw [if_neg (hw.home_of_has ⟨b, hb⟩), if_neg Bool.false_ne_true]
    exact bind_ok.mpr ⟨some b, hw.findInChain_found hb, rfl⟩
  · have hnew := not_exists.mp hk
    by_cases hhome : t.metadata (t.homeBucket hashFn key) &&& vtInHomeBucketMask = 0
    · obtain ⟨itr, t', hrun, hstores⟩ := insertAtHome_ok val hw hhome hnew
      refine ⟨itr, t', ?_, .new hnew hstores⟩
      unfold insertRaw
      dsimp only
      rw [if_pos hhome, hrun]
    · obtain ⟨itr, t', hrun, hstores⟩ := insertInChain_ok val hw hhome hnew
      refine ⟨itr, t', ?_, .new hnew hstores⟩
      unfold insertRaw
      dsimp only
      rw [if_neg hhome, hw.findInChain_absent hhome hnew]
      split
      · exact bind_ok.mpr ⟨none, rfl, hrun⟩
      · exact bind_ok.mpr ⟨none, rfl, hrun⟩

end Wg14Signals.VtTable
