import Wg14Signals.Proofs.TableErase
import Wg14Signals.Proofs.TableRehash

namespace Wg14Signals.VtTable
open Lib

variable {κ ν : Type} {hashFn : κ → BitVec 64} {t u : VtTable κ ν} {b i : Nat} {key : κ}
  {val : ν} {itr : VtItr} {l : List (κ × ν)} {m : κ → Option ν}

/-- The first of four metadata that are not all zero. -/
theorem vtFirstNonzeroUint16_ok {metadata : Nat → Metadatum}
    (hne : ¬(metadata i = 0 ∧ metadata (i + 1) = 0 ∧ metadata (i + 2) = 0 ∧ metadata (i + 3) = 0)) :
    metadata (i + vtFirstNonzeroUint16 metadata i) ≠ 0 ∧
      ∀ j, i ≤ j → j < i + vtFirstNonzeroUint16 metadata i → metadata j = 0 := by
  unfold vtFirstNonzeroUint16
  dsimp only
  by_cases hfirst : metadata i = 0 ∧ metadata (i + 1) = 0
  · rw [if_pos hfirst]
    by_cases h2 : metadata (i + 2) = 0
    · rw [if_pos h2]
      refine ⟨fun h3 => hne ⟨hfirst.1, hfirst.2, h2, h3⟩, fun j hij hj => ?_⟩
      obtain rfl | rfl | rfl : j = i ∨ j = i + 1 ∨ j = i + 2 := by omega
      · exact hfirst.1
      · exact hfirst.2
      · exact h2
    · rw [if_neg h2]
      refine ⟨h2, fun j hij hj => ?_⟩
      obtain rfl | rfl : j = i ∨ j = i + 1 := by omega
      · exact hfirst.1
      · exact hfirst.2
  · rw [if_neg hfirst, Nat.add_zero]
    by_cases h0 : metadata i = 0
    · rw [if_pos h0]
      refine ⟨fun h1 => hfirst ⟨h0, h1⟩, fun j hij hj => ?_⟩
      obtain rfl : j = i := by omega
      exact h0
    · rw [if_neg h0]
      exact ⟨h0, fun j hij hj => by omega⟩

/-- On to the first bucket in use, or to the stopper. -/
theorem fastForward_ok (hstop : t.metadata (t.bucketsMask + 1) ≠ vtEmpty) (fuel : Nat) :
    ∀ itr : VtItr, itr.metadatum ≤ t.bucketsMask + 1 → t.bucketsMask + 1 - itr.metadatum < fuel →
      ∃ j, itr.metadatum ≤ j ∧ j ≤ t.bucketsMask + 1 ∧ t.metadata j ≠ vtEmpty ∧
        (∀ i, itr.metadatum ≤ i → i < j → t.metadata i = vtEmpty) ∧
        t.fastForward fuel itr = .ok { itr with metadatum := j, homeBucket := none } := by
  induction fuel with
  | zero => intro itr _ hf; omega
  | succ fuel ih =>
    intro itr hle hf
    unfold fastForward
    dsimp only
    rw [if_neg (by omega)]
    by_cases hzero : t.metadata itr.metadatum = 0 ∧ t.metadata (itr.metadatum + 1) = 0 ∧
        t.metadata (itr.metadatum + 2) = 0 ∧ t.metadata (itr.metadatum + 3) = 0
    · have hfour : ∀ i, itr.metadatum ≤ i → i < itr.metadatum + 4 → t.metadata i = vtEmpty := by
        intro i hi hi4
        obtain rfl | rfl | rfl | rfl : i = itr.metadatum ∨ i = itr.metadatum + 1 ∨
            i = itr.metadatum + 2 ∨ i = itr.metadatum + 3 := by omega
        · exact hzero.1
        · exact hzero.2.1
        · exact hzero.2.2.1
        · exact hzero.2.2.2
      have hbefore : itr.metadatum + 4 ≤ t.bucketsMask + 1 := by
        by_contra hcon
        exact hstop (hfour _ hle (by omega))
      rw [if_pos hzero]
      obtain ⟨j, hj, hj', hne, hgap, hrun⟩ := ih { itr with metadatum := itr.metadatum + 4 } hbefore
        (by dsimp only; omega)
      refine ⟨j, by dsimp only at hj; omega, hj', hne, fun i hi hij => ?_, hrun⟩
      by_cases hi4 : i < itr.metadatum + 4
      · exact hfour i hi hi4
      · exact hgap i (Nat.not_lt.mp hi4) hij
    · rw [if_neg hzero]
      obtain ⟨hne, hgap⟩ := vtFirstNonzeroUint16_ok hzero
      refine ⟨_, Nat.le_add_right _ _, ?_, hne, hgap, rfl⟩
      by_contra hcon
      exact hstop (hgap _ hle (Nat.not_le.mp hcon))

/-- An iterator of a loop over the table. -/
structure Positioned (hashFn : κ → BitVec 64) (t : VtTable κ ν) (itr : VtItr) : Prop where
  allocated : t.bucketsMask ≠ 0
  at_end : itr.metadataEnd = t.bucketsMask + 1
  le : itr.metadatum ≤ t.bucketsMask + 1
  used : t.metadata itr.metadatum ≠ vtEmpty
  home : ∀ h, itr.homeBucket = some h → ∀ k v, t.Holds itr.metadatum k v →
    h = t.homeBucket hashFn k

/-- The key and value are in a bucket that an iteration has yet to reach. -/
def Ahead (t : VtTable κ ν) (b : Nat) (key : κ) (val : ν) : Prop := ∃ i, b ≤ i ∧ t.Holds i key val

/-- A loop goes on from a bucket to the first one in use. -/
theorem advance_ok (hw : t.Wf hashFn) (h0 : t.bucketsMask ≠ 0) (start : VtItr)
    (hend : start.metadataEnd = t.bucketsMask + 1) (hle : start.metadatum ≤ t.bucketsMask + 1) :
    ∃ itr, t.fastForward (t.bucketCount + 1) start = .ok itr ∧ Positioned hashFn t itr ∧
      ∀ k v, Ahead t itr.metadatum k v ↔ Ahead t start.metadatum k v := by
  obtain ⟨j, hj, hj', hne, hgap, hrun⟩ := fastForward_ok (hw.stopper h0) (t.bucketCount + 1) start hle
    (by rw [bucketCount_of_mask h0]; omega)
  refine ⟨_, hrun, ⟨h0, hend, hj', hne, fun h hh => by cases hh⟩, fun k v => ?_⟩
  constructor
  · rintro ⟨i, hi, hh⟩
    exact ⟨i, hj.trans hi, hh⟩
  · rintro ⟨i, hi, hh⟩
    refine ⟨i, Nat.not_lt.mp fun hij => hh.1.2.1 (hgap i hi hij), hh⟩

variable [DecidableEq κ]

/-- Past the key at the iterator, and on to what is ahead of it. -/
theorem sweepOn_ok (hw : t.Wf hashFn) (hp : Positioned hashFn t itr)
    (hb : t.Holds itr.metadatum key val) (kept : Bool) :
    ∃ itr' u, t.sweepOn hashFn itr kept = .ok (itr', u) ∧ u.Wf hashFn ∧ Positioned hashFn u itr' ∧
      u.bucketsMask = t.bucketsMask ∧ (∀ k v, Ahead u itr'.metadatum k v ↔ k ≠ key ∧ Ahead t itr.metadatum k v) ∧
      ∀ k v, u.Has k v ↔ t.Has k v ∧ (k = key → kept = true) := by
  have hlt : itr.metadatum ≤ t.bucketsMask := hb.1.1
  cases kept with
  | true =>
    obtain ⟨itr', hrun, hp', hahead⟩ := advance_ok hw hp.allocated
      { itr with metadatum := itr.metadatum + 1 } hp.at_end (by dsimp only; omega)
    refine ⟨itr', t, bind_ok.mpr ⟨_, hrun, rfl⟩, hw, hp', rfl, fun k v => (hahead k v).trans ?_,
      fun k v => (and_iff_left fun _ => rfl).symm⟩
    constructor
    · rintro ⟨i, hi, hh⟩
      change itr.metadatum + 1 ≤ i at hi
      refine ⟨?_, i, by omega, hh⟩
      rintro rfl
      have := hw.keys i _ k v val hh hb
      omega
    · rintro ⟨hne, i, hi, hh⟩
      refine ⟨i, Nat.lt_of_le_of_ne hi fun heq => hne ?_, hh⟩
      subst heq
      exact (Prod.mk.inj (Option.some.inj (hh.2.symm.trans hb.2))).1
  | false =>
    have hs : StandsAt hashFn t itr key val := ⟨hb, fun h hh => hp.home h hh key val hb⟩
    obtain ⟨advance, u, hrun, hu⟩ := eraseItrRaw_ok hw hs
    have h0 : u.bucketsMask ≠ 0 := hu.mask.symm ▸ hp.allocated
    have hend : itr.metadataEnd = u.bucketsMask + 1 := hp.at_end.trans (by rw [hu.mask])
    have hcontents : ∀ k v, u.Has k v ↔ t.Has k v ∧ (k = key → false = true) := fun k v => by
      rw [hu.contents, and_comm]
      simp
    cases advance with
    | true =>
      obtain ⟨itr', hnext, hp', hahead⟩ := advance_ok hu.wf h0
        { itr with metadatum := itr.metadatum + 1 } hend
        (by rw [hu.mask]; dsimp only; omega)
      exact ⟨itr', u, bind_ok.mpr ⟨_, hrun, (if_pos rfl).trans (bind_ok.mpr ⟨_, hnext, rfl⟩)⟩,
        hu.wf, hp', hu.mask, fun k v => (hahead k v).trans (hu.ahead k v), hcontents⟩
    | false =>
      -- the last key of the chain has come here
      obtain ⟨k', v', hk', hhome⟩ := hu.refilled rfl
      refine ⟨itr, u, bind_ok.mpr ⟨_, hrun, if_neg Bool.false_ne_true⟩, hu.wf,
        ⟨h0, hend, by rw [hu.mask]; exact hp.le, hk'.1.2.1, fun h hh k v hkv => ?_⟩, hu.mask,
        hu.ahead, hcontents⟩
      obtain ⟨rfl, -⟩ := Prod.mk.inj (Option.some.inj (hkv.2.symm.trans hk'.2))
      rw [hp.home h hh key val hb, ← hhome]
      simp only [homeBucket, hu.mask]

/-- From an iterator on, a loop visits what is ahead, each key once, and keeps what it is to
keep. -/
theorem sweepFrom_ok (keep : κ → ν → Bool) (fuel : Nat) :
    ∀ (t : VtTable κ ν) (itr : VtItr) (l : List (κ × ν)), t.Wf hashFn → Positioned hashFn t itr →
      (l.map Prod.fst).Nodup → (∀ k v, (k, v) ∈ l ↔ Ahead t itr.metadatum k v) → l.length < fuel →
      ∃ visited u, sweepFrom hashFn keep fuel t itr = .ok (visited, u) ∧ visited.Perm l ∧
        u.Wf hashFn ∧ u.bucketsMask = t.bucketsMask ∧
        ∀ k v, u.Has k v ↔ t.Has k v ∧ ((k, v) ∈ l → keep k v = true) := by
  induction fuel with
  | zero => intro t itr l _ _ _ _ hf; omega
  | succ fuel ih =>
    intro t itr l hw hp hnodup hl hf
    unfold sweepFrom
    by_cases hend : itr.metadatum = t.bucketsMask + 1
    · have hnil : l = [] := by
        rw [List.eq_nil_iff_forall_not_mem]
        rintro ⟨k, v⟩ hmem
        obtain ⟨i, hi, hh⟩ := (hl k v).mp hmem
        have := hh.1.1
        omega
      subst hnil
      refine ⟨[], t, if_pos (beq_iff_eq.mpr (hend.trans hp.at_end.symm)), .refl _, hw, rfl, fun k v => ?_⟩
      simp
    · have hlt : itr.metadatum ≤ t.bucketsMask := by
        have := hp.le
        omega
      have hused : t.cells.used itr.metadatum := ⟨hlt, hp.used, Option.some_ne_none _⟩
      obtain ⟨key, val, hk⟩ := hw.entry _ hused
      have hb : t.Holds itr.metadatum key val := ⟨hused, hk⟩
      have hisEnd : ¬itr.isEnd = true := fun h => hend ((beq_iff_eq.mp h).trans hp.at_end)
      -- what is ahead but for the key the iterator stands at
      obtain ⟨before, after, rfl⟩ := List.append_of_mem ((hl key val).mpr ⟨_, Nat.le_refl _, hb⟩)
      have hperm : (before ++ (key, val) :: after).Perm ((key, val) :: (before ++ after)) :=
        List.perm_middle
      have hnodup' := (hperm.map Prod.fst).nodup_iff.mp hnodup
      obtain ⟨hfresh, hrest⟩ := List.nodup_cons.mp hnodup'
      have hmem : ∀ k v, (k, v) ∈ before ++ after ↔ k ≠ key ∧ Ahead t itr.metadatum k v := by
        intro k v
        rw [← hl, hperm.mem_iff, List.mem_cons]
        constructor
        · intro hkv
          refine ⟨?_, .inr hkv⟩
          rintro rfl
          exact hfresh (List.mem_map.mpr ⟨_, hkv, rfl⟩)
        · rintro ⟨hne, heq | hkv⟩
          · exact absurd (Prod.mk.inj heq).1 hne
          · exact hkv
      have hlen : (before ++ after).length < fuel := by
        have := hperm.length_eq
        rw [List.length_cons] at this
        omega
      obtain ⟨itr', t', hon, hw', hp', hmask, hahead, hhas⟩ := sweepOn_ok hw hp hb (keep key val)
      have hl' : ∀ k v, (k, v) ∈ before ++ after ↔ Ahead t' itr'.metadatum k v := fun k v =>
        (hmem k v).trans (hahead k v).symm
      obtain ⟨visited, u, hsweep, hvisited, hu, hmask', hcontents⟩ :=
        ih t' itr' (before ++ after) hw' hp' hrest hl' hlen
      refine ⟨(key, val) :: visited, u, (if_neg hisEnd).trans (bind_ok.mpr ⟨_, readBucket_ok hk,
        bind_ok.mpr ⟨_, hon, bind_ok.mpr ⟨_, hsweep, rfl⟩⟩⟩), (hvisited.cons _).trans hperm.symm, hu,
        hmask'.trans hmask, fun k v => ?_⟩
      rw [hcontents, hhas, hperm.mem_iff, List.mem_cons, and_assoc]
      refine and_congr_right fun hkv => ?_
      constructor
      · rintro ⟨hkeep, hrest⟩ (heq | hmem)
        · obtain ⟨rfl, rfl⟩ := Prod.mk.inj heq
          exact hkeep rfl
        · exact hrest hmem
      · intro hall
        refine ⟨?_, fun hmem => hall (.inr hmem)⟩
        rintro rfl
        obtain rfl := hw.has_inj hkv ⟨_, hb⟩
        exact hall (.inl rfl)

/-- The keys and values of a table, in the order of its buckets. -/
def entries (t : VtTable κ ν) : List (κ × ν) :=
  (List.range t.bucketCount).filterMap fun b => if t.metadata b = vtEmpty then none else t.buckets b

omit [DecidableEq κ]

/-- The bucket an entry of the table is in. -/
theorem holds_of_entry (hb : b ∈ List.range t.bucketCount)
    (he : (if t.metadata b = vtEmpty then none else t.buckets b) = some (key, val)) :
    t.Holds b key val := by
  split at he
  · cases he
  · rename_i hne
    exact ⟨⟨le_of_mem_range hb, hne, Option.some_ne_none b⟩, he⟩

theorem mem_entries (ht : Stored t) : (key, val) ∈ t.entries ↔ t.Has key val := by
  rw [entries, List.mem_filterMap]
  constructor
  · rintro ⟨b, hb, he⟩
    exact ⟨b, holds_of_entry hb he⟩
  · rintro ⟨b, hb⟩
    exact ⟨b, List.mem_range.mpr (ht.holds_lt hb), (if_neg hb.1.2.1).trans hb.2⟩

theorem length_entries (ht : Stored t) : t.entries.length = t.keyCount := by
  rw [← ht.countP_range, entries, List.length_filterMap_eq_countP]
  refine List.countP_congr fun b hb => ?_
  split
  · rename_i hempty
    simp [hempty]
  · rename_i hne
    obtain ⟨k, v, hk⟩ := ht.entry b ⟨le_of_mem_range hb, hne, Option.some_ne_none b⟩
    simp [hk, hne]

theorem nodup_entries (ht : Stored t) : (t.entries.map Prod.fst).Nodup := by
  rw [List.Nodup, List.pairwise_map, entries, List.pairwise_filterMap]
  refine List.nodup_range.imp_of_mem fun {b b'} hb hb' hne => ?_
  rintro ⟨k, v⟩ he ⟨k', v'⟩ he' rfl
  exact hne (ht.keys b b' k v v' (holds_of_entry hb he) (holds_of_entry hb' he'))

variable [DecidableEq κ]

/-- A loop over the table visits every key once, and keeps those it is to keep. -/
theorem sweep_ok (hw : t.Wf hashFn) (keep : κ → ν → Bool) :
    ∃ visited u, t.sweep hashFn keep = .ok (visited, u) ∧ visited.Perm t.entries ∧
      u.Wf hashFn ∧ u.bucketsMask = t.bucketsMask ∧
      ∀ k v, u.Has k v ↔ t.Has k v ∧ keep k v = true := by
  by_cases h0 : t.keyCount = 0
  · have hnil : t.entries = [] := List.eq_nil_of_length_eq_zero ((length_entries hw.toStored).trans h0)
    rw [hnil]
    refine ⟨[], t, bind_ok.mpr ⟨.endItr, if_pos h0, rfl⟩, .refl _, hw, rfl, fun k v => ?_⟩
    exact iff_of_false (hw.not_has h0) fun h => hw.not_has h0 h.1
  · have hmask : t.bucketsMask ≠ 0 := fun h => h0 (hw.keyCount_zero h)
    obtain ⟨itr, hrun, hp, hahead⟩ := advance_ok hw hmask
      ⟨0, t.bucketsMask + 1, none⟩ rfl (Nat.zero_le _)
    have hall : ∀ k v, (k, v) ∈ t.entries ↔ Ahead t itr.metadatum k v := fun k v => by
      rw [hahead, mem_entries hw.toStored]
      exact exists_congr fun i => (and_iff_right (Nat.zero_le i)).symm
    have hlen : t.entries.length < t.keyCount + 1 :=
      Nat.lt_succ_of_le (length_entries hw.toStored).le
    obtain ⟨visited, u, hsweep, hperm, hu, hmask', hcontents⟩ := sweepFrom_ok keep (t.keyCount + 1) t itr
      t.entries hw hp (nodup_entries hw.toStored) hall hlen
    refine ⟨visited, u, bind_ok.mpr ⟨itr, (if_neg h0).trans hrun, hsweep⟩, hperm, hu, hmask', fun k v => ?_⟩
    rw [hcontents, mem_entries hw.toStored]
    exact and_congr_right fun h => ⟨fun hk => hk h, fun hk _ => hk⟩

end Wg14Signals.VtTable
