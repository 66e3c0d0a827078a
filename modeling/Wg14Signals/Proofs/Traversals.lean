import Wg14Signals.VerstableMap
import Wg14Signals.Lib.Probing
import Wg14Signals.Proofs.Metadata

namespace Wg14Signals.VtTable
open Lib

variable {κ ν : Type} {hashFn : κ → BitVec 64} {t : VtTable κ ν} {c : Cells Nat κ ν}
  {chains : Nat → Set Nat} {h b d e p x : Nat} {key : κ} {val : ν}

theorem displacement_le (t : VtTable κ ν) (b : Nat) : t.displacement b ≤ vtDisplacementLimit := by
  unfold displacement
  rw [BitVec.toNat_and]
  exact Nat.and_le_right

theorem slot_le (t : VtTable κ ν) (h d : Nat) : t.slot h d ≤ t.bucketsMask := Nat.and_le_right

theorem nextIn (hw : c.Wf (scheme hashFn t.bucketsMask) chains) (hl : c.link = t.displacement)
    (hd : d ∈ chains h) :
    NextIn vtDisplacementLimit (chains h) d (t.displacement (t.slot h d)) :=
  hl ▸ hw.next h d hd

theorem stored_at (hw : c.Wf (scheme hashFn t.bucketsMask) chains) (he : c.entry = t.buckets)
    (hd : d ∈ chains h) :
    ∃ k v, t.buckets (t.slot h d) = some (k, v) ∧ t.homeBucket hashFn k = h :=
  he ▸ hw.entry h d hd

/-- A traversal of a chain the cells describe, from one of its keys on. -/
theorem traverse_ok {α : Type} {a : α} {test : Nat → Except VtFault (Option α)}
    (hw : c.Wf (scheme hashFn t.bucketsMask) chains) (hl : c.link = t.displacement)
    (hd : d ∈ chains h) (hx : x ∈ chains h) (hdx : d ≤ x)
    (hit : test (t.slot h x) = .ok (some a))
    (miss : ∀ y ∈ chains h, d ≤ y → y < x → test (t.slot h y) = .ok none) :
    t.traverse h (t.slot h d) test = .ok a := by
  have hlt : x - d < vtDisplacementLimit := (Nat.sub_le x d).trans_lt (hw.below h x hx)
  unfold traverse
  rw [← hl]
  exact hw.chase hx hit _ d hd hdx hlt miss

/-- A traversal of a whole chain. -/
theorem traverse_from_home {α : Type} {a : α} {test : Nat → Except VtFault (Option α)}
    (hw : c.Wf (scheme hashFn t.bucketsMask) chains) (hl : c.link = t.displacement)
    (hx : x ∈ chains h) (hit : test (t.slot h x) = .ok (some a))
    (miss : ∀ y ∈ chains h, y < x → test (t.slot h y) = .ok none) :
    t.traverse h h test = .ok a := by
  have h0 := hw.first h x hx
  have hslot : t.slot h 0 = h := hw.slot_zero h0
  conv_lhs => arg 3; rw [← hslot]
  exact traverse_ok hw hl h0 hx (Nat.zero_le x) hit fun y hy _ => miss y hy

/-- Before a displacement on the chain, the links stay on the chain and do not pass it. -/
theorem link_before (hw : c.Wf (scheme hashFn t.bucketsMask) chains)
    (hl : c.link = t.displacement) (hy : d ∈ chains h) (hx : x ∈ chains h) (hlt : d < x) :
    t.displacement (t.slot h d) ∈ chains h ∧ t.displacement (t.slot h d) ≤ x := by
  have hn := nextIn hw hl hy
  have hle := hn.least x hx hlt
  refine ⟨hn.mem.resolve_left fun hstop => ?_, hle⟩
  have hbelow : x < vtDisplacementLimit := hw.below h x hx
  omega

theorem findPrev_ok (hw : c.Wf (scheme hashFn t.bucketsMask) chains)
    (hl : c.link = t.displacement) (hp : p ∈ chains h) (hx : x ∈ chains h)
    (hlink : t.displacement (t.slot h p) = x) :
    t.findPrev h (t.slot h x) = .ok (t.slot h p) := by
  refine traverse_from_home hw hl hp (by simp only [hlink, if_true]; rfl) fun y hy hyp => ?_
  obtain ⟨hmem, hle⟩ := link_before hw hl hy hp hyp
  have hpx : p < x := hlink ▸ (nextIn hw hl hp).lt
  rw [if_neg fun heq => ?_]
  · rfl
  · have := (hw.slot_inj hmem hx heq).2
    omega

theorem findInsertLocation_ok (hw : c.Wf (scheme hashFn t.bucketsMask) chains)
    (hl : c.link = t.displacement) (h0 : 0 ∈ chains h) (hx0 : x ≠ 0) (hx : x < vtDisplacementLimit)
    (hfree : x ∉ chains h) :
    ∃ p ∈ chains h, p < x ∧ x < t.displacement (t.slot h p) ∧
      t.findInsertLocationInChain h x = .ok (t.slot h p) := by
  obtain ⟨p, hp, hpx, hxl⟩ := hw.exists_around h0 hx0 hx hfree
  rw [hl] at hxl
  have hxl : x < t.displacement (t.slot h p) := hxl
  refine ⟨p, hp, hpx, hxl, traverse_from_home hw hl hp ?_ fun y hy hyp => ?_⟩
  · rw [if_pos hxl]
    rfl
  · have hle := (link_before hw hl hy hp hyp).2
    rw [if_neg (by omega)]
    rfl

/-- The last key of a chain and the one before it, from any other key on. -/
theorem findLast_ok (hw : c.Wf (scheme hashFn t.bucketsMask) chains)
    (hl : c.link = t.displacement) (hd : d ∈ chains h)
    (hlast : t.displacement (t.slot h d) ≠ vtDisplacementLimit) :
    ∃ p ∈ chains h, ∃ x ∈ chains h, d ≤ p ∧ t.displacement (t.slot h p) = x ∧
      t.displacement (t.slot h x) = vtDisplacementLimit ∧
      t.traverse h (t.slot h d) (fun prev =>
        let bucket := t.slot h (t.displacement prev)
        pure (if t.displacement bucket = vtDisplacementLimit then some (prev, bucket) else none)) =
        .ok (t.slot h p, t.slot h x) := by
  obtain ⟨x, hx, hdx, hstop⟩ := hw.exists_last hd
  rw [hl] at hstop
  have hstop : t.displacement (t.slot h x) = vtDisplacementLimit := hstop
  have hne : d ≠ x := fun heq => hlast (heq ▸ hstop)
  obtain ⟨p, hp, hdp, hlink⟩ := hw.exists_prev hx hd (by omega)
  rw [hl] at hlink
  have hlink : t.displacement (t.slot h p) = x := hlink
  refine ⟨p, hp, x, hx, hdp, hlink, hstop, traverse_ok hw hl hd hp hdp ?_ fun y hy _ hyp => ?_⟩
  · simp only [hlink, hstop, if_true]
    rfl
  · -- what follows `y` is not the last, for `x` comes after it
    obtain ⟨hmem, hle⟩ := link_before hw hl hy hp hyp
    have hpx : p < x := hlink ▸ (nextIn hw hl hp).lt
    have hbelow : x < vtDisplacementLimit := hw.below h x hx
    have hleast := (nextIn hw hl hmem).least x hx (by omega)
    simp only [if_neg (by omega : t.displacement (t.slot h (t.displacement (t.slot h y))) ≠
      vtDisplacementLimit)]
    rfl

theorem readBucket_ok (hb : t.buckets b = some (key, val)) : t.readBucket b = .ok (key, val) := by
  simp only [readBucket, hb]
  rfl

section Searching
variable [DecidableEq κ] {f : Metadatum} {k : κ} {v : ν}

theorem holdsKey_of_ne (hb : t.buckets b = some (k, v)) (hne : k ≠ key) :
    t.holdsKey f key b = .ok false := by
  have hkey : (k == key) = false := beq_false_of_ne hne
  unfold holdsKey
  rw [readBucket_ok hb]
  split
  · exact congrArg Except.ok hkey
  · rfl

theorem holdsKey_self (hb : t.buckets b = some (key, v))
    (hf : t.metadata b &&& vtHashFragMask = f) : t.holdsKey f key b = .ok true := by
  unfold holdsKey
  rw [readBucket_ok hb, if_pos hf]
  exact congrArg Except.ok (beq_self_eq_true key)

theorem findInChain_found (hw : c.Wf (scheme hashFn t.bucketsMask) chains)
    (hl : c.link = t.displacement) (he : c.entry = t.buckets) (hx : x ∈ chains h)
    (hb : t.buckets (t.slot h x) = some (key, val))
    (hf : t.metadata (t.slot h x) &&& vtHashFragMask = f)
    (hunique : ∀ y ∈ chains h, y ≠ x → ∀ v, t.buckets (t.slot h y) ≠ some (key, v)) :
    t.findInChain h f key = .ok (some (t.slot h x)) := by
  refine traverse_from_home hw hl hx (by rw [holdsKey_self hb hf]; rfl) fun y hy hyx => ?_
  obtain ⟨k, v, hk, -⟩ := stored_at hw he hy
  have hne : k ≠ key := fun heq => hunique y hy hyx.ne v (heq ▸ hk)
  have hle := (link_before hw hl hy hx hyx).2
  have hbelow : x < vtDisplacementLimit := hw.below h x hx
  rw [holdsKey_of_ne hk hne, if_neg (by omega)]
  rfl

theorem findInChain_absent (hw : c.Wf (scheme hashFn t.bucketsMask) chains)
    (hl : c.link = t.displacement) (he : c.entry = t.buckets) (h0 : 0 ∈ chains h)
    (habsent : ∀ y ∈ chains h, ∀ v, t.buckets (t.slot h y) ≠ some (key, v)) :
    t.findInChain h f key = .ok none := by
  obtain ⟨x, hx, -, hstop⟩ := hw.exists_last h0
  rw [hl] at hstop
  have hstop : t.displacement (t.slot h x) = vtDisplacementLimit := hstop
  have hmiss : ∀ y ∈ chains h, t.holdsKey f key (t.slot h y) = .ok false := by
    intro y hy
    obtain ⟨k, v, hk, -⟩ := stored_at hw he hy
    have hne : k ≠ key := fun heq => habsent y hy v (heq ▸ hk)
    exact holdsKey_of_ne hk hne
  refine traverse_from_home hw hl hx ?_ fun y hy hyx => ?_
  · rw [hmiss x hx, if_pos hstop]
    rfl
  · have hle := (link_before hw hl hy hx hyx).2
    have hbelow : x < vtDisplacementLimit := hw.below h x hx
    rw [hmiss y hy, if_neg (by omega)]
    rfl

end Searching

theorem vtQuadratic_succ (d : Nat) : vtQuadratic (d + 1) = vtQuadratic d + (d + 1) :=
  triangle_succ d

theorem findFirstEmptyFrom_some {left : Nat} :
    ∀ {d e x : Nat}, t.findFirstEmptyFrom h left d (vtQuadratic d) = some (e, x) →
      d ≤ x ∧ x < d + left ∧ e = t.slot h x ∧ t.metadata e = vtEmpty := by
  induction left with
  | zero => intro d e x hs; cases hs
  | succ left ih =>
    intro d e x hs
    unfold findFirstEmptyFrom at hs
    dsimp only at hs
    split at hs
    · rename_i hempty
      obtain ⟨rfl, rfl⟩ := Prod.mk.inj (Option.some.inj hs)
      exact ⟨Nat.le_refl _, by omega, rfl, hempty⟩
    · rw [← vtQuadratic_succ] at hs
      obtain ⟨hle, hlt, hrest⟩ := ih hs
      exact ⟨by omega, by omega, hrest⟩

theorem findFirstEmptyFrom_none {left : Nat} :
    ∀ {d : Nat}, t.findFirstEmptyFrom h left d (vtQuadratic d) = none →
      ∀ x, d ≤ x → x < d + left → t.metadata (t.slot h x) ≠ vtEmpty := by
  induction left with
  | zero => intro d _ x hd hx; omega
  | succ left ih =>
    intro d hs x hd hx
    unfold findFirstEmptyFrom at hs
    dsimp only at hs
    split at hs
    · cases hs
    · rename_i hfull
      rw [← vtQuadratic_succ] at hs
      rcases Nat.eq_or_lt_of_le hd with rfl | hlt
      · exact hfull
      · exact ih hs x hlt (by omega)

theorem findFirstEmpty_some (hs : t.findFirstEmpty h = some (e, x)) :
    x ≠ 0 ∧ x < vtDisplacementLimit ∧ e = t.slot h x ∧ t.metadata e = vtEmpty := by
  obtain ⟨hle, hlt, he, hempty⟩ := findFirstEmptyFrom_some hs
  have hlimit : 1 < vtDisplacementLimit := by decide
  exact ⟨by omega, by omega, he, hempty⟩

theorem mem_inUse : b ∈ t.inUse ↔ b ≤ t.bucketsMask ∧ t.metadata b ≠ vtEmpty := by
  simp [inUse, Nat.lt_succ_iff]

/-- The displacement limit is out of reach while fewer keys than it are stored. -/
theorem findFirstEmpty_ne_none {n : Nat} (hsize : t.bucketsMask + 1 = 2 ^ n)
    (hroom : t.inUse.card < t.bucketsMask + 1) (hfew : t.inUse.card < vtDisplacementLimit)
    (hhome : t.metadata (t.slot h 0) ≠ vtEmpty) : t.findFirstEmpty h ≠ none := by
  intro hnone
  have hslot : ∀ d, t.slot h d = (h + triangle d) % 2 ^ n := fun d => by
    rw [← Nat.and_two_pow_sub_one_eq_mod, ← hsize]
    rfl
  obtain ⟨d, hd, hfree⟩ := exists_free_probe h t.inUse
    (n := min (2 ^ n) vtDisplacementLimit) (Nat.min_le_left _ _)
    (Nat.lt_min.mpr ⟨hsize ▸ hroom, hfew⟩)
  rw [← hslot, mem_inUse, not_and, not_not] at hfree
  have hempty := hfree (slot_le t h d)
  have hd0 : d ≠ 0 := fun h0 => hhome (h0 ▸ hempty)
  exact findFirstEmptyFrom_none hnone d (Nat.pos_of_ne_zero hd0)
    (by have := (Nat.lt_min.mp hd).2; omega) hempty

end Wg14Signals.VtTable
