import Wg14Signals.Verstable

namespace Wg14Signals

variable {m d f : Metadatum} {i n : Nat}

theorem getElem_displacementMask (hi : i < 16) : vtDisplacementMask[i] = decide (i < 11) := by
  revert i
  decide

theorem getElem_inHomeBucketMask (hi : i < 16) : vtInHomeBucketMask[i] = decide (i = 11) := by
  revert i
  decide

theorem getElem_hashFragMask (hi : i < 16) : vtHashFragMask[i] = decide (12 ≤ i) := by
  revert i
  decide

/-- The value is nothing but a displacement. -/
def IsDisplacement (d : Metadatum) : Prop := d &&& vtDisplacementMask = d

/-- The value is nothing but a fragment of a hash. -/
def IsHashfrag (f : Metadatum) : Prop := f &&& vtHashFragMask = f

theorem isDisplacement_and (m : Metadatum) : IsDisplacement (m &&& vtDisplacementMask) := by
  rw [IsDisplacement, BitVec.and_assoc, BitVec.and_self]

theorem isHashfrag_and (m : Metadatum) : IsHashfrag (m &&& vtHashFragMask) := by
  rw [IsHashfrag, BitVec.and_assoc, BitVec.and_self]

theorem isHashfrag_vtHashfrag (hash : BitVec 64) : IsHashfrag (vtHashfrag hash) :=
  isHashfrag_and _

theorem toNat_ofNat (hn : n ≤ vtDisplacementLimit) : (BitVec.ofNat 16 n).toNat = n := by
  unfold vtDisplacementLimit at hn
  rw [BitVec.toNat_ofNat]
  exact Nat.mod_eq_of_lt (by omega)

theorem isDisplacement_ofNat (hn : n ≤ vtDisplacementLimit) : IsDisplacement (.ofNat 16 n) := by
  have hmask : vtDisplacementMask.toNat = 2 ^ 11 - 1 := rfl
  unfold vtDisplacementLimit at hn
  apply BitVec.eq_of_toNat_eq
  rw [BitVec.toNat_and, hmask, Nat.and_two_pow_sub_one_eq_mod, BitVec.toNat_ofNat,
    Nat.mod_eq_of_lt (by omega : n < 2 ^ 16), Nat.mod_eq_of_lt (by omega : n < 2 ^ 11)]

/-- A new displacement. -/
theorem link_displacement (hd : IsDisplacement d) :
    (m &&& ~~~vtDisplacementMask ||| d) &&& vtDisplacementMask = d := by
  rw [← hd]
  ext i hi
  simp [getElem_displacementMask]
  grind

theorem link_hashfrag (hd : IsDisplacement d) :
    (m &&& ~~~vtDisplacementMask ||| d) &&& vtHashFragMask = m &&& vtHashFragMask := by
  rw [← hd]
  ext i hi
  simp [getElem_displacementMask, getElem_hashFragMask]
  grind

theorem link_inHome (hd : IsDisplacement d) :
    (m &&& ~~~vtDisplacementMask ||| d) &&& vtInHomeBucketMask = m &&& vtInHomeBucketMask := by
  rw [← hd]
  ext i hi
  simp [getElem_displacementMask, getElem_inHomeBucketMask]
  grind

/-- The end of a chain is a displacement, too. -/
theorem or_displacementMask :
    m ||| vtDisplacementMask = m &&& ~~~vtDisplacementMask ||| vtDisplacementMask := by
  ext i hi
  simp [getElem_displacementMask]
  grind

theorem isDisplacement_mask : IsDisplacement vtDisplacementMask := BitVec.and_self

/-- A key that is not at home. -/
theorem chained_displacement (hf : IsHashfrag f) (hd : IsDisplacement d) :
    (f ||| d) &&& vtDisplacementMask = d := by
  rw [← hf, ← hd]
  ext i hi
  simp [getElem_displacementMask, getElem_hashFragMask]
  grind

theorem chained_hashfrag (hf : IsHashfrag f) (hd : IsDisplacement d) :
    (f ||| d) &&& vtHashFragMask = f := by
  rw [← hf, ← hd]
  ext i hi
  simp [getElem_displacementMask, getElem_hashFragMask]
  grind

theorem chained_inHome (hf : IsHashfrag f) (hd : IsDisplacement d) :
    (f ||| d) &&& vtInHomeBucketMask = 0 := by
  rw [← hf, ← hd]
  ext i hi
  simp [getElem_displacementMask, getElem_hashFragMask, getElem_inHomeBucketMask]
  grind

/-- A key that is at home, and the last of its chain. -/
theorem atHome_displacement :
    (f ||| vtInHomeBucketMask ||| vtDisplacementMask) &&& vtDisplacementMask =
      vtDisplacementMask := by
  ext i hi
  simp [getElem_displacementMask]
  grind

theorem atHome_hashfrag (hf : IsHashfrag f) :
    (f ||| vtInHomeBucketMask ||| vtDisplacementMask) &&& vtHashFragMask = f := by
  rw [← hf]
  ext i hi
  simp [getElem_displacementMask, getElem_hashFragMask, getElem_inHomeBucketMask]
  grind

theorem atHome_inHome :
    (f ||| vtInHomeBucketMask ||| vtDisplacementMask) &&& vtInHomeBucketMask =
      vtInHomeBucketMask := by
  ext i hi
  simp [getElem_displacementMask, getElem_inHomeBucketMask]
  grind

/-- A new fragment. -/
theorem refrag_displacement (hf : IsHashfrag f) :
    (m &&& ~~~vtHashFragMask ||| f) &&& vtDisplacementMask = m &&& vtDisplacementMask := by
  rw [← hf]
  ext i hi
  simp [getElem_displacementMask, getElem_hashFragMask]
  grind

theorem refrag_hashfrag (hf : IsHashfrag f) :
    (m &&& ~~~vtHashFragMask ||| f) &&& vtHashFragMask = f := by
  rw [← hf]
  ext i hi
  simp [getElem_hashFragMask]
  grind

theorem refrag_inHome (hf : IsHashfrag f) :
    (m &&& ~~~vtHashFragMask ||| f) &&& vtInHomeBucketMask = m &&& vtInHomeBucketMask := by
  rw [← hf]
  ext i hi
  simp [getElem_hashFragMask, getElem_inHomeBucketMask]
  grind

end Wg14Signals
