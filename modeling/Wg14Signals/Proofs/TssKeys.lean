import Wg14Signals.Proofs.TssSections
import Mathlib.Data.Nat.Bitwise

namespace Wg14Signals
open Lib

/-- A lookup in an instance that is there succeeds. -/
theorem lookup_of_live {m : TssMem} {i : Addr} (h : (m.instances i).isSome) (t : Tid) :
    tssLookup m t i = .ok (m.cell i (m.key t), m.key t, m.drawGeneration t) := by
  obtain ⟨mem, hm⟩ := Option.isSome_iff_exists.mp h
  have hr : (m.drawGeneration t).readTss i = .ok mem :=
    readTss_ok.mpr ((congrFun (instances_drawGeneration m t) i).trans hm)
  simp only [tssLookup, myCurrentThreadId_mem, hr, cell_of_live hm]
  rfl

theorem get_of_live {m : TssMem} {i : Addr} (h : (m.instances i).isSome) (t : Tid) :
    tssAsyncSignalSafeGet m t i = .ok (m.cell i (m.key t)) := by
  simp only [tssAsyncSignalSafeGet, lookup_of_live h]
  rfl

theorem live_of_cell {m : TssMem} {i : Addr} {k : Key} {v : Value} (h : m.cell i k = some v) :
    (m.instances i).isSome := by
  unfold TssMem.cell at h
  split at h
  · simp [*]
  · cases h

/-- A thread gets what is under its key. -/
theorem get_of_cell {m : TssMem} {t : Tid} {i : Addr} {v : Value}
    (h : m.cell i (m.key t) = some v) : tssAsyncSignalSafeGet m t i = .ok (some v) := by
  rw [get_of_live (live_of_cell h), h]

/-- Generations are drawn in order, one for each thread, and fit the high half of a key. -/
structure Generations (m : TssMem) : Prop where
  few : m.generationCounter.toNat < 2 ^ 32
  drawn : ∀ t, (m.generationCached t).toNat ≤ m.generationCounter.toNat
  distinct : ∀ t u, m.generationCached t ≠ 0 → m.generationCached t = m.generationCached u → t = u

theorem Generations.initial (ids : Tid → UInt64) : Generations (.initial ids) where
  few := by simp [TssMem.initial]
  drawn := by simp [TssMem.initial]
  distinct t u h := by simp [TssMem.initial] at h

variable {m : TssMem} {t u : Tid}

theorem drawGeneration_of_drawn (h : m.generationCached t ≠ 0) : m.drawGeneration t = m := by
  simp [TssMem.drawGeneration, h]

theorem toNat_succ_counter (h : m.generationCounter < 0xffffffff) :
    (1 + m.generationCounter).toNat = m.generationCounter.toNat + 1 := by
  have h' : m.generationCounter.toNat < 0xffffffff := h
  rw [UInt64.toNat_add, Nat.mod_eq_of_lt]
  · exact Nat.add_comm _ _
  · simp only [UInt64.toNat_one]
    omega

/-- Where a thread's generation is once it has been asked for. -/
theorem generationCached_draw (m : TssMem) (t u : Tid) :
    (m.drawGeneration t).generationCached u =
      if u = t ∧ m.generationCached t = 0 then 1 + m.generationCounter
      else m.generationCached u := by
  unfold TssMem.drawGeneration
  by_cases h : m.generationCached t = 0 <;> simp [h]

theorem Generations.draw (hg : Generations m) (h : m.generationCounter < 0xffffffff) (t : Tid) :
    Generations (m.drawGeneration t) ∧ (m.drawGeneration t).generationCached t ≠ 0 := by
  by_cases h0 : m.generationCached t = 0
  · have hn := toNat_succ_counter h
    have hc : (m.drawGeneration t).generationCounter = 1 + m.generationCounter := by
      simp [TssMem.drawGeneration, h0, UInt64.add_comm]
    have hlt : m.generationCounter.toNat < 0xffffffff := h
    have new : ∀ u, m.generationCached u ≠ 1 + m.generationCounter := by
      intro u he
      have := hg.drawn u
      rw [he, hn] at this
      omega
    refine ⟨⟨?_, fun u => ?_, fun u w hu he => ?_⟩, ?_⟩
    · rw [hc, hn]
      omega
    · rw [hc, hn, generationCached_draw]
      split
      · exact hn.le
      · exact Nat.le_succ_of_le (hg.drawn u)
    · simp only [generationCached_draw, h0, and_true] at hu he
      split at he <;> split at he
      · rename_i hx hy
        exact hx.trans hy.symm
      · exact absurd he.symm (new w)
      · exact absurd he (new u)
      · rename_i hx hy
        rw [if_neg hx] at hu
        exact hg.distinct u w hu he
    · rw [generationCached_draw, if_pos ⟨rfl, h0⟩]
      intro he
      rw [he] at hn
      simp at hn
  · rw [drawGeneration_of_drawn h0]
    exact ⟨hg, h0⟩

/-- Keys do not change once a thread has its generation. -/
theorem key_draw (hu : m.generationCached u ≠ 0) (t : Tid) :
    (m.drawGeneration t).generationCached u ≠ 0 ∧ (m.drawGeneration t).key u = m.key u := by
  have hc : (m.drawGeneration t).generationCached u = m.generationCached u := by
    rw [generationCached_draw, if_neg]
    rintro ⟨rfl, h⟩
    exact hu h
  have hid : (m.drawGeneration t).currentThreadId = m.currentThreadId := by
    unfold TssMem.drawGeneration
    split <;> rfl
  refine ⟨hc ▸ hu, ?_⟩
  simp only [TssMem.key, TssMem.myCurrentThreadId, drawGeneration_of_drawn hu,
    drawGeneration_of_drawn (hc ▸ hu : (m.drawGeneration t).generationCached u ≠ 0), hc, hid]

/-- The key a lookup computes is the thread's from then on. -/
theorem key_draw_self (h : (m.drawGeneration t).generationCached t ≠ 0) :
    (m.drawGeneration t).key t = m.key t := by
  simp only [TssMem.key, TssMem.myCurrentThreadId, drawGeneration_of_drawn h]

theorem SameIds.key {m' : TssMem} (h : SameIds m m') : m'.key t = m.key t := by
  unfold TssMem.key TssMem.myCurrentThreadId TssMem.drawGeneration
  rw [h.cached]
  split <;> simp [h.ids, h.cached, h.counter]

theorem SameIds.generations {m' : TssMem} (h : SameIds m m') (hg : Generations m) :
    Generations m' :=
  ⟨h.counter ▸ hg.few, by rw [h.counter, h.cached]; exact hg.drawn,
    by rw [h.cached]; exact hg.distinct⟩

/-- No two threads have the same key. -/
def KeysApart (m : TssMem) : Prop :=
  ∀ t u, m.generationCached t ≠ 0 → m.generationCached u ≠ 0 → m.key t = m.key u → t = u

theorem KeysApart.initial (ids : Tid → UInt64) : KeysApart (.initial ids) := by
  intro t u h
  simp [TssMem.initial] at h

theorem SameIds.keysApart {m' : TssMem} (h : SameIds m m') (ha : KeysApart m) : KeysApart m' := by
  intro t u ht hu hk
  rw [h.cached] at ht hu
  rw [h.key, h.key] at hk
  exact ha t u ht hu hk

theorem KeysApart.draw (ha : KeysApart m) (hd : (m.drawGeneration t).KeyApart t) :
    KeysApart (m.drawGeneration t) := by
  -- a thread other than the one that draws had its key before
  have before : ∀ u, u ≠ t → (m.drawGeneration t).generationCached u ≠ 0 →
      m.generationCached u ≠ 0 := by
    intro u hut hu
    rwa [generationCached_draw, if_neg fun h => hut h.1] at hu
  intro u w hu hw hk
  by_cases hut : u = t
  · subst hut
    exact (hd.2 w hw hk.symm).symm
  · by_cases hwt : w = t
    · subst hwt
      exact hd.2 u hu hk
    · have hu' := before u hut hu
      have hw' := before w hwt hw
      rw [(key_draw hu' t).2, (key_draw hw' t).2] at hk
      exact ha u w hu' hw' hk

theorem tssCreate_ids (m : TssMem) : SameIds m (tssCreate m).2 := ⟨rfl, rfl, rfl⟩

/-- The two halves of a key do not overlap. -/
theorem toNat_key {g id : UInt64} (h : g.toNat < 2 ^ 32) :
    ((g <<< 32) ||| id.toUInt32.toUInt64).toNat = 2 ^ 32 * g.toNat + id.toNat % 2 ^ 32 := by
  have hg : (g <<< 32).toNat = 2 ^ 32 * g.toNat := by
    rw [UInt64.toNat_shiftLeft, Nat.shiftLeft_eq, Nat.mod_eq_of_lt, Nat.mul_comm]
    · rfl
    · simp
      omega
  rw [UInt64.toNat_or, hg, ← Nat.two_pow_add_eq_or_of_lt]
  · simp
  · simp
    omega

/-- Threads that have drawn a generation have different keys. -/
theorem Generations.keysApart (hg : Generations m) : KeysApart m := by
  intro t u ht hu h
  have small : ∀ u, (m.generationCached u).toNat < 2 ^ 32 :=
    fun u => Nat.lt_of_le_of_lt (hg.drawn u) hg.few
  have hk := congrArg UInt64.toNat h
  simp only [TssMem.key, TssMem.myCurrentThreadId, drawGeneration_of_drawn ht,
    drawGeneration_of_drawn hu] at hk
  rw [toNat_key (small t), toNat_key (small u)] at hk
  refine hg.distinct t u ht (UInt64.toNat_inj.mp ?_)
  have hlt := Nat.mod_lt (m.currentThreadId t).toNat (show 0 < 2 ^ 32 by decide)
  have hlu := Nat.mod_lt (m.currentThreadId u).toNat (show 0 < 2 ^ 32 by decide)
  omega

end Wg14Signals
