import Wg14Signals.Proofs.TssKeys
import Wg14Signals.ThreadKeys

namespace Wg14Signals
open Lib

variable {w : Nat} {safe : Bool} {s s' : KeyState w} {th : KeyThread w} {i j : Nat}
  {gen ids : Nat → BitVec w}

/-- The keys of the thread storage are those of a 64-bit target. -/
theorem key_composite (m : TssMem) (t : Tid) :
    (m.key t).toBitVec = compositeKey ((m.drawGeneration t).generationCached t).toBitVec
      ((m.drawGeneration t).currentThreadId t).toBitVec := by
  simp only [TssMem.key, TssMem.myCurrentThreadId, compositeKey, UInt64.toBitVec_or,
    UInt64.toBitVec_shiftLeft, BitVec.setWidth_eq]
  rfl

theorem toNat_compositeKey (g id : BitVec w) :
    (compositeKey g id).toNat = 2 ^ 32 * (g.toNat % 2 ^ 32) + id.toNat % 2 ^ 32 := by
  have hg : (g.setWidth 64 <<< 32).toNat = 2 ^ 32 * (g.toNat % 2 ^ 32) := by
    rw [BitVec.toNat_shiftLeft, BitVec.toNat_setWidth, Nat.shiftLeft_eq]
    omega
  have hi : ((id.setWidth 32).setWidth 64).toNat = id.toNat % 2 ^ 32 := by
    simp only [BitVec.toNat_setWidth]
    omega
  rw [compositeKey, BitVec.toNat_or, hg, hi, ← Nat.two_pow_add_eq_or_of_lt]
  exact Nat.mod_lt _ (by decide)

/-- What is known of the variables of a live thread whose generation and id are these. -/
structure KeyThread.Numbered (th : KeyThread w) (g id : BitVec w) : Prop where
  kernelId : th.kernelId = id
  generation : th.generationCached = g
  cached : th.currentThreadIdCached = 0 ∨ th.currentThreadIdCached = id
  mycache : th.mycache = 0 ∨ th.mycache = id

/-- Every thread started so far has its generation, 0 as long as it has drawn none, and its
id, also when it has exited. -/
structure Numbered (s : KeyState w) (gen ids : Nat → BitVec w) : Prop where
  few : s.generationCounter.toNat ≤ 2 ^ 32
  drawn : ∀ i, (gen i).toNat ≤ s.generationCounter.toNat
  distinct : ∀ i j, gen i ≠ 0 → gen i = gen j → i = j
  started : ∀ i, gen i ≠ 0 → i < s.started
  live : ∀ i th, s.threads i = some th → i < s.started ∧ th.Numbered (gen i) (ids i)
  given : ∀ i k, (i, k) ∈ s.given → gen i ≠ 0 ∧ k = compositeKey (gen i) (ids i)

theorem Numbered.initial (w : Nat) : Numbered (.initial w) (fun _ => 0) (fun _ => 0) where
  few := by simp [KeyState.initial]
  drawn := by simp [KeyState.initial]
  distinct i j h := absurd rfl h
  started i h := absurd rfl h
  live i th h := by cases h
  given i k h := by cases h

theorem KeyThread.Numbered.currentThreadId (safe : Bool) {g id : BitVec w} (h : th.Numbered g id) :
    (th.currentThreadId safe).1 = id ∧ (th.currentThreadId safe).2.Numbered g id := by
  obtain ⟨hk, hg, hc, hm⟩ := h
  have hid : (if th.currentThreadIdCached = 0 then th.kernelId else th.currentThreadIdCached) =
      id := by
    split
    · exact hk
    · exact hc.resolve_left ‹_›
  cases safe with
  | true => exact ⟨hid, hk, hg, .inr hid, hm⟩
  | false => exact ⟨hk, hk, hg, hc, hm⟩

theorem KeyThread.Numbered.cacheId (safe : Bool) {g id : BitVec w} (h : th.Numbered g id) :
    (th.cacheId safe).Numbered g id ∧ (th.cacheId safe).mycache = id := by
  unfold KeyThread.cacheId
  split
  · obtain ⟨hid, hk, hg, hc, -⟩ := h.currentThreadId safe
    exact ⟨⟨hk, hg, hc, .inr hid⟩, hid⟩
  · exact ⟨h, h.mycache.resolve_left ‹_›⟩

/-- A thread with a generation is given the key that the generation and the id make. -/
theorem KeyThread.Numbered.again (safe : Bool) (c : BitVec w) {g id : BitVec w}
    (h : th.Numbered g id) (h0 : g ≠ 0) :
    th.myCurrentThreadId safe c = (compositeKey g id, c, th.cacheId safe) := by
  obtain ⟨hn, hm⟩ := h.cacheId safe
  simp only [KeyThread.myCurrentThreadId, hn.generation, if_neg h0, hm]

/-- One without draws the next. -/
theorem KeyThread.Numbered.draws (safe : Bool) (c : BitVec w) {id : BitVec w}
    (h : th.Numbered 0 id) :
    ∃ th', th.myCurrentThreadId safe c = (compositeKey (1 + c) id, c + 1, th') ∧
      th'.Numbered (1 + c) id := by
  obtain ⟨⟨hk, hg, hc, -⟩, hm⟩ := h.cacheId safe
  refine ⟨{ th.cacheId safe with generationCached := 1 + c }, ?_, hk, rfl, hc, .inr hm⟩
  simp only [KeyThread.myCurrentThreadId, hg, reduceIte, hm]

theorem setThread_some {th' : KeyThread w} {x : Option (KeyThread w)}
    (h : s.setThread i x j = some th') :
    (j = i ∧ x = some th') ∨ (j ≠ i ∧ s.threads j = some th') := by
  unfold KeyState.setThread at h
  split at h
  · exact .inl ⟨‹_›, h⟩
  · exact .inr ⟨‹_›, h⟩

/-- A thread that has a generation already calls. -/
theorem Numbered.again (hi : Numbered s gen ids) (ht : s.threads i = some th) (h0 : gen i ≠ 0) :
    Numbered { s with
      threads := s.setThread i (some (th.cacheId safe))
      given := (i, compositeKey (gen i) (ids i)) :: s.given } gen ids where
  few := hi.few
  drawn := hi.drawn
  distinct := hi.distinct
  started := hi.started
  live j th' hj := by
    rcases setThread_some hj with ⟨rfl, hx⟩ | ⟨-, hj⟩
    · obtain ⟨hlt, hn⟩ := hi.live j th ht
      exact ⟨hlt, Option.some.inj hx ▸ (hn.cacheId safe).1⟩
    · exact hi.live j th' hj
  given j k hk := by
    rcases List.mem_cons.mp hk with hk | hk
    · obtain ⟨rfl, rfl⟩ := Prod.mk.inj hk
      exact ⟨h0, rfl⟩
    · exact hi.given j k hk

/-- A thread without a generation calls while the counter has one to spare. -/
theorem Numbered.draws (hi : Numbered s gen ids) {th' : KeyThread w} (ht : s.threads i = some th)
    (h0 : gen i = 0) (hw : s.generationCounter.toNat + 1 < 2 ^ w)
    (hc : s.generationCounter.toNat < 2 ^ 32)
    (hn : th'.Numbered (1 + s.generationCounter) (ids i)) :
    Numbered { s with
      generationCounter := s.generationCounter + 1
      threads := s.setThread i (some th')
      given := (i, compositeKey (1 + s.generationCounter) (ids i)) :: s.given }
      (fun j => if j = i then 1 + s.generationCounter else gen j) ids := by
  have hnat : (1 + s.generationCounter).toNat = s.generationCounter.toNat + 1 := by
    have h1 : (1 : BitVec w).toNat = 1 := by
      refine (BitVec.toNat_ofNat 1 w).trans (Nat.mod_eq_of_lt ?_)
      omega
    rw [BitVec.toNat_add, h1, Nat.add_comm, Nat.mod_eq_of_lt hw]
  have hsucc : (s.generationCounter + 1).toNat = s.generationCounter.toNat + 1 := by
    rw [BitVec.add_comm, hnat]
  have hne : 1 + s.generationCounter ≠ 0 := fun h => by
    rw [h] at hnat
    simp at hnat
  have new : ∀ j, gen j ≠ 1 + s.generationCounter := fun j h => by
    have hle := hi.drawn j
    rw [h, hnat] at hle
    exact Nat.not_succ_le_self _ hle
  have hlt := (hi.live i th ht).1
  refine ⟨?_, fun j => ?_, fun j k hj he => ?_, fun j hj => ?_, fun j u hu => ?_, fun j k hk => ?_⟩
  · rw [hsucc]
    exact hc
  · rw [hsucc]
    split
    · exact hnat.le
    · exact Nat.le_succ_of_le (hi.drawn j)
  · split at he <;> split at he
    · rename_i hx hy
      exact hx.trans hy.symm
    · exact absurd he.symm (new k)
    · exact absurd he (new j)
    · rename_i hx hy
      rw [if_neg hx] at hj
      exact hi.distinct j k hj he
  · split at hj
    · rename_i hx
      exact hx ▸ hlt
    · exact hi.started j hj
  · rcases setThread_some hu with ⟨rfl, hx⟩ | ⟨hj, hu⟩
    · rw [if_pos rfl]
      exact ⟨hlt, Option.some.inj hx ▸ hn⟩
    · rw [if_neg hj]
      exact hi.live j u hu
  · rcases List.mem_cons.mp hk with hk | hk
    · obtain ⟨rfl, rfl⟩ := Prod.mk.inj hk
      rw [if_pos rfl]
      exact ⟨hne, rfl⟩
    · have hj : j ≠ i := fun h => (hi.given j k hk).1 (h ▸ h0)
      rw [if_neg hj]
      exact hi.given j k hk

theorem Numbered.step {act : KeyAction w} (hi : Numbered s gen ids) (hs : s.Spare act)
    (h : keyStep safe s act = .ok s') : ∃ gen' ids', Numbered s' gen' ids' := by
  cases act with
  | start kernelId =>
    obtain rfl := pure_ok.mp h
    have hnone : gen s.started = 0 := by
      by_contra h0
      exact Nat.lt_irrefl _ (hi.started _ h0)
    -- a thread that has drawn was started before, and keeps its id
    have hids : ∀ j, gen j ≠ 0 → (if j = s.started then kernelId else ids j) = ids j :=
      fun j hj => if_neg (Nat.ne_of_lt (hi.started j hj))
    refine ⟨gen, fun j => if j = s.started then kernelId else ids j, hi.few, hi.drawn, hi.distinct,
      fun j hj => Nat.lt_succ_of_lt (hi.started j hj), fun j u hu => ?_, fun j k hk => ?_⟩
    · rcases setThread_some hu with ⟨rfl, hx⟩ | ⟨hj, hu⟩
      · obtain rfl := Option.some.inj hx
        exact ⟨Nat.lt_succ_self _, (if_pos rfl).symm, hnone.symm, .inl rfl, .inl rfl⟩
      · rw [if_neg hj]
        exact ⟨Nat.lt_succ_of_lt (hi.live j u hu).1, (hi.live j u hu).2⟩
    · rw [hids j (hi.given j k hk).1]
      exact hi.given j k hk
  | call i =>
    simp only [keyStep] at h
    split at h
    · cases h
    · rename_i th ht
      have hn := (hi.live i th ht).2
      by_cases h0 : gen i = 0
      · rw [h0] at hn
        obtain ⟨hw, hc⟩ := hs th ht hn.generation
        obtain ⟨th', he, hn'⟩ := hn.draws safe s.generationCounter
        rw [he] at h
        obtain rfl := pure_ok.mp h
        exact ⟨_, ids, hi.draws ht h0 hw hc hn'⟩
      · rw [hn.again safe _ h0] at h
        obtain rfl := pure_ok.mp h
        exact ⟨gen, ids, hi.again ht h0⟩
  | exit i =>
    simp only [keyStep] at h
    split at h
    · cases h
    · obtain rfl := pure_ok.mp h
      refine ⟨gen, ids, hi.few, hi.drawn, hi.distinct, hi.started, fun j u hu => ?_, hi.given⟩
      rcases setThread_some hu with ⟨-, hx⟩ | ⟨-, hu⟩
      · cases hx
      · exact hi.live j u hu

/-- In the half of a key it stands in, no generation looks like another one or like none. -/
theorem Numbered.gen_inj (hi : Numbered s gen ids) (hj : gen i ≠ 0) (hk : gen j ≠ 0)
    (h : compositeKey (gen i) (ids i) = compositeKey (gen j) (ids j)) : i = j := by
  have hnat := congrArg BitVec.toNat h
  rw [toNat_compositeKey, toNat_compositeKey] at hnat
  have hi' := Nat.le_trans (hi.drawn i) hi.few
  have hj' := Nat.le_trans (hi.drawn j) hi.few
  have h0 : (gen i).toNat ≠ 0 := fun h => hj (BitVec.eq_of_toNat_eq (by simpa using h))
  have h0' : (gen j).toNat ≠ 0 := fun h => hk (BitVec.eq_of_toNat_eq (by simpa using h))
  exact hi.distinct i j hj (BitVec.eq_of_toNat_eq (by omega))

/-- As long as the counter has generations to spare, two calls are given the same key exactly
if they are made by the same thread. -/
theorem keys_belong_to_one_thread (safe : Bool)
    (hr : Run (keyStep safe) KeyState.Spare (.initial w) s) {k l : BitVec 64}
    (hk : (i, k) ∈ s.given) (hl : (j, l) ∈ s.given) : i = j ↔ k = l := by
  obtain ⟨gen, ids, hi⟩ : ∃ gen ids, Numbered s gen ids := by
    refine hr.invariant (I := fun s => ∃ gen ids, Numbered s gen ids) ⟨_, _, .initial w⟩
      fun s act s' hi hs h => ?_
    obtain ⟨gen, ids, hi⟩ := hi
    exact hi.step hs h
  obtain ⟨hg, rfl⟩ := hi.given i k hk
  obtain ⟨hg', rfl⟩ := hi.given j l hl
  constructor
  · rintro rfl
    rfl
  · exact hi.gen_inj hg hg'

/-- A thread exits, and the next one gets its id. -/
theorem keys_belong_to_one_thread_reused :
    ∃ s : KeyState 32, Run (keyStep true) KeyState.Spare (.initial 32) s ∧
      ∃ k l, (0, k) ∈ s.given ∧ (1, l) ∈ s.given ∧ (0 = 1 ↔ k = l) := by
  have hends : ends (keyStep true) (fun s _ => decide (s.generationCounter.toNat + 1 < 2 ^ 32))
      (fun s => s.given == [(1, 0x200000009), (0, 0x100000009), (0, 0x100000009)])
      (.initial 32) [.start 9, .call 0, .call 0, .exit 0, .start 9, .call 1] = true := by
    decide +kernel
  obtain ⟨s, hr, hg⟩ := run_of_ends (r := KeyState.Spare) (fun s act h => by
    have hlt := of_decide_eq_true h
    cases act with
    | call i => exact fun _ _ _ => ⟨hlt, Nat.lt_of_succ_lt hlt⟩
    | start | exit => trivial) hends
  have hg := eq_of_beq hg
  have h0 : (0, 0x100000009) ∈ s.given := by simp [hg]
  have h1 : (1, 0x200000009) ∈ s.given := by simp [hg]
  exact ⟨s, hr, _, _, h0, h1, keys_belong_to_one_thread true hr h0 h1⟩

/-- After `n` threads with the same id, one after the other. -/
def KeyState.after (w n : Nat) : KeyState w where
  generationCounter := BitVec.ofNat w n
  started := n
  threads := fun _ => none
  given := (List.range n).reverse.map fun i => (i, compositeKey (1 + BitVec.ofNat w i) 1)

/-- The next of them, when it has called. -/
def KeyState.calling (w n : Nat) : KeyState w where
  generationCounter := BitVec.ofNat w (n + 1)
  started := n + 1
  threads := fun i => if i = n then
    some ⟨1, 1, 1, 1 + BitVec.ofNat w n⟩ else none
  given := (List.range (n + 1)).reverse.map fun i => (i, compositeKey (1 + BitVec.ofNat w i) 1)

theorem calling_run {w n : Nat}
    (h : Run (keyStep true) KeyState.IdsApart (.initial w) (.after w n)) :
    Run (keyStep true) KeyState.IdsApart (.initial w) (.calling w n) := by
  have hs : keyStep true (.after w n) (.start 1) = .ok { KeyState.after w n with
      started := n + 1
      threads := (KeyState.after w n).setThread n (some { kernelId := 1 }) } := rfl
  refine .tail (.call n) (.tail (.start 1) h (fun _ _ h => by cases h) hs) trivial ?_
  have hadd : BitVec.ofNat w n + 1 = BitVec.ofNat w (n + 1) := (BitVec.ofNat_add n 1).symm
  simp only [keyStep, KeyState.setThread, KeyThread.myCurrentThreadId, KeyThread.cacheId,
    KeyThread.currentThreadId, reduceIte, KeyState.after, hadd]
  rw [KeyState.calling, List.range_succ, List.reverse_append, List.map_append]
  congr 2
  funext i
  by_cases hi : i = n <;> simp [KeyState.setThread, hi]

theorem after_run (w n : Nat) :
    Run (keyStep true) KeyState.IdsApart (.initial w) (.after w n) := by
  induction n with
  | zero => exact .refl _
  | succ n ih =>
    refine .tail (.exit n) (calling_run ih) trivial ?_
    simp only [keyStep, KeyState.calling, KeyState.setThread, reduceIte, KeyState.after]
    congr 2
    funext i
    by_cases hi : i = n <;> simp [KeyState.setThread, hi]

theorem given_after (w : Nat) {n i : Nat} (h : i < n) :
    (i, compositeKey (1 + BitVec.ofNat w i) 1) ∈ (KeyState.after w n).given :=
  List.mem_map.mpr ⟨i, List.mem_reverse.mpr (List.mem_range.mpr h), rfl⟩

theorem given_calling (w n : Nat) :
    (n, compositeKey (1 + BitVec.ofNat w n) 1) ∈ (KeyState.calling w n).given :=
  List.mem_map.mpr ⟨n, List.mem_reverse.mpr (List.mem_range.mpr (Nat.lt_succ_self n)), rfl⟩

/-- A thread that has drawn the sentinel draws again. -/
theorem calling_again {w n : Nat} (h : 1 + BitVec.ofNat w n = 0) :
    ∃ s', keyStep true (.calling w n) (.call n) = .ok s' ∧
      s'.given = (n, compositeKey (1 + BitVec.ofNat w (n + 1)) 1) ::
        (KeyState.calling w n).given := by
  have hn : KeyThread.Numbered (⟨1, 1, 1, 1 + BitVec.ofNat w n⟩ : KeyThread w) 0 1 :=
    ⟨rfl, h, .inr rfl, .inr rfl⟩
  obtain ⟨th', he, -⟩ := hn.draws true (BitVec.ofNat w (n + 1))
  refine ⟨{ KeyState.calling w n with
    generationCounter := BitVec.ofNat w (n + 1) + 1
    threads := (KeyState.calling w n).setThread n (some th')
    given := (n, compositeKey (1 + BitVec.ofNat w (n + 1)) 1) :: (KeyState.calling w n).given },
    ?_, rfl⟩
  simp only [keyStep, KeyState.calling, reduceIte, he]
  rfl

/-- The generation has come round, or its low half has: a thread is given the key of one that
has exited. On a 32-bit target the sentinel comes up before that, and the thread that draws it
is given another key at its next call. -/
theorem key_given_twice :
    (∀ w ∈ [32, 64], ∃ s : KeyState w, Run (keyStep true) KeyState.IdsApart (.initial w) s ∧
      ∃ k, (0, k) ∈ s.given ∧ (2 ^ 32, k) ∈ s.given) ∧
    ∃ s : KeyState 32, Run (keyStep true) KeyState.IdsApart (.initial 32) s ∧
      ∃ k l, k ≠ l ∧ (2 ^ 32 - 1, k) ∈ s.given ∧ (2 ^ 32 - 1, l) ∈ s.given := by
  have comes_round : ∀ w ∈ [32, 64], compositeKey (1 + BitVec.ofNat w 0) 1 =
      compositeKey (1 + BitVec.ofNat w (2 ^ 32)) 1 := by decide
  refine ⟨fun w hw => ⟨_, after_run w (2 ^ 32 + 1), _, given_after w (Nat.succ_pos _), ?_⟩, ?_⟩
  · rw [comes_round w hw]
    exact given_after w (Nat.lt_succ_self _)
  · obtain ⟨s', hs, hg⟩ := calling_again (w := 32) (n := 2 ^ 32 - 1) (by decide)
    have hr : Run (keyStep true) KeyState.IdsApart (.initial 32) s' :=
      .tail (.call (2 ^ 32 - 1)) (calling_run (after_run _ _)) trivial hs
    refine ⟨s', hr, compositeKey 0 1, _, ?_, hg ▸ List.mem_cons_of_mem _ (given_calling 32 _),
      hg ▸ List.mem_cons_self⟩
    decide

end Wg14Signals
