import Wg14Signals.ThreadExit

namespace Wg14Signals
open Lib

/-- Every state that was allocated has been freed once, or will be by one callback. -/
structure FreesInv (s : ExitThread) : Prop where
  once : ∀ p, p < s.allocated → s.frees p + s.pending.count (.free p) = 1
  fresh : ∀ p, s.allocated ≤ p → s.frees p = 0 ∧ s.pending.count (.free p) = 0
  slot : ∀ p, s.slot = some p → p < s.allocated

theorem FreesInv.initial : FreesInv .initial := by
  constructor <;> simp [ExitThread.initial, ExitThread.pending]

section

variable {path : AtexitPath} {s s' : ExitThread} {cb : Callback}

/-- Taking the next callback out of the lists changes nothing else. -/
theorem next_pending (h : s.next path = some (cb, s')) :
    s.pending.Perm (cb :: s'.pending) ∧ s'.slot = s.slot ∧ s'.allocated = s.allocated ∧
      s'.frees = s.frees := by
  unfold ExitThread.next at h
  split at h
  · cases h
    rename_i hi
    exact ⟨by simpa [ExitThread.pending, hi] using List.perm_middle, rfl, rfl, rfl⟩
  · cases h
  · cases h
    rename_i hr
    exact ⟨by simp [ExitThread.pending, hr], rfl, rfl, rfl⟩
  · cases h
    rename_i hr hi
    exact ⟨by simp [ExitThread.pending, hr, hi], rfl, rfl, rfl⟩
  · cases h

/-- A callback of the application says nothing about the states. -/
theorem FreesInv.of_same (hi : FreesInv s) (hs : s'.slot = s.slot)
    (ha : s'.allocated = s.allocated) (hf : s'.frees = s.frees)
    (hc : ∀ p, s'.pending.count (.free p) = s.pending.count (.free p)) : FreesInv s' where
  once p hp := by
    rw [hf, hc]
    exact hi.once p (ha ▸ hp)
  fresh p hp := by
    rw [hf, hc]
    exact hi.fresh p (ha ▸ hp)
  slot p hp := by
    rw [ha]
    exact hi.slot p (hs ▸ hp)

theorem count_threadAtexit (s : ExitThread) (cb : Callback) (p : Addr) :
    (threadAtexit s cb).2.pending.count (.free p) =
      s.pending.count (.free p) + if cb = .free p then 1 else 0 := by
  simp only [threadAtexit, ExitThread.pending, List.count_append, List.count_cons, beq_iff_eq]
  omega

/-- The first use allocates a state and registers its release; later ones do nothing. -/
theorem FreesInv.init (hi : FreesInv s) : FreesInv (sigGlobalTssStateInit s).2 := by
  unfold sigGlobalTssStateInit
  split
  · exact hi
  · have count : ∀ p, (threadAtexit { s with
          slot := some s.allocated, allocated := s.allocated + 1 }
          (.free s.allocated)).2.pending.count (.free p) =
        s.pending.count (.free p) + if s.allocated = p then 1 else 0 := by
      intro p
      rw [count_threadAtexit]
      simp [ExitThread.pending]
    refine ⟨fun p hp => ?_, fun p hp => ?_, fun p hp => ?_⟩
    · rw [count]
      change s.frees p + _ = 1
      by_cases h : s.allocated = p
      · obtain ⟨h1, h2⟩ := hi.fresh p (Nat.le_of_eq h)
        simp [h, h1, h2]
      · have hlt : p < s.allocated := Nat.lt_of_le_of_ne (Nat.le_of_lt_succ hp) (Ne.symm h)
        simpa [h] using hi.once p hlt
    · rw [count]
      change s.frees p = 0 ∧ _
      have hlt : s.allocated < p := hp
      simpa [Nat.ne_of_lt hlt] using hi.fresh p (Nat.le_of_lt hlt)
    · cases hp
      exact Nat.lt_succ_self _

/-- Running the release of a state frees it. -/
theorem FreesInv.release {mem : Addr} {u : ExitThread} (hi : FreesInv s)
    (hn : s.next path = some (.free mem, u)) :
    FreesInv { u with frees := fun p => if p = mem then s.frees p + 1 else s.frees p } := by
  obtain ⟨hp, hs, ha, -⟩ := next_pending hn
  have count : ∀ p, s.pending.count (.free p) =
      u.pending.count (.free p) + if mem = p then 1 else 0 := by
    intro p
    rw [hp.count_eq, List.count_cons]
    simp
  refine ⟨fun p hlt => ?_, fun p hle => ?_, fun p hslot => ?_⟩
  · have := hi.once p (ha ▸ hlt)
    rw [count] at this
    change (if p = mem then s.frees p + 1 else s.frees p) + u.pending.count (.free p) = 1
    by_cases h : p = mem
    · rw [if_pos h.symm] at this
      rw [if_pos h]
      omega
    · rw [if_neg (Ne.symm h)] at this
      rw [if_neg h]
      exact this
  · have := hi.fresh p (ha ▸ hle)
    rw [count] at this
    change (if p = mem then s.frees p + 1 else s.frees p) = 0 ∧ u.pending.count (.free p) = 0
    by_cases h : p = mem
    · simp [h] at this
    · simpa [h, Ne.symm h] using this
  · exact ha ▸ hi.slot p (hs ▸ hslot)

theorem FreesInv.step {act : ExitAction} (hi : FreesInv s)
    (h : exitStep path s act = .ok s') : FreesInv s' := by
  cases act with
  | use => exact pure_ok.mp h ▸ hi.init
  | register func =>
    obtain rfl := pure_ok.mp h
    exact hi.of_same rfl rfl rfl fun p => count_threadAtexit s _ p
  | exit =>
    obtain rfl := pure_ok.mp h
    exact hi.of_same rfl rfl rfl fun _ => rfl
  | run =>
    simp only [exitStep] at h
    split at h
    · obtain rfl := pure_ok.mp h
      exact hi.release ‹_›
    · rename_i func u _ _ hn
      obtain rfl := pure_ok.mp h
      obtain ⟨hp, hs, ha, hf⟩ := next_pending hn
      refine hi.of_same hs ha hf fun p => ?_
      rw [hp.count_eq, List.count_cons]
      simp [ExitThread.pending]
    · simp at h
  | done =>
    simp only [exitStep] at h
    split at h
    · obtain rfl := pure_ok.mp h
      exact hi.of_same rfl rfl rfl fun _ => rfl
    · simp at h

end

theorem freesInv_run {path : AtexitPath} {ok : ExitThread → ExitAction → Prop} {s : ExitThread}
    (hr : Run (exitStep path) ok .initial s) : FreesInv s :=
  hr.invariant .initial fun _ _ _ hi _ h => hi.step h

/-- The state a use is given has not been freed, exactly if its release is still to come. -/
theorem FreesInv.use {s : ExitThread} (hi : FreesInv s) :
    ∃ mem, (sigGlobalTssStateInit s).2.sigGlobalTssState = some mem ∧
      ((sigGlobalTssStateInit s).2.frees mem = 0 ↔ s.StateKept) := by
  unfold sigGlobalTssStateInit
  split
  · rename_i mem hs
    refine ⟨mem, hs, ?_⟩
    have honce := hi.once mem (hi.slot mem hs)
    have hkept : s.StateKept ↔ .free mem ∈ s.pending := by simp [ExitThread.StateKept, hs]
    rw [hkept, ← List.count_pos_iff]
    change s.frees mem = 0 ↔ _
    omega
  · rename_i hs
    refine ⟨s.allocated, rfl, ?_⟩
    have hkept : s.StateKept := by simp [ExitThread.StateKept, hs]
    exact ⟨fun _ => hkept, fun _ => (hi.fresh _ (Nat.le_refl _)).1⟩

/-- Once `sig_global_tss_state_init` has returned 0, the state `sig_global_tss_state` returns
has not been freed exactly if this is the thread's first use or the callback the first
use registered has yet to run. However the library is used, no state is freed twice, and
every one has been freed when the last callback has run. -/
theorem exit_state_kept {path : AtexitPath} {ok : ExitThread → ExitAction → Prop}
    {s : ExitThread} (hr : Run (exitStep path) ok .initial s) :
    ((sigGlobalTssStateInit s).1 = 0 ∧
      ∃ mem, (sigGlobalTssStateInit s).2.sigGlobalTssState = some mem ∧
        ((sigGlobalTssStateInit s).2.frees mem = 0 ↔ s.StateKept)) ∧
    (∀ mem, s.frees mem ≤ 1) ∧
    (s.pending = [] → ∀ mem, mem < s.allocated → s.frees mem = 1) := by
  have hi := freesInv_run hr
  refine ⟨⟨?_, hi.use⟩, fun mem => ?_, fun he mem hm => ?_⟩
  · unfold sigGlobalTssStateInit
    split <;> rfl
  · by_cases hm : mem < s.allocated
    · have := hi.once mem hm
      omega
    · have := (hi.fresh mem (Nat.le_of_not_lt hm)).1
      omega
  · have := hi.once mem hm
    rwa [he, List.count_nil, Nat.add_zero] at this

/-- A callback registered after the thread's first use runs before the state is freed, and
may use the library. -/
theorem exit_state_kept_after_use :
    ∃ s, Run (exitStep .pthreadKey) (fun _ _ => True) .initial s ∧ s.running = some 0 ∧
      ∃ mem, (sigGlobalTssStateInit s).2.sigGlobalTssState = some mem ∧
        (sigGlobalTssStateInit s).2.frees mem = 0 := by
  obtain ⟨s, hr, hq⟩ := run_of_ends (f := exitStep .pthreadKey) (r := fun _ _ => True)
    (s := .initial) (c := fun _ _ => true) (q := fun s => s.running == some 0 && s.StateKept)
    (l := [.use, .register 0, .exit, .run]) (fun _ _ _ => trivial) (by decide)
  simp only [Bool.and_eq_true, beq_iff_eq, decide_eq_true_eq] at hq
  obtain ⟨mem, hmem, hkept⟩ := (exit_state_kept hr).1.2
  exact ⟨s, hr, hq.1, mem, hmem, hkept.mpr hq.2⟩

/-- A callback registered before the thread's first use runs after the state is freed; the
slot still points at it, and a use in the callback is given the freed state. -/
theorem exit_state_freed :
    ∃ s, Run (exitStep .pthreadKey) (fun _ _ => True) .initial s ∧ s.running = some 0 ∧
      (sigGlobalTssStateInit s).1 = 0 ∧
      ∃ mem, (sigGlobalTssStateInit s).2.sigGlobalTssState = some mem ∧
        (sigGlobalTssStateInit s).2.frees mem = 1 := by
  obtain ⟨s, hr, hq⟩ := run_of_ends (f := exitStep .pthreadKey) (r := fun _ _ => True)
    (s := .initial) (c := fun _ _ => true)
    (q := fun s => s.running == some 0 && (sigGlobalTssStateInit s).1 == 0 &&
      (sigGlobalTssStateInit s).2.sigGlobalTssState == some 0 &&
      (sigGlobalTssStateInit s).2.frees 0 == 1)
    (l := [.register 0, .use, .exit, .run, .run]) (fun _ _ _ => trivial) (by decide)
  simp only [Bool.and_eq_true, beq_iff_eq] at hq
  obtain ⟨⟨⟨hrun, hret⟩, hslot⟩, hfrees⟩ := hq
  exact ⟨s, hr, hrun, hret, 0, hslot, hfrees⟩

end Wg14Signals
