import Wg14Signals.Proofs.WinDispatch
import Wg14Signals.SignalCodes

namespace Wg14Signals
open Lib

section

variable {w : WinPlatform} {signo : Signo} {c : BitVec 32}

theorem lowBits_lt (signo : Signo) : lowBits signo < 2 ^ 30 := by
  unfold lowBits
  omega

theorem lowBits_signal (h : w.IsSignal signo) : (lowBits signo : Int) = signo := by
  have hmod : ∀ (n : Int) (k : Nat), k ≤ 32 → 1 ≤ n → n < k → ((n % 2 ^ 30).toNat : Int) = n := by
    intro n k hk hlow hhigh
    omega
  exact hmod signo w.nsig w.narrow h.1 h.2

theorem masked_signal (signo : Signo) :
    (BitVec.ofInt 32 signo &&& 0x3FFFFFFF#32).toNat = lowBits signo := by
  have hmask : (0x3FFFFFFF#32).toNat = 2 ^ 30 - 1 := rfl
  rw [BitVec.toNat_and, BitVec.toNat_ofInt, hmask, Nat.and_two_pow_sub_one_eq_mod]
  unfold lowBits
  omega

/-- A user-defined code is the base of its range plus the low bits of the signal. -/
theorem userCode_toNat (signo : Signo) :
    (userRaiseBase ||| (BitVec.ofInt 32 signo &&& 0x3FFFFFFF#32)).toNat =
      2 ^ 30 + lowBits signo := by
  have hbase : userRaiseBase.toNat = 2 ^ 30 * 1 := rfl
  rw [BitVec.toNat_or, masked_signal, hbase,
    ← Nat.two_pow_add_eq_or_of_lt (lowBits_lt signo) 1, Nat.mul_one]

/-- No code below `2 ^ 31` is one of the system's. -/
theorem signalFromUserCode (hlow : 2 ^ 30 ≤ c.toNat) (hhigh : c.toNat < 2 ^ 31) :
    signalFromWin32ExceptionCode w c = (c.toNat - 2 ^ 30 : Nat) := by
  have hne : ∀ k : BitVec 32, 2 ^ 31 ≤ k.toNat → c ≠ k := by
    rintro k hk rfl
    omega
  have hbase : userRaiseBase ≤ c := BitVec.le_def.mpr hlow
  have htop : c &&& 0x80000000#32 = 0#32 := by
    apply BitVec.eq_of_toNat_eq
    have hbits : c.toNat &&& 2 ^ 31 = 0 := by
      rw [← Nat.and_two_pow_sub_one_of_lt_two_pow hhigh, Nat.and_assoc]
      exact Nat.and_zero _
    exact (BitVec.toNat_and ..).trans hbits
  have hsub : (c - userRaiseBase).toNat = c.toNat - 2 ^ 30 := BitVec.toNat_sub_of_le hbase
  have hfloat : c ∉ [0xC000008D#32, 0xC000008E#32, 0xC000008F#32, 0xC0000090#32, 0xC0000091#32,
      0xC0000092#32, 0xC0000093#32, 0xC0000094#32, 0xC0000095#32] := by
    intro hm
    simp only [List.mem_cons, List.not_mem_nil, or_false] at hm
    rcases hm with h | h | h | h | h | h | h | h | h <;> exact hne _ (by decide) h
  have hsegv : ¬(c = 0xC0000005#32 ∨ c = 0xC00000FD#32) :=
    not_or.mpr ⟨hne _ (by decide), hne _ (by decide)⟩
  rw [signalFromWin32ExceptionCode, if_neg (hne _ (by decide)), if_neg (hne _ (by decide)),
    if_neg (hne _ (by decide)), if_neg hsegv, if_neg hfloat, if_pos ⟨htop, hbase⟩, hsub]

/-- The signals with a code of the system's own. -/
def WinPlatform.natives (w : WinPlatform) : List Signo :=
  [w.sigabrt, w.sigbus, w.sigill, w.sigsegv, w.sigfpe]

theorem receives_native (h : signo ∈ w.natives) : w.receives signo = signo := by
  unfold WinPlatform.receives win32ExceptionCodeFromSignal
  split_ifs with habrt hbus hill hsegv hfpe
  · exact habrt.symm
  · exact hbus.symm
  · exact hill.symm
  · exact hsegv.symm
  · exact hfpe.symm
  · simp [WinPlatform.natives, habrt, hbus, hill, hsegv, hfpe] at h

theorem receives_user (h : signo ∉ w.natives) : w.receives signo = lowBits signo := by
  have hcode : win32ExceptionCodeFromSignal w signo =
      userRaiseBase ||| (BitVec.ofInt 32 signo &&& 0x3FFFFFFF#32) := by
    simp only [WinPlatform.natives, List.mem_cons, List.not_mem_nil, or_false, not_or] at h
    simp only [win32ExceptionCodeFromSignal, h, if_false]
  have hnat := userCode_toNat signo
  have hlt := lowBits_lt signo
  unfold WinPlatform.receives
  rw [hcode]
  refine (signalFromUserCode (by omega) (by omega)).trans ?_
  rw [hnat, Nat.add_sub_cancel_left]

theorem receives_signal (h : w.IsSignal signo) : w.receives signo = signo := by
  by_cases hn : signo ∈ w.natives
  · exact receives_native hn
  · rw [receives_user hn, lowBits_signal h]

theorem receives_invalid (h : ¬ w.IsSignal signo) : w.receives signo = lowBits signo :=
  receives_user fun hn => h (w.valid signo hn)

theorem sigismember_beyond {set : SigSet} (h : 32 < signo) : sigismember set signo = false := by
  simp [sigismember, Int.not_le.mpr h]

/-- No guard can want the signal, and it is not installed. -/
theorem rejects_beyond (hd : 32 < w.receives signo) (hs : signo ≠ 0) : w.Rejects signo := by
  intro g s env s' dec hr hinst h
  have hch : WinChained s := hr.invariant (winChained_initial g) fun _ _ _ hi _ hs =>
    hi.step (winStep_turns hs)
  have hu : s.userCode = true := by
    by_contra hu
    simp [winStep, hu] at h
  cases hinit : (s.init env).1 with
  | false =>
    obtain ⟨tss, he, -, -⟩ := init_turns s env
    simp only [winStep, hu, if_true, WinState.pushRaise, hinit, he] at h
    obtain rfl := pure_ok.mp h
    exact ⟨_, none, .refl _, rfl, (win_consulted_emit _).trans (List.append_nil _),
      win_outcomes_emit _⟩
  | true =>
    have habsent : s.g.map (w.receives signo) = none := by
      by_contra hm
      have hle : (w.nsig : Int) ≤ 32 := Int.ofNat_le.mpr w.narrow
      exact Int.not_lt.mpr (Int.le_trans hle (Int.le_of_lt hd)) (hinst _ hm).2
    have hcand : candidates s.guardSet (w.receives signo) s.tries [] = [] := by
      have hnone : ∀ a ∈ s.tries, ¬ ((s.guardSet a).any fun set => set (w.receives signo)) = true := by
        intro a _
        cases hg : s.guards a <;> simp [WinState.guardSet, hg, sigismember_beyond hd]
      rw [candidates, List.filter_eq_nil_iff.mpr hnone]
      rfl
    obtain ⟨u, s₁, hstep, hrun, -, hcons, hend⟩ := winRaise_dispatches _ hch dec hu hinit hs
      (Int.ne_of_gt (Int.lt_trans (by decide) hd)) (.absent habsent) none none
    obtain rfl := Except.ok.inj (hstep.symm.trans h)
    rw [hcand] at hcons hend
    exact ⟨s₁, _, hrun, hend.1, hcons.trans (List.append_nil _), hend.2⟩

/-- A guard whose set has all the bits there are wants the signal. -/
theorem not_rejects_within (hlow : 1 ≤ w.receives signo) (hhigh : w.receives signo ≤ 32)
    (hs : signo ≠ 0) : ¬ w.Rejects signo := by
  intro hrej
  let s := guardedByAll
  let dec : Consulted → Decision := fun _ => .resumeExecution
  have hch : WinChained s := (guardedByAll_run w).invariant (winChained_initial _)
    fun _ _ _ hi _ hs => hi.step (winStep_turns hs)
  have hset : s.guardSet 0 = some (sigismember fun _ => true) := rfl
  have hmem : sigismember (fun _ => true) (w.receives signo) = true := by
    simp [sigismember, hlow, hhigh]
  have hcand : candidates s.guardSet (w.receives signo) s.tries [] = [.frame 0] := by
    rw [show s.tries = [0] from rfl]
    simp [candidates, hset, hmem]
  obtain ⟨s₁, u, hstep, hrun, -, -, hend⟩ := winRaise_dispatches {} hch dec rfl rfl
    hs (Int.ne_of_gt hlow) (.absent rfl) none none
  rw [hcand] at hend
  have hinst : w.Installs s.g := fun _ hn => absurd rfl hn
  obtain ⟨u', r, hrun', hc', -, hout'⟩ := hrej _ s {} s₁ dec (guardedByAll_run w) hinst hstep
  have stopped : ∀ t : WinState, t.calls = s.calls → ∀ v, winStep w t (t.quietly dec) ≠ .ok v := by
    intro t ht v
    rw [WinState.quietly, ht]
    simp [winStep, s, guardedByAll, ht]
  obtain rfl := hrun.unique hrun' (stopped u hend.1) (stopped u' hc')
  have := List.append_cancel_left (hend.2.symm.trans hout')
  simp at this

end

/-- On Windows a signal survives its way through an exception code, and the number of none is
rejected, exactly where the number is that of a signal or its low 30 bits exceed 32. -/
theorem signal_carried_iff (w : WinPlatform) (signo : Signo) :
    w.Carries signo ↔ w.IsSignal signo ∨ 32 < lowBits signo := by
  constructor
  · rintro ⟨-, hcar⟩
    by_contra hno
    obtain ⟨hsig, hle⟩ := not_or.mp hno
    obtain ⟨hne, hnot, hrej⟩ := hcar hsig
    rw [receives_invalid hsig] at hne
    have hpos : 1 ≤ lowBits signo := Nat.one_le_iff_ne_zero.mpr fun h => hne (by rw [h]; rfl)
    have hs : signo ≠ 0 := by
      rintro rfl
      exact absurd hpos (by decide)
    refine not_rejects_within ?_ ?_ hs hrej
    · rw [receives_invalid hsig]
      exact Int.ofNat_le.mpr hpos
    · rw [receives_invalid hsig]
      exact Int.ofNat_le.mpr (Nat.not_lt.mp hle)
  · intro h
    refine ⟨receives_signal, fun hsig => ?_⟩
    have hlt : (32 : Int) < lowBits signo := Int.ofNat_lt.mpr (h.resolve_left hsig)
    have hle : (w.nsig : Int) ≤ 32 := Int.ofNat_le.mpr w.narrow
    have hs : signo ≠ 0 := by
      rintro rfl
      exact absurd hlt (by decide)
    rw [receives_invalid hsig]
    refine ⟨Int.ne_of_gt (Int.lt_trans (by decide) hlt), fun hv => ?_, ?_⟩
    · exact Int.not_lt.mpr (Int.le_trans hle (Int.le_of_lt hlt)) hv.2
    · exact rejects_beyond (receives_invalid hsig ▸ hlt) hs

/-- No signal has the number `0x40000002`, and yet a raise of it is taken for one of signal 2. -/
theorem alias_received : ¬ WinPlatform.headers.Carries 0x40000002 := by
  rintro ⟨-, h⟩
  obtain ⟨-, hnot, -⟩ := h (by rintro ⟨-, hhigh⟩; exact absurd hhigh (by decide))
  exact hnot ⟨by decide, by decide⟩

end Wg14Signals
