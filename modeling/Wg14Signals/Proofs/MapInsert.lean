import Wg14Signals.MapInsert
import Wg14Signals.Proofs.Progress
import Wg14Signals.Proofs.Rollback

namespace Wg14Signals
open Lib

variable {p : Platform} {s : State} {L : Layout} {g g' : Global} {m : Locked} {signo : Signo}
  {env : TableEnv} {ok : Bool} {c : Addr}

theorem Totalled.mapped_count (ht : Totalled g) (hm : g.map signo = some c) :
    g.sighandlersCount ≠ 0 := by
  obtain ⟨l, ht⟩ := ht
  have hpos := List.length_pos_of_mem ((ht.mapped signo).mpr ⟨c, hm⟩)
  rw [ht.total]
  omega

/-- An `install_sighandler` whose insert works returns. -/
theorem Inv.installs_run (hi : Inv p s L) (ht : Totalled s.g) (signo : Signo)
    (env : InstallEnv) :
    ∃ ok g', installSighandler s.g signo env = .ok (ok, g') := by
  by_cases hm : s.g.map signo = none
  · obtain ⟨⟨ok, g'⟩, hr⟩ := hi.wf.install_run (fun c hc => by
      rw [hm] at hc
      cases hc) env
    exact ⟨ok, g', hr⟩
  · obtain ⟨c, hc⟩ := Option.ne_none_iff_exists'.mp hm
    obtain ⟨k, hk⟩ := hi.wf.mapped signo c hc
    simp only [installSighandler, hc, countInstall, Global.readContainer, Heap.read_some hk]
    exact ⟨_, _, if_neg fun h => ht.mapped_count hc h.1⟩

theorem countInstallAt_ok {it : Option Addr} (hit : it = some c)
    (h : countInstall m.g signo c env.toInstallEnv = .ok (ok, g')) :
    countInstallAt env m signo it = .ok (ok, ⟨g', false⟩) := by
  refine bind_ok.mpr ⟨c, by rw [hit]; rfl, bind_ok.mpr ⟨(ok, g'), ?_, rfl⟩⟩
  rw [h]
  rfl

/-- Where the insert works, or none is needed, it is the `install_sighandler` of the other
platforms. -/
theorem installTable_ok (hl : m.lock = false)
    (hins : m.g.map signo = none → env.calloc = true → env.sigaction = true → env.insert = true)
    (h : installSighandler m.g signo env.toInstallEnv = .ok (ok, g')) :
    installSighandlerTable env m signo = .ok (ok, ⟨g', false⟩) := by
  refine bind_ok.mpr ⟨{ m with lock := true }, by simp [Locked.acquire, hl], ?_⟩
  unfold installSighandler at h
  split at h
  · rename_i c hm
    simp only [hm]
    exact countInstallAt_ok rfl h
  · rename_i hm
    simp only [hm]
    split at h
    · rename_i hcalloc
      obtain ⟨rfl, rfl⟩ := Prod.mk.inj (pure_ok.mp h)
      rw [if_pos hcalloc]
      rfl
    · rename_i hcalloc
      split at h
      · rename_i hsigaction
        obtain ⟨rfl, rfl⟩ := Prod.mk.inj (pure_ok.mp h)
        rw [if_neg hcalloc, if_pos hsigaction]
        rfl
      · rename_i hsigaction
        have hinsert := hins hm (by simpa using hcalloc) (by simpa using hsigaction)
        rw [if_neg hcalloc, if_neg hsigaction]
        simp only [signoToSighandlerMapInsert, hinsert, if_true]
        exact countInstallAt_ok (m := ⟨newSighandlerInfo m.g signo, true⟩) rfl h

/-- A failed insert is not noticed. -/
theorem installTable_end (hl : m.lock = false) (hm : m.g.map signo = none)
    (hcalloc : env.calloc = true) (hsigaction : env.sigaction = true)
    (hinsert : env.insert = false) :
    installSighandlerTable env m signo = .error .endIterator := by
  simp [installSighandlerTable, Locked.acquire, hl, hm, hcalloc, hsigaction,
    signoToSighandlerMapInsert, hinsert, countInstallAt, signoToSighandlerMapValue, bind,
    Except.bind, pure, Except.pure, throw, throwThe, MonadExceptOf.throw]

/-- In every reachable state `install_sighandler` on the hash table either succeeds or leaves
everything as it was, unless it gets as far as an insert and that fails. -/
theorem installs_cleanly_iff (p : Platform) (kernel : Signo → Sigaction) {s : State}
    (hr : Run (step p) (fun _ _ => True) (State.initial kernel) s) (env : TableEnv)
    (signo : Signo) :
    InstallsCleanly env ⟨s.g, false⟩ signo ↔
      ¬(s.g.map signo = none ∧ env.calloc = true ∧ env.sigaction = true ∧ env.insert = false) := by
  obtain ⟨⟨L, hi⟩, ht⟩ := totalled_run hr
  constructor
  · rintro ⟨ok, m', h, -⟩ ⟨hm, hcalloc, hsigaction, hinsert⟩
    rw [installTable_end rfl hm hcalloc hsigaction hinsert] at h
    cases h
  · intro hfine
    obtain ⟨ok, g', h⟩ := hi.installs_run ht signo env.toInstallEnv
    have hret := installTable_ok (m := ⟨s.g, false⟩) rfl
      (fun hm hcalloc hsigaction => by
        by_contra hinsert
        exact hfine ⟨hm, hcalloc, hsigaction, by simpa using hinsert⟩) h
    refine ⟨ok, _, hret, rfl, ?_⟩
    rintro rfl
    exact (install_failed (fun c hm => ht.mapped_count hm)
      (hi.wf.containerFresh _ (Nat.le_refl _)) h).2.1

/-- The storage of the threads cannot be created: the new entry is taken back. -/
theorem installs_cleanly_iff_storage :
    InstallsCleanly { tssCreate := false } ⟨(State.initial fun _ => .dfl).g, false⟩ 1 :=
  (installs_cleanly_iff .tiny _ (.refl _) _ _).mpr (by decide)

/-- Memory for the container, but none for the table: the end iterator is dereferenced, with
the lock held and the library's handler in place. -/
theorem failed_insert_dereferenced :
    installSighandlerTable { insert := false } ⟨(State.initial fun _ => .dfl).g, false⟩ 1 =
        .error .endIterator ∧
      ¬InstallsCleanly { insert := false } ⟨(State.initial fun _ => .dfl).g, false⟩ 1 := by
  have hend : installSighandlerTable { insert := false }
      ⟨(State.initial fun _ => .dfl).g, false⟩ 1 = .error .endIterator := by rfl
  refine ⟨hend, ?_⟩
  rintro ⟨ok, m', h, -⟩
  rw [hend] at h
  cases h

end Wg14Signals
