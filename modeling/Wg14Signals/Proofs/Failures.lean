import Wg14Signals.Proofs.Invariant
import Wg14Signals.Proofs.Handles

namespace Wg14Signals
open Lib

/-- Which operation of the library a failing step failed in. -/
inductive Fails (p : Platform) (s : State) (e : Fault) : Prop where
  | install (signo : Signo) (env : InstallEnv) (op : installSighandler s.g signo env = .error e)
  | uninstall (signo : Signo) (op : uninstallSighandler s.g signo = .error e)
  | create (signo : Signo) (args : CreateArgs) (calloc : Bool)
      (op : createNode s.g signo args calloc = .error e)
  | slot (a : Act) (ha : a ∈ s.acts) (hs : ¬ a.Stocked)
  | locked (signo : Signo) (slot : Option Addr)
      (hs : ∀ n, slot = some n → ∃ x ∈ s.pending p, x.node = n)
      (op : destroyLocked s.g signo slot = .error e)
  | unlocked (x : Slot) (hx : x ∈ s.pending p) (op : destroyUnlocked s.g (some x.node) = .error e)
  | enter (signo : Signo) (op : raiseEnter s.g signo = .error e)
  | leave (x : Hold) (claimed : Bool) (hx : x ∈ s.holds)
      (op : raiseLeave s.g x.item x.node claimed = .error e)
  | abandon (x : Hold) (hx : x ∈ s.holds) (op : sigdeciderAbandon s.g x.item x.node = .error e)

section

variable {p : Platform} {s : State} {act : Action} {a : Act} {t : Tid} {e : Fault}

theorem top_mem (ht : s.top t = some a) : a ∈ s.acts := List.mem_of_find?_eq_some ht

theorem slot_pending (ha : a ∈ s.acts) {x : Slot} (hx : x ∈ a.slots p) : x ∈ s.pending p :=
  List.mem_append.mpr
    (Or.inr (List.mem_flatMap.mpr ⟨a, List.mem_append.mpr (Or.inl ha), hx⟩))

theorem hold_mem (ha : a ∈ s.acts) {x : Hold} (hx : x ∈ a.holds) : x ∈ s.holds :=
  List.mem_flatMap.mpr ⟨a, List.mem_append.mpr (Or.inl ha), hx⟩

theorem inside_holds {x : Hold} (hx : x ∈ s.inside) : x ∈ s.holds := by
  rw [State.holds, List.flatMap_append]
  exact List.mem_append.mpr (Or.inl hx)

theorem raiseSection_fails {r : Raise} {rest : List Act}
    (h : raiseSection p s a r rest = .error e) : e = .disabled ∨ Fails p s e := by
  unfold raiseSection at h
  split at h
  · rcases bind_error.mp h with h | ⟨⟨r, g'⟩, _, h⟩
    · exact Or.inr (.enter _ h)
    · cases r with
      | absent =>
        simp only at h
        split at h <;> simp at h
      | deciding item current value sa => simp at h
      | unclaimed sa => simp at h
  · split at h <;> simp at h
  · simp at h
  · simp at h
  · simp only at h
    split at h <;> simp at h
  · simp at h
  · simp only [throw_error] at h
    exact Or.inl h.symm

theorem destroySection_fails {handle : Nat} {guarded : SigSet} {retp : List (Option Addr)}
    {todo : List Signo} {unlocked : Bool} {rest : List Act} (ha : a ∈ s.acts)
    (hc : a.call = .destroy handle guarded retp todo unlocked)
    (h : destroySection s a handle guarded retp todo unlocked rest = .error e) : Fails p s e := by
  unfold destroySection at h
  split at h
  · simp at h
  · rename_i signo todo
    split at h
    · rename_i hs
      split at h
      · refine .slot a ha ?_
        simp [Act.Stocked, hc, hs]
      · rename_i slot retp
        have hpend : ∀ n, slot = some n → ⟨handle, signo, n⟩ ∈ s.pending p := by
          rintro n rfl
          refine slot_pending ha ?_
          simp [Act.slots, hc, List.filter_cons_of_pos hs, slotsOf_cons]
        split at h
        · rcases bind_error.mp h with h | ⟨g', _, h⟩
          · cases slot with
            | none => simp [destroyUnlocked] at h
            | some n => exact .unlocked ⟨handle, signo, n⟩ (hpend n rfl) h
          · simp at h
        · rcases bind_error.mp h with h | ⟨⟨slot', g'⟩, _, h⟩
          · exact .locked signo slot (fun n hn => ⟨_, hpend n hn, rfl⟩) h
          · simp at h
    · rcases bind_error.mp h with h | ⟨⟨slot', g'⟩, _, h⟩
      · exact .locked signo none (by simp) h
      · simp at h

theorem createSection_fails {args : CreateArgs} {filled : List (Option Addr)} {env : InstallEnv}
    {rest : List Act} (h : createSection p env s a args filled rest = .error e) : Fails p s e := by
  unfold createSection at h
  split at h
  · simp at h
  · rcases bind_error.mp h with h | ⟨⟨r, g'⟩, _, h⟩
    · exact .create _ _ _ h
    · cases r <;> simp at h

theorem callSection_fails {env : InstallEnv} {rest : List Act} (ha : a ∈ s.acts)
    (h : callSection p env s a rest = .error e) : e = .disabled ∨ Fails p s e := by
  unfold callSection at h
  split at h
  · simp at h
  · rcases bind_error.mp h with h | ⟨⟨ok, g'⟩, _, h⟩
    · exact Or.inr (.install _ _ h)
    · simp at h
  · simp at h
  · rcases bind_error.mp h with h | ⟨g', _, h⟩
    · exact Or.inr (.uninstall _ h)
    · simp at h
  · simp at h
  · rcases bind_error.mp h with h | ⟨g', _, h⟩
    · exact Or.inr (.uninstall _ h)
    · simp at h
  · exact Or.inr (createSection_fails h)
  · rename_i hc
    exact Or.inr (destroySection_fails ha hc h)
  · simp only [throw_error] at h
    exact Or.inl h.symm
  · exact raiseSection_fails h

theorem decideSection_fails {r : Raise} {d : Decision} {rest : List Act} (ha : a ∈ s.acts)
    (hc : a.call = .raise r) (h : decideSection s t a r d rest = .error e) :
    e = .disabled ∨ Fails p s e := by
  unfold decideSection at h
  split at h
  · cases d with
    | nextDecider => simp at h
    | resumeExecution => simp at h
    | callRecovery =>
      simp only at h
      split at h <;> simp at h
  · rename_i pin hr
    split at h
    · simp only [throw_error] at h
      exact Or.inl h.symm
    · rename_i hab
      have hx : ⟨a.id, pin.item, pin.current⟩ ∈ s.holds :=
        hold_mem ha (by simp [Act.holds, hc, hr, hab])
      rcases bind_error.mp h with h | ⟨⟨l, g'⟩, _, h⟩
      · exact Or.inr (.leave _ _ hx h)
      · cases l <;> simp at h
  · simp only [throw_error] at h
    exact Or.inl h.symm

/-- A step that is not simply impossible fails in one of the library's operations. -/
theorem step_fails (h : step p s act = .error e) : e = .disabled ∨ Fails p s e := by
  cases act with
  | siginstall t guarded malloc =>
    simp only [step] at h
    split at h
    · split at h <;> simp at h
    · simp only [throw_error] at h
      exact Or.inl h.symm
  | siguninstall t handle =>
    simp only [step] at h
    split at h
    · simp at h
    · simp only [throw_error] at h
      exact Or.inl h.symm
  | create t guarded callfirst decider value malloc =>
    simp only [step] at h
    split at h
    · split at h
      · split at h <;> simp at h
      · simp at h
    · simp only [throw_error] at h
      exact Or.inl h.symm
  | destroy t handle =>
    simp only [step] at h
    split at h
    · simp at h
    · simp only [throw_error] at h
      exact Or.inl h.symm
  | raise t signo =>
    simp only [step] at h
    split at h
    · simp at h
    · simp only [throw_error] at h
      exact Or.inl h.symm
  | sigguarded t signals recovery =>
    simp only [step] at h
    split at h
    · simp at h
    · simp only [throw_error] at h
      exact Or.inl h.symm
  | deliver t signo =>
    simp only [step] at h
    split at h
    · simp at h
    · simp only [throw_error] at h
      exact Or.inl h.symm
  | advance t env =>
    simp only [step] at h
    split at h
    · exact callSection_fails (top_mem ‹_›) h
    · simp only [throw_error] at h
      exact Or.inl h.symm
  | decide t d =>
    simp only [step] at h
    split at h
    · rename_i a ht
      split at h
      · exact decideSection_fails (top_mem ht) ‹_› h
      · simp only [throw_error] at h
        exact Or.inl h.symm
    · simp only [throw_error] at h
      exact Or.inl h.symm
  | abandon t =>
    simp only [step] at h
    split at h
    · rename_i a ht
      split at h
      · rename_i r hc
        split at h
        · rename_i pin hr
          split at h
          · simp at h
          · rename_i hab
            have hx : ⟨a.id, pin.item, pin.current⟩ ∈ s.holds :=
              hold_mem (top_mem ht) (by simp [Act.holds, hc, hr, hab])
            rcases bind_error.mp h with h | ⟨g', _, h⟩
            · exact Or.inr (.abandon _ hx h)
            · simp at h
        · simp only [throw_error] at h
          exact Or.inl h.symm
      · simp only [throw_error] at h
        exact Or.inl h.symm
    · simp only [throw_error] at h
      exact Or.inl h.symm
  | jump t =>
    simp only [step] at h
    split at h
    · split at h
      · split at h
        · split at h
          · simp at h
          · simp only [throw_error] at h
            exact Or.inl h.symm
        · simp only [throw_error] at h
          exact Or.inl h.symm
      · simp only [throw_error] at h
        exact Or.inl h.symm
    · simp only [throw_error] at h
      exact Or.inl h.symm
  | done t =>
    simp only [step] at h
    split at h
    · split at h
      · simp at h
      · split at h
        · simp at h
        · simp only [throw_error] at h
          exact Or.inl h.symm
      · simp only [throw_error] at h
        exact Or.inl h.symm
    · simp only [throw_error] at h
      exact Or.inl h.symm

end

/-- A member in front of all others. -/
theorem perm_of_mem {α : Type} {x : α} {l : List α} (h : x ∈ l) : ∃ l', l.Perm (x :: l') := by
  obtain ⟨a, b, rfl⟩ := List.append_of_mem h
  exact ⟨a ++ b, List.perm_middle⟩

section

variable {p : Platform} {s : State} {L : Layout} {act : Action} {e : Fault}

/-- With the books balanced, a failure is never that of a container. -/
theorem Inv.fails (hi : Inv p s L) (ht : Tidy p s) (hf : Fails p s e) : e.Nodal := by
  have hmap : ∀ signo c, s.g.map signo = some c → ∃ k, s.g.containers c = some k :=
    fun signo c => hi.wf.mapped signo c
  have hheld : ∀ x ∈ s.holds, ∃ k, s.g.containers x.item = some k :=
    fun x hx => hi.wf.held _ (List.mem_map_of_mem hx)
  cases hf with
  | install signo env op => exact install_error (hmap signo) op
  | uninstall signo op => exact uninstall_error (hmap signo) op
  | create signo args calloc op => exact create_error (hmap signo) op
  | slot a ha hs => exact absurd (ht.stocked a ha) hs
  | locked signo slot hs op => exact destroyLocked_error (hmap signo) op
  | unlocked x hx op => exact destroyUnlocked_error op
  | enter signo op => exact raiseEnter_error (hmap signo) op
  | leave x claimed hx op =>
    obtain ⟨k, hc⟩ := hheld x hx
    exact raiseLeave_error hc op
  | abandon x hx op =>
    obtain ⟨k, hc⟩ := hheld x hx
    exact abandon_error hc op

/-- And with every registered node live that the map or a raise leads to, there is no
failure at all. -/
theorem Inv.safe (hi : Inv p s L) (ht : Tidy p s)
    (hs : ∀ signo c, s.g.map signo = some c → s.g.nodes.AllLive (L c .global))
    (hin : ∀ x ∈ s.holds, s.g.nodes.AllLive (L x.item .global)) : ¬ Fails p s e := by
  have hw := hi.wf
  intro hf
  cases hf with
  | install signo env op =>
    obtain ⟨r, hr⟩ := hw.install_run (hs signo) env
    simp [hr] at op
  | uninstall signo op =>
    obtain ⟨r, hr⟩ := hw.uninstall_run (hs signo)
    simp [hr] at op
  | create signo args calloc op =>
    obtain ⟨r, hr⟩ := hw.create_run (hs signo) args calloc
    simp [hr] at op
  | slot a ha hns => exact hns (ht.stocked a ha)
  | locked signo slot hslot op =>
    cases slot with
    | none =>
      obtain ⟨r, hr⟩ := hw.destroyLocked_none_run signo
      simp [hr] at op
    | some n =>
      obtain ⟨x, hx, rfl⟩ := hslot n rfl
      obtain ⟨rest, hp⟩ := perm_of_mem hx
      obtain ⟨r, hr⟩ := (hw.perm hp (List.Perm.refl _) (List.Perm.refl _)).destroyLocked_some_run
        (hs signo)
      simp [hr] at op
  | unlocked x hx op =>
    obtain ⟨rest, hp⟩ := perm_of_mem hx
    obtain ⟨r, hr⟩ := (hw.perm hp (List.Perm.refl _) (List.Perm.refl _)).destroyUnlocked_run
    simp [hr] at op
  | enter signo op =>
    obtain ⟨r, hr⟩ := hw.raiseEnter_run (hs signo)
    simp [hr] at op
  | leave x claimed hx op =>
    obtain ⟨rest, hp⟩ := perm_of_mem hx
    obtain ⟨r, hr⟩ := (hw.perm (List.Perm.refl _) (hp.map Hold.item)
      (hp.map Hold.node)).raiseLeave_run (hin x hx) (hi.inside x hx) claimed
    simp [hr] at op
  | abandon x hx op =>
    obtain ⟨rest, hp⟩ := perm_of_mem hx
    obtain ⟨r, hr⟩ := (hw.perm (List.Perm.refl _) (hp.map Hold.item)
      (hp.map Hold.node)).abandon_run
    simp [hr] at op

end

end Wg14Signals
