import Wg14Signals.Proofs.Moves
import Mathlib.Data.List.Perm.Basic

namespace Wg14Signals
open Lib

/-- What one step does to the library's state, and to the references that handles
and raises have on it. -/
inductive Effect (p : Platform) (s : State) (act : Action) (s' : State) : Prop where
  /-- At most the kernel's table changes. -/
  | quiet (hg : s'.g = { s.g with kernel := s'.g.kernel })
      (hp : (s'.pending p).Perm (s.pending p)) (hh : s'.holds.Perm s.holds)
  | install (signo : Signo) (env : InstallEnv) (ok : Bool)
      (op : installSighandler s.g signo env = .ok (ok, s'.g))
      (hp : (s'.pending p).Perm (s.pending p)) (hh : s'.holds.Perm s.holds)
  | uninstall (signo : Signo) (op : uninstallSighandler s.g signo = .ok s'.g)
      (hp : (s'.pending p).Perm (s.pending p)) (hh : s'.holds.Perm s.holds)
  | create (signo : Signo) (args : CreateArgs) (calloc : Bool) (i : Addr)
      (ha : s.registers p act = (s.g.map signo).map fun item => (item, args.callfirst))
      (op : createNode s.g signo args calloc = .ok (.linked i, s'.g))
      (hp : (s'.pending p).Perm (⟨args.owner, signo, i⟩ :: s.pending p))
      (hh : s'.holds.Perm s.holds)
  /-- A section of `signal_decider_destroy` with nothing to give back. -/
  | flush (signo : Signo) (slot : Option Addr)
      (op : destroyLocked s.g signo none = .ok (slot, s'.g))
      (hp : (s'.pending p).Perm (s.pending p)) (hh : s'.holds.Perm s.holds)
  | locked (x : Slot) (item : Addr) (slot : Option Addr)
      (hd : s.drops act = some (x.node, some item)) (hm : s.g.map x.signo = some item)
      (ho : ∃ a ∈ s.acts, a.destroying = some x.owner)
      (op : destroyLocked s.g x.signo (some x.node) = .ok (slot, s'.g))
      (hp : (s.pending p).Perm (x :: s'.pending p)) (hh : s'.holds.Perm s.holds)
  | unlocked (x : Slot) (hd : s.drops act = some (x.node, none))
      (ho : ∃ a ∈ s.acts, a.destroying = some x.owner)
      (op : destroyUnlocked s.g (some x.node) = .ok s'.g)
      (hp : (s.pending p).Perm (x :: s'.pending p)) (hh : s'.holds.Perm s.holds)
  | enter (signo : Signo) (raise item current : Addr) (value : Int) (sa : Sigaction)
      (op : raiseEnter s.g signo = .ok (.deciding item current value sa, s'.g))
      (hp : (s'.pending p).Perm (s.pending p))
      (hh : s'.holds.Perm (⟨raise, item, current⟩ :: s.holds))
  | pass (signo : Signo) (sa : Sigaction)
      (op : raiseEnter s.g signo = .ok (.unclaimed sa, s'.g))
      (hp : (s'.pending p).Perm (s.pending p)) (hh : s'.holds.Perm s.holds)
  | walk (raise item current next : Addr) (value : Int) (claimed : Bool) (rest : List Hold)
      (op : raiseLeave s.g item current claimed = .ok (.deciding next value, s'.g))
      (hp : (s'.pending p).Perm (s.pending p)) (hx : ⟨raise, item, current⟩ ∈ s.inside)
      (hu : ⟨raise, item, current⟩ ∈ s.unpins act)
      (hh : s.holds.Perm (⟨raise, item, current⟩ :: rest))
      (hh' : s'.holds.Perm (⟨raise, item, next⟩ :: rest))
  | leave (x : Hold) (claimed : Bool) (r : Left)
      (op : raiseLeave s.g x.item x.node claimed = .ok (r, s'.g))
      (hr : ∀ current value, r ≠ .deciding current value) (hu : x ∈ s.unpins act)
      (hp : (s'.pending p).Perm (s.pending p)) (hh : s.holds.Perm (x :: s'.holds))
  | abandon (x : Hold) (op : sigdeciderAbandon s.g x.item x.node = .ok s'.g)
      (hu : x ∈ s.abandons act)
      (hp : (s'.pending p).Perm (s.pending p)) (hh : s.holds.Perm (x :: s'.holds))

@[simp] theorem goto_call (a : Act) (call : Call) : (a.goto call).call = call := rfl

@[simp] theorem phase_call (a : Act) (r : Raise) (phase : Phase) :
    (a.phase r phase).call = .raise { r with phase } := rfl

@[simp] theorem phase_id (a : Act) (r : Raise) (phase : Phase) : (a.phase r phase).id = a.id := rfl

section Change

variable {p : Platform} {s s' : State} {l n r : List Act}

/-- Calls replaced by others with the same slots keep what handles refer to. -/
theorem pending_change (h : s.acts.Perm (l ++ r)) (h' : s'.acts = n ++ r)
    (hh : s'.handles = s.handles) (hl : s'.lost = s.lost)
    (hs : n.flatMap (Act.slots p) = l.flatMap (Act.slots p)) :
    (s'.pending p).Perm (s.pending p) := by
  have hp := (h.append_right s.lost).flatMap_right (Act.slots p)
  unfold State.pending
  rw [h', hh, hl]
  refine List.Perm.append_left _ (List.Perm.trans ?_ hp.symm)
  simp only [List.flatMap_append, hs]
  exact List.Perm.refl _

/-- Likewise when one more slot, or, read backwards, one less is among them. -/
theorem pending_add {x : Slot} (h : s.acts.Perm (l ++ r)) (h' : s'.acts.Perm (n ++ r))
    (hh : s'.handles = s.handles) (hl : s'.lost = s.lost)
    (hs : (n.flatMap (Act.slots p)).Perm (x :: l.flatMap (Act.slots p))) :
    (s'.pending p).Perm (x :: s.pending p) := by
  have hp := (h.append_right s.lost).flatMap_right (Act.slots p)
  have hp' := (h'.append_right s.lost).flatMap_right (Act.slots p)
  unfold State.pending
  rw [hh, hl]
  refine (List.Perm.append_left _ ?_).trans List.perm_middle
  refine hp'.trans (List.Perm.trans ?_ (hp.symm.cons x))
  simp only [List.flatMap_append]
  exact (hs.append_right _).append_right _

theorem holds_change (h : s.acts.Perm (l ++ r)) (h' : s'.acts = n ++ r)
    (hl : s'.lost = s.lost) (hs : n.flatMap Act.holds = l.flatMap Act.holds) :
    s'.holds.Perm s.holds := by
  have hp := (h.append_right s.lost).flatMap_right Act.holds
  unfold State.holds
  rw [h', hl]
  refine List.Perm.trans ?_ hp.symm
  simp only [List.flatMap_append, hs]
  exact List.Perm.refl _

/-- The holds of the calls that change, in front of all others. -/
theorem holds_split (h : s.acts.Perm (l ++ r)) :
    s.holds.Perm (l.flatMap Act.holds ++ (r ++ s.lost).flatMap Act.holds) := by
  have hp := (h.append_right s.lost).flatMap_right Act.holds
  unfold State.holds
  refine hp.trans ?_
  rw [List.append_assoc, List.flatMap_append]

end Change

section Slots

variable {owner : Nat} {ms : List Signo} {xs : List (Option Addr)}

theorem slotsOf_nones (k : Nat) :
    slotsOf owner ms (xs ++ List.replicate k none) = slotsOf owner ms xs := by
  unfold slotsOf
  induction xs generalizing ms with
  | nil =>
    induction k generalizing ms with
    | zero => rfl
    | succ k ih =>
      cases ms with
      | nil => rfl
      | cons m ms => simpa [List.replicate_succ] using @ih ms
  | cons x xs ih =>
    cases ms with
    | nil => rfl
    | cons m ms =>
      simp only [List.cons_append, List.zip_cons_cons, List.filterMap_cons]
      rw [ih]

/-- A slot filled next belongs to the first signal without one. -/
theorem zip_concat {signo : Signo} {ms' : List Signo} (x : Option Addr)
    (h : ms.drop xs.length = signo :: ms') : ms.zip (xs ++ [x]) = ms.zip xs ++ [(signo, x)] := by
  induction xs generalizing ms with
  | nil =>
    simp only [List.length_nil, List.drop_zero] at h
    subst h
    simp
  | cons y xs ih =>
    cases ms with
    | nil => simp at h
    | cons m ms =>
      simp only [List.length_cons, List.drop_succ_cons] at h
      simp only [List.cons_append, List.zip_cons_cons]
      rw [ih h]

/-- Slots beyond the last signal belong to none. -/
theorem zip_past (ys : List (Option Addr)) (h : ms.length ≤ xs.length) :
    ms.zip (xs ++ ys) = ms.zip xs := by
  induction ms generalizing xs with
  | nil => rfl
  | cons m ms ih =>
    cases xs with
    | nil => simp at h
    | cons x xs =>
      simp only [List.length_cons, Nat.add_le_add_iff_right] at h
      simp only [List.cons_append, List.zip_cons_cons]
      rw [ih h]

theorem slotsOf_concat {signo : Signo} {ms' : List Signo} (x : Option Addr)
    (h : ms.drop xs.length = signo :: ms') :
    slotsOf owner ms (xs ++ [x]) =
      slotsOf owner ms xs ++ (x.map fun n => ⟨owner, signo, n⟩).toList := by
  unfold slotsOf
  rw [zip_concat x h, List.filterMap_append]
  cases x <;> rfl

theorem slotsOf_cons {signo : Signo} {x : Option Addr} :
    slotsOf owner (signo :: ms) (x :: xs) =
      (x.map fun n => ⟨owner, signo, n⟩).toList ++ slotsOf owner ms xs := by
  cases x <;> rfl

end Slots

theorem createNode_same {g g' : Global} {signo : Signo} {args : CreateArgs} {calloc : Bool}
    {r : Created} (hr : createNode g signo args calloc = .ok (r, g')) (hl : ∀ i, r ≠ .linked i) :
    g' = g := by
  unfold createNode at hr
  split at hr
  · simp only [pure_ok, Prod.mk.injEq] at hr
    exact hr.2.symm
  · split at hr
    · simp only [pure_ok, Prod.mk.injEq] at hr
      exact hr.2.symm
    · obtain ⟨k, _, hr⟩ := bind_ok.mp hr
      obtain ⟨⟨_, _⟩, _, hr⟩ := bind_ok.mp hr
      simp only [pure_ok, Prod.mk.injEq] at hr
      exact absurd hr.1.symm (hl _)

/-- A section of destroy that finds the signal mapped leaves a null slot behind. -/
theorem destroyLocked_slot {g g' : Global} {signo : Signo} {item : Addr} {slot slot' : Option Addr}
    (hm : g.map signo = some item) (hr : destroyLocked g signo slot = .ok (slot', g')) :
    slot' = none := by
  simp only [destroyLocked, hm] at hr
  obtain ⟨k, _, hr⟩ := bind_ok.mp hr
  obtain ⟨g₁, _, hr⟩ := bind_ok.mp hr
  split at hr
  · simp only [pure_ok, Prod.mk.injEq] at hr
    exact hr.1.symm
  · obtain ⟨nd, _, hr⟩ := bind_ok.mp hr
    split at hr
    · obtain ⟨g₂, _, hr⟩ := bind_ok.mp hr
      simp only [pure_ok, Prod.mk.injEq] at hr
      exact hr.1.symm
    · simp only [pure_ok, Prod.mk.injEq] at hr
      exact hr.1.symm

theorem raiseEnter_absent {g g' : Global} {signo : Signo}
    (hr : raiseEnter g signo = .ok (.absent, g')) : g' = g := by
  unfold raiseEnter at hr
  split at hr
  · simp only [pure_ok, Prod.mk.injEq] at hr
    exact hr.2.symm
  · obtain ⟨k, _, hr⟩ := bind_ok.mp hr
    simp only at hr
    split at hr
    · obtain ⟨⟨_, _⟩, _, hr⟩ := bind_ok.mp hr
      simp at hr
    · obtain ⟨_, _, hr⟩ := bind_ok.mp hr
      simp at hr

section Sections

variable {p : Platform} {s s' : State} {a : Act} {rest : List Act} {act : Action}

theorem pushRaise_acts (t : Tid) (signo : Signo) (delivered : Bool) (acts : List Act) :
    ∃ new, (s.pushRaise p t signo delivered acts).acts = new ++ acts ∧
      new.flatMap (Act.slots p) = [] ∧ new.flatMap Act.holds = [] := by
  unfold State.pushRaise
  split
  · split
    · exact ⟨[_], rfl, rfl, rfl⟩
    · exact ⟨[], rfl, rfl, rfl⟩
  · exact ⟨[_], rfl, rfl, rfl⟩

theorem pushRaise_frame (t : Tid) (signo : Signo) (delivered : Bool) (acts : List Act) :
    (s.pushRaise p t signo delivered acts).g = s.g ∧
      (s.pushRaise p t signo delivered acts).handles = s.handles ∧
      (s.pushRaise p t signo delivered acts).lost = s.lost := by
  unfold State.pushRaise
  split
  · split <;> exact ⟨rfl, rfl, rfl⟩
  · exact ⟨rfl, rfl, rfl⟩

/-- A step that only rearranges calls without references. -/
theorem quiet_change {l n r : List Act} (h : s.acts.Perm (l ++ r)) (h' : s'.acts = n ++ r)
    (hg : s'.g = { s.g with kernel := s'.g.kernel }) (hh : s'.handles = s.handles)
    (hl : s'.lost = s.lost) (hs : n.flatMap (Act.slots p) = l.flatMap (Act.slots p))
    (hd : n.flatMap Act.holds = l.flatMap Act.holds) : Effect p s act s' :=
  .quiet hg (pending_change h h' hh hl hs) (holds_change h h' hl hd)

/-- A section is one effect on the state and the references, whatever call it is of. -/
theorem turn_effect {ys : List Act} {hs : List Handle} (ha : s.acts.Perm ([a] ++ rest))
    (turn : Turn p s a ys hs s'.g) (ha' : s'.acts = ys ++ rest)
    (hh : s'.handles = hs ++ s.handles) (hl : s'.lost = s.lost) (hd : a.drops s.g = s.drops act)
    (hreg : ∀ args filled, a.call = .create args filled →
      a.registers p s.g = s.registers p act)
    (hu : ∀ x ∈ a.holds, (x ∈ s.unpins act ∧ ∀ y ∈ ys, y.abandoned = false) ∨
      x ∈ s.abandons act ∧ ∃ y ∈ ys, y.abandoned = true) :
    Effect p s act s' := by
  have hheld : ∀ {r : Raise} {pin : Pin}, a.call = .raise r → r.phase = .deciding pin →
      pin.abandoned = false → ⟨a.id, pin.item, pin.current⟩ ∈ a.holds := by
    intro r pin hc hr hp
    simp [Act.holds, hc, hr, hp]
  have hinside : ∀ {r : Raise} {pin : Pin}, a.call = .raise r → r.phase = .deciding pin →
      pin.abandoned = false → s.holds.Perm
        (⟨a.id, pin.item, pin.current⟩ :: (rest ++ s.lost).flatMap Act.holds) := by
    intro r pin hc hr hp
    have hx := holds_split ha
    simpa [hc, Act.holds, hr, hp] using hx
  have hafter : s'.holds.Perm (ys.flatMap Act.holds ++ (rest ++ s.lost).flatMap Act.holds) := by
    have hx := holds_split (s := s') (l := ys) (r := rest) (ha' ▸ List.Perm.refl _)
    rwa [hl] at hx
  have hmem : a ∈ s.acts := ha.mem_iff.mpr List.mem_cons_self
  generalize hg : s'.g = g' at turn
  cases turn with
  | siginstalled set done hc =>
    exact quiet_change ha ha' (by rw [hg]) hh hl (by simp [hc, Act.slots])
      (by simp [hc, Act.holds])
  | install set done signo todo env ok g' hc op =>
    refine .install signo env ok (hg ▸ op) (pending_change ha ha' hh hl ?_)
      (holds_change ha ha' hl ?_)
    · cases ok <;> simp [hc, Act.slots]
    · cases ok <;> simp [hc, Act.holds]
  | rolledBack hc =>
    exact quiet_change ha ha' (by rw [hg]) hh hl (by simp [hc, Act.slots])
      (by simp [hc, Act.holds])
  | rollback signo todo g' hc op =>
    exact .uninstall signo (hg ▸ op)
      (pending_change ha ha' hh hl (by simp [hc, Act.slots]))
      (holds_change ha ha' hl (by simp [hc, Act.holds]))
  | siguninstalled hc =>
    exact quiet_change ha ha' (by rw [hg]) hh hl (by simp [hc, Act.slots])
      (by simp [hc, Act.holds])
  | uninstall signo todo g' hc op =>
    exact .uninstall signo (hg ▸ op)
      (pending_change ha ha' hh hl (by simp [hc, Act.slots]))
      (holds_change ha ha' hl (by simp [hc, Act.holds]))
  | created args filled hc =>
    refine .quiet (by rw [hg]) ?_ (holds_change ha ha' hl (by simp [hc, Act.holds]))
    -- the slots move from the call to the handle it returns
    have hp := (ha.append_right s.lost).flatMap_right (Act.slots p)
    unfold State.pending
    rw [ha', hh, hl]
    refine List.Perm.trans ?_ (hp.append_left _).symm
    simp only [List.flatMap_cons, Handle.pending, padded, slotsOf_nones, List.cons_append,
      List.nil_append, List.append_assoc, hc, Act.slots]
    exact List.perm_append_comm_assoc _ _ _
  | create args filled signo todo env i g' hc hdrop op =>
    refine .create signo args env.calloc i ?_ (hg ▸ op) ?_
      (holds_change ha ha' hl (by simp [hc, Act.holds]))
    · rw [← hreg args filled hc]
      simp [Act.registers, hc, hdrop]
    · refine pending_add ha (by rw [ha']) hh hl ?_
      simp only [List.flatMap_cons, List.flatMap_nil, List.append_nil, hc, Act.slots, goto_call,
        slotsOf_concat (some i) hdrop]
      exact List.perm_append_singleton _ _
  | missing args filled signo todo env g' hc hdrop op =>
    rw [createNode_same op (by simp)] at hg
    exact quiet_change ha ha' (by rw [hg]) hh hl
      (by simp [hc, Act.slots, slotsOf_concat none hdrop])
      (by simp [hc, Act.holds])
  | giveUp args filled signo env g' hc op =>
    rw [createNode_same op (by simp)] at hg
    refine quiet_change ha ha' (by rw [hg]) hh hl ?_ (by simp [hc, Act.holds])
    simp only [List.flatMap_cons, List.flatMap_nil, List.append_nil, hc, Act.slots,
      padded]
    exact slotsOf_nones _
  | destroyed handle guarded retp unlocked hc =>
    exact quiet_change ha ha' (by rw [hg]) hh hl (by simp [hc, Act.slots, slotsOf])
      (by simp [hc, Act.holds])
  | destroyUnlocked handle guarded slot retp signo todo g' hc hs op =>
    have hsame := holds_change ha ha' hl (by simp [hc, Act.holds])
    cases slot with
    | none =>
      simp only [destroyUnlocked, pure_ok] at op
      refine .quiet (by rw [hg, op]) (pending_change ha ha' hh hl ?_) hsame
      simp [hc, Act.slots, List.filter_cons_of_pos hs, slotsOf_cons]
    | some n =>
      refine .unlocked ⟨handle, signo, n⟩ ?_ ⟨a, hmem, by simp [Act.destroying, hc]⟩ (hg ▸ op) ?_
        hsame
      · rw [← hd]
        simp [Act.drops, hc, hs]
      · refine pending_add (l := [a.goto (.destroy handle guarded retp todo false)])
          (by rw [ha']) ha hh.symm hl.symm ?_
        simp [hc, Act.slots, List.filter_cons_of_pos hs, slotsOf_cons]
  | destroyLocked handle guarded slot slot' retp signo todo g' hc hs op =>
    have hsame := holds_change ha ha' hl (by simp [hc, Act.holds])
    cases hm : s.g.map signo with
    | none =>
      simp only [destroyLocked, hm, pure_ok, Prod.mk.injEq] at op
      obtain ⟨rfl, rfl⟩ := op
      refine .quiet (by rw [hg]) (pending_change ha ha' hh hl ?_) hsame
      simp [hc, Act.slots]
    | some item =>
      have hnull := destroyLocked_slot hm op
      subst hnull
      cases slot with
      | none =>
        refine .flush signo none (hg ▸ op) (pending_change ha ha' hh hl ?_) hsame
        simp [hc, Act.slots]
      | some n =>
        refine .locked ⟨handle, signo, n⟩ item none ?_ hm ⟨a, hmem, by simp [Act.destroying, hc]⟩
          (hg ▸ op) ?_ hsame
        · rw [← hd]
          simp [Act.drops, hc, hs, hm]
        · refine pending_add
            (l := [a.goto (.destroy handle guarded (none :: retp) (signo :: todo) true)])
            (by rw [ha']) ha hh.symm hl.symm ?_
          simp [hc, Act.slots, List.filter_cons_of_pos hs, slotsOf_cons]
  | destroySkip handle guarded slot retp signo todo unlocked g' hc hs op =>
    have hneg : ¬ guarded signo = true := by simp [hs]
    refine .flush signo slot (hg ▸ op) (pending_change ha ha' hh hl ?_)
      (holds_change ha ha' hl (by simp [hc, Act.holds]))
    simp [hc, Act.slots, List.filter_cons_of_neg hneg]
  | absent r g' hc hr op =>
    rw [raiseEnter_absent op] at hg
    refine quiet_change ha ha' (by rw [hg]) hh hl ?_ ?_
    · cases r.delivered <;> simp [hc, Act.slots]
    · cases r.delivered <;> simp [hc, Act.holds, hr]
  | enter r item current value sa g' hc hr op =>
    refine .enter r.signo a.id item current value sa (hg ▸ op)
      (pending_change ha ha' hh hl (by simp [hc, Act.slots])) ?_
    have hx := holds_split ha
    simp only [List.flatMap_cons, hc, Act.holds, hr, List.flatMap_nil, List.nil_append] at hx
    exact hafter.trans (hx.symm.cons _)
  | pass r sa g' hc hr op =>
    exact .pass r.signo sa (hg ▸ op)
      (pending_change ha ha' hh hl (by simp [hc, Act.slots]))
      (holds_change ha ha' hl (by simp [hc, Act.holds, hr]))
  | call r sa h hc hr hi =>
    exact quiet_change ha ha' (by rw [hg]) hh hl (by simp [hc, Act.slots])
      (by simp [hc, Act.holds, hr])
  | default r sa hc hr hi =>
    exact quiet_change ha ha' (by rw [hg]) hh hl (by simp [hc, Act.slots])
      (by simp [hc, Act.holds, hr])
  | ignore r sa hc hr hi =>
    exact quiet_change ha ha' (by rw [hg]) hh hl (by simp [hc, Act.slots])
      (by simp [hc, Act.holds, hr])
  | query r hc hr =>
    exact quiet_change ha ha' (by rw [hg]) hh hl (by simp [hc, Act.slots])
      (by simp [hc, Act.holds, hr])
  | reset r current hc hr =>
    exact quiet_change ha ha' (by rw [hg]; rfl) hh hl (by simp [hc, Act.slots])
      (by simp [hc, Act.holds, hr])
  | kill r current hc hr =>
    exact quiet_change ha ha' (by rw [hg]) hh hl (by simp [hc, Act.slots])
      (by simp [hc, Act.holds, hr])
  | restore r current hc hr =>
    exact quiet_change ha ha' (by rw [hg]; rfl) hh hl (by simp [hc, Act.slots])
      (by simp [hc, Act.holds, hr])
  | nextFrame r f fs hc hr =>
    exact quiet_change ha ha' (by rw [hg]) hh hl (by simp [hc, Act.slots])
      (by simp [hc, Act.holds, hr])
  | resumed r f fs hc hr =>
    exact quiet_change ha ha' (by rw [hg]) hh hl (by simp [hc, Act.slots])
      (by simp [hc, Act.holds, hr])
  | claimed r pin cl g' hc hr hp op =>
    have hun := (hu _ (hheld hc hr hp)).resolve_right (by simp [Act.abandoned])
    refine .leave ⟨a.id, pin.item, pin.current⟩ cl _ (hg ▸ op) (by simp) hun.1
      (pending_change ha ha' hh hl (by simp [hc, Act.slots])) ?_
    exact (hinside hc hr hp).trans (hafter.symm.cons _)
  | walk r pin cl current value g' hc hr hp op =>
    have hun := (hu _ (hheld hc hr hp)).resolve_right (by simp [Act.abandoned, hp])
    refine .walk a.id pin.item pin.current current value cl _ (hg ▸ op)
      (pending_change ha ha' hh hl (by simp [hc, Act.slots])) ?_ hun.1 (hinside hc hr hp) ?_
    · exact List.mem_flatMap.mpr ⟨a, hmem, by simp [Act.holds, hc, hr, hp]⟩
    · simpa [hp, Act.holds] using hafter
  | unclaimed r pin cl g' hc hr hp op =>
    have hun := (hu _ (hheld hc hr hp)).resolve_right (by simp [Act.abandoned])
    refine .leave ⟨a.id, pin.item, pin.current⟩ cl _ (hg ▸ op) (by simp) hun.1
      (pending_change ha ha' hh hl (by simp [hc, Act.slots])) ?_
    exact (hinside hc hr hp).trans (hafter.symm.cons _)
  | abandon r pin g' hc hr hp op =>
    have hun := (hu _ (hheld hc hr hp)).resolve_left (by simp [Act.abandoned])
    refine .abandon ⟨a.id, pin.item, pin.current⟩ (hg ▸ op) hun.1
      (pending_change ha ha' hh hl (by simp [hc, Act.slots])) ?_
    exact (hinside hc hr hp).trans (hafter.symm.cons _)
  | jump r pin hc hr hp =>
    exact quiet_change ha ha' (by rw [hg]) hh hl (by simp [hc, Act.slots])
      (by simp [hc, Act.holds, hr, hp])
  | unguard signals recovery hc =>
    exact quiet_change ha ha' (by rw [hg]) hh hl (by simp [hc, Act.slots])
      (by simp [hc, Act.holds])
  | handled r h hc hr =>
    exact quiet_change ha ha' (by rw [hg]) hh hl (by simp [hc, Act.slots])
      (by simp [hc, Act.holds, hr])

theorem step_effect (h : step p s act = .ok s') : Effect p s act s' := by
  cases step_moves h with
  | idle h =>
    subst h
    exact .quiet rfl (List.Perm.refl _) (List.Perm.refl _)
  | begins t call installs hb h =>
    subst h
    refine quiet_change (l := []) (n := [_]) (List.Perm.refl _) rfl rfl rfl rfl ?_ ?_
    · cases hb <;> simp [Act.slots, slotsOf]
    · cases hb <;> simp [Act.holds]
  | destroys t hd hf h =>
    subst h
    refine .quiet rfl ?_ (List.Perm.refl _)
    -- the slots move from the handle to the call that destroys it
    have hp := (find_perm hf).flatMap_right (Handle.pending p)
    have hs : (Act.mk t s.nextId (.destroy hd.id hd.guarded hd.slots p.loop false)).slots p =
        hd.pending p := rfl
    unfold State.pending State.push
    refine List.Perm.trans ?_ (hp.symm.append_right _)
    simp only [List.cons_append, List.flatMap_cons, hs, List.append_assoc]
    exact List.perm_append_comm_assoc _ _ _
  | raises t signo delivered h =>
    subst h
    obtain ⟨new, hnew, hns, hnh⟩ := pushRaise_acts (p := p) (s := s) t signo delivered s.acts
    obtain ⟨hg, hh, hl⟩ := pushRaise_frame (p := p) (s := s) t signo delivered s.acts
    exact quiet_change (l := []) (List.Perm.refl _) hnew (by rw [hg]) hh hl (by simp [hns])
      (by simp [hnh])
  | turns t a ys hs ht turn ha hh hl hn hd hi hu =>
    refine turn_effect (find_perm ht) turn ha hh hl hd.drops (fun args filled hc => ?_) fun x hx => ?_
    · obtain ⟨env, rfl⟩ := hd.advances (by rw [hc]; rfl)
      simp [State.registers, ht]
    · rcases hu x hx with ⟨d, rfl, hy⟩ | ⟨rfl, hy⟩
      · exact Or.inl ⟨by simpa [State.unpins, State.topHolds, ht] using hx, hy⟩
      · exact Or.inr ⟨by simpa [State.abandons, State.topHolds, ht] using hx, hy⟩
  | reenters t a r phase ht hc hp h =>
    subst h
    obtain ⟨new, hnew, hns, hnh⟩ := pushRaise_acts (p := p) (s := s) a.tid r.signo true
      (a.phase r phase :: s.others t)
    obtain ⟨hg, hh, hl⟩ := pushRaise_frame (p := p) (s := s) a.tid r.signo true
      (a.phase r phase :: s.others t)
    refine quiet_change (l := [a]) (n := new ++ [a.phase r phase]) (r := s.others t)
      (find_perm ht) (by simp [hnew]) (by rw [hg]) hh hl ?_ ?_
    · simp [hns, Act.slots, hc]
    · rcases hp with ⟨sa, hr, _, rfl⟩ | ⟨current, hr, rfl⟩ <;> simp [hnh, Act.holds, hc, hr]
  | recovers t a r f fs ht hd hc hr hf h =>
    subst h
    -- what the discarded calls held is not given back, only remembered elsewhere
    have hp : (s.acts.filter (fun b => !discarded t f b) ++
        (s.acts.filter (discarded t f) ++ s.lost)).Perm (s.acts ++ s.lost) := by
      rw [← List.append_assoc]
      refine List.Perm.append_right _ ?_
      exact List.perm_append_comm.trans (List.filter_append_perm _ _)
    exact .quiet rfl ((hp.flatMap_right _).append_left _) (hp.flatMap_right _)

end Sections

end Wg14Signals
