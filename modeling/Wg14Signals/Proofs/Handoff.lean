import Wg14Signals.Proofs.Dispositions
import Wg14Signals.Proofs.Invariant

namespace Wg14Signals
open Lib

/-- The hand-off a call is in. -/
def Act.handoff (a : Act) : Option Handoff :=
  match a.call with
  | .raise r =>
    match r.phase with
    | .handoff h => some h
    | _ => none
  | _ => none

/-- The signal of a hand-off past its query, and the disposition it will restore. -/
def Act.current (a : Act) : Option (Signo × Sigaction) :=
  match a.call with
  | .raise r =>
    match r.phase with
    | .handoff (.reset current) => some (r.signo, current)
    | .handoff (.kill current) => some (r.signo, current)
    | .handoff (.restore current) => some (r.signo, current)
    | _ => none
  | _ => none

/-- The signal of a hand-off between its reset and its restore. -/
def Act.resets (a : Act) : Option Signo :=
  match a.call with
  | .raise r =>
    match r.phase with
    | .handoff (.kill _) => some r.signo
    | .handoff (.restore _) => some r.signo
    | _ => none
  | _ => none

/-- The four calls of a hand-off overlap nothing they could disturb. -/
structure Serial (s : State) (act : Action) : Prop where
  /-- No disposition is read while another hand-off has reset it. -/
  query : ∀ t env a r, act = .advance t env → s.top t = some a → a.call = .raise r →
    r.phase = .handoff .query → ∀ b ∈ s.acts, b.resets ≠ some r.signo
  /-- The first install of a signal meets no hand-off past its query. -/
  install : ∀ t env a set done signo todo, act = .advance t env → s.top t = some a →
    a.call = .siginstall set done (signo :: todo) → s.g.map signo = none →
    ∀ b ∈ s.acts, ∀ sa, b.current ≠ some (signo, sa)
  /-- Nor does the last uninstall. -/
  uninstall : ∀ t env a signo todo c k, act = .advance t env → s.top t = some a →
    a.call = .rollback (signo :: todo) ∨ a.call = .siguninstall (signo :: todo) →
    s.g.map signo = some c → s.g.containers c = some k → k.installCount = 1 →
    ∀ b ∈ s.acts, ∀ sa, b.current ≠ some (signo, sa)
  /-- No recovery jump discards a hand-off that has still to restore. -/
  recovery : ∀ b ∈ s.discards act, b.resets = none

/-- The disposition that belongs to a signal: the library's while it is installed, else the
one from before. -/
def base (kernel : Signo → Sigaction) (g : Global) (signo : Signo) : Sigaction :=
  if (g.map signo).isSome then .raw else kernel signo

@[simp] theorem base_setKernel (kernel : Signo → Sigaction) (g : Global) (signo : Signo)
    (sa : Sigaction) : base kernel (g.setKernel signo sa) = base kernel g := rfl

/-- Every container has saved a disposition from before the library, a mapped one that of
its signal; and a mapped one has been counted. -/
structure Books (kernel : Signo → Sigaction) (g : Global) : Prop where
  counted : ∀ signo c k, g.map signo = some c → g.containers c = some k → 0 < k.installCount
  saved : ∀ signo c k, g.map signo = some c → g.containers c = some k → k.oldHandler = kernel signo
  before : ∀ c k, g.containers c = some k → ∃ signo, k.oldHandler = kernel signo

namespace Books

variable {kernel : Signo → Sigaction} {g g' : Global} {signo : Signo} {c : Addr} {k : Container}

theorem still (hb : Books kernel g) (h : Still g g') : Books kernel g' where
  counted signo c k' hm hk' := by
    obtain ⟨k, hk, _, hn⟩ := h.saved c k' hk'
    rw [hn]
    exact hb.counted signo c k (h.map ▸ hm) hk
  saved signo c k' hm hk' := by
    obtain ⟨k, hk, ho, _⟩ := h.saved c k' hk'
    rw [ho]
    exact hb.saved signo c k (h.map ▸ hm) hk
  before c k' hk' := by
    obtain ⟨k, hk, ho, _⟩ := h.saved c k' hk'
    rw [ho]
    exact hb.before c k hk

theorem setKernel (hb : Books kernel g) (signo : Signo) (sa : Sigaction) :
    Books kernel (g.setKernel signo sa) :=
  ⟨hb.counted, hb.saved, hb.before⟩

theorem setCount (hb : Books kernel g) (n : Int) : Books kernel (g.setCount n) :=
  ⟨hb.counted, hb.saved, hb.before⟩

/-- A container after its count has changed, for whatever is mapped to it afterwards. -/
theorem recount (hb : Books kernel g) (signo : Signo) (hc : g.containers c = some k) {n : Int}
    (hm : g' = g.setContainer c { k with installCount := n } ∧ 0 < n ∨
      g' = (g.setContainer c { k with installCount := n }).setMap signo none ∧
        ∀ signo', g.map signo' = some c → signo' = signo) : Books kernel g' := by
  have hcont : ∀ d kd, g'.containers d = some kd →
      (d = c ∧ kd = { k with installCount := n }) ∨ d ≠ c ∧ g.containers d = some kd := by
    intro d kd hd
    have hd' : (g.setContainer c { k with installCount := n }).containers d = some kd := by
      rcases hm with ⟨rfl, _⟩ | ⟨rfl, _⟩ <;> exact hd
    by_cases he : d = c
    · subst he
      rw [setContainer_self] at hd'
      exact Or.inl ⟨rfl, (Option.some.inj hd').symm⟩
    · rw [setContainer_other _ _ he] at hd'
      exact Or.inr ⟨he, hd'⟩
  have hmap : ∀ signo' d, g'.map signo' = some d → g.map signo' = some d ∧ (d = c → 0 < n) := by
    intro signo' d hd
    rcases hm with ⟨rfl, hn⟩ | ⟨rfl, hinj⟩
    · exact ⟨hd, fun _ => hn⟩
    · simp only [Global.setMap_map] at hd
      split at hd
      · cases hd
      · rename_i hne
        exact ⟨hd, fun he => absurd (hinj signo' (he ▸ hd)) hne⟩
  refine ⟨fun signo' d kd hd hkd => ?_, fun signo' d kd hd hkd => ?_, fun d kd hkd => ?_⟩
  · obtain ⟨hd', hn⟩ := hmap signo' d hd
    rcases hcont d kd hkd with ⟨he, rfl⟩ | ⟨_, hkd⟩
    · exact hn he
    · exact hb.counted signo' d kd hd' hkd
  · obtain ⟨hd', _⟩ := hmap signo' d hd
    rcases hcont d kd hkd with ⟨rfl, rfl⟩ | ⟨_, hkd⟩
    · exact hb.saved signo' d k hd' hc
    · exact hb.saved signo' d kd hd' hkd
  · rcases hcont d kd hkd with ⟨rfl, rfl⟩ | ⟨_, hkd⟩
    · exact hb.before d k hc
    · exact hb.before d kd hkd

/-- The container a first install publishes. -/
theorem publish (hb : Books kernel g) (hk : g.kernel signo = kernel signo)
    (hfresh : ∀ signo' d, g.map signo' = some d → d ≠ g.nextContainer) :
    Books kernel ((newSighandlerInfo g signo).setContainer g.nextContainer
      { installCount := 1, lifetimeRefcount := 1, oldHandler := g.kernel signo }) := by
  have hcont : ∀ d kd, ((newSighandlerInfo g signo).setContainer g.nextContainer
      { installCount := 1, lifetimeRefcount := 1, oldHandler := g.kernel signo }).containers d =
        some kd → (d = g.nextContainer ∧ kd.installCount = 1 ∧ kd.oldHandler = kernel signo) ∨
          d ≠ g.nextContainer ∧ g.containers d = some kd := by
    intro d kd hd
    by_cases he : d = g.nextContainer
    · subst he
      rw [setContainer_self] at hd
      cases hd
      exact Or.inl ⟨rfl, rfl, hk⟩
    · rw [setContainer_other _ _ he] at hd
      exact Or.inr ⟨he, by simpa [newSighandlerInfo, he] using hd⟩
  have hmap : ∀ signo' d, (newSighandlerInfo g signo).map signo' = some d →
      (signo' = signo ∧ d = g.nextContainer) ∨ signo' ≠ signo ∧ g.map signo' = some d := by
    intro signo' d hd
    simp only [newSighandlerInfo, Global.setMap_map, Global.setKernel_map] at hd
    split at hd
    · exact Or.inl ⟨‹_›, (Option.some.inj hd).symm⟩
    · exact Or.inr ⟨‹_›, hd⟩
  refine ⟨fun signo' d kd hd hkd => ?_, fun signo' d kd hd hkd => ?_, fun d kd hkd => ?_⟩
  · rcases hcont d kd hkd with ⟨_, hn, _⟩ | ⟨hne, hkd⟩
    · omega
    · rcases hmap signo' d hd with ⟨_, he⟩ | ⟨_, hd⟩
      · exact absurd he hne
      · exact hb.counted signo' d kd hd hkd
  · rcases hcont d kd hkd with ⟨he, _, ho⟩ | ⟨hne, hkd⟩
    · rcases hmap signo' d hd with ⟨rfl, _⟩ | ⟨_, hd⟩
      · exact ho
      · exact absurd he (hfresh signo' d hd)
    · rcases hmap signo' d hd with ⟨_, he⟩ | ⟨_, hd⟩
      · exact absurd he hne
      · exact hb.saved signo' d kd hd hkd
  · rcases hcont d kd hkd with ⟨_, _, ho⟩ | ⟨_, hkd⟩
    · exact ⟨signo, ho⟩
    · exact hb.before d kd hkd

end Books

/-- Nothing happens to the hand-offs in progress. -/
structure Untouched (s s' : State) : Prop where
  current : ∀ b ∈ s'.acts, ∀ x, b.current = some x → ∃ a ∈ s.acts, a.current = some x
  resets : ∀ a ∈ s.acts, ∀ signo, a.resets = some signo → ∃ b ∈ s'.acts, b.resets = some signo

theorem Untouched.replace {s s' : State} {l n r : List Act} (h : s.acts.Perm (l ++ r))
    (h' : s'.acts = n ++ r)
    (hc : ∀ y ∈ n, ∀ x, y.current = some x → ∃ a ∈ l, a.current = some x)
    (hr : ∀ a ∈ l, ∀ signo, a.resets = some signo → ∃ y ∈ n, y.resets = some signo) :
    Untouched s s' := by
  constructor
  · intro b hb x hx
    rw [h'] at hb
    rcases List.mem_append.mp hb with hb | hb
    · obtain ⟨a, ha, hax⟩ := hc b hb x hx
      exact ⟨a, h.mem_iff.mpr (List.mem_append.mpr (Or.inl ha)), hax⟩
    · exact ⟨b, h.mem_iff.mpr (List.mem_append.mpr (Or.inr hb)), hx⟩
  · intro a ha signo hs
    rw [h']
    rcases List.mem_append.mp (h.mem_iff.mp ha) with ha | ha
    · obtain ⟨y, hy, hys⟩ := hr a ha signo hs
      exact ⟨y, List.mem_append.mpr (Or.inl hy), hys⟩
    · exact ⟨a, List.mem_append.mpr (Or.inr ha), hs⟩

/-- The part of a section in a hand-off: none, unless it is one of the hand-off's calls. -/
theorem turn_handoff {p : Platform} {s : State} {a : Act} {ys : List Act} {hs : List Handle}
    {g' : Global} (turn : Turn p s a ys hs g') :
    ((∀ y ∈ ys, y.current = none) ∧ a.resets = none ∧ a.handoff = none) ∨
    ∃ r, a.call = .raise r ∧
      ((r.phase = .handoff .query ∧ g' = s.g ∧
        ys = [a.phase r (.handoff (.reset (s.g.kernel r.signo)))]) ∨
      ∃ current,
        (r.phase = .handoff (.reset current) ∧ g' = s.g.setKernel r.signo .dfl ∧
          ys = [a.phase r (.handoff (.kill current))]) ∨
        (r.phase = .handoff (.kill current) ∧ g' = s.g ∧
          ys = [a.phase r (.handoff (.restore current))]) ∨
        (r.phase = .handoff (.restore current) ∧ g' = s.g.setKernel r.signo current ∧ ys = [])) := by
  cases turn with
  | query r hc hr => exact Or.inr ⟨r, hc, Or.inl ⟨hr, rfl, rfl⟩⟩
  | reset r current hc hr => exact Or.inr ⟨r, hc, Or.inr ⟨current, Or.inl ⟨hr, rfl, rfl⟩⟩⟩
  | kill r current hc hr =>
    exact Or.inr ⟨r, hc, Or.inr ⟨current, Or.inr (Or.inl ⟨hr, rfl, rfl⟩)⟩⟩
  | restore r current hc hr =>
    exact Or.inr ⟨r, hc, Or.inr ⟨current, Or.inr (Or.inr ⟨hr, rfl, rfl⟩)⟩⟩
  | install set done signo todo env ok g' hc op =>
    exact Or.inl (by cases ok <;> simp [Act.current, Act.resets, Act.handoff, hc])
  | absent r g' hc hr op =>
    exact Or.inl (by cases hd : r.delivered <;> simp [Act.current, Act.resets, Act.handoff, hc, hr])
  | _ => exact Or.inl (by simp_all [Act.current, Act.resets, Act.handoff])

/-- The kernel's entry is the one that belongs there, or reset by a hand-off that knows
what belongs there. -/
structure Settled (kernel : Signo → Sigaction) (s : State) : Prop where
  books : Books kernel s.g
  currents : ∀ a ∈ s.acts, ∀ signo sa, a.current = some (signo, sa) → sa = base kernel s.g signo
  entries : ∀ signo, s.g.kernel signo = base kernel s.g signo ∨
    ∃ a ∈ s.acts, a.resets = some signo

namespace Settled

variable {kernel : Signo → Sigaction} {s s' : State}

/-- The entry of a signal without a hand-off past its query is the right one. -/
theorem entry (hs : Settled kernel s) {signo : Signo}
    (hno : ∀ b ∈ s.acts, b.resets ≠ some signo) : s.g.kernel signo = base kernel s.g signo := by
  rcases hs.entries signo with hk | ⟨a, ha, hr⟩
  · exact hk
  · exact absurd hr (hno a ha)

theorem resets_current {a : Act} {signo : Signo} (h : a.resets = some signo) :
    ∃ sa, a.current = some (signo, sa) := by
  unfold Act.resets at h
  unfold Act.current
  split at h
  · rename_i r hc
    split at h
    · rename_i current hr
      exact ⟨current, by simp [hr, Option.some.inj h]⟩
    · rename_i current hr
      exact ⟨current, by simp [hr, Option.some.inj h]⟩
    · cases h
  · cases h

theorem still (hs : Settled kernel s) (h : Still s.g s'.g) (hu : Untouched s s') :
    Settled kernel s' := by
  have hbase : base kernel s'.g = base kernel s.g := by
    funext signo
    simp only [base, h.map]
  refine ⟨hs.books.still h, fun b hb signo sa hx => ?_, fun signo => ?_⟩
  · obtain ⟨a, ha, hax⟩ := hu.current b hb _ hx
    rw [hbase]
    exact hs.currents a ha signo sa hax
  · rw [h.kernel, hbase]
    rcases hs.entries signo with hk | ⟨a, ha, hr⟩
    · exact Or.inl hk
    · exact Or.inr (hu.resets a ha signo hr)

/-- A change of one signal's entries, while no hand-off of that signal is past its query. -/
theorem change (hs : Settled kernel s) {signo : Signo}
    (hno : ∀ b ∈ s.acts, ∀ sa, b.current ≠ some (signo, sa)) (hb : Books kernel s'.g)
    (hm : ∀ t, t ≠ signo → s'.g.map t = s.g.map t ∧ s'.g.kernel t = s.g.kernel t)
    (hk : s'.g.kernel signo = base kernel s'.g signo) (hu : Untouched s s') :
    Settled kernel s' := by
  have hbase : ∀ t, t ≠ signo → base kernel s'.g t = base kernel s.g t := by
    intro t ht
    simp only [base, (hm t ht).1]
  refine ⟨hb, fun b hb t sa hx => ?_, fun t => ?_⟩
  · obtain ⟨a, ha, hax⟩ := hu.current b hb _ hx
    have ht : t ≠ signo := fun he => hno a ha sa (he ▸ hax)
    rw [hbase t ht]
    exact hs.currents a ha t sa hax
  · by_cases ht : t = signo
    · exact Or.inl (ht ▸ hk)
    · rw [(hm t ht).2, hbase t ht]
      rcases hs.entries t with hk | ⟨a, ha, hr⟩
      · exact Or.inl hk
      · exact Or.inr (hu.resets a ha t hr)

theorem installed {p : Platform} {L : Layout} (hi : Inv p s L) (hs : Settled kernel s)
    {signo : Signo} {ok : Bool}
    (hno : s.g.map signo = none → ∀ b ∈ s.acts, ∀ sa, b.current ≠ some (signo, sa))
    (h : Installs signo s.g ok s'.g) (hu : Untouched s s') : Settled kernel s' := by
  cases h with
  | refused h => exact hs.still h hu
  | counted c k hm hc h =>
    have hpos := hs.books.counted signo c k hm hc
    let s₁ : State := { s with
      g := (s.g.setContainer c { k with installCount := k.installCount + 1 }).setCount
        (s.g.sighandlersCount + 1) }
    have hs₁ : Settled kernel s₁ :=
      ⟨(hs.books.recount signo hc (Or.inl ⟨rfl, by omega⟩)).setCount _, hs.currents, hs.entries⟩
    have hu₁ : Untouched s₁ s' := ⟨hu.current, hu.resets⟩
    exact hs₁.still h hu₁
  | published hm h =>
    have hentry := hs.entry fun b hb hr => by
      obtain ⟨sa, hx⟩ := resets_current hr
      exact hno hm b hb sa hx
    have hfresh : ∀ signo' d, s.g.map signo' = some d → d ≠ s.g.nextContainer :=
      fun _ _ hd => Nat.ne_of_lt (hi.wf.mapped_lt hd)
    have hbooks := hs.books.publish (by simpa [base, hm] using hentry) hfresh
    refine hs.change (hno hm) ((hbooks.setCount _).still h) (fun t ht => ?_) ?_ hu
    · rw [h.map, h.kernel]
      simp [newSighandlerInfo, ht]
    · simp [base, h.map, h.kernel, newSighandlerInfo]
  | dropped c k hm hc hz h =>
    have hpos := hs.books.counted signo c k hm hc
    omega

theorem uninstalled {p : Platform} {L : Layout} (hi : Inv p s L) (hs : Settled kernel s)
    {signo : Signo}
    (hno : ∀ c k, s.g.map signo = some c → s.g.containers c = some k → k.installCount = 1 →
      ∀ b ∈ s.acts, ∀ sa, b.current ≠ some (signo, sa))
    (h : Uninstalls signo s.g s'.g) (hu : Untouched s s') : Settled kernel s' := by
  generalize hg : s'.g = g' at h
  cases h with
  | absent hm => exact hs.still (hg ▸ Still.refl _) hu
  | counted c k hm hc hn h =>
    subst hg
    have hpos := hs.books.counted signo c k hm hc
    let s₁ : State := { s with
      g := (s.g.setContainer c { k with installCount := k.installCount - 1 }).setCount
        (s.g.sighandlersCount - 1) }
    have hs₁ : Settled kernel s₁ :=
      ⟨(hs.books.recount signo hc (Or.inl ⟨rfl, by omega⟩)).setCount _, hs.currents, hs.entries⟩
    have hu₁ : Untouched s₁ s' := ⟨hu.current, hu.resets⟩
    exact hs₁.still h hu₁
  | erased c k hm hc hn h =>
    subst hg
    have hbooks : Books kernel ((s.g.setContainer c { k with installCount := 0 }).setMap signo none) :=
      hs.books.recount signo hc (Or.inr ⟨rfl, fun signo' hd => hi.wf.mapInj signo' signo c hd hm⟩)
    have hbooks' : Books kernel s'.g :=
      ((hbooks.setCount (s.g.sighandlersCount - 1)).setKernel signo k.oldHandler).still
        ⟨h.map, h.kernel, h.count, h.next, h.saved⟩
    refine hs.change (hno c k hm hc hn) hbooks' (fun t ht => ?_) ?_ hu
    · rw [h.map, h.kernel]
      simp [ht]
    · simp [base, h.map, h.kernel, hs.books.saved signo c k hm hc]

/-- A call that touches no hand-off is replaced by others that touch none. -/
theorem replaced {a : Act} {ys rest : List Act} (h : s.acts.Perm ([a] ++ rest))
    (h' : s'.acts = ys ++ rest) (hy : ∀ y ∈ ys, y.current = none) (ha : a.resets = none) :
    Untouched s s' := by
  refine .replace h h' (fun y hym x hx => ?_) fun b hb signo hx => ?_
  · rw [hy y hym] at hx
    cases hx
  · rw [List.mem_singleton.mp hb, ha] at hx
    cases hx

theorem added {b : Act} (h : s'.acts = b :: s.acts) (hb : b.current = none) : Untouched s s' := by
  refine .replace (l := []) (n := [b]) (List.Perm.refl _) h (fun y hy x hx => ?_) (by simp)
  rw [List.mem_singleton.mp hy, hb] at hx
  cases hx

theorem raised {p : Platform} {acts : List Act} (t : Tid) (signo : Signo) (delivered : Bool)
    (hu : ∀ u : State, u.acts = acts → Untouched s u) :
    Untouched s (s.pushRaise p t signo delivered acts) := by
  have hb := hu { s with acts } rfl
  have cons : ∀ {u : State} {b : Act}, u.acts = b :: acts → b.current = none → Untouched s u := by
    intro u b h hcur
    constructor
    · intro y hy x hx
      rw [h] at hy
      rcases List.mem_cons.mp hy with rfl | hy
      · rw [hcur] at hx
        cases hx
      · exact hb.current y hy x hx
    · intro y hy signo hs
      obtain ⟨z, hz, hzs⟩ := hb.resets y hy signo hs
      exact ⟨z, h ▸ List.mem_cons_of_mem _ hz, hzs⟩
  unfold State.pushRaise
  split
  · split
    · exact cons rfl rfl
    · exact hb
  · exact cons rfl rfl

variable {p : Platform} {act : Action} {L : Layout}

/-- A step is a section of a call, or it leaves the library's state and the hand-offs alone. -/
theorem untouched_moves (hrec : ∀ b ∈ s.discards act, b.resets = none)
    (h : Wg14Signals.step p s act = .ok s') :
    (s'.g = s.g ∧ Untouched s s') ∨ ∃ t a ys hds, s.top t = some a ∧ Turn p s a ys hds s'.g ∧
      s'.acts = ys ++ s.others t ∧ Sections s act t a := by
  cases step_moves h with
  | idle h =>
    subst h
    exact Or.inl ⟨rfl, fun b hb x hx => ⟨b, hb, hx⟩, fun b hb signo hx => ⟨b, hb, hx⟩⟩
  | begins t call installs hb h =>
    subst h
    refine Or.inl ⟨rfl, added rfl ?_⟩
    cases hb <;> rfl
  | destroys t hd hf h =>
    subst h
    exact Or.inl ⟨rfl, added rfl rfl⟩
  | raises t signo delivered h =>
    subst h
    refine Or.inl ⟨(pushRaise_frame t signo delivered s.acts).1, raised t signo delivered ?_⟩
    exact fun u hu => .replace (l := []) (n := []) (List.Perm.refl _) hu (by simp) (by simp)
  | reenters t a r phase ht hc hp h =>
    subst h
    refine Or.inl ⟨(pushRaise_frame a.tid r.signo true _).1, raised _ _ _ fun u hu => ?_⟩
    refine .replace (l := [a]) (n := [a.phase r phase]) (find_perm ht) hu ?_ ?_
    · intro y hy x hx
      rw [List.mem_singleton.mp hy] at hx
      refine ⟨a, List.mem_singleton_self a, ?_⟩
      rcases hp with ⟨sa, hr, _, rfl⟩ | ⟨current, hr, rfl⟩
      · cases hx
      · rw [← hx]
        simp [Act.current, hc, hr]
    · intro b hb signo hx
      rw [List.mem_singleton.mp hb] at hx
      refine ⟨_, List.mem_singleton_self _, ?_⟩
      rcases hp with ⟨sa, hr, _, rfl⟩ | ⟨current, hr, rfl⟩
      · simp [Act.resets, hc, hr] at hx
      · rw [← hx]
        simp [Act.resets, hc, hr]
  | recovers t a r f fs ht hd hc hr hf h =>
    subst h
    refine Or.inl ⟨rfl, fun b hb x hx => ⟨b, List.mem_of_mem_filter hb, hx⟩, fun b hb signo hx => ?_⟩
    refine ⟨b, List.mem_filter.mpr ⟨hb, ?_⟩, hx⟩
    -- a discarded call would have been past its reset
    refine Bool.not_eq_true' _ ▸ Bool.eq_false_iff.mpr fun hdis => ?_
    have hnone := hrec b (by
      simp only [State.discards, hd, ht, Option.map_some, hc, hr, hf, ↓reduceIte]
      exact List.mem_filter.mpr ⟨hb, hdis⟩)
    rw [hnone] at hx
    cases hx
  | turns t a ys hds ht turn ha hh hl hn hsec => exact Or.inr ⟨t, a, ys, hds, ht, turn, ha, hsec⟩

theorem step (hi : Inv p s L) (hs : Settled kernel s) (hser : Serial s act)
    (h : Wg14Signals.step p s act = .ok s') : Settled kernel s' := by
  have same : s'.g = s.g → Untouched s s' → Settled kernel s' :=
    fun hg hu => hs.still (hg ▸ Still.refl _) hu
  rcases untouched_moves hser.recovery h with ⟨hg, hu⟩ | ⟨t, a, ys, hds, ht, turn, ha, hsec⟩
  · exact same hg hu
  · have hperm : s.acts.Perm ([a] ++ s.others t) := find_perm ht
    have hmem : a ∈ s.acts := List.mem_of_find?_eq_some ht
    rcases turn_handoff turn with ⟨hys, hres, hnot⟩ | ⟨r, hc, hq | ⟨current, hr | hk | hre⟩⟩
    · have hu := replaced hperm ha hys hres
      rcases turn_dispositions turn with hst | ⟨set, done, signo, todo, ok, hc, hi'⟩ |
        ⟨signo, todo, hc, hu'⟩ | ⟨r, hand, sa, hc, hr, _⟩
      · exact hs.still hst hu
      · obtain ⟨env, hact⟩ := hsec.advances (by simp [hc, Call.runsUserCode])
        have hno := hser.install t env a set done signo todo hact ht hc
        exact hs.installed hi hno hi' hu
      · obtain ⟨env, hact⟩ := hsec.advances (by rcases hc with hc | hc <;> simp [hc, Call.runsUserCode])
        exact hs.uninstalled hi (fun c k => hser.uninstall t env a signo todo c k hact ht hc) hu' hu
      · simp [Act.handoff, hc, hr] at hnot
    · obtain ⟨hr, hg, rfl⟩ := hq
      obtain ⟨env, hact⟩ := hsec.advances (by simp [hc, Call.runsUserCode, hr])
      have hentry := hs.entry (hser.query t env a r hact ht hc hr)
      refine ⟨hg ▸ hs.books, fun b hb signo sa hx => ?_, fun signo => ?_⟩
      · rw [ha] at hb
        rw [hg]
        rcases List.mem_cons.mp hb with rfl | hb
        · cases hx
          exact hentry
        · exact hs.currents b (List.mem_of_mem_eraseP hb) signo sa hx
      · rw [hg, ha]
        rcases hs.entries signo with hk | ⟨b, hb, hx⟩
        · exact Or.inl hk
        · refine Or.inr ?_
          rcases List.mem_cons.mp (hperm.mem_iff.mp hb) with rfl | hb
          · simp [Act.resets, hc, hr] at hx
          · exact ⟨b, List.mem_cons_of_mem _ hb, hx⟩
    · obtain ⟨hr, hg, rfl⟩ := hr
      refine ⟨hg ▸ hs.books.setKernel _ _, fun b hb signo sa hx => ?_, fun signo => ?_⟩
      · rw [ha] at hb
        rw [hg]
        rcases List.mem_cons.mp hb with rfl | hb
        · refine hs.currents a hmem signo sa ?_
          rw [← hx]
          simp [Act.current, hc, hr]
        · exact hs.currents b (List.mem_of_mem_eraseP hb) signo sa hx
      · rw [ha]
        by_cases he : signo = r.signo
        · exact Or.inr ⟨_, List.mem_cons_self, by simp [Act.resets, he]⟩
        · rw [hg]
          rcases hs.entries signo with hk | ⟨b, hb, hx⟩
          · exact Or.inl (by simpa [he] using hk)
          · refine Or.inr ?_
            rcases List.mem_cons.mp (hperm.mem_iff.mp hb) with rfl | hb
            · simp [Act.resets, hc, hr] at hx
            · exact ⟨b, List.mem_cons_of_mem _ hb, hx⟩
    · obtain ⟨hr, hg, rfl⟩ := hk
      refine same hg (.replace hperm ha (fun y hy x hx => ?_) fun b hb signo hx => ?_)
      · refine ⟨a, List.mem_singleton_self a, ?_⟩
        rw [List.mem_singleton.mp hy] at hx
        rw [← hx]
        simp [Act.current, hc, hr]
      · refine ⟨_, List.mem_singleton_self _, ?_⟩
        rw [List.mem_singleton.mp hb] at hx
        rw [← hx]
        simp [Act.resets, hc, hr]
    · obtain ⟨hr, hg, rfl⟩ := hre
      have hcur := hs.currents a hmem r.signo current (by simp [Act.current, hc, hr])
      refine ⟨hg ▸ hs.books.setKernel _ _, fun b hb signo sa hx => ?_, fun signo => ?_⟩
      · rw [ha] at hb
        rw [hg]
        exact hs.currents b (List.mem_of_mem_eraseP hb) signo sa hx
      · by_cases he : signo = r.signo
        · rw [hg, he, hcur]
          exact Or.inl (by simp [base])
        · rw [hg, ha]
          rcases hs.entries signo with hk | ⟨b, hb, hx⟩
          · exact Or.inl (by simpa [he] using hk)
          · refine Or.inr ?_
            rcases List.mem_cons.mp (hperm.mem_iff.mp hb) with rfl | hb
            · simp only [Act.resets, hc, hr, Option.some.injEq] at hx
              exact absurd hx.symm he
            · exact ⟨b, hb, hx⟩

end Settled

theorem settled_initial (kernel : Signo → Sigaction) : Settled kernel (State.initial kernel) := by
  refine ⟨⟨?_, ?_, ?_⟩, ?_, ?_⟩ <;> simp [State.initial, Heap.empty, base]

theorem settled_run {p : Platform} {kernel : Signo → Sigaction} {s : State}
    (hr : Run (step p) Serial (State.initial kernel) s) : Settled kernel s := by
  have hall : (∃ L, Inv p s L) ∧ Settled kernel s := by
    refine hr.invariant (I := fun s => (∃ L, Inv p s L) ∧ Settled kernel s)
      ⟨⟨_, inv_initial p kernel⟩, settled_initial kernel⟩ ?_
    rintro s act s' ⟨⟨L, hi⟩, hs⟩ hser h
    obtain ⟨L', hi', _⟩ := hi.step h
    exact ⟨⟨L', hi'⟩, hs.step hi hser h⟩
  exact hall.2

/-- While hand-offs overlap nothing they could disturb, a signal without a hand-off in its
window has the library's handler exactly when it is installed, and else the
disposition from before the library; which is also all that containers save. -/
theorem dispositions_kept (p : Platform) (kernel : Signo → Sigaction)
    (hk : ∀ signo, (kernel signo).handler ≠ .raw) {s : State}
    (hr : Run (step p) Serial (State.initial kernel) s) :
    (∀ signo, (∀ a ∈ s.acts, a.resets ≠ some signo) →
      (s.g.kernel signo = .raw ↔ ∃ c, s.g.map signo = some c) ∧
        (s.g.map signo = none → s.g.kernel signo = kernel signo)) ∧
    ∀ c k, s.g.containers c = some k → k.oldHandler.handler ≠ .raw := by
  have hs := settled_run hr
  constructor
  · intro signo hno
    rw [hs.entry hno]
    cases hm : s.g.map signo with
    | none =>
      refine ⟨⟨fun he => absurd ?_ (hk signo), by simp⟩, fun _ => by simp [base, hm]⟩
      have hker : kernel signo = .raw := by simpa [base, hm] using he
      rw [hker]
      rfl
    | some c => exact ⟨⟨fun _ => ⟨c, rfl⟩, fun _ => by simp [base, hm]⟩, by simp⟩
  · intro c k hc
    obtain ⟨signo, ho⟩ := hs.books.before c k hc
    rw [ho]
    exact hk signo

/-- A call that is alone in progress meets no other. -/
theorem serial_of_alone {s : State} {act : Action} (hl : s.acts.length ≤ 1)
    (hd : s.discards act = []) : Serial s act := by
  have alone : ∀ {t a}, s.top t = some a → ∀ b ∈ s.acts, b = a := by
    intro t a ht b hb
    have ha : a ∈ s.acts := List.mem_of_find?_eq_some ht
    obtain ⟨x, hx⟩ := List.length_eq_one_iff.mp
      (Nat.le_antisymm hl (List.length_pos_of_mem ha))
    rw [hx, List.mem_singleton] at ha hb
    exact hb.trans ha.symm
  refine ⟨fun t env a r _ ht hc hr b hb => ?_, fun t env a set done signo todo _ ht hc _ b hb sa => ?_,
    fun t env a signo todo c k _ ht hc _ _ _ b hb sa => ?_, fun b hb => ?_⟩
  · simp [alone ht b hb, Act.resets, hc, hr]
  · simp [alone ht b hb, Act.current, hc]
  · rcases hc with hc | hc <;> simp [alone ht b hb, Act.current, hc]
  · rw [hd] at hb
    cases hb

/-- Thread `t` raises signal 1 and goes on to its default action, up to the query. -/
def handOff (t : Tid) : List Action := [.raise t 1, .advance t {}, .advance t {}]

theorem dispositions_kept_once :
    ∃ s, Run (step .tiny) Serial (State.initial fun _ => .dfl) s ∧ s.acts = [] ∧ s.nextId = 2 ∧
      s.g.map 1 = some 0 ∧ s.g.kernel 1 = .raw := by
  obtain ⟨s, hr, hq⟩ := run_of_ends (f := step .tiny) (r := Serial)
    (s := State.initial fun _ => .dfl)
    (c := fun s act => decide (s.acts.length ≤ 1) && (s.discards act).isEmpty)
    (q := fun s => s.acts.isEmpty && s.nextId == 2 && s.g.map 1 == some 0)
    (l := installOne ++ handOff 1 ++ List.replicate 4 (.advance 1 {}))
    (fun s act h => by
      simp only [Bool.and_eq_true, decide_eq_true_eq, List.isEmpty_iff] at h
      exact serial_of_alone h.1 h.2)
    (by decide)
  simp only [Bool.and_eq_true, List.isEmpty_iff, beq_iff_eq] at hq
  obtain ⟨⟨ha, hn⟩, hm⟩ := hq
  have hkept := (dispositions_kept .tiny (fun _ => .dfl) (fun _ => by decide) hr).1 1 (by simp [ha])
  exact ⟨s, hr, ha, hn, hm, hkept.1.mpr ⟨0, hm⟩⟩

/-- Without the condition: of two hand-offs of one signal the second reads what the first has
reset, and the library's handler is gone for good. And a hand-off that restores
after an uninstall leaves the library's handler behind, which the next install
then saves as the program's. -/
theorem dispositions_corrupted :
    (∃ s, Run (step .tiny) (fun _ _ => True) (State.initial fun _ => .dfl) s ∧ s.acts = [] ∧
      s.g.map 1 = some 0 ∧ s.g.kernel 1 = .dfl) ∧
    ∃ s, Run (step .tiny) (fun _ _ => True) (State.initial fun _ => .dfl) s ∧ s.acts = [] ∧
      ∃ k, s.g.containers 1 = some k ∧ k.oldHandler = .raw := by
  constructor
  · obtain ⟨s, hr, hq⟩ := run_of_ends (f := step .tiny) (r := fun _ _ => True)
      (s := State.initial fun _ => .dfl) (c := fun _ _ => true)
      (q := fun s => s.acts.isEmpty && s.g.map 1 == some 0 && s.g.kernel 1 == .dfl)
      (l := installOne ++ handOff 1 ++ handOff 2 ++ [.advance 1 {}, .advance 1 {}, .advance 2 {},
        .advance 1 {}, .advance 1 {}] ++ List.replicate 3 (.advance 2 {}))
      (fun _ _ _ => trivial) (by decide)
    simp only [Bool.and_eq_true, List.isEmpty_iff, beq_iff_eq] at hq
    exact ⟨s, hr, hq.1.1, hq.1.2, hq.2⟩
  · obtain ⟨s, hr, hq⟩ := run_of_ends (f := step .tiny) (r := fun _ _ => True)
      (s := State.initial fun _ => .dfl) (c := fun _ _ => true)
      (q := fun s => s.acts.isEmpty && (s.g.containers 1).any fun k => k.oldHandler == .raw)
      (l := installOne ++ handOff 1 ++ [.advance 1 {}, .siguninstall 0 0, .advance 0 {},
        .advance 0 {}] ++ List.replicate 3 (.advance 1 {}) ++ installOne)
      (fun _ _ _ => trivial) (by decide)
    simp only [Bool.and_eq_true, List.isEmpty_iff, Option.any_eq_true, beq_iff_eq] at hq
    obtain ⟨ha, k, hc, hk⟩ := hq
    exact ⟨s, hr, ha, k, hc, hk⟩

end Wg14Signals
