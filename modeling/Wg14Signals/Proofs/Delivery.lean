import Wg14Signals.Proofs.Activations
import Wg14Signals.Proofs.Dispositions
import Wg14Signals.Proofs.Invariant

namespace Wg14Signals
open Lib

/-- Every step the program and the kernel may take. -/
def Anyhow (_ : State) (_ : Action) : Prop := True

/-- The activation is still in progress. -/
def State.runs (s : State) (i : Nat) : Prop := ∃ a ∈ s.acts, a.id = i

/-- The phase of a raise in progress. -/
def State.inPhase (s : State) (i : Nat) (phase : Phase) : Prop :=
  ∃ a ∈ s.acts, a.id = i ∧ ∃ r, a.call = .raise r ∧ r.phase = phase

/-- What has become of a raise when `invoke_sigaction` has begun its action. -/
def State.took (s : State) (i : Nat) : Invoked → Prop
  | .calls h => s.inPhase i (.handler h)
  | .default => s.inPhase i (.handoff .query)
  | .ignores => ¬ s.runs i

/-- The action of raise `i` is the one its first locked section, in a state after `s₁`, found
in the signal's container, which had saved it already if it was there in `s₁`; or
the default action, if the section found no container. -/
def Found (p : Platform) (s₁ : State) (i : Nat) (signo : Signo) (s : State) (sa : Sigaction) :
    Prop :=
  ∃ u u' t env, Run (step p) Anyhow s₁ u ∧ (u.top t).map Act.id = some i ∧
    step p u (.advance t env) = .ok u' ∧ Run (step p) Anyhow u' s ∧
    ((∃ c k, u.g.map signo = some c ∧ u.g.containers c = some k ∧ sa = k.oldHandler ∧
        ∀ k₁, s₁.g.containers c = some k₁ → sa = k₁.oldHandler) ∨
      u.g.map signo = none ∧ sa = .dfl)

/-- A delivery in progress, and the action it is heading for once it has looked. -/
def Delivery (p : Platform) (s₁ : State) (i : Nat) (signo : Signo) (s : State) : Prop :=
  ∀ a ∈ s.acts, a.id = i → ∃ r, a.call = .raise r ∧ r.signo = signo ∧ r.delivered = true ∧
    (∀ pin, r.phase = .deciding pin → Found p s₁ i signo s pin.sa) ∧
    ∀ sa, r.phase = .invoke sa → Found p s₁ i signo s sa

section

variable {p : Platform} {s s' s₁ : State} {act : Action} {i : Nat} {signo : Signo}

theorem Found.step {sa : Sigaction} (hf : Found p s₁ i signo s sa)
    (h : Wg14Signals.step p s act = .ok s') : Found p s₁ i signo s' sa := by
  obtain ⟨u, u', t, env, hr, ht, hu, hr', hsa⟩ := hf
  exact ⟨u, u', t, env, hr, ht, hu, .tail act hr' trivial h, hsa⟩

/-- What the first locked section of `stdc_raise` finds. -/
theorem raiseEnter_found {g g' : Global} {e : Entered} (h : raiseEnter g signo = .ok (e, g')) :
    (e = .absent ∧ g.map signo = none) ∨ ∃ c k, g.map signo = some c ∧ g.containers c = some k ∧
      (e = .unclaimed k.oldHandler ∨ ∃ current value, e = .deciding c current value k.oldHandler) := by
  unfold raiseEnter at h
  split at h
  · rename_i hm
    simp only [pure_ok, Prod.mk.injEq] at h
    exact Or.inl ⟨h.1.symm, hm⟩
  · rename_i c hm
    obtain ⟨k, hk, h⟩ := bind_ok.mp h
    refine Or.inr ⟨c, k, hm, readContainer_ok hk, ?_⟩
    simp only at h
    split at h
    · obtain ⟨⟨value, g₁⟩, _, h⟩ := bind_ok.mp h
      simp only [pure_ok, Prod.mk.injEq] at h
      exact Or.inr ⟨_, value, h.1.symm⟩
    · obtain ⟨g₁, _, h⟩ := bind_ok.mp h
      simp only [pure_ok, Prod.mk.injEq] at h
      exact Or.inl h.1.symm

/-- A section of a raise leaves a raise of the same signal. It settles its action when
it first looks at the map, and then sticks to it. -/
theorem turn_raise {a b : Act} {r : Raise} {ys : List Act} {hs : List Handle} {g' : Global}
    (turn : Turn p s a ys hs g') (hc : a.call = .raise r) (hb : b ∈ ys) :
    ∃ phase, b = a.phase r phase ∧ ∀ sa, (phase = .invoke sa ∨ ∃ pin, phase = .deciding pin ∧
        pin.sa = sa) →
      (r.phase = .frames [] ∧ ((∃ c k, s.g.map r.signo = some c ∧ s.g.containers c = some k ∧
        sa = k.oldHandler) ∨ s.g.map r.signo = none ∧ sa = .dfl)) ∨
      ∃ pin, r.phase = .deciding pin ∧ pin.sa = sa := by
  have hraise : ∀ {r'}, a.call = .raise r' → r' = r := fun h => Call.raise.inj (h.symm.trans hc)
  cases turn with
  | absent r' g' hc' hr op =>
    cases hraise hc'
    cases hd : r.delivered with
    | false => simp [hd] at hb
    | true =>
      simp only [hd, ↓reduceIte, List.mem_singleton] at hb
      refine ⟨_, hb, fun sa hsa => Or.inl ⟨hr, Or.inr ?_⟩⟩
      rcases raiseEnter_found op with ⟨_, hm⟩ | ⟨_, _, _, _, he | ⟨_, _, he⟩⟩
      · rcases hsa with hsa | ⟨pin, hsa, _⟩
        · cases hsa
          exact ⟨hm, rfl⟩
        · cases hsa
      · cases he
      · cases he
  | enter r' item current value sa g' hc' hr op =>
    cases hraise hc'
    refine ⟨_, List.mem_singleton.mp hb, fun sa' hsa => Or.inl ⟨hr, Or.inl ?_⟩⟩
    rcases raiseEnter_found op with ⟨he, _⟩ | ⟨c, k, hm, hk, he | ⟨_, _, he⟩⟩
    · cases he
    · cases he
    · cases he
      rcases hsa with hsa | ⟨pin, hsa, hpin⟩
      · cases hsa
      · cases hsa
        exact ⟨item, k, hm, hk, hpin.symm⟩
  | pass r' sa g' hc' hr op =>
    cases hraise hc'
    refine ⟨_, List.mem_singleton.mp hb, fun sa' hsa => Or.inl ⟨hr, Or.inl ?_⟩⟩
    rcases raiseEnter_found op with ⟨he, _⟩ | ⟨c, k, hm, hk, he | ⟨_, _, he⟩⟩
    · cases he
    · cases he
      rcases hsa with hsa | ⟨pin, hsa, _⟩
      · cases hsa
        exact ⟨c, k, hm, hk, rfl⟩
      · cases hsa
    · cases he
  | walk r' pin cl current value g' hc' hr ha op =>
    cases hraise hc'
    refine ⟨_, List.mem_singleton.mp hb, fun sa hsa => Or.inr ⟨pin, hr, ?_⟩⟩
    rcases hsa with hsa | ⟨pin', hsa, hpin⟩
    · cases hsa
    · cases hsa
      exact hpin
  | unclaimed r' pin cl g' hc' hr ha op =>
    cases hraise hc'
    refine ⟨_, List.mem_singleton.mp hb, fun sa hsa => Or.inr ⟨pin, hr, ?_⟩⟩
    rcases hsa with hsa | ⟨pin', hsa, _⟩
    · cases hsa
      rfl
    · cases hsa
  | abandon r' pin g' hc' hr ha op =>
    cases hraise hc'
    refine ⟨_, List.mem_singleton.mp hb, fun sa hsa => Or.inr ⟨pin, hr, ?_⟩⟩
    rcases hsa with hsa | ⟨pin', hsa, hpin⟩
    · cases hsa
    · cases hsa
      exact hpin
  | call r' sa h hc' hr hi | default r' sa hc' hr hi | query r' hc' hr | reset r' current hc' hr
  | kill r' current hc' hr | nextFrame r' f fs hc' hr =>
    cases hraise hc'
    refine ⟨_, List.mem_singleton.mp hb, fun sa hsa => ?_⟩
    rcases hsa with hsa | ⟨pin, hsa, _⟩ <;> cases hsa
  | ignore | restore | resumed | claimed | jump | handled => cases hb
  | _ => simp_all

theorem Delivery.step (hd : Delivery p s₁ i signo s) (hr : Run (step p) Anyhow s₁ s)
    (hf : ∀ c, s₁.g.nextContainer ≤ c → s₁.g.containers c = none) (hi : i < s.nextId)
    (h : Wg14Signals.step p s act = .ok s') : Delivery p s₁ i signo s' := by
  intro b hb hid
  rcases act_step h hb with hold | hnew | ⟨t, a, ht, hab, hturn⟩
  · obtain ⟨r, hc, hs, hdel, hpin, hinv⟩ := hd b hold hid
    exact ⟨r, hc, hs, hdel, fun pin hp => (hpin pin hp).step h, fun sa hp => (hinv sa hp).step h⟩
  · exact absurd hi (by rw [← hid, hnew]; exact Nat.lt_irrefl _)
  · have haid : a.id = i := hab.symm.trans hid
    obtain ⟨r, hc, hs, hdel, hpin, hinv⟩ := hd a (List.mem_of_find?_eq_some ht) haid
    rcases hturn with ⟨ys, hs', turn, hby, hsec⟩ | ⟨r', phase, hc', rfl, hphase, _⟩
    · obtain ⟨phase, rfl, hsa⟩ := turn_raise turn hc hby
      -- whatever action the raise now has, it has just found it or had it before
      have found : ∀ sa, (phase = .invoke sa ∨ ∃ pin, phase = .deciding pin ∧ pin.sa = sa) →
          Found p s₁ i signo s' sa := by
        intro sa hphase
        rcases hsa sa hphase with ⟨hr', hfound⟩ | ⟨pin, hp, rfl⟩
        · obtain ⟨env, rfl⟩ := hsec.advances (by simp [hc, Call.runsUserCode, hr'])
          refine ⟨s, s', t, env, hr, by simp [ht, haid], h, .refl _, ?_⟩
          rw [hs] at hfound
          rcases hfound with ⟨c, k, hm, hk, he⟩ | hfound
          · refine Or.inl ⟨c, k, hm, hk, he, fun k₁ hk₁ => ?_⟩
            rcases (keeps_run hr).saved c k hk with ⟨k', hk', ho⟩ | hle
            · rw [hk₁] at hk'
              cases hk'
              exact he.trans ho
            · rw [hf c hle] at hk₁
              cases hk₁
          · exact Or.inr hfound
        · exact (hpin pin hp).step h
      exact ⟨_, rfl, hs, hdel, fun pin hp => found pin.sa (Or.inr ⟨pin, hp, rfl⟩),
        fun sa hp => found sa (Or.inl hp)⟩
    · cases Call.raise.inj (hc'.symm.trans hc)
      refine ⟨_, rfl, hs, hdel, fun pin hp => ?_, fun sa hp => ?_⟩
      · rcases hphase with ⟨_, _, rfl⟩ | ⟨_, _, rfl⟩ <;> cases hp
      · rcases hphase with ⟨_, _, rfl⟩ | ⟨_, _, rfl⟩ <;> cases hp

/-- Delivery of a signal begins a raise of it. -/
theorem deliver_begins {t : Tid} (hn : Named s) (hsig : 1 ≤ signo ∧ signo < p.nsig)
    (h : step p s (.deliver t signo) = .ok s₁) :
    s₁.g = s.g ∧ s.nextId < s₁.nextId ∧ Delivery p s₁ s.nextId signo s₁ := by
  simp only [step] at h
  split at h
  · simp only [pure_ok, State.pushRaise] at h
    rw [if_neg (not_or.mpr ⟨Int.not_lt.mpr hsig.1, Int.not_le.mpr hsig.2⟩)] at h
    subst h
    refine ⟨rfl, Nat.lt_succ_self _, fun a ha hid => ?_⟩
    rcases List.mem_cons.mp ha with rfl | ha
    · exact ⟨_, rfl, rfl, rfl, by simp, by simp⟩
    · refine absurd (hn.fresh a.id ?_) (by rw [hid]; exact Nat.lt_irrefl _)
      exact List.mem_map_of_mem (List.mem_append.mpr (Or.inl ha))
  · simp at h

/-- The other activations have other names. -/
theorem Named.others (hn : Named s) {t : Tid} {a : Act} (ht : s.top t = some a) :
    ∀ b ∈ s.others t, b.id ≠ a.id := by
  have hd := (ids_split (l := [a]) (r := s.others t) (find_perm ht)).nodup_iff.mp hn.distinct
  intro b hb he
  refine (List.nodup_cons.mp hd).1 (he ▸ List.mem_map_of_mem ?_)
  exact List.mem_append.mpr (Or.inl hb)

theorem runs_of_phase {a : Act} {r : Raise} {phase : Phase} {rest : List Act}
    (h : s.acts = a.phase r phase :: rest) : s.runs a.id :=
  ⟨a.phase r phase, by rw [h]; exact List.mem_cons_self, phase_id a r phase⟩

/-- `invoke_sigaction` begins the action it is given. -/
theorem invoke_took {t : Tid} {env : InstallEnv} {a : Act} {r : Raise} {sa : Sigaction}
    (hn : Named s) (ht : s.top t = some a) (hc : a.call = .raise r) (hr : r.phase = .invoke sa)
    (h : step p s (.advance t env) = .ok s') : s'.took a.id (invokeSigaction p sa r.signo) := by
  simp only [step, ht, callSection, hc, raiseSection, hr] at h
  split at h
  · rename_i hi
    rw [hi]
    simp only [pure_ok] at h
    subst h
    obtain ⟨new, hnew, _⟩ := pushRaise_acts (p := p) (s := s) a.tid r.signo true
      (a.phase r (.handler .raw) :: s.others t)
    exact ⟨a.phase r (.handler .raw), by rw [hnew]; simp, rfl, _, rfl, rfl⟩
  · rename_i h' _ hi
    rw [hi]
    simp only [pure_ok] at h
    subst h
    exact ⟨a.phase r (.handler h'), List.mem_cons_self, rfl, _, rfl, rfl⟩
  · rename_i hi
    rw [hi]
    simp only [pure_ok] at h
    subst h
    exact ⟨a.phase r (.handoff .query), List.mem_cons_self, rfl, _, rfl, rfl⟩
  · rename_i hi
    rw [hi]
    simp only [pure_ok] at h
    subst h
    rintro ⟨b, hb, hid⟩
    exact hn.others ht b hb hid

/-- A delivered raise does not end at its first look at the map. -/
theorem look_runs {t : Tid} {env : InstallEnv} {a : Act} {r : Raise} (ht : s.top t = some a)
    (hc : a.call = .raise r) (hdel : r.delivered = true) (hr : r.phase = .frames [])
    (h : step p s (.advance t env) = .ok s') : s'.runs a.id := by
  simp only [step, ht, callSection, hc, raiseSection, hr] at h
  obtain ⟨⟨e, g⟩, _, h⟩ := bind_ok.mp h
  cases e with
  | absent =>
    simp only [hdel, ↓reduceIte, pure_ok] at h
    subst h
    exact runs_of_phase rfl
  | deciding item current value sa =>
    simp only [pure_ok] at h
    subst h
    exact runs_of_phase rfl
  | unclaimed sa =>
    simp only [pure_ok] at h
    subst h
    exact runs_of_phase rfl

/-- Nor does a raise end because a decider declines it. -/
theorem decline_runs {t : Tid} {a : Act} {r : Raise} (ht : s.top t = some a)
    (hc : a.call = .raise r) (h : step p s (.decide t .nextDecider) = .ok s') :
    s'.runs a.id := by
  simp only [step, ht, hc, decideSection] at h
  split at h
  · simp only [pure_ok] at h
    subst h
    exact runs_of_phase rfl
  · split at h
    · simp at h
    · obtain ⟨⟨l, g⟩, hleave, h⟩ := bind_ok.mp h
      cases l with
      | claimed =>
        obtain ⟨⟨next, g₁⟩, _, hleave⟩ := bind_ok.mp hleave
        simp only [bne_self_eq_false, Bool.false_eq_true, ↓reduceIte] at hleave
        split at hleave
        · obtain ⟨_, _, hleave⟩ := bind_ok.mp hleave
          simp at hleave
        · obtain ⟨_, _, hleave⟩ := bind_ok.mp hleave
          simp at hleave
      | deciding current value =>
        simp only [pure_ok] at h
        subst h
        exact runs_of_phase rfl
      | unclaimed =>
        simp only [pure_ok] at h
        subst h
        exact runs_of_phase rfl
  · simp at h

theorem delivery_run (hn : Named s₁) (hf : ∀ c, s₁.g.nextContainer ≤ c → s₁.g.containers c = none)
    (hi : i < s₁.nextId) (hd : Delivery p s₁ i signo s₁) (hr : Run (step p) Anyhow s₁ s) :
    Named s ∧ Delivery p s₁ i signo s := by
  have hall : Run (step p) Anyhow s₁ s ∧ i < s.nextId ∧ Named s ∧ Delivery p s₁ i signo s := by
    refine hr.invariant
      (I := fun s => Run (step p) Anyhow s₁ s ∧ i < s.nextId ∧ Named s ∧ Delivery p s₁ i signo s)
      ⟨.refl _, hi, hn, hd⟩ ?_
    rintro u act v ⟨hu, hlt, hnamed, hdel⟩ - h
    refine ⟨.tail act hu trivial h, ?_, hnamed.step h, hdel.step hu hf hlt h⟩
    rcases ids_step h with ⟨_, hle⟩ | ⟨_, he⟩
    · exact Nat.lt_of_lt_of_le hlt hle
    · exact he ▸ Nat.lt_succ_of_lt hlt
  exact ⟨hall.2.2.1, hall.2.2.2⟩

end

/-- A delivery is given up only when a decider claims it: it goes on after its look at the
map and after every decider that declines. It then takes the action it found. -/
theorem unclaimed_delivery (p : Platform) (kernel : Signo → Sigaction) {s₀ s₁ s : State}
    {t t' : Tid} {signo : Signo} {a : Act}
    (hr₀ : Run (step p) Anyhow (State.initial kernel) s₀) (hsig : 1 ≤ signo ∧ signo < p.nsig)
    (hd : step p s₀ (.deliver t signo) = .ok s₁) (hr : Run (step p) Anyhow s₁ s)
    (ht : s.top t' = some a) (hid : a.id = s₀.nextId) :
    ∃ r, a.call = .raise r ∧
      match r.phase with
      | .frames [] => ∀ env s', step p s (.advance t' env) = .ok s' → s'.runs a.id
      | .frames (_ :: _) => ∀ s', step p s (.decide t' .nextDecider) = .ok s' → s'.runs a.id
      | .deciding _ => ∀ s', step p s (.decide t' .nextDecider) = .ok s' → s'.runs a.id
      | .invoke sa => Found p s₁ a.id signo s sa ∧
          (∀ env s', step p s (.advance t' env) = .ok s' →
            s'.took a.id (invokeSigaction p sa signo)) ∧
          (invokeSigaction p sa signo = .default → sa.handler = .dfl)
      | _ => True := by
  have hn₀ := named_run hr₀
  obtain ⟨L, hi₀⟩ := inv_run hr₀
  obtain ⟨hg, hlt, hbegin⟩ := deliver_begins hn₀ hsig hd
  have hfresh : ∀ c, s₁.g.nextContainer ≤ c → s₁.g.containers c = none := by
    rw [hg]
    exact hi₀.wf.containerFresh
  obtain ⟨hn, hdel⟩ := delivery_run (hn₀.step hd) hfresh hlt hbegin hr
  obtain ⟨r, hc, rfl, hdelivered, _, hinv⟩ := hdel a (List.mem_of_find?_eq_some ht) hid
  refine ⟨r, hc, ?_⟩
  split
  · exact fun env s' h => look_runs ht hc hdelivered ‹_› h
  · exact fun s' h => decline_runs ht hc h
  · exact fun s' h => decline_runs ht hc h
  · rename_i sa hph
    refine ⟨hid ▸ hinv sa hph, fun env s' h => invoke_took hn ht hc hph h, fun hdfl => ?_⟩
    unfold invokeSigaction at hdfl
    split at hdfl
    · cases hdfl
    · split at hdfl
      · assumption
      · cases hdfl
      · cases hdfl
  · trivial

/-- The phase of a raise. -/
def Act.raising (a : Act) : Option Phase :=
  match a.call with
  | .raise r => some r.phase
  | _ => none

theorem raising_call {a : Act} {phase : Phase} (h : a.raising = some phase) :
    ∃ r, a.call = .raise r ∧ r.phase = phase := by
  unfold Act.raising at h
  split at h
  · rename_i r hc
    exact ⟨r, hc, Option.some.inj h⟩
  · cases h

/-- A handler the program had before the library. -/
def previous : Sigaction := { handler := .user 7 }

theorem unclaimed_delivery_previous :
    ∃ s₀ s₁ s a r, Run (step .tiny) Anyhow (State.initial fun _ => previous) s₀ ∧
      step .tiny s₀ (.deliver 1 1) = .ok s₁ ∧ Run (step .tiny) Anyhow s₁ s ∧ s.top 1 = some a ∧
      a.call = .raise r ∧ r.phase = .invoke previous ∧ Found .tiny s₁ a.id 1 s previous ∧
      ∀ env s', step .tiny s (.advance 1 env) = .ok s' → s'.took a.id (.calls (.user 7)) := by
  obtain ⟨s₀, hr₀, hq₀⟩ := run_of_ends (f := step .tiny) (r := Anyhow)
    (s := State.initial fun _ => previous) (c := fun _ _ => true)
    (q := fun s₀ => okAnd (step .tiny s₀ (.deliver 1 1)) fun s₁ =>
      ends (step .tiny) (fun _ _ => true)
        (fun s => (s.top 1).any fun a => a.id == s₀.nextId && a.raising == some (.invoke previous))
        s₁ [.advance 1 {}])
    (l := installOne) (fun _ _ _ => trivial) (by decide)
  obtain ⟨s₁, hs₁, hq₀⟩ := okAnd_iff.mp hq₀
  obtain ⟨s, hr, hq⟩ := run_of_ends (r := Anyhow) (fun _ _ _ => trivial) hq₀
  simp only [Option.any_eq_true, Bool.and_eq_true, beq_iff_eq] at hq
  obtain ⟨a, ha, hid, hph⟩ := hq
  obtain ⟨r, hc, hph⟩ := raising_call hph
  obtain ⟨r', hc', hdel⟩ := unclaimed_delivery .tiny _ hr₀ (by decide) hs₁ hr ha hid
  cases Call.raise.inj (hc.symm.trans hc')
  rw [hph] at hdel
  exact ⟨s₀, s₁, s, a, r, hr₀, hs₁, hr, ha, hc, hph, hid ▸ hdel.1, hdel.2.1⟩

/-- The signal is uninstalled between the entry of the handler and its look at the map,
and the default action is taken although the program had a handler. -/
theorem uninstalled_delivery_default :
    ∃ s₀ s₁ s k, Run (step .tiny) Anyhow (State.initial fun _ => previous) s₀ ∧
      step .tiny s₀ (.deliver 1 1) = .ok s₁ ∧ s₀.g.map 1 = some 0 ∧
      s₀.g.containers 0 = some k ∧ k.oldHandler = previous ∧ Run (step .tiny) Anyhow s₁ s ∧
      s.inPhase s₀.nextId (.handoff .query) := by
  obtain ⟨s₀, hr₀, hq₀⟩ := run_of_ends (f := step .tiny) (r := Anyhow)
    (s := State.initial fun _ => previous) (c := fun _ _ => true)
    (q := fun s₀ => s₀.g.map 1 == some 0 &&
      ((s₀.g.containers 0).any fun k => k.oldHandler == previous) &&
      okAnd (step .tiny s₀ (.deliver 1 1)) fun s₁ => ends (step .tiny) (fun _ _ => true)
        (fun s => (s.top 1).any fun a => a.id == s₀.nextId && a.raising == some (.handoff .query))
        s₁ [.siguninstall 0 0, .advance 0 {}, .advance 0 {}, .advance 1 {}, .advance 1 {}])
    (l := installOne) (fun _ _ _ => trivial) (by decide)
  simp only [Bool.and_eq_true, beq_iff_eq, Option.any_eq_true, okAnd_iff] at hq₀
  obtain ⟨⟨hm, k, hk, hold⟩, s₁, hs₁, hq₀⟩ := hq₀
  obtain ⟨s, hr, hq⟩ := run_of_ends (r := Anyhow) (fun _ _ _ => trivial) hq₀
  simp only [Option.any_eq_true, Bool.and_eq_true, beq_iff_eq] at hq
  obtain ⟨a, ha, hid, hph⟩ := hq
  obtain ⟨r, hc, hph⟩ := raising_call hph
  exact ⟨s₀, s₁, s, k, hr₀, hs₁, hm, hk, hold, hr, a, List.mem_of_find?_eq_some ha, hid, r, hc,
    hph⟩

end Wg14Signals
