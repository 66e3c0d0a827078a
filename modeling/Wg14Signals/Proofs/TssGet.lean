import Wg14Signals.Proofs.TssTurns
import Wg14Signals.Proofs.TssValues

namespace Wg14Signals
open Lib

section

variable {s s' : TssState} {act : TssAction} {before after : Option TssCall} {rest : List TssAct}

/-- A step touches the values in one of the ways listed. -/
theorem TssMoves.values (h : TssMoves s s' act before after rest)
    (hf : s.mem.instances s.mem.nextInstance = none) :
    ValueEffect s s' (before.toList.map (TssAct.mk act.tid))
      (after.toList.map (TssAct.mk act.tid)) := by
  have hb := h.begun
  have hn := h.next
  have hcells := h.turn.cells hf
  -- a step that moves no value
  have quiet : (∀ c, after = some c → c.role = .idle) →
      (∀ c, before = some c → c.role = .idle ∨ ∃ v, c.role = .doomed v) →
      s'.begun = s.begun → s'.nextValue = s.nextValue →
      ValueEffect s s' (before.toList.map (TssAct.mk act.tid))
        (after.toList.map (TssAct.mk act.tid)) := by
    intro ha hb hbegun hnext
    refine .calm ?_ (fun i k v h => ⟨?_, ?_⟩) hbegun hnext
    · simpa [TssAct.role] using ha
    · refine (hcells.old h).resolve_right fun he => ?_
      simpa [TssCall.role] using hb _ he
    · simp only [List.mem_map, Option.mem_toList, forall_exists_index, and_imp]
      rintro _ c hc rfl
      rcases hb c hc with h | ⟨w, h⟩ <;> simp [TssAct.role, h]
  -- a sweep takes an entry out of the map before it destroys its item
  have sweeps : ∀ {val sweep mem mem' it}, Swept s.mem s'.mem val mem mem' it sweep →
      after = some (Sweep.call val sweep) →
      (∀ c, before = some c → c.role = .idle ∨ ∃ v, c.role = .doomed v) →
      s'.begun = s.begun → s'.nextValue = s.nextValue →
      ValueEffect s s' (before.toList.map (TssAct.mk act.tid))
        (after.toList.map (TssAct.mk act.tid)) := by
    intro val sweep mem mem' it hsw ha hb hbegun hnext
    cases sweep with
    | cleaned => exact quiet (by simp [ha, Sweep.call, TssCall.role]) hb hbegun hnext
    | callback item next =>
      obtain ⟨key, -, hi, -, hc⟩ := hsw.taken
      refine .sweeps _ val key item (by rw [ha]; rfl) ?_ rfl hi (by simp [hc]) (fun j l w h => ?_)
        hbegun hnext
      · simp only [List.mem_map, Option.mem_toList, forall_exists_index, and_imp]
        rintro _ c hc rfl j l w
        rcases hb c hc with h | ⟨u, h⟩ <;> simp [TssAct.role, h]
      · refine (hcells.old h).resolve_right fun he => ?_
        simpa [TssCall.role] using hb _ he
  cases h.turn with
  | created t val mytid hm => exact .creates _ _ t val mytid rfl rfl rfl rfl hm hb hn
  | insert t env val mytid newitem hi =>
    refine .inserts _ _ val mytid newitem rfl rfl rfl rfl (fun j l w hc => ?_) hb hn
    rw [threadInitInsert_kept hi] at hc
    split at hc
    · rename_i hjl
      exact .inl ⟨hjl.1, hjl.2, (Option.some.inj hc).symm⟩
    · exact .inr hc
  | reject t env val mytid newitem hi =>
    refine .rejects _ _ val mytid newitem rfl rfl rfl rfl (fun j l w hc => ?_) hb hn
    rcases threadInitInsert_rejected hi j l with h | ⟨-, -, h⟩
    · exact h ▸ hc
    · simp [h] at hc
  | lookup t env state val mytid item hl =>
    obtain ⟨hc, hi⟩ := deinitLookup_ok hl
    exact .finds _ _ val mytid item rfl rfl rfl rfl hi.symm hc hb hn
  | callback t env state val mytid item hm =>
    exact .destroys _ _ val mytid item rfl rfl rfl rfl hm hb hn
  | discard t env val newitem hm => exact .dooms _ _ newitem rfl rfl rfl rfl hm hb hn
  | swept t env val item it hm => exact .dooms _ _ item rfl rfl rfl rfl hm hb hn
  | erase t env state val mytid item he =>
    -- the call that ends was destroying the very entry this section erases
    refine .calm (by simp) (fun j l w hc => ?_) hb hn
    rw [deinitErase_ok he] at hc
    split at hc
    · cases hc
    · rename_i hjl
      refine ⟨hc, fun a ha hr => hjl ?_⟩
      obtain rfl := List.mem_singleton.mp ha
      simp only [TssAct.role, TssCall.role, Role.destroying.injEq] at hr
      exact ⟨hr.1.symm, hr.2.1.symm⟩
  | destroy t val sweep hd =>
    obtain ⟨_, _, -, hsw⟩ := destroyBegin_ok hd
    exact sweeps hsw rfl (by simp) hb hn
  | sweep t env val item it sweep hd =>
    obtain ⟨_, _, -, hsw⟩ := destroySweep_ok hd
    exact sweeps hsw rfl (by simp [TssCall.role]) hb hn
  | uncreated t r val mytid hr hm =>
    refine quiet (by simp) (by simp [TssCall.role]) hb ?_
    cases r with
    | item => exact absurd rfl hr
    | failed => exact hn
    | null => exact hn
  | _ => exact quiet (by simp [TssCall.role]) (by simp [TssCall.role]) hb hn

end

/-- A step touches the values in one of the ways listed, and leaves all calls alone but the
one it moves. -/
def Touches (s s' : TssState) : Prop :=
  ∃ xs ys rest : List TssAct,
    s.acts.Perm (xs ++ rest) ∧ s'.acts = ys ++ rest ∧ ValueEffect s s' xs ys

theorem tssStep_touches {s s' : TssState} {act : TssAction} (hf : s.mem.Fresh)
    (h : tssStep s act = .ok s') : Touches s s' := by
  obtain ⟨before, after, rest, hm⟩ := tssStep_moves h
  exact ⟨_, _, rest, hm.perm, hm.acts, hm.values (hf _ (Nat.le_refl _))⟩

theorem valuesInv_run {ids : Tid → UInt64} {ok : TssState → TssAction → Prop} {s : TssState}
    (hr : Run tssStep ok (.initial ids) s) : ValuesInv s := by
  refine (hr.invariant (I := fun s => s.mem.Fresh ∧ ValuesInv s) ⟨fun _ _ => rfl, .initial ids⟩
    fun s act s' hi _ h => ?_).2
  obtain ⟨xs, ys, rest, hp, hq, he⟩ := tssStep_touches hi.1 h
  exact ⟨fresh_step hi.1 h, valuesInv_of_effect hi.2 hp hq he⟩

/-- A thread's exit-time deinitialisation has begun to destroy the value under key `k` and
has not yet erased the entry. -/
def TssAct.Destroying (a : TssAct) (val : Addr) (k : Key) (v : Value) : Prop :=
  ∃ state, a.call = .deinit state (.erase val k v)

theorem destroying_of_role {a : TssAct} {val : Addr} {k : Key} {v : Value}
    (h : a.role = .destroying val k v) : a.Destroying val k v := by
  unfold TssAct.role TssCall.role at h
  split at h
  case h_5 state i l w hc =>
    cases h
    exact ⟨state, hc⟩
  all_goals cases h

/-- The value an exit-time deinitialisation is in the midst of destroying has been passed
to `attr.destroy`. -/
def BegunInv (s : TssState) : Prop :=
  ∀ a ∈ s.acts, ∀ i k v, a.role = .destroying i k v → s.begun v ≠ 0

theorem BegunInv.step {s s' : TssState} (hi : BegunInv s) (ht : Touches s s') : BegunInv s' := by
  obtain ⟨xs, ys, rest, hp, hq, he⟩ := ht
  intro b hb i k v hr
  rw [hq] at hb
  rcases List.mem_append.mp hb with hb | hb
  · cases he with
    | calm idle => simp [idle b hb] at hr
    | destroys a c j l w hx hy before after cells begun =>
      obtain rfl := List.mem_singleton.mp (hy ▸ hb)
      rw [after] at hr
      cases hr
      simp [begun, begin_apply]
    | creates a c u j l hx hy before after
    | inserts a c j l w hx hy before after
    | rejects a c j l w hx hy before after
    | finds a c j l w hx hy before after
    | dooms a c w hx hy before after
    | sweeps c j l w hy before after =>
      obtain rfl := List.mem_singleton.mp (hy ▸ hb)
      simp [after] at hr
  · have h := hi b (rest_mem hp hb) i k v hr
    have := he.begun_le v
    omega

/-- A `get` returns a value no `attr.destroy` call has begun on, exactly if it is not made
while an exit-time deinitialisation under the thread's key is between beginning that call
and erasing the entry. -/
theorem get_returns_undestroyed {ids : Tid → UInt64} {ok : TssState → TssAction → Prop}
    {s : TssState} (hr : Run tssStep ok (.initial ids) s) {t : Tid} {val : Addr} {v : Value}
    (hg : tssAsyncSignalSafeGet s.mem t val = .ok (some v)) :
    s.begun v = 0 ↔
      ∀ a ∈ s.acts, ¬ a.Destroying val (s.mem.myCurrentThreadId t).1 v := by
  have hi := valuesInv_run hr
  have hb : s.mem.Fresh ∧ BegunInv s :=
    hr.invariant (I := fun s => s.mem.Fresh ∧ BegunInv s)
      ⟨fun _ _ => rfl, by simp [BegunInv, TssState.initial]⟩
      fun s act s' hi _ h => ⟨fresh_step hi.1 h, hi.2.step (tssStep_touches hi.1 h)⟩
  have hcell := (tssAsyncSignalSafeGet_ok hg).symm
  constructor
  · rintro h0 a ha ⟨state, hc⟩
    exact hb.2 a ha val _ v (by rw [TssAct.role, hc]; rfl) h0
  · intro h
    rcases hi.shown _ _ v hcell with h0 | ⟨a, ha, hrole⟩
    · exact h0
    · exact absurd (destroying_of_role hrole) (h a ha)

/-- Thread 0 creates an instance and initialises itself for it. -/
def initOne : List TssAction :=
  [.create 0 true, .threadInit 0 0, .created 0 .item, .advance 0 {}, .advance 0 {}]

/-- While no call is in progress, the thread gets a value nobody destroys. -/
theorem get_returns_undestroyed_initialised :
    ∃ s v, Run tssStep (fun _ _ => True) (.initial fun t => t.toUInt64) s ∧
      tssAsyncSignalSafeGet s.mem 0 0 = .ok (some v) ∧ s.begun v = 0 := by
  obtain ⟨s, hr, hq⟩ := run_of_ends (f := tssStep) (r := fun _ _ => True)
    (s := .initial fun t => t.toUInt64) (c := fun _ _ => true)
    (q := fun s => s.acts.isEmpty && okAnd (tssAsyncSignalSafeGet s.mem 0 0) Option.isSome)
    (l := initOne) (fun _ _ _ => trivial) (by decide)
  simp only [Bool.and_eq_true, List.isEmpty_iff, okAnd_iff, Option.isSome_iff_exists] at hq
  obtain ⟨hacts, _, hg, v, rfl⟩ := hq
  exact ⟨s, v, hr, hg, (get_returns_undestroyed hr hg).mpr (by simp [hacts])⟩

/-- The thread exits: from the moment its `attr.destroy` callback begins, and until the entry
is erased after it, `get` on the thread still returns the value. -/
theorem get_returns_destroyed :
    ∃ s v, Run tssStep (fun _ _ => True) (.initial fun t => t.toUInt64) s ∧
      tssAsyncSignalSafeGet s.mem 0 0 = .ok (some v) ∧ s.begun v = 1 := by
  obtain ⟨s, hr, hq⟩ := run_of_ends (f := tssStep) (r := fun _ _ => True)
    (s := .initial fun t => t.toUInt64) (c := fun _ _ => true)
    (q := fun s => okAnd (tssAsyncSignalSafeGet s.mem 0 0) (Option.any fun v => s.begun v == 1))
    (l := initOne ++ [.exit 0, .runAtexit 0, .advance 0 {}, .advance 0 {}, .advance 0 {}])
    (fun _ _ _ => trivial) (by decide)
  simp only [okAnd_iff, Option.any_eq_true, beq_iff_eq] at hq
  obtain ⟨_, hg, v, rfl, hone⟩ := hq
  exact ⟨s, v, hr, hg, hone⟩

end Wg14Signals
