import Wg14Signals.LockedTable
import Wg14Signals.Proofs.LockUnlock
import Wg14Signals.Proofs.TableRuns

namespace Wg14Signals.LockedTable
open Lib VtTable

variable {τ κ ν : Type} [DecidableEq κ] {hashFn : κ → BitVec 64} {t : VtTable κ ν}
  {m m' : κ → Option ν} {op : VtOp κ ν} {answer : VtAnswer κ ν} {K : Finset κ} {key : κ}

/-- There are fewer keys in a table than there could be, if one is missing. -/
theorem keyCount_lt (hw : t.Wf hashFn) (hm : t.Maps m) (hdom : ∀ k, m k ≠ none → k ∈ K)
    (hk : key ∈ K) (habsent : m key = none) : t.keyCount < K.card := by
  have hl := lists_entries hw.toStored hm
  have hsub : (t.entries.map Prod.fst).toFinset ⊆ K.erase key := by
    intro k hk'
    obtain ⟨⟨k', v⟩, he, hfst⟩ := List.mem_map.mp (List.mem_toFinset.mp hk')
    obtain rfl : k' = k := hfst
    have hsome : m k' = some v := (hl.mem k' v).mp he
    have hne : m k' ≠ none := fun hnone => by cases hsome.symm.trans hnone
    refine Finset.mem_erase.mpr ⟨fun heq => hne ?_, hdom k' hne⟩
    rw [heq, habsent]
  have hcard := Finset.card_le_card hsub
  rw [List.toFinset_card_of_nodup hl.nodup, List.length_map, length_entries hw.toStored,
    Finset.card_erase_of_mem hk] at hcard
  have hpos := Finset.card_pos.mpr ⟨key, hk⟩
  omega

/-- A call stores no key but the one it is to store. -/
theorem means_dom (hmeans : op.Means m answer m') (hdom : ∀ k, m k ≠ none → k ∈ K)
    (hstores : ∀ k, op.stores = some k → k ∈ K) : ∀ k, m' k ≠ none → k ∈ K := by
  have hput : ∀ key val, key ∈ K → ∀ k, put m key val k ≠ none → k ∈ K := by
    intro key val hkey k hk
    by_cases h : k = key
    · exact h ▸ hkey
    · refine hdom k ?_
      simpa [put, h] using hk
  cases hmeans with
  | insert key val mallocs => exact hput key val (hstores key rfl)
  | getOrInsert key val mallocs => exact hput key _ (hstores key rfl)
  | erase key =>
    intro k hk
    refine hdom k fun hnone => hk ?_
    simp [drop, hnone]
  | clear => exact fun k hk => absurd rfl hk
  | cleanup => exact fun k hk => absurd rfl hk
  | sweep keep entries lists =>
    intro k hk
    refine hdom k fun hnone => hk ?_
    simp [keepIn, hnone]
  | _ => exact hdom

/-- Only a key that is missing can fail to be stored. -/
theorem means_refused (hmeans : op.Means m answer m') (hins : op.inserts = true)
    (hend : answer = .entry none) : ∃ key, op.stores = some key ∧ m key = none := by
  cases hmeans with
  | insert key val mallocs => cases hend
  | notInserted key val mallocs absent => exact ⟨key, rfl, absent⟩
  | getOrInsert key val mallocs => cases hend
  | notGot key val mallocs absent => exact ⟨key, rfl, absent⟩
  | _ => cases hins

/-- Calls are those of a finite map, and each thread has noted the answers to its own. -/
structure Served (hashFn : κ → BitVec 64) (K : Finset κ) [DecidableEq τ]
    (w : Whole τ (Shared κ ν) (VtLog κ ν)) (done : List (τ × VtOp κ ν × VtAnswer κ ν)) : Prop where
  table : ∃ t m, w.shared = .ok t ∧ t.Wf hashFn ∧ t.Maps m ∧
    VtLog.Explains (done.map Prod.snd) m ∧ ∀ k, m k ≠ none → k ∈ K
  own : ∀ u, w.own u = (done.filter (·.1 = u)).map Prod.snd

variable [DecidableEq τ] {w : Whole τ (Shared κ ν) (VtLog κ ν)} {u : τ}
  {done : List (τ × VtOp κ ν × VtAnswer κ ν)}

theorem Served.call (hs : Served hashFn K w done) (hK : K.card ≤ vtDisplacementLimit) (u : τ)
    (hstores : ∀ k, op.stores = some k → k ∈ K) :
    ∃ answer, Served hashFn K
      { shared := (LockedTable.call hashFn op (w.shared, w.own u)).1
        own := Function.update w.own u (LockedTable.call hashFn op (w.shared, w.own u)).2 }
      ((u, op, answer) :: done) := by
  obtain ⟨t, m, hshared, hw, hm, hlog, hdom⟩ := hs.table
  obtain ⟨answer, t', m', hrun, ha⟩ := apply_ok hw hm op
  have hcall : LockedTable.call hashFn op (w.shared, w.own u) =
      (.ok t', (op, answer) :: w.own u) := by
    simp only [LockedTable.call, hshared, hrun]
  have hw' : t'.Wf hashFn := by
    apply ha.wf
    intro hins hend
    obtain ⟨key, hkey, habsent⟩ := means_refused ha.means hins hend
    exact Nat.lt_of_lt_of_le (keyCount_lt hw hm hdom (hstores key hkey) habsent) hK
  refine ⟨answer, ⟨t', m', ?_, hw', ha.maps, hlog.cons ha.means, means_dom ha.means hdom hstores⟩,
    fun v => ?_⟩
  · rw [hcall]
  · rw [hcall]
    by_cases hv : v = u
    · subst hv
      simp [hs.own]
    · simp [hs.own, hv, Ne.symm hv]

/-- A section is served call by call. -/
theorem Served.section (hs : Served hashFn K w done) (hK : K.card ≤ vtDisplacementLimit) (u : τ)
    {ops : List (VtOp κ ν)} (hstores : ∀ op ∈ ops, ∀ k, op.stores = some k → k ∈ K) :
    ∃ new, Served hashFn K (WholeAct.perform w (whole hashFn (u, ops))) (new ++ done) ∧
      new.reverse.map (fun x => (x.1, x.2.1)) = ops.map (u, ·) := by
  induction ops generalizing w done with
  | nil => exact ⟨[], by rw [whole, List.map_nil, Held.update_self]; exact hs, rfl⟩
  | cons op ops ih =>
    obtain ⟨answer, hcall⟩ := hs.call hK u (hstores op List.mem_cons_self)
    obtain ⟨new, hserved, hops⟩ := ih hcall fun op hop => hstores op (List.mem_cons_of_mem _ hop)
    refine ⟨new ++ [(u, op, answer)], ?_, ?_⟩
    · rw [whole, List.map_cons, Held.perform_cons, List.append_assoc]
      exact hserved
    · simp [hops]

theorem Served.all (hs : Served hashFn K w done) (hK : K.card ≤ vtDisplacementLimit)
    {sections : List (τ × List (VtOp κ ν))}
    (hstores : ∀ x ∈ sections, ∀ op ∈ x.2, ∀ k, op.stores = some k → k ∈ K) :
    ∃ new, Served hashFn K (WholeAct.performAll w (sections.map (whole hashFn))) (new ++ done) ∧
      new.reverse.map (fun x => (x.1, x.2.1)) = sections.flatMap fun x => x.2.map (x.1, ·) := by
  induction sections generalizing w done with
  | nil => exact ⟨[], hs, rfl⟩
  | cons x sections ih =>
    obtain ⟨new, hserved, hops⟩ := hs.section hK x.1 (hstores x List.mem_cons_self)
    obtain ⟨new', hserved', hops'⟩ := ih hserved fun y hy => hstores y (List.mem_cons_of_mem x hy)
    refine ⟨new' ++ new, by rw [List.append_assoc]; exact hserved', ?_⟩
    rw [List.reverse_append, List.map_append, hops, hops', List.flatMap_cons]

/-- A step tells which call it is. -/
theorem call_injective : Function.Injective (LockedTable.call (κ := κ) (ν := ν) hashFn) := by
  intro op op' heq
  have hrun : ∀ op : VtOp κ ν, ∃ answer u, LockedTable.call hashFn op (.ok .init, []) =
      (.ok u, [(op, answer)]) := by
    intro op
    obtain ⟨answer, u, m', hop, -⟩ := apply_ok (init_wf hashFn) init_maps op
    exact ⟨answer, u, by simp only [LockedTable.call, hop]⟩
  obtain ⟨answer, u, hop⟩ := hrun op
  obtain ⟨answer', u', hop'⟩ := hrun op'
  rw [heq, hop'] at hop
  exact (Prod.mk.inj (List.cons.inj (Prod.mk.inj hop).2).1).1.symm

theorem whole_injective : Function.Injective (whole (τ := τ) (κ := κ) (ν := ν) hashFn) := by
  rintro ⟨t, ops⟩ ⟨u, ops'⟩ heq
  obtain ⟨rfl, hmap⟩ := WholeAct.within.inj heq
  exact congrArg (Prod.mk t) (List.map_injective_iff.mpr call_injective hmap)

/-- The sections in the program of a thread. -/
theorem program_spin (acts : List (Act τ κ ν)) (t : τ) :
    ((acts.map (Act.spin hashFn)).filterMap SpinAct.program).filter (·.thread = t) =
      (begun t acts).map fun ops => whole hashFn (t, ops) := by
  induction acts with
  | nil => rfl
  | cons act acts ih =>
    cases act with
    | begin u ops =>
      by_cases hu : u = t
      · subst hu
        simpa [begun, Act.spin, SpinAct.program, WholeAct.thread, whole] using ih
      · simpa [begun, Act.spin, SpinAct.program, WholeAct.thread, hu] using ih
    | _ => exact ih

theorem mem_begun {acts : List (Act τ κ ν)} {t : τ} {ops : List (VtOp κ ν)} :
    ops ∈ begun t acts ↔ Act.begin t ops ∈ acts := by
  rw [begun, List.mem_filterMap]
  constructor
  · rintro ⟨act, hact, hops⟩
    cases act with
    | begin u ops' =>
      simp only [Option.ite_none_right_eq_some, Option.some.injEq] at hops
      obtain ⟨rfl, rfl⟩ := hops
      exact hact
    | _ => cases hops
  · exact fun h => ⟨_, h, if_pos rfl⟩

/-- The sections of one thread among those that have been performed. -/
theorem filter_whole (sections : List (τ × List (VtOp κ ν))) (t : τ) :
    (sections.map (whole hashFn)).filter (·.thread = t) =
      ((sections.filter (·.1 = t)).map Prod.snd).map fun ops => whole hashFn (t, ops) := by
  induction sections with
  | nil => rfl
  | cons x sections ih =>
    obtain ⟨u, ops⟩ := x
    by_cases hu : u = t
    · subst hu
      simpa [whole, WholeAct.thread] using ih
    · simpa [whole, WholeAct.thread, hu] using ih

variable {ndebug : Bool} {s : Spin τ (Shared κ ν) (VtLog κ ν)} {acts : List (Act τ κ ν)}

/-- A run under the lock performs sections of the threads' programs, each thread's in order. -/
theorem performed (hrun : (acts.map (Act.spin hashFn)).foldlM (Spin.step ndebug) initial = .ok s)
    (hfree : ∀ t rest, s.pc t ≠ .within rest) :
    ∃ sections : List (τ × List (VtOp κ ν)),
      s.toWhole = WholeAct.performAll ⟨.ok .init, fun _ => []⟩ (sections.map (whole hashFn)) ∧
      ∀ t, (sections.filter (·.1 = t)).map Prod.snd <+: begun t acts ∧
        (s.pc t = .idle → (sections.filter (·.1 = t)).map Prod.snd = begun t acts) := by
  obtain ⟨hprogram, -, hwhole, -⟩ := Spin.locked_is_whole hrun
  simp only [program_spin] at hprogram
  generalize Spin.order ndebug _ (acts.map (Act.spin hashFn)) = order at hprogram hwhole
  have hrange : ∀ a ∈ order, a ∈ Set.range (whole (τ := τ) (κ := κ) (ν := ν) hashFn) := by
    intro a ha
    have hmem : a ∈ (begun a.thread acts).map fun ops => whole hashFn (a.thread, ops) := by
      rw [← hprogram a.thread]
      apply List.mem_append_left
      exact List.mem_filter.mpr ⟨ha, decide_eq_true rfl⟩
    obtain ⟨ops, -, hops⟩ := List.mem_map.mp hmem
    exact ⟨_, hops⟩
  obtain ⟨sections, hsections⟩ := (Set.ext_iff.mp (Set.range_list_map _) _).mpr hrange
  refine ⟨sections, hsections ▸ hwhole hfree, fun t => ?_⟩
  have hinj : Function.Injective fun ops => whole (τ := τ) (κ := κ) (ν := ν) hashFn (t, ops) :=
    whole_injective.comp (Prod.mk_right_injective t)
  have hthread := hprogram t
  rw [← hsections, filter_whole] at hthread
  constructor
  · apply (List.prefix_map_iff_of_injective hinj).mp
    exact ⟨_, hthread⟩
  · intro hidle
    apply List.map_injective_iff.mpr hinj
    rw [← hthread, Spin.pending, hidle]
    exact (List.append_nil _).symm

/-- One thread looks for the key that another one stores. -/
def storeAndLook : List (Act Bool Nat Nat) :=
  [.begin true [.insert 5 7 [true]], .load true, .begin false [.get 5, .erase 5], .load false,
    .swap true false, .swap false false, .work true, .load false, .unlock true, .load false,
    .swap false false, .work false, .work false, .unlock false]

end Wg14Signals.LockedTable
