import Wg14Signals.Machine
import Wg14Signals.SignoMaps
import Wg14Signals.Proofs.TableRuns

namespace Wg14Signals
open Lib

variable {σ ι α : Type} {M : SignoMap σ ι} {Rep : σ → (Signo → Option Addr) → Prop} {nsig : Nat}
  {g : Global} {map : σ} {signo : Signo} {item : Addr} {m : Signo → Option Addr} {it : ι}

/-- The map functions do what the finite map says, for the signals of the platform. -/
structure SignoMap.Lawful (M : SignoMap σ ι) (nsig : Nat)
    (Rep : σ → (Signo → Option Addr) → Prop) (At : σ → ι → Signo → Addr → Prop) : Prop where
  init : Rep M.init fun _ => none
  get_none : ∀ s m signo, Rep s m → m signo = none →
    ∃ it, M.get s signo = .ok it ∧ M.isEnd it = true
  get_some : ∀ s m signo item, Rep s m → m signo = some item →
    ∃ it, M.get s signo = .ok it ∧ M.isEnd it = false ∧ At s it signo item
  value : ∀ s it signo item, At s it signo item → M.value s it = .ok item
  insert : ∀ s m signo item mallocs, Rep s m → InRange nsig signo → m signo = none →
    mallocs.head? = some true → ∃ it s', M.insert s signo item mallocs = .ok (it, s') ∧
      At s' it signo item ∧ Rep s' fun j => if j = signo then some item else m j
  erase : ∀ s m it signo item, Rep s m → At s it signo item →
    ∃ s', M.eraseItr s it = .ok s' ∧ Rep s' fun j => if j = signo then none else m j

/-- A computation that neither reads nor changes the map. -/
structure MapBlind (f : Global → Except Fault Global) : Prop where
  unmapped : ∀ g, f g.unmapped = (f g).map Global.unmapped
  map : ∀ g g', f g = .ok g' → g'.map = g.map

namespace MapBlind

variable {f f' : Global → Except Fault Global}

/-- A change of the rest of the state. -/
theorem pure {f : Global → Global} (hf : ∀ g, f g.unmapped = (f g).unmapped)
    (hmap : ∀ g, (f g).map = g.map) : MapBlind fun g => Pure.pure (f g) where
  unmapped g := congrArg Except.ok (hf g)
  map g g' h := by
    obtain rfl := pure_ok.mp h
    exact hmap g

theorem bind (hf : MapBlind f) (hf' : MapBlind f') : MapBlind fun g => f g >>= f' where
  unmapped g := by
    rw [hf.unmapped]
    cases hg : f g with
    | error => rfl
    | ok g' => exact hf'.unmapped g'
  map g g' h := by
    obtain ⟨g₁, h₁, h₂⟩ := bind_ok.mp h
    exact (hf'.map g₁ g' h₂).trans (hf.map g g₁ h₁)

/-- What is read does not depend on the map. -/
theorem read {β : Type} {x : Global → Except Fault β} {f : β → Global → Except Fault Global}
    (hx : ∀ g, x g.unmapped = x g) (hf : ∀ b, MapBlind (f b)) :
    MapBlind fun g => x g >>= fun b => f b g where
  unmapped g := by
    rw [hx]
    cases x g with
    | error => rfl
    | ok b => exact (hf b).unmapped g
  map g g' h := by
    obtain ⟨b, -, h⟩ := bind_ok.mp h
    exact (hf b).map g g' h

theorem ite {c : Prop} [Decidable c] (hf : MapBlind f) (hf' : MapBlind f') :
    MapBlind fun g => if c then f g else f' g := by
  by_cases hc : c
  · simp only [if_pos hc]
    exact hf
  · simp only [if_neg hc]
    exact hf'

theorem freeDeferred (k : Container) : MapBlind (freeDeferred · k) :=
  read (fun _ => rfl) fun _ => pure (fun _ => rfl) fun _ => rfl

theorem detachDeciders (k : Container) : MapBlind (detachDeciders · k) :=
  read (fun _ => rfl) fun _ => pure (fun _ => rfl) fun _ => rfl

theorem release (item : Addr) : MapBlind (sighandlerInfoRelease · item) := by
  refine read (x := fun g => g.readContainer item) (fun _ => rfl) fun k => ite ?_ ?_
  · refine (freeDeferred k).bind ((detachDeciders k).bind ?_)
    exact read (fun _ => rfl) fun _ => pure (fun _ => rfl) fun _ => rfl
  · exact pure (fun _ => rfl) fun _ => rfl

end MapBlind

namespace EndsAlike

variable {α : Type} {β : Type}

/-- Both go on from the same result of a computation that has nothing to do with the map. -/
theorem bind_lib {x : Except Fault β} {f : β → Except MapFault (α × Mapped σ)}
    {f' : β → Except Fault (α × Global)} (h : ∀ b, x = .ok b → EndsAlike Rep (f b) (f' b)) :
    EndsAlike Rep (liftLib x >>= f) (x >>= f') := by
  cases x with
  | error e => exact .error e
  | ok b => exact h b rfl

theorem bind_blind {φ : Global → Except Fault Global} (hφ : MapBlind φ)
    {f : Global → Except MapFault (α × Mapped σ)} {f' : Global → Except Fault (α × Global)}
    (h : ∀ g', φ g = .ok g' → g'.map = g.map → EndsAlike Rep (f g'.unmapped) (f' g')) :
    EndsAlike Rep (liftLib (φ g.unmapped) >>= f) (φ g >>= f') := by
  rw [hφ.unmapped]
  cases hg : φ g with
  | error e => exact .error e
  | ok g' => exact h g' hg (hφ.map g g' hg)

/-- A step of the map's own. -/
theorem bind_map {x : Except MapFault β} {b : β} {f : β → Except MapFault (α × Mapped σ)}
    {y : Except Fault (α × Global)} (hx : x = .ok b) (h : EndsAlike Rep (f b) y) :
    EndsAlike Rep (x >>= f) y := by
  subst hx
  exact h

theorem ok_of {a : α} {s : Mapped σ} (hg : s.g = g.unmapped) (hr : Rep s.map g.map) :
    EndsAlike Rep (.ok (a, s)) (.ok (a, g)) := by
  obtain ⟨g', map⟩ := s
  dsimp only at hg hr
  subst hg
  exact .ok a hr

/-- The same is made of what both return. -/
theorem mapResult {γ : Type} {x : Except MapFault (α × Mapped σ)} {y : Except Fault (α × Global)}
    (h : EndsAlike Rep x y) (f : α → γ) :
    EndsAlike Rep (x >>= fun r => pure (f r.1, r.2)) (y >>= fun r => pure (f r.1, r.2)) := by
  cases h with
  | ok a hr => exact .ok (f a) hr
  | error e => exact .error e

/-- Both go on alike. -/
theorem bind {γ : Type} {x : Except MapFault (α × Mapped σ)} {y : Except Fault (α × Global)}
    {f : α × Mapped σ → Except MapFault (γ × Mapped σ)} {f' : α × Global → Except Fault (γ × Global)}
    (h : EndsAlike Rep x y)
    (hf : ∀ a map g, Rep map g.map → EndsAlike Rep (f (a, ⟨g.unmapped, map⟩)) (f' (a, g))) :
    EndsAlike Rep (x >>= f) (y >>= f') := by
  cases h with
  | ok a hr => exact hf a _ _ hr
  | error e => exact .error e

end EndsAlike

section Sections

variable {At : σ → ι → Signo → Addr → Prop} (hM : M.Lawful nsig Rep At) (hr : Rep map g.map)
include hM hr

theorem dropEntry_alike (hat : At map it signo item) (k : Container) (a : α) :
    EndsAlike Rep (M.dropEntry ⟨g.unmapped, map⟩ signo it item k >>= fun s => pure (a, s))
      (dropEntry g signo item k >>= fun g => pure (a, g)) := by
  obtain ⟨map', herase, hr'⟩ := hM.erase map g.map it signo item hr hat
  unfold SignoMap.dropEntry
  rw [bind_assoc]
  refine EndsAlike.bind_map herase ?_
  rw [bind_assoc]
  refine EndsAlike.bind_blind (g := (g.setKernel signo k.oldHandler).setMap signo none)
    (MapBlind.release item) fun g' _ hmap => ?_
  exact EndsAlike.ok_of rfl (hmap ▸ hr')

theorem countInstall_alike (hat : At map it signo item) (env : InstallEnv) :
    EndsAlike Rep (M.countInstall ⟨g.unmapped, map⟩ signo it env) (countInstall g signo item env) := by
  unfold SignoMap.countInstall countInstall
  refine EndsAlike.bind_map (hM.value map it signo item hat) ?_
  refine EndsAlike.bind_lib (x := g.readContainer item) fun k _ => ?_
  change EndsAlike Rep (ite (g.sighandlersCount = 0 ∧ env.tssCreate = false) _ _) _
  split
  · split
    · exact dropEntry_alike hM hr hat k false
    · exact EndsAlike.ok_of rfl hr
  · exact EndsAlike.ok_of rfl hr

theorem install_alike (hs : InRange nsig signo) {mallocs : List Bool}
    (hmem : mallocs.head? = some true) (env : InstallEnv) :
    EndsAlike Rep (M.installSighandler ⟨g.unmapped, map⟩ signo env mallocs)
      (installSighandler g signo env) := by
  unfold SignoMap.installSighandler installSighandler
  cases hm : g.map signo with
  | some item =>
    obtain ⟨it, hget, hend, hat⟩ := hM.get_some map g.map signo item hr hm
    refine EndsAlike.bind_map hget ?_
    rw [if_neg (Bool.eq_false_iff.mp hend)]
    exact countInstall_alike hM hr hat env
  | none =>
    obtain ⟨it, hget, hend⟩ := hM.get_none map g.map signo hr hm
    refine EndsAlike.bind_map hget ?_
    rw [if_pos hend]
    dsimp only
    split
    · exact EndsAlike.ok_of rfl hr
    · split
      · exact EndsAlike.ok_of rfl hr
      · obtain ⟨it, map', hins, hat, hr'⟩ :=
          hM.insert map g.map signo g.nextContainer mallocs hr hs hm hmem
        refine EndsAlike.bind_map hins ?_
        exact countInstall_alike (g := newSighandlerInfo g signo) hM hr' hat env

theorem uninstall_alike (a : α) :
    EndsAlike Rep (M.uninstallSighandler ⟨g.unmapped, map⟩ signo >>= fun s => pure (a, s))
      (uninstallSighandler g signo >>= fun g => pure (a, g)) := by
  unfold SignoMap.uninstallSighandler uninstallSighandler
  rw [bind_assoc]
  cases hm : g.map signo with
  | none =>
    obtain ⟨it, hget, hend⟩ := hM.get_none map g.map signo hr hm
    refine EndsAlike.bind_map hget ?_
    rw [if_pos hend]
    exact EndsAlike.ok_of rfl hr
  | some item =>
    obtain ⟨it, hget, hend, hat⟩ := hM.get_some map g.map signo item hr hm
    refine EndsAlike.bind_map hget ?_
    rw [if_neg (Bool.eq_false_iff.mp hend), bind_assoc]
    refine EndsAlike.bind_map (hM.value map it signo item hat) ?_
    dsimp only
    rw [bind_assoc, bind_assoc]
    refine EndsAlike.bind_lib (x := g.readContainer item) fun k _ => ?_
    rw [bind_assoc, bind_assoc]
    refine EndsAlike.bind_blind (MapBlind.freeDeferred k) fun g' _ hmap => ?_
    have hr' : Rep map g'.map := hmap ▸ hr
    by_cases hlast : k.installCount - 1 = 0
    · rw [if_pos hlast, if_pos hlast]
      let k' := { k with deferredFrees := {}, installCount := k.installCount - 1 }
      exact dropEntry_alike (g := { g'.setContainer item k' with
        sighandlersCount := g'.sighandlersCount - 1 }) hM hr' hat k' a
    · rw [if_neg hlast, if_neg hlast]
      exact EndsAlike.ok_of rfl hr'

theorem lookup_alike : M.lookup ⟨g.unmapped, map⟩ signo = .ok (g.map signo) := by
  unfold SignoMap.lookup
  cases hm : g.map signo with
  | none =>
    obtain ⟨it, hget, hend⟩ := hM.get_none map g.map signo hr hm
    exact bind_ok.mpr ⟨it, hget, if_pos hend⟩
  | some item =>
    obtain ⟨it, hget, hend, hat⟩ := hM.get_some map g.map signo item hr hm
    refine bind_ok.mpr ⟨it, hget, ?_⟩
    rw [if_neg (Bool.eq_false_iff.mp hend)]
    exact bind_ok.mpr ⟨item, hM.value map it signo item hat, rfl⟩

end Sections

/-- A section over a map that does what it should goes as over the finite map. -/
theorem perform_alike {At : σ → ι → Signo → Addr → Prop} (hM : M.Lawful nsig Rep At)
    (hr : Rep map g.map) (call : MapCall) (hu : call.Usual nsig) :
    EndsAlike Rep (M.perform ⟨g.unmapped, map⟩ call) (performMapped g call) := by
  cases call with
  | install signo env mallocs =>
    exact (install_alike hM hr hu.1 hu.2 env).mapResult MapResult.installed
  | uninstall signo => exact uninstall_alike hM hr MapResult.uninstalled
  | lookup signo =>
    refine EndsAlike.bind_map (lookup_alike hM hr) ?_
    exact EndsAlike.ok_of rfl hr
  | other f => exact EndsAlike.ok_of rfl hr

theorem performAll_alike {At : σ → ι → Signo → Addr → Prop} (hM : M.Lawful nsig Rep At)
    {calls : List MapCall} :
    ∀ {g : Global} {map : σ}, Rep map g.map → (∀ call ∈ calls, call.Usual nsig) →
      EndsAlike Rep (performAll M.perform ⟨g.unmapped, map⟩ calls)
        (performAll performMapped g calls) := by
  induction calls with
  | nil => exact fun hr _ => EndsAlike.ok_of rfl hr
  | cons call calls ih =>
    intro g map hr hu
    have hfirst := perform_alike hM hr call (hu call List.mem_cons_self)
    refine hfirst.bind fun r map g hr => ?_
    exact (ih hr fun call hc => hu call (List.mem_cons_of_mem _ hc)).mapResult (r :: ·)

theorem inRange_iff {signo : Int} : InRange nsig signo ↔ ¬(signo < 0 ∨ (nsig : Int) ≤ signo) := by
  unfold InRange
  omega

theorem toNat_inj {i j : Int} (hi : InRange nsig i) (hj : InRange nsig j) :
    i.toNat = j.toNat ↔ i = j := by
  have := hi.1
  have := hj.1
  omega

/-- An iterator of the array at an entry. -/
structure ArrayAt (nsig : Nat) (arr : Nat → Option Addr) (it : ArrayItr) (signo : Signo)
    (item : Addr) : Prop where
  range : InRange nsig signo
  entry : arr signo.toNat = some item
  itr : it = ⟨some item, some signo.toNat⟩

/-- Another value for a signal in range. -/
theorem ArrayHolds.update {arr : Nat → Option Addr} (hr : ArrayHolds nsig arr m)
    (hs : InRange nsig signo) (v : Option Addr) :
    ArrayHolds nsig (fun i => if i = signo.toNat then v else arr i)
      fun j => if j = signo then v else m j := by
  intro j
  dsimp only
  by_cases hj : j = signo
  · subst hj
    rw [if_pos rfl, if_pos hs, if_pos rfl]
  · rw [if_neg hj, hr j]
    by_cases hjr : InRange nsig j
    · rw [if_pos hjr, if_pos hjr, if_neg fun h => hj ((toNat_inj hjr hs).mp h)]
    · rw [if_neg hjr, if_neg hjr]

theorem array_lawful (nsig : Nat) :
    (arrayMap nsig).Lawful nsig (ArrayHolds nsig) (ArrayAt nsig) where
  init signo := (ite_self none).symm
  get_none arr m signo hr hm := by
    refine ⟨.endItr, if_pos ?_, rfl⟩
    by_cases hs : InRange nsig signo
    · rw [hr signo, if_pos hs] at hm
      exact .inr (.inr hm)
    · exact (not_not.mp fun h => hs (inRange_iff.mpr h)).imp_right .inl
  get_some arr m signo item hr hm := by
    rw [hr signo] at hm
    split at hm
    · rename_i hs
      refine ⟨⟨some item, some signo.toNat⟩, ?_, rfl, hs, hm, rfl⟩
      have hnot : ¬(signo < 0 ∨ (nsig : Int) ≤ signo ∨ arr signo.toNat = none) := by
        rw [hm, ← or_assoc]
        exact not_or.mpr ⟨inRange_iff.mp hs, Option.some_ne_none item⟩
      refine (if_neg hnot).trans ?_
      rw [hm]
      rfl
    · cases hm
  value arr it signo item hat := by
    rw [hat.itr]
    rfl
  insert arr m signo item mallocs hr hs hm _ := by
    have hnull : arr signo.toNat = none := by
      rw [hr signo, if_pos hs] at hm
      exact hm
    refine ⟨_, _, (if_neg (inRange_iff.mp hs)).trans (if_neg (not_not.mpr hnull)),
      ⟨hs, if_pos rfl, ?_⟩, hr.update hs (some item)⟩
    exact congrArg (ArrayItr.mk · (some signo.toNat)) (if_pos rfl)
  erase arr m it signo item hr hat := by
    obtain ⟨hs, -, rfl⟩ := hat
    have hlt : signo.toNat < nsig := by
      have := hs.1
      have := hs.2
      omega
    exact ⟨_, if_pos hlt, hr.update hs none⟩

open VtTable

variable {t u : VtTable Signo Addr} {itr : VtItr}

/-- An iterator of the hash table at an entry. -/
structure TableAt (t : VtTable Signo Addr) (itr : VtItr) (signo : Signo) (item : Addr) : Prop where
  positioned : Positioned signoHash t itr
  holds : t.Holds itr.metadatum signo item

theorem TableAt.not_end (hat : TableAt t itr signo item) : itr.isEnd = false := by
  have hle := hat.holds.1.1
  have hend := hat.positioned.at_end
  exact beq_false_of_ne (by omega)

/-- The iterator that an operation returns, which knows the home bucket. -/
theorem TableAt.of_itr {b : Nat} (ht : Stored t) (hb : t.Holds b signo item) :
    TableAt t (t.itr b (t.homeBucket signoHash signo)) signo item where
  holds := hb
  positioned := by
    refine ⟨fun h0 => ?_, rfl, hb.1.1.trans (Nat.le_succ _), hb.1.2.1, fun h hh k v hk => ?_⟩
    · exact ht.not_has (ht.keyCount_zero h0) ⟨b, hb⟩
    · obtain ⟨rfl, -⟩ := Prod.mk.inj (Option.some.inj (hk.2.symm.trans hb.2))
      exact (Option.some.inj hh).symm

/-- A signal that is not in the map leaves room for it. -/
theorem TableHolds.few (ht : TableHolds nsig t m) (hs : InRange nsig signo)
    (hm : m signo = none) : t.keyCount < nsig := by
  have hl := lists_entries ht.wf.toStored ht.maps
  have hnodup : (signo :: t.entries.map Prod.fst).Nodup := by
    refine List.nodup_cons.mpr ⟨fun hmem => ?_, hl.nodup⟩
    obtain ⟨⟨k, v⟩, hkv, rfl⟩ := List.mem_map.mp hmem
    rw [(hl.mem k v).mp hkv] at hm
    cases hm
  have hsub : signo :: t.entries.map Prod.fst ⊆ (List.range nsig).map Int.ofNat := by
    have hin : ∀ j : Int, InRange nsig j → j ∈ (List.range nsig).map Int.ofNat := by
      intro j hj
      have := hj.1
      have := hj.2
      exact List.mem_map.mpr ⟨j.toNat, List.mem_range.mpr (by omega), Int.toNat_of_nonneg hj.1⟩
    intro j hj
    rcases List.mem_cons.mp hj with rfl | hj
    · exact hin j hs
    · obtain ⟨⟨k, v⟩, hkv, rfl⟩ := List.mem_map.mp hj
      exact hin k (ht.range k v ((hl.mem k v).mp hkv))
  have hlen := (hnodup.subperm hsub).length_le
  rw [List.length_cons, List.length_map, List.length_map, List.length_range,
    length_entries ht.wf.toStored] at hlen
  exact hlen

theorem table_lawful (hn : nsig ≤ vtDisplacementLimit) :
    tableMap.Lawful nsig (TableHolds nsig) TableAt where
  init := ⟨init_wf signoHash, init_maps, fun _ _ h => by cases h⟩
  get_none t m signo hr hm := by
    refine ⟨.endItr, ?_, rfl⟩
    have hget := hr.wf.get_absent (hr.maps.none_iff.mp hm)
    exact congrArg liftVt hget
  get_some t m signo item hr hm := by
    obtain ⟨b, hb⟩ := (hr.maps signo item).mp hm
    have hat := TableAt.of_itr hr.wf.toStored hb
    exact ⟨_, congrArg liftVt (hr.wf.get_found hb), hat.not_end, hat⟩
  value t itr signo item hat := by
    refine (if_neg (Bool.eq_false_iff.mp hat.not_end)).trans (bind_ok.mpr ⟨(signo, item), ?_, rfl⟩)
    exact congrArg liftVt (readBucket_ok hat.holds.2)
  insert t m signo item mallocs hr hs hm hmem := by
    obtain ⟨rest, rfl⟩ : ∃ rest, mallocs = true :: rest := List.head?_eq_some_iff.mp hmem
    have hfew := (hr.few hs hm).trans_le hn
    obtain ⟨itr, u, rest', hrun, hput⟩ : ∃ itr u rest', t.insert signoHash signo item (true :: rest) =
        .ok (itr, u, rest') ∧ Put signoHash m signo item itr u := by
      have hone := fun mallocs => insertGrowing_few signo item mallocs true
        hr.wf hr.maps hfew
      by_cases hfull : Full m t signo
      · obtain ⟨itr, u, hrun, hput⟩ := ((hone rest rest.length).2 hfull).2.2
        exact ⟨itr, u, rest, hrun, hput⟩
      · obtain ⟨itr, u, hrun, hput⟩ := (hone (true :: rest) (rest.length + 1)).1 hfull
        exact ⟨itr, u, _, hrun, hput⟩
    have hat := TableAt.of_itr hput.wf.toStored hput.holds
    rw [← hput.at_itr] at hat
    refine ⟨itr, u, bind_ok.mpr ⟨_, congrArg liftVt hrun, rfl⟩, hat, hput.wf, hput.maps,
      fun k v hk => ?_⟩
    by_cases hks : k = signo
    · exact hks ▸ hs
    · rw [if_neg hks] at hk
      exact hr.range k v hk
  erase t m itr signo item hr hat := by
    obtain ⟨itr', u, hrun, hu, -, -, -, hhas⟩ := sweepOn_ok hr.wf hat.positioned hat.holds false
    refine ⟨u, bind_ok.mpr ⟨_, congrArg liftVt hrun, rfl⟩, hu, fun k v => ?_, fun k v hk => ?_⟩
    · rw [hhas, ← hr.maps]
      by_cases hks : k = signo
      · simp [hks]
      · simp [hks]
    · split at hk
      · cases hk
      · exact hr.range k v hk

end Wg14Signals
