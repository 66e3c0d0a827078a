import Wg14Signals.FirstUse
import Wg14Signals.Proofs.TssKeys

namespace Wg14Signals
open Lib

/-- Has the call yet to find the slot filled? -/
def UsePc.early : UsePc → Bool
  | .initCheck => true
  | .createCheck _ => true
  | .publish _ => true
  | _ => false

/-- The instance a call took from the slot. -/
def UsePc.val : UsePc → Option Addr
  | .lookup val => some val
  | .create val _ => some val
  | .insert val _ _ => some val
  | .register val => some val
  | .stateGet val => some val
  | _ => none

/-- The slot is empty, with at most one call about to fill it, or one instance has been
published and every call that has one works on it. -/
structure SlotInv (s : FirstUse) : Prop where
  empty : s.slot = none →
    s.published = [] ∧ (∀ a ∈ s.acts, a.pc.early = true) ∧ ∀ t, s.returned t = false
  full : ∀ i, s.slot = some i → s.published = [i] ∧
    ∀ a ∈ s.acts, a.pc.publishing = false ∧ ∀ val, a.pc.val = some val → val = i
  alone : s.acts.countP (fun a => a.pc.publishing) ≤ 1

theorem SlotInv.initial (ids : Tid → UInt64) : SlotInv (.initial ids) := by
  constructor <;> simp [FirstUse.initial]

/-- How a step touches the slot. The calls `xs` take part and go on as `ys`; all others
stay. -/
inductive SlotEffect (s s' : FirstUse) (xs ys : List UseAct) : Prop where
  | keeps (slot : s'.slot = s.slot) (published : s'.published = s.published)
      (empty : s.slot = none → (∀ b ∈ ys, b.pc.early = true) ∧ s'.returned = s.returned)
      (full : ∀ i, s.slot = some i → ∀ b ∈ ys, ∀ val, b.pc.val = some val → val = i)
      (calm : ∀ b ∈ ys, b.pc.publishing = false)
  | passes (b : UseAct) (install : Bool) (hy : ys = [b]) (pc : b.pc = .publish install)
      (empty : s.slot = none) (nobody : ∀ a ∈ s.acts, a.pc.publishing = false)
      (slot : s'.slot = s.slot) (published : s'.published = s.published)
      (returned : s'.returned = s.returned)
  | publishes (a : UseAct) (val : Addr) (hx : xs = [a]) (pc : a.pc.publishing = true)
      (slot : s'.slot = some val) (published : s'.published = val :: s.published)
      (calm : ∀ b ∈ ys, b.pc.publishing = false ∧ b.pc.val = none)

/-- A step moves the call of one thread and leaves those of all others alone. -/
def TouchesSlot (s s' : FirstUse) : Prop :=
  ∃ xs ys rest : List UseAct,
    s.acts.Perm (xs ++ rest) ∧ s'.acts = ys ++ rest ∧ SlotEffect s s' xs ys

section

variable {s s' : FirstUse} {t : Tid} {a : UseAct}

theorem no_publisher {l : List UseAct} (h : ∀ a ∈ l, a.pc.publishing = false) :
    l.countP (fun a => a.pc.publishing) = 0 :=
  List.countP_eq_zero.mpr fun a ha => by simp [h a ha]

theorem SlotInv.step (hi : SlotInv s) (ht : TouchesSlot s s') : SlotInv s' := by
  obtain ⟨xs, ys, rest, hp, hq, he⟩ := ht
  have hrest : ∀ c ∈ rest, c ∈ s.acts := fun c hc => hp.mem_iff.mpr (List.mem_append_right _ hc)
  have hcount := hp.countP_eq fun a => a.pc.publishing
  rw [List.countP_append] at hcount
  cases he with
  | keeps slot published empty full calm =>
    refine ⟨fun h => ?_, fun i h => ?_, ?_⟩
    · rw [slot] at h
      obtain ⟨h1, h2, h3⟩ := hi.empty h
      refine ⟨published.trans h1, fun b hb => ?_, fun t => by rw [(empty h).2, h3]⟩
      rcases List.mem_append.mp (hq ▸ hb) with hb | hb
      · exact (empty h).1 b hb
      · exact h2 b (hrest b hb)
    · rw [slot] at h
      obtain ⟨h1, h2⟩ := hi.full i h
      refine ⟨published.trans h1, fun b hb => ?_⟩
      rcases List.mem_append.mp (hq ▸ hb) with hb | hb
      · exact ⟨calm b hb, full i h b hb⟩
      · exact h2 b (hrest b hb)
    · have := hi.alone
      rw [hq, List.countP_append, no_publisher calm]
      omega
  | passes b install hy pc hempty nobody slot published returned =>
    obtain ⟨h1, h2, h3⟩ := hi.empty hempty
    refine ⟨fun _ => ⟨published.trans h1, fun c hc => ?_, fun t => by rw [returned, h3]⟩,
      fun i h => ?_, ?_⟩
    · rcases List.mem_append.mp (hq ▸ hc) with hc | hc
      · obtain rfl := List.mem_singleton.mp (hy ▸ hc)
        rw [pc]
        rfl
      · exact h2 c (hrest c hc)
    · rw [slot, hempty] at h
      cases h
    · rw [hq, List.countP_append, no_publisher fun c hc => nobody c (hrest c hc), hy]
      exact List.countP_le_length
  | publishes a val hx pc slot published calm =>
    -- the one publisher there was is the call that has just written the slot
    have hlast : rest.countP (fun a => a.pc.publishing) = 0 := by
      have := hi.alone
      simp only [hx, List.countP_cons, List.countP_nil, pc, if_true] at hcount
      omega
    have hcalm : ∀ b ∈ rest, b.pc.publishing = false := fun b hb => by
      simpa using List.countP_eq_zero.mp hlast b hb
    have hempty : s.slot = none := by
      refine Option.eq_none_iff_forall_ne_some.mpr fun i h => ?_
      have := ((hi.full i h).2 a (hp.mem_iff.mpr (by simp [hx]))).1
      simp [pc] at this
    obtain ⟨h1, h2, -⟩ := hi.empty hempty
    refine ⟨fun h => ?_, fun i h => ?_, ?_⟩
    · rw [slot] at h
      cases h
    · rw [slot] at h
      cases h
      refine ⟨by rw [published, h1], fun b hb => ?_⟩
      rcases List.mem_append.mp (hq ▸ hb) with hb | hb
      · exact ⟨(calm b hb).1, by simp [(calm b hb).2]⟩
      · refine ⟨hcalm b hb, fun val' hv => ?_⟩
        have := h2 b (hrest b hb)
        cases hpc : b.pc <;> simp [hpc, UsePc.early, UsePc.val] at this hv
    · rw [hq, List.countP_append, no_publisher fun b hb => (calm b hb).1, hlast]
      exact Nat.zero_le 1

theorem useTop_perm (h : s.top t = some a) : s.acts.Perm ([a] ++ s.others t) := find_perm h

theorem useTop_mem (h : s.top t = some a) : a ∈ s.acts ∧ a.tid = t :=
  ⟨List.mem_of_find?_eq_some h, by simpa using List.find?_some h⟩

/-- A call that stays where the slot put it. -/
theorem TouchesSlot.keep {l n r : List UseAct} (hp : s.acts.Perm (l ++ r))
    (hq : s'.acts = n ++ r) (slot : s'.slot = s.slot) (published : s'.published = s.published)
    (empty : s.slot = none → (∀ b ∈ n, b.pc.early = true) ∧ s'.returned = s.returned)
    (full : ∀ i, s.slot = some i → ∀ b ∈ n, ∀ val, b.pc.val = some val → val = i)
    (calm : ∀ b ∈ n, b.pc.publishing = false) : TouchesSlot s s' :=
  ⟨l, n, r, hp, hq, .keeps slot published empty full calm⟩

/-- A call of `sig_global_tss_state_create` that finds the slot filled returns. -/
theorem created_slot {install : Bool} {xs : List UseAct} (hp : s.acts.Perm (xs ++ s.others t))
    (hs : s.slot ≠ none) : TouchesSlot s (s.created t install (s.others t)) := by
  cases install with
  | true => exact .keep hp (n := []) rfl rfl rfl (fun h => absurd h hs) (by simp) (by simp)
  | false =>
    exact .keep hp (n := [⟨t, .initRead⟩]) rfl rfl rfl (fun h => absurd h hs)
      (by simp [UsePc.val]) (by simp [UsePc.publishing])

theorem useSection_slot (hi : SlotInv s) (ht : s.top t = some a)
    (hk : CreatesAlone s (.advance t)) (h : useSection s t (s.others t) a.pc = .ok s') :
    TouchesSlot s s' := by
  have hp := useTop_perm ht
  obtain ⟨ha, htid⟩ := useTop_mem ht
  -- a call past the slot's test can only be there if the slot is filled
  have filled : a.pc.early = false → s.slot ≠ none := by
    intro he hs
    simp [(hi.empty hs).2.1 a ha] at he
  have same : ∀ i, s.slot = some i → ∀ val, a.pc.val = some val → val = i :=
    fun i hs => ((hi.full i hs).2 a ha).2
  cases hpc : a.pc with
  | initCheck =>
    simp only [hpc, useSection, pure_ok] at h
    subst h
    refine .keep hp (n := [_]) rfl rfl rfl ?_ ?_ ?_
    · intro hs
      simp [hs, UsePc.early]
    · intro i hs
      simp [hs, UsePc.val]
    · simp only [List.mem_singleton, forall_eq]
      split <;> rfl
  | createCheck install =>
    simp only [hpc, useSection] at h
    split at h
    · rename_i hs
      obtain rfl := pure_ok.mp h
      have nobody := (hk a ha htid).1 (by rw [hpc]; rfl) hs
      exact ⟨[a], [_], s.others t, hp, rfl, .passes _ install rfl rfl hs nobody rfl rfl rfl⟩
    · obtain rfl := pure_ok.mp h
      exact created_slot hp ‹_›
  | publish install =>
    simp only [hpc, useSection, pure_ok] at h
    subst h
    have pub : a.pc.publishing = true := by rw [hpc]; rfl
    cases install with
    | true => exact ⟨[a], [], s.others t, hp, rfl, .publishes a _ rfl pub rfl rfl (by simp)⟩
    | false =>
      exact ⟨[a], [_], s.others t, hp, rfl, .publishes a _ rfl pub rfl rfl
        (by simp [UsePc.publishing, UsePc.val])⟩
  | initRead =>
    simp only [hpc, useSection] at h
    split at h
    · simp at h
    · rename_i val hs
      obtain rfl := pure_ok.mp h
      refine .keep hp (n := [_]) rfl rfl rfl (by simp [hs]) ?_ (by simp [UsePc.publishing])
      simp [hs, UsePc.val]
  | lookup val =>
    have hs := filled (by simp [hpc, UsePc.early])
    simp only [hpc, useSection, bind_ok, Prod.exists] at h
    obtain ⟨ret, mytid, mem, -, h⟩ := h
    cases ret with
    | some v =>
      obtain rfl := pure_ok.mp h
      exact .keep hp (n := []) rfl rfl rfl (fun h => absurd h hs) (by simp) (by simp)
    | none =>
      obtain rfl := pure_ok.mp h
      refine .keep hp (n := [_]) rfl rfl rfl (fun h => absurd h hs) ?_ (by simp [UsePc.publishing])
      intro i hi
      simpa [UsePc.val] using same i hi val (by simp [hpc, UsePc.val])
  | create val mytid =>
    have hs := filled (by simp [hpc, UsePc.early])
    simp only [hpc, useSection, pure_ok] at h
    subst h
    refine .keep hp (n := [_]) rfl rfl rfl (fun h => absurd h hs) ?_ (by simp [UsePc.publishing])
    intro i hi
    simpa [UsePc.val] using same i hi val (by simp [hpc, UsePc.val])
  | insert val mytid newitem =>
    have hs := filled (by simp [hpc, UsePc.early])
    simp only [hpc, useSection, bind_ok, pure_ok, Prod.exists] at h
    obtain ⟨kept, mem, -, rfl⟩ := h
    refine .keep hp (n := [_]) rfl rfl rfl (fun h => absurd h hs) ?_ (by simp [UsePc.publishing])
    intro i hi
    simpa [UsePc.val] using same i hi val (by simp [hpc, UsePc.val])
  | register val =>
    have hs := filled (by simp [hpc, UsePc.early])
    simp only [hpc, useSection, bind_ok, pure_ok, Prod.exists] at h
    obtain ⟨ret, mem, -, rfl⟩ := h
    exact .keep hp (n := []) rfl rfl rfl (fun h => absurd h hs) (by simp) (by simp)
  | stateRead =>
    simp only [hpc, useSection] at h
    split at h
    · simp at h
    · rename_i val hs
      obtain rfl := pure_ok.mp h
      refine .keep hp (n := [_]) rfl rfl rfl (by simp [hs]) ?_ (by simp [UsePc.publishing])
      simp [hs, UsePc.val]
  | stateGet val =>
    have hs := filled (by simp [hpc, UsePc.early])
    simp only [hpc, useSection, bind_ok, pure_ok, Prod.exists] at h
    obtain ⟨ret, mytid, mem, -, rfl⟩ := h
    exact .keep hp (n := []) rfl rfl rfl (fun h => absurd h hs) (by simp) (by simp)

theorem useStep_slot {act : UseAction} (hi : SlotInv s) (hk : CreatesAlone s act)
    (h : useStep s act = .ok s') : TouchesSlot s s' := by
  cases act with
  | init t =>
    simp only [useStep] at h
    split at h
    · obtain rfl := pure_ok.mp h
      exact .keep (.refl _) (l := []) (n := [_]) rfl rfl rfl (by simp [FirstUse.push, UsePc.early])
        (by simp [UsePc.val]) (by simp [UsePc.publishing])
    · simp at h
  | install t =>
    simp only [useStep] at h
    split at h
    · split at h
      · simp at h
      · split at h
        · obtain rfl := pure_ok.mp h
          exact .keep (.refl _) (l := []) (n := [_]) rfl rfl rfl (by simp [FirstUse.push, UsePc.early])
            (by simp [UsePc.val]) (by simp [UsePc.publishing])
        · obtain rfl := pure_ok.mp h
          exact .keep (.refl _) (l := []) (n := []) rfl rfl rfl (by simp) (by simp) (by simp)
    · simp at h
  | state t =>
    simp only [useStep] at h
    split at h
    · split at h
      · rename_i hr
        obtain rfl := pure_ok.mp h
        -- only a thread on which the initialisation has returned asks for its state
        refine .keep (.refl _) (l := []) (n := [_]) rfl rfl rfl (fun hs => ?_)
          (by simp [UsePc.val]) (by simp [UsePc.publishing])
        simp [(hi.empty hs).2.2 t] at hr
      · simp at h
    · simp at h
  | advance t =>
    simp only [useStep] at h
    split at h
    · simp at h
    · exact useSection_slot hi ‹_› hk h

end

/-- The key a call computed for its thread. -/
def UsePc.mytid : UsePc → Option Key
  | .create _ mytid => some mytid
  | .insert _ mytid _ => some mytid
  | _ => none

/-- A thread's state is in the published instance. -/
def FirstUse.Owns (s : FirstUse) (t : Tid) : Prop :=
  ∃ i v, s.slot = some i ∧ s.mem.generationCached t ≠ 0 ∧
    s.mem.cell i (s.mem.key t) = some v ∧ v.tid = t

/-- Every entry is under its own thread's key, and a thread that got through its
initialisation has one. -/
structure OwnInv (s : FirstUse) : Prop where
  apart : KeysApart s.mem
  cells : ∀ i k v, s.mem.cell i k = some v →
    s.mem.generationCached v.tid ≠ 0 ∧ k = s.mem.key v.tid
  keyed : ∀ a ∈ s.acts, ∀ k, a.pc.mytid = some k →
    s.mem.generationCached a.tid ≠ 0 ∧ k = s.mem.key a.tid
  items : ∀ a ∈ s.acts, ∀ val k v, a.pc = .insert val k v → v.tid = a.tid
  registers : ∀ a ∈ s.acts, ∀ val, a.pc = .register val → s.Owns a.tid
  asks : ∀ a ∈ s.acts, a.pc = .stateRead ∨ (∃ val, a.pc = .stateGet val) →
    s.returned a.tid = true
  owns : ∀ t, s.returned t = true → s.Owns t

theorem OwnInv.initial (ids : Tid → UInt64) : OwnInv (.initial ids) := by
  refine ⟨.initial ids, ?_, ?_, ?_, ?_, ?_, ?_⟩ <;>
    simp [FirstUse.initial, TssMem.initial, TssMem.cell, Heap.empty]

/-- What the initialisation of one thread may do to the storage of the others: nothing but
add that thread's generation and entry. -/
structure Grows (s s' : FirstUse) : Prop where
  apart : KeysApart s'.mem
  slot : ∀ i, s.slot = some i → s'.slot = some i
  drawn : ∀ u, s.mem.generationCached u ≠ 0 →
    s'.mem.generationCached u ≠ 0 ∧ s'.mem.key u = s.mem.key u
  fresh : ∀ i k v, s'.mem.cell i k = some v → s.mem.cell i k = some v ∨
    (s'.mem.generationCached v.tid ≠ 0 ∧ k = s'.mem.key v.tid)
  owns : ∀ u, s.Owns u → s'.Owns u
  returned : ∀ u, s.returned u = true → s'.returned u = true

section

variable {s s' : FirstUse} {t : Tid} {a : UseAct}

/-- The invariant for a step, from what it does to the storage and what the call it moves
knows afterwards. -/
theorem OwnInv.step_of_grows (hi : OwnInv s) (hg : Grows s s') {n r : List UseAct}
    (hq : s'.acts = n ++ r) (hrest : ∀ c ∈ r, c ∈ s.acts)
    (keyed : ∀ b ∈ n, ∀ k, b.pc.mytid = some k →
      s'.mem.generationCached b.tid ≠ 0 ∧ k = s'.mem.key b.tid)
    (items : ∀ b ∈ n, ∀ val k v, b.pc = .insert val k v → v.tid = b.tid)
    (registers : ∀ b ∈ n, ∀ val, b.pc = .register val → s'.Owns b.tid)
    (asks : ∀ b ∈ n, b.pc = .stateRead ∨ (∃ val, b.pc = .stateGet val) →
      s'.returned b.tid = true)
    (owns : ∀ u, s'.returned u = true → s.returned u = true ∨ s'.Owns u) : OwnInv s' where
  apart := hg.apart
  cells i k v hc := by
    rcases hg.fresh i k v hc with h | h
    · obtain ⟨h0, hk⟩ := hi.cells i k v h
      obtain ⟨h1, h2⟩ := hg.drawn v.tid h0
      exact ⟨h1, hk.trans h2.symm⟩
    · exact h
  keyed b hb k hk := by
    rcases List.mem_append.mp (hq ▸ hb) with hb | hb
    · exact keyed b hb k hk
    · obtain ⟨h0, he⟩ := hi.keyed b (hrest b hb) k hk
      obtain ⟨h1, h2⟩ := hg.drawn b.tid h0
      exact ⟨h1, he.trans h2.symm⟩
  items b hb := by
    rcases List.mem_append.mp (hq ▸ hb) with hb | hb
    · exact items b hb
    · exact hi.items b (hrest b hb)
  registers b hb val hv := by
    rcases List.mem_append.mp (hq ▸ hb) with hb | hb
    · exact registers b hb val hv
    · exact hg.owns _ (hi.registers b (hrest b hb) val hv)
  asks b hb hv := by
    rcases List.mem_append.mp (hq ▸ hb) with hb | hb
    · exact asks b hb hv
    · exact hg.returned _ (hi.asks b (hrest b hb) hv)
  owns u hu := by
    rcases owns u hu with h | h
    · exact hg.owns u (hi.owns u h)
    · exact h

/-- A step that changes neither a key nor an entry. -/
theorem Grows.still (hi : OwnInv s) (hm : SameIds s.mem s'.mem) (hc : s'.mem.cell = s.mem.cell)
    (hs : s'.slot = s.slot) (hr : ∀ u, s.returned u = true → s'.returned u = true) :
    Grows s s' where
  apart := hm.keysApart hi.apart
  slot i h := hs.trans h
  drawn u h := ⟨by rwa [hm.cached], hm.key⟩
  fresh i k v h := .inl (hc ▸ h)
  owns u := by
    rintro ⟨i, v, hi, h0, hv⟩
    exact ⟨i, v, hs.trans hi, by rwa [hm.cached], by rwa [hm.key, hc]⟩
  returned := hr

theorem Grows.same (hi : OwnInv s) (hm : s'.mem = s.mem) (hs : s'.slot = s.slot)
    (hr : ∀ u, s.returned u = true → s'.returned u = true) : Grows s s' := by
  refine .still hi ?_ ?_ hs hr <;> rw [hm]
  exact ⟨rfl, rfl, rfl⟩

/-- Computing a thread's key draws at most its own generation. -/
theorem Grows.draw (hi : OwnInv s) (hd : (s.mem.drawGeneration t).KeyApart t)
    (hm : s'.mem = s.mem.drawGeneration t) (hs : s'.slot = s.slot)
    (hr : ∀ u, s.returned u = true → s'.returned u = true) : Grows s s' where
  apart := hm ▸ hi.apart.draw hd
  slot i h := hs.trans h
  drawn u h := hm ▸ key_draw h t
  fresh i k v h := .inl (by rwa [hm, cell_congr (instances_drawGeneration _ t)] at h)
  owns u := by
    rintro ⟨i, v, hi, h0, hc, hv⟩
    obtain ⟨h1, h2⟩ := key_draw h0 t
    refine ⟨i, v, hs.trans hi, hm ▸ h1, ?_, hv⟩
    rw [hm, h2, cell_congr (instances_drawGeneration _ t)]
    exact hc
  returned := hr

/-- Publishing the first instance disturbs nobody. -/
theorem Grows.publish (hi : OwnInv s) (hs : s.slot = none) (hm : s'.mem = (tssCreate s.mem).2)
    (hr : ∀ u, s.returned u = true → s'.returned u = true) : Grows s s' where
  apart := by
    rw [hm]
    exact (tssCreate_ids s.mem).keysApart hi.apart
  slot i h := by
    rw [hs] at h
    cases h
  drawn u h := by
    rw [hm]
    exact ⟨h, (tssCreate_ids s.mem).key⟩
  fresh i k v h := .inl (cell_of_tssCreate (hm ▸ h))
  owns u := by
    rintro ⟨i, v, hi, -⟩
    rw [hs] at hi
    cases hi
  returned := hr

/-- Inserting a thread's item adds the entry under its key. -/
theorem Grows.insert (hi : OwnInv s) (s' : FirstUse) {val : Addr} {mytid : Key} {v : Value} {kept : Bool}
    (h0 : s.mem.generationCached v.tid ≠ 0) (hkey : mytid = s.mem.key v.tid)
    (h : threadInitInsert {} s.mem val mytid v = .ok (kept, s'.mem))
    (hs : s'.slot = s.slot) (hr : ∀ u, s.returned u = true → s'.returned u = true) :
    Grows s s' ∧ s'.mem.cell val mytid = some v := by
  have hids := (threadInitInsert_keeps h).toSameIds
  have hkept : kept = true := threadInitInsert_succeeds rfl rfl h
  subst hkept
  have hcells := threadInitInsert_kept h
  have hcached : s'.mem.generationCached = s.mem.generationCached := hids.cached
  refine ⟨⟨hids.keysApart hi.apart, fun i h => hs.trans h, fun u hu => ?_,
    fun i k w hc => ?_, ?_, hr⟩, by rw [hcells, if_pos ⟨rfl, rfl⟩]⟩
  · exact ⟨by rwa [hcached], hids.key⟩
  · rw [hcells] at hc
    split at hc
    · rename_i hik
      obtain rfl := Option.some.inj hc
      exact .inr ⟨by rwa [hcached], by rw [hik.2, hkey, hids.key]⟩
    · exact .inl hc
  · rintro u ⟨i, w, hi', hu0, hc, hw⟩
    refine ⟨i, if i = val ∧ s.mem.key u = mytid then v else w, hs.trans hi', by rwa [hcached],
      ?_, ?_⟩
    · rw [hids.key, hcells]
      split
      · rfl
      · exact hc
    · split
      · rename_i hik
        exact hi.apart _ _ h0 hu0 (hkey.symm.trans hik.2.symm)
      · exact hw

theorem useOthers_mem {c : UseAct} (hc : c ∈ s.others t) : c ∈ s.acts := List.mem_of_mem_eraseP hc

/-- A step after which the moved call knows nothing about its thread's storage. -/
theorem OwnInv.step_plain (hi : OwnInv s) (hg : Grows s s') {n r : List UseAct}
    (hq : s'.acts = n ++ r) (hrest : ∀ c ∈ r, c ∈ s.acts)
    (plain : ∀ b ∈ n, b.pc.early = true ∨ b.pc = .initRead ∨ ∃ val, b.pc = .lookup val)
    (hr : s'.returned = s.returned) : OwnInv s' := by
  refine hi.step_of_grows hg hq hrest ?_ ?_ ?_ ?_ fun u hu => .inl (hr ▸ hu)
  · intro b hb k hk
    rcases plain b hb with h | h | ⟨val, h⟩
    · cases hpc : b.pc <;> simp [hpc, UsePc.early, UsePc.mytid] at h hk
    · simp [h, UsePc.mytid] at hk
    · simp [h, UsePc.mytid] at hk
  · intro b hb val k v hv
    rcases plain b hb with h | h | ⟨_, h⟩ <;> simp [hv, UsePc.early] at h
  · intro b hb val hv
    rcases plain b hb with h | h | ⟨_, h⟩ <;> simp [hv, UsePc.early] at h
  · rintro b hb (hv | ⟨val, hv⟩) <;>
      rcases plain b hb with h | h | ⟨_, h⟩ <;> simp [hv, UsePc.early] at h

theorem FirstUse.initReturns_returned (s : FirstUse) (t u : Tid) (rest : List UseAct)
    (h : s.returned u = true) : (s.initReturns t rest).returned u = true := by
  simp [FirstUse.initReturns, h]

/-- The initialisation returns on a thread that has its entry. -/
theorem OwnInv.step_returns (hi : OwnInv s) {s₁ : FirstUse} {rest : List UseAct}
    (hg : Grows s (s₁.initReturns t rest)) (hr : s₁.returned = s.returned)
    (hrest : ∀ c ∈ rest, c ∈ s.acts) (hown : (s₁.initReturns t rest).Owns t) :
    OwnInv (s₁.initReturns t rest) := by
  refine hi.step_of_grows hg (n := []) rfl hrest (by simp) (by simp) (by simp) (by simp) ?_
  intro u hu
  by_cases h : u = t
  · exact .inr (h ▸ hown)
  · simp only [FirstUse.initReturns, h, if_false, hr] at hu
    exact .inl hu

theorem useSection_own (hi : OwnInv s) (hsl : SlotInv s) (ht : s.top t = some a)
    (hk : CreatesAlone s (.advance t)) (h : useSection s t (s.others t) a.pc = .ok s') :
    OwnInv s' := by
  obtain ⟨ha, htid⟩ := useTop_mem ht
  have hrest : ∀ c ∈ s.others t, c ∈ s.acts := fun c hc => useOthers_mem hc
  -- a call that has an instance has the published one
  have slot_of : ∀ val, a.pc.val = some val → s.slot = some val := by
    intro val hv
    cases hs : s.slot with
    | none =>
      have := (hsl.empty hs).2.1 a ha
      cases hpc : a.pc <;> simp [hpc, UsePc.early, UsePc.val] at this hv
    | some i => rw [((hsl.full i hs).2 a ha).2 val hv]
  cases hpc : a.pc with
  | initCheck =>
    simp only [hpc, useSection, pure_ok] at h
    subst h
    refine hi.step_plain (.same hi rfl rfl fun _ h => h) (n := [_]) rfl hrest ?_ rfl
    simp only [List.mem_singleton, forall_eq]
    split <;> simp [UsePc.early]
  | createCheck install =>
    simp only [hpc, useSection] at h
    split at h
    · obtain rfl := pure_ok.mp h
      refine hi.step_plain (.same hi rfl rfl fun _ h => h) (n := [_]) rfl hrest ?_ rfl
      simp [UsePc.early]
    · obtain rfl := pure_ok.mp h
      cases install with
      | true =>
        exact hi.step_plain (.same hi rfl rfl fun _ h => h) (n := []) rfl hrest (by simp) rfl
      | false =>
        exact hi.step_plain (.same hi rfl rfl fun _ h => h) (n := [_]) rfl hrest (by simp) rfl
  | publish install =>
    have hs : s.slot = none := by
      refine Option.eq_none_iff_forall_ne_some.mpr fun i h => ?_
      have := ((hsl.full i h).2 a ha).1
      simp [hpc, UsePc.publishing] at this
    simp only [hpc, useSection, pure_ok] at h
    subst h
    cases install with
    | true =>
      exact hi.step_plain (.publish hi hs rfl fun _ h => h) (n := []) rfl hrest (by simp) rfl
    | false =>
      exact hi.step_plain (.publish hi hs rfl fun _ h => h) (n := [_]) rfl hrest (by simp) rfl
  | initRead =>
    simp only [hpc, useSection] at h
    split at h
    · simp at h
    · obtain rfl := pure_ok.mp h
      exact hi.step_plain (.same hi rfl rfl fun _ h => h) (n := [_]) rfl hrest (by simp) rfl
  | lookup val =>
    have hs := slot_of val (by simp [hpc, UsePc.val])
    simp only [hpc, useSection, bind_ok, Prod.exists] at h
    obtain ⟨ret, mytid, mem, hl, h⟩ := h
    obtain ⟨rfl, hret, rfl⟩ := tssLookup_ok hl
    have hd := (hk a ha htid).2 val hpc
    have hdrawn := hd.1
    have hkey := key_draw_self hdrawn
    cases ret with
    | some v =>
      obtain rfl := pure_ok.mp h
      obtain ⟨hv0, hvk⟩ := hi.cells _ _ v hret.symm
      have hg : Grows s (FirstUse.initReturns { s with mem := s.mem.drawGeneration t } t
          (s.others t)) :=
        .draw hi hd rfl rfl fun u hu => FirstUse.initReturns_returned _ t u _ hu
      refine hi.step_returns hg rfl hrest ?_
      refine ⟨val, v, hs, hdrawn, ?_, ?_⟩
      · change (s.mem.drawGeneration t).cell val ((s.mem.drawGeneration t).key t) = some v
        rw [hkey, cell_congr (instances_drawGeneration _ t)]
        exact hret.symm
      · -- the entry under the thread's key is its own, keys being apart
        obtain ⟨hv1, hv2⟩ := key_draw hv0 t
        refine hi.apart.draw hd _ _ hv1 hdrawn ?_
        rw [hv2, hkey]
        exact hvk.symm
    | none =>
      obtain rfl := pure_ok.mp h
      refine hi.step_of_grows (.draw hi hd rfl rfl fun _ h => h) (n := [_]) rfl hrest
        ?_ (by simp) (by simp) (by simp) fun u hu => .inl hu
      simp only [List.mem_singleton, forall_eq, UsePc.mytid, Option.some.injEq]
      rintro k rfl
      exact ⟨hdrawn, hkey.symm⟩
  | create val mytid =>
    simp only [hpc, useSection, pure_ok] at h
    subst h
    obtain ⟨h0, hkey⟩ := hi.keyed a ha mytid (by simp [hpc, UsePc.mytid])
    rw [htid] at h0 hkey
    refine hi.step_of_grows (.same hi rfl rfl fun _ h => h) (n := [_]) rfl hrest
      ?_ ?_ (by simp) (by simp) fun u hu => .inl hu
    · simp only [List.mem_singleton, forall_eq, UsePc.mytid, Option.some.injEq]
      rintro k rfl
      exact ⟨h0, hkey⟩
    · simp only [List.mem_singleton, forall_eq, UsePc.insert.injEq]
      rintro _ _ v ⟨rfl, rfl, rfl⟩
      rfl
  | insert val mytid newitem =>
    have hs := slot_of val (by simp [hpc, UsePc.val])
    obtain ⟨h0, hkey⟩ := hi.keyed a ha mytid (by simp [hpc, UsePc.mytid])
    have hv := hi.items a ha val mytid newitem hpc
    simp only [hpc, useSection, bind_ok, pure_ok, Prod.exists] at h
    obtain ⟨kept, mem, hins, rfl⟩ := h
    obtain ⟨hg, hcell⟩ := Grows.insert hi
      { s with mem, acts := ⟨t, .register val⟩ :: s.others t } (hv ▸ h0) (hv ▸ hkey) hins rfl fun _ h => h
    refine hi.step_of_grows hg (n := [_]) rfl hrest (by simp [UsePc.mytid]) (by simp) ?_
      (by simp) fun u hu => .inl hu
    simp only [List.mem_singleton, forall_eq, UsePc.register.injEq]
    rintro _ rfl
    obtain ⟨h1, h2⟩ := hg.drawn a.tid h0
    rw [← htid]
    refine ⟨val, newitem, hs, h1, ?_, hv⟩
    rw [h2, ← hkey]
    exact hcell
  | register val =>
    have hown := hi.registers a ha val hpc
    simp only [hpc, useSection, bind_ok, pure_ok, Prod.exists] at h
    obtain ⟨ret, mem, hreg, rfl⟩ := h
    have hg : Grows s (FirstUse.initReturns { s with mem } t (s.others t)) :=
      .still hi (threadInitRegister_keeps hreg).2.toSameIds
        (cell_congr (threadInitRegister_keeps hreg).1) rfl
        fun u hu => FirstUse.initReturns_returned _ t u _ hu
    exact hi.step_returns hg rfl hrest (hg.owns t (htid ▸ hown))
  | stateRead =>
    have hret := hi.asks a ha (.inl hpc)
    simp only [hpc, useSection] at h
    split at h
    · simp at h
    · obtain rfl := pure_ok.mp h
      refine hi.step_of_grows (.same hi rfl rfl fun _ h => h) (n := [_]) rfl hrest
        (by simp [UsePc.mytid]) (by simp) (by simp) ?_ fun u hu => .inl hu
      simpa [htid] using hret
  | stateGet val =>
    simp only [hpc, useSection, bind_ok, pure_ok, Prod.exists] at h
    obtain ⟨ret, mytid, mem, hl, rfl⟩ := h
    obtain ⟨-, -, rfl⟩ := tssLookup_ok hl
    obtain ⟨_, _, _, h0, _⟩ := hi.owns a.tid (hi.asks a ha (.inr ⟨val, hpc⟩))
    have hm := drawGeneration_of_drawn (htid ▸ h0)
    exact hi.step_plain (.same hi hm rfl fun _ h => h) (n := []) rfl hrest (by simp) rfl

theorem useStep_own {act : UseAction} (hi : OwnInv s) (hsl : SlotInv s)
    (hk : CreatesAlone s act) (h : useStep s act = .ok s') : OwnInv s' := by
  cases act with
  | init t =>
    simp only [useStep] at h
    split at h
    · obtain rfl := pure_ok.mp h
      exact hi.step_plain (.same hi rfl rfl fun _ h => h) (n := [_]) rfl (fun _ h => h)
        (by simp [UsePc.early]) rfl
    · simp at h
  | install t =>
    simp only [useStep] at h
    split at h
    · split at h
      · simp at h
      · split at h
        · obtain rfl := pure_ok.mp h
          exact hi.step_plain (.same hi rfl rfl fun _ h => h) (n := [_]) rfl (fun _ h => h)
            (by simp [UsePc.early]) rfl
        · obtain rfl := pure_ok.mp h
          exact hi.step_plain (.same hi rfl rfl fun _ h => h) (n := []) rfl (fun _ h => h)
            (by simp) rfl
    · simp at h
  | state t =>
    simp only [useStep] at h
    split at h
    · split at h
      · rename_i hr
        obtain rfl := pure_ok.mp h
        exact hi.step_of_grows (.same hi rfl rfl fun _ h => h) (n := [_]) rfl (fun _ h => h)
          (by simp [UsePc.mytid]) (by simp) (by simp)
          (by simpa [FirstUse.push] using hr) fun u hu => .inl hu
      · simp at h
    · simp at h
  | advance t =>
    simp only [useStep] at h
    split at h
    · simp at h
    · exact useSection_own hi hsl ‹_› hk h

end

theorem useInv_run {ids : Tid → UInt64} {s : FirstUse}
    (hr : Run useStep CreatesAlone (.initial ids) s) : SlotInv s ∧ OwnInv s :=
  hr.invariant (I := fun s => SlotInv s ∧ OwnInv s) ⟨.initial ids, .initial ids⟩ fun _ _ _ hi hk h =>
    ⟨hi.1.step (useStep_slot hi.1 hk h), useStep_own hi.2 hi.1 hk h⟩

/-- A thread that has its entry in an instance gets it from there. -/
theorem FirstUse.Owns.get {s : FirstUse} {t : Tid} {i : Addr} (h : s.Owns t)
    (hs : s.slot = some i) :
    ∃ v, tssAsyncSignalSafeGet s.mem t i = .ok (some v) ∧ v.tid = t := by
  obtain ⟨j, v, hj, -, hc, hv⟩ := h
  obtain rfl := Option.some.inj (hs.symm.trans hj)
  exact ⟨v, get_of_cell hc, hv⟩

/-- At most one instance is published, and on every thread on which the initialisation has
returned 0, `sig_global_tss_state` returns the thread's own state, also if the slot was
read before other threads went on: provided `sig_global_tss_state_create` is never past
its test on two threads at once. -/
theorem first_use_safe {ids : Tid → UInt64} {s : FirstUse}
    (hr : Run useStep CreatesAlone (.initial ids) s) :
    s.published.length ≤ 1 ∧
      (∀ t, s.returned t = true →
        ∃ v, sigGlobalTssState s t = .ok (some v) ∧ v.tid = t) ∧
      ∀ a ∈ s.acts, ∀ val, a.pc = .stateGet val →
        ∃ v, tssAsyncSignalSafeGet s.mem a.tid val = .ok (some v) ∧ v.tid = a.tid := by
  obtain ⟨hsl, hi⟩ := useInv_run hr
  refine ⟨?_, fun t ht => ?_, fun a ha val hpc => ?_⟩
  · cases hs : s.slot with
    | none => simp [(hsl.empty hs).1]
    | some i => simp [(hsl.full i hs).1]
  · have hown := hi.owns t ht
    have ⟨i, _, hs, _⟩ := hown
    simp only [sigGlobalTssState, hs]
    exact hown.get hs
  · have hown := hi.owns a.tid (hi.asks a ha (.inr ⟨val, hpc⟩))
    have ⟨i, _, hs, _⟩ := hown
    rw [((hsl.full i hs).2 a ha).2 val (by simp [hpc, UsePc.val])]
    exact hown.get hs

/-- A check that a step meets the condition, as long as there have been fewer than `2 ^ 32`
threads. -/
def createsAlone (s : FirstUse) : UseAction → Bool
  | .advance t =>
    s.mem.generationCounter < 0xffffffff && s.acts.all fun a =>
      a.tid != t || !a.pc.creating || s.slot.isSome || s.acts.all fun b => !b.pc.publishing
  | _ => true

section

variable {s s' : FirstUse} {t : Tid}

theorem useSection_ids {rest : List UseAct} {pc : UsePc} (h : useSection s t rest pc = .ok s') :
    SameIds s.mem s'.mem ∨ s'.mem = s.mem.drawGeneration t := by
  have same : ∀ {m : TssMem}, SameIds m m := ⟨rfl, rfl, rfl⟩
  cases pc with
  | initCheck => exact .inl (pure_ok.mp h ▸ same)
  | createCheck install =>
    simp only [useSection] at h
    split at h
    · exact .inl (pure_ok.mp h ▸ same)
    · obtain rfl := pure_ok.mp h
      cases install <;> exact .inl same
  | publish install =>
    obtain rfl := pure_ok.mp h
    cases install <;> exact .inl (tssCreate_ids s.mem)
  | initRead | stateRead =>
    simp only [useSection] at h
    split at h
    · simp at h
    · exact .inl (pure_ok.mp h ▸ same)
  | lookup val =>
    simp only [useSection, bind_ok, Prod.exists] at h
    obtain ⟨ret, mytid, mem, hl, h⟩ := h
    obtain ⟨-, -, rfl⟩ := tssLookup_ok hl
    cases ret <;> exact .inr (pure_ok.mp h ▸ rfl)
  | create val mytid => exact .inl (pure_ok.mp h ▸ same)
  | insert val mytid newitem =>
    simp only [useSection, bind_ok, pure_ok, Prod.exists] at h
    obtain ⟨kept, mem, hins, rfl⟩ := h
    exact .inl (threadInitInsert_keeps hins).toSameIds
  | register val =>
    simp only [useSection, bind_ok, pure_ok, Prod.exists] at h
    obtain ⟨ret, mem, hreg, rfl⟩ := h
    exact .inl (threadInitRegister_keeps hreg).2.toSameIds
  | stateGet val =>
    simp only [useSection, bind_ok, pure_ok, Prod.exists] at h
    obtain ⟨ret, mytid, mem, hl, rfl⟩ := h
    obtain ⟨-, -, rfl⟩ := tssLookup_ok hl
    exact .inr rfl

theorem Generations.useStep {act : UseAction} (hg : Generations s.mem)
    (hc : createsAlone s act = true) (h : Wg14Signals.useStep s act = .ok s') :
    Generations s'.mem := by
  cases act with
  | init t =>
    simp only [Wg14Signals.useStep] at h
    split at h
    · exact pure_ok.mp h ▸ hg
    · simp at h
  | install t =>
    simp only [Wg14Signals.useStep] at h
    split at h
    · split at h
      · simp at h
      · split at h <;> exact pure_ok.mp h ▸ hg
    · simp at h
  | state t =>
    simp only [Wg14Signals.useStep] at h
    split at h
    · split at h
      · exact pure_ok.mp h ▸ hg
      · simp at h
    · simp at h
  | advance t =>
    simp only [Wg14Signals.useStep] at h
    split at h
    · simp at h
    · simp only [createsAlone, Bool.and_eq_true, decide_eq_true_eq] at hc
      rcases useSection_ids h with hi | hm
      · exact hi.generations hg
      · exact hm ▸ (hg.draw hc.1 t).1

theorem createsAlone_ok {act : UseAction} (hg : Generations s.mem)
    (hc : createsAlone s act = true) : CreatesAlone s act := by
  cases act with
  | advance t =>
    simp only [createsAlone, Bool.and_eq_true, decide_eq_true_eq, List.all_eq_true,
      Bool.or_eq_true, bne_iff_ne, Bool.not_eq_true', Option.isSome_iff_ne_none] at hc
    obtain ⟨hfew, hc⟩ := hc
    refine fun a ha htid => ⟨fun hcr hs => ?_, fun val _ => ?_⟩
    · rcases hc a ha with ((h | h) | h) | h
      · exact absurd htid h
      · simp [hcr] at h
      · exact absurd hs h
      · exact h
    · obtain ⟨hg', h0⟩ := hg.draw hfew t
      exact ⟨h0, fun u hu hk => hg'.keysApart u t hu h0 hk⟩
  | init | install | state => trivial

/-- With fewer than `2 ^ 32` threads the condition is about the slot alone. -/
theorem run_of_createsAlone {ids : Tid → UInt64}
    (hr : Run useStep (fun s act => createsAlone s act = true) (.initial ids) s) :
    Run useStep CreatesAlone (.initial ids) s ∧ Generations s.mem := by
  induction hr with
  | refl => exact ⟨.refl _, .initial ids⟩
  | tail act _ hc h ih => exact ⟨.tail act ih.1 (createsAlone_ok ih.2 hc) h, ih.2.useStep hc h⟩

end

/-- Thread 1 finds the slot null in its first test, but not in the second: thread 0 has
published its instance meanwhile. -/
theorem first_use_safe_two :
    ∃ s, Run useStep CreatesAlone (.initial fun t => t.toUInt64) s ∧
      s.published.length ≤ 1 ∧
      (∃ v, sigGlobalTssState s 0 = .ok (some v) ∧ v.tid = 0) ∧
      ∃ v, sigGlobalTssState s 1 = .ok (some v) ∧ v.tid = 1 := by
  obtain ⟨s, hr, hq⟩ := run_of_ends (f := useStep)
    (r := fun s act => createsAlone s act = true)
    (s := .initial fun t => t.toUInt64) (c := createsAlone)
    (q := fun s => s.returned 0 && s.returned 1)
    (l := [.init 0, .init 1, .advance 0, .advance 1, .advance 0, .advance 0, .advance 1,
      .advance 0, .advance 1, .advance 0, .advance 0, .advance 1, .advance 0, .advance 0,
      .advance 1, .advance 1, .advance 1])
    (fun _ _ h => h) (by decide)
  obtain ⟨h0, h1⟩ := Bool.and_eq_true_iff.mp hq
  obtain ⟨hlen, hown, -⟩ := first_use_safe (run_of_createsAlone hr).1
  exact ⟨s, (run_of_createsAlone hr).1, hlen, hown 0 h0, hown 1 h1⟩

/-- Without the condition: two threads find the slot null, the first publishes its instance
and initialises itself in it, the second overwrites the slot. The first then looks
itself up in an instance that does not know it. -/
theorem first_use_lost :
    ∃ s, Run useStep (fun _ _ => True) (.initial fun t => t.toUInt64) s ∧
      s.returned 0 = true ∧ sigGlobalTssState s 0 = .ok none ∧ s.published.length = 2 := by
  obtain ⟨s, hr, hq⟩ := run_of_ends (f := useStep) (r := fun _ _ => True)
    (s := .initial fun t => t.toUInt64) (c := fun _ _ => true)
    (q := fun s => s.returned 0 && s.published.length == 2 &&
      okAnd (sigGlobalTssState s 0) Option.isNone)
    (l := [.init 0, .init 1, .advance 0, .advance 1, .advance 0, .advance 1, .advance 0,
      .advance 0, .advance 0, .advance 0, .advance 0, .advance 0, .advance 1])
    (fun _ _ _ => trivial) (by decide)
  simp only [Bool.and_eq_true, beq_iff_eq, okAnd_iff, Option.isNone_iff_eq_none] at hq
  obtain ⟨⟨h0, hlen⟩, v, hget, hnone⟩ := hq
  exact ⟨s, hr, h0, hnone ▸ hget, hlen⟩

end Wg14Signals
