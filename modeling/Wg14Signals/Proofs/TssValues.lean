import Wg14Signals.Proofs.TssSections

namespace Wg14Signals
open Lib

/-- What a call in progress has to do with a value. -/
inductive Role where
  | idle
  /-- Created for this cell and not yet in the map. -/
  | pending (val : Addr) (k : Key) (v : Value)
  /-- Read from this cell by an exiting thread. -/
  | found (val : Addr) (k : Key) (v : Value)
  /-- The same, the value's `attr.destroy` having begun. -/
  | destroying (val : Addr) (k : Key) (v : Value)
  /-- In no map any more, its `attr.destroy` running or next to run. -/
  | doomed (v : Value)

def TssCall.role : TssCall → Role
  | .threadInit val (.insert mytid newitem) => .pending val mytid newitem
  | .threadInit _ (.discard newitem) => .doomed newitem
  | .threadInit _ (.discarding newitem) => .doomed newitem
  | .deinit _ (.callback val mytid item) => .found val mytid item
  | .deinit _ (.erase val mytid item) => .destroying val mytid item
  | .destroy _ (.callback item _) => .doomed item
  | .destroy _ (.calling item _) => .doomed item
  | _ => .idle

def TssAct.role (a : TssAct) : Role := a.call.role

def Role.value : Role → Option Value
  | .idle => none
  | .pending _ _ v => some v
  | .found _ _ v => some v
  | .destroying _ _ v => some v
  | .doomed v => some v

/-- A value that is still to be put in the map belongs to one call alone. -/
def Role.Apart (r r' : Role) : Prop :=
  (∀ i k v, r = .pending i k v → r'.value ≠ some v) ∧
    ∀ i k v, r' = .pending i k v → r.value ≠ some v

theorem Role.Apart.symm {r r' : Role} (h : r.Apart r') : r'.Apart r := ⟨h.2, h.1⟩

theorem Role.apart_idle (r : Role) : Role.idle.Apart r := ⟨by simp, by simp [Role.value]⟩

/-- The values a state mentions: in a map, with a call in progress, or as destroyed. -/
def TssState.mentions (s : TssState) (v : Value) : Prop :=
  (∃ i k, s.mem.cell i k = some v) ∨ (∃ a ∈ s.acts, a.role.value = some v) ∨ s.begun v ≠ 0

/-- The cells a state connects a value with. -/
def TssState.places (s : TssState) (i : Addr) (k : Key) (v : Value) : Prop :=
  s.mem.cell i k = some v ∨
    ∃ a ∈ s.acts, a.role = .pending i k v ∨ a.role = .found i k v

/-- Where the values are and which of them are being destroyed, as the maps and the calls
in progress have it. -/
structure ValuesInv (s : TssState) : Prop where
  /-- A value is only ever in the cell it was created for. -/
  home : ∀ i k v, s.places i k v → v.val = i ∧ v.mytid = k
  old : ∀ v, s.mentions v → v.serial < s.nextValue
  apart : s.acts.Pairwise fun a b => a.role.Apart b.role
  pending : ∀ a ∈ s.acts, ∀ i k v, a.role = .pending i k v →
    s.begun v = 0 ∧ ∀ j l, s.mem.cell j l ≠ some v
  doomed : ∀ a ∈ s.acts, ∀ v, a.role = .doomed v → ∀ j l, s.mem.cell j l ≠ some v
  shown : ∀ i k v, s.mem.cell i k = some v →
    s.begun v = 0 ∨ ∃ a ∈ s.acts, a.role = .destroying i k v

theorem ValuesInv.initial (currentThreadId : Tid → UInt64) :
    ValuesInv (.initial currentThreadId) := by
  constructor <;>
    simp [TssState.initial, TssState.places, TssState.mentions, TssMem.initial, TssMem.cell,
      Heap.empty]

/-- How a step touches the values. The calls `xs` take part and go on as `ys`; all others
stay. -/
inductive ValueEffect (s s' : TssState) (xs ys : List TssAct) : Prop where
  /-- Entries only go, and a call in the midst of destroying one leaves none behind. -/
  | calm (idle : ∀ b ∈ ys, b.role = .idle)
      (cells : ∀ i k v, s'.mem.cell i k = some v →
        s.mem.cell i k = some v ∧ ∀ a ∈ xs, a.role ≠ .destroying i k v)
      (begun : s'.begun = s.begun) (next : s'.nextValue = s.nextValue)
  | creates (a b : TssAct) (t : Tid) (i : Addr) (k : Key) (hx : xs = [a]) (hy : ys = [b])
      (before : a.role = .idle) (after : b.role = .pending i k ⟨s.nextValue, t, i, k⟩)
      (cells : s'.mem = s.mem) (begun : s'.begun = s.begun)
      (next : s'.nextValue = s.nextValue + 1)
  | inserts (a b : TssAct) (i : Addr) (k : Key) (v : Value) (hx : xs = [a]) (hy : ys = [b])
      (before : a.role = .pending i k v) (after : b.role = .idle)
      (cells : ∀ j l w, s'.mem.cell j l = some w →
        (j = i ∧ l = k ∧ w = v) ∨ s.mem.cell j l = some w)
      (begun : s'.begun = s.begun) (next : s'.nextValue = s.nextValue)
  | rejects (a b : TssAct) (i : Addr) (k : Key) (v : Value) (hx : xs = [a]) (hy : ys = [b])
      (before : a.role = .pending i k v) (after : b.role = .doomed v)
      (cells : ∀ j l w, s'.mem.cell j l = some w → s.mem.cell j l = some w)
      (begun : s'.begun = s.begun) (next : s'.nextValue = s.nextValue)
  | finds (a b : TssAct) (i : Addr) (k : Key) (v : Value) (hx : xs = [a]) (hy : ys = [b])
      (before : a.role = .idle) (after : b.role = .found i k v) (cell : s.mem.cell i k = some v)
      (cells : s'.mem.cell = s.mem.cell)
      (begun : s'.begun = s.begun) (next : s'.nextValue = s.nextValue)
  | destroys (a b : TssAct) (i : Addr) (k : Key) (v : Value) (hx : xs = [a]) (hy : ys = [b])
      (before : a.role = .found i k v) (after : b.role = .destroying i k v)
      (cells : s'.mem = s.mem) (begun : s'.begun = s.begin v) (next : s'.nextValue = s.nextValue)
  | dooms (a b : TssAct) (v : Value) (hx : xs = [a]) (hy : ys = [b])
      (before : a.role = .doomed v) (after : b.role = .doomed v)
      (cells : s'.mem = s.mem) (begun : s'.begun = s.begin v) (next : s'.nextValue = s.nextValue)
  | sweeps (b : TssAct) (i : Addr) (k : Key) (v : Value) (hy : ys = [b])
      (before : ∀ a ∈ xs, ∀ j l w, a.role ≠ .destroying j l w)
      (after : b.role = .doomed v)
      (cell : s.mem.cell i k = some v) (erased : s'.mem.cell i k = none)
      (cells : ∀ j l w, s'.mem.cell j l = some w → s.mem.cell j l = some w)
      (begun : s'.begun = s.begun) (next : s'.nextValue = s.nextValue)

section

variable {s s' : TssState} {xs ys rest : List TssAct}

theorem begin_apply (s : TssState) (v w : Value) :
    s.begin v w = if w = v then s.begun w + 1 else s.begun w := rfl

/-- Entries come from the entries there were, but for one that was pending. -/
theorem ValueEffect.cell_old (he : ValueEffect s s' xs ys) {i : Addr} {k : Key} {v : Value}
    (hc : s'.mem.cell i k = some v) :
    s.mem.cell i k = some v ∨ ∃ a ∈ xs, a.role = .pending i k v := by
  cases he with
  | calm idle cells => exact .inl (cells i k v hc).1
  | creates a b u j l hx hy before after cells => exact .inl (cells ▸ hc)
  | inserts a b j l w hx hy before after cells =>
    rcases cells i k v hc with ⟨rfl, rfl, rfl⟩ | h
    · exact .inr ⟨a, by simp [hx], before⟩
    · exact .inl h
  | rejects a b j l w hx hy before after cells => exact .inl (cells i k v hc)
  | finds a b j l w hx hy before after cell cells => exact .inl (cells ▸ hc)
  | destroys a b j l w hx hy before after cells => exact .inl (cells ▸ hc)
  | dooms a b w hx hy before after cells => exact .inl (cells ▸ hc)
  | sweeps b j l w hy before after cell erased cells => exact .inl (cells i k v hc)

variable (hi : ValuesInv s) (hp : s.acts.Perm (xs ++ rest)) (hq : s'.acts = ys ++ rest)
  (he : ValueEffect s s' xs ys)

include hp in
theorem part_mem {a : TssAct} (ha : a ∈ xs) : a ∈ s.acts :=
  hp.mem_iff.mpr (List.mem_append_left _ ha)

include hp in
theorem rest_mem {c : TssAct} (hc : c ∈ rest) : c ∈ s.acts :=
  hp.mem_iff.mpr (List.mem_append_right _ hc)

include hi hp in
/-- A call that takes part stays apart from those that do not. -/
theorem part_apart {a c : TssAct} (ha : a ∈ xs) (hc : c ∈ rest) : a.role.Apart c.role :=
  (List.pairwise_append.mp (hp.pairwise hi.apart fun {_ _} hab => hab.symm)).2.2 a ha c hc

include hi hp hq he in
theorem home_step (i : Addr) (k : Key) (v : Value) (hv : s'.places i k v) :
    v.val = i ∧ v.mytid = k := by
  rcases hv with hc | ⟨b, hb, hr⟩
  · rcases he.cell_old hc with h | ⟨a, ha, hr⟩
    · exact hi.home i k v (.inl h)
    · exact hi.home i k v (.inr ⟨a, part_mem hp ha, .inl hr⟩)
  · rw [hq] at hb
    rcases List.mem_append.mp hb with hb | hb
    · cases he with
      | calm idle => simp [idle b hb] at hr
      | creates a c u j l hx hy before after =>
        obtain rfl := List.mem_singleton.mp (hy ▸ hb)
        rw [after] at hr
        rcases hr with hr | hr <;> cases hr
        exact ⟨rfl, rfl⟩
      | finds a c j l w hx hy before after cell =>
        obtain rfl := List.mem_singleton.mp (hy ▸ hb)
        rw [after] at hr
        rcases hr with hr | hr <;> cases hr
        exact hi.home i k v (.inl cell)
      | inserts a c j l w hx hy before after
      | rejects a c j l w hx hy before after
      | destroys a c j l w hx hy before after
      | dooms a c w hx hy before after
      | sweeps c j l w hy before after =>
        obtain rfl := List.mem_singleton.mp (hy ▸ hb)
        simp [after] at hr
    · exact hi.home i k v (.inr ⟨b, rest_mem hp hb, hr⟩)

/-- Numbers are given out in order. -/
theorem ValueEffect.next_le (he : ValueEffect s s' xs ys) : s.nextValue ≤ s'.nextValue := by
  cases he <;> omega

include hp in
/-- The value of a call that has taken part was mentioned before, or has just been
created. -/
theorem part_mentions {b : TssAct} {v : Value} (he : ValueEffect s s' xs ys) (hb : b ∈ ys)
    (hv : b.role.value = some v) :
    s.mentions v ∨ (v.serial = s.nextValue ∧ s'.nextValue = s.nextValue + 1) := by
  have of_part : ∀ a ∈ xs, a.role.value = some v → s.mentions v :=
    fun a ha h => .inr (.inl ⟨a, part_mem hp ha, h⟩)
  cases he with
  | calm idle => simp [idle b hb, Role.value] at hv
  | creates a c u i k hx hy before after cells begun next =>
    obtain rfl := List.mem_singleton.mp (hy ▸ hb)
    simp only [after, Role.value, Option.some.injEq] at hv
    exact .inr ⟨by rw [← hv], next⟩
  | inserts a c i k w hx hy before after =>
    obtain rfl := List.mem_singleton.mp (hy ▸ hb)
    simp [after, Role.value] at hv
  | rejects a c i k w hx hy before after =>
    obtain rfl := List.mem_singleton.mp (hy ▸ hb)
    rw [after] at hv
    exact .inl (of_part a (by simp [hx]) (by rw [before]; exact hv))
  | finds a c i k w hx hy before after cell =>
    obtain rfl := List.mem_singleton.mp (hy ▸ hb)
    simp only [after, Role.value, Option.some.injEq] at hv
    exact .inl (.inl ⟨i, k, hv ▸ cell⟩)
  | destroys a c i k w hx hy before after =>
    obtain rfl := List.mem_singleton.mp (hy ▸ hb)
    rw [after] at hv
    exact .inl (of_part a (by simp [hx]) (by rw [before]; exact hv))
  | dooms a c w hx hy before after =>
    obtain rfl := List.mem_singleton.mp (hy ▸ hb)
    rw [after] at hv
    exact .inl (of_part a (by simp [hx]) (by rw [before]; exact hv))
  | sweeps c i k w hy before after cell =>
    obtain rfl := List.mem_singleton.mp (hy ▸ hb)
    simp only [after, Role.value, Option.some.injEq] at hv
    exact .inl (.inl ⟨i, k, hv ▸ cell⟩)

/-- A destroy call that begins is that of a call which took part. -/
theorem ValueEffect.begun_old (he : ValueEffect s s' xs ys) (v : Value) :
    s'.begun v = s.begun v ∨
      ∃ a ∈ xs, a.role = .doomed v ∨ ∃ i k, a.role = .found i k v := by
  cases he with
  | destroys a b i k w hx hy before after cells begun =>
    by_cases hv : v = w
    · exact .inr ⟨a, by simp [hx], .inr ⟨i, k, hv ▸ before⟩⟩
    · exact .inl (by simp [begun, begin_apply, hv])
  | dooms a b w hx hy before after cells begun =>
    by_cases hv : v = w
    · exact .inr ⟨a, by simp [hx], .inl (hv ▸ before)⟩
    · exact .inl (by simp [begun, begin_apply, hv])
  | _ => exact .inl (congrFun ‹s'.begun = s.begun› v)

theorem ValueEffect.begun_le (he : ValueEffect s s' xs ys) (v : Value) :
    s.begun v ≤ s'.begun v := by
  cases he with
  | destroys a b i k w hx hy before after cells begun
  | dooms a b w hx hy before after cells begun =>
    rw [begun, begin_apply]
    split <;> omega
  | _ => exact Nat.le_of_eq (congrFun ‹s'.begun = s.begun› v).symm

include hi hp hq he in
theorem old_step (v : Value) (hv : s'.mentions v) : v.serial < s'.nextValue := by
  have of_old : s.mentions v → v.serial < s'.nextValue :=
    fun h => Nat.lt_of_lt_of_le (hi.old v h) he.next_le
  have of_part : ∀ a ∈ xs, a.role.value = some v → v.serial < s'.nextValue :=
    fun a ha h => of_old (.inr (.inl ⟨a, part_mem hp ha, h⟩))
  rcases hv with ⟨i, k, hc⟩ | ⟨b, hb, hv⟩ | hb
  · rcases he.cell_old hc with h | ⟨a, ha, hr⟩
    · exact of_old (.inl ⟨i, k, h⟩)
    · exact of_part a ha (by rw [hr]; rfl)
  · rw [hq] at hb
    rcases List.mem_append.mp hb with hb | hb
    · rcases part_mentions hp he hb hv with h | ⟨h, hn⟩
      · exact of_old h
      · omega
    · exact of_old (.inr (.inl ⟨b, rest_mem hp hb, hv⟩))
  · rcases he.begun_old v with h | ⟨a, ha, hr | ⟨i, k, hr⟩⟩
    · exact of_old (.inr (.inr (h ▸ hb)))
    · exact of_part a ha (by rw [hr]; rfl)
    · exact of_part a ha (by rw [hr]; rfl)

include hi hp hq he in
theorem apart_step : s'.acts.Pairwise fun a b => a.role.Apart b.role := by
  have hrest := (List.pairwise_append.mp (hp.pairwise hi.apart fun {_ _} hab => hab.symm)).2.1
  rw [hq]
  -- what comes after is at most one call, so only its distance from the others matters
  have single : ∀ b : TssAct, ys = [b] → (∀ c ∈ rest, b.role.Apart c.role) →
      (ys ++ rest).Pairwise fun a b => a.role.Apart b.role := by
    rintro b rfl h
    exact List.pairwise_cons.mpr ⟨h, hrest⟩
  -- a value taken from a map is nobody's pending one
  have taken : ∀ (r : Role) (v : Value) (i : Addr) (k : Key), r.value = some v →
      (∀ i k w, r ≠ .pending i k w) → s.mem.cell i k = some v →
      ∀ c ∈ rest, r.Apart c.role := by
    intro r v i k hv hr hcell c hc
    refine ⟨fun j l w h => absurd h (hr j l w), fun j l w h => ?_⟩
    rw [hv]
    rintro he
    cases he
    exact (hi.pending c (rest_mem hp hc) j l v h).2 i k hcell
  -- a call that goes on with its value, no longer to insert it, is as far away as before
  have kept : ∀ (a : TssAct) (r : Role), xs = [a] → r.value = a.role.value →
      (∀ i k w, r ≠ .pending i k w) → ∀ c ∈ rest, r.Apart c.role := by
    intro a r hx hv hr c hc
    have h := part_apart hi hp (show a ∈ xs by simp [hx]) hc
    exact ⟨fun i k w h => absurd h (hr i k w), fun i k w hw => hv ▸ h.2 i k w hw⟩
  cases he with
  | calm idle =>
    refine List.pairwise_append.mpr ⟨?_, hrest, ?_⟩
    · refine List.Pairwise.imp_of_mem (fun {a b} ha _ _ => ?_)
        (List.pairwise_of_forall (R := fun _ _ => True) fun _ _ => trivial)
      rw [idle a ha]
      exact Role.apart_idle _
    · intro b hb c _
      rw [idle b hb]
      exact Role.apart_idle _
  | creates a b u i k hx hy before after =>
    refine single b hy fun c hc => ?_
    have new : ∀ v, s.mentions v → v ≠ ⟨s.nextValue, u, i, k⟩ := by
      rintro v hv rfl
      exact Nat.lt_irrefl _ (hi.old _ hv)
    have hc' : ∀ v, c.role.value = some v → v ≠ ⟨s.nextValue, u, i, k⟩ :=
      fun v hv => new v (.inr (.inl ⟨c, rest_mem hp hc, hv⟩))
    rw [after]
    refine ⟨fun j l v h hv => ?_, fun j l v h hv => ?_⟩
    · cases h
      exact hc' _ hv rfl
    · cases hv
      exact hc' _ (by rw [h]; rfl) rfl
  | inserts a b i k v hx hy before after =>
    refine single b hy fun c _ => ?_
    rw [after]
    exact Role.apart_idle _
  | rejects a b i k v hx hy before after =>
    exact single b hy (kept a b.role hx (by rw [before, after]; rfl) (by simp [after]))
  | finds a b i k v hx hy before after cell =>
    exact single b hy (taken b.role v i k (by rw [after]; rfl) (by simp [after]) cell)
  | destroys a b i k v hx hy before after =>
    exact single b hy (kept a b.role hx (by rw [before, after]; rfl) (by simp [after]))
  | dooms a b v hx hy before after =>
    exact single b hy (kept a b.role hx (by rw [before, after]) (by simp [after]))
  | sweeps b i k v hy before after cell =>
    exact single b hy (taken b.role v i k (by rw [after]; rfl) (by simp [after]) cell)

include hi hp hq he in
theorem pending_step (b : TssAct) (hb : b ∈ s'.acts) (i : Addr) (k : Key) (v : Value)
    (hr : b.role = .pending i k v) : s'.begun v = 0 ∧ ∀ j l, s'.mem.cell j l ≠ some v := by
  rw [hq] at hb
  rcases List.mem_append.mp hb with hb | hb
  · cases he with
    | calm idle => simp [idle b hb] at hr
    | creates a c u j l hx hy before after cells begun =>
      obtain rfl := List.mem_singleton.mp (hy ▸ hb)
      rw [after] at hr
      cases hr
      have new : ¬ s.mentions ⟨s.nextValue, u, i, k⟩ := fun h => Nat.lt_irrefl _ (hi.old _ h)
      refine ⟨?_, fun j l hc => ?_⟩
      · rw [begun]
        exact by_contra fun h => new (.inr (.inr h))
      · rw [cells] at hc
        exact new (.inl ⟨j, l, hc⟩)
    | inserts a c j l w hx hy before after
    | rejects a c j l w hx hy before after
    | finds a c j l w hx hy before after
    | destroys a c j l w hx hy before after
    | dooms a c w hx hy before after
    | sweeps c j l w hy before after =>
      obtain rfl := List.mem_singleton.mp (hy ▸ hb)
      simp [after] at hr
  · have far : ∀ a ∈ xs, a.role.value ≠ some v := fun a ha =>
      (part_apart hi hp ha hb).2 i k v hr
    obtain ⟨h0, hcell⟩ := hi.pending b (rest_mem hp hb) i k v hr
    refine ⟨?_, fun j l hc => ?_⟩
    · rcases he.begun_old v with h | ⟨a, ha, h | ⟨j, l, h⟩⟩
      · rw [h, h0]
      · exact absurd (by rw [h]; rfl) (far a ha)
      · exact absurd (by rw [h]; rfl) (far a ha)
    · rcases he.cell_old hc with h | ⟨a, ha, h⟩
      · exact hcell j l h
      · exact far a ha (by rw [h]; rfl)

include hi hp hq he in
theorem doomed_step (b : TssAct) (hb : b ∈ s'.acts) (v : Value) (hr : b.role = .doomed v)
    (j : Addr) (l : Key) : s'.mem.cell j l ≠ some v := by
  intro hc
  rw [hq] at hb
  rcases List.mem_append.mp hb with hb | hb
  · cases he with
    | calm idle => simp [idle b hb] at hr
    | rejects a c i k w hx hy before after cells =>
      obtain rfl := List.mem_singleton.mp (hy ▸ hb)
      rw [after] at hr
      cases hr
      exact (hi.pending a (part_mem hp (by simp [hx])) i k v before).2 j l (cells j l v hc)
    | dooms a c w hx hy before after cells =>
      obtain rfl := List.mem_singleton.mp (hy ▸ hb)
      rw [after] at hr
      cases hr
      exact hi.doomed a (part_mem hp (by simp [hx])) v before j l (cells ▸ hc)
    | sweeps c i k w hy before after cell erased cells =>
      obtain rfl := List.mem_singleton.mp (hy ▸ hb)
      rw [after] at hr
      cases hr
      obtain ⟨rfl, rfl⟩ := hi.home j l v (.inl (cells j l v hc))
      obtain ⟨rfl, rfl⟩ := hi.home i k v (.inl cell)
      rw [erased] at hc
      cases hc
    | creates a c u i k hx hy before after
    | inserts a c i k w hx hy before after
    | finds a c i k w hx hy before after
    | destroys a c i k w hx hy before after =>
      obtain rfl := List.mem_singleton.mp (hy ▸ hb)
      simp [after] at hr
  · rcases he.cell_old hc with h | ⟨a, ha, h⟩
    · exact hi.doomed b (rest_mem hp hb) v hr j l h
    · exact (part_apart hi hp ha hb).1 j l v h (by rw [hr]; rfl)

include hi hp hq he in
theorem shown_step (i : Addr) (k : Key) (v : Value) (hc : s'.mem.cell i k = some v) :
    s'.begun v = 0 ∨ ∃ b ∈ s'.acts, b.role = .destroying i k v := by
  -- an entry that was there: its destroy call has not begun, or has in a call that stays
  have kept : s.mem.cell i k = some v → s'.begun v = s.begun v →
      (∀ a ∈ xs, a.role ≠ .destroying i k v) →
      s'.begun v = 0 ∨ ∃ b ∈ s'.acts, b.role = .destroying i k v := by
    intro hc hb hx
    rcases hi.shown i k v hc with h | ⟨a, ha, hr⟩
    · exact .inl (hb.trans h)
    · rcases List.mem_append.mp (hp.mem_iff.mp ha) with ha | ha
      · exact absurd hr (hx a ha)
      · exact .inr ⟨a, hq ▸ List.mem_append_right _ ha, hr⟩
  cases he with
  | calm idle cells begun => exact kept (cells i k v hc).1 (congrFun begun v) (cells i k v hc).2
  | creates a b u j l hx hy before after cells begun =>
    exact kept (cells ▸ hc) (congrFun begun v) (by simp [hx, before])
  | inserts a b j l w hx hy before after cells begun =>
    rcases cells i k v hc with ⟨rfl, rfl, rfl⟩ | h
    · have := hi.pending a (part_mem hp (by simp [hx])) i k v before
      exact .inl ((congrFun begun v).trans this.1)
    · exact kept h (congrFun begun v) (by simp [hx, before])
  | rejects a b j l w hx hy before after cells begun =>
    exact kept (cells i k v hc) (congrFun begun v) (by simp [hx, before])
  | finds a b j l w hx hy before after cell cells begun =>
    exact kept (cells ▸ hc) (congrFun begun v) (by simp [hx, before])
  | destroys a b j l w hx hy before after cells begun =>
    rw [cells] at hc
    by_cases hv : v = w
    · subst hv
      obtain ⟨rfl, rfl⟩ := hi.home i k v (.inl hc)
      obtain ⟨rfl, rfl⟩ := hi.home j l v (.inr ⟨a, part_mem hp (by simp [hx]), .inr before⟩)
      exact .inr ⟨b, by simp [hq, hy], after⟩
    · exact kept hc (by simp [begun, begin_apply, hv]) (by simp [hx, before])
  | dooms a b w hx hy before after cells begun =>
    rw [cells] at hc
    by_cases hv : v = w
    · subst hv
      exact absurd hc (hi.doomed a (part_mem hp (by simp [hx])) v before i k)
    · exact kept hc (by simp [begun, begin_apply, hv]) (by simp [hx, before])
  | sweeps b j l w hy before after cell erased cells begun =>
    exact kept (cells i k v hc) (congrFun begun v) fun a ha => before a ha i k v

include hi hp hq he in
theorem valuesInv_of_effect : ValuesInv s' :=
  ⟨home_step hi hp hq he, old_step hi hp hq he, apart_step hi hp hq he,
    pending_step hi hp hq he, doomed_step hi hp hq he, shown_step hi hp hq he⟩

end

end Wg14Signals
