import Wg14Signals.Lib.Heap
import Mathlib.Data.Set.Insert

namespace Lib

/-- Follow `next` until the test yields a result. -/
def chase {β α ε : Type} (stuck : ε) (next : β → β) (test : β → Except ε (Option α)) :
    Nat → β → Except ε α
  | 0, _ => .error stuck
  | fuel + 1, b => do
    match ← test b with
    | some a => pure a
    | none => chase stuck next test fuel (next b)

/-- Where the keys of a table may go: to their home, or to the places at some displacement
from it. A link to `stop` leads nowhere. -/
structure Scheme (β κ : Type) where
  slot : β → Nat → β
  home : κ → β
  stop : Nat
  slot_zero : ∀ k, slot (home k) 0 = home k
  stop_pos : 0 < stop

/-- A table whose chains are threaded through its own cells. -/
structure Cells (β κ ν : Type) where
  used : β → Prop
  /-- The key in the cell is at home. -/
  head : β → Prop
  /-- The displacement, from their common home, of the next key of the chain. -/
  link : β → Nat
  entry : β → Option (κ × ν)

/-- `e` comes next after `d` in a set of displacements. -/
structure NextIn (stop : Nat) (ds : Set Nat) (d e : Nat) : Prop where
  mem : e = stop ∨ e ∈ ds
  lt : d < e
  least : ∀ f ∈ ds, d < f → e ≤ f

namespace NextIn

variable {stop : Nat} {ds ds' : Set Nat} {d e p q x : Nat}

/-- Only one displacement leads to `x`. -/
theorem unique_prev (hd : NextIn stop ds d x) (hp : NextIn stop ds p x) (hmd : d ∈ ds)
    (hmp : p ∈ ds) : d = p := by
  rcases Nat.lt_trichotomy d p with hlt | rfl | hlt
  · have := hd.least p hmp hlt
    have := hp.lt
    omega
  · rfl
  · have := hp.least d hmd hlt
    have := hd.lt
    omega

/-- What comes next after `p` comes next after anything in between. -/
theorem advance (hn : NextIn stop ds p q) (hpx : p < x) (hxq : x < q) : NextIn stop ds x q where
  mem := hn.mem
  lt := hxq
  least f hf hlt := hn.least f hf (by omega)

/-- A further displacement changes nothing where it does not come in between. -/
theorem insert (hn : NextIn stop ds d e) (hsub : ds ⊆ ds') (hnew : ∀ f ∈ ds', f ∈ ds ∨ f = x)
    (hx : d < x → e ≤ x) : NextIn stop ds' d e where
  mem := hn.mem.imp_right fun h => hsub h
  lt := hn.lt
  least f hf hlt := (hnew f hf).elim (fun hf => hn.least f hf hlt) fun hf => hf ▸ hx (hf ▸ hlt)

theorem insert_prev (hn : NextIn stop ds p q) (hnew : ∀ f ∈ ds', f ∈ ds ∨ f = x) (hx : x ∈ ds')
    (hpx : p < x) (hxq : x < q) : NextIn stop ds' p x where
  mem := .inr hx
  lt := hpx
  least f hf hlt := (hnew f hf).elim (fun hf => hxq.le.trans (hn.least f hf hlt)) fun hf => hf.ge

/-- Between two neighbours no other displacement leads past `x`. -/
theorem avoids (hn : NextIn stop ds p q) (hd : NextIn stop ds d e) (hp : p ∈ ds) (hmd : d ∈ ds)
    (hne : d ≠ p) (hxq : x < q) (hpx : p < x) (hdx : d < x) : e ≤ x := by
  rcases Nat.lt_or_gt_of_ne hne with hlt | hlt
  · have := hd.least p hp hlt
    omega
  · have := hn.least d hmd hlt
    omega

/-- A displacement that goes changes nothing where nothing led to it. -/
theorem erase (hn : NextIn stop ds d e) (hsub : ∀ f ∈ ds', f ∈ ds)
    (hkeep : ∀ f ∈ ds, f ∈ ds' ∨ f = x) (hex : e ≠ x) : NextIn stop ds' d e where
  mem := hn.mem.imp_right fun h => (hkeep e h).resolve_right hex
  lt := hn.lt
  least f hf hlt := hn.least f (hsub f hf) hlt

theorem erase_prev (hn : NextIn stop ds p x) (hx : NextIn stop ds x q)
    (hsub : ∀ f ∈ ds', f ∈ ds ∧ f ≠ x) (hkeep : ∀ f ∈ ds, f ∈ ds' ∨ f = x) :
    NextIn stop ds' p q where
  mem := hx.mem.imp_right fun h => (hkeep q h).resolve_right hx.lt.ne'
  lt := hn.lt.trans hx.lt
  least f hf hlt :=
    hx.least f (hsub f hf).1 ((hn.least f (hsub f hf).1 hlt).lt_of_ne (hsub f hf).2.symm)

end NextIn

namespace Cells

variable {β κ ν : Type} {s : Scheme β κ} {c c' : Cells β κ ν} {chains : β → Set Nat}
  {b h : β} {k : κ} {v : ν} {d e p x : Nat}

def Holds (c : Cells β κ ν) (b : β) (k : κ) (v : ν) : Prop := c.used b ∧ c.entry b = some (k, v)

/-- The displacements at which the keys of each home stand, threaded in ascending order. -/
structure Wf (s : Scheme β κ) (c : Cells β κ ν) (chains : β → Set Nat) : Prop where
  below : ∀ h, ∀ d ∈ chains h, d < s.stop
  first : ∀ h, ∀ d ∈ chains h, 0 ∈ chains h
  next : ∀ h, ∀ d ∈ chains h, NextIn s.stop (chains h) d (c.link (s.slot h d))
  head : ∀ h, c.head h ↔ 0 ∈ chains h
  used : ∀ b, c.used b ↔ ∃ h, ∃ d ∈ chains h, s.slot h d = b
  entry : ∀ h, ∀ d ∈ chains h, ∃ k v, c.entry (s.slot h d) = some (k, v) ∧ s.home k = h
  keys : ∀ b b' k v v', c.Holds b k v → c.Holds b' k v' → b = b'

theorem Wf.slot_used (hw : c.Wf s chains) (hd : d ∈ chains h) : c.used (s.slot h d) :=
  (hw.used _).mpr ⟨h, d, hd, rfl⟩

theorem Wf.slot_zero (hw : c.Wf s chains) (hd : d ∈ chains h) : s.slot h 0 = h := by
  obtain ⟨k, -, -, rfl⟩ := hw.entry h d hd
  exact s.slot_zero k

theorem Wf.head_used (hw : c.Wf s chains) (hh : c.head h) : c.used h := by
  have h0 := (hw.head h).mp hh
  exact hw.slot_zero h0 ▸ hw.slot_used h0

/-- A cell belongs to the chain of its key's home, at one place. -/
theorem Wf.slot_inj (hw : c.Wf s chains) {h' : β} (hd : d ∈ chains h) (he : e ∈ chains h')
    (hs : s.slot h d = s.slot h' e) : h = h' ∧ d = e := by
  obtain ⟨k, v, hk, rfl⟩ := hw.entry h d hd
  obtain ⟨k', v', hk', rfl⟩ := hw.entry h' e he
  rw [hs, hk'] at hk
  obtain ⟨rfl, -⟩ := Prod.mk.inj (Option.some.inj hk)
  refine ⟨rfl, ?_⟩
  -- both go on to the same next displacement
  have hnd := hw.next _ d hd
  have hne := hw.next _ e he
  rw [hs] at hnd
  rcases Nat.lt_trichotomy d e with hlt | rfl | hlt
  · have := hnd.least e he hlt
    have := hne.lt
    omega
  · rfl
  · have := hne.least d hd hlt
    have := hnd.lt
    omega

/-- A key stands on the chain of its home. -/
theorem Wf.find (hw : c.Wf s chains) (hb : c.Holds b k v) :
    ∃ d ∈ chains (s.home k), s.slot (s.home k) d = b := by
  obtain ⟨h, d, hd, rfl⟩ := (hw.used b).mp hb.1
  obtain ⟨k', v', hk', rfl⟩ := hw.entry h d hd
  obtain ⟨rfl, -⟩ := Prod.mk.inj (Option.some.inj (hb.2.symm.trans hk'))
  exact ⟨d, hd, rfl⟩

/-- Only the first key of a chain is at home. -/
theorem Wf.head_iff (hw : c.Wf s chains) (hd : d ∈ chains h) : c.head (s.slot h d) ↔ d = 0 := by
  constructor
  · intro hh
    have h0 := (hw.head _).mp hh
    exact (hw.slot_inj hd h0 (hw.slot_zero h0).symm).2
  · rintro rfl
    rw [hw.slot_zero hd]
    exact (hw.head h).mpr hd

/-- A walk along a chain reaches the last displacement of which `q` holds no more of the
link. -/
theorem Wf.exists_crossing (hw : c.Wf s chains) {q : Nat → Prop} (hq : ¬q s.stop) (n : Nat) :
    ∀ d ∈ chains h, q d → s.stop - d ≤ n → ∃ p ∈ chains h, d ≤ p ∧ q p ∧ ¬q (c.link (s.slot h p)) := by
  induction n with
  | zero =>
    intro d hd _ hn
    have := hw.below h d hd
    omega
  | succ n ih =>
    intro d hd hqd hn
    have hnext := hw.next h d hd
    have hadv := hnext.lt
    by_cases hqe : q (c.link (s.slot h d))
    · have hmem := hnext.mem.resolve_left fun hstop => hq (hstop ▸ hqe)
      obtain ⟨p, hp, hdp, hcross⟩ := ih _ hmem hqe (by omega)
      exact ⟨p, hp, by omega, hcross⟩
    · exact ⟨d, hd, Nat.le_refl d, hqd, hqe⟩

/-- Every displacement but the first has one before it. -/
theorem Wf.exists_prev (hw : c.Wf s chains) (hx : x ∈ chains h) (hd : d ∈ chains h) (hdx : d < x) :
    ∃ p ∈ chains h, d ≤ p ∧ c.link (s.slot h p) = x := by
  obtain ⟨p, hp, hdp, hpx, hlink⟩ := hw.exists_crossing (q := (· < x))
    (Nat.not_lt.mpr (hw.below h x hx).le) _ d hd hdx (Nat.le_refl _)
  exact ⟨p, hp, hdp, Nat.le_antisymm ((hw.next h p hp).least x hx hpx) (Nat.not_lt.mp hlink)⟩

/-- A displacement not on the chain lies between two that are, or after the last. -/
theorem Wf.exists_around (hw : c.Wf s chains) (h0 : 0 ∈ chains h) (hx0 : x ≠ 0) (hx : x < s.stop)
    (hfree : x ∉ chains h) : ∃ p ∈ chains h, p < x ∧ x < c.link (s.slot h p) := by
  obtain ⟨p, hp, -, hpx, hlink⟩ := hw.exists_crossing (q := (· < x)) (Nat.not_lt.mpr hx.le) _ 0 h0
    (Nat.pos_of_ne_zero hx0) (Nat.le_refl _)
  refine ⟨p, hp, hpx, (Nat.not_lt.mp hlink).lt_of_ne fun heq => ?_⟩
  exact (hw.next h p hp).mem.elim (fun hstop => by omega) fun hmem => hfree (heq ▸ hmem)

/-- A chain has a last displacement. -/
theorem Wf.exists_last (hw : c.Wf s chains) (hd : d ∈ chains h) :
    ∃ p ∈ chains h, d ≤ p ∧ c.link (s.slot h p) = s.stop := by
  obtain ⟨p, hp, hdp, -, hlink⟩ := hw.exists_crossing (q := (· ≠ s.stop)) (fun hne => hne rfl) _ d hd
    (hw.below h d hd).ne (Nat.le_refl _)
  exact ⟨p, hp, hdp, not_not.mp hlink⟩

/-- A chase along a chain stops at the first place where the test succeeds. -/
theorem Wf.chase (hw : c.Wf s chains) {ε α : Type} {stuck : ε} {test : β → Except ε (Option α)}
    {a : α} (hx : x ∈ chains h) (hit : test (s.slot h x) = .ok (some a)) (fuel : Nat) :
    ∀ d ∈ chains h, d ≤ x → x - d < fuel →
      (∀ y ∈ chains h, d ≤ y → y < x → test (s.slot h y) = .ok none) →
      chase stuck (fun b => s.slot h (c.link b)) test fuel (s.slot h d) = .ok a := by
  induction fuel with
  | zero => intro d _ _ hf; omega
  | succ fuel ih =>
    intro d hd hle hf miss
    unfold Lib.chase
    rcases Nat.eq_or_lt_of_le hle with rfl | hlt
    · rw [hit]
      rfl
    · have hn := hw.next h d hd
      have hstep := hn.least x hx hlt
      have hadv := hn.lt
      have hmem : c.link (s.slot h d) ∈ chains h := by
        refine hn.mem.resolve_left fun hstop => ?_
        have := hw.below h x hx
        omega
      rw [miss d hd (Nat.le_refl d) hlt]
      exact ih _ hmem hstep (by omega) fun y hy hdy => miss y hy (by omega)

/-- Cells not in use do not matter. -/
theorem Wf.congr (hw : c.Wf s chains) (hu : ∀ b, c'.used b ↔ c.used b)
    (hh : ∀ b, c'.head b ↔ c.head b) (hl : ∀ b, c.used b → c'.link b = c.link b)
    (he : ∀ b, c.used b → c'.entry b = c.entry b) : c'.Wf s chains where
  below := hw.below
  first := hw.first
  next h d hd := hl _ (hw.slot_used hd) ▸ hw.next h d hd
  head h := (hh h).trans (hw.head h)
  used b := (hu b).trans (hw.used b)
  entry h d hd := he _ (hw.slot_used hd) ▸ hw.entry h d hd
  keys b b' k v v' hb hb' := by
    have hub := (hu b).mp hb.1
    have hub' := (hu b').mp hb'.1
    exact hw.keys b b' k v v' ⟨hub, he b hub ▸ hb.2⟩ ⟨hub', he b' hub' ▸ hb'.2⟩

/-- Put a key in the free cell at displacement `x`, after the one at `p`. -/
def insertAfter (s : Scheme β κ) [DecidableEq β] (c : Cells β κ ν) (k : κ) (v : ν) (p x : Nat) :
    Cells β κ ν where
  used b := b = s.slot (s.home k) x ∨ c.used b
  head := c.head
  link b :=
    if b = s.slot (s.home k) x then c.link (s.slot (s.home k) p)
    else if b = s.slot (s.home k) p then x
    else c.link b
  entry b := if b = s.slot (s.home k) x then some (k, v) else c.entry b

/-- Begin the chain of a key's home, which is free. -/
def insertHome (s : Scheme β κ) [DecidableEq β] (c : Cells β κ ν) (k : κ) (v : ν) :
    Cells β κ ν where
  used b := b = s.home k ∨ c.used b
  head b := b = s.home k ∨ c.head b
  link b := if b = s.home k then s.stop else c.link b
  entry b := if b = s.home k then some (k, v) else c.entry b

/-- Give up the cell at displacement `x`, the one at `p` taking over its link. -/
def unlink (s : Scheme β κ) [DecidableEq β] (c : Cells β κ ν) (h : β) (p x : Nat) :
    Cells β κ ν where
  used b := b ≠ s.slot h x ∧ c.used b
  head := c.head
  link b := if b = s.slot h p then c.link (s.slot h x) else c.link b
  entry := c.entry

/-- Give up the only cell of a chain. -/
def unlinkHome [DecidableEq β] (c : Cells β κ ν) (h : β) : Cells β κ ν where
  used b := b ≠ h ∧ c.used b
  head b := b ≠ h ∧ c.head b
  link := c.link
  entry := c.entry

/-- Let a cell hold another key. -/
def refill [DecidableEq β] (c : Cells β κ ν) (b : β) (k : κ) (v : ν) : Cells β κ ν where
  used := c.used
  head := c.head
  link := c.link
  entry b' := if b' = b then some (k, v) else c.entry b'

variable [DecidableEq β]

theorem holds_insertAfter {j : κ} {w : ν} (hfree : ¬c.used (s.slot (s.home k) x)) :
    (c.insertAfter s k v p x).Holds b j w ↔
      (b = s.slot (s.home k) x ∧ j = k ∧ w = v) ∨ c.Holds b j w := by
  simp only [Holds, insertAfter]
  by_cases hb : b = s.slot (s.home k) x
  · subst hb
    simp [hfree, eq_comm]
  · simp [hb]

theorem Wf.insertAfter (hw : c.Wf s chains) (hp : p ∈ chains (s.home k)) (hpx : p < x)
    (hxl : x < c.link (s.slot (s.home k) p)) (hx : x < s.stop)
    (hfree : ¬c.used (s.slot (s.home k) x)) (hnew : ∀ b w, ¬c.Holds b k w) :
    (c.insertAfter s k v p x).Wf s
      fun h => {d | d ∈ chains h ∨ (h = s.home k ∧ d = x)} := by
  have hnext := hw.next _ p hp
  have hfresh : ∀ {h : β} {d : Nat}, d ∈ chains h → s.slot h d ≠ s.slot (s.home k) x :=
    fun hd heq => hfree (heq ▸ hw.slot_used hd)
  have hsub : ∀ h, ∀ f ∈ {d | d ∈ chains h ∨ (h = s.home k ∧ d = x)}, f ∈ chains h ∨ f = x :=
    fun h f hf => hf.imp_right And.right
  constructor
  case below =>
    rintro h d (hd | ⟨rfl, rfl⟩)
    · exact hw.below h d hd
    · exact hx
  case first =>
    rintro h d (hd | ⟨rfl, rfl⟩)
    · exact .inl (hw.first h d hd)
    · exact .inl (hw.first _ p hp)
  case next =>
    rintro h d (hd | ⟨rfl, rfl⟩)
    · have hn := hw.next h d hd
      simp only [Cells.insertAfter, if_neg (hfresh hd)]
      by_cases hb : s.slot h d = s.slot (s.home k) p
      · obtain ⟨rfl, rfl⟩ := hw.slot_inj hd hp hb
        rw [if_pos rfl]
        exact hnext.insert_prev (hsub _) (.inr ⟨rfl, rfl⟩) hpx hxl
      · rw [if_neg hb]
        by_cases hh : h = s.home k
        · subst hh
          exact hn.insert (fun _ => .inl) (hsub _)
            (hnext.avoids hn hp hd (fun hdp => hb (hdp ▸ rfl)) hxl hpx)
        · exact ⟨hn.mem.imp_right .inl, hn.lt,
            fun f hf => hn.least f (hf.resolve_right fun hf => hh hf.1)⟩
    · -- the new displacement goes on as the one before it did
      have hlink : (c.insertAfter s k v p d).link (s.slot (s.home k) d) =
          c.link (s.slot (s.home k) p) := if_pos rfl
      rw [hlink]
      exact (hnext.advance hpx hxl).insert (fun _ => .inl) (hsub _)
        fun hlt => absurd hlt (Nat.lt_irrefl _)
  case head =>
    intro h
    refine (hw.head h).trans ⟨.inl, ?_⟩
    rintro (h0 | ⟨-, rfl⟩)
    · exact h0
    · omega
  case used =>
    intro b
    constructor
    · rintro (rfl | hb)
      · exact ⟨s.home k, x, .inr ⟨rfl, rfl⟩, rfl⟩
      · obtain ⟨h, d, hd, rfl⟩ := (hw.used b).mp hb
        exact ⟨h, d, .inl hd, rfl⟩
    · rintro ⟨h, d, hd | ⟨rfl, rfl⟩, rfl⟩
      · exact .inr (hw.slot_used hd)
      · exact .inl rfl
  case entry =>
    rintro h d (hd | ⟨rfl, rfl⟩)
    · simp only [Cells.insertAfter, if_neg (hfresh hd)]
      exact hw.entry h d hd
    · exact ⟨k, v, if_pos rfl, rfl⟩
  case keys =>
    intro b b' j w w' hb hb'
    rcases (holds_insertAfter hfree).mp hb with ⟨hb, rfl, -⟩ | hb <;>
      rcases (holds_insertAfter hfree).mp hb' with ⟨hb', hj, -⟩ | hb'
    · exact hb.trans hb'.symm
    · exact absurd hb' (hnew b' w')
    · exact absurd (hj ▸ hb) (hnew b w)
    · exact hw.keys b b' j w w' hb hb'

theorem holds_insertHome {j : κ} {w : ν} (hfree : ¬c.used (s.home k)) :
    (c.insertHome s k v).Holds b j w ↔ (b = s.home k ∧ j = k ∧ w = v) ∨ c.Holds b j w := by
  simp only [Holds, insertHome]
  by_cases hb : b = s.home k
  · subst hb
    simp [hfree, eq_comm]
  · simp [hb]

theorem Wf.insertHome (hw : c.Wf s chains) (hfree : ¬c.used (s.home k))
    (hnew : ∀ b w, ¬c.Holds b k w) :
    (c.insertHome s k v).Wf s fun h => {d | d ∈ chains h ∨ (h = s.home k ∧ d = 0)} := by
  have hnone : ∀ d, d ∉ chains (s.home k) := fun d hd =>
    hfree (hw.head_used ((hw.head _).mpr (hw.first _ d hd)))
  have hfresh : ∀ {h : β} {d : Nat}, d ∈ chains h → s.slot h d ≠ s.home k :=
    fun hd heq => hfree (heq ▸ hw.slot_used hd)
  constructor
  case below =>
    rintro h d (hd | ⟨rfl, rfl⟩)
    · exact hw.below h d hd
    · exact s.stop_pos
  case first =>
    rintro h d (hd | ⟨rfl, rfl⟩)
    · exact .inl (hw.first h d hd)
    · exact .inr ⟨rfl, rfl⟩
  case next =>
    rintro h d (hd | ⟨rfl, rfl⟩)
    · have hn := hw.next h d hd
      simp only [Cells.insertHome, if_neg (hfresh hd)]
      refine ⟨hn.mem.imp_right .inl, hn.lt, ?_⟩
      rintro f (hf | ⟨-, rfl⟩) hlt
      · exact hn.least f hf hlt
      · omega
    · simp only [Cells.insertHome, s.slot_zero, if_true]
      refine ⟨.inl rfl, s.stop_pos, ?_⟩
      rintro f (hf | ⟨-, rfl⟩) hlt
      · exact absurd hf (hnone f)
      · omega
  case head =>
    intro h
    refine or_comm.trans (or_congr (hw.head h) ⟨fun hh => ⟨hh, rfl⟩, And.left⟩)
  case used =>
    intro b
    constructor
    · rintro (rfl | hb)
      · exact ⟨s.home k, 0, .inr ⟨rfl, rfl⟩, s.slot_zero _⟩
      · obtain ⟨h, d, hd, rfl⟩ := (hw.used b).mp hb
        exact ⟨h, d, .inl hd, rfl⟩
    · rintro ⟨h, d, hd | ⟨rfl, rfl⟩, rfl⟩
      · exact .inr (hw.slot_used hd)
      · exact .inl (s.slot_zero _)
  case entry =>
    rintro h d (hd | ⟨rfl, rfl⟩)
    · simp only [Cells.insertHome, if_neg (hfresh hd)]
      exact hw.entry h d hd
    · exact ⟨k, v, if_pos (s.slot_zero _), rfl⟩
  case keys =>
    intro b b' j w w' hb hb'
    rcases (holds_insertHome hfree).mp hb with ⟨hb, rfl, -⟩ | hb <;>
      rcases (holds_insertHome hfree).mp hb' with ⟨hb', hj, -⟩ | hb'
    · exact hb.trans hb'.symm
    · exact absurd hb' (hnew b' w')
    · exact absurd (hj ▸ hb) (hnew b w)
    · exact hw.keys b b' j w w' hb hb'

theorem Wf.unlink (hw : c.Wf s chains) (hp : p ∈ chains h) (hx : x ∈ chains h)
    (hlink : c.link (s.slot h p) = x) :
    (c.unlink s h p x).Wf s fun h' => {d | d ∈ chains h' ∧ ¬(h' = h ∧ d = x)} := by
  have hnp := hw.next h p hp
  rw [hlink] at hnp
  have hx0 : x ≠ 0 := fun h0 => by
    have := hnp.lt
    omega
  have hgone : ∀ {h' : β} {d : Nat}, d ∈ chains h' → (s.slot h' d = s.slot h x ↔ h' = h ∧ d = x) :=
    fun hd => ⟨fun heq => hw.slot_inj hd hx heq, fun heq => by rw [heq.1, heq.2]⟩
  have hkeep : ∀ h', ∀ f ∈ chains h', f ∈ {d | d ∈ chains h' ∧ ¬(h' = h ∧ d = x)} ∨ f = x :=
    fun h' f hf => (em (h' = h ∧ f = x)).elim (fun hfx => .inr hfx.2) (fun hfx => .inl ⟨hf, hfx⟩)
  constructor
  case below => exact fun h' d hd => hw.below h' d hd.1
  case first => exact fun h' d hd => ⟨hw.first h' d hd.1, fun heq => hx0 heq.2.symm⟩
  case next =>
    rintro h' d ⟨hd, hdx⟩
    have hn := hw.next h' d hd
    simp only [Cells.unlink]
    by_cases hb : s.slot h' d = s.slot h p
    · obtain ⟨rfl, rfl⟩ := hw.slot_inj hd hp hb
      rw [if_pos rfl]
      exact hnp.erase_prev (hw.next _ x hx) (fun f hf => ⟨hf.1, fun hfx => hf.2 ⟨rfl, hfx⟩⟩)
        (hkeep _)
    · rw [if_neg hb]
      refine ⟨hn.mem.imp_right fun hmem => ⟨hmem, ?_⟩, hn.lt, fun f hf => hn.least f hf.1⟩
      rintro ⟨rfl, heq⟩
      rw [heq] at hn
      exact hb (hn.unique_prev hnp hd hp ▸ rfl)
  case head =>
    exact fun h' => (hw.head h').trans
      ⟨fun h0 => ⟨h0, fun heq => hx0 heq.2.symm⟩, And.left⟩
  case used =>
    intro b
    constructor
    · rintro ⟨hb, hu⟩
      obtain ⟨h', d, hd, rfl⟩ := (hw.used b).mp hu
      exact ⟨h', d, ⟨hd, fun heq => hb ((hgone hd).mpr heq)⟩, rfl⟩
    · rintro ⟨h', d, ⟨hd, hdx⟩, rfl⟩
      exact ⟨fun heq => hdx ((hgone hd).mp heq), hw.slot_used hd⟩
  case entry => exact fun h' d hd => hw.entry h' d hd.1
  case keys =>
    exact fun b b' j w w' hb hb' => hw.keys b b' j w w' ⟨hb.1.2, hb.2⟩ ⟨hb'.1.2, hb'.2⟩

theorem Wf.unlinkHome (hw : c.Wf s chains) (h0 : 0 ∈ chains h) (hlink : c.link h = s.stop) :
    (c.unlinkHome h).Wf s fun h' => {d | d ∈ chains h' ∧ h' ≠ h} := by
  have honly : ∀ d ∈ chains h, d = 0 := fun d hd => by
    by_contra hd0
    have hn := hw.next h 0 h0
    rw [hw.slot_zero h0, hlink] at hn
    have := hn.least d hd (Nat.pos_of_ne_zero hd0)
    have := hw.below h d hd
    omega
  have hgone : ∀ {h' : β} {d : Nat}, d ∈ chains h' → (s.slot h' d = h ↔ h' = h) := by
    intro h' d hd
    constructor
    · intro heq
      exact (hw.slot_inj hd h0 (heq.trans (hw.slot_zero h0).symm)).1
    · rintro rfl
      rw [honly d hd, hw.slot_zero h0]
  constructor
  case below => exact fun h' d hd => hw.below h' d hd.1
  case first => exact fun h' d hd => ⟨hw.first h' d hd.1, hd.2⟩
  case next =>
    rintro h' d ⟨hd, hne⟩
    have hn := hw.next h' d hd
    exact ⟨hn.mem.imp_right fun hmem => ⟨hmem, hne⟩, hn.lt, fun f hf => hn.least f hf.1⟩
  case head => exact fun h' => and_comm.trans (and_congr_left' (hw.head h'))
  case used =>
    intro b
    constructor
    · rintro ⟨hb, hu⟩
      obtain ⟨h', d, hd, rfl⟩ := (hw.used b).mp hu
      exact ⟨h', d, ⟨hd, fun heq => hb ((hgone hd).mpr heq)⟩, rfl⟩
    · rintro ⟨h', d, ⟨hd, hne⟩, rfl⟩
      exact ⟨fun heq => hne ((hgone hd).mp heq), hw.slot_used hd⟩
  case entry => exact fun h' d hd => hw.entry h' d hd.1
  case keys =>
    exact fun b b' j w w' hb hb' => hw.keys b b' j w w' ⟨hb.1.2, hb.2⟩ ⟨hb'.1.2, hb'.2⟩

theorem holds_refill {b' : β} {j : κ} {w : ν} (hu : c.used b) :
    (c.refill b k v).Holds b' j w ↔
      (b' = b ∧ j = k ∧ w = v) ∨ (b' ≠ b ∧ c.Holds b' j w) := by
  simp only [Holds, refill]
  by_cases hb : b' = b
  · subst hb
    simp [hu, eq_comm]
  · simp [hb]

theorem Wf.refill (hw : c.Wf s chains) (hx : x ∈ chains (s.home k))
    (hnew : ∀ b w, c.Holds b k w → b = s.slot (s.home k) x) :
    (c.refill (s.slot (s.home k) x) k v).Wf s chains where
  below := hw.below
  first := hw.first
  next := hw.next
  head := hw.head
  used := hw.used
  entry h d hd := by
    simp only [Cells.refill]
    split
    · rename_i hb
      exact ⟨k, v, rfl, (hw.slot_inj hd hx hb).1.symm⟩
    · exact hw.entry h d hd
  keys b b' j w w' hb hb' := by
    have hu := hw.slot_used hx
    rcases (holds_refill hu).mp hb with ⟨hb, rfl, -⟩ | ⟨hb, hh⟩ <;>
      rcases (holds_refill hu).mp hb' with ⟨hb', hj, -⟩ | ⟨hb', hh'⟩
    · exact hb.trans hb'.symm
    · exact absurd (hnew b' w' hh') hb'
    · exact absurd (hnew b w (hj ▸ hh)) hb
    · exact hw.keys b b' j w w' hh hh'

end Cells

end Lib
