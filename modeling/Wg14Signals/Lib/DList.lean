import Wg14Signals.Lib.Heap

namespace Lib

/-- The two pointers an intrusive list keeps in each of its members. -/
structure Links where
  prev : Option Addr := none
  next : Option Addr := none
  deriving DecidableEq

/-- The two pointers an intrusive list keeps at its head. -/
structure Ends where
  front : Option Addr := none
  back : Option Addr := none
  deriving DecidableEq

/-- An object type that carries list pointers besides its own data. -/
class Linked (α : Type) where
  links : α → Links
  setLinks : α → Links → α
  links_set : ∀ a l, links (setLinks a l) = l
  set_set : ∀ a l l', setLinks (setLinks a l) l' = setLinks a l'
  set_links : ∀ a, setLinks a (links a) = a

namespace DList

variable {α ε : Type} [Linked α]

open Linked

def setPrev (p : Option Addr) (a : α) : α := setLinks a { links a with prev := p }

def setNext (p : Option Addr) (a : α) : α := setLinks a { links a with next := p }

/-- An object with its list pointers blanked: what list surgery must preserve. -/
def payload (a : α) : α := setLinks a {}

section Operations

variable (trap : Option Addr → ε) (assertion : ε)

def insertFront (h : Heap α) (e : Ends) (x : Addr) : Except ε (Heap α × Ends) :=
  match e.front with
  | none => if e.back = none then pure (h, ⟨some x, some x⟩) else throw assertion
  | some f =>
    if e.back = none then throw assertion
    else do
      let h ← h.update trap (some x) fun a => setLinks a ⟨none, some f⟩
      let h ← h.update trap (some f) (setPrev (some x))
      pure (h, { e with front := some x })

def insertBack (h : Heap α) (e : Ends) (x : Addr) : Except ε (Heap α × Ends) :=
  match e.front with
  | none => if e.back = none then pure (h, ⟨some x, some x⟩) else throw assertion
  | some _ =>
    if e.back = none then throw assertion
    else do
      let h ← h.update trap (some x) fun a => setLinks a ⟨e.back, none⟩
      let h ← h.update trap e.back (setNext (some x))
      pure (h, { e with back := some x })

/-- Make the neighbours of `x`, or the head, point past it. -/
def splice (h : Heap α) (e : Ends) (x : Addr) : Except ε (Heap α × Ends) :=
  if e.front = some x ∧ e.back = some x then
    pure (h, {})
  else if e.front = some x then do
    let a ← h.read trap (some x)
    let h ← h.update trap (links a).next (setPrev none)
    pure (h, { e with front := (links a).next })
  else if e.back = some x then do
    let a ← h.read trap (some x)
    let h ← h.update trap (links a).prev (setNext none)
    pure (h, { e with back := (links a).prev })
  else do
    let a ← h.read trap (some x)
    let h ← h.update trap (links a).next (setPrev (links a).prev)
    let h ← h.update trap (links a).prev (setNext (links a).next)
    pure (h, e)

def remove (h : Heap α) (e : Ends) (x : Addr) : Except ε (Heap α × Ends) := do
  let (h, e) ← splice trap h e x
  let h ← h.update trap (some x) fun a => setLinks a {}
  pure (h, e)

/-- Take members off the front until none is left, disposing of each by `act`.
The fuel bounds the rounds; running out is reported, never silently ignored. -/
def drain (stuck : ε) (act : Heap α → Addr → Except ε (Heap α)) :
    Nat → Heap α → Ends → Except ε (Heap α × Ends)
  | fuel, h, e =>
    match e.front with
    | none => .ok (h, e)
    | some x =>
      match fuel with
      | 0 => .error stuck
      | fuel + 1 => do
        let (h, e) ← remove trap h e x
        let h ← act h x
        drain stuck act fuel h e

/-- Walk forward from a member looking for one address. -/
def find (stuck : ε) (h : Heap α) (x : Addr) : Nat → Option Addr → Except ε Bool
  | _, none => .ok false
  | 0, some _ => .error stuck
  | fuel + 1, some y =>
    if y = x then .ok true
    else do
      let a ← h.read trap (some y)
      find stuck h x fuel (links a).next

/-- The members from one on, as far as they are live. -/
def walk (h : Heap α) : Nat → Option Addr → List Addr
  | _, none => []
  | 0, some _ => []
  | fuel + 1, some x =>
    match h x with
    | none => []
    | some a => x :: walk h fuel (links a).next

end Operations

/-- A run of members between two outside neighbours. Only live members are
constrained: a freed one has no pointers left to speak of. -/
def Seg (h : Heap α) : Option Addr → List Addr → Option Addr → Prop
  | _, [], _ => True
  | p, x :: xs, q =>
    (∀ a, h x = some a → links a = ⟨p, xs.head?.or q⟩) ∧ Seg h (some x) xs q

/-- The head and its members spell out one duplicate-free sequence. -/
structure IsList (h : Heap α) (e : Ends) (xs : List Addr) : Prop where
  front : e.front = xs.head?
  back : e.back = xs.getLast?
  nodup : xs.Nodup
  seg : Seg h none xs none

/-- Following `next` pointers from the first, one comes to the second. -/
inductive Reaches (h : Heap α) : Option Addr → Addr → Prop where
  | here (x : Addr) : Reaches h (some x) x
  | next {x y : Addr} {a : α} (hx : h x = some a) (hr : Reaches h (links a).next y) :
      Reaches h (some x) y

/-- List surgery inside `S`: pointers of members of `S` may change, nothing else. -/
structure Relinked (h h' : Heap α) (S : List Addr) : Prop where
  payload : ∀ y, (h' y).map payload = (h y).map payload
  outside : ∀ y, y ∉ S → h' y = h y

theorem Relinked.refl (h : Heap α) (S : List Addr) : Relinked h h S :=
  ⟨fun _ => rfl, fun _ _ => rfl⟩

theorem Relinked.trans {h h' h'' : Heap α} {S : List Addr} (hx : Relinked h h' S)
    (hy : Relinked h' h'' S) : Relinked h h'' S :=
  ⟨fun y => (hy.payload y).trans (hx.payload y),
    fun y hn => (hy.outside y hn).trans (hx.outside y hn)⟩

theorem Relinked.mono {h h' : Heap α} {S T : List Addr} (hx : Relinked h h' S)
    (hs : ∀ y ∈ S, y ∈ T) : Relinked h h' T :=
  ⟨hx.payload, fun y hn => hx.outside y (fun hm => hn (hs y hm))⟩

/-- Surgery neither frees nor revives anything. -/
theorem Relinked.live {h h' : Heap α} {S : List Addr} (hx : Relinked h h' S) (y : Addr) :
    h' y = none ↔ h y = none := by
  have hp := hx.payload y
  cases hy : h y <;> cases hy' : h' y <;> simp [hy, hy'] at hp ⊢

theorem relinked_mapAt {h : Heap α} {p : Option Addr} {f : α → α} {S : List Addr}
    (hf : ∀ a, payload (f a) = payload a) (hp : ∀ x, p = some x → x ∈ S) :
    Relinked h (h.mapAt p f) S := by
  refine ⟨fun y => ?_, fun y hn => Heap.mapAt_other h f ?_⟩
  · by_cases hy : some y = p
    · subst hy
      rw [Heap.mapAt_self, Option.map_map]
      congr 1
      funext a
      exact hf a
    · rw [Heap.mapAt_other h f hy]
  · intro hy
    exact hn (hp y hy.symm)

theorem payload_setLinks (a : α) (l : Links) : payload (setLinks a l) = payload a :=
  set_set a l {}

theorem payload_setPrev (p : Option Addr) (a : α) : payload (setPrev p a) = payload a :=
  payload_setLinks a _

theorem payload_setNext (p : Option Addr) (a : α) : payload (setNext p a) = payload a :=
  payload_setLinks a _

theorem seg_append {h : Heap α} {p q : Option Addr} {xs ys : List Addr} :
    Seg h p (xs ++ ys) q ↔
      Seg h p xs (ys.head?.or q) ∧ Seg h (xs.getLast?.or p) ys q := by
  induction xs generalizing p with
  | nil => simp [Seg]
  | cons x xs ih =>
    have hh : (xs ++ ys).head?.or q = xs.head?.or (ys.head?.or q) := by
      cases xs <;> simp
    have hl : (x :: xs).getLast?.or p = xs.getLast?.or (some x) := by
      cases xs <;> simp [List.getLast?_cons]
    simp only [List.cons_append, Seg, ih, hh, hl, and_assoc]

/-- A run survives any change that keeps the pointers of the members still live. -/
theorem Seg.mono {h h' : Heap α} {p q : Option Addr} {xs : List Addr} (hs : Seg h p xs q)
    (hk : ∀ x ∈ xs, ∀ a', h' x = some a' → ∃ a, h x = some a ∧ links a = links a') :
    Seg h' p xs q := by
  induction xs generalizing p with
  | nil => trivial
  | cons x xs ih =>
    refine ⟨?_, ih hs.2 (fun y hy => hk y (List.mem_cons_of_mem _ hy))⟩
    intro a' ha'
    obtain ⟨a, ha, hl⟩ := hk x List.mem_cons_self a' ha'
    rw [← hl]
    exact hs.1 a ha

theorem Seg.congr {h h' : Heap α} {p q : Option Addr} {xs : List Addr} (hs : Seg h p xs q)
    (hk : ∀ x ∈ xs, h' x = h x) : Seg h' p xs q :=
  hs.mono fun x hx a' ha' => ⟨a', (hk x hx).symm.trans ha', rfl⟩

/-- A walk never leaves the members, and sees them all while they are live. -/
theorem Seg.reaches {h : Heap α} {p : Option Addr} {xs : List Addr} {y : Addr}
    (hs : Seg h p xs none) (hr : Reaches h xs.head? y) : y ∈ xs := by
  induction xs generalizing p with
  | nil => cases hr
  | cons x xs ih =>
    cases hr with
    | here => exact List.mem_cons_self
    | next hx hr =>
      rw [hs.1 _ hx, Option.or_none] at hr
      exact List.mem_cons_of_mem _ (ih hs.2 hr)

theorem Seg.reached {h : Heap α} {p : Option Addr} {xs : List Addr} {y : Addr}
    (hs : Seg h p xs none) (ha : h.AllLive xs) (hy : y ∈ xs) : Reaches h xs.head? y := by
  induction xs generalizing p with
  | nil => cases hy
  | cons x xs ih =>
    rcases List.mem_cons.mp hy with rfl | hy
    · exact .here _
    · obtain ⟨a, hx⟩ := ha x List.mem_cons_self
      refine .next hx ?_
      rw [hs.1 a hx, Option.or_none]
      exact ih hs.2 (fun z hz => ha z (List.mem_cons_of_mem _ hz)) hy

/-- Pointing the last member of a run elsewhere changes only where the run leads. -/
theorem Seg.setNext {h : Heap α} {p q : Option Addr} {xs : List Addr} (hs : Seg h p xs q)
    (hn : xs.Nodup) (q' : Option Addr) :
    Seg (h.mapAt xs.getLast? (DList.setNext q')) p xs q' := by
  rcases List.eq_nil_or_concat xs with rfl | ⟨ys, x, rfl⟩
  · trivial
  · simp only [List.concat_eq_append] at hs hn ⊢
    rw [seg_append] at hs ⊢
    have hx : x ∉ ys := by
      have := List.nodup_append.mp hn
      intro hm
      exact this.2.2 x hm x (by simp) rfl
    have hlast : (ys ++ [x]).getLast? = some x := by simp
    rw [hlast]
    refine ⟨hs.1.congr fun y hy => Heap.mapAt_other h _ ?_, ?_, trivial⟩
    · intro he
      exact hx (Option.some.inj he ▸ hy)
    · intro a ha
      rw [Heap.mapAt_self] at ha
      obtain ⟨b, hb, rfl⟩ := Option.map_eq_some_iff.mp ha
      simp [DList.setNext, links_set, hs.2.1 b hb]

/-- Pointing the first member of a run elsewhere changes only where the run comes from. -/
theorem Seg.setPrev {h : Heap α} {p q : Option Addr} {xs : List Addr} (hs : Seg h p xs q)
    (hn : xs.Nodup) (p' : Option Addr) :
    Seg (h.mapAt xs.head? (DList.setPrev p')) p' xs q := by
  cases xs with
  | nil => trivial
  | cons x xs =>
    have hx : x ∉ xs := (List.nodup_cons.mp hn).1
    refine ⟨?_, hs.2.congr fun y hy => Heap.mapAt_other h _ ?_⟩
    · intro a ha
      simp only [List.head?_cons, Heap.mapAt_self] at ha
      obtain ⟨b, hb, rfl⟩ := Option.map_eq_some_iff.mp ha
      simp [DList.setPrev, links_set, hs.1 b hb]
    · intro he
      exact hx (Option.some.inj he ▸ hy)

/-- A list is untouched by anything that keeps the pointers of its live members. -/
theorem IsList.mono {h h' : Heap α} {e : Ends} {xs : List Addr} (hl : IsList h e xs)
    (hk : ∀ x ∈ xs, ∀ a', h' x = some a' → ∃ a, h x = some a ∧ links a = links a') :
    IsList h' e xs :=
  ⟨hl.front, hl.back, hl.nodup, hl.seg.mono hk⟩

theorem IsList.relinked {h h' : Heap α} {e : Ends} {xs S : List Addr} (hl : IsList h e xs)
    (hr : Relinked h h' S) (hd : ∀ x ∈ xs, x ∉ S) : IsList h' e xs :=
  ⟨hl.front, hl.back, hl.nodup, hl.seg.congr fun x hx => hr.outside x (hd x hx)⟩

theorem isList_nil (h : Heap α) : IsList h {} [] := ⟨rfl, rfl, List.nodup_nil, trivial⟩

/-- What unlinking `x` from between `l` and `r` leaves behind. -/
def unlinked (h : Heap α) (l : List Addr) (x : Addr) (r : List Addr) : Heap α :=
  ((h.mapAt r.head? (setPrev l.getLast?)).mapAt l.getLast? (setNext r.head?)).mapAt
    (some x) fun a => setLinks a {}

theorem unlinked_relinked (h : Heap α) (l : List Addr) (x : Addr) (r : List Addr) :
    Relinked h (unlinked h l x r) (l ++ x :: r) := by
  refine ((relinked_mapAt (payload_setPrev _) ?_).trans
    (relinked_mapAt (payload_setNext _) ?_)).trans
    (relinked_mapAt (fun a => payload_setLinks a _) ?_)
  · intro y hy
    have := List.mem_of_head? hy
    simp [this]
  · intro y hy
    have := List.mem_of_getLast? hy
    simp [this]
  · intro y hy
    simp [Option.some.inj hy]

theorem unlinked_self {h : Heap α} {l r : List Addr} {x : Addr} (hn : (l ++ x :: r).Nodup) :
    unlinked h l x r x = (h x).map payload := by
  have hxr : some x ≠ r.head? := by
    intro he
    have := List.mem_of_head? he.symm
    exact (List.nodup_cons.mp (List.nodup_append.mp hn).2.1).1 this
  have hxl : some x ≠ l.getLast? := by
    intro he
    have := List.mem_of_getLast? he.symm
    exact (List.nodup_append.mp hn).2.2 x this x List.mem_cons_self rfl
  rw [unlinked, Heap.mapAt_self, Heap.mapAt_other _ _ hxl, Heap.mapAt_other _ _ hxr]
  rfl

theorem unlinked_isList {h : Heap α} {e : Ends} {l r : List Addr} {x : Addr}
    (hl : IsList h e (l ++ x :: r)) :
    IsList (unlinked h l x r) ⟨(l ++ r).head?, (l ++ r).getLast?⟩ (l ++ r) := by
  have hn := hl.nodup
  obtain ⟨hnl, hnr, hdis⟩ := List.nodup_append.mp hn
  obtain ⟨hxr, hnr⟩ := List.nodup_cons.mp hnr
  have hxl : x ∉ l := fun hm => hdis x hm x List.mem_cons_self rfl
  have hlr : ∀ y ∈ l, y ∉ r := fun y hy hy' => hdis y hy y (List.mem_cons_of_mem _ hy') rfl
  have hseg := seg_append.mp hl.seg
  simp only [List.head?_cons, Option.or_none] at hseg
  obtain ⟨hsl, _, hsr⟩ := hseg
  refine ⟨rfl, rfl, List.nodup_append.mpr ⟨hnl, hnr, fun y hy z hz he => hlr y hy (he ▸ hz)⟩, ?_⟩
  rw [seg_append, Option.or_none, Option.or_none]
  -- the new pointer of `l`'s last member is written after that of `r`'s first
  constructor
  · have h1 : Seg (h.mapAt r.head? (DList.setPrev l.getLast?)) none l (some x) :=
      hsl.congr fun y hy => Heap.mapAt_other _ _ fun he =>
        hlr y hy (List.mem_of_head? he.symm)
    exact (h1.setNext hnl r.head?).congr fun y hy => Heap.mapAt_other _ _ fun he =>
      hxl (Option.some.inj he ▸ hy)
  · refine (hsr.setPrev hnr l.getLast?).congr fun y hy => ?_
    have hyx : some y ≠ some x := fun he => hxr (Option.some.inj he ▸ hy)
    have hyl : some y ≠ l.getLast? := fun he => hlr y (List.mem_of_getLast? he.symm) hy
    rw [unlinked, Heap.mapAt_other _ _ hyx, Heap.mapAt_other _ _ hyl]

section OperationSpecs

variable {trap : Option Addr → ε} {assertion stuck : ε}

theorem IsList.middle {h : Heap α} {e : Ends} {l r : List Addr} {x : Addr} {a : α}
    (hl : IsList h e (l ++ x :: r)) (ha : h x = some a) :
    links a = ⟨l.getLast?, r.head?⟩ := by
  have hseg := (seg_append.mp hl.seg).2.1 a ha
  simpa using hseg

/-- At the front exactly when nothing precedes. -/
theorem IsList.front_iff {h : Heap α} {e : Ends} {l r : List Addr} {x : Addr}
    (hl : IsList h e (l ++ x :: r)) : e.front = some x ↔ l = [] := by
  rw [hl.front]
  cases l with
  | nil => simp
  | cons y l =>
    have hn := hl.nodup
    simp only [List.cons_append, List.nodup_cons, List.mem_append, List.mem_cons] at hn
    simp only [List.cons_append, List.head?_cons, Option.some.injEq, reduceCtorEq, iff_false]
    intro he
    exact hn.1 (Or.inr (Or.inl he))

/-- At the back exactly when nothing follows. -/
theorem IsList.back_iff {h : Heap α} {e : Ends} {l r : List Addr} {x : Addr}
    (hl : IsList h e (l ++ x :: r)) : e.back = some x ↔ r = [] := by
  rw [hl.back]
  rcases List.eq_nil_or_concat r with rfl | ⟨r, y, rfl⟩
  · simp
  · have hn := (List.nodup_cons.mp (List.nodup_append.mp hl.nodup).2.1).1
    have hlast : (l ++ x :: r.concat y).getLast? = some y := by
      simp [List.concat_eq_append, List.getLast?_append, List.getLast?_cons]
    rw [hlast]
    constructor
    · intro he
      exact absurd (by simp [Option.some.inj he]) hn
    · intro he
      simp at he

theorem splice_ok {h h' : Heap α} {e e' : Ends} {l r : List Addr} {x : Addr}
    (hl : IsList h e (l ++ x :: r)) (hc : splice trap h e x = .ok (h', e')) :
    h' = (h.mapAt r.head? (setPrev l.getLast?)).mapAt l.getLast? (setNext r.head?) ∧
      e' = ⟨(l ++ r).head?, (l ++ r).getLast?⟩ := by
  have hf := hl.front
  have hb := hl.back
  simp only [splice, hl.front_iff, hl.back_iff] at hc
  split at hc
  · rename_i hlr
    obtain ⟨rfl, rfl⟩ := hlr
    simp only [pure_ok, Prod.mk.injEq] at hc
    obtain ⟨rfl, rfl⟩ := hc
    simp
  -- in the other three branches `x` itself is read, so its own pointers are known
  · split at hc
    · rename_i hlr he
      subst he
      obtain ⟨a, ha, hc⟩ := bind_ok.mp hc
      obtain ⟨h₃, hu, hc⟩ := bind_ok.mp hc
      obtain ⟨_, _, _, _, rfl⟩ := Heap.update_ok.mp hu
      simp only [pure_ok, Prod.mk.injEq] at hc
      obtain ⟨rfl, rfl⟩ := hc
      obtain ⟨_, hx, ha⟩ := Heap.read_ok.mp ha
      cases hx
      have hm := hl.middle ha
      have hne : r ≠ [] := fun hr => hlr ⟨rfl, hr⟩
      obtain ⟨y, r, rfl⟩ := List.exists_cons_of_ne_nil hne
      simp [hm, hb]
    · split at hc
      · rename_i hlr hle he
        subst he
        obtain ⟨a, ha, hc⟩ := bind_ok.mp hc
        obtain ⟨h₃, hu, hc⟩ := bind_ok.mp hc
        obtain ⟨_, _, _, _, rfl⟩ := Heap.update_ok.mp hu
        simp only [pure_ok, Prod.mk.injEq] at hc
        obtain ⟨rfl, rfl⟩ := hc
        obtain ⟨_, hx, ha⟩ := Heap.read_ok.mp ha
        cases hx
        have hm := hl.middle ha
        obtain ⟨y, l, rfl⟩ := List.exists_cons_of_ne_nil hle
        simp [hm, hf]
      · rename_i hlr hle hre
        obtain ⟨a, ha, hc⟩ := bind_ok.mp hc
        obtain ⟨h₃, hu, hc⟩ := bind_ok.mp hc
        obtain ⟨_, _, _, _, rfl⟩ := Heap.update_ok.mp hu
        obtain ⟨h₃, hu, hc⟩ := bind_ok.mp hc
        obtain ⟨_, _, _, _, rfl⟩ := Heap.update_ok.mp hu
        simp only [pure_ok, Prod.mk.injEq] at hc
        obtain ⟨rfl, rfl⟩ := hc
        obtain ⟨_, hx, ha⟩ := Heap.read_ok.mp ha
        cases hx
        have hm := hl.middle ha
        obtain ⟨y, l, rfl⟩ := List.exists_cons_of_ne_nil hle
        obtain ⟨z, r, rfl⟩ := List.exists_cons_of_ne_nil hre
        refine ⟨by simp [hm], ?_⟩
        obtain ⟨f, b⟩ := e
        simp_all [List.getLast?_append, List.getLast?_cons]

/-- A successful removal does exactly the unlinking, whichever branch it takes. -/
theorem remove_ok {h h' : Heap α} {e e' : Ends} {l r : List Addr} {x : Addr}
    (hl : IsList h e (l ++ x :: r)) (hr : remove trap h e x = .ok (h', e')) :
    h' = unlinked h l x r ∧ e' = ⟨(l ++ r).head?, (l ++ r).getLast?⟩ := by
  obtain ⟨⟨h₁, e₁⟩, hc, hr⟩ := bind_ok.mp hr
  obtain ⟨h₂, hu, hr⟩ := bind_ok.mp hr
  obtain ⟨_, v, _, _, rfl⟩ := Heap.update_ok.mp hu
  simp only [pure_ok, Prod.mk.injEq] at hr
  obtain ⟨rfl, rfl⟩ := hr
  obtain ⟨rfl, rfl⟩ := splice_ok hl hc
  exact ⟨rfl, rfl⟩

theorem allLive_relinked {h h' : Heap α} {xs S : List Addr} (ha : h.AllLive xs)
    (hr : Relinked h h' S) : h'.AllLive xs := by
  intro x hx
  obtain ⟨a, hxa⟩ := ha x hx
  cases hx' : h' x with
  | none => rw [(hr.live x).mp hx'] at hxa; cases hxa
  | some b => exact ⟨b, rfl⟩

/-- Removal cannot trap while every member is live. -/
theorem remove_run (trap : Option Addr → ε) {h : Heap α} {e : Ends} {l r : List Addr} {x : Addr}
    (hl : IsList h e (l ++ x :: r)) (ha : h.AllLive (l ++ x :: r)) :
    ∃ h' e', remove trap h e x = .ok (h', e') := by
  have hx : ∃ a, h x = some a := ha x (by simp)
  obtain ⟨a, hxa⟩ := hx
  have hm := hl.middle hxa
  have hs : ∃ h' e', splice trap h e x = .ok (h', e') ∧ ∃ b, h' x = some b := by
    simp only [splice, hl.front_iff, hl.back_iff, Heap.read_some hxa]
    split
    · exact ⟨h, {}, rfl, a, hxa⟩
    · rename_i hne
      split
      · rename_i he
        subst he
        obtain ⟨y, r, rfl⟩ := List.exists_cons_of_ne_nil (fun hr => hne ⟨rfl, hr⟩)
        have hy : ∃ b, h y = some b := ha y (by simp)
        simp only [bind, Except.bind, hm, List.head?_cons, Heap.update_run hy]
        exact ⟨_, _, rfl, Heap.mapAt_live ⟨a, hxa⟩ _ _⟩
      · rename_i hle
        obtain ⟨y, hy⟩ := Option.ne_none_iff_exists'.mp (mt List.getLast?_eq_none_iff.mp hle)
        have hyl : ∃ b, h y = some b := ha y (by simp [List.mem_of_getLast? hy])
        split
        · simp only [bind, Except.bind, hm, hy, Heap.update_run hyl]
          exact ⟨_, _, rfl, Heap.mapAt_live ⟨a, hxa⟩ _ _⟩
        · rename_i hre
          obtain ⟨z, r, rfl⟩ := List.exists_cons_of_ne_nil hre
          have hz : ∃ b, h z = some b := ha z (by simp)
          simp only [bind, Except.bind, hm, hy, List.head?_cons, Heap.update_run hz,
            Heap.update_run (Heap.mapAt_live hyl _ _)]
          exact ⟨_, _, rfl, Heap.mapAt_live (Heap.mapAt_live ⟨a, hxa⟩ _ _) _ _⟩
  obtain ⟨h', e', hs, hb⟩ := hs
  simp only [remove, hs, bind, Except.bind, Heap.update_run hb]
  exact ⟨_, _, rfl⟩

theorem splice_error {h : Heap α} {e : Ends} {x : Addr} {why : ε}
    (hr : splice trap h e x = .error why) : ∃ p, why = trap p := by
  unfold splice at hr
  split at hr
  · simp at hr
  · split at hr
    · rcases bind_error.mp hr with hr | ⟨a, _, hr⟩
      · exact ⟨_, Heap.read_error hr⟩
      · rcases bind_error.mp hr with hr | ⟨_, _, hr⟩
        · exact ⟨_, Heap.update_error hr⟩
        · simp at hr
    · split at hr
      · rcases bind_error.mp hr with hr | ⟨a, _, hr⟩
        · exact ⟨_, Heap.read_error hr⟩
        · rcases bind_error.mp hr with hr | ⟨_, _, hr⟩
          · exact ⟨_, Heap.update_error hr⟩
          · simp at hr
      · rcases bind_error.mp hr with hr | ⟨a, _, hr⟩
        · exact ⟨_, Heap.read_error hr⟩
        · rcases bind_error.mp hr with hr | ⟨_, _, hr⟩
          · exact ⟨_, Heap.update_error hr⟩
          · rcases bind_error.mp hr with hr | ⟨_, _, hr⟩
            · exact ⟨_, Heap.update_error hr⟩
            · simp at hr

theorem remove_error {h : Heap α} {e : Ends} {x : Addr} {why : ε}
    (hr : remove trap h e x = .error why) : ∃ p, why = trap p := by
  rcases bind_error.mp hr with hr | ⟨⟨h', e'⟩, _, hr⟩
  · exact splice_error hr
  · rcases bind_error.mp hr with hr | ⟨_, _, hr⟩
    · exact ⟨_, Heap.update_error hr⟩
    · simp at hr

/-- What linking `x` behind `xs` leaves behind. -/
def appended (h : Heap α) (xs : List Addr) (x : Addr) : Heap α :=
  (h.mapAt (some x) fun a => setLinks a ⟨xs.getLast?, none⟩).mapAt xs.getLast?
    (setNext (some x))

/-- What linking `x` before `xs` leaves behind. -/
def prepended (h : Heap α) (x : Addr) (xs : List Addr) : Heap α :=
  (h.mapAt (some x) fun a => setLinks a ⟨none, xs.head?⟩).mapAt xs.head? (setPrev (some x))

/-- Blanking the pointers of an object that has none changes nothing. -/
theorem mapAt_blank {h : Heap α} {x : Addr} (hx : ∀ a, h x = some a → links a = {}) :
    h.mapAt (some x) (fun a => setLinks a {}) = h := by
  funext y
  by_cases hy : y = x
  · subst hy
    rw [Heap.mapAt_self]
    cases ha : h y with
    | none => rfl
    | some a =>
      have hs := set_links a
      rw [hx a ha] at hs
      simp [hs]
  · exact Heap.mapAt_other h _ fun he => hy (Option.some.inj he)

theorem appended_relinked (h : Heap α) (xs : List Addr) (x : Addr) :
    Relinked h (appended h xs x) (x :: xs) := by
  refine (relinked_mapAt (fun a => payload_setLinks a _) ?_).trans
    (relinked_mapAt (payload_setNext _) ?_)
  · intro y hy
    simp [Option.some.inj hy]
  · intro y hy
    simp [List.mem_of_getLast? hy]

theorem prepended_relinked (h : Heap α) (xs : List Addr) (x : Addr) :
    Relinked h (prepended h x xs) (x :: xs) := by
  refine (relinked_mapAt (fun a => payload_setLinks a _) ?_).trans
    (relinked_mapAt (payload_setPrev _) ?_)
  · intro y hy
    simp [Option.some.inj hy]
  · intro y hy
    simp [List.mem_of_head? hy]

theorem appended_isList {h : Heap α} {e : Ends} {xs : List Addr} {x : Addr}
    (hl : IsList h e xs) (hx : x ∉ xs) :
    IsList (appended h xs x) ⟨(xs ++ [x]).head?, some x⟩ (xs ++ [x]) := by
  refine ⟨rfl, by simp, ?_, ?_⟩
  · rw [List.nodup_append]
    refine ⟨hl.nodup, by simp, fun y hy z hz he => ?_⟩
    rw [List.mem_singleton.mp hz] at he
    exact hx (he ▸ hy)
  · rw [seg_append, Option.or_none]
    constructor
    · have h1 : Seg (h.mapAt (some x) fun a => setLinks a ⟨xs.getLast?, none⟩) none xs none :=
        hl.seg.congr fun y hy => Heap.mapAt_other _ _ fun he => hx (Option.some.inj he ▸ hy)
      exact h1.setNext hl.nodup (some x)
    · refine ⟨fun a ha => ?_, trivial⟩
      have hxl : some x ≠ xs.getLast? := fun he => hx (List.mem_of_getLast? he.symm)
      rw [appended, Heap.mapAt_other _ _ hxl, Heap.mapAt_self] at ha
      obtain ⟨b, _, rfl⟩ := Option.map_eq_some_iff.mp ha
      simp [links_set]

theorem prepended_isList {h : Heap α} {e : Ends} {xs : List Addr} {x : Addr}
    (hl : IsList h e xs) (hx : x ∉ xs) :
    IsList (prepended h x xs) ⟨some x, (x :: xs).getLast?⟩ (x :: xs) := by
  refine ⟨rfl, rfl, List.nodup_cons.mpr ⟨hx, hl.nodup⟩, ?_, ?_⟩
  · intro a ha
    have hxl : some x ≠ xs.head? := fun he => hx (List.mem_of_head? he.symm)
    rw [prepended, Heap.mapAt_other _ _ hxl, Heap.mapAt_self] at ha
    obtain ⟨b, _, rfl⟩ := Option.map_eq_some_iff.mp ha
    simp [links_set]
  · have h1 : Seg (h.mapAt (some x) fun a => setLinks a ⟨none, xs.head?⟩) none xs none :=
      hl.seg.congr fun y hy => Heap.mapAt_other _ _ fun he => hx (Option.some.inj he ▸ hy)
    exact h1.setPrev hl.nodup (some x)

/-- Appending to an empty list writes only the head, so the new member must
come with blank pointers. -/
theorem insertBack_ok {h h' : Heap α} {e e' : Ends} {xs : List Addr} {x : Addr}
    (hl : IsList h e xs) (hb : ∀ a, h x = some a → links a = {})
    (hi : insertBack trap assertion h e x = .ok (h', e')) :
    h' = appended h xs x ∧ e' = ⟨(xs ++ [x]).head?, some x⟩ := by
  obtain ⟨f, b⟩ := e
  have hf : f = xs.head? := hl.front
  have hbk : b = xs.getLast? := hl.back
  subst hf hbk
  cases xs with
  | nil =>
    simp only [insertBack, List.head?_nil, List.getLast?_nil, ↓reduceIte, pure_ok,
      Prod.mk.injEq] at hi
    obtain ⟨rfl, rfl⟩ := hi
    exact ⟨by simpa [appended] using (mapAt_blank hb).symm, rfl⟩
  | cons y xs =>
    have hne : (y :: xs).getLast? ≠ none := by simp
    simp only [insertBack, List.head?_cons, hne, ↓reduceIte] at hi
    obtain ⟨h₁, hu, hi⟩ := bind_ok.mp hi
    obtain ⟨_, _, _, _, rfl⟩ := Heap.update_ok.mp hu
    obtain ⟨h₂, hu, hi⟩ := bind_ok.mp hi
    obtain ⟨_, _, _, _, rfl⟩ := Heap.update_ok.mp hu
    simp only [pure_ok, Prod.mk.injEq] at hi
    obtain ⟨rfl, rfl⟩ := hi
    exact ⟨rfl, rfl⟩

theorem insertFront_ok {h h' : Heap α} {e e' : Ends} {xs : List Addr} {x : Addr}
    (hl : IsList h e xs) (hb : ∀ a, h x = some a → links a = {})
    (hi : insertFront trap assertion h e x = .ok (h', e')) :
    h' = prepended h x xs ∧ e' = ⟨some x, (x :: xs).getLast?⟩ := by
  obtain ⟨f, b⟩ := e
  have hf : f = xs.head? := hl.front
  have hbk : b = xs.getLast? := hl.back
  subst hf hbk
  cases xs with
  | nil =>
    simp only [insertFront, List.head?_nil, List.getLast?_nil, ↓reduceIte, pure_ok,
      Prod.mk.injEq] at hi
    obtain ⟨rfl, rfl⟩ := hi
    exact ⟨by simpa [prepended] using (mapAt_blank hb).symm, rfl⟩
  | cons y xs =>
    have hne : (y :: xs).getLast? ≠ none := by simp
    simp only [insertFront, List.head?_cons, hne, ↓reduceIte] at hi
    obtain ⟨h₁, hu, hi⟩ := bind_ok.mp hi
    obtain ⟨_, _, _, _, rfl⟩ := Heap.update_ok.mp hu
    obtain ⟨h₂, hu, hi⟩ := bind_ok.mp hi
    obtain ⟨_, _, _, _, rfl⟩ := Heap.update_ok.mp hu
    simp only [pure_ok, Prod.mk.injEq] at hi
    obtain ⟨rfl, rfl⟩ := hi
    exact ⟨rfl, by simp [List.getLast?_cons]⟩

theorem insertBack_run (trap : Option Addr → ε) (assertion : ε) {h : Heap α} {e : Ends}
    {xs : List Addr} {x : Addr}
    (hl : IsList h e xs) (ha : h.AllLive xs) (hx : ∃ a, h x = some a) :
    ∃ h' e', insertBack trap assertion h e x = .ok (h', e') := by
  obtain ⟨f, b⟩ := e
  have hf : f = xs.head? := hl.front
  have hbk : b = xs.getLast? := hl.back
  subst hf hbk
  cases xs with
  | nil => exact ⟨_, _, rfl⟩
  | cons y xs =>
    obtain ⟨z, hz⟩ := Option.ne_none_iff_exists'.mp (show (y :: xs).getLast? ≠ none by simp)
    have hzl : ∃ a, h z = some a := ha z (List.mem_of_getLast? hz)
    simp only [insertBack, List.head?_cons, hz, reduceCtorEq, ↓reduceIte, bind,
      Except.bind, Heap.update_run hx, Heap.update_run (Heap.mapAt_live hzl _ _)]
    exact ⟨_, _, rfl⟩

theorem insertFront_run (trap : Option Addr → ε) (assertion : ε) {h : Heap α} {e : Ends}
    {xs : List Addr} {x : Addr}
    (hl : IsList h e xs) (ha : h.AllLive xs) (hx : ∃ a, h x = some a) :
    ∃ h' e', insertFront trap assertion h e x = .ok (h', e') := by
  obtain ⟨f, b⟩ := e
  have hf : f = xs.head? := hl.front
  have hbk : b = xs.getLast? := hl.back
  subst hf hbk
  cases xs with
  | nil => exact ⟨_, _, rfl⟩
  | cons y xs =>
    obtain ⟨z, hz⟩ := Option.ne_none_iff_exists'.mp (show (y :: xs).getLast? ≠ none by simp)
    have hyl : ∃ a, h y = some a := ha y (by simp)
    simp only [insertFront, List.head?_cons, hz, reduceCtorEq, ↓reduceIte, bind,
      Except.bind, Heap.update_run hx, Heap.update_run (Heap.mapAt_live hyl _ _)]
    exact ⟨_, _, rfl⟩

theorem insertBack_error {h : Heap α} {e : Ends} {x : Addr} {why : ε}
    (hi : insertBack trap assertion h e x = .error why) :
    why = assertion ∨ ∃ p, why = trap p := by
  unfold insertBack at hi
  split at hi
  · split at hi <;> simp_all
  · split at hi
    · simp_all
    · rcases bind_error.mp hi with hi | ⟨_, _, hi⟩
      · exact Or.inr ⟨_, Heap.update_error hi⟩
      · rcases bind_error.mp hi with hi | ⟨_, _, hi⟩
        · exact Or.inr ⟨_, Heap.update_error hi⟩
        · simp at hi

theorem insertFront_error {h : Heap α} {e : Ends} {x : Addr} {why : ε}
    (hi : insertFront trap assertion h e x = .error why) :
    why = assertion ∨ ∃ p, why = trap p := by
  unfold insertFront at hi
  split at hi
  · split at hi <;> simp_all
  · split at hi
    · simp_all
    · rcases bind_error.mp hi with hi | ⟨_, _, hi⟩
      · exact Or.inr ⟨_, Heap.update_error hi⟩
      · rcases bind_error.mp hi with hi | ⟨_, _, hi⟩
        · exact Or.inr ⟨_, Heap.update_error hi⟩
        · simp at hi

/-- Freeing a list front to back frees its members and touches nothing else. -/
theorem drain_free_ok {h h' : Heap α} {e e' : Ends} {xs : List Addr} {fuel : Nat}
    (hl : IsList h e xs) (hd : drain trap stuck (Heap.free trap) fuel h e = .ok (h', e')) :
    e' = {} ∧ ∀ y, h' y = if y ∈ xs then none else h y := by
  induction xs generalizing fuel h e with
  | nil =>
    obtain ⟨f, b⟩ := e
    have hf : f = none := hl.front
    have hb : b = none := hl.back
    subst hf hb
    unfold drain at hd
    simp only [Except.ok.injEq, Prod.mk.injEq] at hd
    obtain ⟨rfl, rfl⟩ := hd
    exact ⟨rfl, fun y => by simp⟩
  | cons x xs ih =>
    unfold drain at hd
    simp only [hl.front, List.head?_cons] at hd
    cases fuel with
    | zero => simp at hd
    | succ fuel =>
      obtain ⟨⟨h₁, e₁⟩, hr, hd⟩ := bind_ok.mp hd
      obtain ⟨h₂, hf, hd⟩ := bind_ok.mp hd
      have hl' : IsList h e ([] ++ x :: xs) := hl
      obtain ⟨rfl, rfl⟩ := remove_ok hl' hr
      obtain ⟨_, rfl⟩ := Heap.free_ok.mp hf
      have hx : x ∉ xs := (List.nodup_cons.mp hl.nodup).1
      have hrest : IsList ((unlinked h [] x xs).set x none) ⟨xs.head?, xs.getLast?⟩ xs := by
        refine (unlinked_isList hl').mono fun y hy a' ha' => ⟨a', ?_, rfl⟩
        have hyx : y ≠ x := fun he => hx (he ▸ hy)
        rwa [Heap.set_other _ _ hyx] at ha'
      obtain ⟨he, hfinal⟩ := ih hrest hd
      refine ⟨he, fun y => ?_⟩
      rw [hfinal y]
      by_cases hy : y = x
      · subst hy
        simp [hx]
      · by_cases hm : y ∈ xs
        · simp [hm]
        · simp only [hm, ↓reduceIte, List.mem_cons, hy, or_self, ne_eq, not_false_eq_true,
            Heap.set_other]
          exact (unlinked_relinked h [] x xs).outside y (by simp [hy, hm])

/-- Emptying a list without freeing leaves its members blank and unlinked. -/
theorem drain_keep_ok {h h' : Heap α} {e e' : Ends} {xs : List Addr} {fuel : Nat}
    (hl : IsList h e xs) (hd : drain trap stuck (fun h _ => pure h) fuel h e = .ok (h', e')) :
    e' = {} ∧ Relinked h h' xs ∧ ∀ y ∈ xs, h' y = (h y).map payload := by
  induction xs generalizing fuel h e with
  | nil =>
    obtain ⟨f, b⟩ := e
    have hf : f = none := hl.front
    have hb : b = none := hl.back
    subst hf hb
    unfold drain at hd
    simp only [Except.ok.injEq, Prod.mk.injEq] at hd
    obtain ⟨rfl, rfl⟩ := hd
    exact ⟨rfl, Relinked.refl h [], by simp⟩
  | cons x xs ih =>
    unfold drain at hd
    simp only [hl.front, List.head?_cons] at hd
    cases fuel with
    | zero => simp at hd
    | succ fuel =>
      obtain ⟨⟨h₁, e₁⟩, hr, hd⟩ := bind_ok.mp hd
      have hl' : IsList h e ([] ++ x :: xs) := hl
      obtain ⟨rfl, rfl⟩ := remove_ok hl' hr
      obtain ⟨he, hrel, hblank⟩ := ih (unlinked_isList hl') hd
      have hu := unlinked_relinked h [] x xs
      have hx : x ∉ xs := (List.nodup_cons.mp hl.nodup).1
      refine ⟨he, hu.trans (hrel.mono fun y hy => List.mem_cons_of_mem _ hy), ?_⟩
      intro y hy
      rcases List.mem_cons.mp hy with rfl | hm
      · rw [hrel.outside y hx]
        exact unlinked_self hl'.nodup
      · rw [hblank y hm, hu.payload y]

/-- Draining terminates without a trap when the members are live, the fuel
covers them, and disposing of one member spares the others. -/
theorem drain_run (trap : Option Addr → ε) (stuck : ε)
    (act : Heap α → Addr → Except ε (Heap α)) {h : Heap α} {e : Ends} {xs : List Addr}
    {fuel : Nat} (hl : IsList h e xs) (ha : h.AllLive xs)
    (hn : xs.length ≤ fuel)
    (hact : ∀ h x, (∃ a, h x = some a) → ∃ h', act h x = .ok h' ∧ ∀ y, y ≠ x → h' y = h y) :
    ∃ h' e', drain trap stuck act fuel h e = .ok (h', e') := by
  induction xs generalizing fuel h e with
  | nil =>
    unfold drain
    simp [hl.front]
  | cons x xs ih =>
    unfold drain
    simp only [hl.front, List.head?_cons]
    cases fuel with
    | zero => simp at hn
    | succ fuel =>
      have hl' : IsList h e ([] ++ x :: xs) := hl
      obtain ⟨h₁, e₁, hr⟩ := remove_run trap hl' ha
      obtain ⟨rfl, rfl⟩ := remove_ok hl' hr
      have hlive := allLive_relinked ha (unlinked_relinked h [] x xs)
      obtain ⟨h₂, hf, hsame⟩ := hact _ x (hlive x (by simp))
      have hx : ∀ y ∈ xs, y ≠ x := fun y hy he =>
        (List.nodup_cons.mp hl.nodup).1 (he ▸ hy)
      simp only [hr, bind, Except.bind, hf]
      apply ih (h := h₂)
      · exact (unlinked_isList hl').mono fun y hy a' ha' =>
          ⟨a', (hsame y (hx y hy)).symm.trans ha', rfl⟩
      · intro y hy
        rw [hsame y (hx y hy)]
        exact hlive y (by simp [hy])
      · simpa using hn

theorem drain_error {act : Heap α → Addr → Except ε (Heap α)} {h : Heap α} {e : Ends}
    {fuel : Nat} {why : ε}
    (hact : ∀ h x why, act h x = .error why → ∃ p, why = trap p)
    (hd : drain trap stuck act fuel h e = .error why) : why = stuck ∨ ∃ p, why = trap p := by
  induction fuel generalizing h e with
  | zero =>
    unfold drain at hd
    split at hd
    · simp at hd
    · simp only [Except.error.injEq] at hd
      exact Or.inl hd.symm
  | succ fuel ih =>
    unfold drain at hd
    split at hd
    · simp at hd
    · rcases bind_error.mp hd with hd | ⟨⟨h₁, e₁⟩, _, hd⟩
      · exact Or.inr (remove_error hd)
      · rcases bind_error.mp hd with hd | ⟨_, _, hd⟩
        · exact Or.inr (hact _ _ _ hd)
        · exact ih hd

/-- A walk that ends has seen every member, or stopped at the one sought. -/
theorem find_ok {h : Heap α} {p : Option Addr} {xs : List Addr} {x : Addr} {fuel : Nat}
    {b : Bool} (hs : Seg h p xs none) (hf : find trap stuck h x fuel xs.head? = .ok b) :
    b = true ↔ x ∈ xs := by
  induction xs generalizing fuel p with
  | nil =>
    simp only [List.head?_nil, find, Except.ok.injEq] at hf
    simp [← hf]
  | cons y xs ih =>
    cases fuel with
    | zero => simp [find] at hf
    | succ fuel =>
      simp only [List.head?_cons, find] at hf
      split at hf
      · rename_i hy
        simp_all
      · rename_i hy
        obtain ⟨a, ha, hf⟩ := bind_ok.mp hf
        obtain ⟨_, hy', ha⟩ := Heap.read_ok.mp ha
        cases hy'
        rw [hs.1 a ha] at hf
        simp only [Option.or_none] at hf
        rw [ih hs.2 hf]
        simp [Ne.symm hy]

theorem find_run (trap : Option Addr → ε) (stuck : ε) {h : Heap α} {p : Option Addr}
    {xs : List Addr} {fuel : Nat}
    (hs : Seg h p xs none) (ha : h.AllLive xs) (hn : xs.length ≤ fuel) (x : Addr) :
    ∃ b, find trap stuck h x fuel xs.head? = .ok b := by
  induction xs generalizing fuel p with
  | nil => exact ⟨false, by simp [find]⟩
  | cons y xs ih =>
    cases fuel with
    | zero => simp at hn
    | succ fuel =>
      simp only [List.head?_cons, find]
      split
      · exact ⟨true, rfl⟩
      · obtain ⟨a, hy⟩ := ha y (by simp)
        simp only [Heap.read_some hy, bind, Except.bind, hs.1 a hy, Option.or_none]
        exact ih hs.2 (fun z hz => ha z (by simp [hz])) (by simpa using hn)

theorem walk_seg {h : Heap α} {p : Option Addr} {xs : List Addr} {fuel : Nat}
    (hs : Seg h p xs none) (ha : h.AllLive xs) (hn : xs.length ≤ fuel) :
    walk h fuel xs.head? = xs := by
  induction xs generalizing fuel p with
  | nil => simp [walk]
  | cons y xs ih =>
    cases fuel with
    | zero => simp at hn
    | succ fuel =>
      obtain ⟨a, hy⟩ := ha y List.mem_cons_self
      simp only [List.head?_cons, walk, hy, hs.1 a hy, Option.or_none]
      rw [ih hs.2 (fun z hz => ha z (List.mem_cons_of_mem _ hz)) (Nat.le_of_succ_le_succ hn)]

theorem find_error {h : Heap α} {x : Addr} {fuel : Nat} {q : Option Addr} {why : ε}
    (hf : find trap stuck h x fuel q = .error why) : why = stuck ∨ ∃ p, why = trap p := by
  induction fuel generalizing q with
  | zero =>
    cases q with
    | none => simp [find] at hf
    | some y =>
      simp only [find, Except.error.injEq] at hf
      exact Or.inl hf.symm
  | succ fuel ih =>
    cases q with
    | none => simp [find] at hf
    | some y =>
      simp only [find] at hf
      split at hf
      · simp at hf
      · rcases bind_error.mp hf with hf | ⟨a, _, hf⟩
        · exact Or.inr ⟨_, Heap.read_error hf⟩
        · exact ih hf

end OperationSpecs

end DList

end Lib
