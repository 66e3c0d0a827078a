import Wg14Signals.Abandonment
import Wg14Signals.Proofs.Dispatch
import Wg14Signals.Proofs.GuardInfos

namespace Wg14Signals
open Lib

/-- The frame a raise looks at, or whose decider it is inside of. -/
def GuardCall.looks : GuardCall → Option Addr
  | .raise _ _ (.walk frame) => frame
  | .raise _ _ (.asking frame _) => some frame
  | _ => none

/-- Nothing to do with frames or deciders until it is the innermost call again. -/
def GuardCall.settled (c : GuardCall) : Prop := c.looks = none ∧ c.info = none

/-- The guards that stand while some calls are in progress on top of others, `guards` being those
of the others. -/
inductive Nests (frames : Heap GuardFrame) (tss : Option Addr) (guards : List Addr) :
    List GuardCall → List Addr → Prop where
  | nil : Nests frames tss guards [] guards
  | guarded {frame : Addr} {f : GuardFrame} {rest : List GuardCall} {l : List Addr}
      (h : Nests frames tss guards rest l) (ht : tss ≠ none) (hf : frames frame = some f)
      (hp : f.prev = l.head?) :
      Nests frames tss guards (.sigguarded frame tss f.prev false :: rest) (frame :: l)
  | recovering {frame : Addr} {tss' old : Option Addr} {rest : List GuardCall} {l : List Addr}
      (h : Nests frames tss guards rest l) :
      Nests frames tss guards (.sigguarded frame tss' old true :: rest) l
  | raise {args : RaiseArgs} {delivered : Bool} {pc : GuardPc} {rest : List GuardCall}
      {l : List Addr} (h : Nests frames tss guards rest l) :
      Nests frames tss guards (.raise args delivered pc :: rest) l

/-- The guards of the calls `base`, each with its frame. -/
def Linked (frames : Heap GuardFrame) (tss : Option Addr) (base : List GuardCall)
    (guards : List Addr) : Prop :=
  ∀ pre a post, guards = pre ++ a :: post → ∃ f xs rest, frames a = some f ∧
    f.prev = post.head? ∧ tss ≠ none ∧ base = xs ++ .sigguarded a tss f.prev false :: rest

section

variable {frames frames' : Heap GuardFrame} {tss tss' : Option Addr} {guards l : List Addr}
  {calls base : List GuardCall} {st st' : ThreadStorage} {a : Addr} {front : Option Addr}

theorem Nests.congr (h : Nests frames tss guards calls l)
    (hf : ∀ a tss old, .sigguarded a tss old false ∈ calls → frames' a = frames a) :
    Nests frames' tss guards calls l := by
  induction h with
  | nil => exact .nil
  | guarded h ht hframe hp ih =>
    refine .guarded (ih fun a tss old hm => hf a tss old (List.mem_cons_of_mem _ hm)) ht ?_ hp
    rw [hf _ _ _ List.mem_cons_self]
    exact hframe
  | recovering h ih =>
    exact .recovering (ih fun a tss old hm => hf a tss old (List.mem_cons_of_mem _ hm))
  | raise h ih => exact .raise (ih fun a tss old hm => hf a tss old (List.mem_cons_of_mem _ hm))

/-- Without an object the thread has made no guards. -/
theorem Nests.move (h : Nests frames tss guards calls l) (hn : tss = none ∨ tss' = tss) :
    Nests frames tss' guards calls l := by
  rcases hn with rfl | rfl
  · induction h with
    | nil => exact .nil
    | guarded h ht => exact absurd rfl ht
    | recovering h ih => exact .recovering ih
    | raise h ih => exact .raise ih
  · exact h

theorem Nests.of_raises {ys : List GuardCall} (h : Nests frames tss guards calls l)
    (hy : ∀ c ∈ ys, ∃ args delivered pc, c = .raise args delivered pc) :
    Nests frames tss guards (ys ++ calls) l := by
  induction ys with
  | nil => exact h
  | cons c ys ih =>
    obtain ⟨args, delivered, pc, rfl⟩ := hy c List.mem_cons_self
    exact .raise (ih fun c hm => hy c (List.mem_cons_of_mem _ hm))

theorem Nests.of_raise {args : RaiseArgs} {delivered : Bool} {pc : GuardPc}
    (h : Nests frames tss guards (.raise args delivered pc :: calls) l) :
    Nests frames tss guards calls l := by
  cases h with
  | raise h => exact h

/-- A guard that stands is one of these, or stood before. -/
theorem Nests.split (h : Nests frames tss guards calls l) {pre post : List Addr}
    (hl : l = pre ++ a :: post) :
    (∃ f xs rest, frames a = some f ∧ f.prev = post.head? ∧ tss ≠ none ∧
      calls = xs ++ .sigguarded a tss f.prev false :: rest ∧ Nests frames tss guards rest post) ∨
    ∃ pre', guards = pre' ++ a :: post := by
  have onTop : ∀ {c : GuardCall} {rest : List GuardCall},
      ((∃ f xs rest', frames a = some f ∧ f.prev = post.head? ∧ tss ≠ none ∧
        rest = xs ++ .sigguarded a tss f.prev false :: rest' ∧
        Nests frames tss guards rest' post) ∨ ∃ pre', guards = pre' ++ a :: post) →
      (∃ f xs rest', frames a = some f ∧ f.prev = post.head? ∧ tss ≠ none ∧
        c :: rest = xs ++ .sigguarded a tss f.prev false :: rest' ∧
        Nests frames tss guards rest' post) ∨ ∃ pre', guards = pre' ++ a :: post := by
    rintro c rest (⟨f, xs, rest', hf, hp, ht, rfl, hn⟩ | hbase)
    · exact .inl ⟨f, c :: xs, rest', hf, hp, ht, rfl, hn⟩
    · exact .inr hbase
  induction h generalizing pre with
  | nil => exact .inr ⟨pre, hl⟩
  | @guarded frame f rest l h ht hf hp ih =>
    cases pre with
    | nil =>
      obtain ⟨rfl, rfl⟩ := List.cons.inj hl
      exact .inl ⟨f, [], rest, hf, hp, ht, rfl, h⟩
    | cons b pre => exact onTop (ih (List.cons.inj hl).2)
  | recovering h ih => exact onTop (ih hl)
  | raise h ih => exact onTop (ih hl)

theorem Linked.congr (h : Linked frames tss base guards) (hn : tss = none ∨ tss' = tss)
    (hf : ∀ a tss old, .sigguarded a tss old false ∈ base → frames' a = frames a) :
    Linked frames' tss' base guards := by
  intro pre a post hg
  obtain ⟨f, xs, rest, hframe, hp, ht, hbase⟩ := h pre a post hg
  obtain rfl : tss' = tss := hn.resolve_left ht
  refine ⟨f, xs, rest, ?_, hp, ht, hbase⟩
  rw [hf a tss' f.prev (by rw [hbase]; exact List.mem_append.mpr (.inr List.mem_cons_self))]
  exact hframe

/-- Each guard that stands has a frame, which links it with the next. -/
theorem Nests.linked (h : Nests frames tss guards calls l) (hb : Linked frames tss base guards)
    (ha : a ∈ l) : ∃ f, frames a = some f ∧ ∀ b, f.prev = some b → b ∈ l := by
  obtain ⟨pre, post, hl⟩ := List.append_of_mem ha
  have hnext : ∀ b, post.head? = some b → b ∈ l := by
    intro b hb
    rw [hl]
    exact List.mem_append.mpr (.inr (List.mem_cons_of_mem _ (List.mem_of_head? hb)))
  rcases h.split hl with ⟨f, _, _, hf, hp, -⟩ | ⟨pre', hguards⟩
  · exact ⟨f, hf, fun b hb => hnext b (hp ▸ hb)⟩
  · obtain ⟨f, _, _, hf, hp, -⟩ := hb pre' a post hguards
    exact ⟨f, hf, fun b hb => hnext b (hp ▸ hb)⟩

theorem init_own {env : SetupEnv} (h : st.slot.own = some a) : st.init env = (true, st) := by
  unfold ThreadStorage.init ThreadStorage.create
  obtain ⟨states, next, slot⟩ := st
  cases slot with
  | threadLocal own =>
    obtain rfl : own = some a := h
    rfl
  | fallback tss =>
    obtain rfl : tss = some (some a) := by
      cases tss with
      | none => cases h
      | some own => exact congrArg some h
    rfl

/-- Setting the storage up keeps the stack, and gives the thread its object. -/
theorem ThreadStorage.Live.init (hl : st.Live) (env : SetupEnv) :
    (st.init env).2.Live ∧ (st.init env).2.front = st.front ∧
      (st.slot.own = none ∨ (st.init env).2.slot.own = st.slot.own) ∧
      ((st.init env).1 = true → ∃ a state, (st.init env).2.slot.own = some a ∧
        (st.init env).2.states a = some state ∧ state.front = st.front) := by
  cases hown : st.slot.own with
  | some a =>
    obtain ⟨state, hstate⟩ := hl a hown
    rw [init_own hown]
    exact ⟨hl, rfl, .inr hown, fun _ => ⟨a, state, hown, hstate, (front_of_some hown hstate).symm⟩⟩
  | none =>
    rw [front_of_none hown]
    have fresh : ∀ (st₁ : ThreadStorage) (slot : Option Addr → TssSlot),
        (slot (some st₁.nextState)).own = some st₁.nextState →
        (st₁.allocate slot).slot.own = some st₁.nextState ∧
          (st₁.allocate slot).states st₁.nextState = some {} :=
      fun _ _ h => ⟨h, Heap.set_self _ _ _⟩
    have given : ∀ {st₁ : ThreadStorage} {b : Addr} {ok : Bool}, st₁.slot.own = some b →
        st₁.states b = some {} → st₁.Live ∧ st₁.front = none ∧
          ((none : Option Addr) = none ∨ st₁.slot.own = none) ∧ (ok = true → ∃ a state,
            st₁.slot.own = some a ∧ st₁.states a = some state ∧ state.front = none) := by
      intro st₁ b ok ho hs
      refine ⟨fun c hc => ?_, front_of_some ho hs, .inl rfl, fun _ => ⟨b, {}, ho, hs, rfl⟩⟩
      rw [ho] at hc
      cases hc
      exact ⟨_, hs⟩
    have nothing : ∀ {st₁ : ThreadStorage}, st₁.slot.own = none → st₁.Live ∧ st₁.front = none ∧
        ((none : Option Addr) = none ∨ st₁.slot.own = none) ∧ (false = true → ∃ a state,
          st₁.slot.own = some a ∧ st₁.states a = some state ∧ state.front = none) := by
      intro st₁ ho
      refine ⟨fun c hc => ?_, front_of_none ho, .inl rfl, fun h => by cases h⟩
      rw [ho] at hc
      cases hc
    unfold ThreadStorage.init
    split
    · rename_i hs
      rw [hs] at hown
      cases hown
    · split
      · obtain ⟨ho, hs⟩ := fresh st .threadLocal rfl
        exact given ho hs
      · exact nothing hown
    · rename_i tss hs
      have hcreate : (st.create env.create).2.slot.own = none := by
        unfold ThreadStorage.create
        split
        · exact hown
        · exact hown
        · split
          · rfl
          · exact hown
      dsimp only
      split
      · split
        · rename_i hs'
          rw [hcreate] at hs'
          cases hs'
        · split
          · obtain ⟨ho, hs⟩ := fresh (st.create env.create).2
              (fun own => .fallback (some own)) rfl
            exact given ho hs
          · exact nothing hcreate
      · exact nothing hcreate

theorem FrontSet.own (h : FrontSet st st' tss front) (ho : st.slot.own = tss) :
    st'.slot.own = st.slot.own ∧ st'.front = front := by
  obtain ⟨a, rfl, -, hstates⟩ := h.live
  have ho' : st'.slot.own = some a := by rw [h.slot, ho]
  have hstate : st'.states a = some ⟨front⟩ := by rw [hstates, Heap.set_self]
  exact ⟨by rw [h.slot], front_of_some ho' hstate⟩

end

end Wg14Signals
