import Wg14Signals.ThreadAtexitCpp
import Wg14Signals.Proofs.ThreadAtexit

namespace Wg14Signals.Cpp

variable {lib : Library} {s s' : Items} {items : List Item} {called : List (Nat × Nat)} {c : Call}

theorem foldl_destroy (items : List Item) (called : List (Nat × Nat)) :
    items.foldl Item.destroy called = (items.filterMap Item.target).reverse ++ called := by
  induction items generalizing called with
  | nil => rfl
  | cons x items ih =>
    rw [List.foldl_cons, ih]
    obtain ⟨func, obj⟩ := x
    cases func with
    | none => rfl
    | some func => simp [Item.destroy, Item.target]

/-- A destroyed vector has called what its elements had still to call. -/
theorem destroyAll_eq : lib.destroyAll items called =
    (if lib.backward then items.filterMap Item.target
      else (items.filterMap Item.target).reverse) ++ called := by
  rw [Library.destroyAll, foldl_destroy]
  cases lib.backward <;> simp [List.filterMap_reverse]

/-- The elements a vector has moved away call nothing. -/
theorem destroyAll_moved (items : List Item) :
    lib.destroyAll ((items.map Item.move).map Prod.snd) called = called := by
  have hnone : ((items.map Item.move).map Prod.snd).filterMap Item.target = [] := by
    rw [List.map_map, List.filterMap_map, List.filterMap_eq_nil_iff]
    exact fun _ _ => rfl
  rw [destroyAll_eq, hnone]
  cases lib.backward <;> rfl

/-- A vector has one element more, or is as it was. Its capacity is enough, and nothing is
called. -/
theorem threadAtexit_cases (lib : Library) (s : Items) (c : Call) (hs : s.vector.length ≤ s.capacity) :
    (threadAtexit lib s c).2.called = s.called ∧
      (threadAtexit lib s c).2.vector.length ≤ (threadAtexit lib s c).2.capacity ∧
      ((threadAtexit lib s c).1 = 0 ∧ (threadAtexit lib s c).2.vector = s.vector ++ [c.item] ∨
        (threadAtexit lib s c).1 = -1 ∧ (threadAtexit lib s c).2 = s ∧ c.alloc = false) := by
  unfold threadAtexit Items.emplaceBack
  by_cases hroom : s.vector.length < s.capacity
  · rw [if_pos hroom]
    exact ⟨rfl, by simp; omega, .inl ⟨rfl, rfl⟩⟩
  · rw [if_neg hroom]
    cases halloc : c.alloc with
    | false => exact ⟨rfl, hs, .inr ⟨rfl, rfl, rfl⟩⟩
    | true =>
      have hsame : (s.vector.map Item.move).map Prod.fst = s.vector := by
        rw [List.map_map]
        exact List.map_id _
      have hgrow := lib.grows s.capacity
      refine ⟨destroyAll_moved _, ?_, .inl ⟨rfl, ?_⟩⟩
      · simp
        omega
      · exact congrArg (· ++ [c.item]) hsame

theorem threadRuns_cases (lib : Library) (program : List Call) :
    ∀ s : Items, s.vector.length ≤ s.capacity → (threadRuns lib s program).2.called = s.called ∧
      (threadRuns lib s program).2.vector =
        s.vector ++ accepted program (threadRuns lib s program).1 ∧
      ((∀ c ∈ program, c.alloc = true) →
        accepted program (threadRuns lib s program).1 = program.map Call.item) := by
  induction program with
  | nil => exact fun s _ => ⟨rfl, (List.append_nil _).symm, fun _ => rfl⟩
  | cons c program ih =>
    intro s hs
    obtain ⟨hcalled, hfits, hcase⟩ := threadAtexit_cases lib s c hs
    obtain ⟨hcalled', hvector, hall⟩ := ih (threadAtexit lib s c).2 hfits
    have hruns : threadRuns lib s (c :: program) = ((threadAtexit lib s c).1 ::
        (threadRuns lib (threadAtexit lib s c).2 program).1,
        (threadRuns lib (threadAtexit lib s c).2 program).2) := rfl
    rw [hruns]
    refine ⟨hcalled'.trans hcalled, ?_, fun hmem => ?_⟩
    · rw [hvector]
      rcases hcase with ⟨h0, happend⟩ | ⟨hneg, hsame, -⟩
      · simp [accepted, h0, happend]
      · simp [accepted, hneg, hsame]
    · rcases hcase with ⟨h0, -⟩ | ⟨-, -, halloc⟩
      · have hrest := hall fun d hd => hmem d (List.mem_cons_of_mem c hd)
        simpa [accepted, h0] using hrest
      · exact absurd (halloc.symm.trans (hmem c List.mem_cons_self)) Bool.false_ne_true

theorem threadAtexit_failed (h : (threadAtexit lib s c).1 ≠ 0) : (threadAtexit lib s c).2 = s := by
  unfold threadAtexit at h ⊢
  cases hs : s.emplaceBack lib c.item c.alloc with
  | none => rfl
  | some s' =>
    rw [hs] at h
    exact absurd rfl h

theorem exit_events (lib : Library) (program : List Call) :
    (threadExit lib (threadRuns lib .initial program).2).events =
      (if lib.backward then List.reverse else id)
        ((accepted program (threadRuns lib .initial program).1).filterMap Item.target) := by
  obtain ⟨hcalled, hvector, -⟩ := threadRuns_cases lib program .initial (Nat.le_refl 0)
  change List.reverse (lib.destroyAll _ _) = _
  rw [destroyAll_eq, hvector, hcalled]
  cases lib.backward <;> simp [Items.initial]

/-- A registered callback is called once and at the exit of its thread, however often the vector
moves to a larger allocation before it; one whose registration has failed never. They are called
from the first to the last or the other way round, as the library destroys its vectors. -/
theorem cpp_callbacks_run_once (lib : Library) (program : List Call) :
    (threadRuns lib .initial program).2.events = [] ∧
      (threadExit lib (threadRuns lib .initial program).2).events =
        (if lib.backward then List.reverse else id)
          ((accepted program (threadRuns lib .initial program).1).filterMap Item.target) ∧
      ∀ s c, (threadAtexit lib s c).1 ≠ 0 → (threadAtexit lib s c).2 = s := by
  refine ⟨?_, exit_events lib program, fun s c => threadAtexit_failed⟩
  rw [Items.events, (threadRuns_cases lib program .initial (Nat.le_refl 0)).1]
  rfl

end Wg14Signals.Cpp
