import Mathlib.Data.List.Perm.Subperm
import Mathlib.Data.List.Sort
import Wg14Signals.ThreadAtexit

namespace Wg14Signals
open Lib

theorem ExitCall.unfailing_iff {c : ExitCall} :
    c.unfailing = true ↔ c.env = {} ∧ unfailingAll c.within = true := by
  cases c
  simp [unfailing, env, within]

theorem ExitCall.unfailingAll_iff {cs : List ExitCall} :
    unfailingAll cs = true ↔ ∀ c ∈ cs, c.unfailing = true := by
  induction cs with
  | nil => simp [unfailingAll]
  | cons c cs ih => simp [unfailingAll, ih]

theorem ExitCall.depthAll_le {cs : List ExitCall} {n : Nat} :
    depthAll cs ≤ n ↔ ∀ c ∈ cs, c.depth ≤ n := by
  induction cs with
  | nil => simp [depthAll]
  | cons c cs ih => rw [depthAll, Nat.max_le, ih, List.forall_mem_cons]

theorem ExitCall.depth_pos (c : ExitCall) : 0 < c.depth := by
  cases c
  rw [depth]
  exact Nat.succ_pos _

theorem ExitCall.depth_within {c d : ExitCall} (hd : d ∈ c.within) : d.depth < c.depth := by
  cases c with
  | mk func obj env within =>
    rw [depth]
    exact Nat.lt_succ_of_le (depthAll_le.mp (Nat.le_refl _) d hd)

/-- A list of items from a pointer on, each with the call that has registered it. -/
inductive ItemList (h : Heap AtexitItem) : Option Addr → List (Addr × ExitCall) → Prop where
  | nil : ItemList h none []
  | cons {a : Addr} {item : AtexitItem} {l : List (Addr × ExitCall)} (ha : h a = some item)
      (hl : ItemList h item.next l) : ItemList h (some a) ((a, item.call) :: l)

theorem ItemList.congr {h h' : Heap AtexitItem} {p : Option Addr} {l : List (Addr × ExitCall)}
    (hl : ItemList h p l) (hsame : ∀ x ∈ l, h' x.1 = h x.1) : ItemList h' p l := by
  induction hl with
  | nil => exact .nil
  | cons ha _ ih =>
    refine .cons ((hsame _ List.mem_cons_self).trans ha) (ih fun x hx => ?_)
    exact hsame x (List.mem_cons_of_mem _ hx)

/-- The address of a call that has returned. -/
def AtexitEvent.returned : AtexitEvent → Option Addr
  | .registered item => some item
  | .rejected item => some item
  | _ => none

/-- A call of `thread_atexit`, on either path. -/
inductive AtexitTurn (s : AtexitThread) (c : ExitCall) : Int × AtexitThread → Prop where
  | accepts {s' : AtexitThread}
      (heap : s'.items.heap = s.items.heap.set s.items.next (some ⟨c, s.list⟩))
      (next : s'.items.next = s.items.next + 1) (list : s'.list = some s.items.next)
      (trace : s'.trace = .registered s.items.next :: s.trace) : AtexitTurn s c (0, s')
  | rejects {s' : AtexitThread} (heap : s'.items.heap = s.items.heap)
      (next : s'.items.next = s.items.next + 1) (list : s'.list = s.list)
      (trace : s'.trace = .rejected s.items.next :: s.trace) : AtexitTurn s c (-1, s')

theorem free_heap (m : AtexitItems) (a : Addr) : (m.free a).heap = m.heap.set a none := rfl

/-- An item that is given back at once has not been there. -/
theorem set_fresh (m : AtexitItems) (item : Option AtexitItem) :
    Heap.set (m.heap.set m.next item) m.next none = m.heap := by
  funext a
  by_cases ha : a = m.next
  · subst ha
    rw [Heap.set_self, m.fresh _ (Nat.le_refl _)]
  · rw [Heap.set_other _ _ ha, Heap.set_other _ _ ha]

theorem malloc_link (m : AtexitItems) (c : ExitCall) (p q : Option Addr) :
    ((m.malloc (some ⟨c, p⟩)).link m.next q).heap = m.heap.set m.next (some ⟨c, q⟩) := by
  funext a
  by_cases ha : a = m.next
  · subst ha
    simp [AtexitItems.link, AtexitItems.malloc]
  · rw [Heap.set_other _ _ ha]
    refine (Heap.mapAt_other _ _ (by simpa using ha)).trans ?_
    exact Heap.set_other _ _ ha

namespace Pthread

variable {s s' : AtexitThread} {c : ExitCall} {env : AtexitEnv}

@[simp] theorem keyInit_items : (threadAtexitKeyInit s env).items = s.items := by
  unfold threadAtexitKeyInit
  split <;> rfl

@[simp] theorem keyInit_list : (threadAtexitKeyInit s env).list = s.list := by
  unfold threadAtexitKeyInit
  split <;> rfl

@[simp] theorem keyInit_value : (threadAtexitKeyInit s env).value = s.value := by
  unfold threadAtexitKeyInit
  split <;> rfl

@[simp] theorem keyInit_trace : (threadAtexitKeyInit s env).trace = s.trace := by
  unfold threadAtexitKeyInit
  split <;> rfl

theorem threadAtexit_turns (s : AtexitThread) (c : ExitCall) : AtexitTurn s c (threadAtexit s c) := by
  unfold threadAtexit
  simp only
  split
  · exact .rejects (set_fresh _ _) rfl rfl rfl
  · split
    · refine .rejects ?_ ?_ ?_ ?_ <;> simp only [AtexitThread.emit, keyInit_items, keyInit_list,
        keyInit_trace]
      · exact set_fresh _ _
      · rfl
    · split
      · refine .rejects ?_ ?_ ?_ ?_ <;> simp only [AtexitThread.emit, keyInit_items, keyInit_list,
          keyInit_trace]
        · rw [free_heap, malloc_link, set_fresh]
        · rfl
      · refine .accepts ?_ ?_ ?_ ?_ <;> simp only [AtexitThread.emit, keyInit_items, keyInit_list,
          keyInit_trace]
        · exact malloc_link _ _ _ _
        · rfl

end Pthread

namespace Msvc

theorem threadAtexit_turns (s : AtexitThread) (c : ExitCall) : AtexitTurn s c (threadAtexit s c) := by
  unfold threadAtexit
  simp only
  split
  · exact .rejects (set_fresh _ _) rfl rfl rfl
  · exact .accepts rfl rfl rfl rfl

end Msvc

/-- What the two paths have in common. -/
structure Registers (f : AtexitThread → ExitCall → Int × AtexitThread) : Prop where
  turns : ∀ s c, AtexitTurn s c (f s c)
  accepts : ∀ s c, s.key ≠ some false → c.env = {} → (f s c).1 = 0 ∧ (f s c).2.key ≠ some false

/-- These items are still to be walked, from a pointer on, and these are listed. Everything else
that has been registered has been run. -/
structure Waiting (s : AtexitThread) (p : Option Addr) (walked listed : List (Addr × ExitCall)) :
    Prop where
  rest : ItemList s.items.heap p walked
  list : ItemList s.items.heap s.list listed
  returned : (s.trace.filterMap AtexitEvent.returned).Pairwise (· > ·)
  old : ∀ a ∈ s.trace.filterMap AtexitEvent.returned, a < s.items.next
  tally : (s.trace.filterMap AtexitEvent.registration).Perm
    (s.trace.filterMap AtexitEvent.run ++ (walked ++ listed).map Prod.fst)
  last_first : (listed.map Prod.fst).Pairwise (· > ·)
  round : ((AtexitThread.roundsOf s.trace).headD [] ++ walked.map Prod.fst).Pairwise (· > ·)
  rounds : ∀ r ∈ AtexitThread.roundsOf s.trace, r.Pairwise (· > ·)

section

variable {s : AtexitThread} {p : Option Addr} {walked listed : List (Addr × ExitCall)}
  {c : ExitCall} {r : Int × AtexitThread} {f : AtexitThread → ExitCall → Int × AtexitThread}

theorem registrations_returned (t : List AtexitEvent) :
    (t.filterMap AtexitEvent.registration).Sublist (t.filterMap AtexitEvent.returned) := by
  induction t with
  | nil => exact .slnil
  | cons e t ih =>
    cases e with
    | registered a => exact ih.cons_cons a
    | rejected a => exact ih.cons a
    | detached => exact ih
    | ran a target => exact ih

theorem returned_perm (t : List AtexitEvent) : (t.filterMap AtexitEvent.returned).Perm
    (t.filterMap AtexitEvent.registration ++ t.filterMap AtexitEvent.rejection) := by
  induction t with
  | nil => exact .nil
  | cons e t ih =>
    cases e with
    | registered a => exact ih.cons a
    | rejected a => exact (ih.cons a).trans List.perm_middle.symm
    | detached => exact ih
    | ran a target => exact ih

theorem Waiting.registered (h : Waiting s p walked listed) :
    (s.trace.filterMap AtexitEvent.registration).Pairwise (· > ·) :=
  h.returned.sublist (registrations_returned _)

theorem Waiting.nodup (h : Waiting s p walked listed) :
    (s.trace.filterMap AtexitEvent.run ++ (walked ++ listed).map Prod.fst).Nodup :=
  h.tally.nodup_iff.mp (h.registered.imp Nat.ne_of_gt)

theorem Waiting.mem_old (h : Waiting s p walked listed) {x : Addr × ExitCall}
    (hx : x ∈ walked ++ listed) : x.1 < s.items.next := by
  have hm : x.1 ∈ s.trace.filterMap AtexitEvent.run ++ (walked ++ listed).map Prod.fst :=
    List.mem_append_right _ (List.mem_map_of_mem hx)
  exact h.old _ ((registrations_returned _).subset (h.tally.mem_iff.mpr hm))

/-- A call adds its item in front of the list, or nothing. -/
theorem Waiting.turn (h : Waiting s p walked listed) (ht : AtexitTurn s c r) :
    r.1 = 0 ∧ Waiting r.2 p walked ((s.items.next, c) :: listed) ∨
      r.1 = -1 ∧ Waiting r.2 p walked listed := by
  have hwalked : ∀ x ∈ walked, x.1 < s.items.next := fun x hx =>
    h.mem_old (List.mem_append_left _ hx)
  have hlisted : ∀ x ∈ listed, x.1 < s.items.next := fun x hx =>
    h.mem_old (List.mem_append_right _ hx)
  cases ht with
  | @accepts t heap next list trace =>
    have kept : ∀ x : Addr × ExitCall, x.1 < s.items.next →
        t.items.heap x.1 = s.items.heap x.1 := by
      intro x hx
      rw [heap, Heap.set_other _ _ (Nat.ne_of_lt hx)]
    refine .inl ⟨rfl, ?_, ?_, ?_, ?_, ?_, ?_, ?_, ?_⟩
    · exact h.rest.congr fun x hx => kept x (hwalked x hx)
    · rw [list]
      have hnew : t.items.heap s.items.next = some ⟨c, s.list⟩ := by rw [heap, Heap.set_self]
      refine .cons hnew ?_
      exact h.list.congr fun x hx => kept x (hlisted x hx)
    · rw [trace]
      exact List.pairwise_cons.mpr ⟨h.old, h.returned⟩
    · rw [trace, next]
      intro a ha
      rcases List.mem_cons.mp ha with rfl | ha
      · exact Nat.lt_succ_self _
      · exact Nat.lt_succ_of_lt (h.old a ha)
    · rw [trace]
      have htally := h.tally
      rw [List.map_append, ← List.append_assoc] at htally ⊢
      exact (htally.cons _).trans List.perm_middle.symm
    · refine List.pairwise_cons.mpr ⟨fun a ha => ?_, h.last_first⟩
      obtain ⟨x, hx, rfl⟩ := List.mem_map.mp ha
      exact hlisted x hx
    · rw [trace]
      exact h.round
    · rw [trace]
      exact h.rounds
  | @rejects t heap next list trace =>
    refine .inr ⟨rfl, ?_, ?_, ?_, ?_, ?_, h.last_first, ?_, ?_⟩
    · rw [heap]
      exact h.rest
    · rw [heap, list]
      exact h.list
    · rw [trace]
      exact List.pairwise_cons.mpr ⟨h.old, h.returned⟩
    · rw [trace, next]
      intro a ha
      rcases List.mem_cons.mp ha with rfl | ha
      · exact Nat.lt_succ_self _
      · exact Nat.lt_succ_of_lt (h.old a ha)
    · rw [trace]
      exact h.tally
    · rw [trace]
      exact h.round
    · rw [trace]
      exact h.rounds

theorem Waiting.performs (hf : Registers f) (h : Waiting s p walked listed) (cs : List ExitCall) :
    ∃ new, Waiting (s.performs f cs) p walked (new ++ listed) ∧
      (new.map Prod.snd).reverse.Sublist cs ∧
      (s.key ≠ some false → ExitCall.unfailingAll cs = true →
        (new.map Prod.snd).reverse = cs ∧ (s.performs f cs).key ≠ some false) := by
  induction cs generalizing s listed with
  | nil => exact ⟨[], h, .slnil, fun hk _ => ⟨rfl, hk⟩⟩
  | cons c cs ih =>
    rcases h.turn (hf.turns s c) with ⟨hok, h⟩ | ⟨hfail, h⟩
    · obtain ⟨new, hnew, hsub, hall⟩ := ih h
      refine ⟨new ++ [(s.items.next, c)], ?_, ?_, fun hk hun => ?_⟩
      · rw [List.append_assoc]
        exact hnew
      · rw [List.map_append, List.reverse_append]
        exact hsub.cons_cons c
      · obtain ⟨hc, hcs⟩ := Bool.and_eq_true_iff.mp hun
        obtain ⟨-, hk⟩ := hf.accepts s c hk (ExitCall.unfailing_iff.mp hc).1
        obtain ⟨heq, hk⟩ := hall hk hcs
        rw [List.map_append, List.reverse_append, heq]
        exact ⟨rfl, hk⟩
    · obtain ⟨new, hnew, hsub, -⟩ := ih h
      refine ⟨new, hnew, hsub.cons c, fun hk hun => ?_⟩
      have henv := (ExitCall.unfailing_iff.mp (Bool.and_eq_true_iff.mp hun).1).1
      have hok := (hf.accepts s c hk henv).1
      rw [hfail] at hok
      cases hok

/-- Calls of `thread_atexit` run no callback, and leave the items there are. -/
structure Aside (s s' : AtexitThread) : Prop where
  runs : s'.trace.filterMap AtexitEvent.run = s.trace.filterMap AtexitEvent.run
  called : s'.called = s.called
  next : s.items.next ≤ s'.items.next
  heap : ∀ a, a < s.items.next → s'.items.heap a = s.items.heap a

theorem AtexitTurn.aside (h : AtexitTurn s c r) : Aside s r.2 := by
  cases h with
  | accepts heap next list trace =>
    refine ⟨?_, ?_, ?_, fun a ha => ?_⟩
    · simp only [trace]
      rfl
    · simp [AtexitThread.called, AtexitThread.events, trace, AtexitEvent.call]
    · rw [next]
      exact Nat.le_succ _
    · rw [heap, Heap.set_other _ _ (Nat.ne_of_lt ha)]
  | rejects heap next list trace =>
    refine ⟨?_, ?_, ?_, fun a _ => congrFun heap a⟩
    · simp only [trace]
      rfl
    · simp [AtexitThread.called, AtexitThread.events, trace, AtexitEvent.call]
    · rw [next]
      exact Nat.le_succ _

theorem performs_aside (hf : Registers f) (cs : List ExitCall) : Aside s (s.performs f cs) := by
  induction cs generalizing s with
  | nil => exact ⟨rfl, rfl, Nat.le_refl _, fun _ _ => rfl⟩
  | cons c cs ih =>
    have hfirst := (hf.turns s c).aside
    have hrest := @ih (f s c).2
    exact
      { runs := hrest.runs.trans hfirst.runs
        called := hrest.called.trans hfirst.called
        next := Nat.le_trans hfirst.next hrest.next
        heap := fun a ha =>
          (hrest.heap a (Nat.lt_of_lt_of_le ha hfirst.next)).trans (hfirst.heap a ha) }

theorem roundsOf_ran (a : Addr) (target : Nat × Nat) (t : List AtexitEvent) :
    AtexitThread.roundsOf (.ran a target :: t) =
      ((AtexitThread.roundsOf t).headD [] ++ [a]) :: (AtexitThread.roundsOf t).tail := by
  rw [AtexitThread.roundsOf]
  cases AtexitThread.roundsOf t <;> rfl

/-- The callback of the next item is run. -/
theorem Waiting.ran {a : Addr} {target : Nat × Nat} {q : Option Addr}
    (h : Waiting s p ((a, c) :: walked) listed) (hrest : ItemList s.items.heap q walked) :
    Waiting (s.emit (.ran a target)) q walked listed where
  rest := hrest
  list := h.list
  returned := h.returned
  old := h.old
  tally := by
    have htally := h.tally
    rw [List.cons_append, List.map_cons] at htally
    exact htally.trans List.perm_middle
  last_first := h.last_first
  round := by
    change ((AtexitThread.roundsOf (_ :: s.trace)).headD [] ++ _).Pairwise _
    rw [roundsOf_ran, List.headD_cons, List.append_assoc]
    exact h.round
  rounds := by
    intro r hr
    change r ∈ AtexitThread.roundsOf (_ :: s.trace) at hr
    rw [roundsOf_ran] at hr
    rcases List.mem_cons.mp hr with rfl | hr
    · have hround := h.round
      rw [List.map_cons, List.append_cons] at hround
      exact hround.sublist (List.sublist_append_left _ _)
    · exact h.rounds r (List.mem_of_mem_tail hr)

/-- It is freed once the calls it has made have returned. -/
theorem Waiting.frees {a : Addr} (h : Waiting s p walked listed)
    (ha : a ∈ s.trace.filterMap AtexitEvent.run) :
    Waiting { s with items := s.items.free a } p walked listed := by
  have apart : ∀ x ∈ walked ++ listed, (s.items.free a).heap x.1 = s.items.heap x.1 := by
    intro x hx
    have hne := List.nodup_append.mp h.nodup
    exact Heap.set_other _ _ fun he =>
      hne.2.2 a ha x.1 (List.mem_map_of_mem hx) he.symm
  exact { h with
    rest := h.rest.congr fun x hx => apart x (List.mem_append_left _ hx)
    list := h.list.congr fun x hx => apart x (List.mem_append_right _ hx) }

theorem Waiting.walks (hf : Registers f) (h : Waiting s p walked listed) {n : Nat}
    (hn : walked.length ≤ n) :
    ∃ s' new, AtexitThread.walk f n s p = .ok s' ∧ Waiting s' none [] (new ++ listed) ∧
      s'.called = s.called ++ walked.map (ExitCall.target ∘ Prod.snd) ∧
      (∀ x ∈ new, ∃ y ∈ walked, x.2 ∈ y.2.within) ∧
      (s.key ≠ some false → (∀ y ∈ walked, y.2.unfailing = true) →
        (new.map Prod.snd).reverse = walked.flatMap (ExitCall.within ∘ Prod.snd) ∧
          s'.key ≠ some false) := by
  induction walked generalizing s p listed n with
  | nil =>
    have hp : p = none := by
      cases h.rest
      rfl
    subst hp
    exact ⟨s, [], by cases n <;> rfl, h, (List.append_nil _).symm, by simp, fun hk _ => ⟨rfl, hk⟩⟩
  | cons x walked ih =>
    cases n with
    | zero => exact absurd hn (Nat.not_succ_le_zero _)
    | succ n =>
      have hlist := h.rest
      cases hlist with
      | @cons a item _ ha hrest =>
        let s₁ := s.emit (.ran a item.call.target)
        let s₂ := s₁.performs f item.call.within
        have haside : Aside s₁ s₂ := performs_aside hf _
        have hold : a < s.items.next := h.mem_old List.mem_cons_self
        have hlive : s₂.items.heap a = some item := (haside.heap a hold).trans ha
        obtain ⟨new, hnew, hsub, hall⟩ := (h.ran hrest).performs hf item.call.within
        have hran : a ∈ s₂.trace.filterMap AtexitEvent.run := by
          rw [haside.runs]
          exact List.mem_cons_self
        obtain ⟨s', new', hwalk, hwaiting, hcalled, hfrom, hgo⟩ :=
          ih (hnew.frees hran) (Nat.le_of_succ_le_succ hn)
        refine ⟨s', new' ++ new, ?_, ?_, ?_, ?_, fun hk hun => ?_⟩
        · exact bind_ok.mpr ⟨item, Heap.read_some ha, bind_ok.mpr ⟨item, Heap.read_some hlive, hwalk⟩⟩
        · rw [List.append_assoc]
          exact hwaiting
        · have hfirst : s₁.called = s.called ++ [item.call.target] := by
            simp [s₁, AtexitThread.emit, AtexitThread.called, AtexitThread.events, AtexitEvent.call]
          have hsecond : s₂.called = s.called ++ [item.call.target] := haside.called.trans hfirst
          refine hcalled.trans ?_
          change s₂.called ++ _ = _
          rw [hsecond, List.append_assoc]
          rfl
        · intro x hx
          rcases List.mem_append.mp hx with hx | hx
          · obtain ⟨y, hy, hxy⟩ := hfrom x hx
            exact ⟨y, List.mem_cons_of_mem _ hy, hxy⟩
          · refine ⟨_, List.mem_cons_self, hsub.subset ?_⟩
            exact List.mem_reverse.mpr (List.mem_map_of_mem hx)
        · have hitem := ExitCall.unfailing_iff.mp (hun _ List.mem_cons_self)
          obtain ⟨hfirst, hk⟩ := hall hk hitem.2
          obtain ⟨hsecond, hk⟩ := hgo hk fun y hy => hun y (List.mem_cons_of_mem _ hy)
          rw [List.map_append, List.reverse_append, hfirst, hsecond]
          exact ⟨rfl, hk⟩

theorem Waiting.length_le (h : Waiting s p walked listed) : listed.length ≤ s.items.next := by
  have hd : (listed.map Prod.fst).Nodup := h.last_first.imp Nat.ne_of_gt
  have hsub : listed.map Prod.fst ⊆ List.range s.items.next := by
    intro a ha
    obtain ⟨x, hx, rfl⟩ := List.mem_map.mp ha
    exact List.mem_range.mpr (h.mem_old (List.mem_append_right _ hx))
  simpa using (List.subperm_of_subset hd hsub).length_le

/-- A list that is taken over is run to its end. -/
theorem Waiting.drains (hf : Registers f) (h : Waiting s none [] listed) :
    ∃ s' new, AtexitThread.drain f s = .ok s' ∧ Waiting s' none [] new ∧
      s'.called = s.called ++ listed.map (ExitCall.target ∘ Prod.snd) ∧
      (∀ x ∈ new, ∃ y ∈ listed, x.2 ∈ y.2.within) ∧
      (s.key ≠ some false → (∀ y ∈ listed, y.2.unfailing = true) →
        (new.map Prod.snd).reverse = listed.flatMap (ExitCall.within ∘ Prod.snd) ∧
          s'.key ≠ some false) := by
  let s₁ : AtexitThread := { s with list := none }.emit .detached
  have hstart : Waiting s₁ s.list listed [] :=
    { rest := h.list
      list := .nil
      returned := h.returned
      old := h.old
      tally := by
        rw [List.append_nil]
        exact h.tally
      last_first := .nil
      round := h.last_first
      rounds := by
        intro r hr
        rcases List.mem_cons.mp hr with rfl | hr
        · exact .nil
        · exact h.rounds r hr }
  obtain ⟨s', new, hwalk, hwaiting, hcalled, hfrom, hall⟩ := hstart.walks hf h.length_le
  rw [List.append_nil] at hwaiting
  refine ⟨s', new, hwalk, hwaiting, hcalled.trans ?_, hfrom, hall⟩
  simp [s₁, AtexitThread.emit, AtexitThread.called, AtexitThread.events, AtexitEvent.call]

theorem mem_roundsOf {t : List AtexitEvent} {r : List Addr} {a : Addr}
    (hr : r ∈ AtexitThread.roundsOf t) (ha : a ∈ r) : a ∈ t.filterMap AtexitEvent.run := by
  induction t generalizing r with
  | nil => cases hr
  | cons e t ih =>
    cases e with
    | registered b => exact ih hr ha
    | rejected b => exact ih hr ha
    | detached =>
      rcases List.mem_cons.mp hr with rfl | hr
      · cases ha
      · exact ih hr ha
    | ran b target =>
      rw [roundsOf_ran] at hr
      rcases List.mem_cons.mp hr with rfl | hr
      · rcases List.mem_append.mp ha with ha | ha
        · refine List.mem_cons_of_mem _ ?_
          cases hrounds : AtexitThread.roundsOf t with
          | nil =>
            rw [hrounds] at ha
            cases ha
          | cons round rounds =>
            rw [hrounds] at ha ih
            exact ih List.mem_cons_self ha
        · rw [List.mem_singleton.mp ha]
          exact List.mem_cons_self
      · exact List.mem_cons_of_mem _ (ih (List.mem_of_mem_tail hr) ha)

/-- Where nothing waits any more, everything that has been registered has been run. -/
theorem Waiting.over (h : Waiting s none [] []) :
    s.runs.Perm s.registrations ∧ s.registrations.Nodup ∧ (∀ a ∈ s.rejections, a ∉ s.runs) ∧
      ∀ r ∈ s.rounds, r.reverse.Sublist s.registrations := by
  have htally : (s.trace.filterMap AtexitEvent.registration).Perm
      (s.trace.filterMap AtexitEvent.run) := by
    simpa using h.tally
  simp only [AtexitThread.runs, AtexitThread.registrations, AtexitThread.rejections,
    AtexitThread.events, List.filterMap_reverse]
  refine ⟨?_, ?_, ?_, ?_⟩
  · exact (List.reverse_perm _).trans (htally.symm.trans (List.reverse_perm _).symm)
  · exact List.nodup_reverse.mpr (h.registered.imp Nat.ne_of_gt)
  · intro a ha hrun
    have hd := (returned_perm s.trace).nodup_iff.mp (h.returned.imp Nat.ne_of_gt)
    have hreg := htally.mem_iff.mpr (List.mem_reverse.mp hrun)
    exact (List.nodup_append.mp hd).2.2 a hreg a (List.mem_reverse.mp ha) rfl
  · intro r hr
    have hsub : r.Subperm (s.trace.filterMap AtexitEvent.registration) :=
      List.subperm_of_subset ((h.rounds r hr).imp Nat.ne_of_gt) fun a ha =>
        htally.mem_iff.mpr (mem_roundsOf hr ha)
    refine List.reverse_sublist.mpr ?_
    exact List.sublist_of_subperm_of_pairwise hsub ((h.rounds r hr).imp Nat.le_of_lt)
      (h.registered.imp Nat.le_of_lt)

theorem waiting_initial (key : Option Bool) : Waiting (.initial key) none [] [] where
  rest := .nil
  list := .nil
  returned := .nil
  old := by simp [AtexitThread.initial]
  tally := .nil
  last_first := .nil
  round := .nil
  rounds := by simp [AtexitThread.initial, AtexitThread.roundsOf]

end

namespace Pthread

variable {s s' : AtexitThread}

theorem keyInit_key (hk : s.key ≠ some false) : (threadAtexitKeyInit s {}).key = some true := by
  cases hs : s.key with
  | none => simp [threadAtexitKeyInit, hs]
  | some created =>
    cases created with
    | false => exact absurd hs hk
    | true => simp [threadAtexitKeyInit, hs]

theorem registers : Registers threadAtexit where
  turns := threadAtexit_turns
  accepts s c hk henv := by
    have hkey := keyInit_key (s := { s with items := s.items.malloc (some ⟨c, none⟩) }) hk
    simp [threadAtexit, henv, hkey, AtexitThread.emit]

/-- The key's value tells whether there is a list. -/
def InStep (s : AtexitThread) : Prop := s.value = none ↔ s.list = none

theorem inStep_call (h : InStep s) (c : ExitCall) : InStep (threadAtexit s c).2 := by
  unfold threadAtexit
  simp only
  split
  · exact h
  · split
    · simpa [InStep, AtexitThread.rejects, AtexitThread.emit] using h
    · split
      · simpa [InStep, AtexitThread.rejects, AtexitThread.emit] using h
      · simp [InStep, AtexitThread.emit]

theorem inStep_performs (h : InStep s) (cs : List ExitCall) : InStep (s.performs threadAtexit cs) := by
  induction cs generalizing s with
  | nil => exact h
  | cons c cs ih => exact ih (inStep_call h c)

theorem inStep_walk {n : Nat} {p : Option Addr} (h : InStep s)
    (hw : AtexitThread.walk threadAtexit n s p = .ok s') : InStep s' := by
  induction n generalizing s p with
  | zero =>
    cases p with
    | none => exact pure_ok.mp hw ▸ h
    | some a => cases hw
  | succ n ih =>
    cases p with
    | none => exact pure_ok.mp hw ▸ h
    | some a =>
      obtain ⟨item, -, hw⟩ := bind_ok.mp hw
      obtain ⟨-, -, hw⟩ := bind_ok.mp hw
      have hrun : InStep (s.emit (.ran a item.call.target)) := h
      refine ih ?_ hw
      exact inStep_performs hrun item.call.within

/-- The callbacks of a list, and of all the lists that are registered while one is run. -/
def callOrder : Nat → List ExitCall → List (Nat × Nat)
  | 0, _ => []
  | n + 1, cs => cs.map ExitCall.target ++ callOrder n (cs.flatMap ExitCall.within).reverse

theorem callOrder_nil (n : Nat) : callOrder n [] = [] := by
  induction n with
  | zero => rfl
  | succ n ih => exact ih

theorem callOrder_eq_nil {n : Nat} {cs : List ExitCall} (hd : ∀ c ∈ cs, c.depth ≤ n) :
    callOrder n cs = [] ↔ cs = [] := by
  cases n with
  | zero =>
    refine iff_of_true rfl (List.eq_nil_iff_forall_not_mem.mpr fun c hc => ?_)
    exact Nat.not_le_of_lt c.depth_pos (hd c hc)
  | succ n =>
    constructor
    · intro h
      exact List.map_eq_nil_iff.mp (List.append_eq_nil_iff.mp h).1
    · rintro rfl
      exact callOrder_nil _

/-- Each round leaves callbacks of a lower depth, and there are rounds enough. -/
theorem threadExit_runs {n : Nat} {listed : List (Addr × ExitCall)}
    (h : Waiting s none [] listed) (hs : InStep s) (hd : ∀ x ∈ listed, x.2.depth ≤ n) :
    ∃ s', threadExit n s = .ok s' ∧ Waiting s' none [] [] ∧
      (s.key ≠ some false → (∀ x ∈ listed, x.2.unfailing = true) →
        s'.called = s.called ++ callOrder n (listed.map Prod.snd)) := by
  induction n generalizing s listed with
  | zero =>
    have hnil : listed = [] := List.eq_nil_iff_forall_not_mem.mpr fun x hx =>
      Nat.not_le_of_lt x.2.depth_pos (hd x hx)
    subst hnil
    exact ⟨s, rfl, h, fun _ _ => (List.append_nil _).symm⟩
  | succ n ih =>
    cases hv : s.value with
    | none =>
      have hnil : listed = [] := by
        have hlist := h.list
        rw [hs.mp hv] at hlist
        cases hlist
        rfl
      subst hnil
      refine ⟨s, by rw [threadExit, hv]; rfl, h, fun _ _ => ?_⟩
      rw [List.map_nil, callOrder_nil, List.append_nil]
    | some v =>
      let s₀ : AtexitThread := { s with value := none }
      have h₀ : Waiting s₀ none [] listed := { h with }
      obtain ⟨s₁, new, hdrain, hwaiting, hcalled, hfrom, hall⟩ := h₀.drains registers
      have hstart : InStep ({ s₀ with list := none }.emit .detached) := by
        simp [InStep, AtexitThread.emit, s₀]
      have hstep : InStep s₁ := inStep_walk hstart hdrain
      have hdeep : ∀ x ∈ new, x.2.depth ≤ n := by
        intro x hx
        obtain ⟨y, hy, hxy⟩ := hfrom x hx
        exact Nat.le_of_lt_succ (Nat.lt_of_lt_of_le (ExitCall.depth_within hxy) (hd y hy))
      obtain ⟨s', hexit, hend, horder⟩ := ih hwaiting hstep hdeep
      refine ⟨s', ?_, hend, fun hk hun => ?_⟩
      · rw [threadExit, hv]
        exact bind_ok.mpr ⟨s₁, hdrain, hexit⟩
      · obtain ⟨hnew, hk⟩ := hall hk hun
        have hunnew : ∀ x ∈ new, x.2.unfailing = true := by
          intro x hx
          obtain ⟨y, hy, hxy⟩ := hfrom x hx
          have hwithin := (ExitCall.unfailing_iff.mp (hun y hy)).2
          exact ExitCall.unfailingAll_iff.mp hwithin _ hxy
        have hsnd : new.map Prod.snd =
            ((listed.map Prod.snd).flatMap ExitCall.within).reverse := by
          rw [List.flatMap_map, ← List.reverse_reverse (new.map Prod.snd), hnew]
          rfl
        rw [horder hk hunnew, hcalled, hsnd, callOrder, List.append_assoc, List.map_map]
        rfl

/-- What a call returns says what has become of it. One that returns -1 leaves the items and the
list as they were. -/
theorem threadAtexit_returns (s : AtexitThread) (c : ExitCall) :
    (threadAtexit s c).1 = 0 ∧
        (threadAtexit s c).2.trace = .registered s.items.next :: s.trace ∨
      (threadAtexit s c).1 = -1 ∧
        (threadAtexit s c).2.trace = .rejected s.items.next :: s.trace ∧
        (threadAtexit s c).2.list = s.list ∧ (threadAtexit s c).2.items.heap = s.items.heap := by
  have hturn := threadAtexit_turns s c
  generalize threadAtexit s c = r at hturn
  cases hturn with
  | accepts heap next list trace => exact .inl ⟨rfl, trace⟩
  | rejects heap next list trace => exact .inr ⟨rfl, trace, list, heap⟩

theorem thread_runs (rounds : Nat) (key : Option Bool) {program : List ExitCall}
    (hd : ExitCall.depthAll program ≤ rounds) :
    ∃ s, thread rounds key program = .ok s ∧ Waiting s none [] [] ∧
      (key ≠ some false → ExitCall.unfailingAll program = true →
        s.called = callOrder rounds program.reverse) := by
  obtain ⟨new, hwaiting, hsub, hall⟩ := (waiting_initial key).performs registers program
  rw [List.append_nil] at hwaiting
  have hmem : ∀ x ∈ new, x.2 ∈ program := fun x hx =>
    hsub.subset (List.mem_reverse.mpr (List.mem_map_of_mem hx))
  have hstep : InStep ((AtexitThread.initial key).performs threadAtexit program) :=
    inStep_performs (iff_of_true rfl rfl) program
  obtain ⟨s, hexit, hend, horder⟩ := threadExit_runs hwaiting hstep fun x hx =>
    ExitCall.depthAll_le.mp hd _ (hmem x hx)
  refine ⟨s, hexit, hend, fun hk hun => ?_⟩
  obtain ⟨hnew, hk'⟩ := hall hk hun
  rw [horder hk' fun x hx => ExitCall.unfailingAll_iff.mp hun _ (hmem x hx),
    (performs_aside registers program).called, ← hnew, List.reverse_reverse]
  rfl

end Pthread

/-- Each callback whose registration has returned 0 is run once by the end of its thread, within
each round the last registered first. A registration that returns -1 leaves no callback to be run,
and the list as it was. -/
theorem exit_callbacks_run_once (rounds : Nat) (key : Option Bool) {program : List ExitCall}
    (hd : ExitCall.depthAll program ≤ rounds) :
    (∃ s, Pthread.thread rounds key program = .ok s ∧
      s.runs.Perm s.registrations ∧ s.registrations.Nodup ∧ (∀ a ∈ s.rejections, a ∉ s.runs) ∧
      ∀ r ∈ s.rounds, r.reverse.Sublist s.registrations) ∧
    ∀ s c,
      (Pthread.threadAtexit s c).1 = 0 ∧
          (Pthread.threadAtexit s c).2.trace = .registered s.items.next :: s.trace ∨
        (Pthread.threadAtexit s c).1 = -1 ∧
          (Pthread.threadAtexit s c).2.trace = .rejected s.items.next :: s.trace ∧
          (Pthread.threadAtexit s c).2.list = s.list ∧
          (Pthread.threadAtexit s c).2.items.heap = s.items.heap := by
  refine ⟨?_, Pthread.threadAtexit_returns⟩
  obtain ⟨s, hs, hend, -⟩ := Pthread.thread_runs rounds key hd
  exact ⟨s, hs, hend.over⟩

/-- Three registrations, of which the second fails. The callback of the first makes another, whose
callback makes one more. -/
def nestedProgram : List ExitCall :=
  [.mk 1 1 {} [.mk 2 2 {} [.mk 3 3 {} []]], .mk 4 4 { setSpecific := false } [], .mk 5 5 {} []]

theorem exit_callbacks_run_once_nested :
    ((∃ s, Pthread.thread 4 none nestedProgram = .ok s ∧
      s.runs.Perm s.registrations ∧ s.registrations.Nodup ∧ (∀ a ∈ s.rejections, a ∉ s.runs) ∧
      ∀ r ∈ s.rounds, r.reverse.Sublist s.registrations) ∧
    ∀ s c,
      (Pthread.threadAtexit s c).1 = 0 ∧
          (Pthread.threadAtexit s c).2.trace = .registered s.items.next :: s.trace ∨
        (Pthread.threadAtexit s c).1 = -1 ∧
          (Pthread.threadAtexit s c).2.trace = .rejected s.items.next :: s.trace ∧
          (Pthread.threadAtexit s c).2.list = s.list ∧
          (Pthread.threadAtexit s c).2.items.heap = s.items.heap) ∧
    (Pthread.thread 4 none nestedProgram).map AtexitThread.rounds = .ok [[4], [3], [2, 0]] :=
  ⟨exit_callbacks_run_once 4 none (by decide), rfl⟩

namespace Msvc

theorem registers : Registers threadAtexit where
  turns := threadAtexit_turns
  accepts s c hk henv := by
    simpa [threadAtexit, henv, AtexitThread.emit] using hk

theorem thread_runs {program : List ExitCall} (hun : ExitCall.unfailingAll program = true) :
    ∃ s, thread program = .ok s ∧ s.called = program.reverse.map ExitCall.target := by
  obtain ⟨new, hwaiting, -, hall⟩ := (waiting_initial none).performs registers program
  rw [List.append_nil] at hwaiting
  obtain ⟨s, -, hdrain, -, hcalled, -, -⟩ := hwaiting.drains registers
  refine ⟨s, hdrain, ?_⟩
  rw [hcalled, (performs_aside registers program).called, ← (hall (by simp [AtexitThread.initial]) hun).1,
    List.reverse_reverse, List.map_map]
  rfl

end Msvc

/-- A callback that is registered while the list is being run is called at the end of the thread
on the pthread-key path only. -/
theorem fallbacks_agree_iff (rounds : Nat) {key : Option Bool} {program : List ExitCall}
    (hd : ExitCall.depthAll program ≤ rounds) (hk : key ≠ some false)
    (hun : ExitCall.unfailingAll program = true) :
    ∃ s s', Pthread.thread rounds key program = .ok s ∧ Msvc.thread program = .ok s' ∧
      (s'.called = s.called ↔ ∀ c ∈ program, c.within = []) := by
  obtain ⟨s, hs, -, hcalled⟩ := Pthread.thread_runs rounds key hd
  obtain ⟨s', hs', hcalled'⟩ := Msvc.thread_runs hun
  refine ⟨s, s', hs, hs', ?_⟩
  rw [hcalled hk hun, hcalled']
  cases rounds with
  | zero =>
    have hnil : program = [] := List.eq_nil_iff_forall_not_mem.mpr fun c hc =>
      Nat.not_le_of_lt c.depth_pos (ExitCall.depthAll_le.mp hd c hc)
    simp [hnil, Pthread.callOrder]
  | succ n =>
    have hdeep : ∀ d ∈ (program.reverse.flatMap ExitCall.within).reverse, d.depth ≤ n := by
      intro d hd'
      obtain ⟨c, hc, hwithin⟩ := List.mem_flatMap.mp (List.mem_reverse.mp hd')
      have hdepth := ExitCall.depthAll_le.mp hd c (List.mem_reverse.mp hc)
      exact Nat.le_of_lt_succ (Nat.lt_of_lt_of_le (ExitCall.depth_within hwithin) hdepth)
    rw [Pthread.callOrder, List.self_eq_append_right, Pthread.callOrder_eq_nil hdeep]
    simp [List.flatMap_eq_nil_iff]

/-- A callback that registers another. -/
def reentrantProgram : List ExitCall := [.mk 1 1 {} [.mk 2 2 {} []]]

theorem fallbacks_agree_iff_reentrant :
    ∃ s s', Pthread.thread 4 none reentrantProgram = .ok s ∧
      Msvc.thread reentrantProgram = .ok s' ∧
      (s'.called = s.called ↔ ∀ c ∈ reentrantProgram, c.within = []) :=
  fallbacks_agree_iff 4 (by decide) (by decide) (by decide)

theorem drain_registration_dropped :
    ExitCall.depthAll reentrantProgram ≤ 4 ∧ ExitCall.unfailingAll reentrantProgram = true ∧
      (Pthread.thread 4 none reentrantProgram).map AtexitThread.called = .ok [(1, 1), (2, 2)] ∧
      (Msvc.thread reentrantProgram).map AtexitThread.called = .ok [(1, 1)] :=
  ⟨by decide, by decide, rfl, rfl⟩

end Wg14Signals
