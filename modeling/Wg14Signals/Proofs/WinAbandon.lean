import Wg14Signals.Proofs.Informing
import Wg14Signals.WinAbandon

namespace Wg14Signals
open Lib

section

variable {g : Global} {rsi : WinSiginfo} {item current : Addr} {k : Container} {nd : Node}

/-- What is given back can be taken again. -/
theorem shift_back (hs : rsi.internalSighandler = some item)
    (hg : rsi.internalGlobalDecider = some current) (hk : g.containers item = some k)
    (hn : g.nodes current = some nd) :
    ∃ g', shiftReferences g rsi (-1) = .ok g' ∧ shiftReferences g' rsi 1 = .ok g := by
  let k' : Container := { k with lifetimeRefcount := k.lifetimeRefcount + -1 }
  let nd' : Node := { nd with refcount := nd.refcount + -1 }
  let g₁ := g.setContainer item k'
  let g' := g₁.setNode current (some nd')
  have hk' : g'.readContainer item = .ok k' := Heap.read_some (Heap.set_self ..)
  have hn' : g'.readNode (some current) = .ok nd' := Heap.read_some (Heap.set_self ..)
  refine ⟨g', ?_, ?_⟩
  · simp only [shiftReferences, hs, hg, shiftLifetime, shiftRefcount]
    refine bind_ok.mpr ⟨g₁, bind_ok.mpr ⟨k, Heap.read_some hk, rfl⟩, ?_⟩
    exact bind_ok.mpr ⟨nd, Heap.read_some hn, rfl⟩
  · simp only [shiftReferences, hs, hg, shiftLifetime, shiftRefcount]
    refine bind_ok.mpr ⟨_, bind_ok.mpr ⟨k', hk', rfl⟩, ?_⟩
    refine bind_ok.mpr ⟨nd', hn', ?_⟩
    simp only [g', g₁, k', nd', Global.setContainer, Global.setContainers, Global.setNode,
      Global.setNodes, pure_ok, Int.neg_add_cancel_right]
    rw [set_back hk, set_back hn]

theorem shift_nothing (hs : rsi.internalSighandler = none)
    (hg : rsi.internalGlobalDecider = none) (d : Int) : shiftReferences g rsi d = .ok g := by
  simp only [shiftReferences, hs, hg, shiftLifetime, shiftRefcount]
  rfl

end

section

variable {s : WinState} {r r' : WinState × WinSiginfo} {op : AbandonCall} {ops : List AbandonCall}

/-- What is asked of the rest of the calls. -/
theorem takenBack_cons : TakenBack s r (op :: ops) ↔
    (r.2.internalDeciderIsAbandoned = false → r.1.tss = s.tss ∧ r.1.g = s.g) ∧
      ∃ r', op.run r = .ok r' ∧ TakenBack s r' ops := by
  constructor
  · intro h
    obtain ⟨_, hnil, hsame⟩ := h [] List.nil_prefix
    obtain rfl := pure_ok.mp hnil
    obtain ⟨r₁, hone, -⟩ := h [op] (List.prefix_cons_iff.mpr (.inr ⟨[], rfl, List.nil_prefix⟩))
    obtain ⟨r', hrun, -⟩ := bind_ok.mp hone
    refine ⟨hsame, r', hrun, fun pre hpre => ?_⟩
    obtain ⟨r₂, hr₂, hend⟩ := h (op :: pre) (List.prefix_cons_iff.mpr (.inr ⟨pre, rfl, hpre⟩))
    obtain ⟨r'', hrun', hr₂⟩ := bind_ok.mp hr₂
    obtain rfl := Except.ok.inj (hrun.symm.trans hrun')
    exact ⟨r₂, hr₂, hend⟩
  · rintro ⟨hsame, r', hrun, h⟩ pre hpre
    rcases List.prefix_cons_iff.mp hpre with rfl | ⟨pre', rfl, hpre'⟩
    · exact ⟨r, rfl, hsame⟩
    · obtain ⟨r₂, hr₂, hend⟩ := h pre' hpre'
      exact ⟨r₂, bind_ok.mpr ⟨r', hrun, hr₂⟩, hend⟩

theorem takenBack_nil : TakenBack s r [] ↔
    (r.2.internalDeciderIsAbandoned = false → r.1.tss = s.tss ∧ r.1.g = s.g) := by
  constructor
  · intro h
    obtain ⟨_, hnil, hsame⟩ := h [] List.nil_prefix
    obtain rfl := pure_ok.mp hnil
    exact hsame
  · intro hsame pre hpre
    obtain rfl := List.prefix_nil.mp hpre
    exact ⟨r, rfl, hsame⟩

theorem abandon_again (h : r.2.internalDeciderIsAbandoned = true) :
    AbandonCall.run r .abandon = .ok r := if_pos h

theorem resume_again (h : r.2.internalDeciderIsAbandoned = false) :
    AbandonCall.run r .resume = .ok r := if_neg (by simp [h])

end

/-- The pointers to both chains, where they link these raises. -/
def heads (chain : List Addr) : WinTss := { front := chain.head?, initiated := chain.head? }

/-- The `rsi`, once both chains have been popped and it says so. -/
def WinSiginfo.marked (rsi : WinSiginfo) (chain : List Addr) (abandoned : Bool) : WinSiginfo :=
  { rsi with
    internalLocalDecider := chain.head?
    internalWinState := chain.head?
    internalDeciderIsAbandoned := abandoned }

/-- The raise, and in both chains those outside of it. -/
def WinState.LinksTo (s : WinState) (r : Addr) (rest : List Addr) : Prop :=
  ∃ l, s.raises r = some l ∧ l.prev = rest.head? ∧ l.winPrev = rest.head?

section

variable {s : WinState} {rsi : WinSiginfo} {chain rest : List Addr} {r : Addr} {p : Option Addr}

theorem popLocal_links (h : s.LinksTo r rest) (i : Option Addr) :
    s.popLocal ⟨some r, i⟩ (some r) = .ok ⟨rest.head?, i⟩ := by
  obtain ⟨l, hl, hp, -⟩ := h
  refine (if_neg (by simp)).trans (bind_ok.mpr ⟨l, Heap.read_some hl, ?_⟩)
  rw [hp]
  rfl

theorem popInitiated_links (h : s.LinksTo r rest) (f : Option Addr) (rsi : WinSiginfo) :
    s.popInitiated ⟨f, some r⟩ rsi =
      .ok (⟨f, rest.head?⟩, { rsi with internalWinState := some r }) := by
  obtain ⟨l, hl, -, hw⟩ := h
  refine bind_ok.mpr ⟨l, Heap.read_some hl, ?_⟩
  rw [hw]
  rfl

theorem popTop_links (h : s.LinksTo r rest) (i : Option Addr) (rsi : WinSiginfo) :
    s.popTop ⟨some r, i⟩ rsi =
      .ok (⟨rest.head?, i⟩, { rsi with internalLocalDecider := some r }) := by
  obtain ⟨l, hl, hp, -⟩ := h
  refine bind_ok.mpr ⟨l, Heap.read_some hl, ?_⟩
  rw [hp]
  rfl

theorem unpopInitiated_links (h : s.LinksTo r rest) (f : Option Addr) :
    s.unpopInitiated ⟨f, rest.head?⟩ (some r) = .ok ⟨f, some r⟩ := by
  obtain ⟨l, hl, -, hw⟩ := h
  exact bind_ok.mpr ⟨l, Heap.read_some hl, if_neg (by simp [hw])⟩

theorem unpopLocal_links (h : s.LinksTo r rest) (i : Option Addr) :
    s.unpopLocal ⟨rest.head?, i⟩ (some r) = .ok ⟨some r, i⟩ := by
  obtain ⟨l, hl, hp, -⟩ := h
  exact bind_ok.mpr ⟨l, Heap.read_some hl, if_neg (by simp [hp])⟩

theorem links_of_paths (hf : Path s.raises WinRaise.prev p (r :: rest))
    (hw : Path s.raises WinRaise.winPrev p (r :: rest)) : s.LinksTo r rest := by
  cases hf with
  | cons hl hf =>
    cases hw with
    | cons hl' hw =>
      obtain rfl := Option.some.inj (hl.symm.trans hl')
      exact ⟨_, hl, hf.start, hw.start⟩

theorem links_head {chain : List Addr} (hf : Path s.raises WinRaise.prev chain.head? chain)
    (hw : Path s.raises WinRaise.winPrev chain.head? chain) (r : Addr) (rest : List Addr)
    (hc : chain = r :: rest) : s.LinksTo r rest := by
  subst hc
  exact links_of_paths hf hw

theorem links_outside {r₁ : Addr} (hf : Path s.raises WinRaise.prev p (r :: r₁ :: rest))
    (hw : Path s.raises WinRaise.winPrev p (r :: r₁ :: rest)) : s.LinksTo r₁ rest := by
  cases hf with
  | cons _ hf =>
    cases hw with
    | cons _ hw =>
      rw [hf.start] at hf
      rw [hw.start] at hw
      exact links_of_paths hf hw

theorem two_of_tail (h : chain.tail ≠ []) : ∃ r r₁ rest, chain = r :: r₁ :: rest := by
  obtain ⟨r₁, rest, htail⟩ := List.exists_cons_of_ne_nil h
  cases chain with
  | nil => cases htail
  | cons r rest' => exact ⟨r, r₁, rest, congrArg (r :: ·) htail⟩

/-- The references the raise of a decider holds: none for that of a guard, and two for that of a
global node. -/
inductive HoldsFor (s : WinState) (rsi : WinSiginfo) : Bool → Prop where
  | frame (hs : rsi.internalSighandler = none) (hg : rsi.internalGlobalDecider = none) :
      HoldsFor s rsi false
  | global (item current : Addr) (k : Container) (nd : Node)
      (hs : rsi.internalSighandler = some item) (hg : rsi.internalGlobalDecider = some current)
      (hk : s.g.containers item = some k) (hn : s.g.nodes current = some nd) : HoldsFor s rsi true

theorem HoldsFor.marked {global b : Bool} (h : HoldsFor s rsi global) :
    HoldsFor s (rsi.marked chain b) global := by
  cases h with
  | frame hs hg => exact .frame hs hg
  | global item current k nd hs hg hk hn => exact .global item current k nd hs hg hk hn

theorem marked_eq (rsi : WinSiginfo) {b : Bool} (hl : rsi.internalLocalDecider = chain.head?)
    (hw : rsi.internalWinState = chain.head?) :
    { rsi with internalDeciderIsAbandoned := b } = rsi.marked chain b := by
  rw [WinSiginfo.marked, hl, hw]

/-- Both chains are popped once, unless a global decider has abandoned before. -/
theorem abandon_unspent {global : Bool} (ht : s.tss = some (heads chain))
    (hlinks : ∀ r rest, chain = r :: rest → s.LinksTo r rest) (hh : HoldsFor s rsi global)
    (hl : global = true ∧ rsi.internalLocalDecider = none ∨
      rsi.internalLocalDecider = chain.head? ∧ (global = false ∨ chain.tail = []))
    (hw : rsi.internalWinState = none ∨ rsi.internalWinState = chain.head?)
    (ha : rsi.internalDeciderIsAbandoned = false) :
    ∃ g', winSigdeciderAbandon s rsi =
        .ok ((s.setG g').setTss (heads chain.tail), rsi.marked chain true) ∧
      shiftReferences g' rsi 1 = .ok s.g := by
  have enters : ∀ {x y : Except ThreadFault (WinState × WinSiginfo)}, y = x →
      (if rsi.internalDeciderIsAbandoned then pure (s, rsi) else y) = x := fun h =>
    (if_neg (by simp [ha])).trans h
  cases hh with
  | frame hs hg =>
    have hl : rsi.internalLocalDecider = chain.head? := by simpa using hl
    refine ⟨s.g, enters (bind_ok.mpr ⟨_, winTss_ok.mpr ht, ?_⟩), shift_nothing hs hg 1⟩
    cases chain with
    | nil =>
      rw [hl]
      refine bind_ok.mpr ⟨heads [], rfl, bind_ok.mpr ⟨(heads [], rsi), rfl, ?_⟩⟩
      refine (if_neg (by simp [hs, hg])).trans ?_
      exact congrArg (fun rsi => Except.ok (_, rsi)) (marked_eq rsi hl (hw.elim id id))
    | cons r rest =>
      have hlink := hlinks r rest rfl
      rw [hl]
      refine bind_ok.mpr ⟨_, popLocal_links hlink _, ?_⟩
      refine bind_ok.mpr ⟨_, popInitiated_links hlink _ rsi, ?_⟩
      refine (if_neg (by simp [hs, hg])).trans ?_
      exact congrArg (fun rsi => Except.ok (_, rsi))
        (marked_eq { rsi with internalWinState := some r } hl rfl)
  | global item current k nd hs hg hk hn =>
    have hl : rsi.internalLocalDecider = none ∨
        rsi.internalLocalDecider = chain.head? ∧ chain.tail = [] := by simpa using hl
    obtain ⟨g', hdrop, htake⟩ := shift_back hs hg hk hn
    refine ⟨g', enters (bind_ok.mpr ⟨_, winTss_ok.mpr ht, ?_⟩), htake⟩
    cases chain with
    | nil =>
      have hl : rsi.internalLocalDecider = ([] : List Addr).head? := hl.elim id And.left
      rw [hl]
      refine bind_ok.mpr ⟨heads [], rfl, bind_ok.mpr ⟨(heads [], rsi), rfl, ?_⟩⟩
      refine (if_pos (by simp [hs])).trans ?_
      refine bind_ok.mpr ⟨g', ofLib_ok.mpr hdrop, bind_ok.mpr ⟨(heads [], rsi), rfl, ?_⟩⟩
      exact congrArg (fun rsi => Except.ok (_, rsi)) (marked_eq rsi hl (hw.elim id id))
    | cons r rest =>
      have hlink := hlinks r rest rfl
      rcases hl with hl | ⟨hl, hrest⟩
      · rw [hl]
        refine bind_ok.mpr ⟨heads (r :: rest), rfl, ?_⟩
        refine bind_ok.mpr ⟨_, popInitiated_links hlink _ rsi, ?_⟩
        refine (if_pos (by simp [hs])).trans ?_
        refine bind_ok.mpr ⟨g', ofLib_ok.mpr hdrop, ?_⟩
        exact bind_ok.mpr ⟨_, popTop_links hlink _ _, rfl⟩
      · obtain rfl : rest = [] := hrest
        rw [hl]
        refine bind_ok.mpr ⟨_, popLocal_links hlink _, ?_⟩
        refine bind_ok.mpr ⟨_, popInitiated_links hlink _ rsi, ?_⟩
        refine (if_pos (by simp [hs])).trans ?_
        refine bind_ok.mpr ⟨g', ofLib_ok.mpr hdrop, bind_ok.mpr ⟨_, rfl, ?_⟩⟩
        exact congrArg (fun rsi => Except.ok (_, rsi))
          (marked_eq { rsi with internalWinState := some r } hl rfl)

/-- And put back. -/
theorem resume_marked {g' : Global} (ht : s.tss = some (heads chain))
    (hlinks : ∀ r rest, chain = r :: rest → s.LinksTo r rest)
    (hg : shiftReferences g' rsi 1 = .ok s.g) :
    winSigdeciderAbandonResume ((s.setG g').setTss (heads chain.tail)) (rsi.marked chain true) =
      .ok (s, rsi.marked chain false) := by
  have hback : ((s.setG s.g).setTss (heads chain)) = s := by
    cases s
    simp_all [WinState.setG, WinState.setTss]
  refine (if_pos rfl).trans (bind_ok.mpr ⟨heads chain.tail, winTss_ok.mpr rfl, ?_⟩)
  cases chain with
  | nil =>
    refine bind_ok.mpr ⟨heads [], rfl, bind_ok.mpr ⟨heads [], rfl, ?_⟩⟩
    refine bind_ok.mpr ⟨s.g, ofLib_ok.mpr hg, ?_⟩
    exact congrArg (fun s => Except.ok (s, _)) hback
  | cons r rest =>
    have hlink := hlinks r rest rfl
    refine bind_ok.mpr ⟨_, unpopInitiated_links hlink _, ?_⟩
    refine bind_ok.mpr ⟨_, unpopLocal_links hlink _, ?_⟩
    refine bind_ok.mpr ⟨s.g, ofLib_ok.mpr hg, ?_⟩
    exact congrArg (fun s => Except.ok (s, _)) hback

/-- A global decider abandons again: the raise outside of its own goes too. -/
theorem abandon_spent {r r₁ : Addr} (ht : s.tss = some (heads (r :: r₁ :: rest)))
    (hlink : s.LinksTo r (r₁ :: rest)) (hlink₁ : s.LinksTo r₁ rest) {item current : Addr}
    {k : Container} {nd : Node} (hs : rsi.internalSighandler = some item)
    (hg : rsi.internalGlobalDecider = some current) (hk : s.g.containers item = some k)
    (hn : s.g.nodes current = some nd) (hl : rsi.internalLocalDecider = some r)
    (ha : rsi.internalDeciderIsAbandoned = false) :
    ∃ g', winSigdeciderAbandon s rsi =
        .ok ((s.setG g').setTss { front := rest.head?, initiated := some r₁ },
          { rsi with
            internalLocalDecider := some r₁
            internalWinState := some r
            internalDeciderIsAbandoned := true }) ∧
      shiftReferences g' rsi 1 = .ok s.g := by
  obtain ⟨g', hdrop, htake⟩ := shift_back hs hg hk hn
  refine ⟨g', (if_neg (by simp [ha])).trans (bind_ok.mpr ⟨_, winTss_ok.mpr ht, ?_⟩), htake⟩
  rw [hl]
  refine bind_ok.mpr ⟨_, popLocal_links hlink _, ?_⟩
  refine bind_ok.mpr ⟨_, popInitiated_links hlink _ rsi, ?_⟩
  refine (if_pos (by simp [hs])).trans ?_
  refine bind_ok.mpr ⟨g', ofLib_ok.mpr hdrop, ?_⟩
  exact bind_ok.mpr ⟨_, popTop_links hlink₁ _ _, rfl⟩

/-- Taken back, its own raise stays away. -/
theorem resume_spent {g' : Global} {r r₁ : Addr} (hlink : s.LinksTo r (r₁ :: rest))
    (hlink₁ : s.LinksTo r₁ rest) (hg : shiftReferences g' rsi 1 = .ok s.g) :
    ∃ r', winSigdeciderAbandonResume
        ((s.setG g').setTss { front := rest.head?, initiated := some r₁ })
        { rsi with
          internalLocalDecider := some r₁
          internalWinState := some r
          internalDeciderIsAbandoned := true } = .ok r' ∧
      r'.2.internalDeciderIsAbandoned = false ∧
      r'.1.tss = some { front := some r₁, initiated := some r } := by
  let s' := (s.setG g').setTss { front := rest.head?, initiated := some r₁ }
  let rsi' : WinSiginfo := { rsi with
    internalLocalDecider := some r₁
    internalWinState := some r
    internalDeciderIsAbandoned := false }
  refine ⟨((s'.setG s.g).setTss { front := some r₁, initiated := some r }, rsi'), ?_, rfl, rfl⟩
  refine (if_pos rfl).trans (bind_ok.mpr ⟨_, winTss_ok.mpr rfl, ?_⟩)
  refine bind_ok.mpr ⟨_, unpopInitiated_links hlink _, ?_⟩
  refine bind_ok.mpr ⟨_, unpopLocal_links hlink₁ _, ?_⟩
  exact bind_ok.mpr ⟨s.g, ofLib_ok.mpr hg, rfl⟩

end

section

variable {s : WinState} {chain rest : List Addr} {rsi : WinSiginfo} {r r₁ : Addr}
  {x : WinState × WinSiginfo} {global : Bool} {ops : List AbandonCall}

theorem TakenBack.now (h : TakenBack s x ops) (ha : x.2.internalDeciderIsAbandoned = false) :
    x.1.tss = s.tss ∧ x.1.g = s.g := by
  obtain ⟨_, hnil, hsame⟩ := h [] List.nil_prefix
  obtain rfl := pure_ok.mp hnil
  exact hsame ha

/-- A decider that stays abandoned has nothing to take back. -/
theorem takenBack_parked (ha : x.2.internalDeciderIsAbandoned = true)
    (hr : rounds true ops = 0) : TakenBack s x ops := by
  induction ops with
  | nil => exact takenBack_nil.mpr fun h => by simp [ha] at h
  | cons op ops ih =>
    cases op with
    | abandon =>
      exact takenBack_cons.mpr ⟨fun h => by simp [ha] at h, x, abandon_again ha, ih hr⟩
    | resume => simp [rounds] at hr

theorem takenBack_idle (ha : rsi.internalDeciderIsAbandoned = false)
    (hops : ∀ op ∈ ops, op = .resume) : TakenBack s (s, rsi) ops := by
  induction ops with
  | nil => exact takenBack_nil.mpr fun _ => ⟨rfl, rfl⟩
  | cons op ops ih =>
    obtain rfl := hops op List.mem_cons_self
    exact takenBack_cons.mpr ⟨fun _ => ⟨rfl, rfl⟩, _, resume_again ha,
      ih fun op h => hops op (List.mem_cons_of_mem _ h)⟩

/-- Few enough rounds are taken back, from a decider that is ready and from one that is abandoned. -/
theorem takenBack_enough (ht : s.tss = some (heads chain))
    (hf : Path s.raises WinRaise.prev chain.head? chain)
    (hi : Path s.raises WinRaise.winPrev chain.head? chain) (rsi : WinSiginfo)
    (hh : HoldsFor s rsi global)
    (hw : rsi.internalWinState = none ∨ rsi.internalWinState = chain.head?) :
    (rsi.internalDeciderIsAbandoned = false →
      (global = true ∧ rsi.internalLocalDecider = none ∨
        rsi.internalLocalDecider = chain.head?) →
      (global = false ∨ chain.tail = [] ∨
        rounds false ops + (if rsi.internalLocalDecider.isSome then 1 else 0) ≤ 1) →
      TakenBack s (s, rsi) ops) ∧
    ∀ g', shiftReferences g' rsi 1 = .ok s.g →
      (global = false ∨ chain.tail = [] ∨ rounds true ops ≤ 1) →
      TakenBack s ((s.setG g').setTss (heads chain.tail), rsi.marked chain true) ops := by
  have hlinks := links_head hf hi
  induction ops generalizing rsi with
  | nil => exact ⟨fun _ _ _ => takenBack_nil.mpr fun _ => ⟨rfl, rfl⟩,
      fun _ _ _ => takenBack_nil.mpr fun h => by cases h⟩
  | cons op ops ih =>
    refine ⟨fun ha hl hb => takenBack_cons.mpr ⟨fun _ => ⟨rfl, rfl⟩, ?_⟩, fun g' hg hb =>
      takenBack_cons.mpr ⟨fun h => (by cases h), ?_⟩⟩
    · cases op with
      | resume => exact ⟨_, resume_again ha, (ih rsi hh hw).1 ha hl hb⟩
      | abandon =>
        by_cases hfirst : global = true ∧ rsi.internalLocalDecider = none ∨
            rsi.internalLocalDecider = chain.head? ∧ (global = false ∨ chain.tail = [])
        · obtain ⟨g', hrun, hg⟩ := abandon_unspent ht hlinks hh hfirst hw ha
          refine ⟨_, hrun, (ih rsi hh hw).2 g' hg ?_⟩
          exact hb.imp_right (Or.imp_right fun h => Nat.le_trans (Nat.le_add_right _ _) h)
        · -- This call pops two raises. No call of resume follows, which would put back one.
          obtain ⟨hunset, hhead⟩ := not_or.mp hfirst
          have hset := hl.resolve_left hunset
          obtain ⟨hglobal, htail⟩ := not_or.mp fun h => hhead ⟨hset, h⟩
          have hnone := (hb.resolve_left hglobal).resolve_left htail
          obtain ⟨r, r₁, rest, rfl⟩ := two_of_tail htail
          rw [hset] at hnone
          have hnone : rounds true ops = 0 := Nat.le_zero.mp (Nat.le_of_succ_le_succ hnone)
          cases hh with
          | frame => exact absurd rfl hglobal
          | global item current k nd hs hg hk hn =>
            obtain ⟨g', hrun, -⟩ := abandon_spent ht (hlinks r _ rfl) (links_outside hf hi)
              hs hg hk hn hset ha
            exact ⟨_, hrun, takenBack_parked rfl hnone⟩
    · cases op with
      | abandon => exact ⟨_, abandon_again rfl, (ih rsi hh hw).2 g' hg hb⟩
      | resume =>
        refine ⟨_, resume_marked ht hlinks hg, (ih _ hh.marked (.inr rfl)).1 rfl (.inr rfl) ?_⟩
        refine hb.imp_right (Or.imp_right fun h => ?_)
        have hnone : rounds false ops = 0 := Nat.le_zero.mp (Nat.le_of_succ_le_succ h)
        rw [hnone]
        split <;> decide

/-- Without any state of the thread there is none to pop from. -/
theorem takenBack_unset (ht : s.tss = none) (ha : rsi.internalDeciderIsAbandoned = false)
    (h : TakenBack s (s, rsi) ops) : ∀ op ∈ ops, op = .resume := by
  induction ops with
  | nil => simp
  | cons op ops ih =>
    obtain ⟨-, r', hrun, hrest⟩ := takenBack_cons.mp h
    cases op with
    | abandon =>
      obtain ⟨tss, htss, -⟩ := bind_ok.mp ((if_neg (by simp [ha])).symm.trans hrun)
      rw [winTss_ok.mp htss] at ht
      cases ht
    | resume =>
      obtain rfl := Except.ok.inj ((resume_again ha).symm.trans hrun)
      intro op hop
      rcases List.mem_cons.mp hop with rfl | hop
      · rfl
      · exact ih hrest op hop

/-- The wrong raise would be put back. -/
theorem takenBack_astray {g' : Global} (ht : s.tss = some (heads (r :: r₁ :: rest)))
    (hf : Path s.raises WinRaise.prev (some r) (r :: r₁ :: rest))
    (hi : Path s.raises WinRaise.winPrev (some r) (r :: r₁ :: rest))
    (hg : shiftReferences g' rsi 1 = .ok s.g)
    (h : TakenBack s ((s.setG g').setTss { front := rest.head?, initiated := some r₁ },
      { rsi with
        internalLocalDecider := some r₁
        internalWinState := some r
        internalDeciderIsAbandoned := true }) ops) : rounds true ops = 0 := by
  induction ops with
  | nil => rfl
  | cons op ops ih =>
    obtain ⟨-, r', hrun, hrest⟩ := takenBack_cons.mp h
    cases op with
    | abandon =>
      obtain rfl := Except.ok.inj ((abandon_again rfl).symm.trans hrun)
      exact ih hrest
    | resume =>
      obtain ⟨r'', hrun', hready, htss⟩ :=
        resume_spent (links_of_paths hf hi) (links_outside hf hi) hg
      obtain rfl := Except.ok.inj (hrun'.symm.trans hrun)
      have hsame := htss.symm.trans ((hrest.now hready).1.trans ht)
      simp only [heads, List.head?_cons, Option.some.injEq, WinTss.mk.injEq] at hsame
      exact absurd hsame.1.symm hf.moves_on

/-- A global decider that has abandoned before is not to take back another time. -/
theorem takenBack_spent (ht : s.tss = some (heads (r :: r₁ :: rest)))
    (hf : Path s.raises WinRaise.prev (some r) (r :: r₁ :: rest))
    (hi : Path s.raises WinRaise.winPrev (some r) (r :: r₁ :: rest))
    (hh : HoldsFor s rsi true) (hl : rsi.internalLocalDecider = some r)
    (ha : rsi.internalDeciderIsAbandoned = false) (h : TakenBack s (s, rsi) ops) :
    rounds false ops = 0 := by
  induction ops with
  | nil => rfl
  | cons op ops ih =>
    obtain ⟨-, r', hrun, hrest⟩ := takenBack_cons.mp h
    cases op with
    | resume =>
      obtain rfl := Except.ok.inj ((resume_again ha).symm.trans hrun)
      exact ih hrest
    | abandon =>
      cases hh with
      | global item current k nd hs hg hk hn =>
        obtain ⟨g', hrun', htake⟩ := abandon_spent ht (links_of_paths hf hi)
          (links_outside hf hi) hs hg hk hn hl ha
        obtain rfl := Except.ok.inj (hrun'.symm.trans hrun)
        exact takenBack_astray ht hf hi htake hrest

theorem takenBack_parted {g' : Global} (ht : s.tss = some (heads (r :: r₁ :: rest)))
    (hf : Path s.raises WinRaise.prev (some r) (r :: r₁ :: rest))
    (hi : Path s.raises WinRaise.winPrev (some r) (r :: r₁ :: rest))
    (hh : HoldsFor s rsi true) (hg : shiftReferences g' rsi 1 = .ok s.g)
    (h : TakenBack s ((s.setG g').setTss (heads (r₁ :: rest)),
      rsi.marked (r :: r₁ :: rest) true) ops) : rounds true ops ≤ 1 := by
  induction ops with
  | nil => exact Nat.zero_le _
  | cons op ops ih =>
    obtain ⟨-, r', hrun, hrest⟩ := takenBack_cons.mp h
    cases op with
    | abandon =>
      obtain rfl := Except.ok.inj ((abandon_again rfl).symm.trans hrun)
      exact ih hrest
    | resume =>
      have hback := resume_marked ht (links_head hf hi) hg
      obtain rfl := Except.ok.inj (hback.symm.trans hrun)
      have hnone : rounds false ops = 0 := takenBack_spent ht hf hi hh.marked rfl rfl hrest
      exact Nat.succ_le_succ (Nat.le_of_eq hnone)

/-- One round is all that a global decider inside of two raises may make. -/
theorem takenBack_once (ht : s.tss = some (heads (r :: r₁ :: rest)))
    (hf : Path s.raises WinRaise.prev (some r) (r :: r₁ :: rest))
    (hi : Path s.raises WinRaise.winPrev (some r) (r :: r₁ :: rest))
    (hh : HoldsFor s rsi true) (hl : rsi.internalLocalDecider = none)
    (hw : rsi.internalWinState = none ∨ rsi.internalWinState = some r)
    (ha : rsi.internalDeciderIsAbandoned = false) (h : TakenBack s (s, rsi) ops) :
    rounds false ops ≤ 1 := by
  induction ops with
  | nil => exact Nat.zero_le _
  | cons op ops ih =>
    obtain ⟨-, r', hrun, hrest⟩ := takenBack_cons.mp h
    cases op with
    | resume =>
      obtain rfl := Except.ok.inj ((resume_again ha).symm.trans hrun)
      exact ih hrest
    | abandon =>
      obtain ⟨g', hrun', hg⟩ := abandon_unspent ht (links_head hf hi) hh (.inl ⟨rfl, hl⟩) hw ha
      obtain rfl := Except.ok.inj (hrun'.symm.trans hrun)
      exact takenBack_parted ht hf hi hh hg hrest

end

section

variable {w : WinPlatform} {s s' : WinState} {act : WinAction} {x : Exception} {who : Consulted}
  {rsi : Siginfo}

/-- Its raise has not been abandoned yet. -/
def Siginfo.Unused (info : Siginfo) : Prop :=
  info.internalLocalDecider = none ∧ info.internalDeciderIsAbandoned = false

def WinState.infosUnused (s : WinState) : Prop := ∀ a info, s.infos a = some info → info.Unused

/-- They may go out of scope, and are not written to. -/
def InfosKept (s s' : WinState) : Prop :=
  ∀ a info, s'.infos a = some info → s.infos a = some info

theorem infosKept_discard {u : WinState} (hu : InfosKept s u) (gone : List WinCall) :
    InfosKept s (u.discard gone) := by
  intro a info ha
  simp only [WinState.discard_infos] at ha
  split at ha
  · cases ha
  · exact hu a info ha

theorem infosKept_drop {u : WinState} (hu : InfosKept s u) (rsi : Addr) :
    InfosKept s (u.dropInfo rsi) := by
  intro a info ha
  simp only [WinState.dropInfo_infos, Heap.set_apply] at ha
  split at ha
  · cases ha
  · exact hu a info ha

theorem infosKept_resumes {u : WinState} {rest : List WinCall} (hu : InfosKept s u)
    (h : Resumes u x rest s') : InfosKept s s' := by
  cases h with
  | fault => exact hu
  | raise r l tss hx hl ht =>
    exact infosKept_discard (u := u.setTss { front := l.prev, initiated := l.winPrev }) hu
      [.dispatch x .continuing]

theorem infosKept_passReturns {u : WinState} {rest : List WinCall} {hook : WinHook}
    {result : Disposition} (hu : InfosKept s u) (h : PassReturns u x rest hook result s') :
    InfosKept s s' := by
  cases h with
  | continues | terminates => exact hu
  | resumes result s' hr => exact infosKept_resumes (u := u.setLast {} u.lastResult) hu hr

theorem infosUnused_set (hi : s.infosUnused) (a : Addr) {info : Siginfo}
    (hinfo : info.Unused) (b : Addr) (given : Siginfo)
    (hb : s.infos.set a (some info) b = some given) : given.Unused := by
  rw [Heap.set_apply] at hb
  split at hb
  · obtain rfl := Option.some.inj hb
    exact hinfo
  · exact hi b given hb

theorem WinState.infosUnused.step (hi : s.infosUnused) (h : WinTurn w s act s') :
    s'.infosUnused := by
  have kept : InfosKept s s' → s'.infosUnused := fun hk a info ha => hi a info (hk a info ha)
  have same : InfosKept s s := fun _ _ h => h
  cases h with
  | elsewhere | quits | guard | raise | fault | skip | exhausted | debugged | ask | decline |
      claim | write => exact hi
  | recover x guard gs todo gone rest tss hgone hc =>
    exact kept (infosKept_discard
      (u := s.setTss { front := gs.tssFrontAtEntry, initiated := gs.winAtEntry }) same
      (.dispatch x (.asking guard todo) :: gone))
  | unsupported hook y rest last s' hh hx hr =>
    exact kept (infosKept_passReturns (u := s.setLast last s.lastResult) same hr)
  | nobody hook y e g last rest s' hh he hn hr =>
    exact kept (infosKept_passReturns
      (u := ((s.setLast last s.lastResult).setG g).declined y.record) same hr)
  | askFirst hook y item current value sa g info last rest hh he hinfo =>
    exact infosUnused_set hi s.nextInfo (hinfo ▸ ⟨rfl, rfl⟩)
  | askNext d hook y item current next a value g old info rest hc hd hold he hinfo =>
    exact infosUnused_set hi a (hinfo ▸ hi a old hold)
  | exhaust d hook y item current a g rest s' hc hd he hr =>
    exact kept (infosKept_passReturns
      (u := ((s.setG g).dropInfo a).declined y.record) (infosKept_drop same a) hr)
  | jump d hook y z pc item current rsi r g tss l gone rest =>
    exact kept (infosKept_discard (u := ((s.setG g).emit (.claimed y (.global current))).setTss
      { front := l.prev, initiated := l.winPrev }) same (gone ++ [WinCall.dispatch z pc]))
  | settle d hook y item current a g rest s' hd hc he hf hr =>
    exact kept (infosKept_passReturns
      (u := (((s.setG g).emit (.claimed y (.global current))).dropInfo a).setLast (.of y.record)
        .continueExecution) (infosKept_drop same a) hr)
  | goesOn y rest s' hc hm hr =>
    exact kept (infosKept_resumes (u := s.setLast {} s.lastResult) same hr)
  | writeGlobal info y hook item current a old rest hc hold =>
    exact infosUnused_set hi a (show Siginfo.Unused { old with toPublicInfo := info } from hi a old hold)
  | ret value guard recovering => exact kept (infosKept_discard same [.sigguarded guard recovering])

/-- What a decider is called with is its own raise's, as long as the container of a global one is
there. -/
theorem WinTurn.called (aside : s.infosUnused) (h : WinTurn w s act s')
    (ht : s'.trace = .asked x who rsi :: s.trace)
    (hk : ∀ item, rsi.internalSighandler = some item → ∃ k, s'.g.containers item = some k) :
    CalledWith s' { rsi with } ∧ rsi.internalDeciderIsAbandoned = false := by
  have heard : ∀ {P : Prop}, Unheard s s' → P := fun hu => (hu.not_called (l := []) ht rfl).elim
  cases h with
  | elsewhere | guard | raise | fault | skip | exhausted | debugged | decline | write |
      writeGlobal => exact heard (.none rfl)
  | quits _ tss e ha he =>
    refine heard (.one rfl ?_)
    cases e <;> first | rfl | cases he
  | ask y guard gs todo rest tss info hc hg hset htss hrsi =>
    cases (List.cons.inj ht).1
    subst hrsi
    exact ⟨.frame tss htss rfl rfl rfl rfl, rfl⟩
  | askFirst hook y item current value sa g info last rest hh he hinfo =>
    cases (List.cons.inj ht).1
    subst hinfo
    obtain ⟨nd, hnd, -⟩ := raiseEnter_value he
    obtain ⟨k, hk⟩ := hk item rfl
    exact ⟨.global item current k nd rfl rfl hk hnd (.inl ⟨rfl, rfl⟩), rfl⟩
  | askNext d hook y item current next a value g old info rest hc hd hold he hinfo =>
    cases (List.cons.inj ht).1
    subst hinfo
    obtain ⟨nd, hnd, -⟩ := raiseLeave_value he
    obtain ⟨k, hk⟩ := hk item rfl
    obtain ⟨hframe, hready⟩ := aside a old hold
    exact ⟨.global item next k nd rfl rfl hk hnd (.inl ⟨hframe, rfl⟩), hready⟩
  | claim => exact heard (.one rfl rfl)
  | recover => cases (List.cons.inj ht).1
  | unsupported hook y rest last s' hh hx hr =>
    exact heard (passReturns_unheard (s := s.setLast last s.lastResult) hr)
  | nobody hook y e g last rest s' hh he hn hr =>
    exact heard (passReturns_unheard
      (s := ((s.setLast last s.lastResult).setG g).declined y.record) hr)
  | exhaust d hook y item current a g rest s' hc hd he hr =>
    exact heard (passReturns_unheard (s := ((s.setG g).dropInfo a).declined y.record) hr)
  | jump => exact heard (.trans (.one rfl rfl) (.one rfl rfl))
  | settle d hook y item current a g rest s' hd hc he hf hr =>
    exact heard (.trans (.one rfl rfl) (passReturns_unheard hr))
  | goesOn y rest s' hc hm hr =>
    exact heard (resumes_unheard (s := s.setLast {} s.lastResult) hr)
  | ret => exact heard (.one rfl rfl)

/-- So is any decider that a run comes to call. -/
theorem winDeciding_asked (w : WinPlatform) (g : Global)
    (hr : Run (winStep w) (fun _ _ => True) (.initial g) s) (h : winStep w s act = .ok s')
    (ht : s'.trace = .asked x who rsi :: s.trace)
    (hk : ∀ item, rsi.internalSighandler = some item → ∃ k, s'.g.containers item = some k) :
    WinDeciding s' s'.inFlight { rsi with } := by
  have aside : s.infosUnused :=
    hr.invariant (I := WinState.infosUnused) (fun _ _ h => by cases h)
      fun _ _ _ hi _ h => hi.step (winStep_turns h)
  have turn := winStep_turns h
  have hch : WinChained s' := ((winChained_initial g).run hr).step turn
  obtain ⟨hfront, hinit⟩ := hch.woven.path
  obtain ⟨hcalled, hready⟩ := turn.called aside ht hk
  exact ⟨hch.front ▸ hfront, hch.initiated ▸ hinit, hcalled, hready⟩

end

section

variable {s : WinState} {chain : List Addr} {rsi : WinSiginfo}

/-- Set up, the thread points to the raises of its chains. -/
theorem WinDeciding.points (hd : WinDeciding s chain rsi) {tss : WinTss} (ht : s.tss = some tss) :
    tss = heads chain := by
  have hfront : tss.front = chain.head? := by simpa [ht] using hd.front.start
  have hinit : tss.initiated = chain.head? := by simpa [ht] using hd.initiated.start
  cases tss
  simp_all [heads]

/-- The decider's raise holds what it is called for. -/
theorem WinDeciding.holds (hd : WinDeciding s chain rsi) (ht : s.tss = some (heads chain)) :
    ∃ global, HoldsFor s rsi global ∧ (rsi.internalGlobalDecider = none ↔ global = false) ∧
      (global = true ∧ rsi.internalLocalDecider = none ∨
        rsi.internalLocalDecider = chain.head?) ∧
      (rsi.internalWinState = none ∨ rsi.internalWinState = chain.head?) := by
  cases hd.called with
  | frame tss ht' hs hg hl hw =>
    obtain rfl := Option.some.inj (ht.symm.trans ht')
    exact ⟨false, .frame hs hg, by simp [hg], .inr hl, .inl hw⟩
  | global item current k nd hs hg hk hn hl =>
    refine ⟨true, .global item current k nd hs hg hk hn, by simp [hg], ?_, ?_⟩
    · exact hl.imp (fun h => ⟨rfl, h.1⟩) fun h => by simpa [ht, heads] using h.1
    · exact hl.imp And.right fun h => by simpa [ht, heads] using h.2

end

/-- A decider that abandons its raise can take that back, and nothing has changed then; again and
again in the decider of a guard, or where no `stdc_raise` is inside of another. Else a global
decider, and those before it in the pass, can do so once. -/
theorem abandon_undone_iff {s : WinState} {chain : List Addr} {rsi : WinSiginfo}
    (hd : WinDeciding s chain rsi) (ops : List AbandonCall) :
    TakenBack s (s, rsi) ops ↔ (∀ op ∈ ops, op = .resume) ∨ s.tss.isSome = true ∧
      (rsi.internalGlobalDecider = none ∨ chain.length ≤ 1 ∨
        rounds false ops + (if rsi.internalLocalDecider.isSome then 1 else 0) ≤ 1) := by
  cases htss : s.tss with
  | none =>
    refine ⟨fun h => .inl (takenBack_unset htss hd.ready h), fun h => ?_⟩
    exact takenBack_idle hd.ready (h.resolve_right (by simp))
  | some tss =>
    have ht := htss.trans (congrArg some (hd.points htss))
    have hf := hd.front
    have hi := hd.initiated
    rw [hd.front.start] at hf
    rw [hd.initiated.start] at hi
    obtain ⟨global, hh, hglobal, hl, hw⟩ := hd.holds ht
    constructor
    · intro h
      refine .inr ⟨rfl, ?_⟩
      by_cases hframe : rsi.internalGlobalDecider = none
      · exact .inl hframe
      by_cases hshort : chain.tail = []
      · exact .inr (.inl (by cases chain <;> simp_all))
      obtain ⟨r, r₁, rest, rfl⟩ := two_of_tail hshort
      obtain rfl : global = true := by simpa using mt hglobal.mpr hframe
      refine .inr (.inr ?_)
      rcases hl with ⟨-, hl⟩ | hl
      · rw [hl]
        exact takenBack_once ht hf hi hh hl hw hd.ready h
      · rw [hl, takenBack_spent ht hf hi hh hl hd.ready h]
        exact Nat.le_refl 1
    · rintro (hidle | ⟨-, hfew⟩)
      · exact takenBack_idle hd.ready hidle
      refine (takenBack_enough ht hf hi rsi hh hw).1 hd.ready hl ?_
      refine hfew.imp hglobal.mp (Or.imp_left fun hshort => ?_)
      cases chain with
      | nil => rfl
      | cons r rest =>
        exact List.length_eq_zero_iff.mp (Nat.le_zero.mp (Nat.le_of_succ_le_succ hshort))

/-- Signal 1, raised inside of the decider of a raise of it. -/
def nestedException : Exception where
  record := deliveredRecord .headers (raisedRecord .headers 1 none none)
  ptr := 1
  raise := some 1

def nestedInfo : Siginfo :=
  { win32PrepareRsi 1 nestedException with
    value := 9
    internalSighandler := some 0
    internalGlobalDecider := some 0 }

theorem nested_asked : ∃ s s' : WinState,
    Run (winStep .headers) (fun _ _ => True) (.initial oneDecider) s ∧
      winStep .headers s .advance = .ok s' ∧
      s'.trace = .asked nestedException (.global 0) nestedInfo :: s.trace ∧
      s'.inFlight = [1, 0] ∧ s'.tss = some (heads [1, 0]) ∧
      (s'.g.containers 0).isSome = true ∧
      okAnd ([.abandon, .resume, .abandon, .resume].foldlM AbandonCall.run (s', { nestedInfo with }))
        (fun r => !r.2.internalDeciderIsAbandoned && r.1.tss != s'.tss) = true := by
  obtain ⟨s, hr, hq⟩ := run_of_ends (f := winStep .headers) (r := fun _ _ => True)
    (s := .initial oneDecider) (c := fun _ _ => true)
    (q := fun s => okAnd (winStep .headers s .advance) fun s' =>
      s'.trace == .asked nestedException (.global 0) nestedInfo :: s.trace &&
        (s'.inFlight == [1, 0] && (s'.tss == some (heads [1, 0]) &&
          ((s'.g.containers 0).isSome &&
            okAnd ([.abandon, .resume, .abandon, .resume].foldlM AbandonCall.run
              (s', { nestedInfo with }))
              fun r => !r.2.internalDeciderIsAbandoned && r.1.tss != s'.tss))))
    (l := [.raise 1 none none {}, .advance, .advance, .raise 1 none none {}, .advance])
    (fun _ _ _ => trivial) (by decide +kernel)
  obtain ⟨s', hs', hq⟩ := okAnd_iff.mp hq
  simp only [Bool.and_eq_true, beq_iff_eq] at hq
  obtain ⟨htrace, hfl, htss, hk, hgone⟩ := hq
  exact ⟨s, s', hr, hs', htrace, hfl, htss, hk, by simpa using hgone⟩

theorem abandon_undone_iff_nested : ∃ (s : WinState) (rsi : WinSiginfo),
    WinDeciding s [1, 0] rsi ∧ TakenBack s (s, rsi) [.abandon, .abandon, .resume, .resume] := by
  obtain ⟨s, s', hr, hs', htrace, hfl, htss, hk, -⟩ := nested_asked
  have hd := winDeciding_asked .headers oneDecider hr hs' htrace fun item hitem => by
    obtain rfl := Option.some.inj hitem
    exact Option.isSome_iff_exists.mp hk
  rw [hfl] at hd
  exact ⟨s', { nestedInfo with }, hd,
    (abandon_undone_iff hd _).mpr (.inr ⟨by rw [htss]; rfl, .inr (.inr (by decide))⟩)⟩

/-- The second round takes the frame of the outer raise for that of the inner one. -/
theorem second_round_astray : ∃ s s' : WinState,
    Run (winStep .headers) (fun _ _ => True) (.initial oneDecider) s ∧
      winStep .headers s .advance = .ok s' ∧
      s'.trace = .asked nestedException (.global 0) nestedInfo :: s.trace ∧
      ¬ TakenBack s' (s', { nestedInfo with }) [.abandon, .resume, .abandon, .resume] := by
  obtain ⟨s, s', hr, hs', htrace, -, -, -, hgone⟩ := nested_asked
  refine ⟨s, s', hr, hs', htrace, fun h => ?_⟩
  obtain ⟨r, hrun, hsame⟩ := h _ List.prefix_rfl
  obtain ⟨r', hrun', hr'⟩ := okAnd_iff.mp hgone
  obtain rfl := Except.ok.inj (hrun.symm.trans hrun')
  simp only [Bool.and_eq_true, Bool.not_eq_true', bne_iff_ne] at hr'
  exact hr'.2 (hsame hr'.1).1

end Wg14Signals
